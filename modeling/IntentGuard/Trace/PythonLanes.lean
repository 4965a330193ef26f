import IntentGuard.Lib.Runs
import IntentGuard.Trace.PythonKeccak

/-!
# The lanes of the Python helper

The integers of `trace.py` do not wrap: a lane has 64 bits because each statement that could widen
it masks it. `keccak256Lanes` lists what `state`, `c`, `d` and `b` hold after every write of a call
of `keccak_256`, and `keccak256_correct` is that the call returns the Keccak-256 of its argument and
that no lane of that list is wider.
-/

namespace IntentGuard.Trace.Python

open Runs

/-- The lists that a loop over the lanes goes through. -/
def forXYLanes (body : ℕ → ℕ → List ℕ → List ℕ) (xs : List ℕ) : List (List ℕ) :=
  trail (fun xs q => body q.1 q.2 xs) (fun xs q => [body q.1 q.2 xs]) xs pairs

theorem getLast?_forXYLanes (body : ℕ → ℕ → List ℕ → List ℕ) (xs : List ℕ) :
    (forXYLanes body xs).getLast? = some (forXY body xs) := by
  rw [forXYLanes, getLast?_trail, forXY_eq_foldl]
  rfl

/-! ### The lists of a call -/

def columns (state : List ℕ) : List ℕ := (List.range 5).map fun x =>
  item state x ^^^ item state (x + 5) ^^^ item state (x + 10) ^^^ item state (x + 15) ^^^
    item state (x + 20)

def deltas (c : List ℕ) : List ℕ := (List.range 5).map fun x =>
  item c ((x + 4) % 5) ^^^ rotl64 (item c ((x + 1) % 5)) 1

def thetaBody (d : List ℕ) (x y : ℕ) (state : List ℕ) : List ℕ :=
  let index := x + 5 * y
  state.set index ((item state index ^^^ item d x) &&& MASK_64)

def rhoPiBody (state : List ℕ) (x y : ℕ) (b : List ℕ) : List ℕ :=
  let index := x + 5 * y
  let targetX := y
  let targetY := (2 * x + 3 * y) % 5
  b.set (targetX + 5 * targetY) (rotl64 (item state index) (item ROTATION_OFFSETS index))

def chiBody (b : List ℕ) (x y : ℕ) (state : List ℕ) : List ℕ :=
  let index := x + 5 * y
  state.set index
    ((item b index ^^^ (complement (item b ((x + 1) % 5 + 5 * y)) &&& item b ((x + 2) % 5 + 5 * y)))
      &&& MASK_64)

def xorLane (state : List ℕ) (lane value : ℕ) : List ℕ := state.set lane (item state lane ^^^ value)

def maskLane (state : List ℕ) (lane : ℕ) : List ℕ := state.set lane (item state lane &&& MASK_64)

/-- The lists of a round of `keccak_f`: `c` and `d`, `state` and `b` through their loops, and the
two writes of the round constant. -/
def keccakRoundLanes (state : List ℕ) (rc : ℕ) : List (List ℕ) :=
  let c := columns state
  let d := deltas c
  let mixed := forXY (thetaBody d) state
  let b := forXY (rhoPiBody mixed) (List.replicate 25 0)
  let combined := forXY (chiBody b) mixed
  [c, d] ++ forXYLanes (thetaBody d) state ++ forXYLanes (rhoPiBody mixed) (List.replicate 25 0) ++
    forXYLanes (chiBody b) mixed ++ [xorLane combined 0 rc, maskLane (xorLane combined 0 rc) 0]

def keccakFLanes (state : List ℕ) : List (List ℕ) :=
  trail keccakRound keccakRoundLanes state ROUND_CONSTANTS

/-- The lists of `absorb_block`, two writes a byte. -/
def absorbBlockLanes (state : List ℕ) (block : Bytes) : List (List ℕ) :=
  trail (fun state entry =>
    maskLane (xorLane state (entry.2 / 8) ((entry.1.toNat &&& 0xFF) <<< (8 * (entry.2 % 8))))
      (entry.2 / 8))
    (fun state entry =>
      let lane := entry.2 / 8
      let absorbed := xorLane state lane ((entry.1.toNat &&& 0xFF) <<< (8 * (entry.2 % 8)))
      [absorbed, maskLane absorbed lane])
    state block.zipIdx

def absorbLoopLanes (data : Bytes) : ℕ → List ℕ → ℕ → List (List ℕ)
  | 0, state, _ => [state]
  | fuel + 1, state, offset =>
    if offset + RATE_BYTES ≤ data.length then
      let block := (data.drop offset).take RATE_BYTES
      absorbBlockLanes state block ++ keccakFLanes (absorbBlock state block) ++
        absorbLoopLanes data fuel (keccakF (absorbBlock state block)) (offset + RATE_BYTES)
    else [state]

def keccak256Lanes (data : Bytes) : List (List ℕ) :=
  let (state, offset) := absorbLoop data data.length (List.replicate 25 0) 0
  let tail := data.drop offset ++ [0x01]
  let loop := absorbLoopLanes data data.length (List.replicate 25 0) 0
  if RATE_BYTES < tail.length then loop
  else
    let tail := flipLast (tail ++ List.replicate (RATE_BYTES - tail.length) 0x00)
    loop ++ absorbBlockLanes state tail ++ keccakFLanes (absorbBlock state tail)

/-! ### They end with what the functions return -/

theorem getLast?_keccakRoundLanes (state : List ℕ) (rc : ℕ) :
    (keccakRoundLanes state rc).getLast? = some (keccakRound state rc) := by
  unfold keccakRoundLanes
  dsimp only
  rw [List.getLast?_append]
  rfl

theorem getLast?_keccakFLanes (state : List ℕ) :
    (keccakFLanes state).getLast? = some (keccakF state) :=
  getLast?_trail _ _ _

theorem getLast?_absorbBlockLanes (state : List ℕ) (block : Bytes) :
    (absorbBlockLanes state block).getLast? = some (absorbBlock state block) :=
  getLast?_trail _ _ _

theorem getLast?_absorbLoopLanes (data : Bytes) (fuel : ℕ) (state : List ℕ) (offset : ℕ) :
    (absorbLoopLanes data fuel state offset).getLast? =
      some (absorbLoop data fuel state offset).1 := by
  induction fuel generalizing state offset with
  | zero => rfl
  | succ fuel ih =>
    unfold absorbLoopLanes absorbLoop
    split_ifs with hmore
    · dsimp only
      rw [List.getLast?_append, ih]
      rfl
    · rfl

/-- The digest is squeezed from the last of the lists. -/
theorem keccak256_eq_squeeze (data : Bytes) {digest : Bytes} (h : keccak256 data = .ok digest) :
    (keccak256Lanes data).getLast?.map squeeze = some digest := by
  unfold keccak256 at h
  unfold keccak256Lanes
  dsimp only at h ⊢
  split_ifs at h ⊢ with hoverflow
  rw [List.getLast?_append, getLast?_keccakFLanes]
  exact congrArg some (Except.ok.inj h)

/-! ### No lane is wider than 64 bits -/

def Masked (lanes : List ℕ) : Prop := ∀ lane ∈ lanes, lane < 2 ^ 64

theorem and_MASK_64_lt (n : ℕ) : n &&& MASK_64 < 2 ^ 64 := by
  rw [and_MASK_64]
  exact Nat.mod_lt _ (by decide)

theorem rotl64_lt (value shift : ℕ) : rotl64 value shift < 2 ^ 64 := by
  unfold rotl64
  dsimp only
  split_ifs
  · exact and_MASK_64_lt _
  · exact and_MASK_64_lt _

theorem masked_zeros : Masked (List.replicate 25 0) := by
  intro lane hlane
  rw [List.eq_of_mem_replicate hlane]
  decide

namespace Masked

variable {lanes : List ℕ}

theorem item (h : Masked lanes) (index : ℕ) : item lanes index < 2 ^ 64 := by
  unfold Python.item
  rw [List.getD_eq_getElem?_getD]
  cases hlane : lanes[index]? with
  | none => decide
  | some lane => exact h lane (List.mem_of_getElem? hlane)

theorem set (h : Masked lanes) {value : ℕ} (hvalue : value < 2 ^ 64) (index : ℕ) :
    Masked (lanes.set index value) := by
  intro lane hlane
  rcases List.mem_or_eq_of_mem_set hlane with hlane | rfl
  · exact h lane hlane
  · exact hvalue

theorem xorLane (h : Masked lanes) {value : ℕ} (hvalue : value < 2 ^ 64) (lane : ℕ) :
    Masked (xorLane lanes lane value) :=
  h.set (Nat.xor_lt_two_pow (h.item lane) hvalue) lane

theorem maskLane (h : Masked lanes) (lane : ℕ) : Masked (maskLane lanes lane) :=
  h.set (and_MASK_64_lt _) lane

theorem columns (h : Masked lanes) : Masked (columns lanes) := by
  intro lane hlane
  obtain ⟨x, -, rfl⟩ := List.mem_map.1 hlane
  have hfour :=
    Nat.xor_lt_two_pow
      (Nat.xor_lt_two_pow (Nat.xor_lt_two_pow (h.item x) (h.item (x + 5))) (h.item (x + 10)))
    (h.item (x + 15))
  exact Nat.xor_lt_two_pow hfour (h.item (x + 20))

theorem deltas (h : Masked lanes) : Masked (deltas lanes) := by
  intro lane hlane
  obtain ⟨x, -, rfl⟩ := List.mem_map.1 hlane
  exact Nat.xor_lt_two_pow (h.item _) (rotl64_lt _ _)

/-- A loop whose every write is masked. -/
theorem forXYLanes {body : ℕ → ℕ → List ℕ → List ℕ}
    (hbody : ∀ x y xs, Masked xs → Masked (body x y xs)) (h : Masked lanes) :
    ∀ xs ∈ forXYLanes body lanes, Masked xs := by
  apply forall_mem_trail (fun _ _ => rfl) _ h
  intro q _ xs hxs ys hys
  rw [List.mem_singleton.1 hys]
  exact hbody q.1 q.2 xs hxs

theorem forXY {body : ℕ → ℕ → List ℕ → List ℕ} (hbody : ∀ x y xs, Masked xs → Masked (body x y xs))
    (h : Masked lanes) : Masked (forXY body lanes) :=
  h.forXYLanes hbody _ (List.mem_of_getLast? (getLast?_forXYLanes body lanes))

theorem keccakRoundLanes {rc : ℕ} (hrc : rc < 2 ^ 64) (h : Masked lanes) :
    ∀ xs ∈ keccakRoundLanes lanes rc, Masked xs := by
  have htheta (d : List ℕ) : ∀ x y xs, Masked xs → Masked (thetaBody d x y xs) :=
    fun x y xs hxs => hxs.set (and_MASK_64_lt _) (x + 5 * y)
  have hrhoPi (state : List ℕ) : ∀ x y xs, Masked xs → Masked (rhoPiBody state x y xs) :=
    fun x y xs hxs => hxs.set (rotl64_lt _ _) _
  have hchi (b : List ℕ) : ∀ x y xs, Masked xs → Masked (chiBody b x y xs) :=
    fun x y xs hxs => hxs.set (and_MASK_64_lt _) (x + 5 * y)
  have hmixed := h.forXY (htheta (Python.deltas (Python.columns lanes)))
  intro xs hxs
  simp only [Python.keccakRoundLanes, List.mem_append, List.mem_cons, List.not_mem_nil,
    or_false] at hxs
  rcases hxs with (((hxs | hxs) | hxs) | hxs) | hxs
  · rcases hxs with rfl | rfl
    · exact h.columns
    · exact h.columns.deltas
  · exact h.forXYLanes (htheta _) xs hxs
  · exact masked_zeros.forXYLanes (hrhoPi _) xs hxs
  · exact hmixed.forXYLanes (hchi _) xs hxs
  · have hcombined (b : List ℕ) := (hmixed.forXY (hchi b)).xorLane hrc 0
    rcases hxs with hxs | hxs
    · rw [hxs]
      exact hcombined _
    · rw [hxs]
      exact Masked.maskLane (hcombined _) 0

theorem keccakFLanes (h : Masked lanes) : ∀ xs ∈ keccakFLanes lanes, Masked xs := by
  have hconstants : ∀ rc ∈ ROUND_CONSTANTS, rc < 2 ^ 64 := by decide
  apply forall_mem_trail getLast?_keccakRoundLanes _ h
  intro rc hrc xs hxs
  exact hxs.keccakRoundLanes (hconstants rc hrc)

theorem keccakF (h : Masked lanes) : Masked (keccakF lanes) :=
  h.keccakFLanes _ (List.mem_of_getLast? (getLast?_keccakFLanes lanes))

/-- A byte stands at one of the eight places of its lane. -/
theorem absorbBlockLanes (h : Masked lanes) (block : Bytes) :
    ∀ xs ∈ absorbBlockLanes lanes block, Masked xs := by
  apply forall_mem_trail (fun _ _ => rfl) _ h
  intro entry _ xs hxs ys hys
  have hbyte : entry.1.toNat &&& 0xFF < 2 ^ 8 := Nat.and_lt_two_pow _ (by decide)
  have hvalue : (entry.1.toNat &&& 0xFF) <<< (8 * (entry.2 % 8)) < 2 ^ 64 := by
    rw [Nat.shiftLeft_eq]
    calc (entry.1.toNat &&& 0xFF) * 2 ^ (8 * (entry.2 % 8))
        < 2 ^ 8 * 2 ^ (8 * (entry.2 % 8)) := Nat.mul_lt_mul_of_pos_right hbyte (Nat.two_pow_pos _)
      _ = 2 ^ (8 + 8 * (entry.2 % 8)) := (Nat.pow_add _ _ _).symm
      _ ≤ 2 ^ 64 := Nat.pow_le_pow_right (by decide) (by omega)
  have habsorbed := hxs.xorLane hvalue (entry.2 / 8)
  simp only [List.mem_cons, List.not_mem_nil, or_false] at hys
  rcases hys with rfl | rfl
  · exact habsorbed
  · exact habsorbed.maskLane _

theorem absorbBlock (h : Masked lanes) (block : Bytes) : Masked (absorbBlock lanes block) :=
  h.absorbBlockLanes block _ (List.mem_of_getLast? (getLast?_absorbBlockLanes lanes block))

theorem absorbLoopLanes (data : Bytes) (fuel : ℕ) (h : Masked lanes) (offset : ℕ) :
    ∀ xs ∈ absorbLoopLanes data fuel lanes offset, Masked xs := by
  induction fuel generalizing lanes offset with
  | zero =>
    intro xs hxs
    rw [List.mem_singleton.1 hxs]
    exact h
  | succ fuel ih =>
    unfold Python.absorbLoopLanes
    split_ifs with hmore
    · intro xs hxs
      have habsorbed := h.absorbBlock ((data.drop offset).take RATE_BYTES)
      rcases List.mem_append.1 hxs with hxs | hxs
      · rcases List.mem_append.1 hxs with hxs | hxs
        · exact h.absorbBlockLanes _ xs hxs
        · exact habsorbed.keccakFLanes xs hxs
      · exact ih habsorbed.keccakF _ xs hxs
    · intro xs hxs
      rw [List.mem_singleton.1 hxs]
      exact h

end Masked

theorem masked_keccak256Lanes (data : Bytes) : ∀ lanes ∈ keccak256Lanes data, Masked lanes := by
  have hloop := masked_zeros.absorbLoopLanes data data.length 0
  have hstate := hloop _ (List.mem_of_getLast? (getLast?_absorbLoopLanes data data.length _ 0))
  unfold keccak256Lanes
  dsimp only
  split_ifs
  · exact hloop
  · intro lanes hlanes
    rcases List.mem_append.1 hlanes with hlanes | hlanes
    · rcases List.mem_append.1 hlanes with hlanes | hlanes
      · exact hloop lanes hlanes
      · exact hstate.absorbBlockLanes _ lanes hlanes
    · exact (hstate.absorbBlock _).keccakFLanes lanes hlanes

/-- The helper's hash is Keccak-256 for every message: the padding never overflows, the digest is
squeezed from the last of the lists that the call goes through, and the lanes of each stay below
`2 ^ 64`. -/
theorem keccak256_correct (data : Bytes) :
    keccak256 data = .ok (Keccak256.keccak256 data) ∧
      (keccak256Lanes data).getLast?.map squeeze = some (Keccak256.keccak256 data) ∧
      ∀ lanes ∈ keccak256Lanes data, ∀ lane ∈ lanes, lane < 2 ^ 64 := by
  have hdigest := keccak256_eq data
  exact ⟨hdigest, keccak256_eq_squeeze data hdigest, masked_keccak256Lanes data⟩

end IntentGuard.Trace.Python
