import IntentGuard.Lib.Keccak256
import Mathlib.Logic.Function.Basic

/-!
# The hash of the Python helper

`keccak_256` of `trace.py`, on lanes that are integers masked to 64 bits, and that it is Keccak-256
(`keccak256_eq`). Each loop over the lanes writes every lane once, so a round is the table of what
its loops write (`keccakRound_table`), and the table of a round stands for the round of the standard
(`Stands.round`).
-/

namespace IntentGuard.Trace.Python

def MASK_64 : ℕ := (1 <<< 64) - 1

def RATE_BYTES : ℕ := 136

def ROTATION_OFFSETS : List ℕ :=
  [0, 1, 62, 28, 27,
    36, 44, 6, 55, 20,
    3, 10, 43, 25, 39,
    41, 45, 15, 21, 8,
    18, 2, 61, 56, 14]

def ROUND_CONSTANTS : List ℕ :=
  [0x0000000000000001, 0x0000000000008082, 0x800000000000808A, 0x8000000080008000,
    0x000000000000808B, 0x0000000080000001, 0x8000000080008081, 0x8000000000008009,
    0x000000000000008A, 0x0000000000000088,
    0x0000000080008009, 0x000000008000000A, 0x000000008000808B, 0x800000000000008B,
    0x8000000000008089,
    0x8000000000008003, 0x8000000000008002, 0x8000000000000080, 0x000000000000800A,
    0x800000008000000A,
    0x8000000080008081, 0x8000000000008080, 0x0000000080000001, 0x8000000080008008]

/-- `xs[index]`. -/
def item (xs : List ℕ) (index : ℕ) : ℕ := xs.getD index 0

def rotl64 (value shift : ℕ) : ℕ :=
  let shift := shift % 64
  if shift = 0 then value &&& MASK_64
  else ((value <<< shift) ||| (value >>> (64 - shift))) &&& MASK_64

/-- `~b & MASK_64`. -/
def complement (b : ℕ) : ℕ := MASK_64 ^^^ (MASK_64 &&& b)

/-- `for x in range(5): for y in range(5)`. -/
def forXY (body : ℕ → ℕ → List ℕ → List ℕ) (xs : List ℕ) : List ℕ :=
  (List.range 5).foldl (fun xs x => (List.range 5).foldl (fun xs y => body x y xs) xs) xs

/-- The body of the loop of `keccak_f`. -/
def keccakRound (state : List ℕ) (rc : ℕ) : List ℕ :=
  let c := (List.range 5).map fun x =>
    item state x ^^^ item state (x + 5) ^^^ item state (x + 10) ^^^ item state (x + 15) ^^^
      item state (x + 20)
  let d := (List.range 5).map fun x => item c ((x + 4) % 5) ^^^ rotl64 (item c ((x + 1) % 5)) 1
  let state := forXY (fun x y state =>
    let index := x + 5 * y
    state.set index ((item state index ^^^ item d x) &&& MASK_64)) state
  let b := forXY (fun x y b =>
    let index := x + 5 * y
    let targetX := y
    let targetY := (2 * x + 3 * y) % 5
    b.set (targetX + 5 * targetY) (rotl64 (item state index) (item ROTATION_OFFSETS index)))
      (List.replicate 25 0)
  let state := forXY (fun x y state =>
    let index := x + 5 * y
    state.set index
      ((item b index ^^^
        (complement (item b ((x + 1) % 5 + 5 * y)) &&& item b ((x + 2) % 5 + 5 * y))) &&& MASK_64))
    state
  let state := state.set 0 (item state 0 ^^^ rc)
  state.set 0 (item state 0 &&& MASK_64)

def keccakF (state : List ℕ) : List ℕ := ROUND_CONSTANTS.foldl keccakRound state

def absorbBlock (state : List ℕ) (block : Bytes) : List ℕ :=
  block.zipIdx.foldl (fun state entry =>
    let lane := entry.2 / 8
    let shift := 8 * (entry.2 % 8)
    let state := state.set lane (item state lane ^^^ ((entry.1.toNat &&& 0xFF) <<< shift))
    state.set lane (item state lane &&& MASK_64)) state

/-- The loop over the full blocks, which ends within as many steps as there are bytes. -/
def absorbLoop (data : Bytes) : ℕ → List ℕ → ℕ → List ℕ × ℕ
  | 0, state, offset => (state, offset)
  | fuel + 1, state, offset =>
    if offset + RATE_BYTES ≤ data.length then
      absorbLoop data fuel (keccakF (absorbBlock state ((data.drop offset).take RATE_BYTES)))
        (offset + RATE_BYTES)
    else (state, offset)

/-- Of the 136 bytes that a state yields, the loop returns the first 32. -/
def squeeze (state : List ℕ) : Bytes :=
  ((List.range RATE_BYTES).take 32).map fun index =>
    UInt8.ofNat ((item state (index / 8) >>> (8 * (index % 8))) &&& 0xFF)

/-- `tail[-1] ^= 0x80`. -/
def flipLast (tail : Bytes) : Bytes :=
  tail.set (tail.length - 1) (tail.getD (tail.length - 1) 0 ^^^ 0x80)

def keccak256 (data : Bytes) : Except String Bytes :=
  let (state, offset) := absorbLoop data data.length (List.replicate 25 0) 0
  let tail := data.drop offset ++ [0x01]
  if RATE_BYTES < tail.length then .error "Unexpected keccak padding overflow"
  else
    let tail := flipLast (tail ++ List.replicate (RATE_BYTES - tail.length) 0x00)
    .ok (squeeze (keccakF (absorbBlock state tail)))

example : ((keccak256 []).map fun digest => digest.take 4) = .ok [0xc5, 0xd2, 0x46, 0x01] := by
  decide +kernel

/-! ### Loops over the lanes -/

/-- The list of `f 0, …, f 24`. -/
def table (f : ℕ → ℕ) : List ℕ := (List.range 25).map f

theorem item_map_range (f : ℕ → ℕ) {i n : ℕ} (hi : i < n) :
    item ((List.range n).map f) i = f i := by
  unfold item
  rw [List.getD_eq_getElem?_getD, List.getElem?_map, List.getElem?_range hi]
  rfl

theorem item_table (f : ℕ → ℕ) {i : ℕ} (hi : i < 25) : item (table f) i = f i := item_map_range f hi

theorem set_table (f : ℕ → ℕ) (i v : ℕ) : (table f).set i v = table (Function.update f i v) := by
  apply List.ext_getElem (by simp [table])
  intro j hj hj'
  rw [List.getElem_set]
  simp only [table, List.getElem_map, List.getElem_range, Function.update_apply]
  by_cases h : i = j
  · rw [if_pos h, if_pos h.symm]
  · rw [if_neg h, if_neg (Ne.symm h)]

theorem table_congr {f f' : ℕ → ℕ} (h : ∀ i < 25, f i = f' i) : table f = table f' :=
  List.map_congr_left fun i hi => h i (List.mem_range.1 hi)

/-- The pairs in the order of the loops. -/
def pairs : List (ℕ × ℕ) := (List.range 5).flatMap fun x => (List.range 5).map fun y => (x, y)

theorem forXY_eq_foldl (body : ℕ → ℕ → List ℕ → List ℕ) (xs : List ℕ) :
    forXY body xs = pairs.foldl (fun xs q => body q.1 q.2 xs) xs := by
  unfold forXY pairs
  rw [List.foldl_flatMap]
  simp only [List.foldl_map]

section
variable (position : ℕ × ℕ → ℕ) (value : ℕ × ℕ → ℕ → ℕ)

/-- The lanes after a loop that updates them one after the other. -/
def updated (L : List (ℕ × ℕ)) (f : ℕ → ℕ) : ℕ → ℕ :=
  L.foldl (fun f q => Function.update f (position q) (value q (f (position q)))) f

theorem updated_cons (q : ℕ × ℕ) (L : List (ℕ × ℕ)) (f : ℕ → ℕ) :
    updated position value (q :: L) f =
      updated position value L (Function.update f (position q) (value q (f (position q)))) := rfl

theorem foldl_set_table {L : List (ℕ × ℕ)} (hL : ∀ q ∈ L, position q < 25) (f : ℕ → ℕ) :
    L.foldl (fun xs q => xs.set (position q) (value q (item xs (position q)))) (table f) =
      table (updated position value L f) := by
  induction L generalizing f with
  | nil => rfl
  | cons q L ih =>
    rw [List.forall_mem_cons] at hL
    rw [List.foldl_cons, item_table f hL.1, set_table, ih hL.2]
    rfl

theorem updated_of_not_mem {L : List (ℕ × ℕ)} {i : ℕ} (hi : i ∉ L.map position) (f : ℕ → ℕ) :
    updated position value L f i = f i := by
  induction L generalizing f with
  | nil => rfl
  | cons q L ih =>
    rw [List.map_cons, List.mem_cons, not_or] at hi
    rw [updated_cons, ih hi.2, Function.update_of_ne hi.1]

/-- No lane is written twice, so each has been written from what it was. -/
theorem updated_position {L : List (ℕ × ℕ)} (hL : (L.map position).Nodup) {q : ℕ × ℕ}
    (hq : q ∈ L) (f : ℕ → ℕ) :
    updated position value L f (position q) = value q (f (position q)) := by
  induction L generalizing f with
  | nil => exact absurd hq List.not_mem_nil
  | cons q' L ih =>
    rw [List.map_cons, List.nodup_cons] at hL
    rw [updated_cons]
    rcases List.mem_cons.1 hq with rfl | hq
    · rw [updated_of_not_mem position value hL.1, Function.update_self]
    · have hne : position q ≠ position q' := by
        intro h
        exact hL.1 (h ▸ List.mem_map_of_mem hq)
      rw [ih hL.2 hq, Function.update_of_ne hne]

end

/-- A loop that rewrites every lane in its place. -/
theorem forXY_update (g : ℕ → ℕ → ℕ → ℕ) (f : ℕ → ℕ) :
    forXY (fun x y xs => xs.set (x + 5 * y) (g x y (item xs (x + 5 * y)))) (table f) =
      table fun i => g (i % 5) (i / 5) (f i) := by
  rw [forXY_eq_foldl, foldl_set_table (fun q => q.1 + 5 * q.2) (fun q => g q.1 q.2) (by decide)]
  apply table_congr
  intro i hi
  have hq : (i % 5, i / 5) ∈ pairs := by
    simp [pairs]
    omega
  have hposition : i % 5 + 5 * (i / 5) = i := by omega
  have hvalue := updated_position (fun q => q.1 + 5 * q.2) (fun q => g q.1 q.2) (by decide) hq f
  rwa [hposition] at hvalue

/-- The loop of the steps ρ and π, from the lanes at whose places others are written. -/
theorem forXY_move (h : ℕ → ℕ) :
    forXY (fun x y xs => xs.set (y + 5 * ((2 * x + 3 * y) % 5)) (h (x + 5 * y)))
      (List.replicate 25 0) =
      table fun i => h ((i % 5 + 3 * (i / 5)) % 5 + 5 * (i % 5)) := by
  have hzeros : List.replicate 25 0 = table fun _ => 0 := by decide
  rw [hzeros, forXY_eq_foldl,
    foldl_set_table (fun q => q.2 + 5 * ((2 * q.1 + 3 * q.2) % 5)) (fun q _ => h (q.1 + 5 * q.2))
      (by decide)]
  apply table_congr
  intro i hi
  have hq : ((i % 5 + 3 * (i / 5)) % 5, i % 5) ∈ pairs := by
    simp [pairs]
    omega
  have hposition : i % 5 + 5 * ((2 * ((i % 5 + 3 * (i / 5)) % 5) + 3 * (i % 5)) % 5) = i := by omega
  have hvalue :=
    updated_position (fun q => q.2 + 5 * ((2 * q.1 + 3 * q.2) % 5)) (fun q _ => h (q.1 + 5 * q.2))
    (by decide) hq fun _ => 0
  dsimp only at hvalue
  rwa [hposition] at hvalue

/-! ### A round -/

def columnTable (f : ℕ → ℕ) (x : ℕ) : ℕ :=
  f x ^^^ f (x + 5) ^^^ f (x + 10) ^^^ f (x + 15) ^^^ f (x + 20)

def deltaTable (f : ℕ → ℕ) (x : ℕ) : ℕ :=
  columnTable f ((x + 4) % 5) ^^^ rotl64 (columnTable f ((x + 1) % 5)) 1

def thetaTable (f : ℕ → ℕ) (i : ℕ) : ℕ := (f i ^^^ deltaTable f (i % 5)) &&& MASK_64

def rhoPiTable (f : ℕ → ℕ) (i : ℕ) : ℕ :=
  let source := (i % 5 + 3 * (i / 5)) % 5 + 5 * (i % 5)
  rotl64 (f source) (item ROTATION_OFFSETS source)

def chiTable (f : ℕ → ℕ) (i : ℕ) : ℕ :=
  (f i ^^^ (complement (f ((i % 5 + 1) % 5 + 5 * (i / 5))) &&& f ((i % 5 + 2) % 5 + 5 * (i / 5))))
    &&& MASK_64

def iotaTable (rc : ℕ) (f : ℕ → ℕ) : ℕ → ℕ := Function.update f 0 ((f 0 ^^^ rc) &&& MASK_64)

theorem keccakRound_table (f : ℕ → ℕ) (rc : ℕ) :
    keccakRound (table f) rc = table (iotaTable rc (chiTable (rhoPiTable (thetaTable f)))) := by
  have hcolumns :
      ((List.range 5).map fun x => item (table f) x ^^^ item (table f) (x + 5) ^^^
          item (table f) (x + 10) ^^^ item (table f) (x + 15) ^^^ item (table f) (x + 20)) =
        (List.range 5).map (columnTable f) := by
    apply List.map_congr_left
    intro x hx
    have hx := List.mem_range.1 hx
    rw [item_table f (by omega), item_table f (by omega), item_table f (by omega),
      item_table f (by omega), item_table f (by omega), columnTable]
  have hdeltas :
      ((List.range 5).map fun x => item ((List.range 5).map (columnTable f)) ((x + 4) % 5) ^^^
          rotl64 (item ((List.range 5).map (columnTable f)) ((x + 1) % 5)) 1) =
        (List.range 5).map (deltaTable f) := by
    apply List.map_congr_left
    intro x hx
    rw [item_map_range _ (by omega), item_map_range _ (by omega), deltaTable]
  have htheta : forXY (fun x y state => state.set (x + 5 * y)
      ((item state (x + 5 * y) ^^^ item ((List.range 5).map (deltaTable f)) x) &&& MASK_64))
        (table f) =
        table (thetaTable f) := by
    rw [forXY_update
      (fun x _ lane => (lane ^^^ item ((List.range 5).map (deltaTable f)) x) &&& MASK_64)]
    apply table_congr
    intro i hi
    rw [item_map_range _ (by omega), thetaTable]
  have hmove (f : ℕ → ℕ) : forXY (fun x y b => b.set (y + 5 * ((2 * x + 3 * y) % 5))
      (rotl64 (item (table f) (x + 5 * y)) (item ROTATION_OFFSETS (x + 5 * y))))
        (List.replicate 25 0) =
        table (rhoPiTable f) := by
    rw [forXY_move fun i => rotl64 (item (table f) i) (item ROTATION_OFFSETS i)]
    apply table_congr
    intro i hi
    rw [item_table f (by omega), rhoPiTable]
  have hchi (f f' : ℕ → ℕ) : forXY (fun x y state => state.set (x + 5 * y)
      ((item (table f) (x + 5 * y) ^^^ (complement (item (table f) ((x + 1) % 5 + 5 * y)) &&&
        item (table f) ((x + 2) % 5 + 5 * y))) &&& MASK_64)) (table f') = table (chiTable f) := by
    rw [forXY_update fun x y _ =>
      (item (table f) (x + 5 * y) ^^^ (complement (item (table f) ((x + 1) % 5 + 5 * y)) &&&
        item (table f) ((x + 2) % 5 + 5 * y))) &&& MASK_64]
    apply table_congr
    intro i hi
    have hi' : i % 5 + 5 * (i / 5) = i := by omega
    rw [item_table f (by omega), item_table f (by omega), item_table f (by omega), hi', chiTable]
  unfold keccakRound
  dsimp only
  rw [hcolumns, hdeltas, htheta, hmove, hchi, item_table _ (by decide), set_table,
    item_table _ (by decide), set_table, Function.update_self, Function.update_idem]
  rfl

/-! ### The standard -/

open Keccak256 (Lane State)

/-- The table holds the lanes of the state. -/
def Stands (f : ℕ → ℕ) (A : State) : Prop := ∀ x y : Fin 5, f (x.val + 5 * y.val) = (A x y).toNat

theorem and_MASK_64 (n : ℕ) : n &&& MASK_64 = n % 2 ^ 64 := Nat.and_two_pow_sub_one_eq_mod n 64

theorem mask_toNat (L : Lane) : L.toNat &&& MASK_64 = L.toNat := by
  rw [and_MASK_64, Nat.mod_eq_of_lt L.isLt]

theorem xor_mask (L M : Lane) : (L.toNat ^^^ M.toNat) &&& MASK_64 = (L ^^^ M).toNat := by
  rw [← BitVec.toNat_xor, mask_toNat]

theorem rotl64_toNat (L : Lane) {shift offset : ℕ} (h : shift = offset % 64) :
    rotl64 L.toNat shift = (L.rotateLeft offset).toNat := by
  have hshift : shift % 64 = offset % 64 := by omega
  unfold rotl64
  dsimp only
  rw [hshift, BitVec.toNat_rotateLeft]
  split_ifs with hzero
  · rw [mask_toNat, hzero, Nat.shiftLeft_zero, Nat.mod_eq_of_lt L.isLt, Nat.sub_zero,
      Nat.shiftRight_eq_div_pow, Nat.div_eq_of_lt L.isLt, Nat.or_zero]
  · have hlt : L.toNat >>> (64 - offset % 64) < 2 ^ 64 := (Nat.shiftRight_le _ _).trans_lt L.isLt
    rw [and_MASK_64, Nat.or_mod_two_pow, Nat.mod_eq_of_lt hlt]

theorem complement_toNat (L : Lane) : complement L.toNat = (~~~L).toNat := by
  have hmask : MASK_64 = (BitVec.allOnes 64).toNat := by decide
  unfold complement
  rw [hmask, ← BitVec.toNat_and, ← BitVec.toNat_xor]
  congr 1
  rw [BitVec.allOnes_and, BitVec.allOnes_xor]

namespace Stands

variable {f : ℕ → ℕ} {A : State}

theorem column (h : Stands f A) (x : Fin 5) :
    columnTable f x.val = (Keccak256.columnParity A x).toNat := by
  unfold columnTable Keccak256.columnParity
  rw [BitVec.toNat_xor, BitVec.toNat_xor, BitVec.toNat_xor, BitVec.toNat_xor, ← h x 0, ← h x 1,
    ← h x 2, ← h x 3, ← h x 4]
  rfl

theorem theta (h : Stands f A) : Stands (thetaTable f) (Keccak256.theta A) := by
  intro x y
  have hx : (x.val + 5 * y.val) % 5 = x.val := by omega
  have hbefore : (x.val + 4) % 5 = (x - 1).val := by decide +revert
  have hafter : (x.val + 1) % 5 = (x + 1).val := by decide +revert
  unfold thetaTable deltaTable Keccak256.theta
  rw [hx, hbefore, hafter, h, h.column, h.column, rotl64_toNat _ (show 1 = 1 % 64 by decide),
    ← BitVec.toNat_xor, xor_mask]

theorem rhoPi (h : Stands f A) : Stands (rhoPiTable f) (Keccak256.pi (Keccak256.rho A)) := by
  intro x y
  have hsource : ((x.val + 5 * y.val) % 5 + 3 * ((x.val + 5 * y.val) / 5)) % 5 +
      5 * ((x.val + 5 * y.val) % 5) =
      (x + 3 * y).val + 5 * x.val := by decide +revert
  have hoffset : ∀ x y : Fin 5,
      item ROTATION_OFFSETS (x.val + 5 * y.val) = Keccak256.offset x y % 64 := by decide
  unfold rhoPiTable Keccak256.pi Keccak256.rho
  dsimp only
  rw [hsource, h, rotl64_toNat _ (hoffset _ _)]

theorem chi (h : Stands f A) : Stands (chiTable f) (Keccak256.chi A) := by
  intro x y
  have hx : (x.val + 5 * y.val) % 5 = x.val := by omega
  have hy : (x.val + 5 * y.val) / 5 = y.val := by omega
  have hone : (x.val + 1) % 5 = (x + 1).val := by decide +revert
  have htwo : (x.val + 2) % 5 = (x + 2).val := by decide +revert
  unfold chiTable Keccak256.chi
  rw [hx, hy, hone, htwo, h, h, h, complement_toNat, ← BitVec.toNat_and, xor_mask]

theorem iota (h : Stands f A) (RC : Lane) :
    Stands (iotaTable RC.toNat f) (Keccak256.iota RC A) := by
  intro x y
  unfold iotaTable Keccak256.iota
  by_cases horigin : x = 0 ∧ y = 0
  · obtain ⟨rfl, rfl⟩ := horigin
    rw [if_pos ⟨rfl, rfl⟩, ← xor_mask, ← h 0 0]
    rfl
  · have hne : x.val + 5 * y.val ≠ 0 := by omega
    rw [if_neg horigin, Function.update_of_ne hne, h]

/-- A round on the table is the round of the standard. -/
theorem round (h : Stands f A) (RC : Lane) :
    Stands (iotaTable RC.toNat (chiTable (rhoPiTable (thetaTable f)))) (Keccak256.round A RC) :=
  h.theta.rhoPi.chi.iota RC

end Stands

theorem ROUND_CONSTANTS_eq :
    ROUND_CONSTANTS = ((List.range 24).map Keccak256.roundConstant).map BitVec.toNat := by
  decide +kernel

/-- `keccak_f` is the permutation. -/
theorem keccakF_table {f : ℕ → ℕ} {A : State} (h : Stands f A) :
    ∃ f', keccakF (table f) = table f' ∧ Stands f' (Keccak256.permute A) := by
  unfold keccakF Keccak256.permute
  rw [ROUND_CONSTANTS_eq]
  generalize (List.range 24).map Keccak256.roundConstant = RCs
  induction RCs generalizing f A with
  | nil => exact ⟨f, rfl, h⟩
  | cons RC RCs ih =>
    rw [List.map_cons, List.foldl_cons, List.foldl_cons, keccakRound_table]
    exact ih (h.round RC)

/-! ### Absorbing -/

/-- The bytes of a block that belong to a lane. -/
def laneBytes (block : Bytes) (i : ℕ) : Bytes := (block.drop (8 * i)).take 8

def laneValue (bytes : Bytes) : ℕ := Nat.ofDigits 256 (bytes.map UInt8.toNat)

theorem laneValue_lt (bytes : Bytes) : laneValue bytes < 256 ^ bytes.length := by
  have hlt : ∀ x ∈ bytes.map UInt8.toNat, x < 256 := by
    intro x hx
    obtain ⟨b, -, rfl⟩ := List.mem_map.1 hx
    exact b.toNat_lt
  have h := Nat.ofDigits_lt_base_pow_length (by decide) hlt
  rwa [List.length_map] at h

theorem laneValue_laneBytes_lt (block : Bytes) (i : ℕ) :
    laneValue (laneBytes block i) < 2 ^ 64 := by
  have hlength : (laneBytes block i).length ≤ 8 := by
    unfold laneBytes
    rw [List.length_take]
    omega
  calc laneValue (laneBytes block i) < 256 ^ (laneBytes block i).length := laneValue_lt _
    _ ≤ 256 ^ 8 := Nat.pow_le_pow_right (by decide) hlength
    _ = 2 ^ 64 := by decide

/-- A byte above the ones read so far is added. -/
theorem xor_shiftLeft {D k : ℕ} (hD : D < 256 ^ k) (b : ℕ) :
    D ^^^ (b <<< (8 * k)) = D + 256 ^ k * b := by
  have hpow : 256 ^ k = 2 ^ (8 * k) := by rw [Nat.pow_mul]
  rw [hpow] at hD ⊢
  apply Nat.eq_of_testBit_eq
  intro j
  rw [Nat.add_comm, Nat.testBit_two_pow_mul_add b hD, Nat.testBit_xor, Nat.testBit_shiftLeft]
  split_ifs with hj
  · rw [decide_eq_false (by omega), Bool.false_and, Bool.xor_false]
  · have hhigh : D.testBit j = false :=
      Nat.testBit_lt_two_pow (hD.trans_le (Nat.pow_le_pow_right (by decide) (by omega)))
    rw [hhigh, decide_eq_true (by omega), Bool.true_and, Bool.false_xor]

theorem laneBytes_concat (block : Bytes) (b : UInt8) (i : ℕ) :
    laneBytes (block ++ [b]) i = if i = block.length / 8 then laneBytes block i ++ [b]
      else laneBytes block i := by
  unfold laneBytes
  split_ifs with hi
  · have hle : 8 * i ≤ block.length := by omega
    have hdrop : (block.drop (8 * i)).length < 8 := by
      rw [List.length_drop]
      omega
    rw [List.drop_append_of_le_length hle,
      List.take_of_length_le (by rw [List.length_append, List.length_singleton]; omega),
        List.take_of_length_le (by omega)]
  · by_cases hlt : block.length < 8 * i
    · rw [List.drop_eq_nil_of_le (by rw [List.length_append, List.length_singleton]; omega),
        List.drop_eq_nil_of_le (by omega)]
    · rw [List.drop_append_of_le_length (by omega), List.take_append_of_le_length]
      rw [List.length_drop]
      omega

/-- The lanes after a block has been absorbed byte by byte. -/
theorem absorbBlock_table {f : ℕ → ℕ} (hf : ∀ i < 25, f i < 2 ^ 64) {block : Bytes}
    (hlength : block.length ≤ 200) :
    absorbBlock (table f) block = table fun i => f i ^^^ laneValue (laneBytes block i) := by
  induction block using List.reverseRecOn with
  | nil =>
    apply table_congr
    intro i hi
    simp [laneBytes, laneValue]
  | append_singleton block b ih =>
    rw [List.length_append, List.length_singleton] at hlength
    have ih := ih (by omega)
    unfold absorbBlock at ih ⊢
    have hbyte : b.toNat &&& 0xFF = b.toNat := by
      rw [show 0xFF = 2 ^ 8 - 1 by decide, Nat.and_two_pow_sub_one_eq_mod,
        Nat.mod_eq_of_lt b.toNat_lt]
    rw [List.zipIdx_append, List.foldl_append, ih]
    simp only [List.zipIdx_cons, List.zipIdx_nil, List.foldl_cons, List.foldl_nil,
      Nat.zero_add, hbyte]
    rw [item_table _ (by omega), set_table, item_table _ (by omega), set_table,
      Function.update_self, Function.update_idem]
    apply table_congr
    intro i hi
    rw [laneBytes_concat]
    by_cases hlane : i = block.length / 8
    · rw [if_pos hlane, ← hlane, Function.update_self]
      have hread : (laneBytes block i).length = block.length % 8 := by
        unfold laneBytes
        rw [List.length_take, List.length_drop]
        omega
      have hvalue : laneValue (laneBytes block i ++ [b]) =
          laneValue (laneBytes block i) ^^^ (b.toNat <<< (8 * (block.length % 8))) := by
        rw [xor_shiftLeft (hread ▸ laneValue_lt _), ← hread]
        unfold laneValue
        rw [List.map_append, Nat.ofDigits_append, List.length_map]
        simp
      have hlt : laneValue (laneBytes block i ++ [b]) < 2 ^ 64 := by
        calc laneValue (laneBytes block i ++ [b]) < 256 ^ (laneBytes block i ++ [b]).length :=
          laneValue_lt _
          _ ≤ 256 ^ 8 := Nat.pow_le_pow_right (by decide) (by
            rw [List.length_append, List.length_singleton]
            omega)
          _ = 2 ^ 64 := by decide
      rw [Nat.xor_assoc, ← hvalue, and_MASK_64, Nat.mod_eq_of_lt (Nat.xor_lt_two_pow (hf i hi) hlt)]
    · rw [if_neg hlane, Function.update_of_ne hlane]

theorem Stands.lt {f : ℕ → ℕ} {A : State} (h : Stands f A) {i : ℕ} (hi : i < 25) :
    f i < 2 ^ 64 := by
  have hx : i % 5 + 5 * (i / 5) = i := by omega
  have hlane := h ⟨i % 5, by omega⟩ ⟨i / 5, by omega⟩
  dsimp only at hlane
  rw [← hx, hlane]
  exact (A _ _).isLt

/-- A block is absorbed and permuted as by the standard. -/
theorem keccakF_absorbBlock {f : ℕ → ℕ} {A : State} (h : Stands f A) {block : Bytes}
    (hlength : block.length ≤ 200) :
    ∃ f', keccakF (absorbBlock (table f) block) = table f' ∧
      Stands f' (Keccak256.absorbBlock A block) := by
  rw [absorbBlock_table (fun i hi => h.lt hi) hlength]
  apply keccakF_table
  intro x y
  have hvalue : (Keccak256.laneOf (laneBytes block (x.val + 5 * y.val))).toNat =
      laneValue (laneBytes block (x.val + 5 * y.val)) := by
    unfold Keccak256.laneOf
    rw [BitVec.toNat_ofNat]
    exact Nat.mod_eq_of_lt (laneValue_laneBytes_lt _ _)
  dsimp only
  rw [h, ← hvalue, ← BitVec.toNat_xor]
  rfl

/-! ### The sponge -/

/-- Block `i` of a message. -/
def blockAt (message : Bytes) (i : ℕ) : Bytes := (message.drop (RATE_BYTES * i)).take RATE_BYTES

theorem absorbLoop_eq (data : Bytes) {m k fuel : ℕ} (hm : k + m = data.length / RATE_BYTES)
    (hfuel : m ≤ fuel) {f : ℕ → ℕ} {A : State} (h : Stands f A) :
    ∃ f', absorbLoop data fuel (table f) (RATE_BYTES * k) =
      (table f', RATE_BYTES * (data.length / RATE_BYTES)) ∧
      Stands f' (((List.range' k m).map (blockAt data)).foldl Keccak256.absorbBlock A) := by
  induction m generalizing k fuel f A with
  | zero =>
    have hlast : ¬ 136 * k + 136 ≤ data.length := by
      have hm : k = data.length / 136 := hm
      omega
    refine ⟨f, ?_, h⟩
    rw [← hm, Nat.add_zero]
    cases fuel with
    | zero => rfl
    | succ fuel => exact if_neg hlast
  | succ m ih =>
    obtain ⟨fuel, rfl⟩ : ∃ n, fuel = n + 1 := ⟨fuel - 1, by omega⟩
    have hblock : (blockAt data k).length ≤ 200 := by
      have hrate : RATE_BYTES = 136 := rfl
      unfold blockAt
      rw [List.length_take]
      omega
    have hmore : RATE_BYTES * k + RATE_BYTES ≤ data.length := by
      have hm : k + (m + 1) = data.length / 136 := hm
      show 136 * k + 136 ≤ data.length
      omega
    obtain ⟨f', hstate, hstands⟩ := keccakF_absorbBlock h hblock
    obtain ⟨f'', hloop, hlast⟩ := ih (k := k + 1) (by omega) (Nat.le_of_succ_le_succ hfuel) hstands
    refine ⟨f'', ?_, hlast⟩
    rw [absorbLoop, if_pos hmore]
    show absorbLoop data fuel (keccakF (absorbBlock (table f) (blockAt data k))) _ = _
    rw [hstate]
    exact hloop

theorem flipLast_concat (tail : Bytes) (b : UInt8) :
    flipLast (tail ++ [b]) = tail ++ [b ^^^ 0x80] := by
  unfold flipLast
  have hlast : (tail ++ [b]).length - 1 = tail.length := by simp
  rw [hlast, List.getD_eq_getElem?_getD, List.getElem?_concat_length,
    List.set_append_right _ _ (Nat.le_refl _), Nat.sub_self]
  rfl

/-- The bytes after the full blocks. -/
def remainder (data : Bytes) : Bytes := data.drop (RATE_BYTES * (data.length / RATE_BYTES))

theorem length_remainder (data : Bytes) : (remainder data).length = data.length % 136 := by
  show (data.drop (136 * (data.length / 136))).length = _
  rw [List.length_drop]
  omega

/-- The last block of the padded message. -/
def lastBlock (data : Bytes) : Bytes :=
  flipLast (remainder data ++ [0x01] ++
    List.replicate (RATE_BYTES - (remainder data ++ [0x01]).length) 0x00)

theorem pad_eq (data : Bytes) :
    Keccak256.pad data = data.take (136 * (data.length / 136)) ++ lastBlock data := by
  have hdata : data = data.take (136 * (data.length / 136)) ++ remainder data :=
    (List.take_append_drop (136 * (data.length / 136)) data).symm
  have hlength := length_remainder data
  unfold Keccak256.pad lastBlock Keccak256.rate RATE_BYTES
  rw [List.length_append, hlength, List.length_singleton]
  dsimp only
  split_ifs with hone
  · have hzeros : 136 - (data.length % 136 + 1) = 0 := by omega
    rw [hzeros, List.replicate_zero, List.append_nil, flipLast_concat]
    conv_lhs => rw [hdata]
    rw [List.append_assoc]
    rfl
  · obtain ⟨n, hn⟩ : ∃ n, 136 - (data.length % 136 + 1) = n + 1 :=
      ⟨136 - (data.length % 136 + 1) - 1, by omega⟩
    have hq : 136 - data.length % 136 - 2 = n := by omega
    rw [hn, hq, List.replicate_succ', ← List.append_assoc, flipLast_concat]
    conv_lhs => rw [hdata]
    simp

theorem length_lastBlock (data : Bytes) : (lastBlock data).length = 136 := by
  have hlength := length_remainder data
  unfold lastBlock flipLast
  rw [List.length_set, List.length_append, List.length_replicate, List.length_append,
    List.length_singleton, hlength]
  show data.length % 136 + 1 + (136 - (data.length % 136 + 1)) = 136
  omega

/-- The blocks of the padded message: the full blocks of the data, and the last one. -/
theorem blocks_pad (data : Bytes) :
    Keccak256.blocks (Keccak256.pad data) =
      (List.range' 0 (data.length / 136)).map (blockAt data) ++ [lastBlock data] := by
  have hlast := length_lastBlock data
  have htake : (data.take (136 * (data.length / 136))).length = 136 * (data.length / 136) := by
    rw [List.length_take]
    omega
  have hcount : (Keccak256.pad data).length / 136 = data.length / 136 + 1 := by
    rw [pad_eq, List.length_append, htake, hlast]
    omega
  unfold Keccak256.blocks Keccak256.rate
  rw [hcount, List.range_succ, List.map_append, List.range_eq_range', List.map_singleton]
  congr 1
  · apply List.map_congr_left
    intro i hi
    have hi : i < data.length / 136 := by simpa using hi
    rw [pad_eq, List.drop_append_of_le_length (by omega), List.take_append_of_le_length (by
      rw [List.length_drop]
      omega), List.drop_take, List.take_take]
    show _ = (data.drop (136 * i)).take 136
    congr 1
    omega
  · rw [pad_eq, List.drop_append_of_le_length (by omega), List.drop_eq_nil_of_le (by omega),
      List.nil_append, List.take_of_length_le (by omega)]

theorem squeeze_table {f : ℕ → ℕ} {A : State} (h : Stands f A) :
    squeeze (table f) = (List.range 32).map (Keccak256.byteOf A) := by
  show ((List.range 136).take 32).map _ = _
  rw [List.take_range]
  apply List.map_congr_left
  intro i hi
  have hi : i < 32 := List.mem_range.1 hi
  have hlane := h (Fin.ofNat 5 (i / 8)) (Fin.ofNat 5 (i / 8 / 5))
  have hindex : (Fin.ofNat 5 (i / 8)).val + 5 * (Fin.ofNat 5 (i / 8 / 5)).val = i / 8 := by
    show i / 8 % 5 + 5 * (i / 8 / 5 % 5) = i / 8
    omega
  rw [hindex] at hlane
  have hpow : 2 ^ (8 * (i % 8)) = 256 ^ (i % 8) := by rw [Nat.pow_mul]
  unfold Keccak256.byteOf
  rw [item_table _ (by omega), hlane, Nat.shiftRight_eq_div_pow, hpow,
    show 0xFF = 2 ^ 8 - 1 by decide,
    Nat.and_two_pow_sub_one_eq_mod]
  apply UInt8.toNat_inj.1
  rw [UInt8.toNat_ofNat', UInt8.toNat_ofNat', Nat.mod_mod]

/-- What is absorbed before the last block. -/
def absorbedBlocks (data : Bytes) : State :=
  ((List.range' 0 (data.length / RATE_BYTES)).map (blockAt data)).foldl Keccak256.absorbBlock
    fun _ _ => 0

theorem absorb_pad (data : Bytes) :
    Keccak256.absorb (Keccak256.pad data) =
      Keccak256.absorbBlock (absorbedBlocks data) (lastBlock data) := by
  unfold Keccak256.absorb
  rw [blocks_pad, List.foldl_append, List.foldl_cons, List.foldl_nil]
  rfl

theorem absorbLoop_start (data : Bytes) :
    ∃ f, absorbLoop data data.length (List.replicate 25 0) 0 =
      (table f, RATE_BYTES * (data.length / RATE_BYTES)) ∧
      Stands f (absorbedBlocks data) := by
  have hzeros : List.replicate 25 0 = table fun _ => 0 := by decide
  have hstart : Stands (fun _ => 0) fun _ _ => 0 := fun _ _ => rfl
  rw [hzeros]
  exact absorbLoop_eq data (Nat.zero_add _) (Nat.div_le_self _ _) hstart

/-- The helper's hash is Keccak-256, and it never finds that the padding overflows. -/
theorem keccak256_eq (data : Bytes) : keccak256 data = .ok (Keccak256.keccak256 data) := by
  obtain ⟨f, hloop, hfull⟩ := absorbLoop_start data
  obtain ⟨f', hlast, hstands⟩ :=
    keccakF_absorbBlock hfull ((length_lastBlock data).le.trans (by decide))
  have htail : ¬ RATE_BYTES < (remainder data ++ [0x01]).length := by
    rw [List.length_append, length_remainder]
    show ¬ 136 < data.length % 136 + 1
    omega
  unfold keccak256
  rw [hloop]
  show (if RATE_BYTES < (remainder data ++ [0x01]).length then
    .error "Unexpected keccak padding overflow"
    else .ok (squeeze (keccakF (absorbBlock (table f) (lastBlock data)))) : Except String Bytes) = _
  rw [if_neg htail, hlast, squeeze_table hstands, Keccak256.keccak256, absorb_pad]

end IntentGuard.Trace.Python
