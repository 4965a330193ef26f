import IntentGuard.Lib.Hashing
import Mathlib.Data.Fin.Basic

/-!
# Keccak-256

The sponge over Keccak-f[1600] with a rate of 136 bytes and the padding `0x01, 0, …, 0, 0x80` of the
original Keccak. A state is its 25 lanes `A[x, y]`; the rotation offsets and the round constants are
computed as the standard defines them, by the walk `(x, y) ↦ (y, 2x + 3y)` and by the linear
feedback shift register.
-/

namespace Keccak256

abbrev Lane := BitVec 64

abbrev State := Fin 5 → Fin 5 → Lane

/-! ### The permutation -/

def columnParity (A : State) (x : Fin 5) : Lane := A x 0 ^^^ A x 1 ^^^ A x 2 ^^^ A x 3 ^^^ A x 4

def theta (A : State) : State := fun x y =>
  A x y ^^^ (columnParity A (x - 1) ^^^ (columnParity A (x + 1)).rotateLeft 1)

/-- The positions from `(1, 0)` on, each with its step. -/
def walk : List ((Fin 5 × Fin 5) × ℕ) :=
  ((List.range 24).foldl (fun (w : (Fin 5 × Fin 5) × List ((Fin 5 × Fin 5) × ℕ)) t =>
    ((w.1.2, 2 * w.1.1 + 3 * w.1.2), w.2 ++ [(w.1, t)])) ((1, 0), [])).2

/-- `(t + 1) (t + 2) / 2` at step `t`, and 0 at the origin. -/
def offset (x y : Fin 5) : ℕ :=
  match walk.find? fun p => p.1 = (x, y) with
  | some (_, t) => (t + 1) * (t + 2) / 2
  | none => 0

def rho (A : State) : State := fun x y => (A x y).rotateLeft (offset x y)

def pi (A : State) : State := fun x y => A (x + 3 * y) x

def chi (A : State) : State := fun x y => A x y ^^^ (~~~(A (x + 1) y) &&& A (x + 2) y)

def iota (RC : Lane) (A : State) : State := fun x y => if x = 0 ∧ y = 0 then A x y ^^^ RC else A x y

/-- The register of eight bits after a step, with feedback polynomial `x⁸ + x⁶ + x⁵ + x⁴ + 1`. -/
def lfsr (R : ℕ) : ℕ := if 128 ≤ R then (2 * R) ^^^ 0x171 else 2 * R

/-- The bit `rc[t]`. -/
def rc (t : ℕ) : Bool := (lfsr^[t % 255] 1) % 2 = 1

/-- The constant of round `i` has `rc[j + 7 i]` at position `2ʲ - 1`. -/
def roundConstant (i : ℕ) : Lane :=
  BitVec.ofNat 64 (((List.range 7).map fun j => if rc (j + 7 * i) then 2 ^ (2 ^ j - 1) else 0).sum)

def round (A : State) (RC : Lane) : State := iota RC (chi (pi (rho (theta A))))

def permute (A : State) : State := ((List.range 24).map roundConstant).foldl round A

/-! ### The sponge -/

def rate : ℕ := 136

/-- The padded message, a whole number of blocks. -/
def pad (data : Bytes) : Bytes :=
  let q := rate - data.length % rate
  if q = 1 then data ++ [0x81] else data ++ 0x01 :: (List.replicate (q - 2) 0 ++ [0x80])

def blocks (message : Bytes) : List Bytes :=
  (List.range (message.length / rate)).map fun i => (message.drop (rate * i)).take rate

/-- The lane of up to eight bytes, the first the lowest. -/
def laneOf (bytes : Bytes) : Lane := BitVec.ofNat 64 (Nat.ofDigits 256 (bytes.map UInt8.toNat))

def absorbBlock (A : State) (block : Bytes) : State :=
  permute fun x y => A x y ^^^ laneOf ((block.drop (8 * (x.val + 5 * y.val))).take 8)

def absorb (message : Bytes) : State := (blocks message).foldl absorbBlock fun _ _ => 0

/-- Byte `index` of the state. -/
def byteOf (A : State) (index : ℕ) : UInt8 :=
  UInt8.ofNat
    ((A (Fin.ofNat 5 (index / 8)) (Fin.ofNat 5 (index / 8 / 5))).toNat / 256 ^ (index % 8))

def keccak256 (data : Bytes) : Bytes := (List.range 32).map (byteOf (absorb (pad data)))

/-- The digest as a word, its first byte the highest. -/
def word (data : Bytes) : Word := Nat.ofDigits 256 ((keccak256 data).reverse.map UInt8.toNat)

theorem word_lt (data : Bytes) : word data < 2 ^ 256 := by
  have hlt : ∀ x ∈ (keccak256 data).reverse.map UInt8.toNat, x < 256 := by
    intro x hx
    obtain ⟨b, -, rfl⟩ := List.mem_map.1 hx
    exact b.toNat_lt
  have hlength : ((keccak256 data).reverse.map UInt8.toNat).length = 32 := by simp [keccak256]
  have hword := Nat.ofDigits_lt_base_pow_length (by decide) hlt
  rw [hlength] at hword
  exact hword

end Keccak256
