import Mathlib.Logic.Encodable.Basic
import Mathlib.Logic.Equiv.List
import Mathlib.Data.Nat.Digits.Lemmas

/-!
# Hashing, typed data and signatures

`Keccak` is the hash function as a program's callers use it: on a byte string, on the ABI encoding
of a tuple of static values (one word a value, so two encodings are equal exactly when the word
lists are), and on the two prefixed forms that wallets sign. Words are natural numbers without a
bound: only their equality is ever used, and a bound would leave no injective hash. `CollisionFree`
is injectivity form by form, and that no tuple hashes to the zero word, which contracts use for
"none".

The rest is EIP-712 (type strings, struct hashes, the domain separator) over such a hash, and
signing keys with the recovery function that checks them. `numbering` and `plainKey` are a hash
without collisions and a key that can be computed with.
-/

abbrev Word := ℕ

abbrev Bytes := List UInt8

def utf8 (s : String) : Bytes := s.toUTF8.data.toList

structure Keccak where
  /-- `keccak256(b)`. -/
  bytes : Bytes → Word
  /-- `keccak256(abi.encode(w₁, …, wₙ))` of static values. -/
  words : List Word → Word
  /-- `keccak256("\x19\x01" ‖ domainSeparator ‖ structHash)`. -/
  typedData : Word → Word → Word
  /-- `keccak256("\x19Ethereum Signed Message:\n32" ‖ hash)`. -/
  ethSignedMessage : Word → Word

namespace Keccak

structure CollisionFree (K : Keccak) : Prop where
  bytes : Function.Injective K.bytes
  words : Function.Injective K.words
  words_ne_zero : ∀ ws, K.words ws ≠ 0
  typedData : Function.Injective2 K.typedData
  ethSignedMessage : Function.Injective K.ethSignedMessage

/-- A byte string read as a number, with the digits `1..256` so that no leading byte is lost. -/
def number (b : Bytes) : ℕ := b.foldr (fun x n => n * 256 + x.toNat + 1) 0

theorem number_injective : Function.Injective number := by
  intro b
  induction b with
  | nil =>
    intro b' h
    cases b' with
    | nil => rfl
    | cons y b' => exact absurd h.symm (Nat.succ_ne_zero _)
  | cons x b ih =>
    intro b' h
    cases b' with
    | nil => exact absurd h (Nat.succ_ne_zero _)
    | cons y b' =>
      have h : number b * 256 + x.toNat + 1 = number b' * 256 + y.toNat + 1 := h
      have hx := x.toNat_lt
      have hy := y.toNat_lt
      have htail : number b = number b' := by omega
      have hhead : x.toNat = y.toNat := by omega
      rw [ih htail, UInt8.toNat_inj.1 hhead]

/-- The hash that numbers its inputs: no two of one form share a number. -/
def numbering : Keccak where
  bytes := number
  words ws := Encodable.encode ws + 1
  typedData d s := Nat.pair d s
  ethSignedMessage h := h

theorem numbering_collisionFree : numbering.CollisionFree where
  bytes := number_injective
  words := fun _ _ h => Encodable.encode_injective (Nat.succ_injective h)
  words_ne_zero := fun _ => Nat.succ_ne_zero _
  typedData := fun _ _ _ _ h => Nat.pair_eq_pair.1 h
  ethSignedMessage := Function.injective_id

end Keccak

namespace Eip712

structure Field where
  name : String
  type : String

/-- `encodeType` of a struct whose members are all atomic. -/
def encodeType (primaryType : String) (fields : List Field) : String :=
  primaryType ++ "(" ++ ",".intercalate (fields.map fun f => f.type ++ " " ++ f.name) ++ ")"

/-- `hashStruct`: the type hash, then one word a member (the hash of a string member). -/
def hashStruct (K : Keccak) (primaryType : String) (fields : List Field) (data : List Word) :
    Word :=
  K.words (K.bytes (utf8 (encodeType primaryType fields)) :: data)

structure Domain where
  name : String
  version : String
  chainId : ℕ
  verifyingContract : Word

def domainFields : List Field :=
  [⟨"name", "string"⟩, ⟨"version", "string"⟩, ⟨"chainId", "uint256"⟩,
    ⟨"verifyingContract", "address"⟩]

def domainSeparator (K : Keccak) (d : Domain) : Word :=
  hashStruct K "EIP712Domain" domainFields
    [K.bytes (utf8 d.name), K.bytes (utf8 d.version), d.chainId, d.verifyingContract]

/-- The digest a wallet signs and a contract recovers from. -/
def hashTypedData (K : Keccak) (d : Domain) (structHash : Word) : Word :=
  K.typedData (domainSeparator K d) structHash

end Eip712

/-- A deterministic signing key, for a recovery function `tryRecover digest signature`. -/
structure SigningKey (tryRecover : Word → Bytes → Option Word) where
  address : Word
  sign : Word → Bytes
  recover_sign : ∀ digest, tryRecover digest (sign digest) = some address
  sign_injective : Function.Injective sign

/-- What the key signs recovers to its address under no other digest. -/
def SigningKey.Binding {tryRecover : Word → Bytes → Option Word} (key : SigningKey tryRecover) :
    Prop :=
  ∀ digest digest', tryRecover digest' (key.sign digest) = some key.address → digest' = digest

/-! ### A plain signature scheme

A signature is the signer's byte followed by the bytes of the digest. -/

def digestBytes (digest : Word) : Bytes := (Nat.digits 256 digest).map UInt8.ofNat

theorem digestBytes_injective : Function.Injective digestBytes := by
  intro d d' h
  have hlt : ∀ d, ∀ x ∈ Nat.digits 256 d, x < 256 := fun d x hx => Nat.digits_lt_base (by omega) hx
  have hback : ∀ d, (digestBytes d).map UInt8.toNat = Nat.digits 256 d := by
    intro d
    rw [digestBytes, List.map_map]
    exact (List.map_congr_left fun x hx => UInt8.toNat_ofNat_of_lt' (hlt d x hx)).trans
      (List.map_id _)
  exact (Nat.digits_inj_iff).1 (by rw [← hback d, ← hback d', h])

def plainRecover (digest : Word) : Bytes → Option Word
  | [] => none
  | signer :: rest => if rest = digestBytes digest then some signer.toNat else none

def plainKey (signer : UInt8) : SigningKey plainRecover where
  address := signer.toNat
  sign digest := signer :: digestBytes digest
  recover_sign digest := by simp [plainRecover]
  sign_injective := fun _ _ h => digestBytes_injective (List.cons.inj h).2

theorem plainKey_binding (signer : UInt8) : (plainKey signer).Binding := by
  intro digest digest' h
  have h : (if digestBytes digest = digestBytes digest' then some signer.toNat else none) =
      some signer.toNat := h
  by_contra hne
  rw [if_neg fun heq => hne (digestBytes_injective heq).symm] at h
  exact absurd h (by simp)
