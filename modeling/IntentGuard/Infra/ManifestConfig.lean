import IntentGuard.Contracts.IntentRegistry
import IntentGuard.Infra.Manifest

/-!
# Manifests as configs

A manifest stands for an `IntentConfig`, whose integers have widths; `buildCanonicalManifest` takes
integers of any size. `Represents` is the config that carries the fields of a manifest,
`Committable` what its owner may expect of it, and `Fits` looks at nothing but the integers that the
input spells.

`accepted_committable_iff`: an accepted manifest can be committed exactly when these integers fit
their types.
-/

namespace IntentGuard.Infra

open Js Trace

/-- The config has the fields of the manifest, and each is a value of its Solidity type. -/
structure Represents (cfg : IntentConfig) (manifest : CanonicalManifest) : Prop where
  owner : hexLiteral 40 manifest.owner = some cfg.owner
  token : hexLiteral 40 manifest.token = some cfg.token
  maxSpendPerTx : cfg.maxSpendPerTx = manifest.maxSpendPerTx
  maxSpendPerTx_lt : cfg.maxSpendPerTx < 2 ^ 256
  maxSpendPerDay : cfg.maxSpendPerDay = manifest.maxSpendPerDay
  maxSpendPerDay_lt : cfg.maxSpendPerDay < 2 ^ 256
  allowedCounterparties : manifest.allowedCounterparties.map (hexLiteral 40) =
    cfg.allowedCounterparties.map some
  expiry : cfg.expiry.toNat = manifest.expiry
  nonce : cfg.nonce = manifest.nonce
  nonce_lt : cfg.nonce < 2 ^ 256

/-- There is a config for the manifest; with the registry's USDC, before the expiry and with a nonce
above the last one, its owner's commit fails for no other reason than that the hash is taken. -/
structure Committable (manifest : CanonicalManifest) : Prop where
  counterparties : 1 ≤ manifest.allowedCounterparties.length ∧
    manifest.allowedCounterparties.length ≤ 8
  represented : ∃ cfg, Represents cfg manifest
  committed : ∀ cfg, Represents cfg manifest → ∀ (D : Deployment) (w : World D),
    cfg.token = D.USDC →
    w.now < cfg.expiry.toNat → w.registry.lastNonce cfg.owner < cfg.nonce →
      ∀ intentHash manifestURI e,
      IntentRegistry.commitIntent w cfg.owner intentHash cfg manifestURI = .error e →
        e = .IntentHashMismatch

/-- The integers that the input spells fit their types. -/
structure Fits (input : ManifestInput) : Prop where
  maxSpendPerTx : ∀ n, Spells input.maxSpendPerTx n → n < 2 ^ 256
  maxSpendPerDay : ∀ n, Spells input.maxSpendPerDay n → n < 2 ^ 256
  expiry : ∀ n, Spells input.expiry n → n < 2 ^ 64
  nonce : ∀ n, Spells input.nonce n → n < 2 ^ 256

theorem Spells.unique {value : JsValue} {n m : ℕ} (hn : Spells value n) (hm : Spells value m) :
    n = m :=
  Except.ok.inj ((toUint_of_spells hn "").symm.trans (toUint_of_spells hm ""))

section
variable {A : AddressChecksum}
  (hA : ∀ {s c}, A.getAddress s = some c → ∃ a, hexLiteral 40 s = some a)

include hA

theorem exists_address {s c : JsString} (h : A.getAddress s = some c) :
    ∃ a, hexLiteral 40 c = some a := by
  obtain ⟨a, ha⟩ := hA h
  exact ⟨a, (A.spells h).trans ha⟩

theorem exists_addresses {ss cs : List JsString} (h : ss.map A.getAddress = cs.map some) :
    ∃ addresses : List Address, cs.map (hexLiteral 40) = addresses.map some := by
  induction cs generalizing ss with
  | nil => exact ⟨[], rfl⟩
  | cons c cs ih =>
    cases ss with
    | nil => exact absurd h.symm (List.cons_ne_nil _ _)
    | cons s ss =>
      obtain ⟨hhead, htail⟩ := List.cons.inj h
      obtain ⟨a, ha⟩ := exists_address hA hhead
      obtain ⟨addresses, haddresses⟩ := ih htail
      exact ⟨a :: addresses, by rw [List.map_cons, List.map_cons, ha, haddresses]⟩

end

theorem commitIntent_eq_error {D : Deployment} {w : World D} {cfg : IntentConfig} {e : Revert}
    (htoken : cfg.token = D.USDC)
    (hlength : cfg.allowedCounterparties.length ≤ GuardConstants.MAX_COUNTERPARTIES)
    (hexpiry : w.now < cfg.expiry.toNat) (hnonce : w.registry.lastNonce cfg.owner < cfg.nonce)
    {intentHash : Bytes32} {manifestURI : Bytes}
    (h : IntentRegistry.commitIntent w cfg.owner intentHash cfg manifestURI = .error e) :
    e = .IntentHashMismatch := by
  have hfuture : ¬ (cfg.expiry = 0 ∨ cfg.expiry.toNat ≤ w.now) := by
    rintro (hzero | hpast)
    · rw [hzero] at hexpiry
      exact Nat.not_lt_zero _ hexpiry
    · exact Nat.not_lt.2 hpast hexpiry
  unfold IntentRegistry.commitIntent revertIf at h
  simp only [bind, Except.bind, ne_eq, not_true_eq_false, htoken, Nat.not_lt.2 hlength, hfuture,
    Nat.not_le.2 hnonce, if_false] at h
  split_ifs at h
  · exact (Except.error.inj h).symm
  · exact absurd h (by simp [pure, Except.pure])

section
variable {A : AddressChecksum} {input : ManifestInput} {manifest : CanonicalManifest}
  (h : Canonicalizes A input manifest)

include h

theorem Canonicalizes.counterparties_length :
    1 ≤ manifest.allowedCounterparties.length ∧ manifest.allowedCounterparties.length ≤ 8 := by
  obtain ⟨counterparties, -, hempty, hcap, haddresses⟩ := h.allowedCounterparties
  have hlength : counterparties.length = manifest.allowedCounterparties.length := by
    have hlength := congrArg List.length haddresses
    rwa [List.length_map, List.length_map] at hlength
  rw [← hlength]
  exact ⟨Nat.one_le_iff_ne_zero.2 hempty, hcap⟩

theorem Canonicalizes.fits_iff :
    Fits input ↔ manifest.maxSpendPerTx < 2 ^ 256 ∧ manifest.maxSpendPerDay < 2 ^ 256 ∧
    manifest.expiry < 2 ^ 64 ∧
      manifest.nonce < 2 ^ 256 := by
  have htx := spells_of_toUint h.maxSpendPerTx
  have hday := spells_of_toUint h.maxSpendPerDay
  have hexpiry := spells_of_toUint h.expiry
  have hnonce := spells_of_toUint h.nonce
  constructor
  · intro hfits
    exact ⟨hfits.maxSpendPerTx _ htx, hfits.maxSpendPerDay _ hday, hfits.expiry _ hexpiry,
      hfits.nonce _ hnonce⟩
  · rintro ⟨htx', hday', hexpiry', hnonce'⟩
    refine ⟨?_, ?_, ?_, ?_⟩
    · exact fun n hn => hn.unique htx ▸ htx'
    · exact fun n hn => hn.unique hday ▸ hday'
    · exact fun n hn => hn.unique hexpiry ▸ hexpiry'
    · exact fun n hn => hn.unique hnonce ▸ hnonce'

theorem Canonicalizes.represented
    (hA : ∀ {s c}, A.getAddress s = some c → ∃ a, hexLiteral 40 s = some a) (hfits : Fits input) :
    ∃ cfg, Represents cfg manifest := by
  obtain ⟨htx, hday, hexpiry, hnonce⟩ := h.fits_iff.1 hfits
  obtain ⟨counterparties, -, -, -, haddresses⟩ := h.allowedCounterparties
  obtain ⟨owner, howner⟩ := exists_address hA h.owner
  obtain ⟨token, htoken⟩ := exists_address hA h.token
  obtain ⟨addresses, hlist⟩ := exists_addresses hA haddresses
  exact ⟨⟨owner, token, manifest.maxSpendPerTx, manifest.maxSpendPerDay, addresses,
    UInt64.ofNat manifest.expiry, manifest.nonce⟩, howner, htoken, rfl, htx, rfl, hday, hlist,
      UInt64.toNat_ofNat_of_lt' hexpiry, rfl, hnonce⟩

end

theorem Represents.widths {cfg : IntentConfig} {manifest : CanonicalManifest}
    (h : Represents cfg manifest) :
    manifest.maxSpendPerTx < 2 ^ 256 ∧ manifest.maxSpendPerDay < 2 ^ 256 ∧
    manifest.expiry < 2 ^ 64 ∧
      manifest.nonce < 2 ^ 256 :=
  ⟨h.maxSpendPerTx ▸ h.maxSpendPerTx_lt, h.maxSpendPerDay ▸ h.maxSpendPerDay_lt,
    h.expiry ▸ cfg.expiry.toNat_lt, h.nonce ▸ h.nonce_lt⟩

/-- An accepted manifest can be committed by its owner, in any state that its expiry and its nonce
allow it, exactly when the integers of the input fit the fields of the config. `getAddress` takes
nothing but addresses. -/
theorem accepted_committable_iff {A : AddressChecksum} {K : Keccak}
    (hA : ∀ {s c}, A.getAddress s = some c → ∃ a, hexLiteral 40 s = some a) {input : ManifestInput}
    {r : CanonicalManifestResult} (h : buildCanonicalManifest A K input = .ok r) :
    Committable r.manifest ↔ Fits input := by
  have hcanonicalizes := (buildCanonicalManifest_eq_ok.1 h).1
  constructor
  · intro hcommittable
    obtain ⟨cfg, hcfg⟩ := hcommittable.represented
    exact hcanonicalizes.fits_iff.2 hcfg.widths
  · intro hfits
    refine ⟨hcanonicalizes.counterparties_length, hcanonicalizes.represented hA hfits, ?_⟩
    intro cfg hcfg D w htoken hexpiry hnonce intentHash manifestURI e herror
    have hlength : cfg.allowedCounterparties.length ≤ GuardConstants.MAX_COUNTERPARTIES := by
      have hlength := congrArg List.length hcfg.allowedCounterparties
      rw [List.length_map, List.length_map] at hlength
      exact hlength ▸ hcanonicalizes.counterparties_length.2
    exact commitIntent_eq_error htoken hlength hexpiry hnonce herror

end IntentGuard.Infra

namespace IntentGuard.Localnet

open Js Infra

def cappedInput (maxSpendPerTx : ℕ) : ManifestInput :=
  manifestInput (.bigint maxSpendPerTx) (.bigint 50000000) (.bigint 1)

theorem lowerCase_address {s c : JsString} (h : lowerCase.getAddress s = some c) :
    ∃ a, hexLiteral 40 s = some a := by
  obtain ⟨a, ha, -⟩ := Option.map_eq_some_iff.1 h
  exact ⟨a, ha⟩

end IntentGuard.Localnet

namespace IntentGuard.Infra

open Js Trace Localnet

/-- A cap that is one too large for a `uint256`. -/
theorem wide_manifest_accepted :
    ¬ ∀ (A : AddressChecksum) (K : Keccak),
      (∀ {s c}, A.getAddress s = some c → ∃ a, hexLiteral 40 s = some a) →
      ∀ (input : ManifestInput) (r : CanonicalManifestResult),
        buildCanonicalManifest A K input = .ok r →
        Committable r.manifest := by
  intro h
  have hbuilt : (buildCanonicalManifest lowerCase keccak256 (cappedInput (2 ^ 256))).isOk := by
    decide +kernel
  cases hr : buildCanonicalManifest lowerCase keccak256 (cappedInput (2 ^ 256)) with
  | error e =>
    rw [hr] at hbuilt
    exact absurd hbuilt Bool.false_ne_true
  | ok r =>
    obtain ⟨cfg, hcfg⟩ :=
      (h lowerCase keccak256 lowerCase_address (cappedInput (2 ^ 256)) r hr).represented
    have hspells : Spells (cappedInput (2 ^ 256)).maxSpendPerTx (2 ^ 256) := .bigint (2 ^ 256)
    have htx := spells_of_toUint (buildCanonicalManifest_eq_ok.1 hr).1.maxSpendPerTx
    exact absurd (hspells.unique htx ▸ hcfg.widths.1) (lt_irrefl _)

/-- A cap of 10 USDC. -/
theorem accepted_committable_iff_capped :
    ∃ r, buildCanonicalManifest lowerCase keccak256 (cappedInput 10000000) = .ok r ∧
      Committable r.manifest := by
  have hbuilt : (buildCanonicalManifest lowerCase keccak256 (cappedInput 10000000)).isOk := by
    decide +kernel
  cases h : buildCanonicalManifest lowerCase keccak256 (cappedInput 10000000) with
  | error e =>
    rw [h] at hbuilt
    exact absurd hbuilt Bool.false_ne_true
  | ok r =>
    have hfits : ∀ {k : ℕ} {bound : ℕ}, k < bound → ∀ n, Spells (.bigint k) n → n < bound :=
      fun hk n hn => hn.unique (.bigint _) ▸ hk
    refine ⟨r, rfl, (accepted_committable_iff lowerCase_address h).2 ⟨?_, ?_, ?_, ?_⟩⟩
    · exact hfits (k := 10000000) (by decide)
    · exact hfits (k := 50000000) (by decide)
    · exact hfits (k := 2000000000) (by decide)
    · exact hfits (k := 1) (by decide)

end IntentGuard.Infra
