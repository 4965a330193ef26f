import IntentGuard.Contracts.History

/-!
# Intents

`RegistryInv` ties the registry's maps to the list of the successful commits: the existence flag
holds of exactly the committed hashes, the config and the manifest under each are still the
committed ones, no hash is committed twice, the nonces of one owner increase, and an active hash is
a commit of that owner. A commit is the only writer of all of these and a revocation of the active
hash alone, so the invariant needs one case for each (`RegistryInv.commit`, `RegistryInv.revoke`).
-/

namespace IntentGuard

open Function Runs

variable {D : Deployment} {g : Genesis D} {w w' : World D} {sender : Address} {call : Call}

/-- A successful `commitIntent`; `owner` is its sender. -/
structure Commit where
  owner : Address
  intentHash : Bytes32
  cfg : IntentConfig
  manifestURI : Bytes
  deriving DecidableEq

def commitOf (e : World D × Tx D) : Option Commit :=
  match e.2.call with
  | .commitIntent intentHash cfg manifestURI => some ⟨e.2.sender, intentHash, cfg, manifestURI⟩
  | _ => none

/-- The commits of a history, in order. -/
def commits (h : List (World D × Tx D)) : List Commit := h.filterMap commitOf

theorem commits_append (h h' : List (World D × Tx D)) :
    commits (h ++ h') = commits h ++ commits h' :=
  List.filterMap_append

theorem commits_concat_of_none {h : List (World D × Tx D)} {e : World D × Tx D}
    (he : commitOf e = none) :
    commits (h ++ [e]) = commits h := by
  rw [commits_append, commits, commits, List.filterMap_cons, he]
  exact List.append_nil _

theorem commits_concat_of_some {h : List (World D × Tx D)} {e : World D × Tx D} {c : Commit}
    (he : commitOf e = some c) : commits (h ++ [e]) = commits h ++ [c] := by
  rw [commits_append, commits, commits, List.filterMap_cons, he]
  rfl

/-! ### The registry and its commits -/

structure RegistryInv (D : Deployment) (cs : List Commit) (s : IntentRegistry.State) : Prop where
  exists_iff : ∀ intentHash, s.intentExists intentHash = true ↔ ∃ c ∈ cs, c.intentHash = intentHash
  stored : ∀ c ∈ cs, s.intentConfig c.intentHash = c.cfg ∧
    s.manifestURI c.intentHash = c.manifestURI
  owned : ∀ c ∈ cs, c.cfg.owner = c.owner ∧ c.cfg.token = D.USDC
  nodup : (cs.map Commit.intentHash).Nodup
  nonce_le : ∀ c ∈ cs, c.cfg.nonce ≤ s.lastNonce c.owner
  increasing : cs.Pairwise fun c c' => c.owner = c'.owner → c.cfg.nonce < c'.cfg.nonce
  active : ∀ o, s.activeIntentHash o ≠ 0 → ∃ c ∈ cs, c.owner = o ∧
    c.intentHash = s.activeIntentHash o

namespace RegistryInv
variable {cs : List Commit} {s : IntentRegistry.State}

theorem start : RegistryInv D [] (init g).registry :=
  ⟨by simp [init], by simp, by simp, List.nodup_nil, by simp, List.Pairwise.nil, by simp [init]⟩

theorem commit (hI : RegistryInv D cs s) (c : Commit) (howner : c.cfg.owner = c.owner)
    (htoken : c.cfg.token = D.USDC) (hnonce : s.lastNonce c.owner < c.cfg.nonce)
    (hfresh : s.intentExists c.intentHash = false) :
    RegistryInv D (cs ++ [c])
      { activeIntentHash := update s.activeIntentHash c.owner c.intentHash
        lastNonce := update s.lastNonce c.owner c.cfg.nonce
        intentConfig := update s.intentConfig c.intentHash c.cfg
        manifestURI := update s.manifestURI c.intentHash c.manifestURI
        intentExists := update s.intentExists c.intentHash true } := by
  -- no earlier commit wrote under this hash
  have hnew : ∀ c' ∈ cs, c'.intentHash ≠ c.intentHash := by
    intro c' hc' heq
    have : s.intentExists c.intentHash = true := (hI.exists_iff _).2 ⟨c', hc', heq⟩
    rw [hfresh] at this
    exact absurd this (by simp)
  have hmem : ∀ {P : Commit → Prop}, (∀ c' ∈ cs ++ [c], P c') ↔ (∀ c' ∈ cs, P c') ∧ P c := by
    intro P
    simp only [List.mem_append, List.mem_singleton, or_imp, forall_and, forall_eq]
  refine ⟨?_, hmem.2 ⟨?_, ?_⟩, hmem.2 ⟨hI.owned, howner, htoken⟩, ?_, hmem.2 ⟨?_, ?_⟩, ?_, ?_⟩
  · intro intentHash
    by_cases heq : intentHash = c.intentHash
    · subst heq
      simp
    · dsimp only
      rw [update_of_ne heq, hI.exists_iff]
      simp [Ne.symm heq]
  · intro c' hc'
    dsimp only
    rw [update_of_ne (hnew c' hc'), update_of_ne (hnew c' hc')]
    exact hI.stored c' hc'
  · exact ⟨update_self .., update_self ..⟩
  · rw [List.map_append, List.nodup_append]
    refine ⟨hI.nodup, List.nodup_singleton _, ?_⟩
    intro a ha b hb
    obtain ⟨c', hc', rfl⟩ := List.mem_map.1 ha
    obtain rfl := List.mem_singleton.1 hb
    exact hnew c' hc'
  · intro c' hc'
    have hle := hI.nonce_le c' hc'
    by_cases heq : c'.owner = c.owner
    · dsimp only
      rw [heq, update_self]
      exact (heq ▸ hle).trans hnonce.le
    · dsimp only
      rwa [update_of_ne heq]
  · dsimp only
    rw [update_self]
  · refine List.pairwise_append.2 ⟨hI.increasing, List.pairwise_singleton _ _, ?_⟩
    intro a ha b hb heq
    obtain rfl := List.mem_singleton.1 hb
    exact (hI.nonce_le a ha).trans_lt (heq ▸ hnonce)
  · intro o ho
    by_cases heq : o = c.owner
    · exact ⟨c, by simp, heq.symm, by simp [heq]⟩
    · dsimp only at ho ⊢
      rw [update_of_ne heq] at ho ⊢
      obtain ⟨c', hc', h⟩ := hI.active o ho
      exact ⟨c', List.mem_append_left _ hc', h⟩

theorem revoke (hI : RegistryInv D cs s) (o : Address) :
    RegistryInv D cs { s with activeIntentHash := update s.activeIntentHash o 0 } where
  exists_iff := hI.exists_iff
  stored := hI.stored
  owned := hI.owned
  nodup := hI.nodup
  nonce_le := hI.nonce_le
  increasing := hI.increasing
  active := by
    intro o' ho'
    by_cases heq : o' = o
    · simp [heq] at ho'
    · dsimp only at ho' ⊢
      rw [update_of_ne heq] at ho' ⊢
      exact hI.active o' ho'

/-- The nonces one owner committed, in order. -/
theorem nonces_increasing (hI : RegistryInv D cs s) (o : Address) :
    ((cs.filter fun c => c.owner = o).map fun c => c.cfg.nonce).Pairwise (· < ·) := by
  rw [List.pairwise_map, List.pairwise_filter]
  apply hI.increasing.imp
  intro c c' h hc hc'
  exact h ((of_decide_eq_true hc).trans (of_decide_eq_true hc').symm)

end RegistryInv

theorem registryInv_of_effect {h : List (World D × Tx D)} {tx : Tx D}
    (hI : RegistryInv D (commits h) w.registry) (he : Effect w tx.sender tx.call w') :
    RegistryInv D (commits (h ++ [(w, tx)])) w'.registry := by
  obtain ⟨sender, call, hne, hext⟩ := tx
  cases he with
  | @commitIntent intentHash cfg manifestURI howner htoken _ _ hnonce hfresh =>
    rw [commits_concat_of_some (c := ⟨sender, intentHash, cfg, manifestURI⟩) rfl]
    exact hI.commit ⟨sender, intentHash, cfg, manifestURI⟩ howner htoken hnonce hfresh
  | revokeIntent =>
    rw [commits_concat_of_none rfl]
    exact hI.revoke sender
  | _ =>
    rw [commits_concat_of_none rfl]
    exact hI

theorem registryInv (g : Genesis D) (as : List (Action D)) :
    RegistryInv D (commits (history g as)) (run step (init g) as).registry :=
  history_induction (C := fun _ _ => True) (J := fun h w => RegistryInv D (commits h) w.registry)
    .start (fun _ _ _ hI => hI)
      (fun _ _ _ _ _ hI _ hx => registryInv_of_effect hI (effect_of_exec hx))
    as fun _ _ => trivial

end IntentGuard
