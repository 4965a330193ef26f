import IntentGuard.Js.Text
import IntentGuard.Lib.Runs

/-!
# Signing in

`GET /v1/auth/nonce` and `POST /v1/auth/verify` of `api/auth.ts` on Supabase, with `createSession`.
Every database call is one step, and between the calls of one request come those of any others. What
a failed call reports nobody reads, but a failed select has no data.

`one_session_per_nonce`: while every request that marks its nonce finds it unmarked, and inserts its
session before the expiry, a nonce yields at most one session, for the address it was issued to.
-/

namespace IntentGuard.Infra.SignIn

open Js

/-- A row of `auth_nonces`. Times are in milliseconds. -/
structure NonceRow where
  nonce : JsString
  address : JsString
  expiresAt : ℕ
  used : Bool

/-- How far the handler of a request has come; from the select on it holds the row that it read. -/
inductive Phase
  | received
  | read (nonceRow : NonceRow)
  | accepted (nonceRow : NonceRow)
  | marked (nonceRow : NonceRow)
  | done (nonceRow : NonceRow)
  | refused

/-- A request whose message and signature are verified. -/
structure Request where
  address : JsString
  nonce : JsString
  phase : Phase

/-- A row of `user_sessions`. The token is drawn for one request, so the request stands for its
hash. -/
structure SessionRow where
  request : ℕ
  address : JsString
  createdAt : ℕ

structure State where
  now : ℕ
  nonces : List NonceRow
  requests : ℕ → Option Request
  sessions : List SessionRow

inductive Action
  | elapse (ms : ℕ)
  /-- The two calls of `GET /nonce`, each with the time that the handler has read. -/
  | deleteExpired (address : JsString) (readAt : ℕ)
  | insertNonce (nonce address : JsString) (readAt : ℕ)
  /-- `POST /verify` arrives, as the `i`-th request. -/
  | verify (i : ℕ) (address nonce : JsString)
  | select (i : ℕ) (fails : Bool)
  | checkExpiry (i : ℕ)
  | markUsed (i : ℕ) (fails : Bool)
  | createSession (i : ℕ) (fails : Bool)

/-- `10 * 60 * 1000`. -/
def NONCE_TTL : ℕ := 600000

def init : State where
  now := 0
  nonces := []
  requests _ := none
  sessions := []

def State.setRequest (s : State) (i : ℕ) (req : Request) : State :=
  { s with requests := Function.update s.requests i (some req) }

theorem requests_setRequest (s : State) (i : ℕ) (req : Request) :
    (s.setRequest i req).requests i = some req :=
  Function.update_self i _ _

theorem requests_setRequest_of_ne (s : State) {i j : ℕ} (h : j ≠ i) (req : Request) :
    (s.setRequest i req).requests j = s.requests j := Function.update_of_ne h _ _

def step (s : State) : Action → State
  | .elapse ms => { s with now := s.now + ms }
  | .deleteExpired address readAt =>
    { s with
      nonces := s.nonces.filter fun row =>
        ¬ (row.address = toLowerCase address ∧ row.expiresAt < readAt) }
  | .insertNonce nonce address readAt =>
    -- `nonce` is the primary key
    if ∃ row ∈ s.nonces, row.nonce = nonce then s
    else
      let row : NonceRow :=
        { nonce
          address := toLowerCase address
          expiresAt := readAt + NONCE_TTL
          used := false }
      { s with nonces := s.nonces ++ [row] }
  | .verify i address nonce =>
    match s.requests i with
    | none => s.setRequest i ⟨toLowerCase address, nonce, .received⟩
    | some _ => s
  | .select i fails =>
    match s.requests i with
    | some ⟨address, nonce, .received⟩ =>
      let found := s.nonces.find? fun row => row.nonce = nonce ∧ row.address = address ∧
        row.used = false
      match if fails then none else found with
      | some nonceRow => s.setRequest i ⟨address, nonce, .read nonceRow⟩
      | none => s.setRequest i ⟨address, nonce, .refused⟩
    | _ => s
  | .checkExpiry i =>
    match s.requests i with
    | some ⟨address, nonce, .read nonceRow⟩ =>
      if nonceRow.expiresAt < s.now then s.setRequest i ⟨address, nonce, .refused⟩
      else s.setRequest i ⟨address, nonce, .accepted nonceRow⟩
    | _ => s
  | .markUsed i fails =>
    match s.requests i with
    | some ⟨address, nonce, .accepted nonceRow⟩ =>
      let nonces :=
        if fails then s.nonces else s.nonces.map fun row =>
          if row.nonce = nonce then { row with used := true } else row
      { s with nonces }.setRequest i ⟨address, nonce, .marked nonceRow⟩
    | _ => s
  | .createSession i fails =>
    match s.requests i with
    | some ⟨address, nonce, .marked nonceRow⟩ =>
      let row : SessionRow :=
        { request := i
          address := toLowerCase address
          createdAt := s.now }
      let sessions := if fails then s.sessions else s.sessions ++ [row]
      { s with sessions }.setRequest i ⟨address, nonce, .done nonceRow⟩
    | _ => s

/-! ### What is promised -/

/-- The nonce that the request of a session was for. -/
def nonceOf (s : State) (r : SessionRow) : Option JsString :=
  (s.requests r.request).map Request.nonce

structure Safe (actions : List Action) (s : State) : Prop where
  single : s.sessions.Pairwise fun r r' => nonceOf s r ≠ nonceOf s r'
  issued : ∀ r ∈ s.sessions, ∃ nonce address readAt, nonceOf s r = some nonce ∧
    .insertNonce nonce address readAt ∈ actions ∧
    r.address = toLowerCase address ∧ r.createdAt ≤ readAt + NONCE_TTL

/-- A mark succeeds and finds the nonce unmarked, and an insert of a session that succeeds comes by
the expiry of the nonce. -/
def Ordered (s : State) : Action → Prop
  | .markUsed i fails => ∀ req nonceRow, s.requests i = some req → req.phase = .accepted nonceRow →
      fails = false ∧ ∃ row ∈ s.nonces, row.nonce = req.nonce ∧ row.used = false
  | .createSession i fails => fails = false → ∀ req nonceRow, s.requests i = some req →
      req.phase = .marked nonceRow → s.now ≤ nonceRow.expiresAt
  | _ => True

def Action.issued : Action → Option JsString
  | .insertNonce nonce _ _ => some nonce
  | _ => none

/-! ### The invariant -/

namespace Phase

def row : Phase → Option NonceRow
  | .read nonceRow | .accepted nonceRow | .marked nonceRow | .done nonceRow => some nonceRow
  | .received | .refused => none

/-- The request has marked its nonce. -/
def marks : Phase → Bool
  | .marked _ | .done _ => true
  | _ => false

end Phase

/-- The row is one that `GET /nonce` has inserted, up to its mark. -/
def Issued (actions : List Action) (row : NonceRow) : Prop :=
  ∃ address readAt, .insertNonce row.nonce address readAt ∈ actions ∧
    row.address = toLowerCase address ∧
    row.expiresAt = readAt + NONCE_TTL

structure Inv (actions : List Action) (s : State) : Prop where
  rows : ∀ row ∈ s.nonces, Issued actions row
  seen : ∀ i req row, s.requests i = some req → req.phase.row = some row →
    row.nonce = req.nonce ∧ row.address = req.address ∧ Issued actions row
  used : ∀ i req, s.requests i = some req → req.phase.marks = true → ∀ row ∈ s.nonces,
    row.nonce = req.nonce → row.used = true
  unique : ∀ i j req req', s.requests i = some req → s.requests j = some req' →
    req.phase.marks = true →
    req'.phase.marks = true → req.nonce = req'.nonce → i = j
  sessions : ∀ r ∈ s.sessions, ∃ req row, s.requests r.request = some req ∧ req.phase = .done row ∧
    r.address = toLowerCase req.address ∧ r.createdAt ≤ row.expiresAt
  distinct : (s.sessions.map SessionRow.request).Nodup

theorem inv_init : Inv [] init where
  rows := List.forall_mem_nil _
  seen := nofun
  used := nofun
  unique := nofun
  sessions := List.forall_mem_nil _
  distinct := List.nodup_nil

section
variable {actions : List Action} {s : State}

theorem Issued.concat {row : NonceRow} (h : Issued actions row) (a : Action) :
    Issued (actions ++ [a]) row := by
  obtain ⟨address, readAt, hmem, haddress, hexpiry⟩ := h
  exact ⟨address, readAt, List.mem_append_left _ hmem, haddress, hexpiry⟩

theorem Inv.concat (h : Inv actions s) (a : Action) : Inv (actions ++ [a]) s where
  rows row hrow := (h.rows row hrow).concat a
  seen i req row hreq hrow := by
    obtain ⟨hnonce, haddress, hissued⟩ := h.seen i req row hreq hrow
    exact ⟨hnonce, haddress, hissued.concat a⟩
  used := h.used
  unique := h.unique
  sessions := h.sessions
  distinct := h.distinct

/-- The handler of the request has not come to its session. -/
def Undone (s : State) (i : ℕ) : Prop := ∀ req row, s.requests i = some req → req.phase ≠ .done row

theorem undone_of_phase {i : ℕ} {address nonce : JsString} {phase : Phase}
    (hreq : s.requests i = some ⟨address, nonce, phase⟩) (hphase : ∀ row, phase ≠ .done row) :
    Undone s i := by
  intro req row h
  obtain rfl := Option.some.inj (hreq.symm.trans h)
  exact hphase row

theorem Inv.request_ne (h : Inv actions s) {i : ℕ} (hundone : Undone s i) :
    ∀ r ∈ s.sessions, r.request ≠ i := by
  rintro r hr rfl
  obtain ⟨req, row, hreq, hphase, -⟩ := h.sessions r hr
  exact hundone req row hreq hphase

/-- A request moves on. -/
theorem Inv.setRequest (h : Inv actions s) {i : ℕ} {req : Request} (hundone : Undone s i)
    (hrow : ∀ row, req.phase.row = some row → row.nonce = req.nonce ∧ row.address = req.address ∧
      Issued actions row)
    (hused : req.phase.marks = true → ∀ row ∈ s.nonces, row.nonce = req.nonce → row.used = true)
    (hunique : req.phase.marks = true → ∀ j r, j ≠ i → s.requests j = some r →
      r.phase.marks = true → r.nonce ≠ req.nonce) :
    Inv actions (s.setRequest i req) := by
  have hget : ∀ j r, (s.setRequest i req).requests j = some r →
      (j = i ∧ r = req) ∨ (j ≠ i ∧ s.requests j = some r) := by
    intro j r hj
    by_cases hji : j = i
    · subst hji
      exact .inl ⟨rfl, (Option.some.inj ((requests_setRequest s j req).symm.trans hj)).symm⟩
    · exact .inr ⟨hji, (requests_setRequest_of_ne s hji req).symm.trans hj⟩
  constructor
  · exact h.rows
  · intro j r row hj hr
    rcases hget j r hj with ⟨rfl, rfl⟩ | ⟨-, hj⟩
    · exact hrow row hr
    · exact h.seen j r row hj hr
  · intro j r hj hr
    rcases hget j r hj with ⟨rfl, rfl⟩ | ⟨-, hj⟩
    · exact hused hr
    · exact h.used j r hj hr
  · intro j k r r' hj hk hr hr' hnonce
    rcases hget j r hj with ⟨rfl, rfl⟩ | ⟨hji, hj'⟩
    · rcases hget k r' hk with ⟨rfl, rfl⟩ | ⟨hki, hk'⟩
      · rfl
      · exact absurd hnonce.symm (hunique hr k r' hki hk' hr')
    · rcases hget k r' hk with ⟨rfl, rfl⟩ | ⟨-, hk'⟩
      · exact absurd hnonce (hunique hr' j r hji hj' hr)
      · exact h.unique j k r r' hj' hk' hr hr' hnonce
  · intro r hr
    obtain ⟨old, row, hold, hphase, haddress, hcreated⟩ := h.sessions r hr
    have hri := h.request_ne hundone r hr
    exact ⟨old, row, (requests_setRequest_of_ne s hri req).trans hold, hphase, haddress, hcreated⟩
  · exact h.distinct

/-- The table of nonces changes. -/
theorem Inv.setNonces (h : Inv actions s) {nonces : List NonceRow}
    (hrows : ∀ row ∈ nonces, Issued actions row)
    (hused : ∀ i req, s.requests i = some req → req.phase.marks = true → ∀ row ∈ nonces,
      row.nonce = req.nonce →
      row.used = true) : Inv actions { s with nonces } where
  rows := hrows
  seen := h.seen
  used := hused
  unique := h.unique
  sessions := h.sessions
  distinct := h.distinct

/-- A request that moves on before its mark. -/
theorem Inv.advance (h : Inv actions s) {i : ℕ} {address nonce : JsString} {phase phase' : Phase}
    (hreq : s.requests i = some ⟨address, nonce, phase⟩) (hphase : phase.marks = false)
    (hphase' : phase'.marks = false)
    (hrow : ∀ row, phase'.row = some row → row.nonce = nonce ∧ row.address = address ∧
      Issued actions row) :
    Inv actions (s.setRequest i ⟨address, nonce, phase'⟩) := by
  have hnever : ¬ phase'.marks = true :=
    fun hmarks => Bool.false_ne_true (hphase'.symm.trans hmarks)
  refine h.setRequest (undone_of_phase hreq ?_) hrow (fun hmarks => absurd hmarks hnever)
    fun hmarks => absurd hmarks hnever
  rintro row rfl
  exact absurd hphase Bool.noConfusion

theorem Inv.select (h : Inv actions s) (i : ℕ) (fails : Bool) :
    Inv actions (step s (.select i fails)) := by
  simp only [step]
  split
  · next address nonce hreq =>
    split
    · next nonceRow hfound =>
      have hfind : (s.nonces.find? fun row => row.nonce = nonce ∧ row.address = address ∧
          row.used = false) = some nonceRow := by
        cases fails with
        | false => exact hfound
        | true => exact absurd hfound nofun
      have hmatches := List.find?_some hfind
      rw [decide_eq_true_eq] at hmatches
      refine h.advance hreq rfl rfl fun row hrow => ?_
      obtain rfl := Option.some.inj hrow
      exact ⟨hmatches.1, hmatches.2.1, h.rows _ (List.mem_of_find?_eq_some hfind)⟩
    · exact h.advance hreq rfl rfl nofun
  · exact h

theorem Inv.checkExpiry (h : Inv actions s) (i : ℕ) : Inv actions (step s (.checkExpiry i)) := by
  simp only [step]
  split
  · next address nonce nonceRow hreq =>
    split
    · exact h.advance hreq rfl rfl nofun
    · exact h.advance hreq rfl rfl fun row hrow => h.seen i _ row hreq hrow
  · exact h

theorem Inv.insertNonce (h : Inv actions s) {nonce : JsString} (address : JsString) (readAt : ℕ)
    (hfresh : ∀ a ∈ actions, a.issued ≠ some nonce) :
    Inv (actions ++ [.insertNonce nonce address readAt])
      (step s (.insertNonce nonce address readAt)) := by
  have h' := h.concat (.insertNonce nonce address readAt)
  simp only [step]
  split_ifs with hexists
  · exact h'
  · refine h'.setNonces ?_ ?_
    · intro row hrow
      rcases List.mem_append.1 hrow with hrow | hrow
      · exact h'.rows row hrow
      · obtain rfl := List.mem_singleton.1 hrow
        exact ⟨address, readAt, List.mem_append_right _ List.mem_cons_self, rfl, rfl⟩
    · intro i req hreq hmarks row hrow hnonce
      rcases List.mem_append.1 hrow with hrow | hrow
      · exact h.used i req hreq hmarks row hrow hnonce
      · -- the nonce of a marked request has been issued before
        obtain rfl := List.mem_singleton.1 hrow
        obtain ⟨seen, hseen⟩ : ∃ seen, req.phase.row = some seen := by
          cases hphase : req.phase <;> rw [hphase] at hmarks <;>
            first | exact ⟨_, rfl⟩ | exact absurd hmarks Bool.false_ne_true
        obtain ⟨hseenNonce, -, address', readAt', hmem, -⟩ := h.seen i req seen hreq hseen
        have hissued := hfresh _ hmem
        exact absurd (congrArg some (hseenNonce.trans hnonce.symm)) hissued

theorem Inv.markUsed (h : Inv actions s) {i : ℕ} {fails : Bool}
    (hordered : Ordered s (.markUsed i fails)) :
    Inv actions (step s (.markUsed i fails)) := by
  simp only [step]
  split
  · next address nonce nonceRow hreq =>
    obtain ⟨rfl, unmarked, hmem, hnonce, hunused⟩ := hordered _ nonceRow hreq rfl
    have hfirst : ∀ j req, s.requests j = some req → req.phase.marks = true →
        req.nonce ≠ nonce := by
      intro j req hj hmarks heq
      exact absurd (hunused.symm.trans
        (h.used j req hj hmarks unmarked hmem (hnonce.trans heq.symm))) Bool.false_ne_true
    have hmarked :
        ∀ row ∈ s.nonces.map (fun row =>
          if row.nonce = nonce then { row with used := true } else row),
        row.nonce = nonce → row.used = true := by
      intro row hrow heq
      obtain ⟨old, -, rfl⟩ := List.mem_map.1 hrow
      by_cases hold : old.nonce = nonce
      · rw [if_pos hold]
      · rw [if_neg hold] at heq
        exact absurd heq hold
    have hundone : Undone s i := undone_of_phase hreq nofun
    refine Inv.setRequest (h.setNonces ?_ ?_) hundone
      (h.seen i ⟨address, nonce, .accepted nonceRow⟩ · hreq)
      (fun _ => hmarked) fun _ j req _ hj hmarks => hfirst j req hj hmarks
    · intro row hrow
      obtain ⟨old, hold, rfl⟩ := List.mem_map.1 hrow
      split_ifs
      · exact h.rows old hold
      · exact h.rows old hold
    · intro j req hj hmarks row hrow heq
      obtain ⟨old, hold, rfl⟩ := List.mem_map.1 hrow
      split_ifs at heq ⊢ with hnonce
      · rfl
      · exact h.used j req hj hmarks old hold heq
  · exact h

theorem Inv.createSession (h : Inv actions s) {i : ℕ} {fails : Bool}
    (hordered : Ordered s (.createSession i fails)) :
    Inv actions (step s (.createSession i fails)) := by
  simp only [step]
  split
  · next address nonce nonceRow hreq =>
    have hundone : Undone s i := undone_of_phase hreq nofun
    have hdone : Inv actions (s.setRequest i ⟨address, nonce, .done nonceRow⟩) := by
      refine h.setRequest hundone (h.seen i ⟨address, nonce, .marked nonceRow⟩ · hreq)
        (fun _ => h.used i ⟨address, nonce, .marked nonceRow⟩ hreq rfl) ?_
      intro _ j r hji hj hmarks hnonce
      exact hji (h.unique j i r _ hj hreq hmarks rfl hnonce)
    cases fails with
    | true => exact hdone
    | false =>
      refine { hdone with sessions := ?_, distinct := ?_ }
      · intro r hr
        rcases List.mem_append.1 hr with hr | hr
        · exact hdone.sessions r hr
        · obtain rfl := List.mem_singleton.1 hr
          exact ⟨_, nonceRow, requests_setRequest s i _, rfl, rfl, hordered rfl _ nonceRow hreq rfl⟩
      · show ((s.sessions ++ _).map SessionRow.request).Nodup
        rw [List.map_append, List.nodup_append]
        refine ⟨h.distinct, List.nodup_singleton _, ?_⟩
        intro j hj k hk heq
        obtain rfl := List.mem_singleton.1 hk
        obtain ⟨r, hr, rfl⟩ := List.mem_map.1 hj
        exact h.request_ne hundone r hr heq
  · exact h

/-- One step, of a run that never issues a nonce twice. -/
theorem Inv.step (h : Inv actions s) {a : Action}
    (hfresh : ∀ nonce, a.issued = some nonce → ∀ b ∈ actions, b.issued ≠ some nonce)
    (hordered : Ordered s a) : Inv (actions ++ [a]) (step s a) := by
  cases a with
  | elapse ms =>
    have h' := h.concat (.elapse ms)
    exact ⟨h'.rows, h'.seen, h'.used, h'.unique, h'.sessions, h'.distinct⟩
  | deleteExpired address readAt =>
    have h' := h.concat (.deleteExpired address readAt)
    refine h'.setNonces (fun row hrow => h'.rows row (List.mem_filter.1 hrow).1) ?_
    exact fun i req hreq hmarks row hrow => h'.used i req hreq hmarks row (List.mem_filter.1 hrow).1
  | insertNonce nonce address readAt => exact h.insertNonce address readAt (hfresh nonce rfl)
  | verify i address nonce =>
    have h' := h.concat (.verify i address nonce)
    simp only [SignIn.step]
    split
    · next hreq =>
      have hundone : Undone s i := fun req row h => absurd (hreq.symm.trans h) nofun
      exact h'.setRequest hundone nofun nofun nofun
    · exact h'
  | select i fails => exact (h.select i fails).concat _
  | checkExpiry i => exact (h.checkExpiry i).concat _
  | markUsed i fails => exact (h.markUsed hordered).concat _
  | createSession i fails => exact (h.createSession hordered).concat _

end

theorem inv_run (actions : List Action) (hissued : (actions.filterMap Action.issued).Nodup)
    (hordered : ∀ v ∈ Runs.visits step init actions, Ordered v.1 v.2) :
    Inv actions (Runs.run step init actions) := by
  induction actions using List.reverseRecOn with
  | nil => exact inv_init
  | append_singleton actions a ih =>
    rw [List.filterMap_append, List.nodup_append] at hissued
    obtain ⟨hbefore, -, hnew⟩ := hissued
    rw [Runs.visits_concat] at hordered
    rw [Runs.run_concat]
    have h := ih hbefore fun v hv => hordered v (List.mem_append_left _ hv)
    refine h.step ?_
      (hordered (Runs.run step init actions, a) (List.mem_append_right _ List.mem_cons_self))
    intro nonce ha b hb hsame
    have hmem : nonce ∈ actions.filterMap Action.issued := List.mem_filterMap.2 ⟨b, hb, hsame⟩
    exact hnew nonce hmem nonce (List.mem_filterMap.2 ⟨a, List.mem_cons_self, ha⟩) rfl

theorem safe_of_inv {actions : List Action} {s : State} (h : Inv actions s) : Safe actions s where
  single := by
    refine List.Pairwise.imp_of_mem ?_ (List.pairwise_map.1 h.distinct)
    intro r r' hr hr' hne hsame
    obtain ⟨req, row, hreq, hphase, -⟩ := h.sessions r hr
    obtain ⟨req', row', hreq', hphase', -⟩ := h.sessions r' hr'
    have hmarks : req.phase.marks = true := by rw [hphase]; rfl
    have hmarks' : req'.phase.marks = true := by rw [hphase']; rfl
    unfold nonceOf at hsame
    rw [hreq, hreq'] at hsame
    exact hne (h.unique _ _ req req' hreq hreq' hmarks hmarks' (Option.some.inj hsame))
  issued r hr := by
    obtain ⟨req, row, hreq, hphase, haddress, hcreated⟩ := h.sessions r hr
    have hrow : req.phase.row = some row := by rw [hphase]; rfl
    obtain ⟨hnonce, hsame, address, readAt, hmem, hissued, hexpiry⟩ := h.seen _ req row hreq hrow
    refine ⟨row.nonce, address, readAt, ?_, hmem, ?_, hexpiry ▸ hcreated⟩
    · unfold nonceOf
      rw [hreq, hnonce]
      rfl
    · -- the address of the row is in lower case already
      rw [haddress, ← hsame, hissued, toLowerCase_toLowerCase]

/-- The nonces are drawn from `randomBytes(16)` and do not repeat. -/
theorem one_session_per_nonce (actions : List Action)
    (hissued : (actions.filterMap Action.issued).Nodup)
    (hordered : ∀ v ∈ Runs.visits step init actions, Ordered v.1 v.2) :
    Safe actions (Runs.run step init actions) :=
  safe_of_inv (inv_run actions hissued hordered)

/-- The calls of one handler. -/
def signIn (i : ℕ) : List Action :=
  [.select i false, .checkExpiry i, .markUsed i false, .createSession i false]

/-- The same signed message twice, the second request after the first. -/
theorem one_session_per_nonce_repeated :
    let actions := .insertNonce (text "6e6f6e6365") (text "0xAb") 0 ::
      .verify 0 (text "0xAb") (text "6e6f6e6365") ::
      signIn 0 ++ .verify 1 (text "0xAb") (text "6e6f6e6365") :: signIn 1
    Safe actions (Runs.run step init actions) ∧ (Runs.run step init actions).sessions =
      [⟨0, text "0xab", 0⟩] := by
  refine ⟨one_session_per_nonce _ (by decide) ?_, by rfl⟩
  simp only [signIn, List.cons_append, List.nil_append, Runs.visits_cons, Runs.visits_nil,
    List.forall_mem_cons]
  refine ⟨trivial, trivial, trivial, trivial, ?_, ?_, trivial, trivial, trivial, ?_, ?_,
    List.forall_mem_nil _⟩
  · intro req nonceRow hreq _
    obtain rfl := Option.some.inj hreq
    exact ⟨rfl, _, List.mem_cons_self, rfl, rfl⟩
  · intro _ req nonceRow hreq hphase
    obtain rfl := Option.some.inj hreq
    obtain rfl := Phase.marked.inj hphase
    exact Nat.zero_le _
  · intro req nonceRow hreq hphase
    obtain rfl := Option.some.inj hreq
    exact absurd hphase nofun
  · intro _ req nonceRow hreq hphase
    obtain rfl := Option.some.inj hreq
    exact absurd hphase nofun

/-- Two requests with the same signed message, each a call ahead of the other's mark. -/
def replayed : List Action :=
  [.insertNonce (text "6e6f6e6365") (text "0xab") 0, .verify 0 (text "0xab") (text "6e6f6e6365"),
    .verify 1 (text "0xab") (text "6e6f6e6365"), .select 0 false, .select 1 false, .checkExpiry 0,
    .checkExpiry 1,
    .markUsed 0 false, .markUsed 1 false, .createSession 0 false, .createSession 1 false]

theorem two_sessions_for_one_nonce :
    ¬ ∀ actions : List Action, (actions.filterMap Action.issued).Nodup →
      Safe actions (Runs.run step init actions) := by
  intro h
  have hsafe := (h replayed (by decide)).single
  have hsessions : (Runs.run step init replayed).sessions =
      [⟨0, text "0xab", 0⟩, ⟨1, text "0xab", 0⟩] := by rfl
  rw [hsessions] at hsafe
  exact List.rel_of_pairwise_cons hsafe List.mem_cons_self rfl

end IntentGuard.Infra.SignIn
