import IntentGuard.Infra.CanonicalJson
import IntentGuard.Infra.Config
import IntentGuard.Lib.Runs

/-!
# The local content store

`LocalCasPinner` of `ipfs/index.ts` and the gateway `local-cas.ts`. A file is named by the SHA-256
of its content and is written once; the process may stop while it writes, and what has been written
by then stays.

`read_run`: a file has what the first event of its content wrote. `pinned_served_iff`: so every
pinned content is served exactly when no content whose pin returns was first written in part.
-/

namespace IntentGuard.Infra.LocalCas

open Js Infra

/-- `[0-9a-f]`. -/
def isHexDigit (u : UInt16) : Bool :=
  (48 ≤ u.toNat && u.toNat ≤ 57) || (97 ≤ u.toNat && u.toNat ≤ 102)

/-- `createHash("sha256").update(bytes).digest("hex")`. -/
structure Sha256 where
  hex : Bytes → JsString
  spelled : ∀ b, (hex b).length = 64 ∧ (hex b).all isHexDigit = true

/-- `string | Uint8Array`. -/
inductive Content
  | string (s : JsString)
  | bytes (b : Bytes)

def Content.toBytes : Content → Bytes
  | .string s => Js.encode s
  | .bytes b => b

/-- The files of `LOCAL_CAS_DIR` by their names. -/
abbrev Files := JsString → Option Bytes

structure PinResult where
  uri : JsString
  cid : JsString
  bytes : ℕ
  deriving DecidableEq

/-- `publicBaseUrl.replace(/\/$/, "")`. -/
def stripSlash (publicBaseUrl : JsString) : JsString :=
  if publicBaseUrl.getLast? = some 47 then publicBaseUrl.dropLast else publicBaseUrl

def pinnedUri (publicBaseUrl hash : JsString) : JsString :=
  stripSlash publicBaseUrl ++ text "/ipfs/" ++ hash

/-- `uri.split("/").pop()`. -/
def lastSegment (uri : JsString) : JsString := (uri.reverse.takeWhile fun u => u ≠ 47).reverse

variable (S : Sha256) (publicBaseUrl : JsString)

/-- `if (!existsSync(path)) writeFileSync(path, bytes)`, of which the first `written` bytes reach
the file. -/
def writeOnce (files : Files) (bytes : Bytes) (written : ℕ) : Files :=
  match files (S.hex bytes) with
  | some _ => files
  | none => Function.update files (S.hex bytes) (some (bytes.take written))

def pin (files : Files) (content : Content) : Files × PinResult :=
  let bytes := content.toBytes
  let hash := S.hex bytes
  (writeOnce S files bytes bytes.length,
    { uri := pinnedUri publicBaseUrl hash, cid := hash, bytes := bytes.length })

def fetch (files : Files) (uri : JsString) : Option Bytes :=
  let id := lastSegment uri
  if id = [] then none else files id

/-- `GET /ipfs/:cid`. -/
def getCid (files : Files) (cid : JsString) : Except HttpError Bytes := do
  throwIf (¬ (cid.length = 64 ∧ cid.all isHexDigit = true)) (badRequest "cid must be a sha256 hex")
  orThrow (notFound "cid not pinned locally") (files cid)

/-! ### Histories -/

/-- A call of `pin` returns, or its write ends in the middle: it fails, or the process stops and is
started again. A write that ends before the file is there leaves no trace. -/
inductive Event
  | pin (content : Content)
  | stopped (content : Content) (written : ℕ)

namespace Event

def content : Event → Content
  | .pin content | .stopped content _ => content

abbrev bytes (e : Event) : Bytes := e.content.toBytes

/-- How many bytes a write of the event puts into the file. -/
def written : Event → ℕ
  | .pin content => content.toBytes.length
  | .stopped _ written => written

/-- A write of the event is not cut short. -/
def Whole (e : Event) : Prop := e.bytes.length ≤ e.written

end Event

def step (files : Files) : Event → Files
  | .pin content => (pin S publicBaseUrl files content).1
  | .stopped content written => writeOnce S files content.toBytes written

def empty : Files := fun _ => none

/-- The content is in the file that its hash names, and the URI and the gateway answer with it. -/
structure Served (files : Files) (content : Content) : Prop where
  named : ∃ b, files (S.hex content.toBytes) = some b ∧ S.hex b = S.hex content.toBytes
  fetched : fetch files (pinnedUri publicBaseUrl (S.hex content.toBytes)) = some content.toBytes
  gateway : getCid files (S.hex content.toBytes) = .ok content.toBytes

variable {S publicBaseUrl}

theorem step_eq (files : Files) (e : Event) :
    step S publicBaseUrl files e = writeOnce S files e.bytes e.written := by
  cases e <;> rfl

/-- A file is written by the first event that has its name, unless it is already there. -/
theorem read_run (files : Files) (events : List Event) (name : JsString) :
    Runs.run (step S publicBaseUrl) files events name =
      (files name).or ((events.find? fun e => S.hex e.bytes = name).map
        fun e => e.bytes.take e.written) := by
  induction events generalizing files with
  | nil => exact (Option.or_none).symm
  | cons e events ih =>
    rw [Runs.run_cons, ih, step_eq, List.find?_cons]
    unfold writeOnce
    by_cases hname : S.hex e.bytes = name
    · subst hname
      rw [decide_eq_true rfl]
      cases hfile : files (S.hex e.bytes) with
      | some b => simp only [hfile, Option.some_or]
      | none => simp only [Function.update_self, Option.some_or, Option.none_or, Option.map_some]
    · rw [decide_eq_false hname]
      cases hfile : files (S.hex e.bytes) with
      | some b => rfl
      | none =>
        dsimp only
        rw [Function.update_of_ne (Ne.symm hname)]

/-- The last segment of a pin's URI is the name of the file. -/
theorem lastSegment_pinnedUri {hash : JsString} (h : hash.all isHexDigit = true) :
    lastSegment (pinnedUri publicBaseUrl hash) = hash := by
  have hslash : ∀ u ∈ hash.reverse, u ≠ 47 := by
    intro u hu hslash
    have hdigit := List.all_eq_true.1 h u (List.mem_reverse.1 hu)
    rw [hslash] at hdigit
    exact absurd hdigit (by decide)
  have htail : (stripSlash publicBaseUrl ++ text "/ipfs/" ++ hash).reverse =
      hash.reverse ++ 47 :: (stripSlash publicBaseUrl ++ text "/ipfs").reverse := by
    have htext : text "/ipfs/" = text "/ipfs" ++ [47] := by decide
    rw [htext, ← List.append_assoc, List.append_assoc _ [47] hash, List.reverse_append,
      List.reverse_append]
    simp
  unfold lastSegment pinnedUri
  rw [htail, List.takeWhile_append_of_pos fun u hu => decide_eq_true (hslash u hu)]
  simp

theorem served_iff {files : Files} {content : Content} :
    Served S publicBaseUrl files content ↔
      files (S.hex content.toBytes) = some content.toBytes := by
  obtain ⟨hlength, hdigits⟩ := S.spelled content.toBytes
  have hne : S.hex content.toBytes ≠ [] := by
    intro h
    rw [h] at hlength
    exact absurd hlength (by decide)
  have hfetch : fetch files (pinnedUri publicBaseUrl (S.hex content.toBytes)) =
      files (S.hex content.toBytes) := by
    unfold fetch
    rw [lastSegment_pinnedUri hdigits]
    exact if_neg hne
  constructor
  · exact fun h => hfetch.symm.trans h.fetched
  · intro h
    refine ⟨⟨_, h, rfl⟩, hfetch.trans h, ?_⟩
    unfold getCid
    rw [throwIf, if_neg (not_not.2 ⟨hlength, hdigits⟩), h]
    rfl

variable (publicBaseUrl) in
/-- The file of a content, when the hashes of the run's contents do not collide: what its first
event wrote. -/
theorem exists_first {events : List Event}
    (hS : ∀ e ∈ events, ∀ e' ∈ events, S.hex e.bytes = S.hex e'.bytes → e.bytes = e'.bytes)
    {content : Content} (hpin : .pin content ∈ events) :
    ∃ e, events.find? (fun e => e.bytes = content.toBytes) = some e ∧ e.bytes = content.toBytes ∧
      Runs.run (step S publicBaseUrl) empty events (S.hex content.toBytes) =
        some (content.toBytes.take e.written) := by
  have hfind : events.find? (fun e => S.hex e.bytes = S.hex content.toBytes) =
      events.find? fun e => e.bytes = content.toBytes := by
    rw [← List.head?_filter, ← List.head?_filter]
    exact congrArg List.head?
      (List.filter_congr fun e he => decide_eq_decide.2 ⟨hS e he _ hpin, congrArg S.hex⟩)
  cases hfirst : events.find? (fun e => e.bytes = content.toBytes) with
  | none => exact absurd (decide_eq_true rfl) (List.find?_eq_none.1 hfirst _ hpin)
  | some e =>
    have hbytes : e.bytes = content.toBytes := by simpa using List.find?_some hfirst
    refine ⟨e, rfl, hbytes, ?_⟩
    rw [read_run, hfind, hfirst, ← hbytes]
    rfl

/-- A pinned content is served exactly when its first write was not cut short. -/
theorem served_iff_whole {events : List Event}
    (hS : ∀ e ∈ events, ∀ e' ∈ events, S.hex e.bytes = S.hex e'.bytes → e.bytes = e'.bytes)
    {content : Content} (hpin : .pin content ∈ events) :
    Served S publicBaseUrl (Runs.run (step S publicBaseUrl) empty events) content ↔
      ∀ e ∈ events.find? (fun e => e.bytes = content.toBytes), e.Whole := by
  obtain ⟨e, hfirst, hbytes, hfile⟩ := exists_first publicBaseUrl hS hpin
  rw [served_iff, hfile, hfirst, Option.some.injEq, List.take_eq_self_iff, ← hbytes]
  constructor
  · intro hwhole e' he'
    obtain rfl := Option.some.inj he'
    exact hwhole
  · exact fun h => h e rfl

/-- After any history, every content whose pin returned is served as it is exactly when the first
write of each was not cut short. -/
theorem pinned_served_iff {events : List Event}
    (hS : ∀ e ∈ events, ∀ e' ∈ events, S.hex e.bytes = S.hex e'.bytes → e.bytes = e'.bytes) :
    (∀ content, .pin content ∈ events →
      Served S publicBaseUrl (Runs.run (step S publicBaseUrl) empty events) content) ↔
      ∀ content, .pin content ∈ events → ∀ e ∈ events.find? (fun e => e.bytes = content.toBytes),
        e.Whole := by
  refine forall₂_congr fun content hpin => ?_
  obtain ⟨e, hfirst, hbytes, hfile⟩ := exists_first publicBaseUrl hS hpin
  rw [served_iff, hfile, hfirst, Option.some.injEq, List.take_eq_self_iff]
  unfold Event.Whole
  rw [← hbytes]
  constructor
  · intro hwhole e' he'
    obtain rfl := Option.some.inj he'
    exact hwhole
  · exact fun h => h e rfl

end IntentGuard.Infra.LocalCas

namespace IntentGuard.Localnet

open Js Infra LocalCas

/-- SHA-256 of `{` and of `{}`, and something else of the same form for other bytes. -/
def sha256 : Sha256 where
  hex b :=
    if b = [123] then text "021fb596db81e6d02bf3d2586ee3981fe519f275c0ac9ca76bbcf2ebb4097d96"
    else if b = [123, 125] then
      text "44136fa355b3678a1146ad16f7e8649e94fb4fc21fe77e8310c060f61caaff8a"
    else List.replicate 64 48
  spelled := by
    intro b
    split_ifs <;> decide +kernel

/-- The content `{}`. -/
def emptyObject : Content := .string (text "\x7b\x7d")

end IntentGuard.Localnet

namespace IntentGuard.Infra.LocalCas

open Js Infra Localnet

/-- The process stops after the first byte of a file, and after the restart the same content is
pinned. -/
theorem torn_file_served :
    ¬ ∀ (S : Sha256) (publicBaseUrl : JsString) (events : List Event),
      (∀ e ∈ events, ∀ e' ∈ events, S.hex e.bytes = S.hex e'.bytes → e.bytes = e'.bytes) →
      ∀ content, .pin content ∈ events →
        Served S publicBaseUrl (Runs.run (step S publicBaseUrl) empty events) content := by
  intro h
  have hpin : Event.pin emptyObject ∈ [Event.stopped emptyObject 1, .pin emptyObject] :=
    List.mem_cons_of_mem _ List.mem_cons_self
  have hone : ∀ e ∈ [Event.stopped emptyObject 1, .pin emptyObject],
      e.bytes = emptyObject.toBytes :=
    List.forall_mem_cons.2 ⟨rfl, List.forall_mem_singleton.2 rfl⟩
  have hserved := h sha256 (text "http://localhost:8787") _
    (fun e he e' he' _ => (hone e he).trans (hone e' he').symm) _ hpin
  have hfile : Runs.run (step sha256 (text "http://localhost:8787")) empty
      [.stopped emptyObject 1, .pin emptyObject]
      (sha256.hex emptyObject.toBytes) = some [123] := by decide +kernel
  exact absurd ((served_iff.1 hserved).symm.trans hfile) (by decide)

/-- A stop in the middle of another content's write leaves the pinned one whole. -/
theorem pinned_served_iff_emptyObject :
    Served sha256 (text "http://localhost:8787/")
      (Runs.run (step sha256 (text "http://localhost:8787/")) empty
        [.stopped (.bytes [123]) 0, .pin emptyObject, .stopped emptyObject 1]) emptyObject := by
  refine (pinned_served_iff ?_).2 ?_ emptyObject (List.mem_cons_of_mem _ List.mem_cons_self)
  · decide +kernel
  · intro content hpin e he
    have hcontent : content = emptyObject := by simpa using hpin
    subst hcontent
    have hfirst : [Event.stopped (.bytes [123]) 0, .pin emptyObject, .stopped emptyObject 1].find?
        (fun e => e.bytes = emptyObject.toBytes) = some (.pin emptyObject) := rfl
    obtain rfl := Option.some.inj (hfirst.symm.trans he)
    exact Nat.le_refl _

end IntentGuard.Infra.LocalCas
