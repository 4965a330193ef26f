import IntentGuard.Lib.Machines

/-!
# Event streams

The reader of `text/event-stream`, as the platform standard has it, on code points. A stream is a
sequence of lines that end in CR LF, in LF or in CR; a line is a field, a comment or empty, and an
empty line dispatches the event that the fields before it describe. The numbers are code points: 10
and 13 end a line, 58 is the colon and 32 the blank.

`feed_frame`: an event that is written as two fields and an empty line is read back, whatever its
data are, as long as neither it nor its type holds an end of line.
-/

namespace EventStream

open Machines

/-- The code points of a literal. -/
def codes (s : String) : List ℕ := s.toList.map Char.toNat

structure Event where
  type : List ℕ
  data : List ℕ
  lastEventId : List ℕ

/-- `line` is what has been read of the current line, and `afterCR` says that the last one ended in
a CR. -/
structure Reader where
  line : List ℕ
  afterCR : Bool
  data : List ℕ
  eventType : List ℕ
  lastEventId : List ℕ
  reconnectionTime : Option ℕ

namespace Reader

def init : Reader := ⟨[], false, [], [], [], none⟩

def isDigit (c : ℕ) : Bool := 48 ≤ c && c ≤ 57

/-- A field of an unknown name is ignored. -/
def field (r : Reader) (name value : List ℕ) : Reader :=
  if name = codes "event" then { r with eventType := value }
  else if name = codes "data" then { r with data := r.data ++ value ++ [10] }
  else if name = codes "id" then if value.contains 0 then r else { r with lastEventId := value }
  else if name = codes "retry" then
    if value.all isDigit then
      { r with reconnectionTime := some (value.foldl (fun n c => n * 10 + (c - 48)) 0) }
    else r
  else r

/-- Without data there is no event. -/
def dispatch (r : Reader) : Reader × List Event :=
  let r' := { r with data := [], eventType := [] }
  if r.data = [] then (r', [])
  else
    let type := if r.eventType = [] then codes "message" else r.eventType
    (r', [⟨type, if r.data.getLast? = some 10 then r.data.dropLast else r.data, r.lastEventId⟩])

/-- The value of a field, of what follows its name: one blank after the colon is not part of it. -/
def valueOf : List ℕ → List ℕ
  | 58 :: 32 :: value => value
  | 58 :: value => value
  | _ => []

def endLine (r : Reader) : Reader × List Event :=
  let r' := { r with line := [] }
  match r.line with
  | [] => r'.dispatch
  | 58 :: _ => (r', [])
  | line => (r'.field (line.takeWhile (· ≠ 58)) (valueOf (line.dropWhile (· ≠ 58))), [])

def read (r : Reader) (c : ℕ) : Reader × List Event :=
  if c = 10 then if r.afterCR then ({ r with afterCR := false }, []) else r.endLine
  else if c = 13 then { r with afterCR := true }.endLine
  else ({ r with line := r.line ++ [c], afterCR := false }, [])

end Reader

/-- A byte order mark at the start is skipped; the state is whether the stream is at its start. -/
def skipMark (atStart : Bool) (c : ℕ) : Bool × List ℕ :=
  (false, if atStart ∧ c = 0xFEFF then [] else [c])

theorem feed_skipMark {c : ℕ} (hc : c ≠ 0xFEFF) (atStart : Bool) (cs : List ℕ) :
    feed skipMark atStart (c :: cs) = (false, c :: cs) := by
  have hrest : ∀ cs, feed skipMark false cs = (false, cs) := by
    intro cs
    induction cs with
    | nil => rfl
    | cons c cs ih =>
      rw [feed_cons]
      show ((feed skipMark false cs).1, (skipMark false c).2 ++ (feed skipMark false cs).2) = _
      simp [ih, skipMark]
  rw [feed_cons]
  show ((feed skipMark false cs).1, (skipMark atStart c).2 ++ (feed skipMark false cs).2) = _
  simp [hrest, skipMark, hc]

/-! ### Lines -/

/-- No end of a line. -/
def OneLine (cs : List ℕ) : Prop := ∀ c ∈ cs, c ≠ 10 ∧ c ≠ 13

instance (cs : List ℕ) : Decidable (OneLine cs) :=
  inferInstanceAs (Decidable (∀ c ∈ cs, c ≠ 10 ∧ c ≠ 13))

theorem OneLine.append {as bs : List ℕ} (ha : OneLine as) (hb : OneLine bs) :
    OneLine (as ++ bs) := by
  intro c hc
  rcases List.mem_append.1 hc with hc | hc
  · exact ha c hc
  · exact hb c hc

/-- `name: value` and the end of the line. -/
def fieldLine (name value : List ℕ) : List ℕ := name ++ 58 :: 32 :: (value ++ [10])

def commentLine (comment : List ℕ) : List ℕ := 58 :: (comment ++ [10])

/-- An event as two fields and an empty line. -/
def frame (type data : List ℕ) : List ℕ :=
  fieldLine (codes "event") type ++ fieldLine (codes "data") data ++ [10]

/-- The reader has read whole frames only. -/
structure Ready (r : Reader) : Prop where
  line : r.line = []
  afterCR : r.afterCR = false
  data : r.data = []
  eventType : r.eventType = []

theorem ready_init : Ready .init := ⟨rfl, rfl, rfl, rfl⟩

variable {r : Reader} {cs : List ℕ}

theorem feed_oneLine (hcs : OneLine cs) (hcr : r.afterCR = false) :
    feed Reader.read r cs = ({ r with line := r.line ++ cs }, []) := by
  induction cs generalizing r with
  | nil => simp
  | cons c cs ih =>
    obtain ⟨⟨hlf, hcr'⟩, hcs⟩ := List.forall_mem_cons.1 hcs
    have hread : r.read c = ({ r with line := r.line ++ [c] }, []) := by
      simp only [Reader.read, if_neg hlf, if_neg hcr', hcr]
    have hrest : feed Reader.read { r with line := r.line ++ [c] } cs =
        ({ r with line := r.line ++ [c] ++ cs }, []) :=
      ih hcs hcr
    rw [feed_cons, hread, hrest]
    simp

theorem feed_line (hcs : OneLine cs) (hline : r.line = []) (hcr : r.afterCR = false) :
    feed Reader.read r (cs ++ [10]) = { r with line := cs }.endLine := by
  rw [feed_append_of_eq (feed_oneLine hcs hcr), hline, feed_cons]
  simp [Reader.read, hcr]

theorem endLine_field {c : ℕ} (hc : c ≠ 58) :
    { r with line := c :: cs }.endLine =
      ({ r with line := [] }.field ((c :: cs).takeWhile (· ≠ 58))
        (Reader.valueOf ((c :: cs).dropWhile (· ≠ 58))), []) := by
  unfold Reader.endLine
  split
  · next h => exact absurd h (List.cons_ne_nil _ _)
  · next h => exact absurd (List.cons.inj h).1 hc
  · rfl

/-- A line with a field. -/
theorem feed_fieldLine {name value : List ℕ} (hname : OneLine name) (hcolon : 58 ∉ name)
    (hne : name ≠ []) (hvalue : OneLine value) (hline : r.line = []) (hcr : r.afterCR = false) :
    feed Reader.read r (fieldLine name value) = (r.field name value, []) := by
  have hword : OneLine (name ++ 58 :: 32 :: value) := hname.append (List.forall_mem_cons.2
    ⟨by decide, List.forall_mem_cons.2 ⟨by decide, hvalue⟩⟩)
  have hsplit : fieldLine name value = (name ++ 58 :: 32 :: value) ++ [10] := by simp [fieldLine]
  have htake : (name ++ 58 :: 32 :: value).takeWhile (· ≠ 58) = name := by
    rw [List.takeWhile_append_of_pos fun c hc => by simpa using fun h : c = 58 => hcolon (h ▸ hc)]
    simp
  have hdrop : (name ++ 58 :: 32 :: value).dropWhile (· ≠ 58) = 58 :: 32 :: value := by
    rw [List.dropWhile_append_of_pos fun c hc => by simpa using fun h : c = 58 => hcolon (h ▸ hc)]
    simp
  have hr : { r with line := [] } = r := by rw [← hline]
  rw [hsplit, feed_line hword hline hcr]
  obtain ⟨c, name, rfl⟩ := List.exists_cons_of_ne_nil hne
  have hc : c ≠ 58 := fun h => hcolon (h ▸ List.mem_cons_self)
  rw [List.cons_append] at htake hdrop ⊢
  rw [endLine_field hc, htake, hdrop, hr]
  rfl

theorem feed_emptyLine (hline : r.line = []) (hcr : r.afterCR = false) :
    feed Reader.read r [10] = r.dispatch := by
  have hr : { r with line := [] } = r := by rw [← hline]
  rw [← List.nil_append [10], feed_line (fun _ h => absurd h List.not_mem_nil) hline hcr, hr]
  simp [Reader.endLine, hline, hr]

/-! ### Frames -/

/-- An event is read back, and the reader is where it was. -/
theorem feed_frame {type data : List ℕ} (hr : Ready r) (htype : OneLine type)
    (hdata : OneLine data) :
    feed Reader.read r (frame type data) =
      (r, [⟨if type = [] then codes "message" else type, data, r.lastEventId⟩]) := by
  obtain ⟨line, afterCR, data', eventType, id, time⟩ := r
  obtain ⟨rfl, rfl, rfl, rfl⟩ := hr
  have hevent : feed Reader.read ⟨[], false, [], [], id, time⟩ (fieldLine (codes "event") type) =
      (⟨[], false, [], type, id, time⟩, []) :=
    feed_fieldLine (by decide) (by decide) (by decide) htype rfl rfl
  have hfields : feed Reader.read ⟨[], false, [], type, id, time⟩ (fieldLine (codes "data") data) =
      (⟨[], false, data ++ [10], type, id, time⟩, []) :=
    feed_fieldLine (by decide) (by decide) (by decide) hdata rfl rfl
  unfold frame
  rw [List.append_assoc, feed_append_of_eq hevent, feed_append_of_eq hfields,
    feed_emptyLine rfl rfl]
  simp [Reader.dispatch]

/-- A comment and an empty line say nothing. -/
theorem feed_comment (hr : Ready r) (hcs : OneLine cs) :
    feed Reader.read r (commentLine cs ++ [10]) = (r, []) := by
  obtain ⟨line, afterCR, data, eventType, id, time⟩ := r
  obtain ⟨rfl, rfl, rfl, rfl⟩ := hr
  have hcomment : feed Reader.read ⟨[], false, [], [], id, time⟩ (commentLine cs) =
      (⟨[], false, [], [], id, time⟩, []) := by
    rw [commentLine, ← List.cons_append,
      feed_line (List.forall_mem_cons.2 ⟨by decide, hcs⟩) rfl rfl]
    rfl
  rw [feed_append_of_eq hcomment, feed_emptyLine rfl rfl]
  rfl

end EventStream
