import Pandaemonium.Lib.GoText

/-!
# `Opencode.Sse` — server-sent events (`events.go`)

`readLine` takes a line off the stream and `next` gathers lines into a frame up to a blank line. What a stream
says is given by its records: fields, comments and fields of other names, each on a line of its own with
either ending, and a blank line at the end, which the last record may lack. `scan_frames` says that `next`
returns the frames of the records that have data, and then the end of the stream.
-/

namespace Pandaemonium.Opencode

open List
open GoText (cut cut_append cut_true cut_false)

/-! ## The scanner -/

/-- The errors of a read. -/
inductive SseError where
  /-- `io.EOF` -/
  | eof
  /-- any other error of the stream -/
  | stream
  /-- `opencode: SSE line exceeds %d bytes` -/
  | lineTooLong
  deriving DecidableEq, Repr

structure SseFrame where
  event : Bytes
  id : Bytes
  data : Bytes
  deriving DecidableEq, Repr

def maxSSELineLength : Nat := 16 * 2 ^ 20

/-- `strings.TrimSuffix(line, "\r")` -/
def trimCR (line : Bytes) : Bytes := if line.getLast? = some 0x0D then line.dropLast else line

/-- One line of what is left of the stream, which ends with the error `ending`. -/
def readLine (ending : SseError) (s : Bytes) : Except SseError Bytes × Bytes :=
  match cut 0x0A s with
  | (line, rest, true) =>
    if line.length + 1 > maxSSELineLength then (.error .lineTooLong, rest) else (.ok (trimCR line), rest)
  | (line, _, false) =>
    if line.length > maxSSELineLength then (.error .lineTooLong, [])
    else if ending = .eof ∧ line ≠ [] then (.ok (trimCR line), [])
    else (.error ending, [])

variable {ending : SseError}

theorem readLine_shorter {s line rest : Bytes}
    (h : readLine ending s = (.ok line, rest)) : rest.length < s.length := by
  unfold readLine at h
  split at h
  · rename_i line' rest' hcut
    split at h
    · cases h
    cases h
    rw [(cut_true hcut).1, length_append, length_cons]
    omega
  · rename_i line' rest' hcut
    split at h
    · cases h
    split at h
    · rename_i hne
      cases h
      rw [(cut_false hcut).1] at hne
      exact length_pos_iff.mpr hne.2
    · cases h

/-- `strings.TrimPrefix(value, " ")` -/
def trimSpace (value : Bytes) : Bytes :=
  match value with
  | 0x20 :: t => t
  | _ => value

/-- The variables of the loop in `next`. -/
structure Gathered where
  event : Bytes
  id : Bytes
  data : List Bytes
  haveData : Bool
  deriving DecidableEq, Repr

def Gathered.fresh : Gathered := ⟨[], [], [], false⟩

def Gathered.frame (p : Gathered) : SseFrame := ⟨p.event, p.id, [0x0A].intercalate p.data⟩

/-- A line that is neither blank nor a comment. -/
def Gathered.takeField (p : Gathered) (line : Bytes) : Gathered :=
  let (field, value, found) := cut 0x3A line
  let value := if found then trimSpace value else value
  if field = ascii "data" then { p with data := p.data ++ [value], haveData := true }
  else if field = ascii "event" then { p with event := value }
  else if field = ascii "id" then { p with id := value }
  else p

def nextFrom (ending : SseError) (p : Gathered) (s : Bytes) : Except SseError SseFrame × Bytes :=
  match _h : readLine ending s with
  | (.error e, rest) => (if e = .eof ∧ p.haveData = true then .ok p.frame else .error e, rest)
  | (.ok line, rest) =>
    if line = [] then
      if p.haveData = false then nextFrom ending { p with event := [], id := [] } rest
      else (.ok p.frame, rest)
    else if line.head? = some 0x3A then nextFrom ending p rest
    else nextFrom ending (p.takeField line) rest
termination_by s.length
decreasing_by
  all_goals exact readLine_shorter _h

/-- `next`: a frame or an error, and what is left of the stream. -/
def next (ending : SseError) (s : Bytes) : Except SseError SseFrame × Bytes := nextFrom ending .fresh s

/-- The results of `n` calls of `next`, one after the other. -/
def scan (ending : SseError) : Nat → Bytes → List (Except SseError SseFrame)
  | 0, _ => []
  | n + 1, s => (next ending s).1 :: scan ending n (next ending s).2

/-! ## What a stream says -/

/-- The content of a line that is not blank. -/
inductive SseField where
  /-- a comment, or a field of another name -/
  | filler (text : Bytes)
  | event (value : Bytes)
  | id (value : Bytes)
  | data (value : Bytes)
  deriving DecidableEq, Repr

namespace SseField

def text : SseField → Bytes
  | filler text => text
  | event value => ascii "event: " ++ value
  | id value => ascii "id: " ++ value
  | data value => ascii "data: " ++ value

def event? : SseField → Option Bytes
  | event value => some value
  | _ => none

def id? : SseField → Option Bytes
  | id value => some value
  | _ => none

def data? : SseField → Option Bytes
  | data value => some value
  | _ => none

/-- Comments start with a colon; another field's name is none of the three. -/
def IsFiller (text : Bytes) : Prop :=
  text ≠ [] ∧ (text.head? = some 0x3A ∨ (cut 0x3A text).1 ∉ [ascii "data", ascii "event", ascii "id"])

/-- A line without line ends in it. -/
structure WellFormed (f : SseField) : Prop where
  noLF : 0x0A ∉ f.text
  noCR : 0x0D ∉ f.text
  filler : ∀ text, f = .filler text → IsFiller text

end SseField

/-- The ending of a line. -/
inductive LineEnd where
  | lf
  | crlf
  deriving DecidableEq, Repr

def LineEnd.bytes : LineEnd → Bytes
  | lf => [0x0A]
  | crlf => [0x0D, 0x0A]

/-- A line with its ending. -/
structure SseLine where
  field : SseField
  ending : LineEnd
  deriving DecidableEq, Repr

def SseLine.bytes (l : SseLine) : Bytes := l.field.text ++ l.ending.bytes

/-- A line that the scanner takes. -/
structure SseLine.WellFormed (l : SseLine) : Prop where
  field : l.field.WellFormed
  length : l.bytes.length ≤ maxSSELineLength

/-- Lines, and the blank line behind them. -/
structure SseRecord where
  lines : List SseLine
  blank : LineEnd
  deriving DecidableEq, Repr

def SseRecord.bytes (r : SseRecord) : Bytes := r.lines.flatMap SseLine.bytes ++ r.blank.bytes

/-- **The frame of a record**: its data lines joined, with its last event and id; none without data. -/
def frameOf (fields : List SseField) : Option SseFrame :=
  if fields.filterMap SseField.data? = [] then none
  else some ⟨(fields.filterMap SseField.event?).getLastD [], (fields.filterMap SseField.id?).getLastD [],
    [0x0A].intercalate (fields.filterMap SseField.data?)⟩

def SseRecord.frame (r : SseRecord) : Option SseFrame := frameOf (r.lines.map SseLine.field)

/-- A whole stream: records, lines behind the last blank line, and perhaps a last line without an ending. -/
structure SseText where
  records : List SseRecord
  tail : List SseLine
  last : Option SseField

namespace SseText

def bytes (t : SseText) : Bytes :=
  t.records.flatMap SseRecord.bytes ++ (t.tail.flatMap SseLine.bytes ++ (t.last.map SseField.text).getD [])

def frames (t : SseText) : List SseFrame :=
  t.records.filterMap SseRecord.frame ++
    (frameOf (t.tail.map SseLine.field ++ t.last.toList)).toList

structure WellFormed (t : SseText) : Prop where
  records : ∀ r ∈ t.records, ∀ l ∈ r.lines, l.WellFormed
  tail : ∀ l ∈ t.tail, l.WellFormed
  last : ∀ f, t.last = some f → f.WellFormed ∧ f.text.length ≤ maxSSELineLength

end SseText

/-! ## One line -/

theorem trimCR_of_not_mem {line : Bytes} (h : 0x0D ∉ line) : trimCR line = line := by
  rw [trimCR, if_neg]
  intro hlast
  exact h (mem_of_getLast? hlast)

theorem trimCR_append (line : Bytes) : trimCR (line ++ [0x0D]) = line := by
  rw [trimCR, if_pos getLast?_concat, dropLast_concat]

/-- A line with its ending comes off the stream as its text. -/
theorem readLine_text {text : Bytes} (hLF : 0x0A ∉ text) (hCR : 0x0D ∉ text) (e : LineEnd)
    (hlength : (text ++ e.bytes).length ≤ maxSSELineLength) (ending : SseError) (rest : Bytes) :
    readLine ending (text ++ (e.bytes ++ rest)) = (.ok text, rest) := by
  cases e with
  | lf =>
    have hcut := cut_append hLF rest
    rw [length_append] at hlength
    simp only [LineEnd.bytes, cons_append, nil_append, length_singleton] at hlength ⊢
    rw [readLine, hcut]
    simp only
    rw [if_neg (by omega), trimCR_of_not_mem hCR]
  | crlf =>
    have hLF' : 0x0A ∉ text ++ [0x0D] := by simp [hLF]
    have hcut := cut_append hLF' rest
    rw [length_append] at hlength
    simp only [LineEnd.bytes, cons_append, nil_append, length_cons, length_nil]
      at hlength ⊢
    rw [append_assoc] at hcut
    simp only [cons_append, nil_append] at hcut
    rw [readLine, hcut]
    simp only [length_append, length_singleton]
    rw [if_neg (by omega), trimCR_append]

/-- A last line without an ending comes off as its text too. -/
theorem readLine_last {text : Bytes} (hne : text ≠ []) (hLF : 0x0A ∉ text) (hCR : 0x0D ∉ text)
    (hlength : text.length ≤ maxSSELineLength) : readLine .eof text = (.ok text, []) := by
  rw [readLine, cut, if_neg hLF]
  simp only
  rw [if_neg (by omega), if_pos ⟨trivial, hne⟩, trimCR_of_not_mem hCR]

theorem readLine_nil (ending : SseError) : readLine ending [] = (.error ending, []) := by
  simp [readLine, cut]

/-! ## Lines into frames -/

/-- What a field does to the variables of the loop. -/
def Gathered.after (p : Gathered) : SseField → Gathered
  | .filler _ => p
  | .event value => { p with event := value }
  | .id value => { p with id := value }
  | .data value => { p with data := p.data ++ [value], haveData := true }

theorem takeField_named (p : Gathered) {name : Bytes} (h : 0x3A ∉ name) (value : Bytes) :
    p.takeField (name ++ 0x3A :: 0x20 :: value) =
      if name = ascii "data" then { p with data := p.data ++ [value], haveData := true }
      else if name = ascii "event" then { p with event := value }
      else if name = ascii "id" then { p with id := value }
      else p := by
  rw [Gathered.takeField, cut_append h]
  rfl

variable {f : SseField}

/-- A field that is no comment. -/
theorem takeField_after (p : Gathered) (h : f.WellFormed) (hcomment : f.text.head? ≠ some 0x3A) :
    p.takeField f.text = p.after f := by
  cases f with
  | filler text =>
    obtain ⟨-, hcolon | hname⟩ := h.filler text rfl
    · exact absurd hcolon hcomment
    simp only [mem_cons, not_mem_nil, or_false, not_or] at hname
    show p.takeField text = p
    rw [Gathered.takeField]
    simp [hname]
  | event value => exact takeField_named p (by decide : 0x3A ∉ ascii "event") value
  | id value => exact takeField_named p (by decide : 0x3A ∉ ascii "id") value
  | data value => exact takeField_named p (by decide : 0x3A ∉ ascii "data") value

theorem SseField.WellFormed.text_ne_nil (h : f.WellFormed) : f.text ≠ [] := by
  cases f with
  | filler text => exact (h.filler text rfl).1
  | event value | id value | data value => exact cons_ne_nil _ _

/-- A comment changes nothing. -/
theorem after_comment (p : Gathered) (h : f.text.head? = some 0x3A) : p.after f = p := by
  cases f with
  | filler text => rfl
  | event value | id value | data value => cases h

/-- **The loop takes a field** and goes on with the line behind it. -/
theorem nextFrom_field (h : f.WellFormed) {s rest : Bytes}
    (hread : readLine ending s = (.ok f.text, rest)) (p : Gathered) :
    nextFrom ending p s = nextFrom ending (p.after f) rest := by
  rw [nextFrom]
  split
  · rename_i heq
    cases heq.symm.trans hread
  rename_i heq
  cases heq.symm.trans hread
  rw [if_neg h.text_ne_nil]
  by_cases hcomment : f.text.head? = some 0x3A
  · rw [if_pos hcomment, after_comment p hcomment]
  · rw [if_neg hcomment, takeField_after p h hcomment]

theorem nextFrom_lines {lines : List SseLine} (h : ∀ l ∈ lines, l.WellFormed) (ending : SseError)
    (p : Gathered) (rest : Bytes) :
    nextFrom ending p (lines.flatMap SseLine.bytes ++ rest) =
      nextFrom ending ((lines.map SseLine.field).foldl Gathered.after p) rest := by
  induction lines generalizing p with
  | nil => rfl
  | cons l lines ih =>
    obtain ⟨hfield, hlength⟩ := h l mem_cons_self
    have hread := readLine_text hfield.noLF hfield.noCR l.ending hlength ending
      (lines.flatMap SseLine.bytes ++ rest)
    rw [flatMap_cons, SseLine.bytes, append_assoc, append_assoc, nextFrom_field hfield hread,
      ih (fun l' hl' => h l' (mem_cons_of_mem _ hl'))]
    rfl

/-- The variables of the loop after some fields. -/
theorem foldl_after (fields : List SseField) (p : Gathered) :
    fields.foldl Gathered.after p =
      { event := (fields.filterMap SseField.event?).getLastD p.event
        id := (fields.filterMap SseField.id?).getLastD p.id
        data := p.data ++ fields.filterMap SseField.data?
        haveData := p.haveData || !(fields.filterMap SseField.data?).isEmpty } := by
  induction fields generalizing p with
  | nil => simp
  | cons f fields ih =>
    rw [foldl_cons, ih]
    cases f with
    | filler text => rfl
    | event value | id value => simp only [Gathered.after, filterMap_cons, SseField.event?, getLastD_cons,
        SseField.id?, SseField.data?]
    | data value => simp [Gathered.after, filterMap_cons, SseField.event?, SseField.id?,
        SseField.data?, -getLastD_eq_getLast?]

/-- What the loop has when it meets the end of a record. -/
theorem pending_of_fields (fields : List SseField) :
    (∃ f, frameOf fields = some f ∧ (fields.foldl Gathered.after .fresh).haveData = true ∧
      (fields.foldl Gathered.after .fresh).frame = f) ∨
    (frameOf fields = none ∧ (fields.foldl Gathered.after .fresh).haveData = false ∧
      (fields.foldl Gathered.after .fresh).data = []) := by
  rw [foldl_after, frameOf]
  by_cases hdata : fields.filterMap SseField.data? = []
  · right
    simp [hdata, Gathered.fresh]
  left
  rw [if_neg hdata]
  refine ⟨_, rfl, ?_, rfl⟩
  simp [Gathered.fresh, hdata]

/-! ## Records -/

theorem readLine_blank (e : LineEnd) (ending : SseError) (rest : Bytes) :
    readLine ending (e.bytes ++ rest) = (.ok [], rest) :=
  readLine_text not_mem_nil not_mem_nil e (by cases e <;> decide) ending rest

/-- **A record with data is a frame.** -/
theorem next_frame {r : SseRecord} (h : ∀ l ∈ r.lines, l.WellFormed) {f : SseFrame} (hf : r.frame = some f)
    (ending : SseError) (rest : Bytes) : next ending (r.bytes ++ rest) = (.ok f, rest) := by
  rw [next, SseRecord.bytes, append_assoc, nextFrom_lines h, nextFrom]
  split
  · rename_i heq
    cases heq.symm.trans (readLine_blank r.blank ending rest)
  rename_i heq
  cases heq.symm.trans (readLine_blank r.blank ending rest)
  rcases pending_of_fields (r.lines.map SseLine.field) with ⟨f', hf', hhave, hframe⟩ | ⟨hnone, -⟩
  · cases hf.symm.trans hf'
    rw [if_pos rfl, hhave, hframe]
    rfl
  · cases hf.symm.trans hnone

/-- **A record without data** leaves nothing behind. -/
theorem next_dataless {r : SseRecord} (h : ∀ l ∈ r.lines, l.WellFormed) (hf : r.frame = none)
    (ending : SseError) (rest : Bytes) : next ending (r.bytes ++ rest) = next ending rest := by
  rw [next, SseRecord.bytes, append_assoc, nextFrom_lines h, nextFrom]
  split
  · rename_i heq
    cases heq.symm.trans (readLine_blank r.blank ending rest)
  rename_i heq
  cases heq.symm.trans (readLine_blank r.blank ending rest)
  rcases pending_of_fields (r.lines.map SseLine.field) with ⟨f', hf', -⟩ | ⟨-, hhave, hdata⟩
  · cases hf.symm.trans hf'
  · rw [if_pos rfl, if_pos hhave, hhave, hdata]
    rfl

/-- The end of the stream. -/
theorem nextFrom_end (p : Gathered) :
    nextFrom .eof p [] = (if p.haveData = true then .ok p.frame else .error .eof, []) := by
  rw [nextFrom]
  split
  · rename_i heq
    cases heq.symm.trans (readLine_nil .eof)
    simp
  · rename_i heq
    cases heq.symm.trans (readLine_nil .eof)

/-- A record that the end of the stream cuts short. -/
theorem next_tail {tail : List SseLine} {last : Option SseField} (htail : ∀ l ∈ tail, l.WellFormed)
    (hlast : ∀ f, last = some f → f.WellFormed ∧ f.text.length ≤ maxSSELineLength) :
    next .eof (tail.flatMap SseLine.bytes ++ (last.map SseField.text).getD []) =
      match frameOf (tail.map SseLine.field ++ last.toList) with
      | some f => (.ok f, [])
      | none => (.error .eof, []) := by
  have hend : next .eof (tail.flatMap SseLine.bytes ++ (last.map SseField.text).getD []) =
      nextFrom .eof ((tail.map SseLine.field ++ last.toList).foldl Gathered.after .fresh) [] := by
    rw [next, nextFrom_lines htail, foldl_append]
    cases last with
    | none => rfl
    | some f =>
      obtain ⟨hf, hlength⟩ := hlast f rfl
      exact nextFrom_field hf (readLine_last hf.text_ne_nil hf.noLF hf.noCR hlength) _
  rw [hend, nextFrom_end]
  rcases pending_of_fields (tail.map SseLine.field ++ last.toList) with
    ⟨f, hf, hhave, hframe⟩ | ⟨hnone, hhave, -⟩
  · rw [hf, if_pos hhave, hframe]
  · rw [hnone, hhave]
    rfl

/-! ## Whole streams -/

theorem scan_congr {s s' : Bytes} (h : next ending s = next ending s') (n : Nat) :
    scan ending (n + 1) s = scan ending (n + 1) s' := by
  rw [scan, scan, h]

theorem next_nil : next .eof [] = (.error .eof, []) := nextFrom_end .fresh

/-- **Frames round trip.** Successive calls of `next` return the frames of a stream, in order, and then the
    end of the stream, whether or not the last record has its blank line and its last line an ending. -/
theorem scan_frames (t : SseText) (h : t.WellFormed) :
    scan .eof (t.frames.length + 1) t.bytes = t.frames.map .ok ++ [.error .eof] := by
  obtain ⟨records, tail, last⟩ := t
  obtain ⟨hrecords, htail, hlast⟩ := h
  simp only [SseText.frames, SseText.bytes]
  induction records with
  | nil =>
    have hnext := next_tail htail hlast
    cases hf : frameOf (tail.map SseLine.field ++ last.toList) with
    | none =>
      rw [hf] at hnext
      simp [scan, hnext]
    | some f =>
      rw [hf] at hnext
      simp [scan, hnext, next_nil]
  | cons r records ih =>
    have hr := hrecords r mem_cons_self
    have hrest := ih (fun r' hr' => hrecords r' (mem_cons_of_mem _ hr')) htail hlast
    rw [flatMap_cons, append_assoc]
    cases hf : r.frame with
    | none =>
      rw [filterMap_cons_none hf, scan_congr (next_dataless hr hf .eof _)]
      exact hrest
    | some f =>
      rw [filterMap_cons_some hf, cons_append, length_cons, scan, next_frame hr hf]
      exact congrArg _ hrest

theorem scan_frames_two : let t : SseText :=
      { records := [⟨[⟨.event (ascii "m"), .crlf⟩, ⟨.data (ascii "a: b"), .lf⟩], .crlf⟩]
        tail := [], last := some (.data (ascii " c")) }
    t.WellFormed ∧ scan .eof 3 t.bytes =
      [.ok ⟨ascii "m", [], ascii "a: b"⟩, .ok ⟨[], [], ascii " c"⟩, .error .eof] := by
  intro t
  have ht : t.WellFormed := by
    refine ⟨fun r hr l hl => ?_, forall_mem_nil _, fun f hf => ?_⟩
    · cases mem_singleton.mp hr
      simp only [mem_cons, not_mem_nil, or_false] at hl
      rcases hl with rfl | rfl
      · exact ⟨⟨by decide, by decide, by intro text h; cases h⟩, by decide⟩
      · exact ⟨⟨by decide, by decide, by intro text h; cases h⟩, by decide⟩
    · cases hf
      exact ⟨⟨by decide, by decide, by intro text h; cases h⟩, by decide⟩
  exact ⟨ht, scan_frames t ht⟩

end Pandaemonium.Opencode
