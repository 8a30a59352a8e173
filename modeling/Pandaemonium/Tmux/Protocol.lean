import Pandaemonium.Lib.GoText

/-!
# `Tmux.Protocol` — the control-mode parser (`protocol.go`, `notification.go`)

tmux in control mode writes lines: notifications, which start with a percent sign, and response blocks,
which stand between a `%begin` marker and an `%end` or `%error` marker of the same time and command number.
`feed` takes one line. Between blocks a line opens a block or is a notification; inside a block every line
that is not the terminator of that very block is payload, whatever it looks like.

* `feed_begin`, `feed_payload`, `feed_terminator`, `feed_notification` — what one line does;
* `framing` — a stream of notifications and blocks comes out as one event for each, and the input may end
  between them and not inside a block;
* `payload_iff` — a block keeps its lines unless one of them is empty: an empty line is dropped before the
  parser looks whether it is inside a block.
-/

namespace Pandaemonium.Tmux

open List
open GoText (fields cut parseInt NumError)

/-! ## Markers -/

/-- A `%begin`, `%end` or `%error` marker. `time` is in seconds, as `Time.Equal` compares them. -/
structure BlockMarker where
  time : Int
  command : Int
  flags : Int
  deriving DecidableEq, Repr

/-- The errors of `parseMarker`. -/
inductive MarkerError where
  /-- `malformed %s marker` -/
  | malformed (kind : Bytes)
  /-- `invalid marker time %q: %w` -/
  | time (field : Bytes) (err : NumError)
  /-- `invalid marker command %q: %w` -/
  | command (field : Bytes) (err : NumError)
  /-- `invalid marker flags %q: %w` -/
  | flags (field : Bytes) (err : NumError)
  deriving DecidableEq, Repr

def parseMarker (line kind : Bytes) : Except MarkerError BlockMarker :=
  match fields line with
  | [name, time, command, flags] =>
    if name = kind then
      match parseInt time with
      | .error e => .error (.time time e)
      | .ok seconds =>
        match parseInt command with
        | .error e => .error (.command command e)
        | .ok number =>
          match parseInt flags with
          | .error e => .error (.flags flags e)
          | .ok bits => .ok ⟨seconds, number, bits⟩
    else .error (.malformed kind)
  | _ => .error (.malformed kind)

/-- `none` where the line is no `%begin` line at all. -/
def parseBegin (line : Bytes) : Except MarkerError (Option BlockMarker) :=
  if (fields line).head? = some (ascii "%begin") then (parseMarker line (ascii "%begin")).map some
  else .ok none

/-- The two terminators. -/
inductive Terminator where
  /-- `%end` -/
  | success
  /-- `%error` -/
  | failure
  deriving DecidableEq, Repr

def Terminator.name : Terminator → Bytes
  | .success => ascii "%end"
  | .failure => ascii "%error"

/-- The line as a terminator of one kind. -/
def parseTerminatorAs (kind : Terminator) (line : Bytes) : Option (Terminator × BlockMarker) :=
  if (fields line).length ≠ 4 then none
  else
    match parseMarker line kind.name with
    | .error _ => none
    | .ok marker => some (kind, marker)

def parseTerminator (line : Bytes) : Option (Terminator × BlockMarker) :=
  match fields line with
  | [] => none
  | name :: _ =>
    if name = ascii "%end" then parseTerminatorAs .success line
    else if name = ascii "%error" then parseTerminatorAs .failure line
    else none

def sameMarkerIdentity (a b : BlockMarker) : Bool := a.command == b.command && a.time == b.time

/-! ## Notifications -/

structure Notification where
  kind : Bytes
  raw : Bytes
  args : List Bytes
  deriving DecidableEq, Repr

/-- What a `ProtocolError` wraps. -/
inductive ProtocolCause where
  | marker (err : MarkerError)
  /-- `notification must start with %` -/
  | noPercent
  /-- `notification kind is empty` -/
  | emptyKind
  /-- `unexpected non-control line outside response block` -/
  | nonControlLine
  /-- `io.ErrUnexpectedEOF` after the `%begin` of a command -/
  | unexpectedEOF (command : Int)
  deriving DecidableEq, Repr

structure ProtocolError where
  line : Bytes
  err : ProtocolCause
  deriving DecidableEq, Repr

def parseNotification (line : Bytes) : Except ProtocolError Notification :=
  if line.head? ≠ some 0x25 then .error ⟨line, .noPercent⟩
  else
    let (kind, rest, _) := cut 0x20 line
    if kind = ascii "%" then .error ⟨line, .emptyKind⟩
    else .ok ⟨kind, line, if rest = [] then [] else fields rest⟩

/-! ## The parser -/

structure Response where
  beginMarker : BlockMarker
  endMarker : BlockMarker
  lines : List Bytes
  error : Bool
  deriving DecidableEq, Repr

inductive ProtocolMessage where
  | none
  | response (r : Response)
  | notification (n : Notification)
  deriving DecidableEq, Repr

structure ResponseBuilder where
  beginMarker : BlockMarker
  lines : List Bytes
  deriving DecidableEq, Repr

/-- `protocolParser`: the block that is open. -/
structure ProtocolParser where
  active : Option ResponseBuilder
  deriving DecidableEq, Repr

def ProtocolParser.new : ProtocolParser := ⟨none⟩

namespace ProtocolParser

/-- A line inside a block. -/
def feedActive (block : ResponseBuilder) (line : Bytes) : ProtocolParser × ProtocolMessage :=
  match parseTerminator line with
  | some (kind, marker) =>
    if sameMarkerIdentity block.beginMarker marker then
      (⟨none⟩, .response ⟨block.beginMarker, marker, block.lines, kind == .failure⟩)
    else (⟨some { block with lines := block.lines ++ [line] }⟩, .none)
  | none => (⟨some { block with lines := block.lines ++ [line] }⟩, .none)

/-- A line between blocks. -/
def feedIdle (line : Bytes) : ProtocolParser × Except ProtocolError ProtocolMessage :=
  match parseBegin line with
  | .error e => (⟨none⟩, .error ⟨line, .marker e⟩)
  | .ok (some marker) => (⟨some ⟨marker, []⟩⟩, .ok .none)
  | .ok none =>
    if line.head? = some 0x25 then
      match parseNotification line with
      | .error e => (⟨none⟩, .error e)
      | .ok n => (⟨none⟩, .ok (.notification n))
    else (⟨none⟩, .error ⟨line, .nonControlLine⟩)

/-- `normalizeControlLine` comes first: an empty line is passed over. -/
def feed (p : ProtocolParser) (line : Bytes) :
    ProtocolParser × Except ProtocolError ProtocolMessage :=
  if line = [] then (p, .ok .none)
  else
    match p.active with
    | some block => ((feedActive block line).1, .ok (feedActive block line).2)
    | none => feedIdle line

def eof (p : ProtocolParser) : Option ProtocolError :=
  match p.active with
  | none => none
  | some block => some ⟨[], .unexpectedEOF block.beginMarker.command⟩

end ProtocolParser

/-- One complete response or notification; both `none` where a line completes nothing. -/
structure Event where
  response : Option Response
  notification : Option Notification
  deriving DecidableEq, Repr

def Event.zero : Event := ⟨none, none⟩

def ProtocolMessage.event : ProtocolMessage → Event
  | .none => .zero
  | .response r => ⟨some r, Option.none⟩
  | .notification n => ⟨Option.none, some n⟩

/-- `Parser`. -/
structure Parser where
  parser : ProtocolParser
  deriving DecidableEq, Repr

namespace Parser

def new : Parser := ⟨.new⟩

/-- `Feed`. -/
def feed (p : Parser) (line : Bytes) : Parser × Except ProtocolError Event :=
  (⟨(p.parser.feed line).1⟩, (p.parser.feed line).2.map ProtocolMessage.event)

/-- `Close`. -/
def close (p : Parser) : Option ProtocolError := p.parser.eof

/-- Lines fed in order: the parser afterwards and the events that are not zero; the first error ends it. -/
def feedAll (p : Parser) : List Bytes → Except ProtocolError (Parser × List Event)
  | [] => .ok (p, [])
  | line :: lines =>
    match p.feed line with
    | (_, .error e) => .error e
    | (p', .ok ev) => (feedAll p' lines).map (fun r => (r.1, if ev = .zero then r.2 else ev :: r.2))

end Parser

/-! ## One line -/

/-- The line as a terminator of the block that `marker` opened. -/
def terminatorOf (marker : BlockMarker) (line : Bytes) : Option (Terminator × BlockMarker) :=
  (parseTerminator line).filter (fun t => sameMarkerIdentity marker t.2)

variable {marker : BlockMarker} {line : Bytes}

theorem terminatorOf_some {t : Terminator × BlockMarker} (h : terminatorOf marker line = some t) :
    parseTerminator line = some t ∧ sameMarkerIdentity marker t.2 = true := by
  rw [terminatorOf, Option.filter_eq_some_iff] at h
  exact h

/-- An empty line opens no block and ends none. -/
theorem parseBegin_nil : parseBegin [] = .ok none := by
  rw [parseBegin, GoText.fields_nil]
  rfl

theorem parseTerminator_nil : parseTerminator [] = none := by
  rw [parseTerminator, GoText.fields_nil]

namespace Parser

/-- The parser inside a block. -/
def inside (marker : BlockMarker) (lines : List Bytes) : Parser := ⟨⟨some ⟨marker, lines⟩⟩⟩

theorem feed_begin (h : parseBegin line = .ok (some marker)) :
    new.feed line = (inside marker [], .ok .zero) := by
  have hne : line ≠ [] := by
    rintro rfl
    rw [parseBegin_nil] at h
    cases h
  have hfeed : ProtocolParser.new.feed line = (⟨some ⟨marker, []⟩⟩, .ok .none) := by
    show (if line = [] then _ else ProtocolParser.feedIdle line) = _
    rw [if_neg hne, ProtocolParser.feedIdle, h]
  unfold feed new
  rw [hfeed]
  rfl

theorem feed_notification {n : Notification} (hpercent : line.head? = some 0x25)
    (hbegin : (fields line).head? ≠ some (ascii "%begin")) (h : parseNotification line = .ok n) :
    new.feed line = (new, .ok ⟨none, some n⟩) := by
  have hne : line ≠ [] := by
    rintro rfl
    cases hpercent
  have hfeed : ProtocolParser.new.feed line = (⟨none⟩, .ok (.notification n)) := by
    show (if line = [] then _ else ProtocolParser.feedIdle line) = _
    rw [if_neg hne, ProtocolParser.feedIdle, parseBegin, if_neg hbegin]
    simp only [if_pos hpercent, h]
  unfold feed new
  rw [hfeed]
  rfl

/-- What a block keeps of a line. -/
def kept (line : Bytes) : List Bytes := if line = [] then [] else [line]

theorem feed_payload {lines : List Bytes} (h : terminatorOf marker line = none) :
    (inside marker lines).feed line = (inside marker (lines ++ kept line), .ok .zero) := by
  by_cases hne : line = []
  · subst hne
    rw [kept, if_pos rfl, append_nil]
    rfl
  have hactive : ProtocolParser.feedActive ⟨marker, lines⟩ line =
      (⟨some ⟨marker, lines ++ [line]⟩⟩, .none) := by
    unfold ProtocolParser.feedActive
    cases ht : parseTerminator line with
    | none => rfl
    | some t =>
      have hother : ¬ sameMarkerIdentity marker t.2 = true := by
        intro hsame
        rw [terminatorOf, ht, Option.filter_some, if_pos hsame] at h
        cases h
      simp only [if_neg hother]
  have hfeed : (inside marker lines).parser.feed line =
      ((ProtocolParser.feedActive ⟨marker, lines⟩ line).1,
        .ok (ProtocolParser.feedActive ⟨marker, lines⟩ line).2) := by
    show (if line = [] then _ else _) = _
    rw [if_neg hne]
    rfl
  unfold feed
  rw [hfeed, hactive, kept, if_neg hne]
  rfl

theorem feed_terminator {marker' : BlockMarker} {kind : Terminator} {lines : List Bytes}
    (h : terminatorOf marker line = some (kind, marker')) :
    (inside marker lines).feed line =
      (new, .ok ⟨some ⟨marker, marker', lines, kind == .failure⟩, none⟩) := by
  obtain ⟨hterm, hsame⟩ := terminatorOf_some h
  have hne : line ≠ [] := by
    rintro rfl
    rw [parseTerminator_nil] at hterm
    cases hterm
  have hfeed : (inside marker lines).parser.feed line =
      ((ProtocolParser.feedActive ⟨marker, lines⟩ line).1,
        .ok (ProtocolParser.feedActive ⟨marker, lines⟩ line).2) := by
    show (if line = [] then _ else _) = _
    rw [if_neg hne]
    rfl
  have hactive : ProtocolParser.feedActive ⟨marker, lines⟩ line =
      (⟨none⟩, .response ⟨marker, marker', lines, kind == .failure⟩) := by
    unfold ProtocolParser.feedActive
    rw [hterm]
    exact if_pos hsame
  unfold feed
  rw [hfeed, hactive]
  rfl

/-! ## Many lines -/

theorem feedAll_cons_zero {p p' : Parser} (h : p.feed line = (p', .ok .zero)) (lines : List Bytes) :
    p.feedAll (line :: lines) = p'.feedAll lines := by
  rw [feedAll, h]
  simp only [if_true]
  cases p'.feedAll lines with
  | error e | ok r => rfl

theorem feedAll_cons_event {p p' : Parser} {ev : Event} (h : p.feed line = (p', .ok ev)) (hev : ev ≠ .zero)
    (lines : List Bytes) : p.feedAll (line :: lines) = (p'.feedAll lines).map (fun r => (r.1, ev :: r.2)) := by
  rw [feedAll, h]
  simp only [if_neg hev]

/-- The payload of a block, line by line. -/
theorem feedAll_payload {payload : List Bytes} (h : ∀ line ∈ payload, terminatorOf marker line = none)
    (lines rest : List Bytes) :
    (inside marker lines).feedAll (payload ++ rest) =
      (inside marker (lines ++ payload.flatMap kept)).feedAll rest := by
  induction payload generalizing lines with
  | nil => rw [flatMap_nil, append_nil, nil_append]
  | cons line payload ih =>
    rw [cons_append, feedAll_cons_zero (feed_payload (h line mem_cons_self)),
      ih (fun l hl => h l (mem_cons_of_mem line hl)), append_assoc, flatMap_cons]

/-- **A block**, from its `%begin` to its terminator. -/
theorem feedAll_block {opening terminator : Bytes} {payload : List Bytes} {marker' : BlockMarker}
    {kind : Terminator} (hbegin : parseBegin opening = .ok (some marker))
    (hpayload : ∀ line ∈ payload, terminatorOf marker line = none)
    (hterm : terminatorOf marker terminator = some (kind, marker')) (rest : List Bytes) :
    new.feedAll (opening :: (payload ++ terminator :: rest)) =
      (new.feedAll rest).map (fun r =>
        (r.1, ⟨some ⟨marker, marker', payload.flatMap kept, kind == .failure⟩, none⟩ :: r.2)) := by
  rw [feedAll_cons_zero (feed_begin hbegin), feedAll_payload hpayload, nil_append,
    feedAll_cons_event (feed_terminator hterm) nofun]

end Parser

/-! ## Streams -/

/-- What tmux writes. -/
inductive Item where
  | notification (line : Bytes)
  | block (opening : Bytes) (payload : List Bytes) (terminator : Bytes)

namespace Item

def lines : Item → List Bytes
  | .notification line => [line]
  | .block opening payload terminator => opening :: (payload ++ [terminator])

/-- A notification line that opens no block; a block whose payload holds no terminator of its own. -/
def WellFormed : Item → Prop
  | .notification line =>
    line.head? = some 0x25 ∧ (∃ n, parseNotification line = .ok n) ∧
      (fields line).head? ≠ some (ascii "%begin")
  | .block opening payload terminator =>
    ∃ marker, parseBegin opening = .ok (some marker) ∧
      (∀ line ∈ payload, terminatorOf marker line = none) ∧
      ∃ t, terminatorOf marker terminator = some t

/-- The event of an item: of its kind, with its markers, and an error exactly for `%error`. -/
def Yields : Item → Event → Prop
  | .notification line, ev => ∃ n, parseNotification line = .ok n ∧ ev = ⟨none, some n⟩
  | .block opening _ terminator, ev =>
    ∃ r kind, ev = ⟨some r, none⟩ ∧ parseBegin opening = .ok (some r.beginMarker) ∧
      parseTerminator terminator = some (kind, r.endMarker) ∧ (r.error = true ↔ kind = .failure)

/-- **One item** in front of a stream. -/
theorem feedAll_lines {item : Item} (h : item.WellFormed) :
    ∃ ev, item.Yields ev ∧ ∀ rest, Parser.new.feedAll (item.lines ++ rest) =
      (Parser.new.feedAll rest).map (fun r => (r.1, ev :: r.2)) := by
  cases item with
  | notification line =>
    obtain ⟨hpercent, ⟨n, hn⟩, hbegin⟩ := h
    refine ⟨⟨none, some n⟩, ⟨n, hn, rfl⟩, fun rest => ?_⟩
    exact Parser.feedAll_cons_event (Parser.feed_notification hpercent hbegin hn) nofun rest
  | block opening payload terminator =>
    obtain ⟨marker, hbegin, hpayload, ⟨kind, marker'⟩, hterm⟩ := h
    refine ⟨⟨some ⟨marker, marker', payload.flatMap Parser.kept, kind == .failure⟩, none⟩,
      ⟨_, kind, rfl, hbegin, (terminatorOf_some hterm).1, beq_iff_eq⟩, fun rest => ?_⟩
    rw [lines, cons_append, append_assoc]
    exact Parser.feedAll_block hbegin hpayload hterm rest

end Item

/-- A stream of items, one event for each. -/
theorem feedAll_items {items : List Item} (h : ∀ item ∈ items, item.WellFormed) :
    ∃ events, List.Forall₂ Item.Yields items events ∧ ∀ rest,
      Parser.new.feedAll (items.flatMap Item.lines ++ rest) =
        (Parser.new.feedAll rest).map (fun r => (r.1, events ++ r.2)) := by
  induction items with
  | nil =>
    refine ⟨[], .nil, fun rest => ?_⟩
    rw [flatMap_nil, nil_append]
    cases Parser.new.feedAll rest with
    | error e | ok r => rfl
  | cons item items ih =>
    obtain ⟨ev, hev, hfeed⟩ := Item.feedAll_lines (h item mem_cons_self)
    obtain ⟨events, hevents, hrest⟩ := ih (fun i hi => h i (mem_cons_of_mem item hi))
    refine ⟨ev :: events, .cons hev hevents, fun rest => ?_⟩
    rw [flatMap_cons, append_assoc, hfeed, hrest]
    cases Parser.new.feedAll rest with
    | error e | ok r => rfl

/-- **Framing.** A stream of notifications and blocks is fed without an error and yields one event for
    each item, in order; the input may end behind it, but not inside any of its blocks. -/
theorem framing (items : List Item) (h : ∀ item ∈ items, item.WellFormed) :
    (∃ p events, Parser.new.feedAll (items.flatMap Item.lines) = .ok (p, events) ∧
      List.Forall₂ Item.Yields items events ∧ p.close = none) ∧
    ∀ k opening payload terminator n, items[k]? = some (.block opening payload terminator) →
      n ≤ payload.length →
      ∃ p events, Parser.new.feedAll
          ((items.take k).flatMap Item.lines ++ opening :: payload.take n) = .ok (p, events) ∧
        p.close ≠ none := by
  constructor
  · obtain ⟨events, hevents, hfeed⟩ := feedAll_items h
    have hall := hfeed []
    rw [append_nil] at hall
    refine ⟨.new, events, ?_, hevents, rfl⟩
    rw [hall]
    show Except.ok (Parser.new, events ++ []) = _
    rw [append_nil]
  · intro k opening payload terminator n hk _
    obtain ⟨marker, hbegin, hpayload, -⟩ := h _ (mem_of_getElem? hk)
    obtain ⟨events, -, hfeed⟩ := feedAll_items (fun i hi => h i (mem_of_mem_take hi) : ∀ i ∈ items.take k, _)
    refine ⟨Parser.inside marker ((payload.take n).flatMap Parser.kept), events, ?_, nofun⟩
    have htake : ∀ l ∈ payload.take n, _ := fun l hl => hpayload l (mem_of_mem_take hl)
    have hinside := Parser.feedAll_payload htake [] []
    rw [append_nil, nil_append] at hinside
    rw [hfeed, Parser.feedAll_cons_zero (Parser.feed_begin hbegin), hinside]
    show Except.ok (_, events ++ []) = _
    rw [append_nil]

/-- A notification, a block with payload that looks like other lines, and a failed command. -/
theorem framing_example :
    (∃ p events, Parser.new.feedAll
      [ascii "%output %1 hi", ascii "%begin 1 2 1", ascii "%end 1 3 1", [], ascii "%begin 9 9 9",
        ascii "%end 1 2 0", ascii "%begin 5 6 0", ascii "%error 5 6 0"] = .ok (p, events) ∧
      List.Forall₂ Item.Yields
        [.notification (ascii "%output %1 hi"),
          .block (ascii "%begin 1 2 1") [ascii "%end 1 3 1", [], ascii "%begin 9 9 9"]
            (ascii "%end 1 2 0"),
          .block (ascii "%begin 5 6 0") [] (ascii "%error 5 6 0")] events ∧ p.close = none) :=
  (framing
    [.notification (ascii "%output %1 hi"),
      .block (ascii "%begin 1 2 1") [ascii "%end 1 3 1", [], ascii "%begin 9 9 9"] (ascii "%end 1 2 0"),
      .block (ascii "%begin 5 6 0") [] (ascii "%error 5 6 0")]
    (by
      simp only [forall_mem_cons]
      refine ⟨⟨rfl, ⟨⟨ascii "%output", ascii "%output %1 hi", [ascii "%1", ascii "hi"]⟩,
          by decide +kernel⟩, by decide +kernel⟩,
        ⟨⟨1, 2, 1⟩, by decide +kernel, by decide +kernel, ⟨.success, 1, 2, 0⟩, by decide +kernel⟩,
        ⟨⟨5, 6, 0⟩, by decide +kernel, by decide, ⟨.failure, 5, 6, 0⟩, by decide +kernel⟩,
        nofun⟩)).1

/-! ## Payload -/

theorem flatMap_kept (payload : List Bytes) :
    payload.flatMap Parser.kept = payload.filter (fun line => line ≠ []) := by
  induction payload with
  | nil => rfl
  | cons line payload ih =>
    rw [flatMap_cons, ih, filter_cons, Parser.kept]
    by_cases h : line = []
    all_goals simp [h]

/-- **Payload.** A block keeps exactly the lines fed between its markers if and only if none of them is
    empty. -/
theorem payload_iff (opening terminator : Bytes) (payload : List Bytes) (marker : BlockMarker)
    (t : Terminator × BlockMarker) (hbegin : parseBegin opening = .ok (some marker))
    (hpayload : ∀ line ∈ payload, terminatorOf marker line = none)
    (hterm : terminatorOf marker terminator = some t) :
    ∃ r, Parser.new.feedAll (opening :: (payload ++ [terminator])) =
        .ok (Parser.new, [⟨some r, none⟩]) ∧
      (r.lines = payload ↔ [] ∉ payload) := by
  refine ⟨⟨marker, t.2, payload.flatMap Parser.kept, t.1 == .failure⟩, ?_, ?_⟩
  · rw [Parser.feedAll_block hbegin hpayload hterm]
    rfl
  show payload.flatMap Parser.kept = payload ↔ _
  rw [flatMap_kept, filter_eq_self]
  constructor
  · intro h hmem
    exact absurd (h [] hmem) (by decide)
  intro h line hline
  have hne : line ≠ [] := by
    rintro rfl
    exact h hline
  simpa using hne

/-- Lines of spaces are kept. -/
theorem payload_spaces :
    ∃ r, Parser.new.feedAll [ascii "%begin 1 2 1", ascii "a", ascii "  ", ascii "%end 1 2 1"] =
        .ok (Parser.new, [⟨some r, none⟩]) ∧
      (r.lines = [ascii "a", ascii "  "] ↔ [] ∉ [ascii "a", ascii "  "]) :=
  payload_iff (ascii "%begin 1 2 1") (ascii "%end 1 2 1") [ascii "a", ascii "  "] ⟨1, 2, 1⟩
    (.success, ⟨1, 2, 1⟩) (by decide +kernel) (by decide +kernel) (by decide +kernel)

/-- The blank line between two lines of output is lost. -/
theorem payload_drops_blank :
    (∀ line ∈ [ascii "a", [], ascii "b"], terminatorOf ⟨1, 2, 1⟩ line = none) ∧
    Parser.new.feedAll [ascii "%begin 1 2 1", ascii "a", [], ascii "b", ascii "%end 1 2 1"] =
      .ok (Parser.new, [⟨some ⟨⟨1, 2, 1⟩, ⟨1, 2, 1⟩, [ascii "a", ascii "b"], false⟩, none⟩]) := by
  decide +kernel

end Pandaemonium.Tmux
