import Pandaemonium.Lib.Json
import Pandaemonium.Lib.Loop

/-!
# `Codex.NotificationScan` — the ids of a notification (`notification_scan.go`)

A notification is routed by an id in its params. `scanNotificationTurnID` and `scanNotificationLoginID`
look for it with a scanner of their own and give up (`none`, the `false` of the source) on anything out of
the ordinary; `decodeNotificationTurnID` and `decodeNotificationLoginID` decode the params as JSON.

The scanner looks at `data[pos:]` only, so it is a function of that text, and what it answers is the text
left. The loops over the members of an object (`scanNotificationTurnID`, `scanNotificationLoginID`,
`readTurnObject`, `skipObject`) are one loop, `scanMembers`, with what each does with a member.
`skipValue`, `skipObject` and `skipArray` call one another; the knot is tied with a bound on how deep
containers nest, and since every container opened has taken a byte, the length of the params is bound
enough.
-/

namespace Pandaemonium.Codex

open List

/-! ## The bytes -/

def isDigit (c : UInt8) : Bool := 0x30 ≤ c && c ≤ 0x39

def isDigitOneToNine (c : UInt8) : Bool := 0x31 ≤ c && c ≤ 0x39

def isHexDigit (c : UInt8) : Bool :=
  (0x30 ≤ c && c ≤ 0x39) || (0x61 ≤ c && c ≤ 0x66) || (0x41 ≤ c && c ≤ 0x46)

/-- JSON white space. -/
def skipSpace : Bytes → Bytes
  | [] => []
  | c :: t => if c = 0x20 ∨ c = 0x0A ∨ c = 0x0D ∨ c = 0x09 then skipSpace t else c :: t

/-- Behind the byte, if it is next. -/
def consumeByte (c : UInt8) : Bytes → Option Bytes
  | [] => none
  | b :: t => if b = c then some t else none

/-- Behind the literal, if it is next. -/
def consumeLiteral (literal s : Bytes) : Option Bytes :=
  if s.take literal.length = literal then some (s.drop literal.length) else none

/-! ## Strings and numbers -/

/-- Behind a backslash: the bytes of the escape, and the text behind it. -/
def readEscape : Bytes → Option (Bytes × Bytes)
  | [] => none
  | e :: t =>
    if e = 0x22 ∨ e = 0x5C ∨ e = 0x2F ∨ e = 0x62 ∨ e = 0x66 ∨ e = 0x6E ∨ e = 0x72 ∨ e = 0x74 then
      some ([e], t)
    else if e = 0x75 then
      if 4 ≤ t.length ∧ (t.take 4).all isHexDigit = true then some (e :: t.take 4, t.drop 4)
      else none
    else none

variable {s t : Bytes}

theorem readEscape_lt {e : Bytes} (h : readEscape s = some (e, t)) : t.length < s.length := by
  cases s with
  | nil => cases h
  | cons c s =>
    rw [readEscape] at h
    split at h
    · cases h; simp
    split at h
    · split at h
      · cases h; simp only [length_drop, length_cons]; omega
      · cases h
    · cases h

/-- Behind the opening quote: the bytes up to the closing one, and whether one of them is a backslash. -/
def readStringBody (escaped : Bool) (s : Bytes) : Option (Bytes × Bool × Bytes) :=
  match s with
  | [] => none
  | c :: t =>
    if c = 0x22 then some ([], escaped, t)
    else if c = 0x5C then
      match _h : readEscape t with
      | none => none
      | some (e, t') => (readStringBody true t').map (fun r => (c :: (e ++ r.1), r.2))
    else if c < 0x20 then none
    else (readStringBody escaped t).map (fun r => (c :: r.1, r.2))
termination_by s.length
decreasing_by
  · have := readEscape_lt _h
    simp only [length_cons]; omega
  · simp

/-- The raw bytes of a string, whether it has escapes, and the text behind it. -/
def readString (s : Bytes) : Option (Bytes × Bool × Bytes) :=
  match consumeByte 0x22 s with
  | none => none
  | some t => readStringBody false t

/-- A string without escapes. -/
def readSimpleString (s : Bytes) : Option (Bytes × Bytes) :=
  match readString s with
  | none => none
  | some (value, escaped, t) => if escaped then none else some (value, t)

def skipDigits (s : Bytes) : Bytes := s.dropWhile isDigit

/-- One digit at least. -/
def skipDigits1 (s : Bytes) : Option Bytes :=
  match s with
  | [] => none
  | c :: _ => if isDigit c then some (skipDigits s) else none

/-- `0`, or digits from `1` on. -/
def skipInteger (s : Bytes) : Option Bytes :=
  match s with
  | [] => none
  | c :: t =>
    if c = 0x30 then some t
    else if isDigitOneToNine c then some (skipDigits t)
    else none

/-- A dot and digits, if any. -/
def skipFraction (s : Bytes) : Option Bytes :=
  match s with
  | 0x2E :: t => skipDigits1 t
  | _ => some s

/-- An optional sign. -/
def skipSign (s : Bytes) : Bytes :=
  if s.head? = some 0x2B ∨ s.head? = some 0x2D then s.tail else s

/-- `e`, a sign and digits, if any. -/
def skipExponent (s : Bytes) : Option Bytes :=
  match s with
  | [] => some s
  | c :: t => if c = 0x65 ∨ c = 0x45 then skipDigits1 (skipSign t) else some s

/-- The test at the end of the source's function, that something was consumed, holds by then. -/
def skipNumber (s : Bytes) : Option Bytes :=
  (skipInteger (if s.head? = some 0x2D then s.tail else s)).bind fun t =>
    (skipFraction t).bind skipExponent

/-! ## Objects and arrays -/

section

variable {α : Type}

/-- What follows a member or an element, with `close` the closing bracket. -/
def afterPart (close : UInt8) (a : α) (s : Bytes) : Turn (α × Bytes) (Option (α × Bytes)) :=
  match consumeByte close (skipSpace s) with
  | some t => .done (some (a, t))
  | none =>
    match consumeByte 0x2C (skipSpace s) with
    | some t => .again (a, t)
    | none => .done none

/-- One turn of a loop over members. `refuseEscaped`: a name with escapes ends the scan. -/
def memberTurn (refuseEscaped : Bool) (field : Bytes → α → Bytes → Option (α × Bytes))
    (st : α × Bytes) : Turn (α × Bytes) (Option (α × Bytes)) :=
  match consumeByte 0x7D (skipSpace st.2) with
  | some t => .done (some (st.1, t))
  | none =>
    match readString (skipSpace st.2) with
    | none => .done none
    | some (key, escaped, t) =>
      if refuseEscaped && escaped then .done none
      else
        match consumeByte 0x3A (skipSpace t) with
        | none => .done none
        | some t =>
          match field key st.1 t with
          | none => .done none
          | some (a, t) => afterPart 0x7D a t

/-- Behind the opening brace: every member in turn, up to the closing brace. -/
def scanMembers (refuseEscaped : Bool) (field : Bytes → α → Bytes → Option (α × Bytes)) (a : α)
    (s : Bytes) : Option (α × Bytes) :=
  (Loop.loop (fun st => st.2.length) (memberTurn refuseEscaped field) (a, s)).join

end

/-- A member that is passed over. -/
def skipField {α : Type} (skip : Bytes → Option Bytes) (a : α) (s : Bytes) : Option (α × Bytes) :=
  (skip s).map (fun t => (a, t))

/-- An object, by skipping its values. -/
def skipObject (skip : Bytes → Option Bytes) (s : Bytes) : Option Bytes :=
  match consumeByte 0x7B s with
  | none => none
  | some t => (scanMembers false (fun _ a t => skipField skip a t) () t).map (·.2)

/-- One element, or the end of the array. -/
def elementTurn (skip : Bytes → Option Bytes) (st : Unit × Bytes) :
    Turn (Unit × Bytes) (Option (Unit × Bytes)) :=
  match consumeByte 0x5D (skipSpace st.2) with
  | some t => .done (some ((), t))
  | none =>
    match skip (skipSpace st.2) with
    | none => .done none
    | some t => afterPart 0x5D () t

/-- An array, by skipping its elements. -/
def skipArray (skip : Bytes → Option Bytes) (s : Bytes) : Option Bytes :=
  match consumeByte 0x5B s with
  | none => none
  | some t =>
    ((Loop.loop (fun st => st.2.length) (elementTurn skip) ((), t)).join).map (·.2)

/-- The dispatch of `skipValue`, with what passes over the containers. -/
def skipValueIn (object array : Bytes → Option Bytes) (s : Bytes) : Option Bytes :=
  match skipSpace s with
  | [] => none
  | c :: t =>
    if c = 0x22 then (readString (c :: t)).map (·.2.2)
    else if c = 0x7B then object (c :: t)
    else if c = 0x5B then array (c :: t)
    else if c = 0x74 then consumeLiteral (ascii "true") (c :: t)
    else if c = 0x66 then consumeLiteral (ascii "false") (c :: t)
    else if c = 0x6E then consumeLiteral (ascii "null") (c :: t)
    else skipNumber (c :: t)

/-- **Pass over a value**, for containers nested at most `depth` deep. -/
def skipValue : Nat → Bytes → Option Bytes
  | 0 => skipValueIn (fun _ => none) (fun _ => none)
  | depth + 1 => skipValueIn (skipObject (skipValue depth)) (skipArray (skipValue depth))

/-! ## The ids -/

/-- The ids of a turn object. -/
structure ScannedTurn where
  id : Bytes
  turnID : Bytes
  turnID2 : Bytes
  deriving DecidableEq, Repr

def ScannedTurn.empty : ScannedTurn := ⟨[], [], []⟩

/-- One member of a turn object. -/
def turnField (skip : Bytes → Option Bytes) (key : Bytes) (turn : ScannedTurn) (s : Bytes) :
    Option (ScannedTurn × Bytes) :=
  if key = ascii "id" then (readSimpleString s).map (fun r => ({ turn with id := r.1 }, r.2))
  else if key = ascii "turnId" then
    (readSimpleString s).map (fun r => ({ turn with turnID := r.1 }, r.2))
  else if key = ascii "turn_id" then
    (readSimpleString s).map (fun r => ({ turn with turnID2 := r.1 }, r.2))
  else skipField skip turn s

/-- A turn object, or `null`. -/
def readTurnObject (skip : Bytes → Option Bytes) (s : Bytes) : Option (ScannedTurn × Bytes) :=
  match consumeLiteral (ascii "null") (skipSpace s) with
  | some t => some (.empty, t)
  | none =>
    match consumeByte 0x7B (skipSpace s) with
    | none => none
    | some t => scanMembers true (turnField skip) .empty t

/-- The variables of `scanNotificationTurnID`. -/
structure ScannedParams where
  turnID : Bytes
  turnID2 : Bytes
  turn : ScannedTurn
  deriving DecidableEq, Repr

def ScannedParams.empty : ScannedParams := ⟨[], [], .empty⟩

/-- One member of the parameters. -/
def paramsField (skip : Bytes → Option Bytes) (key : Bytes) (p : ScannedParams) (s : Bytes) :
    Option (ScannedParams × Bytes) :=
  if key = ascii "turnId" then
    (readSimpleString s).map (fun r => ({ p with turnID := r.1 }, r.2))
  else if key = ascii "turn_id" then
    (readSimpleString s).map (fun r => ({ p with turnID2 := r.1 }, r.2))
  else if key = ascii "turn" then
    (readTurnObject skip s).map (fun r => ({ p with turn := r.1 }, r.2))
  else skipField skip p s

/-- One member of login parameters. -/
def loginField (skip : Bytes → Option Bytes) (key loginID s : Bytes) : Option (Bytes × Bytes) :=
  if key = ascii "loginId" then readSimpleString s else skipField skip loginID s

/-- The frame of both scanners: `null`, or an object with `field` for its members, and nothing behind
    it. -/
def scanParams {α : Type} (field : Bytes → α → Bytes → Option (α × Bytes)) (a : α) (params : Bytes) :
    Option α :=
  match consumeLiteral (ascii "null") (skipSpace params) with
  | some t => if skipSpace t = [] then some a else none
  | none =>
    match consumeByte 0x7B (skipSpace params) with
    | none => none
    | some t =>
      match scanMembers true field a t with
      | none => none
      | some (a, t) => if skipSpace t = [] then some a else none

/-- The first id that is not empty, in the order of the source. -/
def ScannedParams.id (p : ScannedParams) : Bytes :=
  if p.turnID ≠ [] then p.turnID
  else if p.turnID2 ≠ [] then p.turnID2
  else if p.turn.turnID ≠ [] then p.turn.turnID
  else if p.turn.turnID2 ≠ [] then p.turn.turnID2
  else p.turn.id

/-- `none` where the scan gives up. -/
def scanNotificationTurnID (params : Bytes) : Option Bytes :=
  (scanParams (paramsField (skipValue params.length)) .empty params).map ScannedParams.id

/-- `none` where the scan gives up. -/
def scanNotificationLoginID (params : Bytes) : Option Bytes :=
  scanParams (loginField (skipValue params.length)) [] params

/-! ## Decoding

`json.Unmarshal` is not part of the source. What it is assumed to do with a well-formed text without
duplicate names is written down on the tree of the text: members go to the fields of their exact names,
`null` leaves the zero value, and a member of the wrong type is an error. -/

/-- A string field. -/
def unmarshalString : Option Json.Value → Option Bytes
  | none => some []
  | some .null => some []
  | some (.string s) => some (Json.Str.value s)
  | some _ => none

/-- The `turn` field: a nil pointer, or the fields of the object. -/
def unmarshalTurn : Option Json.Value → Option (Option ScannedTurn)
  | none => some none
  | some .null => some none
  | some (.object _ ms) =>
    (unmarshalString (Json.Value.member? ms (ascii "id"))).bind fun id =>
      (unmarshalString (Json.Value.member? ms (ascii "turnId"))).bind fun turnID =>
        (unmarshalString (Json.Value.member? ms (ascii "turn_id"))).map fun turnID2 =>
          some ⟨id, turnID, turnID2⟩
  | some _ => none

/-- The envelope of `decodeNotificationTurnID`. -/
structure Envelope where
  turnID : Bytes
  turnID2 : Bytes
  turn : Option ScannedTurn
  deriving DecidableEq, Repr

/-- All fields of the envelope. -/
def unmarshalEnvelope : Json.Value → Option Envelope
  | .null => some ⟨[], [], none⟩
  | .object _ ms =>
    (unmarshalString (Json.Value.member? ms (ascii "turnId"))).bind fun turnID =>
      (unmarshalString (Json.Value.member? ms (ascii "turn_id"))).bind fun turnID2 =>
        (unmarshalTurn (Json.Value.member? ms (ascii "turn"))).map fun turn =>
          ⟨turnID, turnID2, turn⟩
  | _ => none

/-- The ids in the order of the scan. -/
def decodeNotificationTurnID (params : Json.Value) : Bytes :=
  match unmarshalEnvelope params with
  | none => []
  | some envelope =>
    if envelope.turnID ≠ [] then envelope.turnID
    else if envelope.turnID2 ≠ [] then envelope.turnID2
    else
      match envelope.turn with
      | some turn =>
        if turn.turnID ≠ [] then turn.turnID
        else if turn.turnID2 ≠ [] then turn.turnID2
        else turn.id
      | none => []

def unmarshalLoginID : Json.Value → Option Bytes
  | .null => some []
  | .object _ ms => unmarshalString (Json.Value.member? ms (ascii "loginId"))
  | _ => none

/-- Empty where decoding fails. -/
def decodeNotificationLoginID (params : Json.Value) : Bytes := (unmarshalLoginID params).getD []

end Pandaemonium.Codex
