import Pandaemonium.Lib.Splice
import Pandaemonium.Toml.Marshal
import Pandaemonium.Toml.Parse

/-!
# `Toml.EditDocument` — the format-preserving document (`document.go`)

`Document.parse` reads the tokens of a text and notes for each key/value statement where its value and its
line stand. `set`, `insertAfter` and `delete` note what is to change, in maps keyed by a whole path
flattened to one string; `bytes` makes edits of the notes, sorts them and splices them into the text. `get`
answers from the notes.

A Go map is the list of its entries, one for a key. The interners of the source only share storage and are
left out. `Document` below is never `nil`.
-/

namespace Pandaemonium.Toml

open SortedMap (get?)
open Splice (slice)

/-! ## Values -/

inductive DocumentValueKind where
  | invalid | string | integer | float | bool | datetime | array | inlineTable
  deriving DecidableEq, Repr

/-- A Go value handed to an edit: one that the decoder also produces, or any other, of which the document
    sees the kind and what `writeValue` makes of it. -/
inductive GoAny where
  | val (v : Val)
  | other (kind : DocumentValueKind) (text : Except String Bytes)
  deriving DecidableEq

def documentKindForGoValue : GoAny → DocumentValueKind
  | .val (.str _) => .string
  | .val (.int _) => .integer
  | .val (.float _) => .float
  | .val (.bool _) => .bool
  | .val (.dateTime _) => .datetime
  | .val (.arr _) => .array
  | .val (.tbl _) => .inlineTable
  | .other kind _ => kind

def documentKindFromToken : TokenKind → DocumentValueKind
  | .valueString => .string
  | .valueInteger => .integer
  | .valueFloat => .float
  | .valueBool => .bool
  | .valueDatetime => .datetime
  | .arrayStart => .array
  | .inlineTableStart => .inlineTable
  | _ => .invalid

def formatDocumentValue (lib : Strconv) : GoAny → Except String Bytes
  | .val v => .ok (writeValue lib v)
  | .other _ text => text

/-- The path with dots between its segments. -/
def formatDocumentPath (lib : Strconv) (path : List Bytes) : Bytes :=
  [0x2E].intercalate (path.map (formatKey lib))

/-- The canonical line of a path. -/
def formatDocumentKeyValue (lib : Strconv) (path : List Bytes) (value : GoAny) :
    Except String Bytes :=
  match formatDocumentValue lib value with
  | .error e => .error e
  | .ok text => .ok (formatDocumentPath lib path ++ ascii " = " ++ text ++ [0x0A])

/-- The ASCII part of `unicode.IsSpace`. -/
def isSpaceASCII (b : UInt8) : Bool := b == 0x20 || (0x09 ≤ b && b ≤ 0x0D)

/-- A string in the quotes of the text it replaces. That text is a string token, so `bytes.TrimSpace`
    meets no space past ASCII. -/
def formatStringLike (lib : Strconv) (existing value : Bytes) : Bytes :=
  let trimmed := trimRight isSpaceASCII (existing.dropWhile isSpaceASCII)
  if 2 ≤ trimmed.length ∧ trimmed.head? = some 0x27 ∧ trimmed.getLast? = some 0x27 ∧
      !value.any (fun c => c == 0x27 || c == 0x0A || c == 0x0D) then
    [0x27] ++ value ++ [0x27]
  else Quote.quote lib.printable value

/-! ## Paths -/

def parseDocumentPath (path : Bytes) : Except Err (List Bytes) := parseDottedKey path

/-- `strings.Join(parts, "\x00")` -/
def joinDocumentPath (parts : List Bytes) : Bytes := [0x00].intercalate parts

def joinPathKeys (parent child : Bytes) : Bytes :=
  if parent = [] then child else if child = [] then parent else parent ++ [0x00] ++ child

/-- One more segment of a path key; the separator is written only after something. -/
def writeSegment (b part : Bytes) : Bytes := if b = [] then part else b ++ [0x00] ++ part

def pathKeyResult (origLen : Nat) (b : Bytes) : Except Err Bytes :=
  if b = [] then .error (dottedKeyError origLen "empty key") else .ok b

/-- The path key of `raw` after what is written in `b`. -/
def parseDottedPathKeyFrom (origLen : Nat) (b raw : Bytes) : Except Err Bytes :=
  match _h0 : trimLeftBlank raw with
  | [] => pathKeyResult origLen b
  | c :: t =>
    match _h1 : dottedKeySegment origLen (c :: t) with
    | .error e => .error e
    | .ok (part, rest) =>
      match _h2 : trimLeftBlank rest with
      | [] => pathKeyResult origLen (writeSegment b part)
      | dot :: rest' =>
        if dot ≠ 0x2E then .error (dottedKeyError origLen "unexpected token in dotted key")
        else if trimLeftBlank rest' = [] then
          .error (dottedKeyError origLen "empty key segment")
        else parseDottedPathKeyFrom origLen (writeSegment b part) rest'
termination_by raw.length
decreasing_by exact dottedKeySegment_rest_lt _h0 _h1 _h2

def parseDottedPathKey (raw : Bytes) : Except Err Bytes :=
  let trimmed := bytesTrimSpace raw
  if isSimpleBareKey trimmed then .ok trimmed else parseDottedPathKeyFrom raw.length [] trimmed

def parseHeaderPathKey (raw : Bytes) (array : Bool) : Except Err Bytes :=
  parseDottedPathKey (trimHeaderKey raw array)

/-! ## The document -/

structure DocumentEntry where
  pathKey : Bytes
  /-- `value`, where `valueSet` -/
  value : Option GoAny
  valueRaw : Bytes
  valueSpan : Nat × Nat
  lineSpan : Nat × Nat
  kind : DocumentValueKind
  deriving DecidableEq

structure DocumentInsertion where
  /-- the path key of the anchor, empty for the end of the document -/
  afterPath : Bytes
  pathKey : Bytes
  path : List Bytes
  value : GoAny
  deriving DecidableEq

structure Document where
  raw : Bytes
  entries : List DocumentEntry
  byPath : List (Bytes × Nat)
  replacements : List (Bytes × Bytes)
  deletions : List Bytes
  insertions : List DocumentInsertion
  pending : List (Bytes × GoAny)
  deriving DecidableEq

section

variable {α : Type}

/-- `m[k] = v` -/
def mapPut (m : List (Bytes × α)) (k : Bytes) (v : α) : List (Bytes × α) :=
  (k, v) :: SortedMap.erase m k

/-- `delete(m, k)` -/
def mapDelete (m : List (Bytes × α)) (k : Bytes) : List (Bytes × α) := SortedMap.erase m k

end

/-- The start of the line that `start` is on; the text before it is given last byte first. -/
def lineStart (start : Nat) (before : Bytes) : Nat :=
  start - before.findIdx (fun b => b == 0x0A || b == 0x0D)

/-- The length of the rest of a line with its line end. -/
def lineRest : Bytes → Nat
  | [] => 0
  | b :: t =>
    if b = 0x0A then 1
    else if b = 0x0D then if t.head? = some 0x0A then 2 else 1
    else lineRest t + 1

/-- The lines that the span from `start` to `stop` is on. -/
def lineSpan (data : Bytes) (start stop : Nat) : Nat × Nat :=
  (lineStart start (data.take start).reverse, stop + lineRest (data.drop stop))

namespace Document

/-! ### Parsing -/

/-- What `readValue` returns. -/
structure RawValue where
  raw : Bytes
  span : Nat × Nat
  kind : DocumentValueKind

/-- The loop variables of the bracket count. -/
structure BracketState where
  arrayDepth : Int
  inlineDepth : Int
  stop : Nat
  dec : Decoder

/-- One turn of the bracket count: the two kinds of brackets are counted apart. -/
def bracketTurn (s : BracketState) : Turn BracketState (Outcome Nat × Decoder) :=
  if s.arrayDepth > 0 ∨ s.inlineDepth > 0 then
    afterCall s.dec.readToken fun tok d =>
      let s := { s with stop := (rawTokenSpan tok).2, dec := d }
      match tok.kind with
      | .arrayStart => .again { s with arrayDepth := s.arrayDepth + 1 }
      | .arrayEnd => .again { s with arrayDepth := s.arrayDepth - 1 }
      | .inlineTableStart => .again { s with inlineDepth := s.inlineDepth + 1 }
      | .inlineTableEnd => .again { s with inlineDepth := s.inlineDepth - 1 }
      | _ => .again s
  else .done (.ok s.stop, s.dec)

/-- From the token after an opening bracket to the end of the count. -/
def readBrackets (data : Bytes) (tok : RawToken) (arrayDepth inlineDepth : Int)
    (kind : DocumentValueKind) (d : Decoder) : Outcome RawValue × Decoder :=
  let span := rawTokenSpan tok
  match runLoop (·.dec) bracketTurn ⟨arrayDepth, inlineDepth, span.2, d⟩ with
  | (.ok stop, d) => (.ok ⟨slice data span.1 stop, (span.1, stop), kind⟩, d)
  | (.error e, d) => (.error e, d)
  | (.hang, d) => (.hang, d)

/-- One turn of `readValue`: comments are passed over, and any other token is taken for a value. -/
def readValueTurn (data : Bytes) (d : Decoder) : Turn Decoder (Outcome RawValue × Decoder) :=
  afterCall d.readToken fun tok d =>
    match tok.kind with
    | .comment => .again d
    | .arrayStart => .done (readBrackets data tok 1 0 .array d)
    | .inlineTableStart => .done (readBrackets data tok 0 1 .inlineTable d)
    | kind =>
      let span := rawTokenSpan tok
      .done (.ok ⟨slice data span.1 span.2, span, documentKindFromToken kind⟩, d)

def readValue (data : Bytes) (d : Decoder) : Outcome RawValue × Decoder :=
  runLoop id (readValueTurn data) d

structure ParseState where
  dec : Decoder
  doc : Document
  /-- the path key of the last header, empty before the first -/
  currentPathKey : Bytes

/-- A document before its first statement. -/
def empty (raw : Bytes) : Document where
  raw := raw
  entries := []
  byPath := []
  replacements := []
  deletions := []
  insertions := []
  pending := []

/-- Note an entry; `byPath` keeps the last one of a path key. -/
def addEntry (doc : Document) (entry : DocumentEntry) : Document :=
  { doc with
    entries := doc.entries ++ [entry]
    byPath := mapPut doc.byPath entry.pathKey doc.entries.length }

/-- The entry of a key token, once its value is read. -/
def entryOf (raw : Bytes) (tok : RawToken) (pathKey : Bytes) (value : RawValue) : DocumentEntry where
  pathKey := pathKey
  value := none
  valueRaw := value.raw
  valueSpan := value.span
  lineSpan := lineSpan raw (rawTokenSpan tok).1 value.span.2
  kind := value.kind

/-- A header moves the current path. -/
def headerTurn (s : ParseState) (tok : RawToken) (array : Bool) (d : Decoder) :
    Turn ParseState (Outcome Document) :=
  match parseHeaderPathKey tok.bytes array with
  | .error e => .done (.error e)
  | .ok pathKey => .again { s with dec := d, currentPathKey := pathKey }

/-- A key reads its value and notes the entry. -/
def keyTurn (s : ParseState) (tok : RawToken) (d : Decoder) :
    Turn ParseState (Outcome Document) :=
  match parseDottedPathKey tok.bytes with
  | .error e => .done (.error e)
  | .ok keyPathKey =>
    match readValue s.doc.raw d with
    | (.error e, _) => .done (.error e)
    | (.hang, _) => .done .hang
    | (.ok value, d) =>
      let pathKey := joinPathKeys s.currentPathKey keyPathKey
      .again { s with dec := d, doc := s.doc.addEntry (entryOf s.doc.raw tok pathKey value) }

/-- **One turn of the loop of `ParseDocument`.** -/
def parseTurn (s : ParseState) : Turn ParseState (Outcome Document) :=
  match s.dec.readToken with
  | (.error .eof, _) => .done (.ok s.doc)
  | (.error e, _) => .done (.error e)
  | (.hang, _) => .done .hang
  | (.ok tok, d) =>
    match tok.kind with
    | .comment => .again { s with dec := d }
    | .tableHeader => headerTurn s tok false d
    | .arrayTableHeader => headerTurn s tok true d
    | .key => keyTurn s tok d
    | _ =>
      if s.currentPathKey = [] then
        .done (.error (syntaxErrorForRawToken s.doc.raw tok "unexpected token"))
      else .again { s with dec := d }

def parseStart (data : Bytes) : ParseState :=
  ⟨Decoder.newDecoderBytes data [.withoutTokenPositions], empty data, []⟩

/-- **`ParseDocument`.** -/
def parse (data : Bytes) : Outcome Document :=
  match Loop.loop (fun s => s.dec.rest.length) parseTurn (parseStart data) with
  | some r => r
  | none => .hang

/-! ### Reading -/

def entryForPathKey (d : Document) (pathKey : Bytes) : Option (Nat × DocumentEntry) :=
  match get? d.byPath pathKey with
  | none => none
  | some idx => (d.entries[idx]?).map (fun entry => (idx, entry))

/-- The value that a text stands for, as the value of a key. -/
def parseRawDocumentValue (raw : Bytes) : Outcome Val :=
  let dec := Decoder.newDecoderBytes (ascii "x = " ++ raw) [.withoutTokenPositions]
  match dec.readToken with
  | (.error e, _) => .error e
  | (.hang, _) => .hang
  | (.ok tok, dec) =>
    if tok.kind ≠ .key then
      .error (syntaxErrorAtOffset dec.buf tok.offset "expected key" (0, dec.buf.length))
    else (parseNextValue dec).1

/-- The value of an entry: the one noted, or the one its text stands for. -/
def entryValue (entry : DocumentEntry) : Option GoAny :=
  match entry.value with
  | some v => some v
  | none =>
    match parseRawDocumentValue entry.valueRaw with
    | .ok v => some (.val v)
    | _ => none

/-- **`Get`.** The source also notes a value it has parsed, which changes no later answer. -/
def get (d : Document) (path : Bytes) : Option GoAny :=
  match parseDocumentPath path with
  | .error _ => none
  | .ok parts =>
    match d.entryForPathKey (joinDocumentPath parts) with
    | none => get? d.pending (joinDocumentPath parts)
    | some (_, entry) => if d.deletions.contains entry.pathKey then none else entryValue entry

/-! ### Editing -/

inductive EditError where
  | path (e : Err)
  | format (msg : String)
  /-- `toml: insert anchor %q not found` -/
  | anchorNotFound (afterPath : Bytes)
  /-- `toml: insert anchor %q deleted` -/
  | anchorDeleted (afterPath : Bytes)
  /-- `toml: path %q not found` -/
  | pathNotFound (path : Bytes)
  deriving DecidableEq

/-- A string keeps the quotes of the string it replaces. -/
def formatValueForPath (lib : Strconv) (d : Document) (pathKey : Bytes) (value : GoAny) :
    Except String Bytes :=
  match d.entryForPathKey pathKey with
  | none => formatDocumentValue lib value
  | some (_, entry) =>
    if entry.kind = documentKindForGoValue value then
      match entry.kind, value with
      | .string, .val (.str s) => .ok (formatStringLike lib entry.valueRaw s)
      | _, _ => formatDocumentValue lib value
    else formatDocumentValue lib value

/-- Note a new text for the value of an entry. -/
def replaceEntry (d : Document) (idx : Nat) (pathKey : Bytes) (value : GoAny) (repl : Bytes) :
    Document :=
  { d with
    entries := d.entries.modify idx (fun entry => { entry with value := some value })
    replacements := mapPut d.replacements pathKey repl
    deletions := d.deletions.filter (· ≠ pathKey)
    pending := mapDelete d.pending pathKey }

/-- Note that the line of an entry goes. -/
def deleteEntry (d : Document) (pathKey : Bytes) : Document :=
  { d with
    deletions := pathKey :: d.deletions.filter (· ≠ pathKey)
    replacements := mapDelete d.replacements pathKey }

/-- Note a new line. -/
def addInsertion (d : Document) (ins : DocumentInsertion) : Document :=
  { d with
    pending := mapPut d.pending ins.pathKey ins.value
    insertions := d.insertions ++ [ins] }

/-- **`Set`.** -/
def set (lib : Strconv) (d : Document) (path : Bytes) (value : GoAny) : Except EditError Document :=
  match parseDocumentPath path with
  | .error e => .error (.path e)
  | .ok parts =>
    let pathKey := joinDocumentPath parts
    match d.formatValueForPath lib pathKey value with
    | .error msg => .error (.format msg)
    | .ok repl =>
      match d.entryForPathKey pathKey with
      | some (idx, _) => .ok (d.replaceEntry idx pathKey value repl)
      | none => .ok (d.addInsertion ⟨[], pathKey, parts, value⟩)

/-- **`InsertAfter`.** -/
def insertAfter (d : Document) (afterPath path : Bytes) (value : GoAny) :
    Except EditError Document :=
  match parseDocumentPath afterPath with
  | .error e => .error (.path e)
  | .ok afterParts =>
    let afterKey := joinDocumentPath afterParts
    if (get? d.byPath afterKey).isNone then .error (.anchorNotFound afterPath)
    else if d.deletions.contains afterKey then .error (.anchorDeleted afterPath)
    else
      match parseDocumentPath path with
      | .error e => .error (.path e)
      | .ok parts => .ok (d.addInsertion ⟨afterKey, joinDocumentPath parts, parts, value⟩)

/-- **`Delete`.** -/
def delete (d : Document) (path : Bytes) : Except EditError Document :=
  match parseDocumentPath path with
  | .error e => .error (.path e)
  | .ok parts =>
    let pathKey := joinDocumentPath parts
    if (get? d.byPath pathKey).isNone then
      if (get? d.pending pathKey).isSome then
        .ok { d with pending := mapDelete d.pending pathKey }
      else .error (.pathNotFound path)
    else .ok (d.deleteEntry pathKey)

/-! ### Writing -/

/-- The edit of an entry, if there is one: its line goes, or its value is replaced. -/
def entryOp (d : Document) (entry : DocumentEntry) : Option (Nat × Nat × Bytes) :=
  if d.deletions.contains entry.pathKey then some (entry.lineSpan.1, entry.lineSpan.2, [])
  else
    match get? d.replacements entry.pathKey with
    | some repl => some (entry.valueSpan.1, entry.valueSpan.2, repl)
    | none => none

/-- What is written before a line at the end of the document. -/
def lineBreakBefore (raw : Bytes) : Bytes :=
  if raw ≠ [] ∧ raw.getLast? ≠ some 0x0A then [0x0A] else []

/-- The edit of an insertion: none where its path is not pending, the value has no text or the anchor is
    not there. -/
def insertionOp (lib : Strconv) (d : Document) (ins : DocumentInsertion) :
    Option (Nat × Nat × Bytes) :=
  match get? d.pending ins.pathKey with
  | none => none
  | some value =>
    match formatDocumentKeyValue lib ins.path value with
    | .error _ => none
    | .ok text =>
      if ins.afterPath = [] then
        some (d.raw.length, d.raw.length, lineBreakBefore d.raw ++ text)
      else
        match d.entryForPathKey ins.afterPath with
        | none => none
        | some (_, entry) => some (entry.lineSpan.2, entry.lineSpan.2, text)

/-- The edits in the order they are noted, numbered from `order`. -/
def numbered (order : Nat) : List (Nat × Nat × Bytes) → List (Splice.Op UInt8)
  | [] => []
  | (start, stop, text) :: rest => ⟨start, stop, text, order⟩ :: numbered (order + 1) rest

def entryOps (d : Document) : List (Splice.Op UInt8) := numbered 0 (d.entries.filterMap d.entryOp)

def insertionOps (lib : Strconv) (d : Document) : List (Splice.Op UInt8) :=
  numbered d.entryOps.length (d.insertions.filterMap (d.insertionOp lib))

def ops (lib : Strconv) (d : Document) : List (Splice.Op UInt8) := d.entryOps ++ d.insertionOps lib

/-- By start, then by end, then in the order noted. -/
def opLE (a b : Splice.Op UInt8) : Prop :=
  if a.start = b.start then if a.stop = b.stop then a.order ≤ b.order else a.stop < b.stop
  else a.start < b.start

instance : DecidableRel opLE := fun a b => by
  unfold opLE
  infer_instance

/-- `sort.SliceStable`; no two edits have the same number, so any sort gives the same. -/
def sortOps (ops : List (Splice.Op UInt8)) : List (Splice.Op UInt8) := ops.insertionSort opLE

/-- **`Bytes`.** -/
def bytes (lib : Strconv) (d : Document) : Bytes :=
  if d.replacements.isEmpty && d.deletions.isEmpty && d.insertions.isEmpty then d.raw
  else Splice.splice d.raw 0 (sortOps (d.ops lib))

end Document

end Pandaemonium.Toml
