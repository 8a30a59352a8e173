import Pandaemonium.Toml.Skip

/-!
# `Toml.Document` — the statement loop (`value.go`, `unmarshal.go`)

`parseDocument` reads one statement a turn: a header moves `current`, a key reads its value and writes it
into `current`. Five maps remember what has been declared, and how. The checks and the writes of each
kind of statement are functions on `Doc`; `documentTurn` puts them behind the token reader.
-/

namespace Pandaemonium.Toml

open SortedMap (get?)

/-! ## Filters -/

/-- The fields a destination has; `all` is the nil filter, which lets everything through. -/
inductive DecodeFilter where
  | all
  | fields (children : List (Bytes × DecodeFilter))
  deriving Repr

/-- `strings.ToLower` is `lower`. -/
def DecodeFilter.lookupPath (lower : Bytes → Bytes) (f : DecodeFilter) (path : List Bytes) :
    Option DecodeFilter :=
  match path with
  | [] => some f
  | part :: path =>
    match f with
    | .all => some .all
    | .fields children =>
      match get? children part with
      | some next => next.lookupPath lower path
      | none =>
        match get? children (lower part) with
        | some next => next.lookupPath lower path
        | none => none

/-- A bare key is looked up as it is written, any other key segment by segment. -/
def DecodeFilter.lookup (lower : Bytes → Bytes) (f : DecodeFilter) (raw : Bytes) :
    Option DecodeFilter :=
  match f with
  | .all => some .all
  | .fields [] => none
  | .fields children =>
    if isSimpleBareKey raw then get? children raw
    else
      match parseDottedKey raw with
      | .error _ => some .all
      | .ok path => (DecodeFilter.fields children).lookupPath lower path

/-! ## Statements -/

/-- The variables of `parseDocument` apart from the decoder. -/
structure Doc where
  root : Table
  /-- where the next key goes; `none` below a header the filter drops -/
  current : Option Loc
  currentPath : List Bytes
  currentFilter : DecodeFilter
  inTable : Bool
  declaredTables : Contexts
  dottedKeyTables : Contexts
  arrayTables : List Bytes
  arrayTableEpochs : Epochs
  closedInlineTables : Contexts

namespace Doc

def empty (filter : DecodeFilter) : Doc where
  root := []
  current := some []
  currentPath := []
  currentFilter := filter
  inTable := false
  declaredTables := []
  dottedKeyTables := []
  arrayTables := []
  arrayTableEpochs := []
  closedInlineTables := []

/-- The redefinition checks of a `[path]` header. -/
def tableHeaderConflict (doc : Doc) (path : List Bytes) : Option String :=
  if doc.arrayTables.contains (encodedKeyPath path) then some "cannot redefine array table as table"
  else if recordedHere doc.dottedKeyTables path doc.arrayTableEpochs then
    some "cannot redefine dotted key table"
  else if closedInlinePrefix path doc.closedInlineTables doc.arrayTableEpochs then
    some "cannot extend inline table"
  else if recordedHere doc.declaredTables path doc.arrayTableEpochs then some "duplicate table"
  else none

/-- Below a header the filter drops. -/
def leave (doc : Doc) : Doc :=
  { doc with current := none, currentPath := [], currentFilter := .all, inTable := true }

/-- `current` is now the table at `loc`. -/
def enter (doc : Doc) (root : Table) (loc : Loc) (path : List Bytes) (filter : DecodeFilter) : Doc :=
  { doc with
    root := root, current := some loc, currentPath := path, currentFilter := filter, inTable := true }

/-- The statement `[path]`. -/
def tableHeader (lower : Bytes → Bytes) (filter : DecodeFilter) (doc : Doc) (path : List Bytes) :
    Except String Doc :=
  match doc.tableHeaderConflict path with
  | some msg => .error msg
  | none =>
    match filter.lookupPath lower path with
    | none => .ok doc.leave
    | some nextFilter =>
      match ensureTableRaw doc.root path with
      | .error msg => .error msg
      | .ok (root, loc) =>
        .ok
          { doc.enter root loc path nextFilter with
            declaredTables :=
              (encodedKeyPath path, declarationContext path doc.arrayTableEpochs) ::
                doc.declaredTables }

/-- The redefinition checks of a `[[path]]` header. -/
def arrayTableHeaderConflict (doc : Doc) (path : List Bytes) : Option String :=
  if (get? doc.declaredTables (encodedKeyPath path)).isSome then
    some "cannot redefine table as array table"
  else if recordedHere doc.dottedKeyTables path doc.arrayTableEpochs then
    some "cannot redefine dotted key table"
  else if closedInlinePrefix path doc.closedInlineTables doc.arrayTableEpochs then
    some "cannot extend inline table"
  else none

/-- One more element of the array of tables at `path`. -/
def bumpEpoch (doc : Doc) (path : List Bytes) : Doc :=
  let key := encodedKeyPath path
  { doc with
    arrayTables := key :: doc.arrayTables
    arrayTableEpochs := (key, (get? doc.arrayTableEpochs key).getD 0 + 1) :: doc.arrayTableEpochs }

/-- A new element; the source has its own writer for a path of one segment. -/
def appendArrayTable (root : Table) (path : List Bytes) : Except String (Table × Loc) :=
  match path with
  | [name] => appendArrayTableKeyRaw root name
  | _ => appendArrayTableRaw root path

/-- The statement `[[path]]`. -/
def arrayTableHeader (lower : Bytes → Bytes) (filter : DecodeFilter) (doc : Doc)
    (path : List Bytes) : Except String Doc :=
  match doc.arrayTableHeaderConflict path with
  | some msg => .error msg
  | none =>
    let doc := doc.bumpEpoch path
    match filter.lookupPath lower path with
    | none => .ok doc.leave
    | some nextFilter =>
      match appendArrayTable doc.root path with
      | .error msg => .error msg
      | .ok (root, loc) => .ok (doc.enter root loc path nextFilter)

/-- The checks of a dotted key, for each table it passes through. A key of one segment passes through
    none. -/
def dottedKeyConflict (doc : Doc) (key : List Bytes) : Option String :=
  let fullPath := doc.currentPath ++ key
  (List.range (fullPath.length - (doc.currentPath.length + 1))).findSome? fun j =>
    let before := fullPath.take (doc.currentPath.length + 1 + j)
    if (get? doc.declaredTables (encodedKeyPath before)).isSome then
      some "cannot extend explicit table with dotted key"
    else if recordedHere doc.closedInlineTables before doc.arrayTableEpochs then
      some "cannot extend inline table"
    else none

/-- Write the value of a key/value statement into the table at `loc`. -/
def assign (doc : Doc) (loc : Loc) (key : List Bytes) (value : Val) : Except String Doc :=
  match assignUniqueRaw ((Val.tbl doc.root).tableAt loc) key value with
  | .error msg => .error msg
  | .ok t =>
    let fullPath := doc.currentPath ++ key
    .ok
      { doc with
        root := ((Val.tbl doc.root).setAt loc (.tbl t)).tableAt []
        dottedKeyTables :=
          markDottedKeyTables doc.dottedKeyTables fullPath doc.currentPath.length
            doc.arrayTableEpochs
        closedInlineTables :=
          markClosedValuePaths doc.arrayTableEpochs doc.closedInlineTables fullPath value }

end Doc

/-! ## The loop -/

structure DocState where
  dec : Decoder
  doc : Doc

/-- Go round with the document a statement leaves, or fail at its token. -/
def endStatement (data : Bytes) (tok : RawToken) (d : Decoder) :
    Except String Doc → Turn DocState (Outcome Table)
  | .error msg => .done (.error (syntaxErrorForRawToken data tok msg))
  | .ok doc => .again ⟨d, doc⟩

/-- A header statement, once its path is decoded. -/
def headerStatement (data : Bytes) (tok : RawToken) (d : Decoder) (array : Bool)
    (statement : List Bytes → Except String Doc) : Turn DocState (Outcome Table) :=
  match keyPath (trimHeaderKey tok.bytes array) with
  | .error e => .done (.error e)
  | .ok path => endStatement data tok d (statement path)

/-- A key whose value is skipped. -/
def skipStatement (doc : Doc) (d : Decoder) : Turn DocState (Outcome Table) :=
  match skipNextValue d with
  | (.ok (), d) => .again ⟨d, doc⟩
  | (.error e, _) => .done (.error e)
  | (.hang, _) => .done .hang

/-- A key whose value goes into the table at `loc`. -/
def assignStatement (data : Bytes) (tok : RawToken) (doc : Doc) (d : Decoder) (loc : Loc) :
    Turn DocState (Outcome Table) :=
  match keyPath tok.bytes with
  | .error e => .done (.error e)
  | .ok key =>
    match doc.dottedKeyConflict key with
    | some msg => .done (.error (syntaxErrorForRawToken data tok msg))
    | none =>
      match parseNextValue d with
      | (.error e, _) => .done (.error e)
      | (.hang, _) => .done .hang
      | (.ok value, d) => endStatement data tok d (doc.assign loc key value)

/-- The statement that the key token `tok` starts. -/
def keyStatement (lower : Bytes → Bytes) (data : Bytes) (tok : RawToken) (doc : Doc) (d : Decoder) :
    Turn DocState (Outcome Table) :=
  match doc.current with
  | none => skipStatement doc d
  | some loc =>
    match doc.currentFilter.lookup lower tok.bytes with
    | none => skipStatement doc d
    | some _ => assignStatement data tok doc d loc

/-- **One turn of the statement loop.** -/
def documentTurn (lower : Bytes → Bytes) (data : Bytes) (filter : DecodeFilter) (s : DocState) :
    Turn DocState (Outcome Table) :=
  match s.dec.readToken with
  | (.error .eof, _) => .done (.ok s.doc.root)
  | (.error e, _) => .done (.error e)
  | (.hang, _) => .done .hang
  | (.ok tok, d) =>
    match tok.kind with
    | .comment => .again ⟨d, s.doc⟩
    | .tableHeader => headerStatement data tok d false (s.doc.tableHeader lower filter)
    | .arrayTableHeader => headerStatement data tok d true (s.doc.arrayTableHeader lower filter)
    | .key => keyStatement lower data tok s.doc d
    | _ =>
      if s.doc.inTable then .again ⟨d, s.doc⟩
      else .done (.error (syntaxErrorForRawToken data tok "unexpected token"))

def decoderOptionsWithoutTokenPositions (opts : List Decoder.DecoderOption) :
    List Decoder.DecoderOption := opts ++ [.withoutTokenPositions]

/-- **`parseDocument(data, opts, filter)`.** -/
def parseDocument (lower : Bytes → Bytes) (data : Bytes) (opts : List Decoder.DecoderOption)
    (filter : DecodeFilter) : Outcome Table :=
  let dec := Decoder.newDecoderBytes data (decoderOptionsWithoutTokenPositions opts)
  match Loop.loop (fun s => s.dec.rest.length) (documentTurn lower data filter)
      ⟨dec, Doc.empty filter⟩ with
  | some r => r
  | none => .hang

end Pandaemonium.Toml
