import Pandaemonium.Lib.SortedMap
import Pandaemonium.Toml.Decoder

/-!
# `Toml.Value` — document values and the bookkeeping of table paths (`value.go`)

A `documentMap` is a Go map; here it is the key-sorted list of its entries (`Lib.SortedMap`), so that
equal maps are equal lists. The redefinition checks of the parser are keyed by `encodedKeyPath`, one
string for a whole path, and compare `declarationContext`s, one string for the array-of-tables element a
path lies in.
-/

namespace Pandaemonium.Toml

open SortedMap (get?)

/-- A value of the document tree. -/
inductive Val where
  | str (s : Bytes)
  | int (i : Int)
  | float (bits : Nat)
  | bool (b : Bool)
  | dateTime (t : DateTimeValue)
  | arr (xs : List Val)
  | tbl (es : List (Bytes × Val))
  deriving Repr

/-- `documentMap` -/
abbrev Table := List (Bytes × Val)

/-- Inline tables and arrays, the values that a path could lead into. -/
def Val.isContainer : Val → Bool
  | .tbl _ | .arr _ => true
  | _ => false

mutual

/-- Decidable equality of values, by structural recursion. -/
def Val.decEq : (a b : Val) → Decidable (a = b)
  | .str s, .str t => decidable_of_iff (s = t) (by simp)
  | .int i, .int j => decidable_of_iff (i = j) (by simp)
  | .float i, .float j => decidable_of_iff (i = j) (by simp)
  | .bool i, .bool j => decidable_of_iff (i = j) (by simp)
  | .dateTime i, .dateTime j => decidable_of_iff (i = j) (by simp)
  | .arr xs, .arr ys =>
    match decEqList xs ys with
    | .isTrue h => .isTrue (by rw [h])
    | .isFalse h => .isFalse (by intro he; injection he; contradiction)
  | .tbl xs, .tbl ys =>
    match decEqTable xs ys with
    | .isTrue h => .isTrue (by rw [h])
    | .isFalse h => .isFalse (by intro he; injection he; contradiction)
  | .str _, .int _ | .str _, .float _ | .str _, .bool _ | .str _, .dateTime _ | .str _, .arr _
  | .str _, .tbl _ | .int _, .str _ | .int _, .float _ | .int _, .bool _ | .int _, .dateTime _
  | .int _, .arr _ | .int _, .tbl _ | .float _, .str _ | .float _, .int _ | .float _, .bool _
  | .float _, .dateTime _ | .float _, .arr _ | .float _, .tbl _ | .bool _, .str _ | .bool _, .int _
  | .bool _, .float _ | .bool _, .dateTime _ | .bool _, .arr _ | .bool _, .tbl _
  | .dateTime _, .str _ | .dateTime _, .int _ | .dateTime _, .float _ | .dateTime _, .bool _
  | .dateTime _, .arr _ | .dateTime _, .tbl _ | .arr _, .str _ | .arr _, .int _ | .arr _, .float _
  | .arr _, .bool _ | .arr _, .dateTime _ | .arr _, .tbl _ | .tbl _, .str _ | .tbl _, .int _
  | .tbl _, .float _ | .tbl _, .bool _ | .tbl _, .dateTime _ | .tbl _, .arr _ =>
    .isFalse (by intro he; injection he)

def decEqList : (a b : List Val) → Decidable (a = b)
  | [], [] => .isTrue rfl
  | [], _ :: _ => .isFalse (by simp)
  | _ :: _, [] => .isFalse (by simp)
  | x :: xs, y :: ys =>
    match Val.decEq x y, decEqList xs ys with
    | .isTrue hx, .isTrue hxs => .isTrue (by rw [hx, hxs])
    | .isFalse hx, _ => .isFalse (by intro he; injection he; contradiction)
    | _, .isFalse hxs => .isFalse (by intro he; injection he; contradiction)

def decEqTable : (a b : List (Bytes × Val)) → Decidable (a = b)
  | [], [] => .isTrue rfl
  | [], _ :: _ => .isFalse (by simp)
  | _ :: _, [] => .isFalse (by simp)
  | (k, x) :: xs, (l, y) :: ys =>
    if hk : k = l then
      match Val.decEq x y, decEqTable xs ys with
      | .isTrue hx, .isTrue hxs => .isTrue (by rw [hk, hx, hxs])
      | .isFalse hx, _ => .isFalse (by intro he; injection he with he; injection he; contradiction)
      | _, .isFalse hxs => .isFalse (by intro he; injection he; contradiction)
    else .isFalse (by intro he; injection he with he; injection he; contradiction)

end

instance : DecidableEq Val := Val.decEq

/-! ## Path strings -/

/-- The segments joined by NUL bytes. -/
def encodedKeyPath : List Bytes → Bytes
  | [] => []
  | [p] => p
  | p :: q :: ps => p ++ 0x00 :: encodedKeyPath (q :: ps)

/-- How many elements each array of tables has so far, by encoded path. -/
abbrev Epochs := List (Bytes × Nat)

/-- A map from encoded paths to the context they were recorded in. -/
abbrev Contexts := List (Bytes × Bytes)

/-- The context of the longest array-of-tables prefix of `path` with at most `i` segments. -/
def declarationContextUpTo (epochs : Epochs) (path : List Bytes) : Nat → Bytes
  | 0 => []
  | i + 1 =>
    let before := encodedKeyPath (path.take (i + 1))
    let epoch := (get? epochs before).getD 0
    if epoch > 0 then before ++ 0x23 :: Decimal.render epoch
    else declarationContextUpTo epochs path i

def declarationContext (path : List Bytes) (epochs : Epochs) : Bytes :=
  declarationContextUpTo epochs path path.length

/-- Whether `path` is recorded in `m` under the context it has now. -/
def recordedHere (m : Contexts) (path : List Bytes) (epochs : Epochs) : Bool :=
  get? m (encodedKeyPath path) == some (declarationContext path epochs)

def closedInlinePrefix (path : List Bytes) (closed : Contexts) (epochs : Epochs) : Bool :=
  (List.range path.length).any (fun i => recordedHere closed (path.take (i + 1)) epochs)

mutual

/-- Record the path of a container value and of every container below it. -/
def markClosedValuePaths (epochs : Epochs) (closed : Contexts) (path : List Bytes) : Val → Contexts
  | .tbl es =>
    markClosedEntries epochs
      ((encodedKeyPath path, declarationContext path epochs) :: closed) path es
  | .arr xs =>
    markClosedElements epochs
      ((encodedKeyPath path, declarationContext path epochs) :: closed) path xs
  | _ => closed

def markClosedEntries (epochs : Epochs) (closed : Contexts) (path : List Bytes) :
    List (Bytes × Val) → Contexts
  | [] => closed
  | (key, child) :: es =>
    markClosedEntries epochs (markClosedValuePaths epochs closed (path ++ [key]) child) path es

/-- Only the elements that are tables matter; the index is no part of the path. -/
def markClosedElements (epochs : Epochs) (closed : Contexts) (path : List Bytes) :
    List Val → Contexts
  | [] => closed
  | .tbl es :: xs => markClosedElements epochs (markClosedEntries epochs closed path es) path xs
  | _ :: xs => markClosedElements epochs closed path xs

end

/-- Record the tables a dotted key passes through, the prefixes of `fullPath` longer than
    `currentPathLen`. -/
def markDottedKeyTables (dotted : Contexts) (fullPath : List Bytes) (currentPathLen : Nat)
    (epochs : Epochs) : Contexts :=
  (List.range (fullPath.length - (currentPathLen + 1))).foldl
    (fun dotted j =>
      let before := fullPath.take (currentPathLen + 1 + j)
      (encodedKeyPath before, declarationContext before epochs) :: dotted)
    dotted

/-! ## Places in a tree

The parser keeps `current`, a reference to the table the next key goes to. A reference into a tree is
the way from the root to the place, a `Loc`. -/

/-- One step down: to the value of a key, or to an element of an array. -/
inductive Step where
  | key (k : Bytes)
  | elem (i : Nat)
  deriving DecidableEq, Repr

abbrev Loc := List Step

/-- The part of `v` one step down. -/
def Val.child? : Val → Step → Option Val
  | .tbl es, .key k => get? es k
  | .arr xs, .elem i => xs[i]?
  | _, _ => none

/-- The part of `v` at `loc`. -/
def Val.at? (v : Val) : Loc → Option Val
  | [] => some v
  | s :: loc => (v.child? s).bind (fun w => w.at? loc)

/-- Replace the part one step down. -/
def Val.setChild : Val → Step → Val → Val
  | .tbl es, .key k, w => .tbl (SortedMap.insert es k w)
  | .arr xs, .elem i, w => .arr (xs.set i w)
  | v, _, _ => v

/-- Replace the part at `loc`, which must exist. -/
def Val.setAt (v : Val) (loc : Loc) (w : Val) : Val :=
  match loc with
  | [] => w
  | s :: loc =>
    match v.child? s with
    | some u => v.setChild s (u.setAt loc w)
    | none => v

/-- The table at `loc`. -/
def Val.tableAt (v : Val) (loc : Loc) : Table :=
  match v.at? loc with
  | some (.tbl es) => es
  | _ => [] -- not reached: `loc` always denotes a table

/-! ## Writing into tables

Each of the four writers answers the changed table, or the message of the error the source raises at
the statement's token. -/

/-- `assignUniqueRaw`: put `value` at `path`, creating the tables on the way. -/
def assignUniqueRaw (cur : Table) (path : List Bytes) (value : Val) : Except String Table :=
  match path with
  | [] => .ok cur -- not reached: a key path has at least one segment
  | [key] =>
    if (get? cur key).isSome then .error "duplicate key"
    else .ok (SortedMap.insert cur key value)
  | p :: q :: ps =>
    match get? cur p with
    | some (.tbl next) =>
      (assignUniqueRaw next (q :: ps) value).map (fun t => SortedMap.insert cur p (.tbl t))
    | some _ => .error "cannot redefine value as table"
    | none => (assignUniqueRaw [] (q :: ps) value).map (fun t => SortedMap.insert cur p (.tbl t))

/-- `ensureTableRaw`: the table at `path`, through the last element of an array on the way, created
    where it is missing. -/
def ensureTableRaw (cur : Table) (path : List Bytes) : Except String (Table × Loc) :=
  match path with
  | [] => .ok (cur, [])
  | p :: ps =>
    match get? cur p with
    | some (.tbl next) =>
      (ensureTableRaw next ps).map
        (fun r => (SortedMap.insert cur p (.tbl r.1), .key p :: r.2))
    | some (.arr xs) =>
      match xs.getLast? with
      | some (.tbl next) =>
        (ensureTableRaw next ps).map
          (fun r => (SortedMap.insert cur p (.arr (xs.dropLast ++ [.tbl r.1])),
            .key p :: .elem (xs.length - 1) :: r.2))
      | _ => .error "cannot redefine value as table"
    | some _ => .error "cannot redefine value as table"
    | none =>
      (ensureTableRaw [] ps).map
        (fun r => (SortedMap.insert cur p (.tbl r.1), .key p :: r.2))

/-- `appendArrayTableKeyRaw`: a new empty table at the end of the array at `name`. -/
def appendArrayTableKeyRaw (parent : Table) (name : Bytes) : Except String (Table × Loc) :=
  match get? parent name with
  | some (.arr xs) =>
    .ok (SortedMap.insert parent name (.arr (xs ++ [.tbl []])), [.key name, .elem xs.length])
  | some _ => .error "cannot redefine value as array table"
  | none => .ok (SortedMap.insert parent name (.arr [.tbl []]), [.key name, .elem 0])

/-- `appendArrayTableRaw`: the same below the table at all but the last segment of `path`. -/
def appendArrayTableRaw (root : Table) (path : List Bytes) : Except String (Table × Loc) :=
  match path.getLast? with
  | none => .ok (root, [])
  | some name =>
    match ensureTableRaw root path.dropLast with
    | .error msg => .error msg
    | .ok (root, loc) =>
      match appendArrayTableKeyRaw ((Val.tbl root).tableAt loc) name with
      | .error msg => .error msg
      | .ok (parent, last) =>
        .ok (((Val.tbl root).setAt loc (.tbl parent)).tableAt [], loc ++ last)

/-! ## Errors at a token -/

def syntaxErrorAtOffset (data : Bytes) (off : Nat) (msg : String) (span : Nat × Nat) : Err :=
  let lc := if data.length = 0 ∧ off > 0 then (1, off + 1) else Decoder.lineColForOffset data off
  .syntaxErr { line := lc.1, col := lc.2, msg := msg, span := span }

def syntaxErrorForRawToken (data : Bytes) (tok : RawToken) (msg : String) : Err :=
  syntaxErrorAtOffset data tok.offset msg (rawTokenSpan tok)

end Pandaemonium.Toml
