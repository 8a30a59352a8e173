import Pandaemonium.Toml.Strings

/-!
# `Toml.Keys` — bare, quoted and dotted keys (`value.go`)

A key path is a list of decoded segments. `parseDottedKey` splits a key text at its dots; a segment is
either a bare run or a quoted string.
-/

namespace Pandaemonium.Toml

/-! ## Trimming -/

/-- Space, tab, LF or CR. -/
def isTrimSpace (b : UInt8) : Bool := b == 0x20 || b == 0x09 || b == 0x0A || b == 0x0D

/-- `raw` without the bytes of a class at its end. -/
def trimRight (p : UInt8 → Bool) (raw : Bytes) : Bytes := (raw.reverse.dropWhile p).reverse

def bytesTrimSpace (raw : Bytes) : Bytes := trimRight isTrimSpace (raw.dropWhile isTrimSpace)

def bytesTrimRightSpaces (raw : Bytes) : Bytes := trimRight Scan.isSpaceTab raw

/-- `bytes.TrimLeft(raw, " \t")` -/
def trimLeftBlank (raw : Bytes) : Bytes := raw.dropWhile Scan.isSpaceTab

def trimHeaderKey (raw : Bytes) (array : Bool) : Bytes :=
  let raw := bytesTrimSpace raw
  if array then
    if 4 ≤ raw.length then bytesTrimSpace ((raw.drop 2).take (raw.length - 4)) else []
  else
    if 2 ≤ raw.length then bytesTrimSpace ((raw.drop 1).take (raw.length - 2)) else []

/-! ## Key paths -/

def isSimpleBareKey (raw : Bytes) : Bool := !raw.isEmpty && raw.all Scan.bareKeyClass

/-- Where the closing quote `q` of a segment stands, counted from `n`; past the text when there is
    none. A backslash in a basic segment takes the next byte with it. -/
def quotedSegmentEnd (q : UInt8) (n : Nat) : Bytes → Nat
  | [] => n
  | [c] => if c = 0x5C ∧ q = 0x22 then n + 2 else if c = q then n else n + 1
  | c :: d :: t =>
    if c = 0x5C ∧ q = 0x22 then quotedSegmentEnd q (n + 2) t
    else if c = q then n
    else quotedSegmentEnd q (n + 1) (d :: t)

def dottedKeyError (origLen : Nat) (msg : String) : Err :=
  .syntaxErr { line := 1, col := 1, msg := msg, span := (0, origLen) }

/-- `.`, space or tab. -/
def isSegmentStop (b : UInt8) : Bool := b == 0x2E || b == 0x20 || b == 0x09

/-- One segment at the head of `raw` and the text after it. -/
def dottedKeySegment (origLen : Nat) (raw : Bytes) : Except Err (Bytes × Bytes) :=
  match raw with
  | [] => .error (dottedKeyError origLen "empty key segment")
  | q :: t =>
    if q = 0x27 ∨ q = 0x22 then
      let close := quotedSegmentEnd q 1 t
      if raw.length ≤ close then .error (dottedKeyError origLen "unterminated quoted key")
      else (parseStringValue (raw.take (close + 1))).map (fun v => (v, raw.drop (close + 1)))
    else
      let stop := raw.findIdx isSegmentStop
      if raw.take stop = [] then .error (dottedKeyError origLen "empty key segment")
      else if !isSimpleBareKey (raw.take stop) then
        .error (dottedKeyError origLen "unexpected token in dotted key")
      else .ok (raw.take stop, raw.drop stop)

variable {origLen : Nat} {raw : Bytes}

theorem dottedKeySegment_length_le {part rest : Bytes}
    (h : dottedKeySegment origLen raw = .ok (part, rest)) : rest.length ≤ raw.length := by
  unfold dottedKeySegment at h
  split at h
  · cases h
  rename_i q t
  split at h
  · dsimp only at h
    split at h
    · cases h
    cases hp : parseStringValue ((q :: t).take (quotedSegmentEnd q 1 t + 1)) with
    | error e => rw [hp] at h; cases h
    | ok v => rw [hp] at h; cases h; simp only [List.length_drop]; omega
  · dsimp only at h
    split at h
    · cases h
    split at h
    · cases h
    · cases h; simp only [List.length_drop]; omega

theorem trimLeftBlank_length_le (raw : Bytes) : (trimLeftBlank raw).length ≤ raw.length :=
  (List.dropWhile_suffix _).length_le

/-- What follows a segment and its dot is shorter. -/
theorem dottedKeySegment_rest_lt {rest rest' part t : Bytes} {c dot : UInt8}
    (h0 : trimLeftBlank raw = c :: t) (h1 : dottedKeySegment origLen (c :: t) = .ok (part, rest))
    (h2 : trimLeftBlank rest = dot :: rest') : rest'.length < raw.length := by
  have hraw := trimLeftBlank_length_le raw
  have hseg := dottedKeySegment_length_le h1
  have hrest := trimLeftBlank_length_le rest
  rw [h0] at hraw
  rw [h2, List.length_cons] at hrest
  omega

/-- The segments of `raw` after those in `parts`. -/
def parseDottedKeyFrom (origLen : Nat) (parts : List Bytes) (raw : Bytes) :
    Except Err (List Bytes) :=
  match _h0 : trimLeftBlank raw with
  | [] =>
    if parts = [] then .error (dottedKeyError origLen "empty key") else .ok parts
  | c :: t =>
    match _h1 : dottedKeySegment origLen (c :: t) with
    | .error e => .error e
    | .ok (part, rest) =>
      match _h2 : trimLeftBlank rest with
      | [] => .ok (parts ++ [part])
      | dot :: rest' =>
        if dot ≠ 0x2E then .error (dottedKeyError origLen "unexpected token in dotted key")
        else if trimLeftBlank rest' = [] then
          .error (dottedKeyError origLen "empty key segment")
        else parseDottedKeyFrom origLen (parts ++ [part]) rest'
termination_by raw.length
decreasing_by exact dottedKeySegment_rest_lt _h0 _h1 _h2

def parseDottedKey (raw : Bytes) : Except Err (List Bytes) :=
  parseDottedKeyFrom raw.length [] (bytesTrimSpace raw)

def keyPath (raw : Bytes) : Except Err (List Bytes) :=
  if isSimpleBareKey raw then .ok [raw] else parseDottedKey raw

theorem parseDottedKeyFrom_ne_nil {parts path : List Bytes}
    (h : parseDottedKeyFrom origLen parts raw = .ok path) : path ≠ [] := by
  fun_induction parseDottedKeyFrom origLen parts raw with
  | case1 | case3 | case5 | case6 => cases h
  | case2 parts raw _ hne => cases h; exact hne
  | case4 => cases h; simp
  | case7 _ _ _ _ _ _ _ _ _ _ _ _ _ ih => exact ih h

/-- A key has at least one segment. -/
theorem keyPath_ne_nil {path : List Bytes} (h : keyPath raw = .ok path) : path ≠ [] := by
  unfold keyPath at h
  split at h
  · cases h; simp
  · exact parseDottedKeyFrom_ne_nil h

end Pandaemonium.Toml
