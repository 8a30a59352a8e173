import Pandaemonium.Lib.Bytes

/-!
# `Toml.Token` — tokens, errors and limits (`token.go`, `errors.go`, `decoder.go`)
-/

namespace Pandaemonium.Toml

inductive TokenKind where
  | invalid | tableHeader | arrayTableHeader | key
  | valueString | valueInteger | valueFloat | valueBool | valueDatetime
  | arrayStart | arrayEnd | inlineTableStart | inlineTableEnd | comment
  deriving DecidableEq, Repr

/-- A token as `readToken` returns it: the raw bytes and where they start. -/
structure RawToken where
  kind : TokenKind
  bytes : Bytes
  offset : Nat
  deriving DecidableEq, Repr

/-- The scalar the classifier already computed for an integer or a float token. -/
inductive TokenScalar where
  | none
  | integer (i : Int)
  | float (bits : Nat)
  deriving DecidableEq, Repr

/-- A token as `ReadToken` returns it. -/
structure Token where
  kind : TokenKind
  bytes : Bytes
  offset : Nat
  line : Nat
  col : Nat
  scalar : TokenScalar
  deriving DecidableEq, Repr

def RawToken.publicToken (tok : RawToken) : Token where
  kind := tok.kind
  bytes := tok.bytes
  offset := tok.offset
  line := 0
  col := 0
  scalar := .none

structure SyntaxError where
  line : Nat
  col : Nat
  msg : String
  span : Nat × Nat
  deriving DecidableEq, Repr

/-- The four DoS caps a `LimitError` can name. -/
inductive LimitName where
  | maxNestedDepth | maxKeyLength | maxStringLength | maxDocumentSize
  deriving DecidableEq, Repr

structure LimitError where
  limit : LimitName
  value : Nat
  span : Nat × Nat
  deriving DecidableEq, Repr

/-- The bare `strconv` errors of the digit loop. -/
inductive NumErr where
  | errSyntax | errRange
  deriving DecidableEq, Repr

/-- The errors of the token reader and the document parser. -/
inductive Err where
  /-- `io.EOF`, the regular end of the token stream. -/
  | eof
  | syntaxErr (e : SyntaxError)
  | limitErr (e : LimitError)
  /-- `strconv.NumError` with `ErrRange`, for an escape past 2^31 - 1. -/
  | numRange (num : Bytes)
  | numErr (e : NumErr)
  /-- `strconv.NumError` of `ParseFloat`. -/
  | parseFloat (num : Bytes)
  /-- `toml: invalid datetime %q` -/
  | invalidDateTime (raw : Bytes)
  deriving DecidableEq, Repr

/-- The parser caps of a decoder. -/
structure Limits where
  maxNestedDepth : Nat
  maxKeyLength : Nat
  maxStringLength : Nat
  maxDocumentSize : Nat
  deriving DecidableEq, Repr

def defaultLimits : Limits where
  maxNestedDepth := 1024
  maxKeyLength := 64 * 1024
  maxStringLength := 2 ^ 24
  maxDocumentSize := 2 ^ 24

/-- The end of a token's span; an empty token still spans one byte. -/
def spanForToken (offset length : Nat) : Nat × Nat :=
  if offset + length ≤ offset then (offset, offset + 1) else (offset, offset + length)

def rawTokenSpan (tok : RawToken) : Nat × Nat := spanForToken tok.offset tok.bytes.length

end Pandaemonium.Toml
