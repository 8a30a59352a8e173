import Pandaemonium.Toml.Bare
import Pandaemonium.Toml.Keys

/-!
# `Toml.Lexer` — the scanners of the decoder (`decoder.go`)

The scanners of `*Decoder` look only at the bytes from some offset on, never back. Each is a function
of that text: `scanString`, `scanQuoted`, `scanCommentEnd`, `scanHeaderEnd`, `validateHeaderKey` and the
key scan of `scanKeyToken`. Offsets are counted from the start of the text the scanner is given. A
scanner fails in one of two ways, which the decoder treats differently: with an error it records in the
decoder, or by passing the error of a helper on as it is.
-/

namespace Pandaemonium.Toml

open List

/-- How a scanner fails. -/
inductive Fault where
  /-- `d.syntaxError(msg, off)`: the decoder remembers the error. -/
  | raised (msg : String) (off : Nat)
  /-- a helper's error, recorded with `d.setErr`. -/
  | recorded (e : Err)
  /-- a `LimitError` over `[start, stop)`, recorded. -/
  | limit (name : LimitName) (value start stop : Nat)
  /-- a helper's error passed on without being recorded. -/
  | returned (e : Err)
  deriving DecidableEq, Repr

/-- The same fault seen from `k` bytes earlier. -/
def Fault.shift (k : Nat) : Fault → Fault
  | .raised msg off => .raised msg (off + k)
  | .recorded e => .recorded e
  | .limit name value start stop => .limit name value (start + k) (stop + k)
  | .returned e => .returned e

/-- `validateStringValue` on a token text that ends at `stop`. -/
def acceptString (text : Bytes) (stop : Nat) : Except Fault Nat :=
  match validateStringValue (text.take stop) with
  | .error e => .error (.returned e)
  | .ok () => .ok stop

/-! ## Comments -/

/-- The end of the comment that starts `text`. -/
def scanCommentEnd (text : Bytes) : Except Fault Nat :=
  if text.length < 1 then .ok text.length
  else
    let stop := 1 + Scan.scanCommentBody (text.drop 1)
    match text.drop stop with
    | [] => .ok stop
    | 0x0A :: _ => .ok stop
    | 0x0D :: 0x0A :: _ => .ok stop
    | _ => .error (.raised "control character in comment" stop)

/-! ## Quoted keys -/

def hasNewlineBefore (raw : Bytes) (stop : Nat) : Bool :=
  (raw.take stop).any (fun c => c == 0x0A || c == 0x0D)

/-- The loop of `scanQuoted`: `s` is `text[i:]`. -/
def scanQuotedFrom (quote : UInt8) (text : Bytes) (i : Nat) (s : Bytes) : Except Fault Nat :=
  let idx := if quote = 0x27 then Scan.scanLiteralString s else Scan.scanBasicString s
  if hasNewlineBefore s idx then .error (.raised "unterminated quoted key" 0)
  else
    match _h : s.drop idx with
    | [] => .error (.raised "unterminated quoted key" 0)
    | c :: t =>
      if quote = 0x22 ∧ c = 0x5C then
        match t with
        | [] => .error (.raised "unterminated quoted key" 0)
        | _ :: t' => scanQuotedFrom quote text (i + idx + 2) t'
      else acceptString text (i + idx + 1) -- the kernel stops at nothing else but the quote
termination_by s.length
decreasing_by
  have hl := Bytes.length_of_drop _h
  rw [length_cons] at hl; omega

/-- The end of the quoted key segment that starts `text`. -/
def scanQuoted (quote : UInt8) (text : Bytes) : Except Fault Nat :=
  if text[1]? = some quote ∧ text[2]? = some quote then
    .error (.raised "multiline quoted keys are not supported" 0)
  else scanQuotedFrom quote text 1 (text.drop 1)

/-! ## String values -/

def countByteRun (raw : Bytes) (b : UInt8) : Nat := raw.findIdx (· ≠ b)

def hasBytePrefix (raw want : Bytes) : Bool := raw.take want.length == want

/-- The multiline basic loop of `scanString`: `s` is `text[i:]`. -/
def scanMultilineBasicFrom (text : Bytes) (i : Nat) (s : Bytes) : Except Fault Nat :=
  let n := Scan.scanBasicString s
  match _h : s.drop n with
  | [] => .error (.raised "unterminated multiline string" 0)
  | c :: t =>
    if c = 0x5C then
      match t with
      | [] => .error (.raised "unterminated string escape" (i + n))
      | _ :: t' => scanMultilineBasicFrom text (i + n + 2) t'
    else -- a run of quotes
      let run := countByteRun (c :: t) 0x22
      if 3 ≤ run then acceptString text (i + n + min run 5)
      else if 0 < run then scanMultilineBasicFrom text (i + n + run) ((c :: t).drop run)
      else scanMultilineBasicFrom text (i + n + 1) t
termination_by s.length
decreasing_by
  all_goals have hl := Bytes.length_of_drop _h
  · rw [length_cons] at hl; omega
  · rw [length_drop, length_cons]; omega
  · omega

/-- The multiline literal loop of `scanString`. -/
def scanMultilineLiteralFrom (text : Bytes) (i : Nat) (s : Bytes) : Except Fault Nat :=
  let n := Scan.scanLiteralString s
  match _h : s.drop n with
  | [] => .error (.raised "unterminated multiline string" 0)
  | c :: t =>
    let run := countByteRun (c :: t) 0x27
    if 3 ≤ run then acceptString text (i + n + min run 5)
    else if _hr : 0 < run then scanMultilineLiteralFrom text (i + n + run) ((c :: t).drop run)
    else .error (.raised "unterminated multiline string" 0) -- not reached: `c` is a quote
termination_by s.length
decreasing_by
  have hl := Bytes.length_of_drop _h
  rw [length_drop, length_cons]; omega

/-- The single-line basic loop of `scanString`. -/
def scanBasicFrom (text : Bytes) (i : Nat) (s : Bytes) : Except Fault Nat :=
  let n := Scan.scanBasicStringStrict s
  match _h : s.drop n with
  | [] => .error (.raised "unterminated string" 0)
  | c :: t =>
    if c = 0x0A ∨ c = 0x0D then .error (.raised "unterminated string" 0)
    else if c = 0x5C then
      match t with
      | [] => .error (.raised "unterminated string" 0)
      | _ :: t' => scanBasicFrom text (i + n + 2) t'
    else if c = 0x22 then acceptString text (i + n + 1)
    else .error (.returned (stringControlError c (i + n - 1)))
termination_by s.length
decreasing_by
  have hl := Bytes.length_of_drop _h
  rw [length_cons] at hl; omega

/-- The single-line literal branch of `scanString`. -/
def scanLiteral (text : Bytes) : Except Fault Nat :=
  let n := Scan.scanLiteralString (text.drop 1)
  if hasNewlineBefore (text.drop 1) n then .error (.raised "unterminated string" 0)
  else if 1 + n < text.length then acceptString text (1 + n + 1)
  else .error (.raised "unterminated string" 0)

/-- The end of the string token that starts `text`. -/
def scanString (text : Bytes) : Except Fault Nat :=
  if hasBytePrefix text [0x22, 0x22, 0x22] then scanMultilineBasicFrom text 3 (text.drop 3)
  else if hasBytePrefix text [0x27, 0x27, 0x27] then scanMultilineLiteralFrom text 3 (text.drop 3)
  else if text.head? = some 0x22 then scanBasicFrom text 1 (text.drop 1)
  else scanLiteral text

/-! ## Every scan that succeeds takes at least one byte -/

variable {n : Nat}

theorem scanCommentEnd_pos {c : UInt8} {t : Bytes} (h : scanCommentEnd (c :: t) = .ok n) : 0 < n := by
  unfold scanCommentEnd at h
  rw [if_neg (by simp)] at h
  dsimp only at h
  split at h
  · cases h; omega
  · cases h; omega
  · cases h; omega
  · cases h

variable {text : Bytes}

theorem acceptString_ok {stop : Nat} (h : acceptString text stop = .ok n) :
    n = stop ∧ validateStringValue (text.take stop) = .ok () := by
  unfold acceptString at h
  split at h
  · cases h
  · rename_i hv; cases h; exact ⟨rfl, hv⟩

theorem scanQuotedFrom_pos {quote : UInt8} {s : Bytes} {i : Nat} (h : scanQuotedFrom quote text i s = .ok n) :
    i < n := by
  fun_induction scanQuotedFrom quote text i s with
  | case1 | case2 | case3 => cases h
  | case4 i s idx hnl c t hc d t' hd ih => have := ih h; omega
  | case5 i s idx hnl c t hd hc => have := (acceptString_ok h).1; omega

theorem scanQuoted_pos {quote : UInt8} (h : scanQuoted quote text = .ok n) : 0 < n := by
  unfold scanQuoted at h
  split at h
  · cases h
  · have := scanQuotedFrom_pos h; omega

theorem scanMultilineBasicFrom_pos {s : Bytes} {i : Nat} (h : scanMultilineBasicFrom text i s = .ok n) :
    i < n := by
  fun_induction scanMultilineBasicFrom text i s with
  | case1 | case2 => cases h
  | case3 i s k c t hd hc ih | case5 i s k c t hd hc run hr hp ih | case6 i s k c t hd hc run hr hp ih =>
    have := ih h; omega
  | case4 i s k c t hd hc run hr => have := (acceptString_ok h).1; omega

theorem scanMultilineLiteralFrom_pos {s : Bytes} {i : Nat} (h : scanMultilineLiteralFrom text i s = .ok n) :
    i < n := by
  fun_induction scanMultilineLiteralFrom text i s with
  | case1 | case4 => cases h
  | case2 i s k c t hd run hr => have := (acceptString_ok h).1; omega
  | case3 i s k c t hd run hr hp ih => have := ih h; omega

theorem scanBasicFrom_pos {s : Bytes} {i : Nat} (h : scanBasicFrom text i s = .ok n) : i < n := by
  fun_induction scanBasicFrom text i s with
  | case1 | case2 | case3 | case6 => cases h
  | case4 i s k c t hd hc hnl ih => have := ih h; omega
  | case5 i s k t hd hc hnl => have := (acceptString_ok h).1; omega

theorem scanString_pos (h : scanString text = .ok n) : 0 < n := by
  unfold scanString at h
  split at h
  · have := scanMultilineBasicFrom_pos h; omega
  split at h
  · have := scanMultilineLiteralFrom_pos h; omega
  split at h
  · have := scanBasicFrom_pos h; omega
  unfold scanLiteral at h
  dsimp only at h
  split at h
  · cases h
  split at h
  · have := (acceptString_ok h).1; omega
  · cases h

/-! ## Keys and headers -/

/-- The scan of `scanKeyToken`: where the key text ends, counted from `i`; `s` is the text from
    there. -/
def scanKeyEnd (i : Nat) (s : Bytes) : Except Fault Nat :=
  match s with
  | [] => .ok i
  | ch :: t =>
    if ch = 0x3D ∨ ch = 0x23 ∨ ch = 0x0A ∨ ch = 0x0D then .ok i
    else if ch = 0x22 ∨ ch = 0x27 then
      match _h : scanQuoted ch (ch :: t) with
      | .error f => .error (f.shift i)
      | .ok j => scanKeyEnd (i + j) ((ch :: t).drop j)
    else scanKeyEnd (i + 1) t
termination_by s.length
decreasing_by
  · exact Bytes.length_drop_lt (scanQuoted_pos _h)
  · simp

/-- The position of the closing bracket of a header; `s` is the text from `i` on. -/
def scanHeaderEnd (array : Bool) (i : Nat) (s : Bytes) : Except Fault Nat :=
  let unterminated :=
    if array then "unterminated array-of-tables header" else "unterminated table header"
  match s with
  | [] => .error (.raised unterminated i)
  | ch :: t =>
    if ch = 0x0A ∨ ch = 0x0D then .error (.raised unterminated i)
    else if ch = 0x22 ∨ ch = 0x27 then
      match _h : scanQuoted ch (ch :: t) with
      | .error f => .error (f.shift i)
      | .ok j => scanHeaderEnd array (i + j) ((ch :: t).drop j)
    else if ch = 0x5D ∧ (array = false ∨ t.head? = some 0x5D) then .ok i
    else scanHeaderEnd array (i + 1) t
termination_by s.length
decreasing_by
  · exact Bytes.length_drop_lt (scanQuoted_pos _h)
  · simp

/-- The segment check of a header whose key text ends at `stop`; `s` is the text from `i` on. -/
def validateHeaderKey (stop i : Nat) (needSegment : Bool) (s : Bytes) : Except Fault Unit :=
  let n := Scan.skipWhitespace (s.take (stop - i))
  if stop ≤ i + n then
    if needSegment then .error (.raised "empty table key" stop) else .ok ()
  else
    match _h : s.drop n with
    | [] => .error (.raised "empty table key" stop) -- not reached: `stop` lies inside the text
    | c :: t =>
      if needSegment = false then
        if c ≠ 0x2E then .error (.raised "unexpected token in table key" (i + n))
        else validateHeaderKey stop (i + n + 1) true t
      else if c = 0x22 ∨ c = 0x27 then
        match _hq : scanQuoted c (c :: t) with
        | .error f => .error (f.shift (i + n))
        | .ok j =>
          if i + n + j > stop then .error (.raised "unterminated quoted table key" (i + n))
          else validateHeaderKey stop (i + n + j) false ((c :: t).drop j)
      else
        let k := Scan.scanBareKey ((c :: t).take (stop - (i + n)))
        if k = 0 then .error (.raised "unexpected token in table key" (i + n))
        else validateHeaderKey stop (i + n + k) false ((c :: t).drop k)
termination_by s.length
decreasing_by
  all_goals have hl := Bytes.length_of_drop _h
  · omega
  · have := scanQuoted_pos _hq
    simp only [length_drop, length_cons]; omega
  · have hn : n = Scan.skipWhitespace (s.take (stop - i)) := rfl
    simp only [← hn, length_drop, length_cons]; omega

end Pandaemonium.Toml
