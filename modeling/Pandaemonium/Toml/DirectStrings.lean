import Pandaemonium.Toml.StringWalk

/-!
# `Toml.DirectStrings` — strings without a copy (`unmarshal_direct.go`)

The direct decoder does not copy a string that needs no decoding: it makes one immutable copy of the whole
buffer, the arena, and answers a piece of that. Where the piece stands is worked out from addresses: the
body of a string token is a slice of the token, which is a slice of the buffer. A slice is modelled by its
address and its bytes.

`answers_directStringValue` says that the answer is that of `parseStringValue`, error or string, for every token
cut out of the buffer, whatever `copyStrings` says. The arena is made at the first use and kept; that it is
then still the text of the buffer is what `ArenaDecoder.Sound` carries from call to call.
-/

namespace Pandaemonium.Toml

open List

/-! ## Slices -/

/-- A slice of bytes: the address of its first byte, and its bytes. -/
structure View where
  ptr : Nat
  bytes : Bytes
  deriving DecidableEq, Repr

namespace View

/-- `v[a:b]` -/
def slice (v : View) (a b : Nat) : View := ⟨v.ptr + a, (v.bytes.take b).drop a⟩

/-- A piece of `buf`, and it stands where that piece stands. -/
structure Within (v buf : View) : Prop where
  after : buf.ptr ≤ v.ptr
  before : v.ptr - buf.ptr + v.bytes.length ≤ buf.bytes.length
  bytes : v.bytes = (buf.bytes.drop (v.ptr - buf.ptr)).take v.bytes.length

/-- A slice of a piece is a piece. -/
theorem Within.slice {v buf : View} (h : v.Within buf) {a b : Nat} (hab : a ≤ b) (hb : b ≤ v.bytes.length) :
    (v.slice a b).Within buf := by
  have hafter := h.after
  have hbefore := h.before
  have hlen : (v.slice a b).bytes.length = b - a := by
    simp [View.slice]
    omega
  refine ⟨?_, ?_, ?_⟩
  · show buf.ptr ≤ v.ptr + a
    omega
  · rw [hlen]
    show v.ptr + a - buf.ptr + (b - a) ≤ _
    omega
  · rw [hlen]
    show (v.bytes.take b).drop a = (buf.bytes.drop (v.ptr + a - buf.ptr)).take (b - a)
    rw [h.bytes, take_take, Nat.min_eq_left hb, drop_take, drop_drop,
      show v.ptr + a - buf.ptr = v.ptr - buf.ptr + a by omega]

end View

/-! ## Bodies -/

def trimInitialMultilineStringNewlineView (raw : View) : View :=
  match raw.bytes with
  | 0x0D :: 0x0A :: _ => raw.slice 2 raw.bytes.length
  | 0x0A :: _ => raw.slice 1 raw.bytes.length
  | _ => raw

/-- `stringValueBody`, as a slice of the token. -/
def stringValueBodyView (raw : View) : Except Err (View × StringValueKind) :=
  let len := raw.bytes.length
  if hasTripleDelimiter raw.bytes 0x27 then
    .ok (trimInitialMultilineStringNewlineView (raw.slice 3 (len - 3)), .multilineLiteral)
  else if hasTripleDelimiter raw.bytes 0x22 then
    .ok (trimInitialMultilineStringNewlineView (raw.slice 3 (len - 3)), .multilineBasic)
  else if hasPairDelimiter raw.bytes 0x27 then .ok (raw.slice 1 (len - 1), .literal)
  else if hasPairDelimiter raw.bytes 0x22 then .ok (raw.slice 1 (len - 1), .basic)
  else .error (malformedStringError raw.bytes)

theorem trimInitialMultilineStringNewlineView_bytes (raw : View) :
    (trimInitialMultilineStringNewlineView raw).bytes = trimInitialMultilineStringNewline raw.bytes := by
  unfold trimInitialMultilineStringNewlineView
  split
  · rename_i t hraw
    simp [View.slice, hraw, trimInitialMultilineStringNewline]
  · rename_i t hraw
    simp [View.slice, hraw, trimInitialMultilineStringNewline]
  · rename_i hcrlf hlf
    exact (trimInitialMultilineStringNewline.eq_3 _ hcrlf hlf).symm

theorem trimInitialMultilineStringNewlineView_within {raw buf : View} (h : raw.Within buf) :
    (trimInitialMultilineStringNewlineView raw).Within buf := by
  unfold trimInitialMultilineStringNewlineView
  split
  · rename_i t hraw
    exact h.slice (by rw [hraw]; simp) (Nat.le_refl _)
  · rename_i t hraw
    exact h.slice (by rw [hraw]; simp) (Nat.le_refl _)
  · exact h

theorem length_of_triple {raw : Bytes} {q : UInt8} (h : hasTripleDelimiter raw q = true) : 6 ≤ raw.length := by
  simp only [hasTripleDelimiter, Bool.and_eq_true, decide_eq_true_eq] at h
  exact h.1.1

theorem length_of_pair {raw : Bytes} {q : UInt8} (h : hasPairDelimiter raw q = true) : 2 ≤ raw.length := by
  simp only [hasPairDelimiter, Bool.and_eq_true, decide_eq_true_eq] at h
  exact h.1.1

theorem slice_bytes (raw : View) (k : Nat) :
    (raw.slice k (raw.bytes.length - k)).bytes =
      (raw.bytes.drop k).take (raw.bytes.length - 2 * k) := by
  rw [View.slice, drop_take, show raw.bytes.length - k - k = raw.bytes.length - 2 * k by omega]

/-- A token and its body: the kind and the bytes of `stringValueBody`, cut out of the buffer. -/
structure BodyOf (buf raw body : View) (kind : StringValueKind) : Prop where
  text : stringValueBody raw.bytes = .ok (body.bytes, kind)
  within : body.Within buf

/-- **The body is a piece of the buffer**, with the bytes that `stringValueBody` answers. -/
theorem stringValueBodyView_spec {raw buf : View} (h : raw.Within buf) :
    (∃ e, stringValueBodyView raw = .error e ∧ stringValueBody raw.bytes = .error e) ∨
      ∃ body kind, stringValueBodyView raw = .ok (body, kind) ∧ BodyOf buf raw body kind := by
  unfold stringValueBodyView
  dsimp only
  split
  · rename_i hq
    have hlen := length_of_triple hq
    refine .inr ⟨_, _, rfl, ⟨?_, ?_⟩⟩
    · rw [stringValueBody, if_pos hq, trimInitialMultilineStringNewlineView_bytes, slice_bytes]
    · exact trimInitialMultilineStringNewlineView_within (h.slice (by omega) (by omega))
  · rename_i hl
    split
    · rename_i hq
      have hlen := length_of_triple hq
      refine .inr ⟨_, _, rfl, ⟨?_, ?_⟩⟩
      · rw [stringValueBody, if_neg hl, if_pos hq, trimInitialMultilineStringNewlineView_bytes, slice_bytes]
      · exact trimInitialMultilineStringNewlineView_within (h.slice (by omega) (by omega))
    · rename_i hb
      split
      · rename_i hq
        have hlen := length_of_pair hq
        refine .inr ⟨_, _, rfl, ⟨?_, h.slice (by omega) (by omega)⟩⟩
        rw [stringValueBody, if_neg hl, if_neg hb, if_pos hq, slice_bytes]
      · rename_i hs
        split
        · rename_i hq
          have hlen := length_of_pair hq
          refine .inr ⟨_, _, rfl, ⟨?_, h.slice (by omega) (by omega)⟩⟩
          rw [stringValueBody, if_neg hl, if_neg hb, if_neg hs, if_pos hq, slice_bytes]
        · rename_i hd
          exact .inl ⟨_, rfl, by rw [stringValueBody, if_neg hl, if_neg hb, if_neg hs, if_neg hd]⟩

/-! ## The arena -/

/-- What the direct decoder keeps for its strings: the buffer, and the arena once there is one. -/
structure ArenaDecoder where
  buf : View
  stringArena : Bytes
  deriving DecidableEq, Repr

namespace ArenaDecoder

def new (buf : View) : ArenaDecoder := ⟨buf, []⟩

/-- The arena is the text of the buffer, or there is none yet. -/
def Sound (d : ArenaDecoder) (buf : View) : Prop :=
  d.buf = buf ∧ (d.stringArena = [] ∨ d.stringArena = buf.bytes)

theorem sound_new (buf : View) : (new buf).Sound buf := ⟨rfl, .inl rfl⟩

/-- The string at `raw`, out of the arena. -/
def arenaString (d : ArenaDecoder) (raw : View) : Option Bytes × ArenaDecoder :=
  if raw.bytes.length = 0 then (some [], d)
  else if d.buf.bytes.length = 0 ∨ raw.bytes.length > d.buf.bytes.length then (none, d)
  else if raw.ptr < d.buf.ptr then (none, d)
  else
    let off := raw.ptr - d.buf.ptr
    if off > d.buf.bytes.length - raw.bytes.length then (none, d)
    else
      let arena := if d.stringArena = [] then d.buf.bytes else d.stringArena
      (some ((arena.take (off + raw.bytes.length)).drop off), { d with stringArena := arena })

/-- **A piece of the buffer is found in the arena**, as it stands in the buffer. -/
theorem arenaString_within {d : ArenaDecoder} {buf raw : View} (hd : d.Sound buf) (h : raw.Within buf) :
    ∃ d', d.arenaString raw = (some raw.bytes, d') ∧ d'.Sound buf := by
  obtain ⟨rfl, harena⟩ := hd
  have hafter := h.after
  have hbefore := h.before
  unfold arenaString
  by_cases hempty : raw.bytes.length = 0
  · rw [if_pos hempty, length_eq_zero_iff.mp hempty]
    exact ⟨d, rfl, rfl, harena⟩
  rw [if_neg hempty, if_neg (by omega), if_neg (by omega)]
  dsimp only
  rw [if_neg (by omega)]
  have htext : (if d.stringArena = [] then d.buf.bytes else d.stringArena) = d.buf.bytes := by
    split
    · rfl
    · exact harena.resolve_left ‹_›
  rw [htext, drop_take, Nat.add_sub_cancel_left, ← h.bytes]
  exact ⟨_, rfl, rfl, .inr rfl⟩

end ArenaDecoder

/-! ## Direct string values -/

open ArenaDecoder

/-- The string out of the arena, or else decoded. -/
def ArenaDecoder.stringAt (d : ArenaDecoder) (raw body : View) : Except Err Bytes × ArenaDecoder :=
  match d.arenaString body with
  | (some s, d) => (.ok s, d)
  | (none, d) => (parseStringValue raw.bytes, d)

def directLiteralStringValue (d : ArenaDecoder) (raw body : View) (multiline : Bool) :
    Except Err Bytes × ArenaDecoder :=
  match validateLiteralStringBody body.bytes multiline with
  | .error e => (.error e, d)
  | .ok () => d.stringAt raw body

def directBasicStringValue (d : ArenaDecoder) (raw body : View) (multiline : Bool) :
    Except Err Bytes × ArenaDecoder :=
  if body.bytes.contains 0x5C then (parseStringValue raw.bytes, d)
  else
    match validateBasicStringBody body.bytes multiline with
    | .error e => (.error e, d)
    | .ok () => d.stringAt raw body

/-- **A string value**; there is always a decoder here. -/
def directStringValue (d : ArenaDecoder) (raw : View) (copyStrings : Bool) :
    Except Err Bytes × ArenaDecoder :=
  if copyStrings then (parseStringValue raw.bytes, d)
  else
    match stringValueBodyView raw with
    | .error e => (.error e, d)
    | .ok (body, .literal) => directLiteralStringValue d raw body false
    | .ok (body, .multilineLiteral) => directLiteralStringValue d raw body true
    | .ok (body, .basic) => directBasicStringValue d raw body false
    | .ok (body, .multilineBasic) => directBasicStringValue d raw body true

/-- What a call answers and leaves behind: what `parseStringValue` answers, and a sound arena. -/
def Answers (buf raw : View) (r : Except Err Bytes × ArenaDecoder) : Prop :=
  r.1 = parseStringValue raw.bytes ∧ r.2.Sound buf

section

variable {d : ArenaDecoder} {buf raw body : View} {kind : StringValueKind} {multiline : Bool}

theorem answers_stringAt (hd : d.Sound buf) (hbody : body.Within buf)
    (hvalue : parseStringValue raw.bytes = .ok body.bytes) : Answers buf raw (d.stringAt raw body) := by
  obtain ⟨d', harena, hd'⟩ := arenaString_within hd hbody
  rw [stringAt, harena]
  exact ⟨hvalue.symm, hd'⟩

theorem answers_literal (hd : d.Sound buf) (hbody : body.Within buf) (hvalue : parseStringValue raw.bytes =
    (validateLiteralStringBody body.bytes multiline).map (fun _ => body.bytes)) :
    Answers buf raw (directLiteralStringValue d raw body multiline) := by
  unfold directLiteralStringValue
  cases hcheck : validateLiteralStringBody body.bytes multiline with
  | error e =>
    rw [hcheck] at hvalue
    exact ⟨hvalue.symm, hd⟩
  | ok u =>
    rw [hcheck] at hvalue
    exact answers_stringAt hd hbody hvalue

/-- A body without a backslash that passes the check is its own value. -/
theorem parseBasicStringBody_no_escape {s : Bytes} (hslash : 0x5C ∉ s)
    (h : validateBasicStringBody s multiline = .ok ()) : parseBasicStringBody s multiline = .ok s := by
  rw [validateBasicStringBody_eq, map_eq_ok] at h
  obtain ⟨out, hout, -⟩ := h
  rw [parseBasicStringBody_eq, scanBasicStringBody_no_escape multiline _ _ hslash] at hout ⊢
  split at hout
  · cases hout
  · rfl

theorem answers_basic (hd : d.Sound buf) (hbody : body.Within buf)
    (hvalue : parseStringValue raw.bytes = parseBasicStringBody body.bytes multiline) :
    Answers buf raw (directBasicStringValue d raw body multiline) := by
  unfold directBasicStringValue
  split
  · exact ⟨rfl, hd⟩
  rename_i hslash
  rw [contains_iff_mem] at hslash
  cases hcheck : validateBasicStringBody body.bytes multiline with
  | error e =>
    refine ⟨?_, hd⟩
    rw [validateBasicStringBody_eq] at hcheck
    rw [hvalue]
    cases hparse : parseBasicStringBody body.bytes multiline with
    | error e' => rw [hparse] at hcheck; cases hcheck; rfl
    | ok out => rw [hparse] at hcheck; cases hcheck
  | ok u =>
    rw [parseBasicStringBody_no_escape hslash hcheck] at hvalue
    exact answers_stringAt hd hbody hvalue

/-- **One call**: what it answers does not depend on the arena nor on `copyStrings`. -/
theorem answers_directStringValue (hd : d.Sound buf) (h : raw.Within buf) (copyStrings : Bool) :
    Answers buf raw (directStringValue d raw copyStrings) := by
  unfold directStringValue
  cases copyStrings with
  | true => exact ⟨rfl, hd⟩
  | false =>
    rw [if_neg Bool.false_ne_true]
    rcases stringValueBodyView_spec h with ⟨e, hview, hbody⟩ | ⟨body, kind, hview, hbody⟩
    · rw [hview]
      refine ⟨?_, hd⟩
      rw [parseStringValue, hbody]
    · rw [hview]
      have hvalue := hbody.text
      cases kind with
      | literal | multilineLiteral => exact answers_literal hd hbody.within (by rw [parseStringValue, hvalue])
      | basic | multilineBasic => exact answers_basic hd hbody.within (by rw [parseStringValue, hvalue])

end

/-! ## Runs of calls -/

/-- The answers of a decoder to one token after the other. -/
def directStringValues (d : ArenaDecoder) : List (View × Bool) → List (Except Err Bytes)
  | [] => []
  | (raw, copyStrings) :: calls =>
    let answered := directStringValue d raw copyStrings
    answered.1 :: directStringValues answered.2 calls

theorem directStringValues_eq {d : ArenaDecoder} {buf : View} (hd : d.Sound buf)
    {calls : List (View × Bool)} (h : ∀ call ∈ calls, call.1.Within buf) :
    directStringValues d calls = calls.map (fun call => parseStringValue call.1.bytes) := by
  induction calls generalizing d with
  | nil => rfl
  | cons call calls ih =>
    obtain ⟨hanswer, hd'⟩ := answers_directStringValue hd (h call mem_cons_self) call.2
    have hrest := ih hd' (fun c hc => h c (mem_cons_of_mem call hc))
    rw [directStringValues, map_cons, ← hanswer]
    exact congrArg _ hrest

/-- **Checking, decoding and the arena agree**: a string value is refused by the check exactly when it is
    refused by the decoder, and with the same error; and a direct decoder answers every token cut out of its
    buffer, however many came before, as `parseStringValue` does. -/
theorem string_paths_agree :
    (∀ raw e, validateStringValue raw = .error e ↔ parseStringValue raw = .error e) ∧
      ∀ (buf : View) (calls : List (View × Bool)), (∀ call ∈ calls, call.1.Within buf) →
        directStringValues (ArenaDecoder.new buf) calls =
          calls.map (fun call => parseStringValue call.1.bytes) := by
  refine ⟨?_, fun buf calls h => directStringValues_eq (sound_new buf) h⟩
  intro raw e
  rw [validateStringValue_eq]
  cases parseStringValue raw with
  | error e' | ok out => simp [Except.map]

/-- A basic string out of the arena, and a literal one that is copied. -/
theorem string_paths_agree_two :
    directStringValues (ArenaDecoder.new ⟨0x1000, ascii "a = \"x\"\nb = \'y\'\n"⟩)
        [(⟨0x1004, ascii "\"x\""⟩, false), (⟨0x100C, ascii "\'y\'"⟩, true)] =
      [.ok (ascii "x"), .ok (ascii "y")] :=
  string_paths_agree.2 _ _ (by
    simp only [forall_mem_cons]
    refine ⟨⟨by decide, by decide, rfl⟩, ⟨by decide, by decide, rfl⟩, nofun⟩)

end Pandaemonium.Toml
