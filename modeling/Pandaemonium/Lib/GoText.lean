import Pandaemonium.Lib.Decimal
import Pandaemonium.Lib.Utf8

/-!
# `Lib.GoText` — functions of `strings` and `strconv` on byte strings

`fields` splits a text around runs of white space, rune by rune, so that bytes that are no UTF-8 are part of
a field; `cut` splits it at the first separator byte; `parseInt` reads a decimal `int64`, with the two ways
it can fail; `trimSpace` takes white space off both ends of a text, and nothing else (`trimSpace_split`).
-/

namespace Pandaemonium.GoText

open List

/-- `unicode.IsSpace`. -/
def isSpace (r : Nat) : Bool :=
  (0x09 ≤ r && r ≤ 0x0D) || r == 0x20 || r == 0x85 || r == 0xA0 || r == 0x1680 ||
    (0x2000 ≤ r && r ≤ 0x200A) || r == 0x2028 || r == 0x2029 || r == 0x202F || r == 0x205F || r == 0x3000

/-- The field under way, where there is one. -/
def flush (field : Bytes) : List Bytes := if field = [] then [] else [field]

/-- `strings.Fields`, with `field` the field under way. -/
def fieldsFrom (field s : Bytes) : List Bytes :=
  match s with
  | [] => flush field
  | b :: t =>
    match isSpace (Utf8.decodeRune (b :: t)).1 with
    | true => flush field ++ fieldsFrom [] ((b :: t).drop (Utf8.decodeRune (b :: t)).2)
    | false =>
      fieldsFrom (field ++ (b :: t).take (Utf8.decodeRune (b :: t)).2)
        ((b :: t).drop (Utf8.decodeRune (b :: t)).2)
termination_by s.length
decreasing_by all_goals exact Bytes.length_drop_lt Utf8.decodeRune_width_pos

def fields (s : Bytes) : List Bytes := fieldsFrom [] s

theorem fields_nil : fields [] = [] := by
  rw [fields, fieldsFrom.eq_def]
  rfl

/-- `strings.Cut` at a byte: what stands before it and what follows, and whether there is one. -/
def cut (sep : UInt8) (s : Bytes) : Bytes × Bytes × Bool :=
  if sep ∈ s then (s.takeWhile (· != sep), (s.dropWhile (· != sep)).tail, true) else (s, [], false)

theorem cut_append {sep : UInt8} {field : Bytes} (h : sep ∉ field) (rest : Bytes) :
    cut sep (field ++ sep :: rest) = (field, rest, true) := by
  have hall : ∀ b ∈ field, (b != sep) = true := by
    intro b hb
    rw [bne_iff_ne]
    exact fun heq => h (heq ▸ hb)
  rw [cut, if_pos (by simp), takeWhile_append_of_pos hall, dropWhile_append_of_pos hall]
  simp

theorem cut_true {sep : UInt8} {s field rest : Bytes} (h : cut sep s = (field, rest, true)) :
    s = field ++ sep :: rest ∧ sep ∉ field := by
  by_cases hmem : sep ∈ s
  · obtain ⟨front, back, rfl, hfront⟩ := eq_append_cons_of_mem hmem
    cases (cut_append hfront back).symm.trans h
    exact ⟨rfl, hfront⟩
  · rw [cut, if_neg hmem] at h
    cases h

theorem cut_false {sep : UInt8} {s field rest : Bytes} (h : cut sep s = (field, rest, false)) :
    field = s ∧ rest = [] ∧ sep ∉ s := by
  unfold cut at h
  split at h
  · cases h
  rename_i hmem
  cases h
  exact ⟨rfl, rfl, hmem⟩

inductive NumError where
  | errSyntax
  | errRange
  deriving DecidableEq, Repr

/-- `strconv.ParseUint` in base ten and 64 bits, with `n` read so far. -/
def parseUintFrom (n : Nat) : Bytes → Except NumError Nat
  | [] => .ok n
  | c :: t =>
    if Decimal.isDigit c = false then .error .errSyntax
    else if 2 ^ 64 ≤ n * 10 + (c.toNat - 0x30) then .error .errRange
    else parseUintFrom (n * 10 + (c.toNat - 0x30)) t

def parseUint (s : Bytes) : Except NumError Nat := if s = [] then .error .errSyntax else parseUintFrom 0 s

/-- `strconv.ParseInt` in base ten and 64 bits, which is `strconv.Atoi` too. -/
def parseInt (s : Bytes) : Except NumError Int :=
  let neg := s.head? = some 0x2D
  match parseUint (if neg ∨ s.head? = some 0x2B then s.tail else s) with
  | .error e => .error e
  | .ok n =>
    if neg then (if n ≤ 2 ^ 63 then .ok (-(n : Int)) else .error .errRange)
    else if n < 2 ^ 63 then .ok n
    else .error .errRange

/-! ## White space at the ends -/

/-- `bytes.TrimLeftFunc(s, unicode.IsSpace)`. -/
def trimLeftSpace (s : Bytes) : Bytes :=
  match s with
  | [] => []
  | b :: t =>
    if isSpace (Utf8.decodeRune (b :: t)).1 then trimLeftSpace ((b :: t).drop (Utf8.decodeRune (b :: t)).2)
    else b :: t
termination_by s.length
decreasing_by exact Bytes.length_drop_lt Utf8.decodeRune_width_pos

/-- Back from `start`, and no further than `lim`, to a byte that can begin a rune. -/
def runeStartBefore (s : Bytes) (lim : Nat) : Nat → Nat
  | 0 => 0
  | start + 1 =>
    if lim ≤ start ∧ s[start]?.any Utf8.isCont = true then runeStartBefore s lim start else start

/-- `utf8.DecodeLastRune`. -/
def decodeLastRune (s : Bytes) : Nat × Nat :=
  match s.getLast? with
  | none => (Utf8.runeError, 0)
  | some b =>
    if b < 0x80 then (b.toNat, 1)
    else
      let start := runeStartBefore s (s.length - 4) (s.length - 1)
      let rune := Utf8.decodeRune (s.drop start)
      if start + rune.2 = s.length then rune else (Utf8.runeError, 1)

/-- `bytes.TrimRightFunc(s, unicode.IsSpace)`, with a bound on the runes that are removed. -/
def trimRightSpaceFrom : Nat → Bytes → Bytes
  | 0, s => s
  | n + 1, s =>
    if isSpace (decodeLastRune s).1 then trimRightSpaceFrom n (s.take (s.length - (decodeLastRune s).2))
    else s

/-- `bytes.TrimSpace`; a rune has a byte at least. -/
def trimSpace (s : Bytes) : Bytes := trimRightSpaceFrom (trimLeftSpace s).length (trimLeftSpace s)

/-- A byte of white space: an ASCII one, or a byte of a longer rune. -/
def SpaceByte (c : UInt8) : Prop := isSpace c.toNat = true ∨ 0x80 ≤ c.toNat

/-- White space at the front of a text is a sequence of UTF-8. -/
theorem decodeRune_split {s : Bytes} (h : isSpace (Utf8.decodeRune s).1 = true) :
    ∃ bs rest, s = bs ++ rest ∧ bs.length = (Utf8.decodeRune s).2 ∧ ∀ c ∈ bs, SpaceByte c := by
  cases s with
  | nil => cases h
  | cons b t =>
    have hgood : Utf8.isBad (Utf8.decodeRune (b :: t)) = false := by
      rw [Utf8.isBad, beq_eq_false_iff_ne.mpr, Bool.false_and]
      intro hr
      rw [hr] at h
      cases h
    obtain ⟨bs, rest, hs, hseq, hlen⟩ := Utf8.sequence_of_decodeRune hgood
    refine ⟨bs, rest, hs, hlen, fun c hc => ?_⟩
    rcases hseq.ascii_or_high with ⟨b', rfl, hb', -⟩ | ⟨-, hhigh⟩
    · rw [mem_singleton.mp hc]
      exact .inl (hb' ▸ h)
    · exact .inr (hhigh c hc)

theorem trimLeftSpace_split (s : Bytes) : ∃ a, s = a ++ trimLeftSpace s ∧ ∀ c ∈ a, SpaceByte c := by
  fun_induction trimLeftSpace s with
  | case1 | case3 => exact ⟨[], rfl, nofun⟩
  | case2 b t hspace ih =>
    obtain ⟨bs, rest, hs, hlen, hbs⟩ := decodeRune_split hspace
    obtain ⟨a, ha, hall⟩ := ih
    rw [← hlen, hs, drop_left] at ha ⊢
    refine ⟨bs ++ a, by rw [append_assoc, ← ha], fun c hc => ?_⟩
    exact (mem_append.mp hc).elim (hbs c) (hall c)

/-- White space at the end of a text is a sequence at its end. -/
theorem decodeLastRune_split {s : Bytes} (h : isSpace (decodeLastRune s).1 = true) :
    ∃ front bs, s = front ++ bs ∧ bs.length = (decodeLastRune s).2 ∧ ∀ c ∈ bs, SpaceByte c := by
  revert h
  fun_cases decodeLastRune s with
  | case1 | case4 => nofun
  | case2 b hlast =>
    intro h
    obtain ⟨front, rfl⟩ := getLast?_eq_some_iff.mp hlast
    exact ⟨front, [b], rfl, rfl, fun c hc => .inl (mem_singleton.mp hc ▸ h)⟩
  | case3 b hlast _ start rune hend =>
    intro h
    obtain ⟨bs, rest, hs, hlen, hbs⟩ := decodeRune_split h
    refine ⟨s.take start, bs, ?_, hlen, hbs⟩
    -- the rune reaches to the end
    have hrest : rest = [] := by
      have hdrop := congrArg length hs
      rw [length_drop, ← hend, ← hlen, Nat.add_sub_cancel_left, length_append] at hdrop
      exact length_eq_zero_iff.mp (Nat.left_eq_add.mp hdrop)
    rw [hrest, append_nil] at hs
    rw [← hs, take_append_drop]

theorem trimRightSpaceFrom_split (n : Nat) (s : Bytes) :
    ∃ b, s = trimRightSpaceFrom n s ++ b ∧ ∀ c ∈ b, SpaceByte c := by
  induction n generalizing s with
  | zero => exact ⟨[], (append_nil s).symm, nofun⟩
  | succ n ih =>
    rw [trimRightSpaceFrom]
    split
    · rename_i hspace
      obtain ⟨front, bs, hs, hlen, hbs⟩ := decodeLastRune_split hspace
      have htake : s.take (s.length - (decodeLastRune s).2) = front := by
        rw [← hlen, hs, length_append, Nat.add_sub_cancel, take_left]
      obtain ⟨b, hb, hall⟩ := ih front
      rw [htake]
      refine ⟨b ++ bs, by rw [← append_assoc, ← hb]; exact hs, fun c hc => ?_⟩
      exact (mem_append.mp hc).elim (hall c) (hbs c)
    · exact ⟨[], (append_nil s).symm, nofun⟩

/-- **What `TrimSpace` takes off is white space.** -/
theorem trimSpace_split (s : Bytes) :
    ∃ a b, s = a ++ (trimSpace s ++ b) ∧ (∀ c ∈ a, SpaceByte c) ∧ ∀ c ∈ b, SpaceByte c := by
  obtain ⟨a, ha, hleft⟩ := trimLeftSpace_split s
  obtain ⟨b, hb, hright⟩ := trimRightSpaceFrom_split (trimLeftSpace s).length (trimLeftSpace s)
  exact ⟨a, b, ha.trans (congrArg (a ++ ·) hb), hleft, hright⟩

/-- A text between two bytes that are no white space stays as it is. -/
theorem trimSpace_eq_self {s : Bytes} (hfront : ∀ c ∈ s.head?, ¬ SpaceByte c)
    (hback : ∀ c ∈ s.getLast?, ¬ SpaceByte c) : trimSpace s = s := by
  obtain ⟨a, b, heq, ha, hb⟩ := trimSpace_split s
  have hleft : a = [] := by
    cases a with
    | nil => rfl
    | cons c a => exact absurd (ha c mem_cons_self) (hfront c (by rw [heq]; rfl))
  have hright : b = [] := by
    by_contra hne
    refine hback (b.getLast hne) ?_ (hb _ (getLast_mem hne))
    rw [heq, ← append_assoc, getLast?_append_of_ne_nil _ hne, getLast?_eq_some_getLast hne]
    rfl
  rw [hleft, hright, append_nil] at heq
  exact heq.symm

end Pandaemonium.GoText
