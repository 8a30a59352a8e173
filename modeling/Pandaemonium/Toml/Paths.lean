import Pandaemonium.Toml.Value

/-!
# `Toml.Paths` — key paths and the strings that stand for them

The parser files everything it knows about a table under one string, the segments of its path joined by
NUL bytes. A segment may itself hold a NUL (`\u0000` in a quoted key), so two paths can share their
string: they do exactly when they fall into the same pieces between NULs (`encodedKeyPath_eq_iff`). Within
a set of paths that are told apart by their pieces, such as the paths without NULs, the string stands for
the path. The same holds for the strings of contexts.
-/

namespace Pandaemonium.Toml

open List

/-- The decoded segments of a key. -/
abbrev Path := List Bytes

/-! ## Pieces -/

/-- The runs of bytes between the NULs of a path, the joints between segments counting as NULs. -/
def pieces (path : Path) : List Bytes := path.flatMap (List.splitOn 0x00)

variable {path : Path}

theorem encodedKeyPath_cons {s : Bytes} (h : path ≠ []) :
    encodedKeyPath (s :: path) = s ++ 0x00 :: encodedKeyPath path := by
  cases path with
  | nil => exact absurd rfl h
  | cons t path => rfl

theorem encodedKeyPath_eq_intercalate (path : Path) : encodedKeyPath path = [0x00].intercalate path := by
  induction path with
  | nil => rfl
  | cons s path ih =>
    cases path with
    | nil => simp [encodedKeyPath, List.intercalate]
    | cons t path =>
      rw [encodedKeyPath_cons (by simp), ih]
      simp [List.intercalate]

/-- A path and what follows it are joined like any two segments. -/
theorem encodedKeyPath_append {path' : Path} (h : path ≠ []) (h' : path' ≠ []) :
    encodedKeyPath (path ++ path') = encodedKeyPath path ++ 0x00 :: encodedKeyPath path' := by
  induction path with
  | nil => exact absurd rfl h
  | cons s path ih =>
    cases path with
    | nil => exact encodedKeyPath_cons h'
    | cons t path =>
      have hstep : encodedKeyPath (s :: t :: path) = s ++ 0x00 :: encodedKeyPath (t :: path) := rfl
      rw [cons_append, encodedKeyPath_cons (by simp), ih (by simp), hstep, append_assoc, cons_append]

theorem pieces_ne_nil (h : path ≠ []) : pieces path ≠ [] := by
  cases path with
  | nil => exact absurd rfl h
  | cons s path =>
    intro hp
    have := (append_eq_nil_iff.mp hp).1
    exact splitOn_ne_nil _ _ this

/-- Splitting a text leaves no separator. -/
theorem not_mem_of_mem_splitOn {c : UInt8} {text s : Bytes} (h : s ∈ List.splitOn c text) : c ∉ s := by
  induction text generalizing s with
  | nil =>
    rw [show List.splitOn c [] = [[]] from rfl, mem_singleton] at h
    subst h
    exact not_mem_nil
  | cons b text ih =>
    rw [List.splitOn, splitOnP_cons_eq_if_modifyHead] at h
    change s ∈ (if (b == c) = true then [] :: List.splitOn c text
      else List.modifyHead (List.cons b) (List.splitOn c text)) at h
    split at h
    · rcases mem_cons.mp h with rfl | h
      · exact not_mem_nil
      · exact ih h
    · rename_i hb
      cases hs : List.splitOn c text with
      | nil => exact absurd hs (splitOn_ne_nil _ _)
      | cons r rs =>
        rw [hs] at h ih
        rcases mem_cons.mp h with rfl | h
        · intro hc
          rcases mem_cons.mp hc with rfl | hc
          · exact hb (by simp)
          · exact ih mem_cons_self hc
        · exact ih (mem_cons_of_mem _ h)

/-- Pieces hold no NUL. -/
theorem pieces_nulFree {s : Bytes} (h : s ∈ pieces path) : (0x00 : UInt8) ∉ s := by
  obtain ⟨t, -, hs⟩ := mem_flatMap.mp h
  exact not_mem_of_mem_splitOn hs

/-- The string of a path is the string of its pieces. -/
theorem encodedKeyPath_pieces (path : Path) : encodedKeyPath (pieces path) = encodedKeyPath path := by
  induction path with
  | nil => rfl
  | cons s path ih =>
    have hs : encodedKeyPath (List.splitOn 0x00 s) = s := by
      rw [encodedKeyPath_eq_intercalate, intercalate_splitOn]
    show encodedKeyPath (List.splitOn 0x00 s ++ pieces path) = _
    by_cases hp : path = []
    · subst hp
      rw [show pieces [] = [] from rfl, append_nil, hs]
      rfl
    · rw [encodedKeyPath_append (splitOn_ne_nil _ _) (pieces_ne_nil hp), hs, ih, encodedKeyPath_cons hp]

/-- **Two paths share their string exactly when they fall into the same pieces.** -/
theorem encodedKeyPath_eq_iff {p q : Path} (hp : p ≠ []) (hq : q ≠ []) :
    encodedKeyPath p = encodedKeyPath q ↔ pieces p = pieces q := by
  constructor
  · intro h
    rw [← encodedKeyPath_pieces p, ← encodedKeyPath_pieces q, encodedKeyPath_eq_intercalate,
      encodedKeyPath_eq_intercalate] at h
    have hsplit := congrArg (List.splitOn 0x00) h
    rwa [splitOn_intercalate _ (fun _ => pieces_nulFree) (pieces_ne_nil hp),
      splitOn_intercalate _ (fun _ => pieces_nulFree) (pieces_ne_nil hq)] at hsplit
  · intro h
    rw [← encodedKeyPath_pieces p, h, encodedKeyPath_pieces]

/-- No segment holds a NUL. -/
def NulFree (path : Path) : Prop := ∀ s ∈ path, (0x00 : UInt8) ∉ s

theorem NulFree.pieces (h : NulFree path) : pieces path = path := by
  induction path with
  | nil => rfl
  | cons s path ih =>
    have hs : List.splitOn 0x00 s = [s] := by
      apply splitOnP_eq_singleton
      intro c hc
      have hne : c ≠ 0x00 := by
        rintro rfl
        exact h s mem_cons_self hc
      simpa using hne
    show List.splitOn 0x00 s ++ Toml.pieces path = _
    rw [hs, ih fun t ht => h t (mem_cons_of_mem _ ht)]
    rfl

/-! ## Sets of paths that are told apart -/

/-- **The string stands for the path** within `S`, which holds the prefixes of its paths. -/
structure Separate (S : Path → Prop) : Prop where
  pieces : ∀ p q, S p → S q → pieces p = pieces q → p = q
  before : ∀ p q, S (p ++ q) → p ≠ [] → S p
  nonempty : ∀ p, S p → p ≠ []

theorem Separate.inj {S : Path → Prop} (h : Separate S) {p q : Path} (hp : S p) (hq : S q) :
    encodedKeyPath p = encodedKeyPath q ↔ p = q := by
  constructor
  · intro he
    exact h.pieces p q hp hq ((encodedKeyPath_eq_iff (h.nonempty p hp) (h.nonempty q hq)).mp he)
  · intro he
    rw [he]

/-- The paths without NULs are told apart. -/
theorem separate_nulFree : Separate (fun p => p ≠ [] ∧ NulFree p) where
  pieces := by
    rintro p q ⟨-, hp⟩ ⟨-, hq⟩ h
    rwa [hp.pieces, hq.pieces] at h
  before := by
    rintro p q ⟨-, h⟩ hp
    exact ⟨hp, fun s hs => h s (mem_append_left q hs)⟩
  nonempty := fun _ h => h.1

/-! ## Scopes -/

/-- The element of an array of tables that a path lies in: the path of the array and how many elements
    it had; `none` outside all arrays of tables. -/
abbrev Scope := Option (Path × Nat)

/-- The string the parser writes for a scope. -/
def encodeScope : Scope → Bytes
  | none => []
  | some (path, n) => encodedKeyPath path ++ 0x23 :: Decimal.render n

theorem hash_not_mem_render (n : Nat) : (0x23 : UInt8) ∉ Decimal.render n := by
  intro h
  have := Decimal.isDigit_render n _ h
  revert this
  decide

/-- A text without `#` behind the last `#` can be told from what comes before it. -/
theorem append_hash_inj {x y s t : Bytes} (hs : (0x23 : UInt8) ∉ s) (ht : (0x23 : UInt8) ∉ t)
    (h : x ++ 0x23 :: s = y ++ 0x23 :: t) : x = y ∧ s = t := by
  -- whichever of `x` and `y` is longer, its surplus would put a `#` into the other text
  rcases append_eq_append_iff.mp h with ⟨a, rfl, ha⟩ | ⟨a, rfl, ha⟩
  · cases a with
    | nil => exact ⟨(append_nil x).symm, (List.cons.inj ha).2⟩
    | cons b a =>
      have hmem : (0x23 : UInt8) ∈ s := by
        rw [(List.cons.inj ha).2]
        exact mem_append_right a mem_cons_self
      exact absurd hmem hs
  · cases a with
    | nil => exact ⟨append_nil y, (List.cons.inj ha).2.symm⟩
    | cons b a =>
      have hmem : (0x23 : UInt8) ∈ t := by
        rw [(List.cons.inj ha).2]
        exact mem_append_right a mem_cons_self
      exact absurd hmem ht

/-- The path of a scope lies in `S`. -/
def Scope.Within (S : Path → Prop) : Scope → Prop
  | none => True
  | some (path, _) => S path

/-- Strings of scopes are told apart as the paths are. -/
theorem Separate.encodeScope_inj {S : Path → Prop} (h : Separate S) {a b : Scope}
    (ha : Scope.Within S a) (hb : Scope.Within S b) : encodeScope a = encodeScope b ↔ a = b := by
  constructor
  · intro he
    rcases a with _ | ⟨p, n⟩
    · rcases b with _ | ⟨q, m⟩
      · rfl
      · exact absurd he.symm (by simp [encodeScope])
    · rcases b with _ | ⟨q, m⟩
      · exact absurd he (by simp [encodeScope])
      obtain ⟨hpath, hcount⟩ := append_hash_inj (hash_not_mem_render n) (hash_not_mem_render m) he
      rw [(h.inj ha hb).mp hpath, Decimal.render_injective hcount]
  · intro he
    rw [he]

end Pandaemonium.Toml
