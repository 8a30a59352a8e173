import Pandaemonium.Lib.GoText

/-!
# `Tmux.Fields` — fields in front of a value (`notification.go`)

`%extended-output` and `%subscription-changed` carry fields, a colon that stands alone, and a value that is
the rest of the line. `splitFieldsBeforeValue` cuts the fields off one at a time and must leave the value as
it is, whatever colons and spaces it has.
-/

namespace Pandaemonium.Tmux

open List
open GoText (cut cut_append cut_true cut_false)

/-- `strings.TrimLeft(s, " ")` -/
def trimLeftSpaces (s : Bytes) : Bytes := s.dropWhile (· == 0x20)

theorem length_trimLeftSpaces_le (s : Bytes) : (trimLeftSpaces s).length ≤ s.length :=
  (dropWhile_sublist _).length_le

/-- `strings.Cut` takes at least the separator away. -/
theorem length_cut_lt {sep : UInt8} {s field rest : Bytes} (h : cut sep s = (field, rest, true)) :
    rest.length < s.length := by
  rw [(cut_true h).1, length_append, length_cons]
  omega

/-- The loop, with `fields` cut off so far. -/
def splitFieldsFrom (fields : List Bytes) (s : Bytes) : Except String (List Bytes × Bytes) :=
  if s = [] then .error "missing : value separator"
  else if s = [0x3A] then .ok (fields, [])
  else if ascii ": " <+: s then .ok (fields, s.drop 2)
  else
    match _h : cut 0x20 s with
    | (_, _, false) => .error "missing : value separator"
    | (field, rest, true) =>
      if field = [0x3A] then .ok (fields, rest)
      else splitFieldsFrom (fields ++ [field]) (trimLeftSpaces rest)
termination_by s.length
decreasing_by
  have h₁ := length_cut_lt _h
  have h₂ := length_trimLeftSpaces_le rest
  omega

def splitFieldsBeforeValue (s : Bytes) : Except String (List Bytes × Bytes) :=
  if s = [] then .error "missing fields" else splitFieldsFrom [] s

/-! ## Reading fields back -/

/-- A field: a word that is not the colon. -/
structure IsField (field : Bytes) : Prop where
  nonempty : field ≠ []
  noSpace : 0x20 ∉ field
  notColon : field ≠ [0x3A]

/-- Fields, each with a space and perhaps more behind it, then the colon and the value. -/
def fieldsBeforeValue (value : Bytes) : List (Bytes × Nat) → Bytes
  | [] => ascii ": " ++ value
  | (field, more) :: fields =>
    field ++ 0x20 :: (List.replicate more 0x20 ++ fieldsBeforeValue value fields)

theorem trimLeftSpaces_replicate (more : Nat) (s : Bytes) :
    trimLeftSpaces (List.replicate more 0x20 ++ s) = trimLeftSpaces s := by
  unfold trimLeftSpaces
  rw [dropWhile_append_of_pos]
  intro b hb
  rw [eq_of_mem_replicate hb]
  rfl

/-- What follows the spaces does not start with one. -/
theorem trimLeftSpaces_fields {value : Bytes} {fields : List (Bytes × Nat)} (h : ∀ f ∈ fields, IsField f.1) :
    trimLeftSpaces (fieldsBeforeValue value fields) = fieldsBeforeValue value fields := by
  cases fields with
  | nil => rfl
  | cons f fields =>
    obtain ⟨field, more⟩ := f
    have hf := h _ mem_cons_self
    cases field with
    | nil => exact absurd rfl hf.nonempty
    | cons b t =>
      have hb : b ≠ 0x20 := fun heq => hf.noSpace (heq ▸ mem_cons_self)
      simp [fieldsBeforeValue, trimLeftSpaces, hb]

theorem splitFieldsFrom_colon (fields : List Bytes) (value : Bytes) :
    splitFieldsFrom fields (ascii ": " ++ value) = .ok (fields, value) := by
  rw [splitFieldsFrom]
  rw [if_neg (by simp [ascii]), if_neg (by simp [ascii]), if_pos (prefix_append _ _)]
  rfl

/-- **The loop cuts one field off.** -/
theorem splitFieldsFrom_field {field : Bytes} (h : IsField field) (fields : List Bytes) (rest : Bytes) :
    splitFieldsFrom fields (field ++ 0x20 :: rest) =
      splitFieldsFrom (fields ++ [field]) (trimLeftSpaces rest) := by
  have hcut := cut_append h.noSpace rest
  have hleads : ¬ ascii ": " <+: field ++ 0x20 :: rest := by
    rintro ⟨q, hq⟩
    change 0x3A :: 0x20 :: q = _ at hq
    match field, h with
    | [], h => exact h.nonempty rfl
    | [b], h =>
      cases hq
      exact h.notColon rfl
    | b :: c :: t, h =>
      cases hq
      exact h.noSpace (by simp)
  rw [splitFieldsFrom, if_neg (by simp), if_neg, if_neg hleads]
  · split
    · rename_i heq
      cases heq.symm.trans hcut
    rename_i heq
    cases heq.symm.trans hcut
    rw [if_neg h.notColon]
  · intro heq
    have hlength := congrArg List.length heq
    have hpos := length_pos_iff.mpr h.nonempty
    simp only [length_append, length_cons, length_nil] at hlength
    omega

theorem splitFieldsFrom_fields {value : Bytes} {fields : List (Bytes × Nat)}
    (h : ∀ f ∈ fields, IsField f.1) (before : List Bytes) :
    splitFieldsFrom before (fieldsBeforeValue value fields) =
      .ok (before ++ fields.map Prod.fst, value) := by
  induction fields generalizing before with
  | nil =>
    rw [map_nil, append_nil]
    exact splitFieldsFrom_colon before value
  | cons f fields ih =>
    obtain ⟨field, more⟩ := f
    have hrest : ∀ f ∈ fields, IsField f.1 := fun f hf => h f (mem_cons_of_mem _ hf)
    rw [fieldsBeforeValue, splitFieldsFrom_field (h _ mem_cons_self), trimLeftSpaces_replicate,
      trimLeftSpaces_fields hrest, ih hrest, append_assoc]
    rfl

/-! ## Where there is no colon -/

theorem mem_splitOn_trimLeftSpaces {word s : Bytes} (h : word ∈ (trimLeftSpaces s).splitOn 0x20) :
    word ∈ s.splitOn 0x20 := by
  induction s with
  | nil => exact h
  | cons b t ih =>
    by_cases hb : b = 0x20
    · subst hb
      have hsplit : (0x20 :: t).splitOn (0x20 : UInt8) = [] :: t.splitOn 0x20 :=
        splitOn_append_cons_self_of_not_mem not_mem_nil t
      rw [hsplit]
      exact mem_cons_of_mem _ (ih h)
    · rwa [trimLeftSpaces, dropWhile_cons, if_neg (by simpa using hb)] at h

/-- **A split that succeeds has met the colon**, as a word of its own. -/
theorem colon_of_splitFieldsFrom {fields : List Bytes} {s : Bytes} {answer : List Bytes × Bytes}
    (h : splitFieldsFrom fields s = .ok answer) : [0x3A] ∈ s.splitOn (0x20 : UInt8) := by
  fun_induction splitFieldsFrom fields s with
  | case1 fields | case4 fields s hne hcolon hleads _ _ hcut => cases h
  | case2 fields hne => exact mem_singleton.mpr rfl
  | case3 fields s hne hcolon hleads =>
    obtain ⟨value, rfl⟩ := hleads
    have hnoSpace : (0x20 : UInt8) ∉ [0x3A] := by decide
    have hsplit := splitOn_append_cons_self_of_not_mem hnoSpace value
    exact hsplit ▸ mem_cons_self
  | case5 fields s hne hcolon hleads rest hcut =>
    obtain ⟨rfl, hfield⟩ := cut_true hcut
    rw [splitOn_append_cons_self_of_not_mem hfield]
    exact mem_cons_self
  | case6 fields s hne hcolon hleads field rest hcut hfield ih =>
    obtain ⟨rfl, hnoSpace⟩ := cut_true hcut
    rw [splitOn_append_cons_self_of_not_mem hnoSpace]
    exact mem_cons_of_mem _ (mem_splitOn_trimLeftSpaces (ih h))

/-- **Fields before a value.** Fields that are no colons come back as they are, and the value unchanged,
    however many spaces stand between the fields and whatever the value has; a text without the colon as a
    word is refused. -/
theorem splitFieldsBeforeValue_spec :
    (∀ (fields : List (Bytes × Nat)) (value : Bytes), fields ≠ [] → (∀ f ∈ fields, IsField f.1) →
      splitFieldsBeforeValue (fieldsBeforeValue value fields) = .ok (fields.map Prod.fst, value)) ∧
    (∀ s : Bytes, [0x3A] ∉ s.splitOn (0x20 : UInt8) → ∃ e, splitFieldsBeforeValue s = .error e) := by
  constructor
  · intro fields value hne hfields
    cases fields with
    | nil => exact absurd rfl hne
    | cons f fields =>
      rw [splitFieldsBeforeValue, if_neg (by simp [fieldsBeforeValue]),
        splitFieldsFrom_fields hfields, nil_append]
  · intro s hcolon
    unfold splitFieldsBeforeValue
    split
    · exact ⟨_, rfl⟩
    cases hsplit : splitFieldsFrom [] s with
    | error e => exact ⟨e, rfl⟩
    | ok answer => exact absurd (colon_of_splitFieldsFrom hsplit) hcolon

theorem splitFieldsBeforeValue_pane :
    splitFieldsBeforeValue (ascii "%1  5 : a : b ") = .ok ([ascii "%1", ascii "5"], ascii "a : b ") := by
  refine splitFieldsBeforeValue_spec.1 [(ascii "%1", 1), (ascii "5", 0)] (ascii "a : b ") (by simp) ?_
  intro f hf
  simp only [mem_cons, not_mem_nil, or_false] at hf
  rcases hf with rfl | rfl
  all_goals exact ⟨by decide, by decide, by decide⟩

end Pandaemonium.Tmux
