import Pandaemonium.Lib.Bytes

/-!
# `Lib.JsonData` — JSON values without their layout

What a JSON text says, without how it is written: numbers keep their text, strings are the bytes they stand for,
objects are lists of members. Two objects say the same when they have the same members, whatever their order, so
objects are looked at through `member`, and the operations on objects are described by what `member` finds
afterwards: members can be left out (`without`) and set (`overriding`, as in an assignment to a map).
-/

namespace Pandaemonium.Json

open List

inductive Data where
  | null
  | bool (b : Bool)
  | number (text : Bytes)
  | string (s : Bytes)
  | array (elements : List Data)
  | object (members : List (Bytes × Data))

/-- The value of a member of an object. -/
def member (ms : List (Bytes × Data)) (name : Bytes) : Option Data :=
  (ms.find? (fun m => m.1 == name)).map Prod.snd

/-- No two members have one name. -/
def Distinct (ms : List (Bytes × Data)) : Prop := (ms.map Prod.fst).Nodup

/-- The members whose names are not in the list. -/
def without (ms : List (Bytes × Data)) (names : List Bytes) : List (Bytes × Data) :=
  ms.filter (fun m => !names.contains m.1)

/-- The members with those of `fields` set. -/
def overriding (ms fields : List (Bytes × Data)) : List (Bytes × Data) :=
  without ms (fields.map Prod.fst) ++ fields

section

variable {ms fields : List (Bytes × Data)} {names : List Bytes} {name : Bytes} {d : Data}

@[simp] theorem member_nil : member [] name = none := rfl

theorem member_cons (m : Bytes × Data) :
    member (m :: ms) name = if m.1 = name then some m.2 else member ms name := by
  unfold member
  by_cases h : m.1 = name
  all_goals simp [h]

theorem member_append : member (ms ++ fields) name = (member ms name).or (member fields name) := by
  unfold member
  rw [find?_append]
  cases ms.find? (fun m => m.1 == name) with
  | none | some m => rfl

theorem member_eq_none_iff : member ms name = none ↔ name ∉ ms.map Prod.fst := by
  rw [member, Option.map_eq_none_iff, find?_eq_none]
  constructor
  · intro h hmem
    obtain ⟨m, hm, rfl⟩ := mem_map.mp hmem
    simpa using h m hm
  · intro h m hm hname
    exact h (mem_map.mpr ⟨m, hm, by simpa using hname⟩)

theorem mem_of_member (h : member ms name = some d) : (name, d) ∈ ms := by
  obtain ⟨m, hm, rfl⟩ := Option.map_eq_some_iff.mp h
  have hname : m.1 = name := by simpa using find?_some hm
  rw [← hname]
  exact mem_of_find?_eq_some hm

theorem member_without : member (without ms names) name = if name ∈ names then none else member ms name := by
  induction ms with
  | nil => simp [without]
  | cons m ms ih =>
    unfold without at ih ⊢
    rw [filter_cons]
    by_cases hm : m.1 ∈ names
    · rw [if_neg (by simpa using hm), ih, member_cons]
      by_cases hname : m.1 = name
      · rw [if_pos (hname ▸ hm), if_pos (hname ▸ hm)]
      · rw [if_neg hname]
    · rw [if_pos (by simpa using hm), member_cons, member_cons, ih]
      by_cases hname : m.1 = name
      · rw [if_pos hname, if_pos hname, if_neg (hname ▸ hm)]
      · rw [if_neg hname, if_neg hname]

/-- What has been set is found, and what was there otherwise. -/
theorem member_overriding : member (overriding ms fields) name = (member fields name).or (member ms name) := by
  rw [overriding, member_append, member_without]
  cases h : member fields name with
  | none =>
    rw [if_neg (member_eq_none_iff.mp h)]
    cases member ms name <;> rfl
  | some d =>
    rw [if_pos (mem_map_of_mem (mem_of_member h))]
    rfl

theorem Distinct.without (h : Distinct ms) : Distinct (without ms names) :=
  h.sublist (filter_sublist.map _)

theorem Distinct.overriding (h : Distinct ms) (hf : Distinct fields) : Distinct (overriding ms fields) := by
  rw [Distinct, Json.overriding, map_append, nodup_append]
  refine ⟨Distinct.without h, hf, ?_⟩
  rintro name hname _ hname' rfl
  obtain ⟨m, hm, rfl⟩ := mem_map.mp hname
  have hout := (mem_filter.mp hm).2
  simp only [Bool.not_eq_true', contains_eq_mem, decide_eq_false_iff_not] at hout
  exact hout hname'

/-- A member is smaller than the object. -/
theorem sizeOf_member (h : member ms name = some d) : sizeOf d < sizeOf (Data.object ms) := by
  have hmem := sizeOf_lt_of_mem (mem_of_member h)
  simp only [Prod.mk.sizeOf_spec] at hmem
  simp only [Data.object.sizeOf_spec]
  omega

end

/-! ## Values without repeated names -/

namespace Data

mutual

/-- No object in the value has two members of one name. -/
def distinct : Data → Bool
  | .null | .bool _ | .number _ | .string _ => true
  | .array xs => distinctElements xs
  | .object ms => decide (ms.map Prod.fst).Nodup && distinctMembers ms

def distinctElements : List Data → Bool
  | [] => true
  | x :: xs => distinct x && distinctElements xs

def distinctMembers : List (Bytes × Data) → Bool
  | [] => true
  | (_, d) :: ms => distinct d && distinctMembers ms

end

theorem distinct_of_mem_elements {xs : List Data} (h : distinctElements xs = true) {x : Data}
    (hx : x ∈ xs) : distinct x = true := by
  induction xs with
  | nil => cases hx
  | cons y ys ih =>
    rw [distinctElements, Bool.and_eq_true] at h
    rcases mem_cons.mp hx with rfl | hx
    · exact h.1
    · exact ih h.2 hx

theorem distinct_of_mem_members {ms : List (Bytes × Data)} (h : distinctMembers ms = true)
    {m : Bytes × Data} (hm : m ∈ ms) : distinct m.2 = true := by
  induction ms with
  | nil => cases hm
  | cons m' ms ih =>
    rw [distinctMembers, Bool.and_eq_true] at h
    rcases mem_cons.mp hm with rfl | hm
    · exact h.1
    · exact ih h.2 hm

theorem distinct_object {ms : List (Bytes × Data)} (h : distinct (.object ms) = true) :
    Distinct ms ∧ ∀ name d, member ms name = some d → distinct d = true := by
  rw [distinct, Bool.and_eq_true, decide_eq_true_iff] at h
  exact ⟨h.1, fun name d hd => distinct_of_mem_members h.2 (mem_of_member hd)⟩

end Data

end Pandaemonium.Json
