import Pandaemonium.Claude.ContentBlocks

/-!
# `Claude.Reencoding` — content blocks survive re-encoding, unless their type is unknown

`Restored` says what it means that a block comes back: the members of a block may come in another order, and
typed members that are empty may be gone, in the block and in the blocks of its content. The members a block is
encoded with are those of its fields (`fieldsOf`) and the preserved rest (`Written`), whichever way it is encoded;
that each field is written as it was, or was empty, is a lemma for each type of field (`Faithful`).

The exception is `rawContentBlock`, which keeps its value in a field that is not exported and has no method to
encode it. Inside the content of a `tool_result` such a block is lost.
-/

namespace Pandaemonium.Claude

open List
open Json

/-! ## What re-encoding should give -/

/-- The blocks in the content of a `tool_result`. -/
def contentOf (v : Data) : List Data :=
  match structMembers v with
  | none => []
  | some ms => (arrayField ms (ascii "content")).getD []

theorem sizeOf_contentOf (v : Data) : sizeOf (contentOf v) ≤ sizeOf v := by
  have hnil : sizeOf ([] : List Data) ≤ sizeOf v := by
    cases v <;> simp
  unfold contentOf
  split
  · exact hnil
  next ms hms =>
    cases hxs : arrayField ms (ascii "content") with
    | none => exact hnil
    | some xs => exact sizeOf_arrayField hms hxs

mutual

/-- The blocks of unknown type that a block has at any depth. -/
def unknownBlocks (v : Data) : List Data :=
  match kindOf v with
  | .toolResult =>
    have : sizeOf (contentOf v) ≤ sizeOf v := sizeOf_contentOf v
    unknownAmong (contentOf v)
  | .unknown => [v]
  | _ => []
termination_by 2 * sizeOf v + 1

def unknownAmong (vs : List Data) : List Data :=
  match vs with
  | [] => []
  | v :: vs => unknownBlocks v ++ unknownAmong vs
termination_by 2 * sizeOf vs

end

/-- A value a typed member may have when it is left out. -/
def isEmpty : Data → Bool
  | .null | .bool false | .string [] | .array [] => true
  | _ => false

/-- The member `name` is there as before, or it is a typed one with an empty value and was left out. -/
def Kept (typed : List Bytes) (ms ns : List (Bytes × Data)) (name : Bytes) : Prop :=
  member ns name = member ms name ∨
    (name ∈ typed ∧ member ns name = none ∧ ∃ d, member ms name = some d ∧ isEmpty d = true)

/-- The second value is the first, up to the order of members of blocks and the omission of typed members that
    are empty, in the block and in the blocks of its content. -/
inductive Restored : Data → Data → Prop where
  | same (v) : Restored v v
  | block {ms ns} : Distinct ns → (∀ name, Kept (typedNames (kindOf (.object ms))) ms ns name) →
      Restored (.object ms) (.object ns)
  | content {ms ns xs ys} : kindOf (.object ms) = .toolResult → Distinct ns →
      member ms (ascii "content") = some (.array xs) → member ns (ascii "content") = some (.array ys) →
      List.Forall₂ Restored xs ys →
      (∀ name, name ≠ ascii "content" → Kept (typedNames .toolResult) ms ns name) →
      Restored (.object ms) (.object ns)

/-! ## The members of an encoded block -/

/-- The members that are written for fields which may be left out. -/
def fieldsOf (slots : List (Bytes × Option Data)) : List (Bytes × Data) :=
  slots.flatMap (fun s => s.2.toList.map (fun d => (s.1, d)))

def stringValue (s : Bytes) : Option Data := if s = [] then none else some (.string s)

def boolValue (b : Bool) : Option Data := if b then some (.bool true) else none

def rawValue : Option Data → Option Data
  | none | some .null => none
  | some d => some d

section

variable {slots : List (Bytes × Option Data)} {ms ns : List (Bytes × Data)} {name : Bytes}

theorem setStringJSONField_eq (name s : Bytes) :
    setStringJSONField name s = fieldsOf [(name, stringValue s)] := by
  unfold setStringJSONField stringValue
  split
  all_goals rfl

theorem setBoolJSONField_eq (name : Bytes) (b : Bool) :
    setBoolJSONField name b = fieldsOf [(name, boolValue b)] := by
  cases b
  all_goals rfl

theorem setRawJSONField_eq (name : Bytes) (d : Option Data) :
    setRawJSONField name d = fieldsOf [(name, rawValue d)] := by
  cases d with
  | none => rfl
  | some d => cases d <;> rfl

theorem rawField_eq (name : Bytes) (d : Option Data) : rawField name d = fieldsOf [(name, d)] := by
  cases d
  all_goals rfl

theorem fieldsOf_append (slots' : List (Bytes × Option Data)) :
    fieldsOf slots ++ fieldsOf slots' = fieldsOf (slots ++ slots') := by
  rw [fieldsOf, fieldsOf, fieldsOf, flatMap_append]

theorem fieldsOf_cons (s : Bytes × Option Data) :
    fieldsOf (s :: slots) = s.2.toList.map (fun d => (s.1, d)) ++ fieldsOf slots := by
  rw [fieldsOf, fieldsOf, flatMap_cons]

theorem fieldsOf_names : ((fieldsOf slots).map Prod.fst).Sublist (slots.map Prod.fst) := by
  induction slots with
  | nil => exact List.Sublist.refl _
  | cons s slots ih =>
    rw [fieldsOf_cons, map_append, map_cons]
    cases s.2 with
    | none => exact List.Sublist.cons _ ih
    | some d => exact List.Sublist.cons_cons _ ih

theorem member_fieldsOf_cons (s : Bytes × Option Data) :
    member (fieldsOf (s :: slots)) name
      = if s.1 = name then s.2.or (member (fieldsOf slots) name) else member (fieldsOf slots) name := by
  rw [fieldsOf_cons, member_append]
  by_cases h : s.1 = name
  · rw [if_pos h]
    cases s.2 with
    | none => rfl
    | some d => simp [h, member_cons]
  · rw [if_neg h]
    cases s.2 with
    | none => rfl
    | some d => simp [h, member_cons]

theorem member_fieldsOf_none (h : name ∉ slots.map Prod.fst) : member (fieldsOf slots) name = none :=
  member_eq_none_iff.mpr (fun hmem => h (fieldsOf_names.subset hmem))

/-- What is found for a field is what was written. -/
theorem member_fieldsOf (hnodup : (slots.map Prod.fst).Nodup) {o : Option Data} (h : (name, o) ∈ slots) :
    member (fieldsOf slots) name = o := by
  induction slots with
  | nil => cases h
  | cons s slots ih =>
    rw [map_cons, nodup_cons] at hnodup
    rw [member_fieldsOf_cons]
    rcases mem_cons.mp h with rfl | h
    · rw [if_pos rfl, member_fieldsOf_none hnodup.1, Option.or_none]
    have hne : s.1 ≠ name := by
      rintro rfl
      exact hnodup.1 (mem_map.mpr ⟨_, h, rfl⟩)
    rw [if_neg hne]
    exact ih hnodup.2 h

/-- Fields that are never `null` pass `mergeRawObject` as they are. -/
theorem mergeRawObject_eq {raw : List (Bytes × Data)} (h : ∀ s ∈ slots, s.2 ≠ some .null) :
    mergeRawObject raw (fieldsOf slots) = overriding raw (fieldsOf slots) := by
  unfold mergeRawObject
  rw [filter_eq_self.mpr]
  intro m hm
  obtain ⟨s, hs, hm⟩ := mem_flatMap.mp hm
  obtain ⟨d, hd, rfl⟩ := mem_map.mp hm
  have hsome : s.2 = some d := Option.mem_toList.mp hd
  cases d with
  | null => exact absurd hsome (h s hs)
  | bool _ | number _ | string _ | array _ | object _ => rfl

/-- The members `ns` are those of the fields and of the preserved rest. -/
structure Written (slots : List (Bytes × Option Data)) (ms ns : List (Bytes × Data)) : Prop where
  distinct : Distinct ns
  found : ∀ name, member ns name
    = (member (fieldsOf slots) name).or (member (without ms (slots.map Prod.fst)) name)

/-- With methods of their own, fields are merged into the preserved rest. -/
theorem written_merge (slots : List (Bytes × Option Data)) (hms : Distinct ms)
    (hnodup : (slots.map Prod.fst).Nodup) (hnull : ∀ s ∈ slots, s.2 ≠ some .null) :
    Written slots ms (mergeRawObject (without ms (slots.map Prod.fst)) (fieldsOf slots)) := by
  rw [mergeRawObject_eq hnull]
  exact ⟨hms.without.overriding (hnodup.sublist fieldsOf_names), fun _ => member_overriding⟩

/-- The encoder writes the fields before it. -/
theorem written_inline (slots : List (Bytes × Option Data)) (hms : Distinct ms)
    (hnodup : (slots.map Prod.fst).Nodup) :
    Written slots ms (fieldsOf slots ++ without ms (slots.map Prod.fst)) := by
  refine ⟨?_, fun _ => member_append⟩
  rw [Distinct, map_append, nodup_append]
  refine ⟨hnodup.sublist fieldsOf_names, hms.without, ?_⟩
  rintro name hname _ hname' rfl
  have hnone : member (without ms (slots.map Prod.fst)) name = none := by
    rw [member_without, if_pos (fieldsOf_names.subset hname)]
  exact member_eq_none_iff.mp hnone hname'

/-- The field is written as the member was, or left out because that was empty. -/
def Faithful (ms : List (Bytes × Data)) (s : Bytes × Option Data) : Prop :=
  s.2 = member ms s.1 ∨ (s.2 = none ∧ ∃ d, member ms s.1 = some d ∧ isEmpty d = true)

theorem Written.kept (h : Written slots ms ns) (hnodup : (slots.map Prod.fst).Nodup)
    (hslot : ∀ o, (name, o) ∈ slots → Faithful ms (name, o)) : Kept (slots.map Prod.fst) ms ns name := by
  by_cases hname : name ∈ slots.map Prod.fst
  · obtain ⟨⟨n, o⟩, hs, hn⟩ := mem_map.mp hname
    cases hn
    have hm : member ns n = o := by
      rw [h.found, member_fieldsOf hnodup hs, member_without, if_pos hname, Option.or_none]
    rcases hslot o hs with heq | ⟨hnone, d, hd, hempty⟩
    · exact .inl (hm.trans heq)
    · exact .inr ⟨hname, hm.trans hnone, d, hd, hempty⟩
  · refine .inl ?_
    rw [h.found, member_fieldsOf_none hname, member_without, if_neg hname]
    rfl

theorem faithful_string {s : Bytes} (h : stringField ms name = some s) : Faithful ms (name, stringValue s) := by
  unfold stringField at h
  split at h
  · rename_i hm
    cases h
    exact .inl hm.symm
  · rename_i hm
    cases h
    exact .inr ⟨rfl, _, hm, rfl⟩
  · rename_i t hm
    cases h
    cases s with
    | nil => exact .inr ⟨rfl, _, hm, rfl⟩
    | cons c s => exact .inl hm.symm
  · cases h

theorem faithful_bool {b : Bool} (h : boolField ms name = some b) : Faithful ms (name, boolValue b) := by
  unfold boolField at h
  split at h
  · rename_i hm
    cases h
    exact .inl hm.symm
  · rename_i hm
    cases h
    exact .inr ⟨rfl, _, hm, rfl⟩
  · rename_i hm
    cases h
    cases b with
    | false => exact .inr ⟨rfl, _, hm, rfl⟩
    | true => exact .inl hm.symm
  · cases h

theorem faithful_raw : Faithful ms (name, rawValue (member ms name)) := by
  unfold rawValue
  split
  · next hm => exact .inl hm.symm
  · next hm => exact .inr ⟨rfl, _, hm, rfl⟩
  · next hm => exact .inl hm.symm

/-- The content of a `tool_result` is left out when there is none. -/
theorem faithful_content (h : arrayField ms name = some []) : Faithful ms (name, none) := by
  unfold arrayField at h
  split at h
  · next hm => exact .inl hm.symm
  · next hm => exact .inr ⟨rfl, _, hm, rfl⟩
  · rename_i hm
    cases h
    exact .inr ⟨rfl, _, hm, rfl⟩
  · cases h

end

/-! ## Re-encoding -/

/-- The block can be encoded, and its encoding is the value it was decoded from. -/
def Survives (refuses : Bool) (v : Data) (b : ContentBlock) : Prop :=
  ∃ w, marshal refuses b = some w ∧ Restored v w

/-- The values are written as they are when they are taken for values without exported fields. -/
def Fieldless (refuses : Bool) (vs : List Data) : Prop := ∀ v ∈ vs, refuses = false ∧ v = .object []

section

variable {refuses : Bool} {line : Bytes} {ms ns : List (Bytes × Data)} {b : ContentBlock}

theorem stringValue_ne_null (s : Bytes) : stringValue s ≠ some .null := by
  unfold stringValue
  split <;> nofun

theorem boolValue_ne_null (b : Bool) : boolValue b ≠ some .null := by
  cases b <;> nofun

theorem rawValue_ne_null (d : Option Data) : rawValue d ≠ some .null := by
  unfold rawValue
  split
  · nofun
  · nofun
  next hne =>
    intro h
    cases h
    exact hne rfl

theorem typedNames_nodup (k : BlockKind) : (typedNames k).Nodup := by
  cases k <;> decide

/-- A block whose fields are written faithfully survives. -/
theorem survives_of_written {slots : List (Bytes × Option Data)} {k : BlockKind}
    (hkind : kindOf (.object ms) = k) (hnames : slots.map Prod.fst = typedNames k)
    (h : Written slots ms ns) (hslots : ∀ s ∈ slots, Faithful ms s)
    (hm : marshal refuses b = some (.object ns)) : Survives refuses (.object ms) b := by
  refine ⟨_, hm, .block h.distinct (fun name => ?_)⟩
  rw [hkind, ← hnames]
  exact h.kept (hnames ▸ typedNames_nodup k) (fun o ho => hslots _ ho)

section

variable (hms : Distinct ms)
include hms

theorem survives_text {text : Bytes} (hkind : kindOf (.object ms) = .text)
    (htext : stringField ms (ascii "text") = some text) :
    Survives refuses (.object ms) (.text text (without ms (typedNames .text))) := by
  have hw := written_merge [(ascii "text", stringValue text)] hms (typedNames_nodup .text)
    (by simp [stringValue_ne_null])
  refine survives_of_written hkind rfl hw ?_ ?_
  · simpa using faithful_string htext
  · rw [marshal, setStringJSONField_eq]
    rfl

theorem survives_toolUse {id name : Bytes} (hkind : kindOf (.object ms) = .toolUse)
    (hid : stringField ms (ascii "id") = some id) (hname : stringField ms (ascii "name") = some name) :
    Survives refuses (.object ms)
      (.toolUse id name (member ms (ascii "input")) (without ms (typedNames .toolUse))) := by
  have hw := written_merge [(ascii "id", stringValue id), (ascii "name", stringValue name),
    (ascii "input", rawValue (member ms (ascii "input")))] hms (typedNames_nodup .toolUse)
    (by simp [stringValue_ne_null, rawValue_ne_null])
  refine survives_of_written hkind rfl hw ?_ ?_
  · simpa using ⟨faithful_string hid, faithful_string hname, faithful_raw⟩
  rw [marshal, setStringJSONField_eq, setStringJSONField_eq, setRawJSONField_eq, fieldsOf_append,
    fieldsOf_append]
  rfl

theorem survives_thinking {thinking signature : Bytes} (hkind : kindOf (.object ms) = .thinking)
    (hthinking : stringField ms (ascii "thinking") = some thinking)
    (hsignature : stringField ms (ascii "signature") = some signature) :
    Survives refuses (.object ms)
      (.thinking thinking signature (without ms (typedNames .thinking))) := by
  have hw := written_inline [(ascii "thinking", stringValue thinking),
    (ascii "signature", stringValue signature)] hms (typedNames_nodup .thinking)
  refine survives_of_written hkind rfl hw ?_ ?_
  · simpa using ⟨faithful_string hthinking, faithful_string hsignature⟩
  · rw [marshal, setStringJSONField_eq, setStringJSONField_eq, fieldsOf_append]
    rfl

theorem survives_serverToolUse {id name : Bytes} (hkind : kindOf (.object ms) = .serverToolUse)
    (hid : stringField ms (ascii "id") = some id) (hname : stringField ms (ascii "name") = some name) :
    Survives refuses (.object ms)
      (.serverToolUse id name (member ms (ascii "input")) (without ms (typedNames .serverToolUse))) := by
  have hw := written_inline [(ascii "id", stringValue id), (ascii "name", stringValue name),
    (ascii "input", member ms (ascii "input"))] hms (typedNames_nodup .serverToolUse)
  refine survives_of_written hkind rfl hw ?_ ?_
  · simpa using ⟨faithful_string hid, faithful_string hname, Or.inl rfl⟩
  rw [marshal, setStringJSONField_eq, setStringJSONField_eq, rawField_eq, fieldsOf_append, fieldsOf_append]
  rfl

theorem survives_serverToolResult {toolUseID : Bytes} (hkind : kindOf (.object ms) = .serverToolResult)
    (hid : stringField ms (ascii "tool_use_id") = some toolUseID) :
    Survives refuses (.object ms)
      (.serverToolResult toolUseID (member ms (ascii "content"))
        (without ms (typedNames .serverToolResult))) := by
  have hw := written_inline [(ascii "tool_use_id", stringValue toolUseID),
    (ascii "content", member ms (ascii "content"))] hms (typedNames_nodup .serverToolResult)
  refine survives_of_written hkind rfl hw ?_ ?_
  · simpa using ⟨faithful_string hid, Or.inl rfl⟩
  · rw [marshal, setStringJSONField_eq, rawField_eq, fieldsOf_append]
    rfl

end

/-- Nothing of a block of unknown type may be left out. -/
theorem Restored.eq_empty {v : Data} (hkind : kindOf v = .unknown) (h : Restored v (.object [])) :
    v = .object [] := by
  cases h with
  | same _ => rfl
  | @block ms _ _ hkept =>
    cases ms with
    | nil => rfl
    | cons m ms =>
      rcases hkept m.1 with h | ⟨htyped, _⟩
      · rw [member_cons, if_pos rfl] at h
        cases h
      · rw [hkind] at htyped
        cases htyped
  | content hkind' => exact nomatch hkind.symm.trans hkind'

/-- A block of unknown type survives only as the empty object. -/
theorem survives_raw_iff {v : Data} (hkind : kindOf v = .unknown) :
    Survives refuses v (.raw v) ↔ refuses = false ∧ v = .object [] := by
  constructor
  · rintro ⟨w, hw, hr⟩
    rw [marshal, marshalFieldless] at hw
    cases refuses with
    | true => cases hw
    | false =>
      cases hw
      exact ⟨rfl, hr.eq_empty hkind⟩
  · rintro ⟨rfl, rfl⟩
    exact ⟨_, rfl, .same _⟩

/-! ## The content of a `tool_result` -/

/-- All blocks of a content survive. -/
def AllSurvive (refuses : Bool) (vs : List Data) (bs : List ContentBlock) : Prop :=
  ∃ ws, marshalAll refuses bs = some ws ∧ List.Forall₂ Restored vs ws

theorem allSurvive_cons {v : Data} {vs : List Data} {bs : List ContentBlock} :
    AllSurvive refuses (v :: vs) (b :: bs) ↔ Survives refuses v b ∧ AllSurvive refuses vs bs := by
  constructor
  · rintro ⟨ws, hm, hr⟩
    rw [marshalAll] at hm
    split at hm
    · rename_i w ws' hw hws
      cases hm
      cases hr with
      | cons hr hrs => exact ⟨⟨w, hw, hr⟩, ws', hws, hrs⟩
    · cases hm
  · rintro ⟨⟨w, hw, hr⟩, ws, hws, hrs⟩
    exact ⟨w :: ws, by rw [marshalAll, hw, hws], .cons hr hrs⟩

/-- The blocks of a content survive when those of unknown type do, given that this holds of each block. -/
theorem allSurvive_iff {vs : List Data} {bs : List ContentBlock} (hparse : parseContentBlocks line vs = .ok bs)
    (ih : ∀ v ∈ vs, ∀ b, parseContentBlock line v = .ok b → (Survives refuses v b ↔ Fieldless refuses
    (unknownBlocks v))) : AllSurvive refuses vs bs ↔ Fieldless refuses (unknownAmong vs) := by
  induction vs generalizing bs with
  | nil =>
    rw [parseContentBlocks] at hparse
    cases hparse
    rw [unknownAmong]
    exact ⟨fun _ v hv => absurd hv not_mem_nil, fun _ => ⟨[], rfl, .nil⟩⟩
  | cons v vs ihvs =>
    rw [parseContentBlocks] at hparse
    split at hparse
    · rename_i b hb
      split at hparse
      · rename_i bs' hbs
        cases hparse
        have hv := ih v mem_cons_self b hb
        have hvs := ihvs hbs (fun v' hv' => ih v' (mem_cons_of_mem v hv'))
        rw [allSurvive_cons, hv, hvs, unknownAmong, Fieldless, Fieldless, Fieldless, forall_mem_append]
      · cases hparse
    · cases hparse

/-- The contents of restored blocks are restored, block by block. -/
theorem Restored.contents {v w : Data} (h : Restored v w) (hv : v = .object ms) (hw : w = .object ns)
    {xs ys : List Data} (hxs : member ms (ascii "content") = some (.array xs))
    (hys : member ns (ascii "content") = some (.array ys)) : List.Forall₂ Restored xs ys := by
  cases h with
  | same v =>
    cases hv.symm.trans hw
    cases hxs.symm.trans hys
    exact forall₂_same.mpr (fun x _ => .same x)
  | block hd hkept =>
    cases hv
    cases hw
    rcases hkept (ascii "content") with heq | ⟨_, hnone, _⟩
    · cases (heq.trans hxs).symm.trans hys
      exact forall₂_same.mpr (fun x _ => .same x)
    · exact nomatch hnone.symm.trans hys
  | content hkind hd hxs' hys' hrs hkept =>
    cases hv
    cases hw
    cases hxs.symm.trans hxs'
    cases hys.symm.trans hys'
    exact hrs

theorem member_of_arrayField {name : Bytes} {x : Data} {xs : List Data}
    (h : arrayField ms name = some (x :: xs)) : member ms name = some (.array (x :: xs)) := by
  unfold arrayField at h
  split at h
  · cases h
  · cases h
  · rename_i hm
    cases h
    exact hm
  · cases h

/-- The fields of a `tool_result`. -/
def toolResultSlots (toolUseID : Bytes) (content : Option Data) (isError : Bool) :
    List (Bytes × Option Data) :=
  [(ascii "tool_use_id", stringValue toolUseID), (ascii "content", content),
    (ascii "is_error", boolValue isError)]

theorem written_toolResult (hms : Distinct ms) (toolUseID : Bytes) (content : Option Data)
    (hcontent : content ≠ some .null) (isError : Bool) :
    Written (toolResultSlots toolUseID content isError) ms
      (mergeRawObject (without ms (typedNames .toolResult))
        (fieldsOf (toolResultSlots toolUseID content isError))) :=
  written_merge (toolResultSlots toolUseID content isError) hms (typedNames_nodup .toolResult)
    (by simp [toolResultSlots, stringValue_ne_null, boolValue_ne_null, hcontent])

theorem marshal_toolResult_nil (toolUseID : Bytes) (isError : Bool) (raw : List (Bytes × Data)) :
    marshal refuses (.toolResult toolUseID [] isError raw)
      = some (.object (mergeRawObject raw (fieldsOf (toolResultSlots toolUseID none isError)))) := by
  rw [marshal, setStringJSONField_eq, setBoolJSONField_eq, fieldsOf_append]
  rfl

theorem marshal_toolResult_cons (toolUseID : Bytes) (isError : Bool) (raw : List (Bytes × Data))
    (bs : List ContentBlock) :
    marshal refuses (.toolResult toolUseID (b :: bs) isError raw)
      = (marshalAll refuses (b :: bs)).map (fun ws =>
          .object (mergeRawObject raw (fieldsOf (toolResultSlots toolUseID (some (.array ws)) isError)))) := by
  have hfields : ∀ ws, setStringJSONField (ascii "tool_use_id") toolUseID ++
      [(ascii "content", Data.array ws)] ++ setBoolJSONField (ascii "is_error") isError
        = fieldsOf (toolResultSlots toolUseID (some (.array ws)) isError) := by
    intro ws
    rw [setStringJSONField_eq, setBoolJSONField_eq]
    show fieldsOf _ ++ fieldsOf [(ascii "content", some (Data.array ws))] ++ fieldsOf _ = _
    rw [fieldsOf_append, fieldsOf_append]
    rfl
  rw [marshal]
  simp only [hfields]

theorem survives_toolResult_iff {toolUseID : Bytes} {xs : List Data} {isError : Bool}
    {blocks : List ContentBlock} (hms : Distinct ms) (hkind : kindOf (.object ms) = .toolResult)
    (hid : stringField ms (ascii "tool_use_id") = some toolUseID)
    (hxs : arrayField ms (ascii "content") = some xs) (herr : boolField ms (ascii "is_error") = some isError)
    (hblocks : parseContentBlocks line xs = .ok blocks) :
    Survives refuses (.object ms)
      (.toolResult toolUseID blocks isError (without ms (typedNames .toolResult))) ↔
        AllSurvive refuses xs blocks := by
  cases xs with
  | nil =>
    rw [parseContentBlocks] at hblocks
    cases hblocks
    refine ⟨fun _ => ⟨[], rfl, .nil⟩, fun _ => ?_⟩
    refine survives_of_written hkind rfl (written_toolResult hms toolUseID none (by simp) isError) ?_
      (marshal_toolResult_nil toolUseID isError _)
    simpa [toolResultSlots] using ⟨faithful_string hid, faithful_content hxs, faithful_bool herr⟩
  | cons x xs =>
    have hcontent := member_of_arrayField hxs
    obtain ⟨b, bs, rfl⟩ : ∃ b bs, blocks = b :: bs := by
      rw [parseContentBlocks] at hblocks
      split at hblocks
      · split at hblocks
        · cases hblocks
          exact ⟨_, _, rfl⟩
        · cases hblocks
      · cases hblocks
    have hwritten := fun ws =>
      written_toolResult hms toolUseID (some (.array ws)) (by simp) isError
    have hfound : ∀ ws, member (mergeRawObject (without ms (typedNames .toolResult))
        (fieldsOf (toolResultSlots toolUseID (some (.array ws)) isError))) (ascii "content")
          = some (.array ws) := by
      intro ws
      have hslot : member (fieldsOf (toolResultSlots toolUseID (some (.array ws)) isError)) (ascii "content")
          = some (.array ws) := by
        refine member_fieldsOf ?_ (mem_cons_of_mem _ mem_cons_self)
        exact typedNames_nodup .toolResult
      rw [(hwritten ws).found, hslot]
      rfl
    constructor
    · rintro ⟨w, hm, hr⟩
      rw [marshal_toolResult_cons] at hm
      obtain ⟨ws, hws, rfl⟩ := Option.map_eq_some_iff.mp hm
      exact ⟨ws, hws, hr.contents rfl rfl hcontent (hfound ws)⟩
    · rintro ⟨ws, hws, hrs⟩
      refine ⟨_, by rw [marshal_toolResult_cons, hws]; rfl, ?_⟩
      refine .content hkind (hwritten ws).distinct hcontent (hfound ws) hrs (fun name hname => ?_)
      refine (hwritten ws).kept (typedNames_nodup .toolResult) (fun o ho => ?_)
      simp only [toolResultSlots, mem_cons, Prod.mk.injEq, not_mem_nil, or_false] at ho
      rcases ho with ⟨rfl, rfl⟩ | ⟨rfl, rfl⟩ | ⟨rfl, rfl⟩
      · exact faithful_string hid
      · exact absurd rfl hname
      · exact faithful_bool herr

/-- **Content blocks survive re-encoding, except those of unknown type.** A block that `parseContentBlock` accepts
    is encoded again, and the value is the one it was decoded from up to omitted empty members, if and only if
    every block of unknown type in it, at any depth, is the empty object and the encoder writes a value without
    exported fields as that. -/
theorem reencoded_iff {v : Data} (hdistinct : v.distinct = true) (hparse : parseContentBlock line v = .ok b) :
    (∃ w, marshal refuses b = some w ∧ Restored v w) ↔
      ∀ r ∈ unknownBlocks v, refuses = false ∧ r = .object [] := by
  -- by induction on the size of the value: a content is smaller than its block
  induction hsize : sizeOf v using Nat.strongRecOn generalizing v b with
  | ind n ih =>
    show Survives refuses v b ↔ Fieldless refuses (unknownBlocks v)
    have hnone : ∀ {k : BlockKind}, kindOf v = k → k ≠ .toolResult → k ≠ .unknown →
        Survives refuses v b → (Survives refuses v b ↔ Fieldless refuses (unknownBlocks v)) := by
      intro k hk hresult hunknown hs
      refine ⟨fun _ => ?_, fun _ => hs⟩
      rw [unknownBlocks, hk]
      cases k <;> first | exact absurd rfl hresult | exact absurd rfl hunknown | nofun
    cases parseContentBlock_ok_iff.mp hparse with
    | text hkind htext =>
      exact hnone hkind nofun nofun (survives_text (Data.distinct_object hdistinct).1 hkind htext)
    | toolUse hkind hid hname =>
      exact hnone hkind nofun nofun (survives_toolUse (Data.distinct_object hdistinct).1 hkind hid hname)
    | thinking hkind hthinking hsignature =>
      exact hnone hkind nofun nofun
        (survives_thinking (Data.distinct_object hdistinct).1 hkind hthinking hsignature)
    | serverToolUse hkind hid hname =>
      exact hnone hkind nofun nofun
        (survives_serverToolUse (Data.distinct_object hdistinct).1 hkind hid hname)
    | serverToolResult hkind hid =>
      exact hnone hkind nofun nofun (survives_serverToolResult (Data.distinct_object hdistinct).1 hkind hid)
    | toolResult hkind hid hxs herr hblocks =>
      rename_i ms toolUseID xs isError blocks
      have hcontent : contentOf (.object ms) = xs := by
        show (arrayField ms (ascii "content")).getD [] = xs
        rw [hxs]
        rfl
      rw [survives_toolResult_iff (Data.distinct_object hdistinct).1 hkind hid hxs herr hblocks,
        unknownBlocks, hkind]
      show _ ↔ Fieldless refuses (unknownAmong (contentOf (.object ms)))
      rw [hcontent]
      refine allSurvive_iff hblocks (fun x hx b' hb' => ?_)
      refine ih (sizeOf x) ?_ ?_ hb' rfl
      · have hlt := sizeOf_lt_of_mem hx
        have hle := sizeOf_contentOf (.object ms)
        rw [hcontent] at hle
        omega
      · cases xs with
        | nil => cases hx
        | cons y ys =>
          have hd := (Data.distinct_object hdistinct).2 _ _ (member_of_arrayField hxs)
          rw [Data.distinct] at hd
          exact Data.distinct_of_mem_elements hd hx
    | unknown hms htype hk =>
      have hkind := (kindOf_eq hms htype).trans hk
      rw [survives_raw_iff hkind, unknownBlocks, hkind]
      simp [Fieldless]

end

/-- A `tool_result` whose content is one block. -/
def resultWith (x : Data) : List (Bytes × Data) :=
  [(ascii "type", .string (ascii "tool_result")), (ascii "tool_use_id", .string (ascii "t1")),
    (ascii "is_error", .bool false), (ascii "content", .array [x])]

theorem parse_resultWith {line : Bytes} {x : Data} {b : ContentBlock} (h : parseContentBlock line x = .ok b) :
    parseContentBlock line (.object (resultWith x))
      = .ok (.toolResult (ascii "t1") [b] false (without (resultWith x) (typedNames .toolResult))) := by
  refine ok_of_parsed (.toolResult rfl rfl rfl rfl ?_)
  rw [parseContentBlocks, h, parseContentBlocks]

/-- A result with a text in it is given back. -/
theorem reencoded_iff_text :
    ∃ b w, parseContentBlock [] (.object (resultWith (.object [(ascii "type", .string (ascii "text")),
        (ascii "text", .string (ascii "done"))]))) = .ok b ∧ marshal true b = some w ∧
      Restored (.object (resultWith (.object [(ascii "type", .string (ascii "text")),
        (ascii "text", .string (ascii "done"))]))) w := by
  have hparse := parse_resultWith (ok_of_parsed (.text rfl rfl) : parseContentBlock []
    (.object [(ascii "type", .string (ascii "text")), (ascii "text", .string (ascii "done"))]) = .ok _)
  have hnone : ∀ r ∈ unknownBlocks (.object (resultWith (.object [(ascii "type", .string (ascii "text")),
      (ascii "text", .string (ascii "done"))]))), true = false ∧ r = .object [] := by
    rw [unknownBlocks]
    show ∀ r ∈ unknownAmong [_], _
    rw [unknownAmong, unknownBlocks, unknownAmong]
    exact nofun
  obtain ⟨w, hw, hr⟩ := (reencoded_iff (by decide) hparse).mpr hnone
  exact ⟨_, w, hparse, hw, hr⟩

/-- A result with an image in it is accepted, but the image is lost: either nothing can be written, or an empty
    object stands in its place. -/
theorem image_lost :
    ∃ b, parseContentBlock [] (.object (resultWith (.object [(ascii "type", .string (ascii "image")),
        (ascii "data", .string (ascii "aGk="))]))) = .ok b ∧
      marshal true b = none ∧
      ∃ w, marshal false b = some w ∧ ¬ Restored (.object (resultWith (.object
        [(ascii "type", .string (ascii "image")), (ascii "data", .string (ascii "aGk="))]))) w := by
  have hparse := parse_resultWith (ok_of_parsed (.unknown rfl rfl rfl) : parseContentBlock []
    (.object [(ascii "type", .string (ascii "image")), (ascii "data", .string (ascii "aGk="))]) = .ok _)
  refine ⟨_, hparse, rfl, _, rfl, fun hr => ?_⟩
  cases hr.contents rfl rfl rfl rfl with
  | cons hx _ => exact nomatch hx.eq_empty rfl

end Pandaemonium.Claude
