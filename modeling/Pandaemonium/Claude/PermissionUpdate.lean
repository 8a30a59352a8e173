import Pandaemonium.Lib.JsonData
import Pandaemonium.Lib.Utf8

/-!
# `Claude.PermissionUpdate` — permission updates on the wire (`permission_update.go`)

`toWire` builds a `map[string]any` and `permissionUpdateFromWire` reads one, by assertions on the dynamic types
of its values. A rule list is built as `[]map[string]any` and a directory list as `[]string`, and both are read
as `[]any`, which is what a JSON decoder builds: rules and directories come back through JSON only, and are lost
where the map is read as it was built (`rules_lost`). `fromWire_toWire` says of each way exactly which updates
come back.
-/

namespace Pandaemonium.Claude

open List

/-- `PermissionRuleValue`. -/
structure PermissionRuleValue where
  toolName : Bytes
  ruleContent : Bytes
  deriving DecidableEq, Repr

/-- `PermissionUpdate`; a nil slice is `none`. -/
structure PermissionUpdate where
  type : Bytes
  rules : Option (List PermissionRuleValue)
  behavior : Bytes
  mode : Bytes
  directories : Option (List Bytes)
  destination : Bytes
  deriving DecidableEq, Repr

/-- The types with rules and a behavior. -/
def rulesTypes : List Bytes := [ascii "addRules", ascii "replaceRules", ascii "removeRules"]

/-- The type with a mode. -/
def setMode : Bytes := ascii "setMode"

/-- The types with directories. -/
def directoriesTypes : List Bytes := [ascii "addDirectories", ascii "removeDirectories"]

/-! ## To the wire and back -/

/-- What `ToWire` puts into its map: a `string`, a `[]map[string]any` of strings, a `[]string`. -/
inductive Built where
  | string (s : Bytes)
  | maps (l : List (List (Bytes × Bytes)))
  | strings (l : List Bytes)

/-- A key that is set unless its value is empty. -/
def unlessEmpty (key s : Bytes) : List (Bytes × Built) := if s ≠ [] then [(key, .string s)] else []

/-- The object of one rule. -/
def PermissionRuleValue.toWire (r : PermissionRuleValue) : List (Bytes × Bytes) :=
  [(ascii "toolName", r.toolName), (ascii "ruleContent", r.ruleContent)]

/-- `ToWire`, the entries of its map. -/
def PermissionUpdate.toWire (u : PermissionUpdate) : List (Bytes × Built) :=
  (ascii "type", .string u.type) :: (unlessEmpty (ascii "destination") u.destination ++
    if u.type ∈ rulesTypes then
      (u.rules.map fun rules => (ascii "rules", .maps (rules.map (·.toWire)))).toList ++
        unlessEmpty (ascii "behavior") u.behavior
    else if u.type = setMode then unlessEmpty (ascii "mode") u.mode
    else if u.type ∈ directoriesTypes then
      (u.directories.map fun dirs => (ascii "directories", .strings dirs)).toList
    else [])

/-- The assertions on a value: to `string` and to `[]any`. -/
class Dynamic (α : Type) where
  string? : α → Option Bytes
  anys? : α → Option (List Json.Data)

instance : Dynamic Built where
  string?
    | .string s => some s
    | _ => none
  anys? _ := none

/-- The values of a JSON decoder. -/
instance : Dynamic Json.Data where
  string?
    | .string s => some s
    | _ => none
  anys?
    | .array l => some l
    | _ => none

section

variable {α : Type} [Dynamic α]

/-- `data[key].(string)`, or the zero value. -/
def text (data : List (Bytes × α)) (key : Bytes) : Bytes :=
  ((data.lookup key).bind Dynamic.string?).getD []

/-- An element of the rule list, skipped unless it is an object. -/
def ruleFromWire : Json.Data → Option PermissionRuleValue
  | .object m => some ⟨text m (ascii "toolName"), text m (ascii "ruleContent")⟩
  | _ => none

/-- `PermissionUpdateFromWire`. -/
def permissionUpdateFromWire (data : List (Bytes × α)) : PermissionUpdate where
  type := text data (ascii "type")
  rules := ((data.lookup (ascii "rules")).bind Dynamic.anys?).map (filterMap ruleFromWire)
  behavior := text data (ascii "behavior")
  mode := text data (ascii "mode")
  directories := ((data.lookup (ascii "directories")).bind Dynamic.anys?).map (filterMap Dynamic.string?)
  destination := text data (ascii "destination")

end

/-! ## Through JSON -/

/-- The strings in a value. -/
def Built.texts : Built → List Bytes
  | .string s => [s]
  | .maps l => l.flatMap (map Prod.snd)
  | .strings l => l

/-- The value as a JSON decoder builds it. -/
def Built.decoded : Built → Json.Data
  | .string s => .string s
  | .maps l => .array (l.map fun m => .object (m.map fun e => (e.1, .string e.2)))
  | .strings l => .array (l.map .string)

/-- **What is assumed of the JSON library**, `json` being `json.Marshal` of a map and `json.Unmarshal` into a
    `map[string]any`. The library is not part of the source. -/
structure JSONLibrary (json : List (Bytes × Built) → Option (List (Bytes × Json.Data))) : Prop where
  /-- a string that is not UTF-8 is refused -/
  refuses : ∀ u : PermissionUpdate, (∃ e ∈ u.toWire, ∃ s ∈ e.2.texts, Utf8.valid s = false) →
    json u.toWire = none
  /-- other values come back with the types of the decoder -/
  decodes : ∀ u : PermissionUpdate, (∀ e ∈ u.toWire, ∀ s ∈ e.2.texts, Utf8.valid s = true) →
    json u.toWire = some (u.toWire.map fun e => (e.1, e.2.decoded))

/-- The least that meets the assumptions. -/
def throughJSON (data : List (Bytes × Built)) : Option (List (Bytes × Json.Data)) :=
  if ∀ e ∈ data, ∀ s ∈ e.2.texts, Utf8.valid s = true then some (data.map fun e => (e.1, e.2.decoded)) else none

theorem throughJSON_library : JSONLibrary throughJSON where
  refuses := by
    intro u ⟨e, he, s, hs, hbad⟩
    refine if_neg (fun hall => ?_)
    rw [hall e he s hs] at hbad
    cases hbad
  decodes := fun u hall => if_pos hall

/-! ## What comes back -/

namespace PermissionUpdate

/-- The update without the fields of other types. -/
def own (u : PermissionUpdate) : PermissionUpdate where
  type := u.type
  rules := if u.type ∈ rulesTypes then u.rules else none
  behavior := if u.type ∈ rulesTypes then u.behavior else []
  mode := if u.type = setMode then u.mode else []
  directories := if u.type ∈ directoriesTypes then u.directories else none
  destination := u.destination

/-- The update with empty slices for nil ones. -/
def slices (u : PermissionUpdate) : PermissionUpdate :=
  { u with rules := some (u.rules.getD []), directories := some (u.directories.getD []) }

/-- An update of a known type whose other fields are empty. -/
def WellFormed (u : PermissionUpdate) : Prop :=
  u.type ∈ rulesTypes ++ setMode :: directoriesTypes ∧ u.own.slices = u.slices

variable {u : PermissionUpdate}

theorem rules_decoded (rules : List PermissionRuleValue) :
    (Dynamic.anys? (Built.maps (rules.map (·.toWire))).decoded).map (filterMap ruleFromWire) = some rules := by
  show some (filterMap ruleFromWire (map _ (rules.map (·.toWire)))) = some rules
  rw [map_map, filterMap_map]
  exact congrArg some filterMap_some

theorem directories_decoded (dirs : List Bytes) :
    (Dynamic.anys? (Built.strings dirs).decoded).map (filterMap Dynamic.string?) = some dirs := by
  show some (filterMap Dynamic.string? (dirs.map Json.Data.string)) = some dirs
  rw [filterMap_map]
  exact congrArg some filterMap_some

/-- **Everything comes back from the map of a decoder**, and everything but the lists from the map as it was
    built. -/
theorem fromWire_eq (u : PermissionUpdate) :
    permissionUpdateFromWire (u.toWire.map fun e => (e.1, e.2.decoded)) = u.own ∧
      permissionUpdateFromWire u.toWire = { u.own with rules := none, directories := none } := by
  have hrules : ∀ t ∈ rulesTypes, t ≠ setMode ∧ t ∉ directoriesTypes := by decide
  have hmodes : setMode ∉ directoriesTypes := by decide
  obtain ⟨type, rules, behavior, mode, directories, destination⟩ := u
  unfold toWire own
  dsimp only
  by_cases hr : type ∈ rulesTypes
  · obtain ⟨hm, hd⟩ := hrules type hr
    simp only [if_pos hr, if_neg hm, if_neg hd]
    refine ⟨?_, by cases destination <;> cases behavior <;> cases rules <;> rfl⟩
    cases rules with
    | none => cases destination <;> cases behavior <;> rfl
    | some rules =>
      have h := congrArg (fun r => mk type r behavior [] none destination) (rules_decoded rules)
      cases destination <;> cases behavior <;> exact h
  simp only [if_neg hr]
  by_cases hm : type = setMode
  · subst hm
    simp only [if_neg hmodes]
    cases destination <;> cases mode <;> exact ⟨rfl, rfl⟩
  simp only [if_neg hm]
  by_cases hd : type ∈ directoriesTypes
  · simp only [if_pos hd]
    refine ⟨?_, by cases destination <;> cases directories <;> rfl⟩
    cases directories with
    | none => cases destination <;> rfl
    | some dirs =>
      have h := congrArg (fun d => mk type none [] [] d destination) (directories_decoded dirs)
      cases destination <;> exact h
  · simp only [if_neg hd]
    cases destination <;> exact ⟨rfl, rfl⟩

/-- The strings of the update. -/
def texts (u : PermissionUpdate) : List Bytes :=
  [u.type, u.destination, u.behavior, u.mode] ++
    ((u.rules.getD []).flatMap (fun r => [r.toolName, r.ruleContent]) ++ u.directories.getD [])

/-- The map holds no other strings. -/
theorem texts_toWire {e : Bytes × Built} (he : e ∈ u.toWire) : e.2.texts ⊆ u.texts := by
  have hkey : ∀ key t, t ∈ [u.type, u.destination, u.behavior, u.mode] → e ∈ unlessEmpty key t →
      e.2.texts ⊆ u.texts := by
    intro key t ht he
    unfold unlessEmpty at he
    split at he
    · cases mem_singleton.mp he
      exact cons_subset.mpr ⟨mem_append_left _ ht, nil_subset _⟩
    · cases he
  rcases mem_cons.mp he with rfl | he
  · exact cons_subset.mpr ⟨mem_cons_self, nil_subset _⟩
  rcases mem_append.mp he with he | he
  · exact hkey _ _ (by simp) he
  split at he
  · rcases mem_append.mp he with he | he
    · obtain ⟨rules, hrules, rfl⟩ := Option.map_eq_some_iff.mp (Option.mem_toList.mp he)
      rw [texts, hrules, Built.texts, flatMap_map]
      exact subset_append_of_subset_right _ (subset_append_left _ _)
    · exact hkey _ _ (by simp) he
  split at he
  · exact hkey _ _ (by simp) he
  split at he
  · obtain ⟨dirs, hdirs, rfl⟩ := Option.map_eq_some_iff.mp (Option.mem_toList.mp he)
    rw [texts, hdirs]
    exact subset_append_of_subset_right _ (subset_append_right _ _)
  · cases he

/-- A field that is not empty belongs to the type. -/
theorem WellFormed.owns (h : u.WellFormed) :
    (u.rules.getD [] ≠ [] → u.type ∈ rulesTypes) ∧ (u.behavior ≠ [] → u.type ∈ rulesTypes) ∧
      (u.mode ≠ [] → u.type = setMode) ∧ (u.directories.getD [] ≠ [] → u.type ∈ directoriesTypes) := by
  have hown := h.2
  simp only [own, slices, mk.injEq, Option.some.injEq] at hown
  obtain ⟨-, hrules, hbehavior, hmode, hdirs, -⟩ := hown
  refine ⟨fun hne => ?_, fun hne => ?_, fun hne => ?_, fun hne => ?_⟩
  all_goals by_contra hother
  · rw [if_neg hother] at hrules
    exact hne hrules.symm
  · rw [if_neg hother] at hbehavior
    exact hne hbehavior.symm
  · rw [if_neg hother] at hmode
    exact hne hmode.symm
  · rw [if_neg hother] at hdirs
    exact hne hdirs.symm

theorem mem_unlessEmpty {key s : Bytes} (hne : s ≠ []) : (key, Built.string s) ∈ unlessEmpty key s := by
  rw [unlessEmpty, if_pos hne]
  exact mem_cons_self

/-- The fields of a rule type are on the wire. -/
theorem mem_toWire_rules {e : Bytes × Built} (hr : u.type ∈ rulesTypes)
    (he : e ∈ (u.rules.map fun rules => (ascii "rules", Built.maps (rules.map (·.toWire)))).toList ++
      unlessEmpty (ascii "behavior") u.behavior) : e ∈ u.toWire := by
  rw [toWire, if_pos hr]
  exact mem_cons_of_mem _ (mem_append_right _ he)

theorem mem_toWire_directories {e : Bytes × Built} (hd : u.type ∈ directoriesTypes)
    (he : e ∈ (u.directories.map fun dirs => (ascii "directories", Built.strings dirs)).toList) :
    e ∈ u.toWire := by
  have hother : ∀ t ∈ directoriesTypes, t ∉ rulesTypes ∧ t ≠ setMode := by decide
  obtain ⟨hr, hm⟩ := hother u.type hd
  rw [toWire, if_neg hr, if_neg hm, if_pos hd]
  exact mem_cons_of_mem _ (mem_append_right _ he)

/-- A list field that is not empty is not nil. -/
theorem eq_some_of_mem_getD {β : Type} {o : Option (List β)} {x : β} (hx : x ∈ o.getD []) :
    ∃ l, o = some l ∧ x ∈ l := by
  cases o with
  | none => cases hx
  | some l => exact ⟨l, rfl, hx⟩

/-- **Every string of a well-formed update is on the wire**, but for empty ones. -/
theorem mem_toWire_of_mem_texts (h : u.WellFormed) {s : Bytes} (hs : s ∈ u.texts) (hne : s ≠ []) :
    ∃ e ∈ u.toWire, s ∈ e.2.texts := by
  obtain ⟨hrules, hbehavior, hmode, hdirs⟩ := h.owns
  rcases mem_append.mp hs with hs | hs
  · simp only [mem_cons, not_mem_nil, or_false] at hs
    rcases hs with rfl | rfl | rfl | rfl
    · exact ⟨_, mem_cons_self, mem_cons_self⟩
    · exact ⟨_, mem_cons_of_mem _ (mem_append_left _ (mem_unlessEmpty hne)), mem_cons_self⟩
    · exact ⟨_, mem_toWire_rules (hbehavior hne) (mem_append_right _ (mem_unlessEmpty hne)), mem_cons_self⟩
    · have hm := hmode hne
      have hr : u.type ∉ rulesTypes := hm ▸ by decide
      refine ⟨(ascii "mode", .string u.mode), ?_, mem_cons_self⟩
      rw [toWire, if_neg hr, if_pos hm]
      exact mem_cons_of_mem _ (mem_append_right _ (mem_unlessEmpty hne))
  rcases mem_append.mp hs with hs | hs
  · obtain ⟨r, hr, hsr⟩ := mem_flatMap.mp hs
    obtain ⟨rules, heq, hmem⟩ := eq_some_of_mem_getD hr
    refine ⟨(ascii "rules", .maps (rules.map (·.toWire))), mem_toWire_rules ?_ (mem_append_left _ ?_), ?_⟩
    · exact hrules (ne_nil_of_mem hr)
    · simp [heq]
    · rw [Built.texts, flatMap_map]
      exact mem_flatMap.mpr ⟨r, hmem, hsr⟩
  · obtain ⟨dirs, heq, hmem⟩ := eq_some_of_mem_getD hs
    refine ⟨(ascii "directories", .strings dirs), mem_toWire_directories ?_ ?_, hmem⟩
    · exact hdirs (ne_nil_of_mem hs)
    · simp [heq]

/-- The strings on the wire are UTF-8 exactly if those of the update are. -/
theorem valid_toWire_iff (h : u.WellFormed) :
    (∀ e ∈ u.toWire, ∀ s ∈ e.2.texts, Utf8.valid s = true) ↔ ∀ s ∈ u.texts, Utf8.valid s = true := by
  constructor
  · intro hwire s hs
    by_cases hne : s = []
    · rw [hne]
      decide +kernel
    · obtain ⟨e, he, hse⟩ := mem_toWire_of_mem_texts h hs hne
      exact hwire e he s hse
  · intro hvalid e he s hs
    exact hvalid s (texts_toWire he hs)

/-- **Which updates come back**: from the map as it was built those without rules and directories, and through
    JSON those whose strings are UTF-8. -/
theorem fromWire_toWire {json : List (Bytes × Built) → Option (List (Bytes × Json.Data))}
    (hjson : JSONLibrary json) (u : PermissionUpdate) (h : u.WellFormed) :
    ((permissionUpdateFromWire u.toWire).slices = u.slices ↔
      u.rules.getD [] = [] ∧ u.directories.getD [] = []) ∧
    ((∃ data, json u.toWire = some data ∧ (permissionUpdateFromWire data).slices = u.slices) ↔
      ∀ s ∈ u.texts, Utf8.valid s = true) := by
  rw [(fromWire_eq u).2]
  refine ⟨⟨fun hback => ?_, fun ⟨hrules, hdirs⟩ => ?_⟩, fun ⟨data, hdata, _⟩ => ?_, fun hvalid => ?_⟩
  · exact ⟨(Option.some.inj (congrArg (·.rules) hback)).symm, (Option.some.inj (congrArg (·.directories) hback)).symm⟩
  · have hr : u.own.rules.getD [] = [] := (Option.some.inj (congrArg (·.rules) h.2)).trans hrules
    have hd : u.own.directories.getD [] = [] := (Option.some.inj (congrArg (·.directories) h.2)).trans hdirs
    rw [← h.2, slices, slices, hr, hd]
    rfl
  · refine (valid_toWire_iff h).mp (fun e he s hs => ?_)
    by_contra hbad
    rw [hjson.refuses u ⟨e, he, s, hs, Bool.eq_false_of_not_eq_true hbad⟩] at hdata
    cases hdata
  · refine ⟨_, hjson.decodes u ((valid_toWire_iff h).mpr hvalid), ?_⟩
    rw [(fromWire_eq u).1, h.2]

/-- A rule for the session. -/
def allowLs : PermissionUpdate :=
  ⟨ascii "addRules", some [⟨ascii "Bash", ascii "ls"⟩], ascii "allow", [], none, ascii "session"⟩

/-- The mode `plan`. -/
def planMode : PermissionUpdate := ⟨setMode, none, [], ascii "plan", none, []⟩

/-- The rule through JSON, and the mode from the map as it was built. -/
theorem fromWire_toWire_allowLs :
    (permissionUpdateFromWire planMode.toWire).slices = planMode.slices ∧
    ∃ data, throughJSON allowLs.toWire = some data ∧ (permissionUpdateFromWire data).slices = allowLs.slices := by
  have hmode := fromWire_toWire throughJSON_library planMode ⟨by decide, by decide⟩
  have hrule := fromWire_toWire throughJSON_library allowLs ⟨by decide, by decide⟩
  exact ⟨hmode.1.mpr ⟨rfl, rfl⟩, hrule.2.mpr (by decide +kernel)⟩

/-- The rule is gone where the map is read as it was built. -/
theorem rules_lost : allowLs.WellFormed ∧ (permissionUpdateFromWire allowLs.toWire).rules = none ∧
    (permissionUpdateFromWire allowLs.toWire).slices ≠ allowLs.slices := by
  exact ⟨⟨by decide, by decide⟩, by decide, by decide⟩

end PermissionUpdate

end Pandaemonium.Claude
