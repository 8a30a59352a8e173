import Pandaemonium.Toml.EditSpans

/-!
# `Toml.EditRun` — sequences of edits

A `Call` is one call of `Set`, `InsertAfter` or `Delete`. A call that fails leaves the document as it was;
what a call that succeeds does is one of five things (`CallStep`). No call moves an entry: after any number
of calls the document is still `Based` on the one that was parsed.
-/

namespace Pandaemonium.Toml.Document

open SortedMap (get?)

/-! ## Calls -/

inductive Call where
  | set (path : Bytes) (value : GoAny)
  | insertAfter (afterPath path : Bytes) (value : GoAny)
  | delete (path : Bytes)
  deriving DecidableEq

/-- The path a call is about. -/
def Call.path : Call → Bytes
  | .set path _ => path
  | .insertAfter _ path _ => path
  | .delete path => path

def call (lib : Strconv) (d : Document) : Call → Except EditError Document
  | .set path value => d.set lib path value
  | .insertAfter afterPath path value => d.insertAfter afterPath path value
  | .delete path => d.delete path

/-- The document after a call, whether it fails or not. -/
def step (lib : Strconv) (d : Document) (c : Call) : Document :=
  match d.call lib c with
  | .ok d' => d'
  | .error _ => d

def run (lib : Strconv) (d : Document) (calls : List Call) : Document := calls.foldl (step lib) d

/-- What a call that succeeds can do. -/
inductive CallStep (lib : Strconv) (d : Document) : Call → Document → Prop
  | replace {path repl : Bytes} {value : GoAny} {parts : List Bytes} {idx : Nat}
      {entry : DocumentEntry} :
      parseDocumentPath path = .ok parts →
      d.entryForPathKey (joinDocumentPath parts) = some (idx, entry) →
      d.formatValueForPath lib (joinDocumentPath parts) value = .ok repl →
      CallStep lib d (.set path value) (d.replaceEntry idx (joinDocumentPath parts) value repl)
  | append {path text : Bytes} {value : GoAny} {parts : List Bytes} :
      parseDocumentPath path = .ok parts → d.entryForPathKey (joinDocumentPath parts) = none →
      formatDocumentValue lib value = .ok text →
      CallStep lib d (.set path value) (d.addInsertion ⟨[], joinDocumentPath parts, parts, value⟩)
  | insert {afterPath path : Bytes} {value : GoAny} {afterParts parts : List Bytes} {idx : Nat} :
      parseDocumentPath afterPath = .ok afterParts →
      get? d.byPath (joinDocumentPath afterParts) = some idx →
      joinDocumentPath afterParts ∉ d.deletions → parseDocumentPath path = .ok parts →
      CallStep lib d (.insertAfter afterPath path value)
        (d.addInsertion ⟨joinDocumentPath afterParts, joinDocumentPath parts, parts, value⟩)
  | cancel {path : Bytes} {parts : List Bytes} :
      parseDocumentPath path = .ok parts → get? d.byPath (joinDocumentPath parts) = none →
      CallStep lib d (.delete path) { d with pending := mapDelete d.pending (joinDocumentPath parts) }
  | remove {path : Bytes} {parts : List Bytes} {idx : Nat} :
      parseDocumentPath path = .ok parts → get? d.byPath (joinDocumentPath parts) = some idx →
      CallStep lib d (.delete path) (d.deleteEntry (joinDocumentPath parts))

variable {lib : Strconv} {d d' : Document}

theorem set_cases {path : Bytes} {value : GoAny} (h : d.set lib path value = .ok d') :
    CallStep lib d (.set path value) d' := by
  unfold set at h
  cases hpath : parseDocumentPath path with
  | error e => rw [hpath] at h; cases h
  | ok parts =>
    rw [hpath] at h
    dsimp only at h
    cases hfmt : d.formatValueForPath lib (joinDocumentPath parts) value with
    | error msg => rw [hfmt] at h; cases h
    | ok repl =>
      rw [hfmt] at h
      dsimp only at h
      cases hentry : d.entryForPathKey (joinDocumentPath parts) with
      | some found =>
        obtain ⟨idx, entry⟩ := found
        rw [hentry] at h
        cases h
        exact .replace hpath hentry hfmt
      | none =>
        rw [hentry] at h
        cases h
        unfold formatValueForPath at hfmt
        rw [hentry] at hfmt
        exact .append hpath hentry hfmt

theorem insertAfter_cases {afterPath path : Bytes} {value : GoAny}
    (h : d.insertAfter afterPath path value = .ok d') :
    CallStep lib d (.insertAfter afterPath path value) d' := by
  unfold insertAfter at h
  cases hafter : parseDocumentPath afterPath with
  | error e => rw [hafter] at h; cases h
  | ok afterParts =>
    rw [hafter] at h
    dsimp only at h
    split at h
    · cases h
    rename_i hpresent
    split at h
    · cases h
    rename_i hdeleted
    cases hpath : parseDocumentPath path with
    | error e => rw [hpath] at h; cases h
    | ok parts =>
      rw [hpath] at h
      cases h
      cases hget : get? d.byPath (joinDocumentPath afterParts) with
      | none => rw [hget] at hpresent; exact absurd rfl hpresent
      | some idx => exact .insert hafter hget (by simpa using hdeleted) hpath

theorem delete_cases {path : Bytes} (h : d.delete path = .ok d') : CallStep lib d (.delete path) d' := by
  unfold delete at h
  cases hpath : parseDocumentPath path with
  | error e => rw [hpath] at h; cases h
  | ok parts =>
    rw [hpath] at h
    dsimp only at h
    cases hget : get? d.byPath (joinDocumentPath parts) with
    | none =>
      rw [hget] at h
      simp only [Option.isNone_none, if_true] at h
      split at h
      · cases h
        exact .cancel hpath hget
      · cases h
    | some idx =>
      rw [hget] at h
      cases h
      exact .remove hpath hget

theorem call_cases {c : Call} (h : d.call lib c = .ok d') : CallStep lib d c d' := by
  cases c with
  | set path value => exact set_cases h
  | insertAfter afterPath path value => exact insertAfter_cases h
  | delete path => exact delete_cases h

/-- **Induction along a run.** What holds at the start and is kept by every call that succeeds holds at
    the end. -/
theorem run_induction {P : Document → Prop} (start : P d) (step : ∀ {d d' c}, CallStep lib d c d' → P d → P d')
    (calls : List Call) : P (d.run lib calls) := by
  induction calls generalizing d with
  | nil => exact start
  | cons c calls ih =>
    refine ih ?_
    show P (d.step lib c)
    unfold Document.step
    split
    · rename_i d' hc
      exact step (call_cases hc) start
    · exact start

/-! ## What no call changes -/

/-- The entries without what was set. -/
def shape (d : Document) : List DocumentEntry := d.entries.map (fun e => { e with value := none })

structure Based (d₀ d : Document) : Prop where
  raw : d.raw = d₀.raw
  byPath : d.byPath = d₀.byPath
  shape : d.shape = d₀.shape

theorem Based.refl (d : Document) : Based d d := ⟨rfl, rfl, rfl⟩

theorem Based.trans {d₀ : Document} (h : Based d₀ d) (h' : Based d d') : Based d₀ d' :=
  ⟨h'.raw.trans h.raw, h'.byPath.trans h.byPath, h'.shape.trans h.shape⟩

theorem shape_replaceEntry (d : Document) (idx : Nat) (k : Bytes) (value : GoAny) (repl : Bytes) :
    (d.replaceEntry idx k value repl).shape = d.shape := by
  unfold shape
  rw [← List.filterMap_eq_map]
  refine filterMap_modify ?_ d.entries idx
  intro e
  rfl

theorem CallStep.based {c : Call} (h : CallStep lib d c d') : Based d d' := by
  cases h with
  | replace => exact ⟨rfl, rfl, shape_replaceEntry ..⟩
  | append | insert | cancel | remove => exact ⟨rfl, rfl, rfl⟩

theorem run_based (lib : Strconv) (d : Document) (calls : List Call) : Based d (d.run lib calls) :=
  run_induction (P := Based d) (Based.refl d) (fun hstep h => h.trans hstep.based) calls

theorem step_based (lib : Strconv) (d : Document) (c : Call) : Based d (d.step lib c) :=
  run_based lib d [c]

/-- The entry of a path stays the entry of the path. -/
theorem Based.entryForPathKey {d₀ : Document} (h : Based d₀ d) (k : Bytes) :
    (d.entryForPathKey k).map (fun e => (e.1, { e.2 with value := none })) =
      (d₀.entryForPathKey k).map (fun e => (e.1, { e.2 with value := none })) := by
  have hget : ∀ idx : Nat, (d.entries[idx]?).map (fun e => { e with value := none }) =
      (d₀.entries[idx]?).map (fun e => { e with value := none }) := by
    intro idx
    rw [← List.getElem?_map, ← List.getElem?_map]
    exact congrArg (·[idx]?) h.shape
  unfold Document.entryForPathKey
  rw [h.byPath]
  cases get? d₀.byPath k with
  | none => rfl
  | some idx =>
    dsimp only
    rw [Option.map_map, Option.map_map]
    have := congrArg (Option.map (fun e => (idx, e))) (hget idx)
    rw [Option.map_map, Option.map_map] at this
    exact this

/-- Whatever holds of the place of every entry still does. -/
theorem Based.forall_entries {d₀ : Document} (h : Based d₀ d) {P : DocumentEntry → Prop}
    (hP : ∀ e, P { e with value := none } ↔ P e) (h₀ : ∀ e ∈ d₀.entries, P e) : ∀ e ∈ d.entries, P e := by
  intro e he
  have hmem : { e with value := none } ∈ d.shape := List.mem_map_of_mem he
  rw [h.shape] at hmem
  obtain ⟨e₀, he₀, heq⟩ := List.mem_map.mp hmem
  rw [← hP, ← heq, hP]
  exact h₀ e₀ he₀

end Pandaemonium.Toml.Document
