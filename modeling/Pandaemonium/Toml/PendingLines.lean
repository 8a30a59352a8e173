import Pandaemonium.Toml.EditRun

/-!
# `Toml.PendingLines` — the lines of new paths

A path that the parsed document does not have gets its line from the list of insertions, which only ever
grows, while its value is in the map `pending`, which `delete` takes it out of. `bytes` writes a line for
every insertion whose path is pending. So a path that is inserted a second time has two lines from then
on, also after it was deleted in between. `pending_line_once` is what remains: in a run where no path is
inserted twice (`Admissible`), a path has one line while it is wanted and none otherwise, in a text that is
the parsed one with the applied edits and nothing else (`Written`).
-/

namespace Pandaemonium.Toml.Document

open List
open SortedMap (get?)

/-! ## Lines -/

/-- The insertions that make an edit, each with its edit. -/
def lines (lib : Strconv) (d : Document) : List (DocumentInsertion × Splice.Op UInt8) :=
  (d.insertions.filter (fun ins => (d.insertionOp lib ins).isSome)).zip (d.insertionOps lib)

/-- The edits that `bytes` applies. -/
def appliedOps (lib : Strconv) (d : Document) : List (Splice.Op UInt8) :=
  Splice.applied d.raw.length 0 (sortOps (d.ops lib))

/-- **How many lines of a path `bytes` writes.** -/
def emitted (lib : Strconv) (d : Document) (pathKey : Bytes) : Nat :=
  (d.lines lib).countP (fun line => line.1.pathKey = pathKey ∧ line.2 ∈ d.appliedOps lib)

/-- A line is the canonical line of its path with the value that is pending, at the end of the document
    on a line of its own. -/
def IsCanonical (lib : Strconv) (d : Document) (line : DocumentInsertion × Splice.Op UInt8) : Prop :=
  ∃ value text, get? d.pending line.1.pathKey = some value ∧
    formatDocumentKeyValue lib line.1.path value = .ok text ∧
    line.2.text = (if line.1.afterPath = [] then lineBreakBefore d.raw else []) ++ text

/-- **What `bytes` writes**: the text with exactly the applied edits, one after the other, and every line
    canonical. -/
structure Written (lib : Strconv) (d : Document) : Prop where
  chain : Splice.Chain d.raw.length 0 (d.appliedOps lib)
  bytes : d.bytes lib = Splice.splice d.raw 0 (d.appliedOps lib)
  lines : ∀ line ∈ d.lines lib, IsCanonical lib d line

/-! ## What is asked for -/

/-- Whether a path is wanted after a call, given whether it was before: the last call about it that
    succeeds decides. -/
def wantedAfter (lib : Strconv) (d : Document) (pathKey : Bytes) (was : Bool) (c : Call) : Bool :=
  match d.call lib c, parseDocumentPath c.path with
  | .ok _, .ok parts =>
    if joinDocumentPath parts = pathKey then
      match c with
      | .set .. => true
      | .insertAfter .. => true
      | .delete _ => false
    else was
  | _, _ => was

/-- **Whether a path is wanted after a run**: it was set or inserted and not deleted since. -/
def wanted (lib : Strconv) (pathKey : Bytes) : Document → Bool → List Call → Bool
  | _, was, [] => was
  | d, was, c :: calls => wanted lib pathKey (d.step lib c) (d.wantedAfter lib pathKey was c) calls

/-! ## Runs where no path is inserted twice -/

/-- No span of an entry reaches over `pos`. -/
def Outside (d : Document) (pos : Nat) : Prop :=
  ∀ e ∈ d.entries, ¬ (e.valueSpan.1 < pos ∧ pos < e.valueSpan.2) ∧
    ¬ (e.lineSpan.1 < pos ∧ pos < e.lineSpan.2)

/-- A new path is not in the list of insertions yet. -/
def NotInserted (d : Document) (pathKey : Bytes) : Prop :=
  ∀ ins ∈ d.insertions, ins.pathKey ≠ pathKey

/-- The condition on a call in the state before it. A new path may be set or inserted only if it has not
    been inserted before; a value that is inserted has a text, and the line of its anchor ends within no
    other entry. -/
def CallOk (lib : Strconv) (d : Document) : Call → Prop
  | .set path _ => ∀ parts, parseDocumentPath path = .ok parts →
      get? d.byPath (joinDocumentPath parts) = none → d.NotInserted (joinDocumentPath parts)
  | .insertAfter afterPath path value => ∀ afterParts parts,
      parseDocumentPath afterPath = .ok afterParts → parseDocumentPath path = .ok parts →
      get? d.byPath (joinDocumentPath parts) = none →
      d.NotInserted (joinDocumentPath parts) ∧ (formatDocumentValue lib value).isOk = true ∧
        ∀ idx entry, d.entryForPathKey (joinDocumentPath afterParts) = some (idx, entry) →
          d.Outside entry.lineSpan.2
  | .delete _ => True

/-- Every call of the run meets the condition. -/
def Admissible (lib : Strconv) : Document → List Call → Prop
  | _, [] => True
  | d, c :: calls => d.CallOk lib c ∧ Admissible lib (d.step lib c) calls

/-! ## The invariant of a run -/

/-- The insertions of one path. -/
def insertionsOf (d : Document) (pathKey : Bytes) : List DocumentInsertion :=
  d.insertions.filter (fun ins => ins.pathKey = pathKey)

/-- An insertion at the end, or behind an anchor whose line ends within no other entry. -/
def Placed (d : Document) (ins : DocumentInsertion) : Prop :=
  ins.afterPath = [] ∨
    ∃ idx entry, d.entryForPathKey ins.afterPath = some (idx, entry) ∧ d.Outside entry.lineSpan.2

/-- **A new path is inserted at most once, and while it is pending it has a line to be written.** -/
structure LineNoted (lib : Strconv) (d₀ d : Document) (pathKey : Bytes) : Prop where
  once : (d.insertionsOf pathKey).length ≤ 1
  recorded : ∀ value, get? d.pending pathKey = some value →
    ∃ ins, d.insertionsOf pathKey = [ins] ∧
      (formatDocumentKeyValue lib ins.path value).isOk = true ∧ d₀.Placed ins

section

variable {lib : Strconv} {d₀ d d' : Document} {pathKey : Bytes} {off : Nat}

theorem formatDocumentKeyValue_isOk (path : List Bytes) (value : GoAny) :
    (formatDocumentKeyValue lib path value).isOk = (formatDocumentValue lib value).isOk := by
  unfold formatDocumentKeyValue
  cases formatDocumentValue lib value with
  | error e | ok text => rfl

theorem insertionsOf_eq_nil (h : d.NotInserted pathKey) : d.insertionsOf pathKey = [] := by
  refine filter_eq_nil_iff.mpr ?_
  intro ins hins
  simpa using h ins hins

theorem insertionsOf_addInsertion (ins : DocumentInsertion) :
    (d.addInsertion ins).insertionsOf pathKey =
      d.insertionsOf pathKey ++ if ins.pathKey = pathKey then [ins] else [] := by
  show (d.insertions ++ [ins]).filter _ = _
  rw [filter_append, insertionsOf]
  congr 1
  by_cases h : ins.pathKey = pathKey
  all_goals simp [h]

/-- An insertion of another path changes nothing. -/
theorem LineNoted.addOther (h : LineNoted lib d₀ d pathKey) {ins : DocumentInsertion}
    (hk : ins.pathKey ≠ pathKey) : LineNoted lib d₀ (d.addInsertion ins) pathKey := by
  have hins : (d.addInsertion ins).insertionsOf pathKey = d.insertionsOf pathKey := by
    rw [insertionsOf_addInsertion, if_neg hk, append_nil]
  have hpending : get? (d.addInsertion ins).pending pathKey = get? d.pending pathKey :=
    get?_mapPut_ne (Ne.symm hk)
  refine ⟨by rw [hins]; exact h.once, ?_⟩
  intro value hvalue
  rw [hins]
  exact h.recorded value (hpending ▸ hvalue)

/-- The first insertion of a path. -/
theorem LineNoted.addFirst {ins : DocumentInsertion} (hnew : d.NotInserted ins.pathKey)
    (hfmt : (formatDocumentValue lib ins.value).isOk = true) (hplaced : d₀.Placed ins) :
    LineNoted lib d₀ (d.addInsertion ins) ins.pathKey := by
  have hins : (d.addInsertion ins).insertionsOf ins.pathKey = [ins] := by
    rw [insertionsOf_addInsertion, if_pos rfl, insertionsOf_eq_nil hnew, nil_append]
  refine ⟨by rw [hins]; exact Nat.le_refl 1, ?_⟩
  intro value hvalue
  have hput : get? (d.addInsertion ins).pending ins.pathKey = some ins.value := get?_mapPut_self
  rw [hput] at hvalue
  cases hvalue
  exact ⟨ins, hins, by rw [formatDocumentKeyValue_isOk]; exact hfmt, hplaced⟩

/-- The path is not pending, or what is pending is as it was. -/
theorem LineNoted.of_pending (h : LineNoted lib d₀ d pathKey) (hins : d'.insertions = d.insertions)
    (hpending : get? d'.pending pathKey = get? d.pending pathKey ∨ get? d'.pending pathKey = none) :
    LineNoted lib d₀ d' pathKey := by
  have hins' : d'.insertionsOf pathKey = d.insertionsOf pathKey := by
    unfold insertionsOf; rw [hins]
  refine ⟨by rw [hins']; exact h.once, ?_⟩
  intro value hvalue
  rw [hins']
  rcases hpending with hsame | hnone
  · exact h.recorded value (hsame ▸ hvalue)
  · rw [hnone] at hvalue; cases hvalue

/-- An anchor that is present has an entry. -/
theorem Noted.entry (hn : Noted d₀ off) {k : Bytes} {idx : Nat} (h : get? d₀.byPath k = some idx) :
    ∃ entry, d₀.entryForPathKey k = some (idx, entry) := by
  obtain ⟨⟨entry, hentry, -⟩, -⟩ := hn.byPath k idx h
  exact ⟨entry, by unfold entryForPathKey; rw [h]; dsimp only; rw [hentry]; rfl⟩

theorem Outside.of_based (hbased : Based d₀ d) {pos : Nat} (h : d₀.Outside pos) : d.Outside pos :=
  hbased.forall_entries (fun _ => Iff.rfl) h

theorem Based.symm (h : Based d₀ d) : Based d d₀ :=
  ⟨h.raw.symm, h.byPath.symm, h.shape.symm⟩

/-- The place of an entry is the same in both documents. -/
theorem Based.entry (h : Based d₀ d) {k : Bytes} {idx : Nat} {entry : DocumentEntry}
    (hentry : d₀.entryForPathKey k = some (idx, entry)) :
    ∃ e, d.entryForPathKey k = some (idx, e) ∧ e.lineSpan = entry.lineSpan := by
  have hmap := h.entryForPathKey k
  rw [hentry] at hmap
  obtain ⟨⟨i, e⟩, he, heq⟩ := Option.map_eq_some_iff.mp hmap
  injection heq with hi he'
  cases hi
  injection he' with _ _ _ _ hline _
  exact ⟨e, he, hline⟩

/-- **One call.** -/
theorem CallStep.lineNoted {c : Call} (hstep : CallStep lib d c d') (hn : Noted d₀ off)
    (hbased : Based d₀ d) (hnew : get? d₀.byPath pathKey = none) (hok : d.CallOk lib c)
    (h : LineNoted lib d₀ d pathKey) : LineNoted lib d₀ d' pathKey := by
  have hnew' : get? d.byPath pathKey = none := hbased.byPath ▸ hnew
  cases hstep with
  | @replace path repl value parts idx entry hpath hentry hfmt =>
    -- the path is present, so it is not the new one
    have hk : pathKey ≠ joinDocumentPath parts := by
      rintro rfl
      unfold Document.entryForPathKey at hentry
      rw [hnew'] at hentry
      cases hentry
    exact h.of_pending rfl (.inl (get?_mapDelete_ne hk))
  | @append path text value parts hpath hentry hfmt =>
    by_cases hk : joinDocumentPath parts = pathKey
    · subst hk
      refine @LineNoted.addFirst lib d₀ d ⟨[], joinDocumentPath parts, parts, value⟩
        (hok parts hpath hnew') ?_ (.inl rfl)
      show (formatDocumentValue lib value).isOk = true
      rw [hfmt]
      rfl
    · exact h.addOther hk
  | @insert afterPath path value afterParts parts idx hafter hpresent _ hpath =>
    by_cases hk : joinDocumentPath parts = pathKey
    · subst hk
      obtain ⟨hfirst, hfmt, hout⟩ := hok afterParts parts hafter hpath hnew'
      obtain ⟨entry, hentry⟩ := hn.entry (hbased.byPath ▸ hpresent)
      obtain ⟨e, he, hline⟩ := hbased.entry hentry
      refine @LineNoted.addFirst lib d₀ d
        ⟨joinDocumentPath afterParts, joinDocumentPath parts, parts, value⟩ hfirst hfmt
        (.inr ⟨idx, entry, hentry, ?_⟩)
      rw [← hline]
      exact (hout idx e he).of_based hbased.symm
    · exact h.addOther hk
  | @cancel path parts hpath _ =>
    by_cases hk : joinDocumentPath parts = pathKey
    · subst hk
      exact h.of_pending rfl (.inr get?_mapDelete_self)
    · exact h.of_pending rfl (.inl (get?_mapDelete_ne (Ne.symm hk)))
  | remove _ _ => exact h.of_pending rfl (.inl rfl)

end

variable {lib : Strconv} {pathKey : Bytes} {d : Document}

/-- **A new path is pending exactly while it is wanted**: one call. -/
theorem wantedAfter_eq {c : Call} (hnew : get? d.byPath pathKey = none) :
    d.wantedAfter lib pathKey (get? d.pending pathKey).isSome c =
      (get? (d.step lib c).pending pathKey).isSome := by
  unfold wantedAfter step
  cases hcall : d.call lib c with
  | error e => rfl
  | ok d' =>
    cases call_cases hcall with
    | @replace path repl value parts idx entry hpath hentry _ =>
      have hk : pathKey ≠ joinDocumentPath parts := by
        rintro rfl
        unfold Document.entryForPathKey at hentry
        rw [hnew] at hentry
        cases hentry
      simp only [Call.path, hpath, if_neg (Ne.symm hk)]
      exact congrArg Option.isSome (get?_mapDelete_ne hk).symm
    | @append path text value parts hpath _ _
    | @insert afterPath path value afterParts parts idx _ _ _ hpath =>
      simp only [Call.path, hpath]
      by_cases hk : joinDocumentPath parts = pathKey
      · subst hk
        rw [if_pos rfl]
        exact (congrArg Option.isSome get?_mapPut_self).symm
      · rw [if_neg hk]
        exact congrArg Option.isSome (get?_mapPut_ne (Ne.symm hk)).symm
    | @cancel path parts hpath _ =>
      simp only [Call.path, hpath]
      by_cases hk : joinDocumentPath parts = pathKey
      · subst hk
        rw [if_pos rfl]
        exact (congrArg Option.isSome get?_mapDelete_self).symm
      · rw [if_neg hk]
        exact congrArg Option.isSome (get?_mapDelete_ne (Ne.symm hk)).symm
    | @remove path parts idx hpath hpresent =>
      have hk : joinDocumentPath parts ≠ pathKey := by
        rintro rfl
        rw [hnew] at hpresent
        cases hpresent
      simp only [Call.path, hpath, if_neg hk]
      rfl

theorem wanted_eq (calls : List Call) (hnew : get? d.byPath pathKey = none) :
    wanted lib pathKey d (get? d.pending pathKey).isSome calls =
      (get? (d.run lib calls).pending pathKey).isSome := by
  induction calls generalizing d with
  | nil => rfl
  | cons c calls ih =>
    have hnew' : get? (d.step lib c).byPath pathKey = none := by
      rw [(step_based lib d c).byPath]
      exact hnew
    rw [wanted, wantedAfter_eq hnew, ih hnew']
    rfl

theorem run_lineNoted {d₀ : Document} {off : Nat}
    (hn : Noted d₀ off) (hnew : get? d₀.byPath pathKey = none) (calls : List Call)
    (hbased : Based d₀ d) (hok : Admissible lib d calls) (h : LineNoted lib d₀ d pathKey) :
    LineNoted lib d₀ (d.run lib calls) pathKey := by
  induction calls generalizing d with
  | nil => exact h
  | cons c calls ih =>
    obtain ⟨hc, hrest⟩ := hok
    refine ih (hbased.trans (step_based lib d c)) hrest ?_
    unfold step
    split
    · rename_i d' hcall
      exact (call_cases hcall).lineNoted hn hbased hnew hc h
    · exact h

/-! ## From the invariant to the text -/

instance : Std.Total opLE where
  total a b := by unfold opLE; split_ifs <;> omega

instance : IsTrans (Splice.Op UInt8) opLE where
  trans a b c := by unfold opLE; split_ifs <;> omega

theorem mem_numbered {n : Nat} {edits : List (Nat × Nat × Bytes)} {op : Splice.Op UInt8}
    (h : op ∈ numbered n edits) : (op.start, op.stop, op.text) ∈ edits := by
  induction edits generalizing n with
  | nil => cases h
  | cons e edits ih =>
    rcases mem_cons.mp h with rfl | h
    · exact mem_cons_self
    · exact mem_cons_of_mem _ (ih h)

/-- Each insertion stands beside its own edit. -/
theorem zip_numbered {α : Type} (f : α → Option (Nat × Nat × Bytes)) (xs : List α) (n : Nat) :
    ((xs.filter (fun x => (f x).isSome)).zip (numbered n (xs.filterMap f))).map Prod.fst =
        xs.filter (fun x => (f x).isSome) ∧
      ∀ p ∈ (xs.filter (fun x => (f x).isSome)).zip (numbered n (xs.filterMap f)),
        f p.1 = some (p.2.start, p.2.stop, p.2.text) ∧ p.2 ∈ numbered n (xs.filterMap f) := by
  induction xs generalizing n with
  | nil => exact ⟨rfl, fun p hp => (by cases hp)⟩
  | cons x xs ih =>
    cases hx : f x with
    | none =>
      rw [filter_cons_of_neg (by simp [hx]), filterMap_cons_none hx]
      exact ih n
    | some edit =>
      rw [filter_cons_of_pos (by simp [hx]), filterMap_cons_some hx]
      obtain ⟨hfst, hmem⟩ := ih (n + 1)
      refine ⟨by simp only [numbered, zip_cons_cons, map_cons, hfst], ?_⟩
      intro p hp
      rcases mem_cons.mp hp with rfl | hp
      · exact ⟨hx, mem_cons_self⟩
      · exact ⟨(hmem p hp).1, mem_cons_of_mem _ (hmem p hp).2⟩

variable {edit : Nat × Nat × Bytes}

section

variable {lib : Strconv} {d₀ d : Document} {off : Nat} {ins : DocumentInsertion}
  {op : Splice.Op UInt8}

/-- The edit of an entry takes its value span or its line span. -/
theorem entryOp_span {e : DocumentEntry} (h : d.entryOp e = some edit) :
    (edit.1, edit.2.1) = e.lineSpan ∨ (edit.1, edit.2.1) = e.valueSpan := by
  unfold entryOp at h
  split at h
  · cases h; exact .inl rfl
  split at h
  · cases h; exact .inr rfl
  · cases h

theorem insertionOp_empty (h : d.insertionOp lib ins = some edit) : edit.1 = edit.2.1 := by
  unfold insertionOp at h
  split at h
  · cases h
  split at h
  · cases h
  split at h
  · cases h; rfl
  split at h
  · cases h
  · cases h; rfl

/-- An edit that begins before a place no entry reaches over also ends before it. -/
theorem op_stop_le {pos : Nat} (hout : d.Outside pos) (hmem : op ∈ d.ops lib) (hlt : op.start < pos) :
    op.stop ≤ pos := by
  rcases mem_append.mp hmem with hentry | hins
  · obtain ⟨e, he, hop⟩ := mem_filterMap.mp (mem_numbered hentry)
    obtain ⟨hvalue, hline⟩ := hout e he
    rcases entryOp_span hop with hspan | hspan
    · have hspan : (op.start, op.stop) = e.lineSpan := hspan
      rw [← hspan] at hline
      exact Nat.le_of_not_lt (fun hgt => hline ⟨hlt, hgt⟩)
    · have hspan : (op.start, op.stop) = e.valueSpan := hspan
      rw [← hspan] at hvalue
      exact Nat.le_of_not_lt (fun hgt => hvalue ⟨hlt, hgt⟩)
  · obtain ⟨i, -, hop⟩ := mem_filterMap.mp (mem_numbered hins)
    have hempty := insertionOp_empty hop
    have hempty : op.start = op.stop := hempty
    omega

/-- **An insertion at a place no entry reaches over is applied.** -/
theorem mem_appliedOps {pos : Nat} (hout : d.Outside pos) (hpos : pos ≤ d.raw.length) (hmem : op ∈ d.ops lib)
    (hstart : op.start = pos) (hstop : op.stop = pos) : op ∈ d.appliedOps lib := by
  have hsorted := pairwise_insertionSort opLE (d.ops lib)
  refine Splice.mem_applied_of_outside ((mem_insertionSort opLE).mpr hmem) (by omega) (by omega)
    (Nat.zero_le _) ?_
  intro l r hsplit o ho
  have hmem' : o ∈ d.ops lib := by
    refine (mem_insertionSort opLE).mp ?_
    show o ∈ sortOps (d.ops lib)
    rw [hsplit]
    exact mem_append_left _ ho
  have hle : opLE o op := by
    change (sortOps (d.ops lib)).Pairwise opLE at hsorted
    rw [hsplit] at hsorted
    exact (pairwise_append.mp hsorted).2.2 o ho op mem_cons_self
  by_cases hlt : o.start < pos
  · rw [hstart]
    exact op_stop_le hout hmem' hlt
  · unfold opLE at hle
    split_ifs at hle <;> omega

/-- Where an insertion goes: a place no entry reaches over. -/
theorem insertionOp_placed (hn : Noted d₀ off) (hbased : Based d₀ d) (hplaced : d₀.Placed ins)
    (hop : d.insertionOp lib ins = some edit) :
    edit.1 = edit.2.1 ∧ edit.1 ≤ d.raw.length ∧ d.Outside edit.1 := by
  refine ⟨insertionOp_empty hop, ?_⟩
  have hend : d.Outside d.raw.length := by
    rw [hbased.raw]
    refine Outside.of_based hbased ?_
    intro e he
    have hwithin := hn.within e he
    have hline := hwithin.bounded
    have hvalue := hwithin.lineHigh
    omega
  unfold insertionOp at hop
  split at hop
  · cases hop
  split at hop
  · cases hop
  split at hop
  · cases hop
    exact ⟨Nat.le_refl _, hend⟩
  rename_i hafter
  split at hop
  · cases hop
  rename_i idx e he
  cases hop
  rcases hplaced with hnil | ⟨i, entry, hentry, hout⟩
  · exact absurd hnil hafter
  obtain ⟨e', he', hline⟩ := hbased.entry hentry
  rw [he] at he'
  cases he'
  have hbound := (hn.within entry (mem_of_getElem? (entryForPathKey_some hentry).2)).bounded
  refine ⟨?_, ?_⟩
  · show e.lineSpan.2 ≤ d.raw.length
    rw [hline, hbased.raw]
    exact hbound
  · show d.Outside e.lineSpan.2
    rw [hline]
    exact hout.of_based hbased

end

theorem line_text {line : DocumentInsertion × Splice.Op UInt8}
    (h : line ∈ d.lines lib) : IsCanonical lib d line := by
  have hop := ((zip_numbered (d.insertionOp lib) d.insertions _).2 line h).1
  unfold insertionOp at hop
  split at hop
  · cases hop
  rename_i value hvalue
  split at hop
  · cases hop
  rename_i text htext
  refine ⟨value, text, hvalue, htext, ?_⟩
  split at hop
  · rename_i hafter
    rw [if_pos hafter]
    injection hop with hop
    injection hop with _ hop
    injection hop with _ hop
    exact hop.symm
  · rename_i hafter
    rw [if_neg hafter]
    split at hop
    · cases hop
    injection hop with hop
    injection hop with _ hop
    injection hop with _ hop
    exact hop.symm

theorem written (lib : Strconv) (d : Document) : Written lib d := by
  refine ⟨Splice.chain_applied .., ?_, fun line h => line_text h⟩
  rw [appliedOps, Splice.splice_applied, bytes]
  split
  · -- no edit was noted
    rename_i hnone
    simp only [Bool.and_eq_true, List.isEmpty_iff] at hnone
    obtain ⟨⟨hrepl, hdel⟩, hins⟩ := hnone
    have hop : d.entryOp = fun _ => none := by
      funext e
      unfold entryOp
      rw [hrepl, hdel]
      rfl
    rw [ops, entryOps, hop, filterMap_none, insertionOps, hins]
    rfl
  · rfl

/-- Where every line of the path is applied, the lines written are the insertions that make an edit. -/
theorem emitted_eq (h : ∀ line ∈ d.lines lib, line.1.pathKey = pathKey → line.2 ∈ d.appliedOps lib) :
    d.emitted lib pathKey =
      (d.insertionsOf pathKey).countP (fun ins => (d.insertionOp lib ins).isSome) := by
  have hfst := (zip_numbered (d.insertionOp lib) d.insertions d.entryOps.length).1
  calc d.emitted lib pathKey
      = (d.lines lib).countP (fun line => line.1.pathKey = pathKey) := by
        refine countP_congr ?_
        intro line hline
        simp only [decide_eq_true_eq]
        exact ⟨fun h => h.1, fun hk => ⟨hk, h line hline hk⟩⟩
    _ = ((d.lines lib).map Prod.fst).countP (fun ins => ins.pathKey = pathKey) := by
        rw [countP_map]; rfl
    _ = (d.insertions.filter (fun ins => (d.insertionOp lib ins).isSome)).countP
          (fun ins => ins.pathKey = pathKey) := by
        rw [← hfst]; rfl
    _ = (d.insertionsOf pathKey).countP (fun ins => (d.insertionOp lib ins).isSome) := by
        rw [insertionsOf, countP_filter, countP_filter]
        refine countP_congr ?_
        intro ins _
        simp only [Bool.and_eq_true, and_comm]

/-- A path that is not pending has no line. -/
theorem emitted_of_not_pending (h : get? d.pending pathKey = none) : d.emitted lib pathKey = 0 := by
  refine countP_eq_zero.mpr ?_
  intro line hline
  obtain ⟨value, _, hvalue, -⟩ := line_text hline
  simp only [decide_eq_true_eq, not_and]
  rintro rfl
  rw [h] at hvalue
  cases hvalue

/-- A path that is pending has one line. -/
theorem emitted_of_pending {d₀ : Document} {off : Nat}
    {value : GoAny} (hn : Noted d₀ off) (hbased : Based d₀ d) (h : LineNoted lib d₀ d pathKey)
    (hvalue : get? d.pending pathKey = some value) : d.emitted lib pathKey = 1 := by
  obtain ⟨ins, hins, hfmt, hplaced⟩ := h.recorded value hvalue
  have hmem : ins ∈ d.insertionsOf pathKey := by rw [hins]; exact mem_singleton_self ins
  have hkey : ins.pathKey = pathKey := by simpa using (mem_filter.mp hmem).2
  have happlied : ∀ line ∈ d.lines lib, line.1.pathKey = pathKey → line.2 ∈ d.appliedOps lib := by
    intro line hline hk
    obtain ⟨hop, hop'⟩ := (zip_numbered (d.insertionOp lib) d.insertions _).2 line hline
    have hline' : line.1 ∈ d.insertionsOf pathKey := by
      refine mem_filter.mpr ⟨?_, decide_eq_true hk⟩
      exact (mem_filter.mp (of_mem_zip hline).1).1
    rw [hins, mem_singleton] at hline'
    rw [hline'] at hop
    obtain ⟨hempty, hlen, hout⟩ := insertionOp_placed hn hbased hplaced hop
    exact mem_appliedOps hout hlen (mem_append_right _ hop') rfl hempty.symm
  have hsome : (d.insertionOp lib ins).isSome = true := by
    unfold insertionOp
    rw [hkey, hvalue]
    dsimp only
    cases htext : formatDocumentKeyValue lib ins.path value with
    | error e => rw [htext] at hfmt; cases hfmt
    | ok text =>
      dsimp only
      split
      · rfl
      rename_i hafter
      rcases hplaced with hnil | ⟨idx, entry, hentry, -⟩
      · exact absurd hnil hafter
      obtain ⟨e, he, -⟩ := hbased.entry hentry
      rw [he]
      rfl
  rw [emitted_eq happlied, hins]
  simp [hsome]

/-- **One line while a path is wanted, none otherwise**: in every run from a parsed document whose calls
    all meet the condition, for every path that the document does not have. What is written is the text of
    the parsed document with the applied edits, the lines among them. -/
theorem pending_line_once (lib : Strconv) (data : Bytes) (d₀ : Document)
    (hparse : parse data = .ok d₀) (calls : List Call) (hok : Admissible lib d₀ calls)
    (pathKey : Bytes) (hnew : get? d₀.byPath pathKey = none) :
    ((d₀.run lib calls).raw = data ∧ Written lib (d₀.run lib calls)) ∧
      (d₀.run lib calls).emitted lib pathKey =
        if wanted lib pathKey d₀ false calls then 1 else 0 := by
  obtain ⟨hraw, hn⟩ := parse_noted hparse
  refine ⟨⟨(run_based lib d₀ calls).raw.trans hraw, written lib _⟩, ?_⟩
  have hstart : LineNoted lib d₀ d₀ pathKey := by
    have hnone : d₀.insertionsOf pathKey = [] := by
      rw [insertionsOf, hn.insertions]; rfl
    refine ⟨by rw [hnone]; exact Nat.zero_le 1, ?_⟩
    intro value hvalue
    rw [hn.pending] at hvalue
    cases hvalue
  have hnoted := run_lineNoted hn hnew calls (Based.refl d₀) hok hstart
  have hwanted := @wanted_eq lib pathKey d₀ calls hnew
  rw [hn.pending] at hwanted
  change wanted lib pathKey d₀ false calls = _ at hwanted
  rw [hwanted]
  cases hvalue : get? (d₀.run lib calls).pending pathKey with
  | none => exact emitted_of_not_pending hvalue
  | some value => exact emitted_of_pending hn (run_based lib d₀ calls) hnoted hvalue

/-- `a = 1`, parsed. -/
def oneKey : Document :=
  { empty (ascii "a = 1\n") with
    entries := [⟨ascii "a", none, ascii "1", (4, 5), (0, 6), .integer⟩]
    byPath := [(ascii "a", 0)] }

/-- A line behind its anchor and another at the end. -/
theorem pending_line_once_inserted :
    parse (ascii "a = 1\n") = .ok oneKey ∧
      (oneKey.run Strconv.plain [.insertAfter (ascii "a") (ascii "b") (.val (.int 2)),
        .set (ascii "c") (.val (.bool true))]).emitted Strconv.plain (ascii "b") = 1 ∧
      (oneKey.run Strconv.plain [.insertAfter (ascii "a") (ascii "b") (.val (.int 2)),
        .set (ascii "c") (.val (.bool true))]).bytes Strconv.plain = ascii "a = 1\nb = 2\nc = true\n" := by
  refine ⟨by decide +kernel, ?_, by decide +kernel⟩
  refine (pending_line_once Strconv.plain (ascii "a = 1\n") oneKey (by decide +kernel)
    [.insertAfter (ascii "a") (ascii "b") (.val (.int 2)), .set (ascii "c") (.val (.bool true))]
    ⟨?_, ?_, trivial⟩ (ascii "b") (by decide +kernel)).2.trans (by decide +kernel)
  · intro afterParts parts _ _ _
    refine ⟨fun ins hins => (by cases hins), rfl, ?_⟩
    intro idx entry hentry e he
    have hentry := mem_of_getElem? (entryForPathKey_some hentry).2
    change entry ∈ [_] at hentry
    change e ∈ [_] at he
    rw [mem_singleton] at he hentry
    subst he hentry
    decide
  · intro parts hparts _
    have hc : parseDocumentPath (ascii "c") = .ok [ascii "c"] := by decide +kernel
    rw [hc] at hparts
    cases hparts
    unfold NotInserted
    decide +kernel

/-- **A path that is set twice has two lines.** -/
theorem two_lines_after_second_set :
    parse [] = .ok (empty []) ∧
      wanted Strconv.plain (ascii "a") (empty []) false
        [.set (ascii "a") (.val (.int 1)), .set (ascii "a") (.val (.int 2))] = true ∧
      ((empty []).run Strconv.plain
        [.set (ascii "a") (.val (.int 1)), .set (ascii "a") (.val (.int 2))]).emitted Strconv.plain
          (ascii "a") = 2 ∧
      ((empty []).run Strconv.plain
        [.set (ascii "a") (.val (.int 1)), .set (ascii "a") (.val (.int 2))]).bytes Strconv.plain =
          ascii "a = 2\na = 2\n" := by
  refine ⟨?_, ?_, ?_, ?_⟩ <;> decide +kernel

end Pandaemonium.Toml.Document
