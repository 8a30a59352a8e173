import Mathlib

/-!
# `Lib.Machine` — transition systems with an executable step

A machine is a state to begin in and a step function: `step s a` is the state after action `a`, `none`
where `a` cannot be taken in `s`. A system of threads is such a machine with one action for each atomic
step of each thread; a run is then one interleaving, and a list of actions names it.

* `invariant` — what holds at first and is kept by every step holds after every run;
* `admits_invariant` — the same where the steps are only known to meet a condition `ok` on the state
  before them (`Admits`): the rule for systems that keep their invariant under a discipline of use;
* `bounded_invariant` — the same up to a bound on a size that no step lowers;
* `history_invariant` — the same for statements about a state and the run that led to it.

Threads, channels and records of a system are numbered by their position in a list; `AllAt` is what
the invariants say of such a list, with one lemma for an update in place and one for a new entry.
-/

namespace Pandaemonium

open List

structure Machine (σ α : Type) where
  init : σ
  step : σ → α → Option σ

namespace Machine

variable {σ α : Type} (M : Machine σ α)

/-- The state after the actions `as`, taken from `s` in order. -/
def runFrom : σ → List α → Option σ
  | s, [] => some s
  | s, a :: as =>
    match M.step s a with
    | some s' => runFrom s' as
    | none => none

/-- The state after `as` from the beginning. -/
def run (as : List α) : Option σ := M.runFrom M.init as

/-- Every action of `as`, taken from `s` in order, meets `ok` in the state it is taken in. -/
def Admits (ok : σ → α → Prop) : σ → List α → Prop
  | _, [] => True
  | s, a :: as => ok s a ∧ ∀ s', M.step s a = some s' → Admits ok s' as

/-- Whether a run is admitted can be computed by taking it. -/
instance Admits.decidable (ok : σ → α → Prop) [∀ s a, Decidable (ok s a)] :
    ∀ s as, Decidable (M.Admits ok s as)
  | _, [] => isTrue trivial
  | s, a :: as =>
    match hs : M.step s a with
    | none => decidable_of_iff (ok s a)
        ⟨fun h => ⟨h, fun _ hs' => nomatch hs.symm.trans hs'⟩, fun h => h.1⟩
    | some s₁ =>
      have := Admits.decidable ok s₁ as
      decidable_of_iff (ok s a ∧ M.Admits ok s₁ as)
        ⟨fun h => ⟨h.1, fun _ hs' => Option.some.inj (hs.symm.trans hs') ▸ h.2⟩,
          fun h => ⟨h.1, h.2 s₁ hs⟩⟩

variable {M} {s s' : σ} {a : α} {as bs : List α} {ok : σ → α → Prop} {I : σ → Prop}

theorem runFrom_cons (h : M.step s a = some s') : M.runFrom s (a :: as) = M.runFrom s' as := by
  rw [runFrom, h]

/-- A run that goes through takes its first step. -/
theorem runFrom_cons_inv (h : M.runFrom s (a :: as) = some s') :
    ∃ s₁, M.step s a = some s₁ ∧ M.runFrom s₁ as = some s' := by
  rw [runFrom] at h
  cases hs : M.step s a with
  | none => rw [hs] at h; cases h
  | some s₁ => rw [hs] at h; exact ⟨s₁, rfl, h⟩

theorem runFrom_append : M.runFrom s (as ++ bs) = (M.runFrom s as).bind (fun s' => M.runFrom s' bs) := by
  induction as generalizing s with
  | nil => rfl
  | cons a as ih =>
    rw [cons_append, runFrom, runFrom]
    cases M.step s a with
    | none => rfl
    | some s₁ => exact ih

/-- **What every admitted step keeps, every admitted run keeps.** -/
theorem admits_runFrom (hstep : ∀ s a s', I s → ok s a → M.step s a = some s' → I s')
    (has : M.Admits ok s as) (hrun : M.runFrom s as = some s') (hs : I s) : I s' := by
  induction as generalizing s with
  | nil =>
    cases hrun
    exact hs
  | cons a as ih =>
    obtain ⟨s₁, hs₁, hrun⟩ := runFrom_cons_inv hrun
    exact ih (has.2 s₁ hs₁) hrun (hstep s a s₁ hs has.1 hs₁)

theorem admits_invariant (hinit : I M.init) (hstep : ∀ s a s', I s → ok s a → M.step s a = some s' → I s')
    (has : M.Admits ok M.init as) (hrun : M.run as = some s) : I s :=
  admits_runFrom hstep has hrun hinit

/-- A condition on the actions alone. -/
theorem admits_of_forall {P : α → Prop} (h : ∀ a ∈ as, P a) : M.Admits (fun _ a => P a) s as := by
  induction as generalizing s with
  | nil => exact trivial
  | cons a as ih =>
    exact ⟨h a mem_cons_self, fun _ _ => ih (fun b hb => h b (mem_cons_of_mem a hb))⟩

/-- **What every step keeps, every run keeps.** -/
theorem invariant_from (hstep : ∀ s a s', I s → M.step s a = some s' → I s')
    (hrun : M.runFrom s as = some s') (hs : I s) : I s' :=
  admits_runFrom (fun s a s' hi _ h => hstep s a s' hi h) (admits_of_forall (fun _ _ => trivial)) hrun hs

theorem invariant (hinit : I M.init) (hstep : ∀ s a s', I s → M.step s a = some s' → I s')
    (hrun : M.run as = some s) : I s :=
  invariant_from hstep hrun hinit

/-- **The same below a bound** on a size that no step lowers: counters that wrap around have not done so yet. -/
theorem bounded_invariant {f : σ → Nat} {n : Nat}
    (hmono : ∀ s a s', M.step s a = some s' → f s ≤ f s') (hinit : f M.init < n → I M.init)
    (hstep : ∀ s a s', I s → f s < n → f s' < n → M.step s a = some s' → I s')
    (hrun : M.run as = some s) (hsize : f s < n) : I s := by
  refine invariant (I := fun s => f s < n → I s) hinit ?_ hrun hsize
  intro s a s' hi hs hlt
  have hlt₀ : f s < n := Nat.lt_of_le_of_lt (hmono s a s' hs) hlt
  exact hstep s a s' (hi hlt₀) hlt₀ hlt hs

/-- The same for what is said of the state and the run that led to it. -/
theorem history_invariant {I : List α → σ → Prop} (hinit : I [] M.init)
    (hstep : ∀ as s a s', M.run as = some s → I as s → M.step s a = some s' → I (as ++ [a]) s')
    (hrun : M.run as = some s) : I as s := by
  induction as using List.reverseRecOn generalizing s with
  | nil =>
    cases hrun
    exact hinit
  | append_singleton as a ih =>
    rw [run, runFrom_append] at hrun
    obtain ⟨s₁, hs₁, hrun⟩ := Option.bind_eq_some_iff.mp hrun
    obtain ⟨s₂, hs₂, hend⟩ := runFrom_cons_inv hrun
    cases hend
    exact hstep as s₁ a s hs₁ (ih hs₁) hs₂

/-! ## Concrete runs -/

/-- What can be computed about the state a run ends in. -/
theorem of_run [DecidablePred I] (hrun : M.run as = some s) (h : (M.run as).all (fun s => I s) = true) :
    I s := by
  rw [hrun, Option.all_some] at h
  exact of_decide_eq_true h

theorem exists_run (h : (M.run as).isSome = true) (hI : ∀ s, M.run as = some s → I s) :
    ∃ s, M.run as = some s ∧ I s := by
  obtain ⟨s, hs⟩ := Option.isSome_iff_exists.mp h
  exact ⟨s, hs, hI s hs⟩

theorem exists_run_and {P : σ → Prop} [DecidablePred P] (h : (M.run as).all (fun s => P s) = true)
    (hI : ∃ s, M.run as = some s ∧ I s) : ∃ s, M.run as = some s ∧ P s ∧ I s := by
  obtain ⟨s, hs, hI⟩ := hI
  exact ⟨s, hs, of_run hs h, hI⟩

end Machine

/-! ## Numbered threads -/

/-- Every thread of the list satisfies `P`, with its number. -/
def AllAt {β : Type} (l : List β) (P : Nat → β → Prop) : Prop := ∀ i b, l[i]? = some b → P i b

namespace AllAt

variable {β : Type} {l : List β} {P Q : Nat → β → Prop} {i : Nat} {b : β} {f : β → β}

theorem nil : AllAt [] P := by
  intro i b h
  simp at h

/-- One thread moves: it must satisfy `Q` afterwards, and the others as they are. -/
theorem modify (hi : ∀ b, l[i]? = some b → Q i (f b))
    (ho : ∀ j b, j ≠ i → l[j]? = some b → Q j b) : AllAt (l.modify i f) Q := by
  intro j b hb
  rw [getElem?_modify] at hb
  obtain ⟨b₀, hb₀, rfl⟩ := Option.map_eq_some_iff.mp hb
  by_cases hij : i = j
  · subst hij
    rw [if_pos rfl]
    exact hi b₀ hb₀
  · rw [if_neg hij]
    exact ho j b₀ (Ne.symm hij) hb₀

/-- One thread is replaced. -/
theorem set (hi : i < l.length → Q i b) (ho : ∀ j c, j ≠ i → l[j]? = some c → Q j c) : AllAt (l.set i b) Q := by
  intro j c hc
  by_cases hij : i = j
  · subst hij
    rw [getElem?_set_self'] at hc
    obtain ⟨d, hd, rfl⟩ := Option.map_eq_some_iff.mp hc
    exact hi (List.getElem?_eq_some_iff.mp hd).1
  · rw [getElem?_set_ne hij] at hc
    exact ho j c (Ne.symm hij) hc

/-- One thread more: it takes the next number. -/
theorem concat (hl : AllAt l P) (hb : P l.length b) : AllAt (l ++ [b]) P := by
  intro j c hc
  rw [getElem?_append] at hc
  split at hc
  · exact hl j c hc
  have hj : j - l.length = 0 := by
    by_contra hne
    rw [getElem?_eq_none (by simp; omega)] at hc
    cases hc
  have : j = l.length := by omega
  subst this
  simp at hc
  exact hc ▸ hb

/-- What concerns a part of the threads that has not changed. -/
theorem of_map {γ : Type} {l' : List β} {f : β → γ} {R : Nat → γ → Prop} (hl : l'.map f = l.map f)
    (h : AllAt l (fun i b => R i (f b))) : AllAt l' (fun i b => R i (f b)) := by
  intro i b hb
  have hi : (l.map f)[i]? = some (f b) := by
    rw [← hl, getElem?_map, hb]
    rfl
  rw [getElem?_map] at hi
  obtain ⟨d, hd, hdb⟩ := Option.map_eq_some_iff.mp hi
  rw [← hdb]
  exact h i d hd

end AllAt

theorem map_set_of_eq {β γ : Type} {l : List β} {f : β → γ} {i : Nat} {b c : β} (hb : l[i]? = some b)
    (hf : f c = f b) : (l.set i c).map f = l.map f := by
  rw [map_set, hf]
  apply ext_getElem?
  intro j
  by_cases hij : i = j
  · subst hij
    rw [getElem?_set_self', getElem?_map, hb]
    rfl
  · rw [getElem?_set_ne hij]

/-- The thread with number `i` satisfies `P`. -/
def At {β : Type} (l : List β) (P : β → Prop) (i : Nat) : Prop := ∃ b, l[i]? = some b ∧ P b

namespace At

variable {β : Type} {l : List β} {P : β → Prop} {i j : Nat} {b c : β}

theorem of_set (h : At (l.set i b) P j) : (j = i ∧ P b) ∨ (j ≠ i ∧ At l P j) := by
  obtain ⟨d, hd, hP⟩ := h
  by_cases hij : i = j
  · subst hij
    rw [getElem?_set_self'] at hd
    obtain ⟨_, _, rfl⟩ := Option.map_eq_some_iff.mp hd
    exact .inl ⟨rfl, hP⟩
  · rw [getElem?_set_ne hij] at hd
    exact .inr ⟨Ne.symm hij, d, hd, hP⟩

theorem set_self (hi : l[i]? = some c) (hP : P b) : At (l.set i b) P i :=
  ⟨b, by rw [getElem?_set_self (List.getElem?_eq_some_iff.mp hi).1], hP⟩

theorem set_ne (h : At l P j) (hij : j ≠ i) : At (l.set i b) P j := by
  obtain ⟨d, hd, hP⟩ := h
  exact ⟨d, by rw [getElem?_set_ne (Ne.symm hij)]; exact hd, hP⟩

theorem of_concat (h : At (l ++ [b]) P j) : At l P j ∨ (j = l.length ∧ P b) := by
  obtain ⟨d, hd, hP⟩ := h
  rcases Nat.lt_or_ge j l.length with hj | hj
  · rw [getElem?_append_left hj] at hd
    exact .inl ⟨d, hd, hP⟩
  have hlen : j < (l ++ [b]).length := (List.getElem?_eq_some_iff.mp hd).1
  rw [length_append] at hlen
  have hjl : j = l.length := Nat.le_antisymm (Nat.lt_succ_iff.mp hlen) hj
  subst hjl
  rw [getElem?_concat_length] at hd
  cases hd
  exact .inr ⟨rfl, hP⟩

theorem concat_left (h : At l P j) : At (l ++ [b]) P j := by
  obtain ⟨d, hd, hP⟩ := h
  exact ⟨d, by rw [getElem?_append_left (List.getElem?_eq_some_iff.mp hd).1]; exact hd, hP⟩

theorem of_map {γ : Type} {l' : List β} {f : β → γ} {R : γ → Prop} (hl : l'.map f = l.map f)
    (h : At l (fun b => R (f b)) i) : At l' (fun b => R (f b)) i := by
  obtain ⟨b, hb, hR⟩ := h
  have hi : (l'.map f)[i]? = some (f b) := by
    rw [hl, getElem?_map, hb]
    rfl
  rw [getElem?_map] at hi
  obtain ⟨d, hd, hdb⟩ := Option.map_eq_some_iff.mp hi
  exact ⟨d, hd, show R (f d) from hdb ▸ hR⟩

theorem concat_last (hP : P b) : At (l ++ [b]) P l.length := ⟨b, getElem?_concat_length, hP⟩

end At

end Pandaemonium
