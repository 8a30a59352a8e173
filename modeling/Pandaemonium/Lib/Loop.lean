/-!
# `Lib.Loop` — loops that may fail to return

A source loop `for { … }` is its body: one turn either returns (`done`) or goes round (`again`). A
Lean function has to be total, so `loop` runs the body only as long as each turn makes progress and
answers `none` at the first turn that does not. For a body whose every unproductive turn leaves the
state as it was (`Stalls`) that is the loop itself: `loop` answers `r` exactly when the unbounded loop
returns `r` (`loop_eq_some_iff`).

Properties of a loop are proved along its turns (`loop_induction`); two loops are compared turn by turn
(`loop_congr`).
-/

namespace Pandaemonium

/-- One turn of a loop body. -/
inductive Turn (σ ρ : Type) where
  | done (r : ρ)
  | again (s : σ)
  deriving DecidableEq

namespace Loop

variable {σ ρ : Type} {size : σ → Nat} {body : σ → Turn σ ρ} {s s' : σ} {r : ρ}

/-- Run `body` until it returns or a turn makes no progress. -/
def loop (size : σ → Nat) (body : σ → Turn σ ρ) (s : σ) : Option ρ :=
  match body s with
  | .done r => some r
  | .again s' => if size s' < size s then loop size body s' else none
termination_by size s

/-- The unbounded loop after `n` turns. -/
def turns (body : σ → Turn σ ρ) : Nat → σ → Turn σ ρ
  | 0, s => .again s
  | n + 1, s =>
    match body s with
    | .done r => .done r
    | .again s' => turns body n s'

/-- The unbounded loop returns `r`. -/
def Returns (body : σ → Turn σ ρ) (s : σ) (r : ρ) : Prop := ∃ n, turns body n s = .done r

/-- The unbounded loop goes round for ever. -/
def Diverges (body : σ → Turn σ ρ) (s : σ) : Prop := ∀ n, ∃ s', turns body n s = .again s'

/-- Every turn that goes round either shrinks the state or leaves it as it was. -/
def Stalls (size : σ → Nat) (body : σ → Turn σ ρ) : Prop :=
  ∀ s s', body s = .again s' → size s' < size s ∨ s' = s

theorem loop_done (h : body s = .done r) : loop size body s = some r := by
  rw [loop, h]

theorem loop_again (h : body s = .again s') (hlt : size s' < size s) :
    loop size body s = loop size body s' := by
  rw [loop, h]; simp only [if_pos hlt]

theorem loop_stuck (h : body s = .again s') (hle : ¬ size s' < size s) : loop size body s = none := by
  rw [loop, h]; simp only [if_neg hle]

theorem turns_again (h : body s = .again s') (n : Nat) : turns body (n + 1) s = turns body n s' := by
  rw [turns, h]

theorem turns_done (h : body s = .done r) (n : Nat) : turns body (n + 1) s = .done r := by
  rw [turns, h]

/-- A turn that leaves the state as it was repeats for ever. -/
theorem diverges_of_fixed (h : body s = .again s) : Diverges body s := by
  intro n
  induction n with
  | zero => exact ⟨s, rfl⟩
  | succ n ih => rw [turns_again h]; exact ih

/-- A diverging loop never returns. -/
theorem Diverges.not_returns (h : Diverges body s) : ¬ Returns body s r := by
  rintro ⟨n, hn⟩
  obtain ⟨s', hs'⟩ := h n
  rw [hn] at hs'; cases hs'

/-- What the guarded loop answers, the unbounded loop does. -/
theorem loop_spec (hst : Stalls size body) (s : σ) :
    (∀ r, loop size body s = some r → Returns body s r) ∧
      (loop size body s = none → Diverges body s) := by
  induction hk : size s using Nat.strongRecOn generalizing s with
  | ind k ih =>
    cases hb : body s with
    | done r =>
      rw [loop_done hb]
      exact ⟨fun r' hr => ⟨1, by rw [turns_done hb]; cases hr; rfl⟩, fun h => (by cases h)⟩
    | again s' =>
      rcases hst s s' hb with hlt | heq
      · obtain ⟨ihr, ihd⟩ := ih (size s') (hk ▸ hlt) s' rfl
        rw [loop_again hb hlt]
        refine ⟨fun r hr => ?_, fun hn n => ?_⟩
        · obtain ⟨n, hn⟩ := ihr r hr
          exact ⟨n + 1, by rw [turns_again hb]; exact hn⟩
        cases n with
        | zero => exact ⟨s, rfl⟩
        | succ n => rw [turns_again hb]; exact ihd hn n
      · subst heq
        rw [loop_stuck hb (Nat.lt_irrefl _)]
        exact ⟨fun r hr => (by cases hr), fun _ => diverges_of_fixed hb⟩

/-- The unbounded loop is deterministic. -/
theorem turns_mono {n m : Nat} (hle : n ≤ m) (h : turns body n s = .done r) : turns body m s = .done r := by
  induction n generalizing s m with
  | zero => cases h
  | succ n ih =>
    obtain ⟨m, rfl⟩ : ∃ k, m = k + 1 := ⟨m - 1, by omega⟩
    cases hb : body s with
    | done r' => rw [turns_done hb] at h ⊢; exact h
    | again s' => rw [turns_again hb] at h ⊢; exact ih (by omega) h

theorem Returns.unique {r' : ρ} (h : Returns body s r) (h' : Returns body s r') : r = r' := by
  obtain ⟨n, hn⟩ := h
  obtain ⟨m, hm⟩ := h'
  have h1 := turns_mono (Nat.le_max_left n m) hn
  have h2 := turns_mono (Nat.le_max_right n m) hm
  rw [h1] at h2
  cases h2; rfl

theorem loop_eq_some_iff (hst : Stalls size body) : loop size body s = some r ↔ Returns body s r := by
  refine ⟨(loop_spec hst s).1 r, fun h => ?_⟩
  cases hl : loop size body s with
  | none => exact absurd h ((loop_spec hst s).2 hl).not_returns
  | some r' => rw [((loop_spec hst s).1 r' hl).unique h]

/-- Induction along a loop that answers. -/
theorem loop_induction {motive : σ → ρ → Prop} (hdone : ∀ s r, body s = .done r → motive s r) (hagain : ∀ s s'
    r, body s = .again s' → size s' < size s → loop size body s' = some r → motive s' r → motive s r)
    (h : loop size body s = some r) : motive s r := by
  induction hk : size s using Nat.strongRecOn generalizing s with
  | ind k ih =>
    cases hb : body s with
    | done r' =>
      rw [loop_done hb] at h
      cases h; exact hdone s r hb
    | again s' =>
      by_cases hlt : size s' < size s
      · rw [loop_again hb hlt] at h
        exact hagain s s' r hb hlt h (ih (size s') (hk ▸ hlt) h rfl)
      · rw [loop_stuck hb hlt] at h; cases h

/-- Two bodies that do the same in every state the loop passes through make the same loop. -/
theorem loop_congr {body' : σ → Turn σ ρ} (inv : σ → Prop) (heq : ∀ s, inv s → body s = body' s)
    (hstep : ∀ s s', inv s → body s = .again s' → inv s') (hs : inv s) :
    loop size body s = loop size body' s := by
  induction hk : size s using Nat.strongRecOn generalizing s with
  | ind k ih =>
    rw [loop, loop, ← heq s hs]
    cases hb : body s with
    | done r => rfl
    | again s' =>
      by_cases hlt : size s' < size s
      · simp only [if_pos hlt]
        exact ih (size s') (hk ▸ hlt) (hstep s s' hs hb) rfl
      · simp only [if_neg hlt]

end Loop

end Pandaemonium
