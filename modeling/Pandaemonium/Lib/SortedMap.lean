import Mathlib

/-!
# `Lib.SortedMap` — finite maps as key-sorted association lists

A finite map over an ordered key type, kept as the list of its entries in increasing key order. `get?`
needs no order and also serves plain association lists, where the first entry of a key counts.
-/

namespace Pandaemonium.SortedMap

open List

variable {κ α : Type}

/-- The first entry for `k`. -/
def get? [DecidableEq κ] : List (κ × α) → κ → Option α
  | [], _ => none
  | (k', v) :: m, k => if k' = k then some v else get? m k

/-- Put `v` at `k`, in order. -/
def insert [DecidableEq κ] [LT κ] [DecidableLT κ] :
    List (κ × α) → κ → α → List (κ × α)
  | [], k, v => [(k, v)]
  | (k', v') :: m, k, v =>
    if k < k' then (k, v) :: (k', v') :: m
    else if k' = k then (k, v) :: m
    else (k', v') :: insert m k v

section

variable [DecidableEq κ] {m : List (κ × α)} {k k' : κ} {v : α}

@[simp] theorem get?_nil : get? ([] : List (κ × α)) k = none := rfl

@[simp] theorem get?_cons_self : get? ((k, v) :: m) k = some v := by simp [get?]

theorem get?_cons_ne (h : k' ≠ k) : get? ((k', v) :: m) k = get? m k := by simp [get?, h]

theorem mem_of_get? (h : get? m k = some v) : (k, v) ∈ m := by
  induction m with
  | nil => cases h
  | cons e m ih =>
    obtain ⟨k1, v1⟩ := e
    by_cases hk : k1 = k
    · subst hk; rw [get?_cons_self] at h; cases h; exact mem_cons_self
    · rw [get?_cons_ne hk] at h; exact mem_cons_of_mem _ (ih h)

theorem get?_eq_none_of_forall (h : ∀ e ∈ m, e.1 ≠ k) : get? m k = none := by
  cases hg : get? m k with
  | none => rfl
  | some v => exact absurd rfl (h _ (mem_of_get? hg))

theorem ne_of_get?_none (h : get? m k = none) : ∀ e ∈ m, e.1 ≠ k := by
  induction m with
  | nil => simp
  | cons e m ih =>
    obtain ⟨k₁, v₁⟩ := e
    have hk : k₁ ≠ k := by
      rintro rfl
      rw [get?_cons_self] at h
      cases h
    rw [get?_cons_ne hk] at h
    exact forall_mem_cons.mpr ⟨hk, ih h⟩

/-- Without the entries of a key. -/
def erase (m : List (κ × α)) (k : κ) : List (κ × α) := m.filter (fun e => e.1 ≠ k)

@[simp] theorem erase_nil : erase ([] : List (κ × α)) k = [] := rfl

theorem erase_eq_self (h : ∀ e ∈ m, e.1 ≠ k) : erase m k = m :=
  filter_eq_self.mpr (fun e he => by simpa using h e he)

@[simp] theorem get?_erase_self : get? (erase m k) k = none := by
  refine get?_eq_none_of_forall ?_
  intro e he
  simpa using (mem_filter.mp he).2

theorem get?_erase_ne (h : k' ≠ k) : get? (erase m k) k' = get? m k' := by
  induction m with
  | nil => rfl
  | cons e m ih =>
    obtain ⟨k₁, v₁⟩ := e
    unfold erase at ih ⊢
    by_cases hk : k₁ = k
    · subst hk
      rw [filter_cons_of_neg (by simp), get?_cons_ne (Ne.symm h)]
      exact ih
    · rw [filter_cons_of_pos (by simpa using hk)]
      by_cases hk' : k₁ = k'
      · subst hk'
        rw [get?_cons_self, get?_cons_self]
      · rw [get?_cons_ne hk', get?_cons_ne hk']
        exact ih

/-- Where no key stands twice, an entry is found and erased once. -/
theorem perm_cons_erase (hn : (m.map Prod.fst).Nodup) (hg : get? m k = some v) :
    m.Perm ((k, v) :: erase m k) := by
  induction m with
  | nil => cases hg
  | cons e m ih =>
    obtain ⟨k₁, v₁⟩ := e
    obtain ⟨hk₁, hn⟩ := nodup_cons.mp hn
    by_cases hk : k₁ = k
    · subst hk
      rw [get?_cons_self] at hg
      cases hg
      have hrest : erase m k₁ = m := erase_eq_self (fun e he heq => hk₁ (mem_map.mpr ⟨e, he, heq⟩))
      rw [erase, filter_cons_of_neg (by simp)]
      exact List.Perm.cons _ (List.Perm.of_eq hrest.symm)
    · rw [get?_cons_ne hk] at hg
      rw [erase, filter_cons_of_pos (by simpa using hk)]
      exact ((ih hn hg).cons _).trans (List.Perm.swap ..)

end

section

variable [DecidableEq κ] [LT κ] [DecidableLT κ] {m m' : List (κ × α)} {k k' : κ} {v : α}

theorem get?_insert_self : get? (insert m k v) k = some v := by
  induction m with
  | nil => simp [insert]
  | cons e m ih =>
    obtain ⟨k1, v1⟩ := e
    unfold insert
    split
    · simp
    split
    · simp
    · rename_i hne; rw [get?_cons_ne hne]; exact ih

theorem get?_insert_ne (h : k ≠ k') : get? (insert m k v) k' = get? m k' := by
  induction m with
  | nil => simp [insert, get?, h]
  | cons e m ih =>
    obtain ⟨k1, v1⟩ := e
    unfold insert
    split
    · rw [get?_cons_ne h]
    split
    · rename_i heq; subst heq; rw [get?_cons_ne h, get?_cons_ne h]
    by_cases hk : k1 = k'
    · subst hk; simp
    · rw [get?_cons_ne hk, get?_cons_ne hk]; exact ih

theorem get?_insert : get? (insert m k v) k' = if k = k' then some v else get? m k' := by
  split
  · rename_i h; subst h; exact get?_insert_self
  · rename_i h; exact get?_insert_ne h

theorem mem_insert {e : κ × α} (h : e ∈ insert m k v) : e = (k, v) ∨ e ∈ m := by
  induction m with
  | nil => left; simpa [insert] using h
  | cons e1 m ih =>
    obtain ⟨k1, v1⟩ := e1
    unfold insert at h
    split at h
    · exact (mem_cons.mp h).imp id id
    split at h
    · exact (mem_cons.mp h).imp id (mem_cons_of_mem _)
    rcases mem_cons.mp h with h | h
    · right; rw [h]; exact mem_cons_self
    · exact (ih h).imp id (mem_cons_of_mem _)

/-- A new key is one more entry. -/
theorem insert_perm (h : ∀ e ∈ m, e.1 ≠ k) : (insert m k v).Perm ((k, v) :: m) := by
  induction m with
  | nil => exact List.Perm.refl _
  | cons e m ih =>
    obtain ⟨k1, v1⟩ := e
    unfold insert
    split
    · exact List.Perm.refl _
    rw [if_neg (h (k1, v1) mem_cons_self)]
    have := ih (fun e he => h e (mem_cons_of_mem _ he))
    exact (this.cons (k1, v1)).trans (List.Perm.swap ..)

end

end Pandaemonium.SortedMap
