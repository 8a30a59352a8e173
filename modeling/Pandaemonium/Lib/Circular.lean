import Mathlib

/-!
# `Lib.Circular` — queues in circular arrays

A circular array holds a queue in `n` cells from `head` on, round the end of the array. `window` reads the
queue off; the lemmas say what writing a cell, moving the head and copying a whole list behind the queue make
of it. Positions are taken modulo the length of the array, so that no lemma has a case for the wrap;
`advance_eq_mod` is the one step that programs write with a comparison.
-/

namespace Pandaemonium.Circular

open List

variable {α : Type}

/-- The cell at position `i`, round the end. -/
def cellAt (cells : List α) (i : Nat) : Option α := cells[i % cells.length]?

/-- The `n` cells from `head` on. -/
def window (cells : List α) (head : Nat) : Nat → List α
  | 0 => []
  | n + 1 => (cellAt cells head).toList ++ window cells (head + 1) n

/-- The position behind `i` in an array of `cap` cells. -/
def advance (i cap : Nat) : Nat := if i + 1 = cap then 0 else i + 1

/-- `src` over the first cells, as far as there are cells. -/
def copy (dst src : List α) : List α := src.take dst.length ++ dst.drop src.length

/-- `src` over the cells from `pos` on, as far as there are cells. -/
def copyAt (cells : List α) (pos : Nat) (src : List α) : List α :=
  cells.take pos ++ copy (cells.drop pos) src

/-- `src` over the cells from `pos` on, round the end: what the first copy has no room for is copied to the
    front. -/
def spread (cells : List α) (pos : Nat) (src : List α) : List α :=
  copy (copyAt cells pos src) (src.drop (cells.length - pos))

variable {cells cells' dst src : List α} {head i j k n m pos : Nat} {v : α}

theorem advance_eq_mod (h : i < k) : advance i k = (i + 1) % k := by
  unfold advance
  split
  · rename_i hk
    rw [hk, Nat.mod_self]
  · rw [Nat.mod_eq_of_lt (by omega)]

/-! ## Reading -/

theorem cellAt_mod : cellAt cells (i % cells.length) = cellAt cells i := by
  unfold cellAt
  rw [Nat.mod_mod]

theorem exists_cellAt (h : 0 < cells.length) (i : Nat) : ∃ v, cellAt cells i = some v :=
  ⟨_, getElem?_eq_getElem (Nat.mod_lt i h)⟩

@[simp] theorem window_zero : window cells head 0 = [] := rfl

theorem window_succ (h : cellAt cells head = some v) :
    window cells head (n + 1) = v :: window cells (head + 1) n := by
  rw [window, h]
  rfl

theorem window_add : window cells head (n + m) = window cells head n ++ window cells (head + n) m := by
  induction n generalizing head with
  | zero => simp
  | succ n ih =>
    have hpos : head + (n + 1) = head + 1 + n := by omega
    rw [Nat.add_right_comm, window, ih, window, hpos, append_assoc]

theorem length_window (h : 0 < cells.length) : (window cells head n).length = n := by
  induction n generalizing head with
  | zero => rfl
  | succ n ih =>
    obtain ⟨v, hv⟩ := exists_cellAt h head
    rw [window_succ hv, length_cons, ih]

/-- Arrays that agree in the cells of the queue hold the same queue. -/
theorem window_congr (h : ∀ k < n, cellAt cells' (head + k) = cellAt cells (head + k)) :
    window cells' head n = window cells head n := by
  induction n generalizing head with
  | zero => rfl
  | succ n ih =>
    have hhead : cellAt cells' head = cellAt cells head := h 0 (by omega)
    have hrest : window cells' (head + 1) n = window cells (head + 1) n := by
      refine ih (fun k hk => ?_)
      rw [Nat.add_assoc, Nat.add_comm 1 k]
      exact h (k + 1) (by omega)
    rw [window, window, hhead, hrest]

theorem window_mod : window cells (head % cells.length) n = window cells head n := by
  induction n generalizing head with
  | zero => rfl
  | succ n ih =>
    -- one step on, the two heads agree again only modulo the length
    have hnext : window cells (head % cells.length + 1) n = window cells (head + 1) n := by
      rw [← @ih (head % cells.length + 1), ← @ih (head + 1), Nat.mod_add_mod]
    rw [window, window, cellAt_mod, hnext]

/-! ## Writing one cell -/

theorem cellAt_set_self (h : 0 < cells.length) : cellAt (cells.set (i % cells.length) v) i = some v := by
  unfold cellAt
  rw [length_set, getElem?_set_self (Nat.mod_lt i h)]

theorem cellAt_set_ne (h : j % cells.length ≠ i % cells.length) :
    cellAt (cells.set (i % cells.length) v) j = cellAt cells j := by
  unfold cellAt
  rw [length_set, getElem?_set_ne (Ne.symm h)]

/-- Two positions less than one round apart are two cells. -/
theorem mod_ne_mod (hjk : j < k) (hk : k < j + n) : j % n ≠ k % n := by
  intro h
  have hdvd : n ∣ k - j := Nat.dvd_of_mod_eq_zero (Nat.sub_mod_eq_zero_of_mod_eq h.symm)
  have := Nat.le_of_dvd (by omega) hdvd
  omega

/-- A write behind the queue lengthens it. -/
theorem window_set_tail (h : n < cells.length) :
    window (cells.set ((head + n) % cells.length) v) head (n + 1) = window cells head n ++ [v] := by
  have hlast : window (cells.set ((head + n) % cells.length) v) (head + n) 1 = [v] := by
    rw [window_succ (cellAt_set_self (by omega)), window_zero]
  rw [window_add, hlast]
  refine congrArg (· ++ [v]) (window_congr (fun k hk => cellAt_set_ne ?_))
  exact mod_ne_mod (by omega) (by omega)

/-- A write in front of the queue does not show in it. -/
theorem window_set_head (h : n < cells.length) :
    window (cells.set (head % cells.length) v) (head + 1) n = window cells (head + 1) n := by
  refine window_congr (fun k hk => cellAt_set_ne ?_)
  exact (mod_ne_mod (by omega) (by omega)).symm

/-! ## Writing many cells -/

theorem length_copy : (copy dst src).length = dst.length := by
  unfold copy
  simp only [length_append, length_take, length_drop]
  omega

theorem getElem?_copy (hi : i < dst.length) :
    (copy dst src)[i]? = if i < src.length then src[i]? else dst[i]? := by
  unfold copy
  rw [getElem?_append, length_take]
  by_cases h : i < src.length
  · rw [if_pos (by omega), if_pos h, getElem?_take_of_lt hi]
  · have hpos : src.length + (i - min dst.length src.length) = i := by omega
    rw [if_neg (by omega), if_neg h, getElem?_drop, hpos]

theorem length_copyAt (h : pos ≤ cells.length) : (copyAt cells pos src).length = cells.length := by
  unfold copyAt
  rw [length_append, length_copy, length_take, length_drop]
  omega

theorem getElem?_copyAt (hpos : pos ≤ cells.length) (hi : i < cells.length) :
    (copyAt cells pos src)[i]? = if pos ≤ i ∧ i < pos + src.length then src[i - pos]? else cells[i]? := by
  unfold copyAt
  have hlen : (cells.take pos).length = pos := by
    rw [length_take]
    omega
  rw [getElem?_append, hlen]
  by_cases h : i < pos
  · rw [if_pos h, if_neg (by omega), getElem?_take_of_lt h]
  have hdrop : i - pos < (cells.drop pos).length := by
    rw [length_drop]
    omega
  have hback : pos + (i - pos) = i := by omega
  rw [if_neg h, getElem?_copy hdrop, getElem?_drop, hback]
  exact if_congr (by omega) rfl rfl

theorem length_spread (h : pos ≤ cells.length) : (spread cells pos src).length = cells.length := by
  unfold spread
  rw [length_copy, length_copyAt h]

theorem getElem?_spread (hpos : pos < cells.length) (hi : i < cells.length) (hsrc : src.length ≤ cells.length) :
    (spread cells pos src)[i]? =
      if pos ≤ i ∧ i < pos + src.length then src[i - pos]?
      else if i + cells.length < pos + src.length then src[i + cells.length - pos]?
      else cells[i]? := by
  unfold spread
  have hlen : i < (copyAt cells pos src).length := by
    rwa [length_copyAt (Nat.le_of_lt hpos)]
  rw [getElem?_copy hlen, getElem?_copyAt (Nat.le_of_lt hpos) hi, length_drop, getElem?_drop]
  by_cases hwrap : i < src.length - (cells.length - pos)
  · have hoff : cells.length - pos + i = i + cells.length - pos := by omega
    rw [if_pos hwrap, if_neg (by omega), if_pos (by omega), hoff]
  rw [if_neg hwrap]
  by_cases hin : pos ≤ i ∧ i < pos + src.length
  · rw [if_pos hin, if_pos hin]
  · rw [if_neg hin, if_neg hin, if_neg (by omega)]

/-- Within one round from `pos`, the cells are those of `src` and then the old ones. -/
theorem cellAt_spread (hpos : pos < cells.length) (hk : k < cells.length) (hsrc : src.length ≤ cells.length) :
    cellAt (spread cells pos src) (pos + k) =
      if k < src.length then src[k]? else cellAt cells (pos + k) := by
  unfold cellAt
  rw [length_spread (Nat.le_of_lt hpos)]
  have hi : (pos + k) % cells.length < cells.length := Nat.mod_lt _ (by omega)
  rw [getElem?_spread hpos hi hsrc]
  by_cases hwrap : pos + k < cells.length
  · have hback : pos + k - pos = k := by omega
    rw [Nat.mod_eq_of_lt hwrap, hback]
    by_cases hin : k < src.length
    · rw [if_pos (by omega), if_pos hin]
    · rw [if_neg (by omega), if_neg (by omega), if_neg hin]
  · have hmod : (pos + k) % cells.length = pos + k - cells.length := by
      rw [Nat.mod_eq_sub_mod (by omega), Nat.mod_eq_of_lt (by omega)]
    have hback : pos + k - cells.length + cells.length - pos = k := by omega
    rw [hmod, if_neg (by omega), hback]
    exact if_congr (by omega) rfl rfl

/-- A list found cell by cell is the window. -/
theorem window_eq (h : ∀ k < src.length, cellAt cells (head + k) = src[k]?) :
    window cells head src.length = src := by
  induction src generalizing head with
  | nil => rfl
  | cons v src ih =>
    have hhead : cellAt cells head = some v := h 0 (Nat.zero_lt_succ _)
    have hrest : window cells (head + 1) src.length = src := by
      refine ih (fun k hk => ?_)
      rw [Nat.add_assoc, Nat.add_comm 1 k, h (k + 1) (Nat.succ_lt_succ hk)]
      rfl
    rw [length_cons, window_succ hhead, hrest]

/-- A list copied behind the queue lengthens it by the list. -/
theorem window_spread (hcells : 0 < cells.length) (h : n + src.length ≤ cells.length) :
    window (spread cells ((head + n) % cells.length) src) head (n + src.length) =
      window cells head n ++ src := by
  have hpos : (head + n) % cells.length < cells.length := Nat.mod_lt _ hcells
  have hlen : (spread cells ((head + n) % cells.length) src).length = cells.length :=
    length_spread (Nat.le_of_lt hpos)
  -- a position `k` behind the tail, seen from the tail's cell
  have hfrom : ∀ k, k < cells.length →
      cellAt (spread cells ((head + n) % cells.length) src) (head + n + k) =
        if k < src.length then src[k]? else cellAt cells (head + n + k) := by
    intro k hk
    have hshift : ∀ c : List α, c.length = cells.length →
        cellAt c (head + n + k) = cellAt c ((head + n) % cells.length + k) := by
      intro c hc
      unfold cellAt
      rw [hc, Nat.mod_add_mod]
    rw [hshift _ hlen, hshift _ rfl, cellAt_spread hpos hk (by omega)]
  have hback : window (spread cells ((head + n) % cells.length) src) (head + n) src.length = src := by
    refine window_eq (fun k hk => ?_)
    rw [hfrom k (by omega), if_pos hk]
  have hfront : window (spread cells ((head + n) % cells.length) src) head n = window cells head n := by
    refine window_congr (fun k hk => ?_)
    -- the cell is a whole round less `n - k` behind the tail
    have hround : ∀ c : List α, c.length = cells.length →
        cellAt c (head + k) = cellAt c (head + n + (cells.length - n + k)) := by
      intro c hc
      have hsum : head + n + (cells.length - n + k) = head + k + cells.length := by omega
      unfold cellAt
      rw [hsum, hc, Nat.add_mod_right]
    rw [hround _ hlen, hround _ rfl, hfrom _ (by omega), if_neg (by omega)]
  rw [window_add, hfront, hback]

end Pandaemonium.Circular
