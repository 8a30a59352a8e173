import Pandaemonium.Lib.Bytes
import Pandaemonium.Lib.Circular

/-!
# `Codex.NotificationRing` — the ring under a notification queue (`notification_ring.go`)

A ring keeps at most as many notifications as its array has cells, between `head` and `tail`. The fields
say how the three numbers hang together, so that a ring out of order cannot be built; what a ring holds is
`contents`, and each operation is described by what it makes of that list.
-/

namespace Pandaemonium.Codex

open List
open Circular

structure Notification where
  method : Bytes
  params : Bytes
deriving DecidableEq, Repr

/-- `Notification{}` -/
def Notification.zero : Notification := ⟨[], []⟩

structure NotificationRing where
  values : List Notification
  head : Nat
  tail : Nat
  length : Nat
  length_le : length ≤ values.length
  head_le : head ≤ values.length - 1
  tail_eq : tail = (head + length) % values.length
deriving DecidableEq, Repr

/-- `newNotificationRing` -/
def newNotificationRing (capacity : Nat) : NotificationRing where
  values := List.replicate capacity .zero
  head := 0
  tail := 0
  length := 0
  length_le := Nat.zero_le _
  head_le := Nat.zero_le _
  tail_eq := (Nat.zero_mod _).symm

/-- A buffer of at most `capacity` entries takes one more: the oldest makes room where there is none, and the
    answer says so. -/
def pushEvicting {α : Type} (capacity : Nat) (buffer : List α) (x : α) : List α × Bool :=
  if buffer.length < capacity then (buffer ++ [x], false) else (buffer.drop 1 ++ [x], true)

theorem length_pushEvicting {α : Type} {capacity : Nat} {buffer : List α} {x : α} (h0 : 0 < capacity)
    (h : buffer.length ≤ capacity) : (pushEvicting capacity buffer x).1.length ≤ capacity := by
  unfold pushEvicting
  split
  · rw [length_append, length_singleton]
    omega
  · rw [length_append, length_drop, length_singleton]
    omega

namespace NotificationRing

/-- What the ring holds, oldest first. -/
def contents (r : NotificationRing) : List Notification := window r.values r.head r.length

theorem tail_le (r : NotificationRing) : r.tail ≤ r.values.length := by
  have hle := r.length_le
  have hhead := r.head_le
  rw [r.tail_eq]
  rcases Nat.eq_zero_or_pos r.values.length with h0 | h0
  · rw [h0, Nat.mod_zero]
    omega
  · exact Nat.le_of_lt (Nat.mod_lt _ h0)

/-- A notification stored at the tail of a ring with room. -/
def put (r : NotificationRing) (notif : Notification) (h : r.length < r.values.length) :
    NotificationRing where
  values := r.values.set r.tail notif
  head := r.head
  tail := advance r.tail r.values.length
  length := r.length + 1
  length_le := by
    rw [length_set]
    exact h
  head_le := by
    rw [length_set]
    exact r.head_le
  tail_eq := by
    have hlt : r.tail < r.values.length := r.tail_eq ▸ Nat.mod_lt _ (by omega)
    rw [length_set, advance_eq_mod hlt, r.tail_eq, Nat.mod_add_mod, Nat.add_assoc]

/-- The oldest entry taken out, its cell cleared. -/
def evict (r : NotificationRing) (h : 0 < r.length) : NotificationRing where
  values := r.values.set r.head .zero
  head := advance r.head r.values.length
  tail := r.tail
  length := r.length - 1
  length_le := by
    have := r.length_le
    rw [length_set]
    omega
  head_le := by
    have hle := r.length_le
    have hhead := r.head_le
    rw [length_set, advance]
    split <;> omega
  tail_eq := by
    have hle := r.length_le
    have hhead := r.head_le
    have hsum : r.head + 1 + (r.length - 1) = r.head + r.length := by omega
    rw [length_set, advance_eq_mod (by omega), Nat.mod_add_mod, hsum, r.tail_eq]

/-- Head and tail of an emptied ring go back to the first cell. -/
def rewind (r : NotificationRing) : NotificationRing where
  values := r.values
  head := 0
  tail := 0
  length := 0
  length_le := Nat.zero_le _
  head_le := Nat.zero_le _
  tail_eq := (Nat.zero_mod _).symm

/-- The answer says whether there was room; without it nothing is stored. -/
def push (r : NotificationRing) (notif : Notification) : Bool × NotificationRing :=
  if h : r.values.length = 0 ∨ r.length ≥ r.values.length then (false, r)
  else (true, r.put notif (by omega))

/-- The answer says whether there was room; without it nothing is stored. -/
def appendAll (r : NotificationRing) (notif : List Notification) : Bool × NotificationRing :=
  if h : notif.length > r.values.length - r.length then (false, r)
  else if notif = [] then (true, r)
  else
    (true,
      { values := spread r.values r.tail notif
        head := r.head
        tail := (r.tail + notif.length) % r.values.length
        length := r.length + notif.length
        length_le := by
          have hle := r.length_le
          rw [length_spread r.tail_le]
          omega
        head_le := by
          rw [length_spread r.tail_le]
          exact r.head_le
        tail_eq := by
          rw [length_spread r.tail_le, r.tail_eq, Nat.mod_add_mod, Nat.add_assoc] })

/-- The answer says whether an entry had to make room. -/
def pushDisplacing (r : NotificationRing) (notif : Notification) : Bool × NotificationRing :=
  if h0 : r.values.length = 0 then (false, r)
  else if h : r.length ≥ r.values.length then
    have hpos : 0 < r.length := by omega
    (true, (r.evict hpos).put notif (by
      have hle := r.length_le
      show r.length - 1 < (r.values.set _ _).length
      rw [length_set]
      omega))
  else (false, r.put notif (by omega))

def pop (r : NotificationRing) : Option (Notification × NotificationRing) :=
  if h : r.length = 0 then none
  else
    have hpos : 0 < r.length := by omega
    some (r.values.getD r.head .zero,
      if r.length - 1 = 0 then (r.evict hpos).rewind else r.evict hpos)

/-! ## What the operations make of the contents -/

variable {r : NotificationRing} {notif : Notification} {xs : List Notification}

theorem length_contents (h : 0 < r.values.length) : r.contents.length = r.length :=
  length_window h

theorem contents_put (h : r.length < r.values.length) : (r.put notif h).contents = r.contents ++ [notif] := by
  show window (r.values.set r.tail notif) r.head (r.length + 1) = _
  rw [r.tail_eq, window_set_tail h]
  rfl

/-- The entry at the head is the first of the contents. -/
theorem contents_evict (h : 0 < r.length) :
    r.contents = r.values.getD r.head .zero :: (r.evict h).contents := by
  have hle := r.length_le
  have hhead := r.head_le
  have hlt : r.head < r.values.length := by omega
  have hcell : cellAt r.values r.head = some (r.values.getD r.head .zero) := by
    rw [cellAt, Nat.mod_eq_of_lt hlt, getD_eq_getElem?_getD, getElem?_eq_getElem hlt]
    rfl
  have hrest : (r.evict h).contents = window r.values (r.head + 1) (r.length - 1) := by
    show window (r.values.set r.head .zero) (advance r.head r.values.length) (r.length - 1) = _
    have hset : r.values.set r.head .zero = r.values.set (r.head % r.values.length) .zero := by
      rw [Nat.mod_eq_of_lt hlt]
    have hlen : (r.values.set r.head .zero).length = r.values.length := length_set
    rw [advance_eq_mod hlt, ← hlen, window_mod, hset, window_set_head (by omega)]
  have hlength : r.length = r.length - 1 + 1 := by omega
  rw [hrest, contents, ← window_succ hcell, ← hlength]

theorem push_full (h : r.values.length ≤ r.length) : r.push notif = (false, r) := by
  rw [push, dif_pos (.inr h)]

theorem push_room (h : r.length < r.values.length) :
    (r.push notif).1 = true ∧ (r.push notif).2.contents = r.contents ++ [notif] ∧
      (r.push notif).2.values.length = r.values.length := by
  rw [push, dif_neg (by omega)]
  exact ⟨rfl, contents_put h, length_set⟩

/-- A ring takes a notification as a bounded buffer does. -/
theorem contents_pushDisplacing (h0 : 0 < r.values.length) :
    ((r.pushDisplacing notif).2.contents, (r.pushDisplacing notif).1) =
      pushEvicting r.values.length r.contents notif := by
  have hle := r.length_le
  unfold pushEvicting
  rw [pushDisplacing, dif_neg (by omega), length_contents h0]
  by_cases hfull : r.length ≥ r.values.length
  · have hpos : 0 < r.length := by omega
    rw [dif_pos hfull, if_neg (by omega), contents_put, contents_evict hpos]
    rfl
  · rw [dif_neg hfull, if_pos (by omega), contents_put]

theorem capacity_pushDisplacing : (r.pushDisplacing notif).2.values.length = r.values.length := by
  unfold pushDisplacing
  split
  · rfl
  split
  · show ((r.values.set _ _).set _ _).length = _
    rw [length_set, length_set]
  · exact length_set

theorem pop_nil (h : r.contents = []) : r.pop = none := by
  have hlen : r.length = 0 := by
    by_contra hne
    rw [contents_evict (Nat.pos_of_ne_zero hne)] at h
    cases h
  rw [pop, dif_pos hlen]

theorem pop_cons (h : r.contents = notif :: xs) :
    ∃ r', r.pop = some (notif, r') ∧ r'.contents = xs ∧ r'.values.length = r.values.length := by
  have hne : r.length ≠ 0 := by
    intro h0
    rw [contents, h0] at h
    cases h
  have hpos : 0 < r.length := Nat.pos_of_ne_zero hne
  obtain ⟨hhead, htail⟩ := List.cons.inj ((contents_evict hpos).symm.trans h)
  have hcap : (r.evict hpos).values.length = r.values.length := length_set
  rw [pop, dif_neg hne, hhead]
  refine ⟨_, rfl, ?_⟩
  by_cases hlast : r.length - 1 = 0
  · -- nothing is left, so where head and tail stand does not matter
    rw [if_pos hlast]
    have hxs : xs = [] := by
      rw [← htail, contents]
      show window _ _ (r.length - 1) = []
      rw [hlast]
      rfl
    exact ⟨hxs.symm, hcap⟩
  · rw [if_neg hlast]
    exact ⟨htail, hcap⟩

theorem capacity_appendAll : (r.appendAll xs).2.values.length = r.values.length := by
  unfold appendAll
  split
  · rfl
  split
  · rfl
  · exact length_spread r.tail_le

theorem appendAll_full (h : r.values.length < r.length + xs.length) : r.appendAll xs = (false, r) := by
  have hle := r.length_le
  rw [appendAll, dif_pos (by omega)]

theorem appendAll_room (h : r.length + xs.length ≤ r.values.length) :
    (r.appendAll xs).1 = true ∧ (r.appendAll xs).2.contents = r.contents ++ xs := by
  rw [appendAll, dif_neg (by omega)]
  by_cases hnil : xs = []
  · rw [if_pos hnil]
    rw [hnil, append_nil]
    exact ⟨rfl, rfl⟩
  · rw [if_neg hnil]
    have hpos : 0 < xs.length := length_pos_iff.mpr hnil
    refine ⟨rfl, ?_⟩
    show window (spread r.values r.tail xs) r.head (r.length + xs.length) = _
    rw [r.tail_eq, window_spread (by omega) h]
    rfl

end NotificationRing

end Pandaemonium.Codex
