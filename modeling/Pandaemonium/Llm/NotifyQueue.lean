import Mathlib

/-!
# `Llm.NotifyQueue` — the notification queue (`notifyqueue.go`)

A first-in first-out queue between producers and consumers. `items` is recycled: `head` counts the slots in
front that have been consumed, and two compaction rules drop them. `PushBounded` bounds what is pending: on
overflow it keeps the newest entries and puts a marker in front of them.

Each function here is one critical section of the source under `mu`; what it tells the caller to do with the
wake-up channel is part of its result. Underneath the head index and the compactions lies the list of pending
entries (`pending`), and one lemma for each function says what becomes of it.

* `Fifo` is the queue as the consumer sees it: accepted items are numbered, and what was delivered together
  with what is pending reads, from left to right, as the accepted items in order, with a marker wherever some
  are missing and nowhere else (`Log`). Its operations carry the proof of that.
* `Follows` relates a queue to such a FIFO, and every operation keeps it (`Follows.step`).
* `delivery` — what every sequence of operations delivers.
-/

namespace Pandaemonium.Llm

open List

/-- `NotifyQueue`, without its mutex and its wake-up channel. -/
structure NotifyQueue (T ε : Type) where
  items : List T
  head : Nat
  closed : Bool
  err : Option ε
  head_le : head ≤ items.length

/-- The outcome of one pass of `Next` through its critical section. -/
inductive Pass (T ε : Type) where
  /-- an item is returned; `rearm`: the wake-up channel is signalled before -/
  | item (x : T) (rearm : Bool)
  /-- the terminal error is returned, `none` being `ErrQueueClosed`, and the channel is signalled -/
  | closed (err : Option ε)
  /-- the caller waits for a wake-up -/
  | wait
deriving DecidableEq, Repr

namespace NotifyQueue

variable {T ε : Type} (q : NotifyQueue T ε)

/-- `NewNotifyQueue`. -/
def new : NotifyQueue T ε := ⟨[], 0, false, none, Nat.le_refl 0⟩

/-- `compactLocked`: the consumed slots are dropped. -/
def compactLocked : NotifyQueue T ε := ⟨q.items.drop q.head, 0, q.closed, q.err, Nat.zero_le _⟩

/-- `Push`; the channel is signalled when the item is accepted. -/
def push (item : T) : NotifyQueue T ε × Bool :=
  if q.closed then (q, false)
  else
    (⟨q.items ++ [item], q.head, q.closed, q.err,
      Nat.le_trans q.head_le (by rw [length_append]; exact Nat.le_add_right _ _)⟩, true)

/-- The overflow rule of `PushBounded` on the slots of a compacted queue. -/
def evict (items : List T) (capacity : Nat) (gap : Nat → Option T) : List T :=
  if items.length ≥ capacity then
    let keep := capacity - 2
    let dropped := items.length - keep
    (gap dropped).toList ++ items.drop (items.length - keep)
  else items

/-- The slots `PushBounded` goes on with, `head` being zero then. -/
def compacted : List T := if q.head > 0 then q.compactLocked.items else q.items

/-- `PushBounded`; the channel is signalled when the item is accepted. -/
def pushBounded (item : T) (capacity : Nat) (gap : Nat → Option T) : NotifyQueue T ε × Bool :=
  if q.closed then (q, false)
  else (⟨evict q.compacted capacity gap ++ [item], 0, q.closed, q.err, Nat.zero_le _⟩, true)

/-- The slots and the head behind a delivered item. -/
def recycle (items : List T) (head : Nat) (closed : Bool) (err : Option ε)
    (h : head ≤ items.length) : NotifyQueue T ε :=
  let q : NotifyQueue T ε := ⟨items, head, closed, err, h⟩
  if head = items.length then ⟨[], 0, closed, err, Nat.le_refl 0⟩
  else if head > 1024 ∧ head * 2 ≥ items.length then q.compactLocked
  else q

/-- One pass of the loop of `Next`. -/
def next [Inhabited T] : NotifyQueue T ε × Pass T ε :=
  if h : q.head < q.items.length then
    let q' := recycle (q.items.set q.head default) (q.head + 1) q.closed q.err
      (by rw [length_set]; exact h)
    (q', .item (q.items.get ⟨q.head, h⟩) (decide (q'.head < q'.items.length) || q'.closed))
  else if q.closed then (q, .closed q.err)
  else (q, .wait)

/-- `Close`; the channel is signalled when this call closes the queue. -/
def close (err : Option ε) : NotifyQueue T ε × Bool :=
  if q.closed then (q, false) else (⟨q.items, q.head, true, err, q.head_le⟩, true)

/-! ## The pending entries -/

/-- The entries not delivered yet. -/
def pending : List T := q.items.drop q.head

variable {q}

theorem compacted_eq : q.compacted = q.pending := by
  unfold compacted pending
  by_cases h : q.head > 0
  · rw [if_pos h]
    rfl
  · rw [if_neg h, Nat.eq_zero_of_not_pos h, drop_zero]

theorem push_closed (h : q.closed = true) (item : T) : q.push item = (q, false) := by
  rw [push, if_pos h]

/-- An accepted item becomes the last pending entry. -/
theorem push_open (h : q.closed = false) (item : T) :
    (q.push item).2 = true ∧ (q.push item).1.pending = q.pending ++ [item] ∧
      (q.push item).1.closed = false := by
  rw [push, if_neg (by rw [h]; nofun)]
  exact ⟨rfl, drop_append_of_le_length q.head_le, h⟩

theorem pushBounded_closed (h : q.closed = true) (item : T) (capacity : Nat) (gap : Nat → Option T) :
    q.pushBounded item capacity gap = (q, false) := by
  rw [pushBounded, if_pos h]

theorem pushBounded_open (h : q.closed = false) (item : T) (capacity : Nat) (gap : Nat → Option T) :
    (q.pushBounded item capacity gap).2 = true ∧
      (q.pushBounded item capacity gap).1.pending = evict q.pending capacity gap ++ [item] ∧
      (q.pushBounded item capacity gap).1.closed = false := by
  rw [pushBounded, if_neg (by rw [h]; nofun)]
  refine ⟨rfl, ?_, h⟩
  show evict q.compacted capacity gap ++ [item] = _
  rw [compacted_eq]

/-- A push without effect leaves the queue as it is. -/
theorem push_refused {item : T} (h : (q.push item).2 = false) : (q.push item).1 = q := by
  cases hc : q.closed with
  | true => rw [push_closed hc]
  | false => exact nomatch h.symm.trans (push_open hc item).1

theorem pushBounded_refused {item : T} {capacity : Nat} {gap : Nat → Option T}
    (h : (q.pushBounded item capacity gap).2 = false) : (q.pushBounded item capacity gap).1 = q := by
  cases hc : q.closed with
  | true => rw [pushBounded_closed hc]
  | false => exact nomatch h.symm.trans (pushBounded_open hc item capacity gap).1

/-- Closing the queue leaves what is in it. -/
@[simp] theorem pending_close (err : Option ε) : (q.close err).1.pending = q.pending := by
  unfold close
  split
  all_goals rfl

variable {err : Option ε}

theorem close_refused (h : (q.close err).2 = false) : (q.close err).1 = q := by
  unfold close at h ⊢
  cases hc : q.closed with
  | true => rfl
  | false =>
    rw [hc] at h
    cases h

@[simp] theorem recycle_closed {items : List T} {head : Nat} {closed : Bool}
    {h : head ≤ items.length} : (recycle items head closed err h).closed = closed := by
  unfold recycle
  dsimp only
  split
  · rfl
  · split <;> rfl

@[simp] theorem recycle_err {items : List T} {head : Nat} {closed : Bool}
    {h : head ≤ items.length} : (recycle items head closed err h).err = err := by
  unfold recycle
  dsimp only
  split
  · rfl
  · split <;> rfl

/-- Neither compaction loses a pending entry. -/
theorem recycle_pending {items : List T} {head : Nat} {closed : Bool}
    {h : head ≤ items.length} : (recycle items head closed err h).pending = items.drop head := by
  unfold recycle
  dsimp only
  split
  · rename_i heq
    rw [heq, drop_length]
    rfl
  · split <;> rfl

variable [Inhabited T]

/-- A pending entry is delivered, and nothing else changes. -/
theorem next_cons {x : T} {rest : List T} (h : q.pending = x :: rest) :
    (∃ rearm, q.next.2 = .item x rearm ∧ (rearm = true ↔ rest ≠ [] ∨ q.closed = true)) ∧
      q.next.1.pending = rest ∧ q.next.1.closed = q.closed ∧ q.next.1.err = q.err := by
  have hlt : q.head < q.items.length := by
    rcases Nat.lt_or_ge q.head q.items.length with hlt | hge
    · exact hlt
    · rw [pending, drop_eq_nil_of_le hge] at h
      cases h
  have hcons : q.items[q.head] :: q.items.drop (q.head + 1) = x :: rest := by
    rw [← drop_eq_getElem_cons hlt]
    exact h
  obtain ⟨hx, hrest⟩ := List.cons.inj hcons
  have hpending : q.next.1.pending = rest := by
    rw [next, dif_pos hlt]
    dsimp only
    rw [recycle_pending, drop_set, if_pos (Nat.lt_succ_self _), hrest]
  have hclosed : q.next.1.closed = q.closed := by
    rw [next, dif_pos hlt]
    exact recycle_closed
  refine ⟨⟨decide (q.next.1.head < q.next.1.items.length) || q.next.1.closed, ?_, ?_⟩, hpending, hclosed, ?_⟩
  · rw [next, dif_pos hlt]
    dsimp only
    rw [get_eq_getElem, hx]
  · rw [Bool.or_eq_true, decide_eq_true_iff, hclosed, ← hpending, pending, ne_eq, drop_eq_nil_iff, Nat.not_le]
  · rw [next, dif_pos hlt]
    exact recycle_err

theorem next_nil (h : q.pending = []) : q.next = (q, if q.closed then .closed q.err else .wait) := by
  have hge : ¬ q.head < q.items.length := Nat.not_lt.mpr (drop_eq_nil_iff.mp h)
  rw [next, dif_neg hge]
  cases q.closed <;> rfl

end NotifyQueue

/-! ## The marked FIFO -/

/-- What the consumer receives: an accepted item, with its number in the order of acceptance, or a marker. -/
inductive Entry (T : Type) where
  | item (n : Nat) (x : T)
  | gap (marker : T)
deriving DecidableEq, Repr

namespace Entry

variable {T : Type}

def value : Entry T → T
  | .item _ x => x
  | .gap m => m

def isItem : Entry T → Bool
  | .item _ _ => true
  | .gap _ => false

def item? : Entry T → Option T
  | .item _ x => some x
  | .gap _ => none

def gap? : Entry T → Option T
  | .item _ _ => none
  | .gap m => some m

end Entry

/-- Entries read from left to right, up to the last accepted item: the items below `e` have been passed, and
    `seen` tells whether a marker has come since the last item. An item that does not follow the one before
    it has a marker in front, and a marker has an item behind it that does not follow the one before. -/
inductive Log {T : Type} (accepted : List T) : Nat → Bool → List (Entry T) → Prop where
  | done : Log accepted accepted.length false []
  | item {e x l} : accepted[e]? = some x → Log accepted (e + 1) false l →
      Log accepted e false (.item e x :: l)
  | missing {e k x l} : e < k → accepted[k]? = some x → Log accepted (k + 1) false l →
      Log accepted e true (.item k x :: l)
  | gap {e seen m l} : Log accepted e true l → Log accepted e seen (.gap m :: l)

namespace Log

variable {T : Type} {accepted : List T} {e : Nat} {seen : Bool} {l : List (Entry T)}

/-- One item more is accepted, and entered behind the others. -/
theorem concat (h : Log accepted e seen l) (x : T) :
    Log (accepted ++ [x]) e seen (l ++ [.item accepted.length x]) := by
  have hkeep : ∀ {k : Nat} {y : T}, accepted[k]? = some y → (accepted ++ [x])[k]? = some y := by
    intro k y hk
    rw [getElem?_append_left (List.getElem?_eq_some_iff.mp hk).1]
    exact hk
  induction h with
  | done =>
    have hdone : Log (accepted ++ [x]) (accepted ++ [x]).length false [] := .done
    rw [length_append] at hdone
    exact .item getElem?_concat_length hdone
  | item hx _ ih => exact .item (hkeep hx) ih
  | missing hk hx _ ih => exact .missing hk (hkeep hx) ih
  | gap _ ih => exact .gap ih

/-- Behind a marker fewer items may have been passed. -/
theorem mono {e' : Nat} (h : Log accepted e true l) (he : e' ≤ e) : Log accepted e' true l := by
  generalize hs : true = seen at h
  induction h with
  | done | item => cases hs
  | missing hk hx hl => exact .missing (Nat.lt_of_le_of_lt he hk) hx hl
  | gap _ ih => exact .gap (ih he rfl)

/-- Items are forgotten in front of what follows: a marker stands for them. -/
theorem skip {e' : Nat} (h : Log accepted e seen l) (he : e' < e) (hl : l ≠ []) : Log accepted e' true l := by
  cases h with
  | done => exact absurd rfl hl
  | item hx h => exact .missing he hx h
  | missing hk hx h => exact .missing (Nat.lt_trans he hk) hx h
  | gap h => exact .gap (h.mono (Nat.le_of_lt he))

/-- Reading on from a position inside. -/
theorem rest {p : List (Entry T)} (h : Log accepted e seen (p ++ l)) :
    ∃ e' seen', Log accepted e' seen' l ∧ e ≤ e' ∧ ((∃ b ∈ p, b.isItem = true) → e < e') := by
  induction p generalizing e seen with
  | nil => exact ⟨e, seen, h, Nat.le_refl e, fun ⟨_, hb, _⟩ => nomatch hb⟩
  | cons b p ih =>
    cases h with
    | item hx hl =>
      obtain ⟨e', seen', hl', he, _⟩ := ih hl
      exact ⟨e', seen', hl', Nat.le_of_succ_le he, fun _ => he⟩
    | @missing _ k _ _ hk hx hl =>
      obtain ⟨e', seen', hl', he, _⟩ := ih hl
      have hlt : e < e' := Nat.lt_of_lt_of_le (Nat.lt_succ_of_lt hk) he
      exact ⟨e', seen', hl', Nat.le_of_lt hlt, fun _ => hlt⟩
    | gap hl =>
      obtain ⟨e', seen', hl', he, hitem⟩ := ih hl
      refine ⟨e', seen', hl', he, fun ⟨b, hb, hbi⟩ => hitem ?_⟩
      rcases mem_cons.mp hb with rfl | hb
      · cases hbi
      · exact ⟨b, hb, hbi⟩

/-- Entries with an item among them are replaced by a marker. -/
theorem evict {p : List (Entry T)} (h : Log accepted e seen (p ++ l)) (hp : ∃ b ∈ p, b.isItem = true)
    (hl : l ≠ []) (m : T) : Log accepted e seen (.gap m :: l) := by
  obtain ⟨e', seen', hl', _, hlt⟩ := h.rest
  exact .gap (hl'.skip (hlt hp) hl)

/-- What can replace an end of the entries wherever it begins can replace it here. -/
theorem append_congr {p l' : List (Entry T)} (hll : ∀ e seen, Log accepted e seen l → Log accepted e seen l')
    (h : Log accepted e seen (p ++ l)) : Log accepted e seen (p ++ l') := by
  induction p generalizing e seen with
  | nil => exact hll e seen h
  | cons b p ih =>
    cases h with
    | item hx hl => exact .item hx (ih hl)
    | missing hk hx hl => exact .missing hk hx (ih hl)
    | gap hl => exact .gap (ih hl)

/-- The items are accepted items in order. -/
theorem sublist (h : Log accepted e seen l) : (l.filterMap Entry.item?).Sublist (accepted.drop e) := by
  induction h with
  | done => exact nil_sublist _
  | @item e x l hx _ ih =>
    rw [drop_eq_getElem?_toList_append, hx]
    exact ih.cons_cons x
  | @missing e k x l hk hx _ ih =>
    have hdrop : accepted.drop k = x :: accepted.drop (k + 1) := by
      rw [drop_eq_getElem?_toList_append, hx]
      rfl
    have hk' : (accepted.drop k).Sublist (accepted.drop e) :=
      drop_sublist_drop_left accepted (Nat.le_of_lt hk)
    refine List.Sublist.trans ?_ hk'
    rw [hdrop]
    exact ih.cons_cons x
  | gap _ ih => exact ih

/-- Every marker stands for an item that is missing. -/
theorem count (h : Log accepted e seen l) :
    l.countP Entry.isItem + e ≤ accepted.length ∧
      (seen = true ∨ (∃ b ∈ l, b.isItem = false) → l.countP Entry.isItem + e < accepted.length) := by
  induction h with
  | done => exact ⟨by simp, fun h => by simp at h⟩
  | item hx _ ih =>
    rw [countP_cons_of_pos rfl, Nat.add_assoc, Nat.add_comm 1]
    refine ⟨ih.1, fun h => ih.2 (.inr ?_)⟩
    rcases h with h | ⟨b, hb, hbi⟩
    · cases h
    rcases mem_cons.mp hb with rfl | hb
    · cases hbi
    · exact ⟨b, hb, hbi⟩
  | missing hk hx _ ih =>
    rw [countP_cons_of_pos rfl]
    have hle := ih.1
    exact ⟨by omega, fun _ => by omega⟩
  | gap _ ih =>
    rw [countP_cons_of_neg (by simp [Entry.isItem])]
    exact ⟨ih.1, fun _ => ih.2 (.inl rfl)⟩

/-- Markers alone in front of an item: there are some exactly when items are missing there. -/
theorem gaps {ms : List (Entry T)} {k : Nat} {x : T} (h : Log accepted e seen (ms ++ .item k x :: l))
    (hms : ∀ m ∈ ms, m.isItem = false) : e ≤ k ∧ (seen = true ∨ ms ≠ [] ↔ k ≠ e) := by
  induction ms generalizing seen with
  | nil =>
    cases h with
    | item => exact ⟨Nat.le_refl _, by simp⟩
    | missing hk => exact ⟨Nat.le_of_lt hk, by simp [Nat.ne_of_gt hk]⟩
  | cons m ms ih =>
    cases h with
    | item | missing => exact nomatch hms _ mem_cons_self
    | gap h =>
      obtain ⟨hle, hiff⟩ := ih h (fun m hm => hms m (mem_cons_of_mem _ hm))
      refine ⟨hle, iff_of_true (.inr nofun) (hiff.mp (.inl rfl))⟩

/-- The last entry is the item that was accepted last. -/
theorem getLast? (h : Log accepted e seen l) (hl : l ≠ []) :
    ∃ x, accepted.getLast? = some x ∧ l.getLast? = some (.item (accepted.length - 1) x) := by
  -- an item with nothing behind it is the last one accepted
  have hlast : ∀ {k : Nat} {x : T} {l : List (Entry T)}, accepted[k]? = some x →
      Log accepted (k + 1) false l → (l ≠ [] → ∃ x, accepted.getLast? = some x ∧
        l.getLast? = some (.item (accepted.length - 1) x)) →
      ∃ y, accepted.getLast? = some y ∧
        (Entry.item k x :: l).getLast? = some (.item (accepted.length - 1) y) := by
    intro k x l hx h ih
    cases l with
    | nil =>
      generalize hn : k + 1 = n at h
      cases h
      rw [getLast?_eq_getElem?, ← hn, Nat.add_sub_cancel]
      exact ⟨x, hx, rfl⟩
    | cons b l =>
      rw [getLast?_cons_cons]
      exact ih nofun
  induction h with
  | done => exact absurd rfl hl
  | item hx h ih | missing _ hx h ih => exact hlast hx h ih
  | @gap _ _ _ l h ih =>
    cases l with
    | nil => nomatch h
    | cons b l =>
      rw [getLast?_cons_cons]
      exact ih nofun

end Log

/-- The queue as the consumer sees it. At most one marker is pending, in front of all pending items. -/
structure Fifo (T : Type) where
  accepted : List T
  delivered : List (Entry T)
  pending : List (Entry T)
  log : Log accepted 0 false (delivered ++ pending)
  single : ∀ b ∈ pending.tail, b.isItem = true

namespace Fifo

variable {T : Type} (f : Fifo T)

def empty : Fifo T := ⟨[], [], [], .done, nofun⟩

/-- An item is accepted. -/
def push (x : T) : Fifo T where
  accepted := f.accepted ++ [x]
  delivered := f.delivered
  pending := f.pending ++ [.item f.accepted.length x]
  log := by
    rw [← append_assoc]
    exact f.log.concat x
  single := by
    intro b hb
    cases hp : f.pending with
    | nil =>
      rw [hp] at hb
      cases hb
    | cons a rest =>
      rw [hp] at hb
      rcases mem_append.mp hb with hb | hb
      · exact f.single b (by rw [hp]; exact hb)
      · rw [mem_singleton.mp hb]
        rfl

/-- The oldest pending entries, two or more, are dropped with a marker `m` in their place. -/
def evict (m : T) (n : Nat) (hn : 2 ≤ n) (hlen : n < f.pending.length) : Fifo T where
  accepted := f.accepted
  delivered := f.delivered
  pending := .gap m :: f.pending.drop n
  log := by
    refine f.log.append_congr (fun e seen h => ?_)
    rw [← take_append_drop n f.pending] at h
    refine h.evict ?_ ?_ m
    · -- the second of the entries is an item
      have htail : f.pending.get ⟨1, Nat.lt_of_lt_of_le hn (Nat.le_of_lt hlen)⟩ ∈ f.pending.tail := by
        rw [← drop_one]
        exact mem_drop_iff_getElem.mpr ⟨0, Nat.lt_of_lt_of_le hn (Nat.le_of_lt hlen), rfl⟩
      refine ⟨_, ?_, f.single _ htail⟩
      exact mem_take_iff_getElem.mpr ⟨1, Nat.lt_min.mpr ⟨hn, Nat.lt_of_lt_of_le hn (Nat.le_of_lt hlen)⟩, rfl⟩
    · exact ne_nil_of_length_pos (by rw [length_drop]; exact Nat.sub_pos_of_lt hlen)
  single := by
    intro b hb
    have hb' : b ∈ f.pending.drop n := hb
    refine f.single b (mem_of_mem_drop (i := n - 1) ?_)
    rw [← drop_one, drop_drop, Nat.add_sub_cancel' (Nat.le_of_lt hn)]
    exact hb'

/-- The first pending entry is delivered. -/
def next (b : Entry T) (rest : List (Entry T)) (h : f.pending = b :: rest) : Fifo T where
  accepted := f.accepted
  delivered := f.delivered ++ [b]
  pending := rest
  log := by
    rw [append_assoc, singleton_append, ← h]
    exact f.log
  single := by
    intro c hc
    refine f.single c ?_
    rw [h]
    exact mem_of_mem_tail hc

variable {f}

/-- Behind the first pending entry there is no marker. -/
theorem drop_gap? {n : Nat} (hn : 1 ≤ n) : (f.pending.drop n).filterMap Entry.gap? = [] := by
  rw [filterMap_eq_nil_iff]
  intro b hb
  have htail : b ∈ f.pending.tail := by
    refine mem_of_mem_drop (i := n - 1) ?_
    rw [← drop_one, drop_drop, Nat.add_sub_cancel' hn]
    exact hb
  cases b with
  | item k x => rfl
  | gap m => exact absurd (f.single _ htail) (by simp [Entry.isItem])

theorem subsequence : (f.delivered.filterMap Entry.item?).Sublist f.accepted := by
  have hsub := f.log.sublist
  rw [drop_zero, filterMap_append] at hsub
  exact (sublist_append_left _ _).trans hsub

/-- Between two delivered items there are markers exactly when accepted items are missing. -/
theorem between (l ms l' : List (Entry T)) (j : Nat) (x : T) (k : Nat) (y : T)
    (hd : f.delivered = l ++ .item j x :: (ms ++ .item k y :: l'))
    (hms : ∀ m ∈ ms, m.isItem = false) : j < k ∧ (ms ≠ [] ↔ k ≠ j + 1) := by
  have hlog := f.log
  rw [hd, append_assoc] at hlog
  obtain ⟨e', seen', hrest, _⟩ := hlog.rest
  have hbehind : Log f.accepted (j + 1) false (ms ++ .item k y :: (l' ++ f.pending)) := by
    have hshape : Entry.item j x :: (ms ++ .item k y :: l') ++ f.pending
        = .item j x :: (ms ++ .item k y :: (l' ++ f.pending)) := by simp
    rw [hshape] at hrest
    cases hrest with
    | item _ h | missing _ _ h => exact h
  obtain ⟨hle, hiff⟩ := hbehind.gaps hms
  exact ⟨hle, by simpa using hiff⟩

theorem first (ms l' : List (Entry T)) (k : Nat) (y : T) (hd : f.delivered = ms ++ .item k y :: l')
    (hms : ∀ m ∈ ms, m.isItem = false) : ms ≠ [] ↔ k ≠ 0 := by
  have hlog := f.log
  rw [hd, append_assoc] at hlog
  obtain ⟨_, hiff⟩ := Log.gaps hlog hms
  simpa using hiff

/-- No marker without a missing item. -/
theorem complete (hcount : (f.delivered ++ f.pending).countP Entry.isItem = f.accepted.length) :
    ∀ b ∈ f.delivered, b.isItem = true := by
  intro b hb
  cases hbi : b.isItem with
  | true => rfl
  | false =>
    have hlt := f.log.count.2 (.inr ⟨b, mem_append_left _ hb, hbi⟩)
    rw [hcount] at hlt
    exact absurd hlt (Nat.lt_irrefl _)

/-- The last pending entry is the item that was accepted last. -/
theorem last {accepted : List T} {x : T} (hacc : f.accepted = accepted ++ [x]) (hp : f.pending ≠ []) :
    f.pending.getLast? = some (.item accepted.length x) := by
  obtain ⟨y, hy, hlast⟩ := f.log.getLast? (append_ne_nil_of_right_ne_nil _ hp)
  rw [hacc, getLast?_concat] at hy
  cases hy
  rw [getLast?_append_of_ne_nil _ hp, hacc, length_append] at hlast
  exact hlast

end Fifo

/-! ## Sequences of operations -/

inductive Op (T ε : Type) where
  | push (item : T)
  | pushBounded (item : T) (capacity : Nat) (gap : Nat → Option T)
  | next
  | close (err : Option ε)

/-- A queue after some operations, with the items it has accepted, those `Next` has returned, and the markers
    that `gap` has supplied for what overflowed. -/
structure Run (T ε : Type) where
  queue : NotifyQueue T ε
  accepted : List T
  delivered : List T
  markers : List T

section

variable {T ε : Type}

/-- The bound is two or more, and a marker is always supplied. -/
def Op.Marks : Op T ε → Prop
  | .pushBounded _ capacity gap => 2 ≤ capacity ∧ ∀ n, (gap n).isSome = true
  | _ => True

/-- The item an operation offers. -/
def Op.item? : Op T ε → Option T
  | .push x => some x
  | .pushBounded x _ _ => some x
  | _ => none

/-- **The marker of an overflow**: what `gap` supplies when an open queue holds `capacity` entries or more,
    asked with the number of entries that have to go. -/
def Run.marker? (r : Run T ε) : Op T ε → Option T
  | .pushBounded _ capacity gap =>
    if r.queue.closed = false ∧ r.queue.pending.length ≥ capacity then
      gap (r.queue.pending.length - (capacity - 2))
    else none
  | _ => none

/-- The result of a push is noted. -/
def Run.offer (r : Run T ε) (x : T) (res : NotifyQueue T ε × Bool) (marker : Option T) : Run T ε :=
  ⟨res.1, if res.2 then r.accepted ++ [x] else r.accepted, r.delivered, r.markers ++ marker.toList⟩

/-- One operation. A `Next` that would wait leaves everything as it is. -/
def Run.step [Inhabited T] (r : Run T ε) : Op T ε → Run T ε
  | .push x => r.offer x (r.queue.push x) none
  | .pushBounded x capacity gap =>
    r.offer x (r.queue.pushBounded x capacity gap) (r.marker? (.pushBounded x capacity gap))
  | .next =>
    match r.queue.next with
    | (q, .item x _) => ⟨q, r.accepted, r.delivered ++ [x], r.markers⟩
    | (q, _) => ⟨q, r.accepted, r.delivered, r.markers⟩
  | .close err => ⟨(r.queue.close err).1, r.accepted, r.delivered, r.markers⟩

/-- A new queue after the operations. -/
def run [Inhabited T] (ops : List (Op T ε)) : Run T ε := ops.foldl Run.step ⟨.new, [], [], []⟩

variable {r : Run T ε}

/-- `Next` with nothing pending returns no item. -/
theorem Run.step_next_nil [Inhabited T] (h : r.queue.pending = []) : r.step .next = r := by
  rw [Run.step, NotifyQueue.next_nil h]
  cases r.queue.closed <;> rfl

theorem Run.step_next_cons [Inhabited T] {x : T} {rest : List T} (h : r.queue.pending = x :: rest) :
    r.step .next = ⟨r.queue.next.1, r.accepted, r.delivered ++ [x], r.markers⟩ := by
  obtain ⟨⟨rearm, hitem, _⟩, _⟩ := NotifyQueue.next_cons h
  rw [Run.step, ← Prod.eta r.queue.next, hitem]

/-- The run is the one the FIFO records. Its markers are those of overflows, each used once and in order. -/
structure Follows (r : Run T ε) (f : Fifo T) : Prop where
  accepted : r.accepted = f.accepted
  delivered : r.delivered = f.delivered.map Entry.value
  pending : r.queue.pending = f.pending.map Entry.value
  gaps : (f.delivered ++ f.pending).filterMap Entry.gap? <+ r.markers

namespace Follows

variable {r : Run T ε} {f : Fifo T}

section

variable (h : Follows r f)
include h

theorem offer_open {x : T} {res : NotifyQueue T ε × Bool} (hres : res.2 = true)
    (hpending : res.1.pending = r.queue.pending ++ [x]) : Follows (r.offer x res none) (f.push x) where
  accepted := by
    show (if res.2 then r.accepted ++ [x] else r.accepted) = f.accepted ++ [x]
    rw [hres, if_pos rfl, h.accepted]
  delivered := h.delivered
  pending := by
    show res.1.pending = (f.pending ++ [_]).map Entry.value
    rw [hpending, h.pending, map_append]
    rfl
  gaps := by
    show (f.delivered ++ (f.pending ++ [_])).filterMap Entry.gap? <+ r.markers ++ []
    rw [← append_assoc, filterMap_append, append_nil]
    exact (append_nil _).symm ▸ h.gaps

theorem offer_closed (x : T) : Follows (r.offer x (r.queue, false) none) f :=
  ⟨h.accepted, h.delivered, h.pending, h.gaps.trans (sublist_append_left _ _)⟩

/-- `PushBounded` on an open queue: nothing is dropped, or the oldest entries give way to a marker. -/
theorem pushBounded (hopen : r.queue.closed = false) {x : T} {capacity : Nat} {gap : Nat → Option T}
    (hcap : 2 ≤ capacity) (hgap : ∀ n, (gap n).isSome = true) :
    ∃ f', Follows (r.offer x (r.queue.pushBounded x capacity gap) (r.marker? (.pushBounded x capacity gap))) f' ∧
      ∀ m ∈ r.marker? (.pushBounded x capacity gap), f'.pending.head? = some (.gap m) := by
  obtain ⟨hres, hpending, _⟩ := NotifyQueue.pushBounded_open hopen x capacity gap
  by_cases hover : r.queue.pending.length ≥ capacity
  · obtain ⟨m, hm⟩ := Option.isSome_iff_exists.mp (hgap (r.queue.pending.length - (capacity - 2)))
    have hlen : (f.push x).pending.length = r.queue.pending.length + 1 := by
      rw [h.pending, length_map]
      exact length_append
    let n := r.queue.pending.length - (capacity - 2)
    have hn : 2 ≤ n := by omega
    have hn' : n < (f.push x).pending.length := by omega
    have hmarker : r.marker? (.pushBounded x capacity gap) = some m := by
      rw [Run.marker?, if_pos ⟨hopen, hover⟩, hm]
    rw [hmarker]
    refine ⟨(f.push x).evict m n hn hn', ⟨?_, h.delivered, ?_, ?_⟩, fun _ hm' => congrArg (some ∘ Entry.gap)
      (Option.some.inj hm')⟩
    · show (if (r.queue.pushBounded x capacity gap).2 then r.accepted ++ [x] else r.accepted)
        = f.accepted ++ [x]
      rw [hres, if_pos rfl, h.accepted]
    · show (r.queue.pushBounded x capacity gap).1.pending
        = (Entry.gap m :: (f.pending ++ [Entry.item f.accepted.length x]).drop n).map Entry.value
      have hle : n ≤ f.pending.length := by
        rw [← length_map (f := Entry.value), ← h.pending]
        exact Nat.sub_le _ _
      rw [hpending, NotifyQueue.evict, if_pos hover, drop_append_of_le_length hle, map_cons,
        map_append, map_drop, ← h.pending]
      show (gap n).toList ++ r.queue.pending.drop n ++ [x] = _
      rw [hm]
      rfl
    · -- the marker of an earlier overflow that is still pending goes with the oldest entries
      show (f.delivered ++ .gap m :: (f.push x).pending.drop n).filterMap Entry.gap? <+ r.markers ++ [m]
      rw [filterMap_append, filterMap_cons_some (by rfl), Fifo.drop_gap? (by omega)]
      refine Sublist.append_right (Sublist.trans ?_ h.gaps) [m]
      rw [filterMap_append]
      exact sublist_append_left _ _
  · have hmarker : r.marker? (.pushBounded x capacity gap) = none := by
      rw [Run.marker?, if_neg (fun h => hover h.2)]
    rw [hmarker]
    refine ⟨f.push x, h.offer_open hres ?_, fun m hm => by cases hm⟩
    rw [hpending, NotifyQueue.evict, if_neg hover]

theorem close [Inhabited T] (err : Option ε) : Follows (r.step (.close err)) f := by
  refine ⟨h.accepted, h.delivered, ?_, h.gaps⟩
  show (r.queue.close err).1.pending = _
  rw [← h.pending, NotifyQueue.close]
  cases r.queue.closed <;> rfl

theorem next [Inhabited T] : ∃ f', Follows (r.step .next) f' := by
  cases hp : f.pending with
  | nil =>
    have hnil : r.queue.pending = [] := by rw [h.pending, hp]; rfl
    refine ⟨f, ?_⟩
    rw [Run.step_next_nil hnil]
    exact h
  | cons b rest =>
    have hcons : r.queue.pending = b.value :: rest.map Entry.value := by rw [h.pending, hp]; rfl
    obtain ⟨_, hpending, _⟩ := NotifyQueue.next_cons hcons
    refine ⟨f.next b rest hp, ?_⟩
    rw [Run.step_next_cons hcons]
    refine ⟨h.accepted, ?_, hpending, ?_⟩
    · show r.delivered ++ [b.value] = (f.delivered ++ [b]).map Entry.value
      rw [h.delivered, map_append]
      rfl
    · show (f.delivered ++ [b] ++ rest).filterMap Entry.gap? <+ r.markers
      rw [append_assoc, singleton_append, ← hp]
      exact h.gaps

/-- **Every operation follows the marked FIFO**, and one that overflows leaves its marker at the head. -/
theorem step [Inhabited T] {op : Op T ε} (hop : op.Marks) :
    ∃ f', Follows (r.step op) f' ∧ ∀ m ∈ r.marker? op, f'.pending.head? = some (.gap m) := by
  cases op with
  | push x =>
    show ∃ f', Follows (r.offer x (r.queue.push x) none) f' ∧ _
    cases hc : r.queue.closed with
    | true =>
      rw [NotifyQueue.push_closed hc]
      exact ⟨f, h.offer_closed x, fun m hm => by cases hm⟩
    | false =>
      obtain ⟨hres, hpending, _⟩ := NotifyQueue.push_open hc x
      exact ⟨f.push x, h.offer_open hres hpending, fun m hm => by cases hm⟩
  | pushBounded x capacity gap =>
    cases hc : r.queue.closed with
    | true =>
      have hmarker : r.marker? (.pushBounded x capacity gap) = none := by
        rw [Run.marker?, if_neg (fun h => by rw [hc] at h; cases h.1)]
      rw [Run.step, NotifyQueue.pushBounded_closed hc, hmarker]
      exact ⟨f, h.offer_closed x, fun m hm => by cases hm⟩
    | false => exact h.pushBounded hc hop.1 hop.2
  | next =>
    obtain ⟨f', hf'⟩ := h.next
    exact ⟨f', hf', fun m hm => by cases hm⟩
  | close err => exact ⟨f, h.close err, fun m hm => by cases hm⟩

end

end Follows

variable [Inhabited T]

theorem run_concat (ops : List (Op T ε)) (op : Op T ε) : run (ops ++ [op]) = (run ops).step op := by
  rw [run, foldl_append]
  rfl

/-- Every sequence of operations follows the marked FIFO. -/
theorem follows_run (ops : List (Op T ε)) (hops : ∀ op ∈ ops, op.Marks) :
    ∃ f, Follows (run ops) f ∧ ∀ ops' op m, ops = ops' ++ [op] → (run ops').marker? op = some m →
      f.pending.head? = some (.gap m) := by
  induction ops using List.reverseRecOn with
  | nil =>
    refine ⟨.empty, ⟨rfl, rfl, rfl, .slnil⟩, ?_⟩
    intro ops' op m h
    exact absurd h.symm (concat_ne_nil op ops')
  | append_singleton ops op ih =>
    obtain ⟨f, hf, -⟩ := ih (fun o ho => hops o (mem_append_left _ ho))
    obtain ⟨f', hf', hhead⟩ := hf.step (hops op (mem_append_right _ mem_cons_self))
    rw [run_concat]
    refine ⟨f', hf', ?_⟩
    intro ops' op' m h hm
    obtain ⟨rfl, hop⟩ := append_inj' h rfl
    cases hop
    exact hhead m hm

/-! ## What is delivered -/

/-- A closed queue takes nothing more, and moves what is pending to the consumer. -/
theorem step_closed (h : r.queue.closed = true) (op : Op T ε) :
    (r.step op).queue.closed = true ∧ (r.step op).queue.err = r.queue.err ∧
      (r.step op).delivered ++ (r.step op).queue.pending = r.delivered ++ r.queue.pending := by
  cases op with
  | push x =>
    rw [Run.step, NotifyQueue.push_closed h]
    exact ⟨h, rfl, rfl⟩
  | pushBounded x capacity gap =>
    rw [Run.step, NotifyQueue.pushBounded_closed h]
    exact ⟨h, rfl, rfl⟩
  | close err =>
    rw [Run.step, NotifyQueue.close, if_pos h]
    exact ⟨h, rfl, rfl⟩
  | next =>
    cases hp : r.queue.pending with
    | nil =>
      rw [Run.step_next_nil hp, hp]
      exact ⟨h, rfl, rfl⟩
    | cons x rest =>
      obtain ⟨_, hpending, hclosed, herr⟩ := NotifyQueue.next_cons hp
      rw [Run.step_next_cons hp]
      refine ⟨hclosed.trans h, herr, ?_⟩
      show r.delivered ++ [x] ++ r.queue.next.1.pending = _
      rw [hpending, append_assoc]
      rfl

theorem run_closed (h : r.queue.closed = true) (ops : List (Op T ε)) :
    (ops.foldl Run.step r).queue.closed = true ∧ (ops.foldl Run.step r).queue.err = r.queue.err ∧
      (ops.foldl Run.step r).delivered ++ (ops.foldl Run.step r).queue.pending
        = r.delivered ++ r.queue.pending := by
  induction ops generalizing r with
  | nil => exact ⟨h, rfl, rfl⟩
  | cons op ops ih =>
    obtain ⟨hc, he, hd⟩ := step_closed h op
    obtain ⟨hc', he', hd'⟩ := ih hc
    exact ⟨hc', he'.trans he, hd'.trans hd⟩

/-- What is true of a sequence of operations `ops`, read off a FIFO that records it. -/
structure Delivery (ops : List (Op T ε)) (f : Fifo T) : Prop extends Follows (run ops) f where
  /-- the delivered items are accepted items, in order -/
  subsequence : (f.delivered.filterMap Entry.item?).Sublist (run ops).accepted
  /-- between two delivered items there are markers exactly when accepted items are missing -/
  between : ∀ l ms l' j x k y, f.delivered = l ++ .item j x :: (ms ++ .item k y :: l') →
    (∀ m ∈ ms, m.isItem = false) → j < k ∧ (ms ≠ [] ↔ k ≠ j + 1)
  /-- the same before the first -/
  first : ∀ ms l' k y, f.delivered = ms ++ .item k y :: l' →
    (∀ m ∈ ms, m.isItem = false) → (ms ≠ [] ↔ k ≠ 0)
  /-- no marker is delivered when every accepted item is delivered or pending -/
  complete : (f.delivered ++ f.pending).countP Entry.isItem = (run ops).accepted.length →
    ∀ b ∈ f.delivered, b.isItem = true
  /-- an accepted item is pending behind its own push -/
  own : ∀ ops' op x, ops = ops' ++ [op] → op.item? = some x → (run ops').queue.closed = false →
    f.pending.getLast? = some (.item (run ops').accepted.length x)
  /-- behind an overflow the marker that was supplied for it is the first pending entry -/
  marked : ∀ ops' op m, ops = ops' ++ [op] → (run ops').marker? op = some m →
    f.pending.head? = some (.gap m)
  /-- at most `capacity` entries are pending behind an accepted `PushBounded` -/
  bounded : ∀ ops' x capacity gap, ops = ops' ++ [.pushBounded x capacity gap] →
    (run ops').queue.closed = false → (run ops).queue.pending.length ≤ capacity
  /-- as long as something is pending `Next` returns the first of it -/
  served : ∀ x rest, (run ops).queue.pending = x :: rest →
    ∃ rearm, (run ops).queue.next.2 = .item x rearm
  /-- the terminal error comes when everything pending at the close has been delivered -/
  drained : ∀ ops' ops'' err, ops = ops' ++ ops'' → (run ops').queue.closed = true →
    (run ops).queue.next.2 = .closed err →
      (run ops).delivered = (run ops').delivered ++ (run ops').queue.pending ∧
        err = (run ops').queue.err

omit [Inhabited T] in
/-- Eviction leaves room for one entry more. -/
theorem length_evict {items : List T} {capacity : Nat} {gap : Nat → Option T} (hcap : 2 ≤ capacity) :
    (NotifyQueue.evict items capacity gap).length + 1 ≤ capacity := by
  unfold NotifyQueue.evict
  by_cases hover : items.length ≥ capacity
  · rw [if_pos hover]
    have hgap : (gap (items.length - (capacity - 2))).toList.length ≤ 1 := by
      cases gap (items.length - (capacity - 2)) <;> simp
    simp only [length_append, length_drop]
    omega
  · rw [if_neg hover]
    omega

/-- An item offered to an open queue is accepted. -/
theorem step_open {op : Op T ε} {x : T} (hop : op.item? = some x) (h : r.queue.closed = false) :
    (r.step op).accepted = r.accepted ++ [x] ∧ (r.step op).queue.pending ≠ [] := by
  cases op with
  | push y =>
    cases hop
    obtain ⟨hres, hpending, _⟩ := NotifyQueue.push_open h x
    rw [Run.step, Run.offer, hres, if_pos rfl, hpending]
    exact ⟨rfl, concat_ne_nil x _⟩
  | pushBounded y capacity gap =>
    cases hop
    obtain ⟨hres, hpending, _⟩ := NotifyQueue.pushBounded_open h x capacity gap
    rw [Run.step, Run.offer, hres, if_pos rfl, hpending]
    exact ⟨rfl, concat_ne_nil x _⟩
  | next | close => cases hop

/-- The terminal error is returned when nothing is pending. -/
theorem NotifyQueue.next_closed {q : NotifyQueue T ε} {err : Option ε} (h : q.next.2 = .closed err) :
    q.pending = [] ∧ err = q.err := by
  cases hp : q.pending with
  | nil =>
    rw [NotifyQueue.next_nil hp] at h
    cases hc : q.closed with
    | true =>
      rw [hc] at h
      cases h
      exact ⟨rfl, rfl⟩
    | false =>
      rw [hc] at h
      cases h
  | cons x rest =>
    obtain ⟨⟨rearm, hitem, _⟩, _⟩ := NotifyQueue.next_cons hp
    rw [hitem] at h
    cases h

/-- **Delivery.** Every sequence of operations delivers the accepted items in order, with markers exactly
    where some are missing, and everything pending before the terminal error. -/
theorem delivery (ops : List (Op T ε)) (hops : ∀ op ∈ ops, op.Marks) : ∃ f, Delivery ops f := by
  obtain ⟨f, hf, hmarked⟩ := follows_run ops hops
  refine ⟨f, { hf with
    subsequence := hf.accepted ▸ f.subsequence, between := f.between, first := f.first, marked := hmarked
    complete := hf.accepted ▸ f.complete, own := ?_, bounded := ?_, served := ?_, drained := ?_ }⟩
  · intro ops' op x hsplit hop hopen
    obtain ⟨hacc, hne⟩ := step_open hop hopen
    rw [← run_concat, ← hsplit] at hacc hne
    have hpending : f.pending ≠ [] := by
      intro hnil
      rw [hf.pending, hnil] at hne
      exact hne rfl
    exact f.last (by rw [← hf.accepted, hacc]) hpending
  · intro ops' x capacity gap hsplit hopen
    have hmarks := hops (.pushBounded x capacity gap) (by rw [hsplit]; simp)
    obtain ⟨_, hpending, _⟩ := NotifyQueue.pushBounded_open hopen x capacity gap
    rw [hsplit, run_concat]
    show ((run ops').queue.pushBounded x capacity gap).1.pending.length ≤ capacity
    rw [hpending, length_append]
    exact length_evict hmarks.1
  · intro x rest hp
    obtain ⟨⟨rearm, hitem, _⟩, _⟩ := NotifyQueue.next_cons hp
    exact ⟨rearm, hitem⟩
  · intro ops' ops'' err hsplit hclosed hnext
    obtain ⟨hnil, herr⟩ := NotifyQueue.next_closed hnext
    obtain ⟨_, herr', hdel⟩ := run_closed hclosed ops''
    have hrun : run ops = ops''.foldl Run.step (run ops') := by rw [hsplit, run, foldl_append]; rfl
    rw [← hrun, hnil, append_nil] at hdel
    rw [← hrun] at herr'
    exact ⟨hdel, herr.trans herr'⟩

/-- Three bounded pushes with room for two entries: the marker stands for the first two items. -/
theorem delivery_overflow :
    ∃ ops : List (Op Nat Unit), (run ops).accepted = [1, 2, 3] ∧ (run ops).delivered = [102, 3] ∧
      (run ops).queue.next.2 = .closed none ∧ ∃ f, Delivery ops f := by
  refine ⟨[.pushBounded 1 2 (fun n => some (100 + n)), .pushBounded 2 2 (fun n => some (100 + n)),
    .pushBounded 3 2 (fun n => some (100 + n)), .next, .next, .close none, .next], rfl, rfl, rfl,
    delivery _ ?_⟩
  simp [Op.Marks]

/-- A closed queue refuses the item of a `PushBounded` and keeps what it holds, more than the bound here. -/
theorem bounded_push_refused :
    ∃ (ops : List (Op Nat Unit)) (capacity : Nat) (gap : Nat → Option Nat),
      (∀ op ∈ ops ++ [.pushBounded 4 capacity gap], op.Marks) ∧
        ¬ (run (ops ++ [.pushBounded 4 capacity gap])).queue.pending.length ≤ capacity := by
  refine ⟨[.push 1, .push 2, .push 3, .close none], 2, fun n => some (100 + n), ?_, by decide⟩
  simp [Op.Marks]

end

end Pandaemonium.Llm
