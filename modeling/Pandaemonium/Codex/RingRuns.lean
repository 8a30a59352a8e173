import Pandaemonium.Codex.NotificationRing

/-!
# `Codex.RingRuns` — a ring over whole runs (`notification_ring.go`)

A bounded queue is a list with a capacity: it refuses what does not fit, lets its oldest entry make room when
asked to displace, and hands its entries out in order. `ring_refines_fifo` says that a ring answers every
sequence of operations as the bounded queue does, wherever its head has got to.
-/

namespace Pandaemonium.Codex

/-- A call of one of the operations. -/
inductive RingOp where
  | push (notif : Notification)
  | appendAll (notifs : List Notification)
  | pushDisplacing (notif : Notification)
  | pop
deriving DecidableEq, Repr

inductive RingAnswer where
  | stored (ok : Bool)
  | displaced (yes : Bool)
  | popped (notif : Option Notification)
deriving DecidableEq, Repr

/-- One call on a ring. -/
def NotificationRing.call (r : NotificationRing) : RingOp → RingAnswer × NotificationRing
  | .push notif => ((r.push notif).map .stored id)
  | .appendAll notifs => ((r.appendAll notifs).map .stored id)
  | .pushDisplacing notif => ((r.pushDisplacing notif).map .displaced id)
  | .pop =>
    match r.pop with
    | none => (.popped none, r)
    | some (notif, r') => (.popped (some notif), r')

/-- One call on a bounded queue, oldest entry first. -/
def fifoCall (capacity : Nat) (queue : List Notification) : RingOp → RingAnswer × List Notification
  | .push notif =>
    if queue.length + 1 ≤ capacity then (.stored true, queue ++ [notif]) else (.stored false, queue)
  | .appendAll notifs =>
    if queue.length + notifs.length ≤ capacity then (.stored true, queue ++ notifs)
    else (.stored false, queue)
  | .pushDisplacing notif =>
    if queue.length < capacity then (.displaced false, queue ++ [notif])
    else (.displaced true, queue.tail ++ [notif])
  | .pop =>
    match queue with
    | [] => (.popped none, [])
    | notif :: rest => (.popped (some notif), rest)

/-- The answers to a sequence of calls, and the state after them. -/
def callAll {σ : Type} (call : σ → RingOp → RingAnswer × σ) : σ → List RingOp → List RingAnswer × σ
  | s, [] => ([], s)
  | s, op :: ops =>
    let (answer, s') := call s op
    let (answers, last) := callAll call s' ops
    (answer :: answers, last)

/-- The ring as a bounded queue. -/
structure Represents (capacity : Nat) (r : NotificationRing) (queue : List Notification) : Prop where
  contents : r.contents = queue
  capacity : r.values.length = capacity

variable {capacity : Nat} {r : NotificationRing} {queue : List Notification}

theorem Represents.length (h : Represents capacity r queue) (hpos : 0 < capacity) :
    r.length = queue.length := by
  rw [← h.contents, NotificationRing.length_contents (h.capacity ▸ hpos)]

/-- **One call** answers as the bounded queue does and leaves a ring that represents the queue after it. -/
theorem Represents.call (h : Represents capacity r queue) (hpos : 0 < capacity) (op : RingOp) :
    (r.call op).1 = (fifoCall capacity queue op).1 ∧
      Represents capacity (r.call op).2 (fifoCall capacity queue op).2 := by
  have hlength := h.length hpos
  have hcapacity := h.capacity
  cases op with
  | push notif =>
    simp only [NotificationRing.call, fifoCall]
    by_cases hroom : queue.length + 1 ≤ capacity
    · have hlt : r.length < r.values.length := by omega
      obtain ⟨hok, hcontents, hcap⟩ := @NotificationRing.push_room r notif hlt
      rw [if_pos hroom]
      exact ⟨congrArg _ hok, hcontents.trans (by rw [h.contents]), hcap.trans hcapacity⟩
    · rw [if_neg hroom, NotificationRing.push_full (by omega)]
      exact ⟨rfl, h⟩
  | appendAll notifs =>
    simp only [NotificationRing.call, fifoCall]
    by_cases hroom : queue.length + notifs.length ≤ capacity
    · have hle : r.length + notifs.length ≤ r.values.length := by omega
      obtain ⟨hok, hcontents⟩ := NotificationRing.appendAll_room hle
      rw [if_pos hroom]
      exact ⟨congrArg _ hok, hcontents.trans (by rw [h.contents]),
        NotificationRing.capacity_appendAll.trans hcapacity⟩
    · rw [if_neg hroom, NotificationRing.appendAll_full (by omega)]
      exact ⟨rfl, h⟩
  | pushDisplacing notif =>
    have hpush := @NotificationRing.contents_pushDisplacing r notif (by omega)
    rw [h.contents, hcapacity, pushEvicting] at hpush
    simp only [NotificationRing.call, fifoCall]
    by_cases hroom : queue.length < capacity
    · rw [if_pos hroom] at hpush ⊢
      obtain ⟨hcontents, hdisplaced⟩ := Prod.mk.inj hpush
      exact ⟨congrArg _ hdisplaced, hcontents, NotificationRing.capacity_pushDisplacing.trans hcapacity⟩
    · rw [if_neg hroom] at hpush ⊢
      obtain ⟨hcontents, hdisplaced⟩ := Prod.mk.inj hpush
      rw [List.drop_one] at hcontents
      exact ⟨congrArg _ hdisplaced, hcontents,
        NotificationRing.capacity_pushDisplacing.trans hcapacity⟩
  | pop =>
    cases queue with
    | nil =>
      rw [NotificationRing.call, NotificationRing.pop_nil h.contents]
      exact ⟨rfl, h⟩
    | cons notif rest =>
      obtain ⟨r', hpop, hcontents, hcap⟩ := NotificationRing.pop_cons h.contents
      rw [NotificationRing.call, hpop]
      exact ⟨rfl, hcontents, hcap.trans hcapacity⟩

/-- The same over a sequence of calls. -/
theorem Represents.callAll (h : Represents capacity r queue) (hpos : 0 < capacity) (ops : List RingOp) :
    (Codex.callAll NotificationRing.call r ops).1 = (Codex.callAll (fifoCall capacity) queue ops).1 ∧
      Represents capacity (Codex.callAll NotificationRing.call r ops).2
        (Codex.callAll (fifoCall capacity) queue ops).2 := by
  induction ops generalizing r queue with
  | nil => exact ⟨rfl, h⟩
  | cons op ops ih =>
    obtain ⟨hanswer, hnext⟩ := h.call hpos op
    obtain ⟨hanswers, hlast⟩ := ih hnext
    exact ⟨List.cons_eq_cons.mpr ⟨hanswer, hanswers⟩, hlast⟩

/-- A refused call changes nothing. -/
theorem NotificationRing.call_refused {op : RingOp} (h : (r.call op).1 = .stored false) :
    (r.call op).2 = r := by
  cases op with
  | push notif =>
    by_cases hroom : r.length < r.values.length
    · simp [call, (@push_room r notif hroom).1] at h
    · simp [call, @push_full r notif (by omega)]
  | appendAll notifs =>
    by_cases hroom : r.length + notifs.length ≤ r.values.length
    · simp [call, (appendAll_room hroom).1] at h
    · simp [call, @appendAll_full r notifs (by omega)]
  | pushDisplacing notif => simp [call] at h
  | pop =>
    simp only [call] at h
    split at h <;> simp at h

/-- **A ring refines a bounded queue**: for every capacity and every sequence of calls the answers agree, the
    contents from the head on are the queue, and the three positions hang together; a refused call leaves
    the ring itself as it was. -/
theorem ring_refines_fifo (capacity : Nat) (hpos : 1 ≤ capacity) (ops : List RingOp) :
    let ring := callAll NotificationRing.call (newNotificationRing capacity) ops
    let fifo := callAll (fifoCall capacity) [] ops
    ring.1 = fifo.1 ∧ ring.2.contents = fifo.2 ∧ ring.2.values.length = capacity ∧
      ring.2.tail = (ring.2.head + ring.2.length) % capacity ∧ ring.2.length ≤ capacity ∧
      ∀ op, (ring.2.call op).1 = .stored false → (ring.2.call op).2 = ring.2 := by
  intro ring fifo
  have hnew : Represents capacity (newNotificationRing capacity) [] := ⟨rfl, List.length_replicate⟩
  obtain ⟨hanswers, hlast⟩ := hnew.callAll hpos ops
  have hcapacity : ring.2.values.length = capacity := hlast.capacity
  refine ⟨hanswers, hlast.contents, hcapacity, ?_, ?_, fun op hrefused => ?_⟩
  · rw [← hcapacity]
    exact ring.2.tail_eq
  · rw [← hcapacity]
    exact ring.2.length_le
  · exact NotificationRing.call_refused hrefused

theorem ring_refines_fifo_two :
    let ops : List RingOp := [.push ⟨[1], []⟩, .push ⟨[2], []⟩, .push ⟨[3], []⟩, .pushDisplacing ⟨[4], []⟩, .pop]
    (callAll NotificationRing.call (newNotificationRing 2) ops).1 =
        [.stored true, .stored true, .stored false, .displaced true, .popped (some ⟨[2], []⟩)] ∧
      (callAll NotificationRing.call (newNotificationRing 2) ops).2.contents = [⟨[4], []⟩] := by
  intro ops
  obtain ⟨hanswers, hcontents, -⟩ := ring_refines_fifo 2 (by decide) ops
  exact ⟨hanswers, hcontents⟩

end Pandaemonium.Codex
