import Pandaemonium.Codex.NotificationRing

/-!
# `Codex.NotificationQueue` — the queue of one notification consumer (`notification_queue.go`)

A queue is a ring of `notificationQueueCapacity` cells with a count of the entries that had to make room. Its
consumer is told of that count, once, before it is given the next entry, and of the error the queue was closed
with only when the ring is empty. `next` is a loop around a critical section, `take`, and a wait on a channel
of capacity one; `push` and `close` put a token there without blocking.
-/

namespace Pandaemonium.Codex

def notificationQueueCapacity : Nat := 128

/-- The errors of the router and its queues. -/
inductive RouterError where
  /-- `fmt.Errorf`, and whatever other error a router is closed with -/
  | text (message : Bytes)
  /-- `TransportClosedError` -/
  | transportClosed (message : Bytes)
  /-- `NotificationDroppedError` -/
  | notificationDropped (turnID : Bytes) (dropped : Int64)
  /-- `LoginNotificationDroppedError` -/
  | loginNotificationDropped (loginID : Bytes) (dropped : Int64)
  /-- `ProcessNotificationDroppedError` -/
  | processNotificationDropped (processHandle : Bytes) (dropped : Int64)
deriving DecidableEq, Repr

/-- What the consumers of a queue wait for. -/
inductive Scope where
  | turn
  | login
  | process
deriving DecidableEq, Repr

/-- The `dropError` of the queues of a scope. -/
def Scope.dropError : Scope → Bytes → Int64 → RouterError
  | .turn => .notificationDropped
  | .login => .loginNotificationDropped
  | .process => .processNotificationDropped

structure NotificationQueue where
  notifies : NotificationRing
  /-- the channel holds a token -/
  notify : Bool
  err : Option RouterError
  scopeID : Bytes
  /-- evicted notifications the consumer has not been told of -/
  dropped : UInt64
  /-- whose `dropError` the queue has -/
  scope : Scope
  capacity : notifies.values.length = notificationQueueCapacity
deriving DecidableEq, Repr

/-- What the critical section of `next` decides. -/
inductive QueueTurn where
  | fail (e : RouterError)
  | deliver (notif : Notification)
  | wait
deriving DecidableEq, Repr

/-- An empty queue of a scope. -/
def newNotificationQueue (scope : Scope) (scopeID : Bytes) : NotificationQueue where
  notifies := newNotificationRing notificationQueueCapacity
  notify := false
  err := none
  scopeID := scopeID
  dropped := 0
  scope := scope
  capacity := List.length_replicate

def newTurnNotificationQueue (turnID : Bytes) : NotificationQueue := newNotificationQueue .turn turnID

def newLoginNotificationQueue (loginID : Bytes) : NotificationQueue := newNotificationQueue .login loginID

def newProcessNotificationQueue (processHandle : Bytes) : NotificationQueue :=
  newNotificationQueue .process processHandle

theorem NotificationRing.capacity_pop {r r' : NotificationRing} {notif : Notification}
    (h : r.pop = some (notif, r')) : r'.values.length = r.values.length := by
  cases hc : r.contents with
  | nil =>
    rw [pop_nil hc] at h
    cases h
  | cons x xs =>
    obtain ⟨_, hpop, -, hcap⟩ := pop_cons hc
    cases hpop.symm.trans h
    exact hcap

namespace NotificationQueue

/-- What the queue still has to deliver. -/
def contents (q : NotificationQueue) : List Notification := q.notifies.contents

def push (q : NotificationQueue) (notif : Notification) : NotificationQueue :=
  match q.err with
  | some _ => q
  | none =>
    { q with
      notifies := (q.notifies.pushDisplacing notif).2
      dropped := if (q.notifies.pushDisplacing notif).1 then q.dropped + 1 else q.dropped
      notify := true
      capacity := NotificationRing.capacity_pushDisplacing.trans q.capacity }

/-- The critical section of `next`. -/
def take (q : NotificationQueue) : QueueTurn × NotificationQueue :=
  if q.dropped > 0 then
    (.fail (q.scope.dropError q.scopeID q.dropped.toInt64), { q with dropped := 0 })
  else
    match hpop : q.notifies.pop with
    | some (notif, ring) =>
      (.deliver notif,
        { q with
          notifies := ring
          capacity := (NotificationRing.capacity_pop hpop).trans q.capacity })
    | none =>
      match q.err with
      | some e => (.fail e, q)
      | none => (.wait, q)

/-- `next` in a context that is not done, while nothing else touches the queue: a token found in the channel
    sends it to the critical section once more. `wait` is a call that does not return. -/
def next (q : NotificationQueue) : QueueTurn × NotificationQueue :=
  match q.take with
  | (.wait, q) => if q.notify then { q with notify := false }.take else (.wait, q)
  | result => result

/-- The ring takes a whole list; `none` where there is no room for it. -/
def appendAll (q : NotificationQueue) (notif : List Notification) : Option NotificationQueue :=
  if (q.notifies.appendAll notif).1 then
    some { q with
      notifies := (q.notifies.appendAll notif).2
      capacity := NotificationRing.capacity_appendAll.trans q.capacity }
  else none

def close (q : NotificationQueue) (e : Option RouterError) : NotificationQueue :=
  match q.err with
  | some _ => q
  | none => { q with err := e, notify := true }

variable {q : NotificationQueue} {notif : Notification} {xs : List Notification} {e : RouterError}

/-- The consumer a queue was made for. -/
def owner (q : NotificationQueue) : Scope × Bytes := (q.scope, q.scopeID)

@[simp] theorem owner_push : (q.push notif).owner = q.owner := by
  unfold push
  split <;> rfl

@[simp] theorem owner_take : q.take.2.owner = q.owner := by
  unfold take
  split
  · rfl
  split
  · rfl
  · split <;> rfl

@[simp] theorem owner_next : q.next.2.owner = q.owner := by
  have htake : q.take.2.owner = q.owner := owner_take
  unfold next
  split
  · rename_i q' hwait
    rw [hwait] at htake
    split
    · exact owner_take.trans htake
    · exact htake
  · exact htake

theorem owner_appendAll {q' : NotificationQueue} (h : q.appendAll xs = some q') : q'.owner = q.owner := by
  unfold appendAll at h
  split at h
  · cases h
    rfl
  · cases h

variable {e : Option RouterError}

@[simp] theorem owner_close : (q.close e).owner = q.owner := by
  unfold close
  split <;> rfl

@[simp] theorem contents_close : (q.close e).contents = q.contents := by
  unfold close
  split <;> rfl

@[simp] theorem dropped_close : (q.close e).dropped = q.dropped := by
  unfold close
  split <;> rfl

theorem push_err : (q.push notif).err = q.err := by
  unfold push
  split <;> rfl

/-- An open queue takes a notification as a bounded buffer with a drop counter does. -/
theorem push_open (he : q.err = none) :
    (q.push notif).contents = (pushEvicting notificationQueueCapacity q.contents notif).1 ∧
      (q.push notif).dropped =
        if (pushEvicting notificationQueueCapacity q.contents notif).2 then q.dropped + 1
        else q.dropped := by
  have hring : ((q.notifies.pushDisplacing notif).2.contents, (q.notifies.pushDisplacing notif).1) =
      pushEvicting notificationQueueCapacity q.contents notif := by
    rw [← q.capacity]
    refine NotificationRing.contents_pushDisplacing ?_
    rw [q.capacity]
    decide
  rw [← hring, push, he]
  exact ⟨rfl, rfl⟩

theorem take_dropped (h : q.dropped ≠ 0) :
    q.take = (.fail (q.scope.dropError q.scopeID q.dropped.toInt64), { q with dropped := 0 }) := by
  have hpos : q.dropped > 0 := UInt64.pos_iff_ne_zero.mpr h
  rw [take, if_pos hpos]

theorem take_cons (hd : q.dropped = 0) (hc : q.contents = notif :: xs) :
    ∃ q', q.take = (.deliver notif, q') ∧ q'.contents = xs ∧ q'.dropped = 0 ∧ q'.err = q.err := by
  obtain ⟨ring, hpop, hxs, -⟩ := NotificationRing.pop_cons hc
  unfold take
  rw [if_neg (by rw [hd]; decide)]
  split
  · rename_i n r hpop'
    cases hpop.symm.trans hpop'
    exact ⟨_, rfl, hxs, hd, rfl⟩
  · rename_i hnone
    cases hpop.symm.trans hnone

theorem take_nil (hd : q.dropped = 0) (hc : q.contents = []) : q.take = (q.err.elim .wait .fail, q) := by
  have hpop := NotificationRing.pop_nil hc
  unfold take
  rw [if_neg (by rw [hd]; decide)]
  split
  · rename_i hsome
    cases hpop.symm.trans hsome
  split
  all_goals
    rename_i he
    rw [he]
    rfl

/-- A call that has to wait changes nothing but the token. -/
theorem next_nil (hd : q.dropped = 0) (hc : q.contents = []) (he : q.err = none) :
    q.next = (.wait, { q with notify := false }) := by
  have htake : ∀ q' : NotificationQueue, q'.dropped = 0 → q'.contents = [] → q'.err = none →
      q'.take = (.wait, q') := by
    intro q' hd hc he
    rw [take_nil hd hc, he]
    rfl
  simp only [next, htake q hd hc he]
  by_cases hn : q.notify = true
  · rw [if_pos hn]
    exact htake { q with notify := false } hd hc he
  rw [if_neg hn]
  cases q
  simp only [Bool.not_eq_true] at hn
  subst hn
  rfl

theorem next_of_take {t : QueueTurn} {q' : NotificationQueue} (h : q.take = (t, q')) (ht : t ≠ .wait) :
    q.next = (t, q') := by
  unfold next
  rw [h]
  cases t with
  | wait => exact absurd rfl ht
  | fail e | deliver n => rfl

theorem appendAll_nil : q.appendAll [] = some q := by
  have hring : q.notifies.appendAll [] = (true, q.notifies) := by
    rw [NotificationRing.appendAll, dif_neg (by simp), if_pos rfl]
  unfold appendAll
  rw [if_pos (by rw [hring])]
  simp only [hring]

/-- A list that fits in an empty queue is its contents. -/
theorem appendAll_new (scope : Scope) (scopeID : Bytes) (h : xs.length ≤ notificationQueueCapacity) :
    ∃ q', (newNotificationQueue scope scopeID).appendAll xs = some q' ∧ q'.contents = xs ∧
      q'.dropped = 0 ∧ q'.err = none ∧ q'.owner = (scope, scopeID) := by
  have hroom : (newNotificationQueue scope scopeID).notifies.length + xs.length ≤
      (newNotificationQueue scope scopeID).notifies.values.length := by
    rw [(newNotificationQueue scope scopeID).capacity]
    show 0 + xs.length ≤ _
    omega
  obtain ⟨hok, hxs⟩ := NotificationRing.appendAll_room hroom
  unfold appendAll
  rw [if_pos hok]
  exact ⟨_, rfl, hxs, rfl, rfl, rfl⟩

end NotificationQueue

end Pandaemonium.Codex
