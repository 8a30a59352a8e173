import Pandaemonium.Codex.NotificationQueue
import Pandaemonium.Codex.NotificationScan
import Pandaemonium.Lib.SortedMap

/-!
# `Codex.Router` — the notification router of a client (`router.go`)

`turnNotificationRouter` gives each notification to the consumer it is for: by login id, by process handle, by
turn id, or to the one global channel. Notifications of a turn or a login that has no consumer yet are kept,
and move to the queue of the consumer when it registers.

Queues live on a heap and the maps of the router hold their positions, since a consumer inside `next` keeps
the pointer it has looked up. The fields for turns and for logins are alike (`Mailboxes`), and so are the
functions on them but for what they clear; each is one definition with the family as parameter.

The decoding of a notification's params by `json.Unmarshal` is the parameter `parse`: the tree of the text,
`none` for one that is refused.
-/

namespace Pandaemonium.Codex

open List
open SortedMap (get? insert erase)

/-! ## The ids of a notification -/

section

variable (parse : Bytes → Option Json.Value)

/-- The turn id: by the scan, or by decoding the parameters where it gives up. -/
def notificationTurnID (notif : Notification) : Bytes :=
  match scanNotificationTurnID notif.params with
  | some turnID => turnID
  | none => ((parse notif.params).map decodeNotificationTurnID).getD []

/-- `none` where the notification is not about a login. -/
def notificationLoginID (notif : Notification) : Option Bytes :=
  if notif.method ≠ ascii "account/login/completed" then none
  else
    match scanNotificationLoginID notif.params with
    | some loginID => some loginID
    | none => some (((parse notif.params).map decodeNotificationLoginID).getD [])

/-- The handle in the parameters; `null` has the empty one. -/
def unmarshalProcessHandle : Json.Value → Option Bytes
  | .null => some []
  | .object _ ms => unmarshalString (Json.Value.member? ms (ascii "processHandle"))
  | _ => none

/-- The process a notification is about; empty for the other methods. -/
def notificationProcessHandle (notif : Notification) : Bytes :=
  if notif.method = ascii "process/exited" ∨ notif.method = ascii "process/outputDelta" then
    ((parse notif.params).bind unmarshalProcessHandle).getD []
  else []

end

/-! ## Notifications kept for a consumer -/

/-- The slice that is kept, and whether its oldest entry had to go. -/
def pushPendingNotification (pending : List Notification) (notif : Notification) :
    List Notification × Bool :=
  if pending.length < notificationQueueCapacity then (pending ++ [notif], false)
  else ((Circular.copy pending (pending.drop 1)).set (pending.length - 1) notif, true)

theorem pushPendingNotification_eq (pending : List Notification) (notif : Notification) :
    pushPendingNotification pending notif = pushEvicting notificationQueueCapacity pending notif := by
  unfold pushPendingNotification pushEvicting
  split
  · rfl
  rename_i hfull
  -- shifted down by one, the last entry stands twice, and the second of the two is written over
  have hpos : 0 < pending.length := by
    unfold notificationQueueCapacity at hfull
    omega
  have hcopy : Circular.copy pending (pending.drop 1) =
      pending.drop 1 ++ pending.drop (pending.length - 1) := by
    rw [Circular.copy, length_drop, take_of_length_le (by rw [length_drop]; omega)]
  obtain ⟨last, hlast⟩ : ∃ last, pending.drop (pending.length - 1) = [last] := by
    refine length_eq_one_iff.mp ?_
    rw [length_drop]
    omega
  have hset : pending.length - 1 = (pending.drop 1).length := length_drop.symm
  rw [hcopy, hlast, hset, set_append_right _ _ (Nat.le_refl _), Nat.sub_self]
  rfl

/-- The maps of a family of consumers. -/
structure Mailboxes where
  queues : List (Bytes × Nat)
  pending : List (Bytes × List Notification)
  pendingDropped : List (Bytes × UInt64)
deriving DecidableEq, Repr

/-- The families whose notifications are kept before a consumer is there. -/
inductive Family where
  | turn
  | login
deriving DecidableEq, Repr

namespace Family

/-- A queue of the family. -/
def newQueue : Family → Bytes → NotificationQueue
  | .turn => newTurnNotificationQueue
  | .login => newLoginNotificationQueue

/-- The text for an empty id. -/
def emptyID : Family → Bytes
  | .turn => ascii "turn notification router: empty turn id"
  | .login => ascii "login notification router: empty login id"

/-- The text for a second consumer. -/
def alreadyActive : Family → Bytes
  | .turn => ascii "turn consumer already active for "
  | .login => ascii "login consumer already active for "

/-- The text for more than a queue takes. -/
def pendingOverflow : Family → Bytes
  | .turn => ascii "turn notification router: pending queue overflow for "
  | .login => ascii "login notification router: pending queue overflow for "

/-- The text for an id without a consumer. -/
def notActive : Family → Bytes
  | .turn => ascii "turn consumer is not active for "
  | .login => ascii "login consumer is not active for "

end Family

namespace Mailboxes

/-- No consumers, nothing kept. -/
def empty : Mailboxes := ⟨[], [], []⟩

/-- What is kept for an id. -/
def pendingOf (box : Mailboxes) (id : Bytes) : List Notification := (get? box.pending id).getD []

/-- How many of them were dropped. -/
def droppedOf (box : Mailboxes) (id : Bytes) : UInt64 := (get? box.pendingDropped id).getD 0

/-- A notification for an id that has no consumer. -/
def keep (box : Mailboxes) (id : Bytes) (notif : Notification) : Mailboxes :=
  { box with
    pending := insert box.pending id (pushPendingNotification (box.pendingOf id) notif).1
    pendingDropped :=
      if (pushPendingNotification (box.pendingOf id) notif).2 then
        insert box.pendingDropped id (box.droppedOf id + 1)
      else box.pendingDropped }

/-- `register` moves the notifications kept for its id into the new queue; `none` where they do not fit. -/
def movePending (box : Mailboxes) (id : Bytes) (queue : NotificationQueue) :
    Option (Mailboxes × NotificationQueue) :=
  if (box.pendingOf id).length > 0 then
    (queue.appendAll (box.pendingOf id)).map
      (fun queue => ({ box with pending := erase box.pending id }, queue))
  else some (box, queue)

/-- And the count of those that were dropped, with a token so that the consumer wakes for it. -/
def moveDropped (box : Mailboxes) (id : Bytes) (queue : NotificationQueue) :
    Mailboxes × NotificationQueue :=
  if box.droppedOf id > 0 then
    ({ box with pendingDropped := erase box.pendingDropped id },
      { queue with dropped := box.droppedOf id, notify := true })
  else (box, queue)

end Mailboxes

/-! ## The router -/

/-- **`turnNotificationRouter`**, its queues on a heap. -/
structure Router where
  /-- every queue made so far -/
  heap : List NotificationQueue
  /-- what the global channel holds -/
  global : List Notification
  /-- `queues`, `pending` and `pendingDropped` -/
  turns : Mailboxes
  /-- `loginQueues`, `pendingLogin` and `pendingLoginDropped` -/
  logins : Mailboxes
  processQueues : List (Bytes × Nat)
  closed : Bool
  err : Option RouterError
deriving DecidableEq, Repr

/-- What a call comes back with. -/
inductive Result where
  /-- without an error, and without anything else that is used -/
  | done
  | failed (e : RouterError)
  | notification (notif : Notification)
  /-- it does not come back: nothing is there and its context is not done -/
  | blocked
deriving DecidableEq, Repr

/-- What a call of `next` makes of its turn at the queue. -/
def QueueTurn.result : QueueTurn → Result
  | .fail e => .failed e
  | .deliver notif => .notification notif
  | .wait => .blocked

/-- A returned `error`. -/
def Result.ofError : Option RouterError → Result
  | none => .done
  | some e => .failed e

/-- A returned `(Notification{}, err)`. -/
def Result.ofNextError : Option RouterError → Result
  | none => .notification .zero
  | some e => .failed e

/-- `newTurnNotificationRouter` -/
def newTurnNotificationRouter : Router :=
  { heap := [], global := [], turns := .empty, logins := .empty, processQueues := [], closed := false
    err := none }

/-- The error of a closed router for a process consumer. -/
def processNotificationRouterClosedError (err : Option RouterError) : RouterError :=
  err.getD (.transportClosed (ascii "process notification router closed"))

namespace Router

/-- The mailboxes of a family. -/
def box (r : Router) : Family → Mailboxes
  | .turn => r.turns
  | .login => r.logins

/-- Replace the mailboxes of a family. -/
def setBox (r : Router) (f : Family) (box : Mailboxes) : Router :=
  match f with
  | .turn => { r with turns := box }
  | .login => { r with logins := box }

/-- An operation on the queue at `ref`. -/
def modifyQueue (r : Router) (ref : Nat) (op : NotificationQueue → NotificationQueue) : Router :=
  { r with heap := r.heap.modify ref op }

/-! ### Consumers -/

/-- A new consumer with its queue, and what its family's maps have come to. -/
def enter (r : Router) (f : Family) (id : Bytes) (box : Mailboxes) (queue : NotificationQueue) : Router :=
  { r with heap := r.heap ++ [queue] }.setBox f { box with queues := insert box.queues id r.heap.length }

/-- **A new consumer**: it is given what was kept for its id, unless that is too much. -/
def registerIn (f : Family) (r : Router) (id : Bytes) : Option RouterError × Router :=
  if id = [] then (some (.text f.emptyID), r)
  else if r.closed then (r.err, r)
  else if (get? (r.box f).queues id).isSome then (some (.text (f.alreadyActive ++ id)), r)
  else
    match (r.box f).movePending id (f.newQueue id) with
    | none => (some (.text (f.pendingOverflow ++ id)), r)
    | some (box, queue) =>
      (none, r.enter f id (box.moveDropped id queue).1 (box.moveDropped id queue).2)

/-- A consumer of a turn. -/
def register (r : Router) (turnID : Bytes) : Option RouterError × Router := r.registerIn .turn turnID

/-- A consumer of a login. -/
def registerLogin (r : Router) (loginID : Bytes) : Option RouterError × Router := r.registerIn .login loginID

/-- There is nothing to move for a process: its notifications are not kept. -/
def registerProcess (r : Router) (processHandle : Bytes) : Option RouterError × Router :=
  if processHandle = [] then (some (.text (ascii "process notification router: empty process handle")), r)
  else if r.closed then (some (processNotificationRouterClosedError r.err), r)
  else if (get? r.processQueues processHandle).isSome then
    (some (.text (ascii "process consumer already active for " ++ processHandle)), r)
  else
    (none,
      { r with
        heap := r.heap ++ [newProcessNotificationQueue processHandle]
        processQueues := insert r.processQueues processHandle r.heap.length })

/-- The critical section of `next`: the result, or the queue whose `next` is called. -/
def lookup (f : Family) (r : Router) (id : Bytes) : Result ⊕ Nat :=
  if r.closed then .inl (.ofNextError r.err)
  else
    match get? (r.box f).queues id with
    | none => .inl (.failed (.text (f.notActive ++ id)))
    | some ref => .inr ref

/-- The queue of a process, or what the call returns without one. -/
def lookupProcess (r : Router) (processHandle : Bytes) : Result ⊕ Nat :=
  if r.closed then .inl (.failed (processNotificationRouterClosedError r.err))
  else
    match get? r.processQueues processHandle with
    | none => .inl (.failed (.text (ascii "process consumer is not active for " ++ processHandle)))
    | some ref => .inr ref

/-- The rest of `next`, at the queue that was looked up. -/
def finishNext (r : Router) : Result ⊕ Nat → Result × Router
  | .inl result => (result, r)
  | .inr ref =>
    match r.heap[ref]? with
    | none => (.blocked, r)
    | some q => (q.next.1.result, r.modifyQueue ref (fun _ => q.next.2))

/-- The next notification of a turn. -/
def next (r : Router) (turnID : Bytes) : Result × Router := r.finishNext (r.lookup .turn turnID)

/-- The next notification of a login. -/
def nextLogin (r : Router) (loginID : Bytes) : Result × Router := r.finishNext (r.lookup .login loginID)

/-- The next notification of a process. -/
def nextProcess (r : Router) (processHandle : Bytes) : Result × Router :=
  r.finishNext (r.lookupProcess processHandle)

/-- The next notification without an addressee. -/
def nextGlobal (r : Router) : Result × Router :=
  if r.closed then
    (.failed (r.err.getD (.transportClosed (ascii "app-server notification stream closed"))), r)
  else
    match r.global with
    | [] => (.blocked, r)
    | notif :: global => (.notification notif, { r with global := global })

/-- The id loses its consumer; its queue stays on the heap. -/
def unregisterIn (f : Family) (r : Router) (id : Bytes) : Router :=
  if id = [] then r else r.setBox f { r.box f with queues := erase (r.box f).queues id }

/-- A turn loses its consumer. -/
def unregister (r : Router) (turnID : Bytes) : Router := r.unregisterIn .turn turnID

/-- A login loses its consumer. -/
def unregisterLogin (r : Router) (loginID : Bytes) : Router := r.unregisterIn .login loginID

/-- A process loses its consumer, and its queue is closed. -/
def unregisterProcess (r : Router) (processHandle : Bytes) : Router :=
  if processHandle = [] then r
  else
    match get? r.processQueues processHandle with
    | none => r
    | some ref =>
      { r with processQueues := erase r.processQueues processHandle }.modifyQueue ref
        (fun q => q.close (some (.text (ascii "process consumer closed for " ++ processHandle))))

/-- Of a turn, the count of dropped notifications stays. -/
def clearPending (r : Router) (turnID : Bytes) : Router :=
  if turnID = [] then r
  else { r with turns := { r.turns with pending := erase r.turns.pending turnID } }

/-- Forget what was kept for a login. -/
def clearLoginPending (r : Router) (loginID : Bytes) : Router :=
  if loginID = [] then r
  else
    { r with
      logins := { r.logins with
        pending := erase r.logins.pending loginID
        pendingDropped := erase r.logins.pendingDropped loginID } }

/-! ### Notifications -/

/-- The channel gives up its oldest notification where it is full. -/
def routeGlobalLocked (r : Router) (notif : Notification) : Router :=
  { r with global := (pushEvicting notificationQueueCapacity r.global notif).1 }

/-- To the queue of an active consumer, or to what is kept for one. -/
def deliver (f : Family) (r : Router) (id : Bytes) (notif : Notification) : Router :=
  match get? (r.box f).queues id with
  | some ref => r.modifyQueue ref (fun q => q.push notif)
  | none => r.setBox f ((r.box f).keep id notif)

/-- A login notification goes to its consumer, or to the global channel without an id. -/
def routeLogin (r : Router) (notif : Notification) (loginID : Bytes) : Option RouterError × Router :=
  if r.closed then (r.err, r)
  else if loginID = [] then (none, r.routeGlobalLocked notif)
  else (none, r.deliver .login loginID notif)

/-- The queue of a process handle that is not empty. -/
def processQueue (r : Router) (processHandle : Bytes) : Option Nat :=
  if processHandle = [] then none else get? r.processQueues processHandle

/-- **Where a notification goes.** -/
def route (parse : Bytes → Option Json.Value) (r : Router) (notif : Notification) :
    Option RouterError × Router :=
  match notificationLoginID parse notif with
  | some loginID => r.routeLogin notif loginID
  | none =>
    if r.closed then (r.err, r)
    else
      match r.processQueue (notificationProcessHandle parse notif) with
      | some ref => (none, r.modifyQueue ref (fun q => q.push notif))
      | none =>
        if notificationTurnID parse notif = [] then (none, r.routeGlobalLocked notif)
        else (none, r.deliver .turn (notificationTurnID parse notif) notif)

/-! ### The end -/

/-- The critical section of `close`. -/
def closeLocked (r : Router) (err : Option RouterError) : Router :=
  { r with
    global := [], turns := .empty, logins := .empty, processQueues := [], closed := true, err := err }

/-- The queues `close` closes after it, each with its error. -/
def toClose (r : Router) (err : Option RouterError) : List (Nat × Option RouterError) :=
  r.turns.queues.map (fun e => (e.2, err)) ++ r.logins.queues.map (fun e => (e.2, err)) ++
    r.processQueues.map (fun e => (e.2, some (processNotificationRouterClosedError err)))

end Router

end Pandaemonium.Codex
