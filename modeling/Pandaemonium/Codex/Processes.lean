import Pandaemonium.Codex.ProcessQueue

/-!
# `Codex.Processes` — the process queues of an exec-server client

`ExecServerClient` keeps one queue for each process id, made when the first notification or the first handle
of the process asks for it (`ensureProcessQueue`). A handle keeps a pointer to its queue; the map loses the
queue when its consumer has been given the `closed` notification, and loses all queues, closed with one error,
in `closeAllProcessQueues`. Notifications are taken through a handle (`NextNotification`) or through the client
(`ExecServerClient.NextProcessNotification`), which asks for the queue anew in every call.

Queues live in a heap and are named by their position. Actions are the critical sections over `processMu` and
over each queue; `closeAllProcessQueues` holds `processMu` while it closes the queues one by one (`toClose`).
`received` records what the read loop has received and decoded.

* `Drained` — a handle that was given a terminal error had been given everything received for it;
* `Inv`, `inv_step` — every action keeps the invariant when no queue is closed over a notification its
  consumer could still have been given (`Orderly`).
-/

namespace Pandaemonium.Codex

open SortedMap (get? insert erase)
open List hiding insert erase

/-- The errors of the exec-server client. -/
inductive ExecError where
  /-- `TransportClosedError` -/
  | transportClosed (message : Bytes)
  /-- any other error of `ReadJSON` or `WriteJSON`, and a line that is no JSON-RPC message -/
  | transport (message : Bytes)
  /-- `errExecServerUnexpectedServerRequest` -/
  | unexpectedServerRequest (method : Bytes)
  /-- `execServerProcessNotificationDecodeForm` -/
  | notificationDecode (method reason : Bytes)
  /-- the payload of a request cannot be encoded -/
  | encode (message : Bytes)
  /-- `io.EOF` -/
  | eof
deriving DecidableEq, Repr

variable {q : ProcessQueue ExecError} {p : Bytes}

namespace Processes

/-- A queue on the heap, with the process id it was made for. -/
structure Cell where
  processID : Bytes
  queue : ProcessQueue ExecError
deriving DecidableEq, Repr

/-- An operation on the queue at `r`. -/
def modifyQueue (heap : List Cell) (r : Nat) (f : ProcessQueue ExecError → ProcessQueue ExecError) :
    List Cell :=
  heap.modify r (fun c => { c with queue := f c.queue })

/-- Where a call of `NextNotification` is. -/
inductive Place where
  | outside
  | locking
  | waiting
  /-- it has taken the `closed` notification and is about to close the queue -/
  | closing
  /-- and to take the queue out of the map -/
  | deleting
deriving DecidableEq, Repr

/-- `ExecServerProcessHandle` with the calls of `NextNotification` on it: what they have taken and the
    error one of them has returned. -/
structure Handle where
  processID : Bytes
  queue : Nat
  place : Place
  results : List ProcessNotification
  failed : Option ExecError
deriving DecidableEq, Repr

/-- A call of `ExecServerClient.NextProcessNotification`, with the queue it was given. -/
structure Call where
  processID : Bytes
  queue : Nat
  place : Place
deriving DecidableEq, Repr

/-- Where a call goes from its turn at the queue. -/
def Place.ofTurn : NextTurn ExecError → Place
  | .fail _ => .outside
  | .wait => .waiting
  | .deliver (.closed ..) => .closing
  | .deliver _ => .outside

/-- How far the read loop is with the notification it has received. -/
inductive Handover where
  | idle
  /-- decoded, before `ensureProcessQueue` -/
  | routing (n : ProcessNotification)
  /-- before `push` on the queue it was given -/
  | pushing (r : Nat) (n : ProcessNotification)
deriving DecidableEq, Repr

/-- The notification that is being handed over. -/
def Handover.notification : Handover → Option ProcessNotification
  | .idle => none
  | .routing n => some n
  | .pushing _ n => some n

/-- The process queues of an `ExecServerClient` with those who use them. -/
structure State where
  heap : List Cell
  processQueues : List (Bytes × Nat)
  processErr : Option ExecError
  /-- the queues a `closeAllProcessQueues` has still to close while it holds `processMu` -/
  toClose : Option (ExecError × List Nat)
  handover : Handover
  received : List ProcessNotification
  handles : List Handle
  calls : List Call
deriving DecidableEq, Repr

namespace State

/-- A client that has just started. -/
def new : State :=
  { heap := [], processQueues := [], processErr := none, toClose := none, handover := .idle
    received := [], handles := [], calls := [] }

/-- `ensureProcessQueue`: the queue of a process; after the end, a closed one of its own. -/
def ensureProcessQueue (s : State) (processID : Bytes) : Nat × State :=
  match s.processErr with
  | some e => (s.heap.length, { s with heap := s.heap ++ [⟨processID, ProcessQueue.new.close e⟩] })
  | none =>
    match get? s.processQueues processID with
    | some r => (r, s)
    | none =>
      (s.heap.length,
        { s with
          heap := s.heap ++ [⟨processID, .new⟩]
          processQueues := insert s.processQueues processID s.heap.length })

/-- An operation on the queue at `r`. -/
def setQueue (s : State) (r : Nat) (f : ProcessQueue ExecError → ProcessQueue ExecError) : State :=
  { s with heap := modifyQueue s.heap r f }

def setHandle (s : State) (i : Nat) (f : Handle → Handle) : State :=
  { s with handles := s.handles.modify i f }

/-- A call on handle `i` moves. -/
def setPlace (s : State) (i : Nat) (p : Place) : State := s.setHandle i (fun h => { h with place := p })

/-- Call `i` moves. -/
def setCall (s : State) (i : Nat) (p : Place) : State :=
  { s with calls := s.calls.modify i (fun k => { k with place := p }) }

/-- `deleteProcessQueue` -/
def deleteProcessQueue (s : State) (processID : Bytes) (r : Nat) : State :=
  if get? s.processQueues processID = some r then
    { s with processQueues := erase s.processQueues processID }
  else s

/-- The beginning of `closeAllProcessQueues`. -/
def closeAllProcessQueues (s : State) (e : ExecError) : State :=
  { s with
    processErr := some e
    toClose := some (e, s.processQueues.map Prod.snd)
    processQueues := [] }

/-- What a call of `NextNotification` makes of its turn at the queue. -/
def take (s : State) (i : Nat) (h : Handle) (t : NextTurn ExecError × ProcessQueue ExecError) : State :=
  let s := s.setQueue h.queue (fun _ => t.2)
  match t.1 with
  | .fail e => s.setHandle i (fun h => { h with place := .outside, failed := some e })
  | .wait => s.setPlace i .waiting
  | .deliver n =>
    s.setHandle i (fun h =>
      { h with
        place := match n with
          | .closed .. => .closing
          | _ => .outside
        results := h.results ++ [n] })

/-- The next step of a call of `NextProcessNotification` on its queue `q`. -/
def stepCall (s : State) (i : Nat) (k : Call) (q : ProcessQueue ExecError) : Option State :=
  match k.place with
  | .outside => none
  | .locking => some ((s.setQueue k.queue (fun _ => q.next.2)).setCall i (.ofTurn q.next.1))
  | .waiting =>
    if q.notify then
      some ((s.setQueue k.queue (fun q => { q with notify := false })).setCall i .locking)
    else none
  | .closing => some ((s.setQueue k.queue (·.close .eof)).setCall i .deleting)
  | .deleting =>
    if s.toClose = none then some ((s.deleteProcessQueue k.processID k.queue).setCall i .outside) else none

end State

/-- The critical sections. -/
inductive Action where
  /-- the read loop receives and decodes a notification -/
  | receive (n : ProcessNotification)
  | ensure
  | push
  /-- `closeAllProcessQueues` takes `processMu` -/
  | closeAll (e : ExecError)
  /-- and closes the next queue -/
  | closeOne
  | closedAll
  /-- `ProcessStart` makes a handle -/
  | start (processID : Bytes)
  /-- `NextNotification` is called on handle `i` -/
  | next (i : Nat)
  | lock (i : Nat)
  | wake (i : Nat)
  | contextDone (i : Nat)
  /-- `nextProcessNotification` closes the queue with `io.EOF` -/
  | closeEOF (i : Nat)
  | delete (i : Nat)
  /-- `NextProcessNotification` is called for a process and asks for its queue -/
  | nextProcess (processID : Bytes)
  /-- call `i` of it goes on -/
  | callStep (i : Nat)
  | callContextDone (i : Nat)
deriving DecidableEq, Repr

/-- **The queues and those who use them**, one critical section at a time. -/
def step (s : State) : Action → Option State
  | .receive n =>
    -- the decoder admits no notification without a process id or a sequence number
    if s.handover = .idle ∧ n.processIDValue ≠ [] ∧ 1 ≤ n.seqValue then
      some { s with handover := .routing n, received := s.received ++ [n] }
    else none
  | .ensure =>
    match s.handover, s.toClose with
    | .routing n, none =>
      let (r, s) := s.ensureProcessQueue n.processIDValue
      some { s with handover := .pushing r n }
    | _, _ => none
  | .push =>
    match s.handover with
    | .pushing r n => some { s with heap := modifyQueue s.heap r (·.push n), handover := .idle }
    | _ => none
  | .closeAll e => if s.toClose = none then some (s.closeAllProcessQueues e) else none
  | .closeOne =>
    match s.toClose with
    | some (e, r :: rest) =>
      some { s with heap := modifyQueue s.heap r (·.close e), toClose := some (e, rest) }
    | _ => none
  | .closedAll =>
    match s.toClose with
    | some (_, []) => some { s with toClose := none }
    | _ => none
  | .start processID =>
    if s.toClose = none then
      let (r, s) := s.ensureProcessQueue processID
      some { s with handles := s.handles ++ [⟨processID, r, .outside, [], none⟩] }
    else none
  | .next i =>
    match s.handles[i]? with
    | some h => if h.place = .outside then some (s.setPlace i .locking) else none
    | none => none
  | .lock i =>
    match s.handles[i]? with
    | some h =>
      match s.heap[h.queue]? with
      | some c => if h.place = .locking then some (s.take i h c.queue.next) else none
      | none => none
    | none => none
  | .wake i =>
    match s.handles[i]? with
    | some h =>
      match s.heap[h.queue]? with
      | some c =>
        if h.place = .waiting ∧ c.queue.notify then
          some ((s.setQueue h.queue (fun q => { q with notify := false })).setPlace i .locking)
        else none
      | none => none
    | none => none
  | .contextDone i =>
    match s.handles[i]? with
    | some h => if h.place = .waiting then some (s.setPlace i .outside) else none
    | none => none
  | .closeEOF i =>
    match s.handles[i]? with
    | some h =>
      if h.place = .closing then
        some ((s.setQueue h.queue (·.close .eof)).setPlace i .deleting)
      else none
    | none => none
  | .delete i =>
    match s.handles[i]?, s.toClose with
    | some h, none =>
      if h.place = .deleting then
        some ((s.deleteProcessQueue h.processID h.queue).setPlace i .outside)
      else none
    | _, _ => none
  | .nextProcess processID =>
    if s.toClose = none then
      let (r, s) := s.ensureProcessQueue processID
      some { s with calls := s.calls ++ [⟨processID, r, .locking⟩] }
    else none
  | .callStep i =>
    match s.calls[i]? with
    | some k =>
      match s.heap[k.queue]? with
      | some c => s.stepCall i k c.queue
      | none => none
    | none => none
  | .callContextDone i =>
    match s.calls[i]? with
    | some k => if k.place = .waiting then some (s.setCall i .outside) else none
    | none => none

/-! ## What is to hold -/

/-- The notifications 1, …, n of a process have been received. -/
def State.ReceivedUpTo (s : State) (processID : Bytes) (n : Nat) : Prop :=
  ∀ k, 1 ≤ k → k ≤ n → ∃ m ∈ s.received, m.processIDValue = processID ∧ m.number = k

/-- **Process events are drained before the end**: whenever a call on a handle has returned a terminal
    error, all of the notifications 1, …, n received for its process have been returned. -/
def Drained (s : State) : Prop :=
  ∀ h ∈ s.handles, h.failed ≠ none → ∀ n, s.ReceivedUpTo h.processID n →
    ∀ k, 1 ≤ k → k ≤ n → ∃ m ∈ h.results, m.number = k

/-- The queue at `r` holds the notification its consumer needs next. -/
def State.Ready (s : State) (r : Nat) : Prop := ∃ c ∈ s.heap[r]?, c.queue.Ready

/-- The queue at `r` is not closed. -/
def State.Open (s : State) (r : Nat) : Prop := ∃ c ∈ s.heap[r]?, c.queue.err = none

/-- The queue a `closeAllProcessQueues` closes next. -/
def State.nextToClose (s : State) : Option Nat := s.toClose.bind (fun p => p.2.head?)

/-- A process has no handle, and none of its notifications was asked for through the client. -/
def State.Unused (s : State) (processID : Bytes) : Prop :=
  (∀ h ∈ s.handles, h.processID ≠ processID) ∧ ∀ k ∈ s.calls, k.processID ≠ processID

/-- The discipline under which nothing is lost. A queue is closed only when its consumer has been given all
    it can be given and the read loop is not about to push; a notification of a process with a handle is
    received only while the handle's queue is open and in the map; a process has one handle, and none after
    the end if its first notification had been received; and the notifications of a process with a handle are
    not taken through the client. -/
def Orderly (s : State) : Action → Prop
  | .receive n => ∀ h ∈ s.handles, h.processID = n.processIDValue →
      s.Open h.queue ∧ get? s.processQueues h.processID = some h.queue
  | .closeAll _ => s.handover = .idle
  | .closeOne => ∀ r ∈ s.nextToClose, ¬ s.Ready r
  | .start processID => s.Unused processID ∧
      (s.processErr = none ∨ ∀ m ∈ s.received, m.processIDValue = processID → m.number ≠ 1)
  | .closeEOF i => ∀ h ∈ s.handles[i]?, ¬ s.Ready h.queue ∧
      ∀ n ∈ s.handover.notification, n.processIDValue ≠ h.processID
  | .nextProcess processID => ∀ h ∈ s.handles, h.processID ≠ processID
  | _ => True

instance (q : ProcessQueue ExecError) : Decidable q.Ready :=
  inferInstanceAs (Decidable (get? q.pending q.nextSeq ≠ none))

instance (s : State) (r : Nat) : Decidable (s.Ready r) :=
  inferInstanceAs (Decidable (∃ c ∈ s.heap[r]?, c.queue.Ready))

instance (s : State) (r : Nat) : Decidable (s.Open r) :=
  inferInstanceAs (Decidable (∃ c ∈ s.heap[r]?, c.queue.err = none))

instance (s : State) (processID : Bytes) : Decidable (s.Unused processID) :=
  inferInstanceAs (Decidable (_ ∧ _))

instance (s : State) (a : Action) : Decidable (Orderly s a) := by
  cases a <;> dsimp only [Orderly] <;> infer_instance

/-! ## The invariant -/

/-- Everything received for a process whose consumer has taken `len` notifications has been taken, is
    parked, or is being handed over. -/
def State.Complete (s : State) (processID : Bytes) (q : ProcessQueue ExecError) (len : Nat) : Prop :=
  ∀ m ∈ s.received, m.processIDValue = processID →
    m.number ≤ len ∨ get? q.pending m.seqValue ≠ none ∨ s.handover.notification = some m

/-- The next notification of the process has not been received. -/
def State.Passed (s : State) (processID : Bytes) (len : Nat) : Prop :=
  ∀ m ∈ s.received, m.processIDValue = processID → m.number ≠ len + 1

/-- The notifications the decoder admits. -/
def Numbered (n : ProcessNotification) : Prop := 1 ≤ n.seqValue

/-- What holds of a handle whose queue is cell `c`. -/
structure HandleAt (s : State) (h : Handle) (c : Cell) : Prop where
  cell : s.heap[h.queue]? = some c
  own : c.processID = h.processID
  ordered : c.queue.Ordered Numbered h.results
  complete : c.queue.err = none → s.Complete h.processID c.queue h.results.length
  passed : c.queue.err ≠ none → s.Passed h.processID h.results.length
  failed : h.failed ≠ none → c.queue.err ≠ none
  deleting : h.place = .deleting → c.queue.err ≠ none

/-- What holds of a queue in the map while nobody has asked for the notifications of its process. -/
structure Unclaimed (s : State) (processID : Bytes) (c : Cell) : Prop where
  isOpen : c.queue.err = none
  ordered : c.queue.Ordered Numbered []
  complete : s.Complete processID c.queue 0

/-- What every orderly run keeps. -/
structure Inv (s : State) : Prop where
  handles : ∀ h ∈ s.handles, ∃ c, HandleAt s h c
  distinct : AllAt s.handles fun i h => AllAt s.handles fun j k => h.processID = k.processID → i = j
  calls : ∀ k ∈ s.calls, ∃ c, s.heap[k.queue]? = some c ∧ c.processID = k.processID
  apart : ∀ h ∈ s.handles, ∀ k ∈ s.calls, h.processID ≠ k.processID
  mapped : ∀ p r, get? s.processQueues p = some r → ∃ c, s.heap[r]? = some c ∧ c.processID = p ∧
    (s.Unused p → Unclaimed s p c)
  absent : s.processErr = none → ∀ p, get? s.processQueues p = none → s.Unused p →
    ∀ m ∈ s.received, m.processIDValue = p → s.handover.notification = some m
  ended : s.processErr ≠ none → s.processQueues = []
  closing : s.toClose ≠ none → s.processErr ≠ none
  pushing : ∀ r n, s.handover = .pushing r n → ∃ c, s.heap[r]? = some c ∧
    c.processID = n.processIDValue ∧
    (s.processErr = none → (∀ k ∈ s.calls, k.processID ≠ n.processIDValue) →
      get? s.processQueues n.processIDValue = some r) ∧
    (s.processErr ≠ none → c.queue.err ≠ none)
  /-- a notification on its way to a process with a handle is on its way to the handle's queue, or past
      the end -/
  inFlight : ∀ n, s.handover.notification = some n → 1 ≤ n.seqValue ∧
    ∀ h ∈ s.handles, h.processID = n.processIDValue → ∀ c, s.heap[h.queue]? = some c →
      (s.processErr = none → c.queue.err = none ∧
        get? s.processQueues h.processID = some h.queue) ∧
      (s.processErr ≠ none → c.queue.err ≠ none)

theorem inv_new : Inv State.new where
  handles := by simp [State.new]
  distinct := AllAt.nil
  calls := by simp [State.new]
  apart := by simp [State.new]
  mapped := by intro p r h; cases h
  absent := by intro _ p _ _ m hm; cases hm
  ended := by intro _; rfl
  closing := by intro h; exact absurd rfl h
  pushing := by intro r n h; cases h
  inFlight := by intro n h; cases h

/-! ## Consequences -/

section

variable {s s' : State} {h k : Handle} {c d : Cell}

/-- The consumer of a closed queue has been given all that was received in sequence. -/
theorem drained_of_passed (ho : c.queue.Ordered Numbered h.results) (hp : s.Passed h.processID h.results.length)
    {n : Nat} (hn : s.ReceivedUpTo h.processID n) : ∀ k, 1 ≤ k → k ≤ n → ∃ m ∈ h.results, m.number = k := by
  have hle : n ≤ h.results.length := by
    by_contra hlt
    obtain ⟨m, hm, hid, hnum⟩ := hn (h.results.length + 1) (by omega) (by omega)
    exact hp m hm hid hnum
  intro k hk hkn
  have : k ∈ h.results.map ProcessNotification.number := by
    rw [ho.numbers, mem_range'_1]
    omega
  exact mem_map.mp this

theorem Inv.drained (hi : Inv s) : Drained s := by
  intro h hh hfail n hn
  obtain ⟨c, hc⟩ := hi.handles h hh
  exact drained_of_passed hc.ordered (hc.passed (hc.failed hfail)) hn

/-- A queue that does not hold the next notification, with none on its way, is past everything received. -/
theorem State.Complete.passed {results : List ProcessNotification} (hc : s.Complete p q results.length)
    (ho : q.Ordered Numbered results) (hready : ¬ q.Ready)
    (hflight : ∀ n, s.handover.notification = some n → n.processIDValue ≠ p) : s.Passed p results.length := by
  intro m hm hid hnum
  rcases hc m hm hid with hle | hparked | hfl
  · omega
  · -- a parked notification with the next number is the one the consumer needs
    have hseq : m.seqValue = q.nextSeq := by
      refine UInt64.toNat.inj ?_
      have hlt := m.seqValue.toNat_lt
      have : m.seqValue.toNat = results.length + 1 := hnum
      rw [ho.next, this, Nat.mod_eq_of_lt (by omega)]
    rw [hseq] at hparked
    exact hready hparked
  · exact hflight m hfl hid

/-- Handles of different processes have different queues. -/
theorem HandleAt.queue_ne (hh : HandleAt s h c) (hk : HandleAt s k d) (hne : h.processID ≠ k.processID) :
    h.queue ≠ k.queue := by
  intro heq
  have : c = d := Option.some.inj (hh.cell.symm.trans (heq ▸ hk.cell))
  exact hne (hh.own.symm.trans (this ▸ hk.own))

/-- A handle is not concerned by a step that keeps its cell and what was received for its process. -/
theorem HandleAt.frame (hh : HandleAt s h c) (hcell : s'.heap[h.queue]? = some c) (hcomplete : c.queue.err =
    none → s.Complete h.processID c.queue h.results.length → s'.Complete h.processID c.queue h.results.length)
    (hpassed : c.queue.err ≠ none → s.Passed h.processID h.results.length → s'.Passed h.processID
    h.results.length) : HandleAt s' h c :=
  { hh with
    cell := hcell
    complete := fun ho => hcomplete ho (hh.complete ho)
    passed := fun hc => hpassed hc (hh.passed hc) }

theorem Unclaimed.frame (hu : Unclaimed s p c) (hcomplete : s.Complete p c.queue 0 → s'.Complete p c.queue 0) :
    Unclaimed s' p c :=
  ⟨hu.isOpen, hu.ordered, hcomplete hu.complete⟩

end

/-! ## Updates of the heap -/

section

variable {s s' : State} {r r' i : Nat} {c : Cell} {h : Handle}
  {f : ProcessQueue ExecError → ProcessQueue ExecError}

theorem modifyQueue_self (f : ProcessQueue ExecError → ProcessQueue ExecError) (hc : s.heap[r]? = some c) :
    (modifyQueue s.heap r f)[r]? = some { c with queue := f c.queue } := by
  unfold modifyQueue
  rw [getElem?_modify, hc]
  simp

theorem modifyQueue_ne (hne : r' ≠ r) : (modifyQueue s.heap r f)[r']? = s.heap[r']? := by
  unfold modifyQueue
  rw [getElem?_modify]
  simp [Ne.symm hne]

theorem setQueue_id : s.setQueue r id = s := by
  have : modifyQueue s.heap r id = s.heap := modify_id ..
  rw [State.setQueue, this]

/-- No operation on a queue changes whose it is. -/
theorem cell_modify (hc : s.heap[r']? = some c) :
    ∃ d, (modifyQueue s.heap r f)[r']? = some d ∧ d.processID = c.processID := by
  by_cases hr : r' = r
  · subst hr
    exact ⟨_, modifyQueue_self f hc, rfl⟩
  · exact ⟨c, (modifyQueue_ne hr).trans hc, rfl⟩

/-- What stays where a cell is added to the heap. -/
theorem heap_append {x : Cell} (hc : s.heap[r]? = some c) : (s.heap ++ [x])[r]? = some c := by
  rw [getElem?_append_left (List.getElem?_eq_some_iff.mp hc).1]
  exact hc

/-- Closing keeps a queue closed, and a push finds it so. -/
theorem err_close_ne {e : ExecError} : (q.close e).err ≠ none := by
  unfold ProcessQueue.close
  split
  · rename_i e' he
    rw [he]
    nofun
  · nofun

theorem close_eq_self {e : ExecError} (h : q.err ≠ none) : q.close e = q := by
  unfold ProcessQueue.close
  split
  · rfl
  · contradiction

variable {n : ProcessNotification}

theorem push_eq_self (h : q.err ≠ none) : q.push n = q := by
  unfold ProcessQueue.push
  split
  · rfl
  · contradiction

theorem err_next : q.next.2.err = q.err := by
  unfold ProcessQueue.next
  split
  · rfl
  split <;> rfl

theorem err_push : (q.push n).err = q.err := by
  unfold ProcessQueue.push
  split <;> rfl

/-- A push onto an open queue parks the notification beside those already parked. -/
theorem parked_push {k : UInt64} (ho : q.err = none)
    (h : k = n.seqValue ∨ get? q.pending k ≠ none) : get? (q.push n).pending k ≠ none := by
  unfold ProcessQueue.push
  rw [ho]
  show get? (insert q.pending n.seqValue n) k ≠ none
  rw [SortedMap.get?_insert]
  split
  · exact Option.some_ne_none _
  · rename_i hne
    exact h.resolve_left (fun heq => hne heq.symm)

/-- Closing a queue that its consumer has used up. -/
theorem HandleAt.close {e : ExecError} (hh : HandleAt s h c) (hready : ¬ c.queue.Ready)
    (hflight : c.queue.err = none → ∀ n, s.handover.notification = some n → n.processIDValue ≠ h.processID)
    (hcell : s'.heap[h.queue]? = some { c with queue := c.queue.close e }) (hrec : s'.received = s.received) :
    HandleAt s' h { c with queue := c.queue.close e } where
  cell := hcell
  own := hh.own
  ordered := hh.ordered.close e
  complete := fun ho => absurd ho err_close_ne
  passed := fun _ => by
    have hp : s.Passed h.processID h.results.length := by
      cases hopen : c.queue.err with
      | none => exact (hh.complete hopen).passed hh.ordered hready (hflight hopen)
      | some e' => exact hh.passed (by rw [hopen]; nofun)
    unfold State.Passed
    rw [hrec]
    exact hp
  failed := fun _ => err_close_ne
  deleting := fun _ => err_close_ne

end

/-! ## Every action keeps it -/

section

variable {s s' : State} {r i : Nat} {c : Cell} {h : Handle} {n : ProcessNotification} {e : ExecError}

theorem HandleAt.cell_eq {d : Cell} (hd : HandleAt s h d) (hc : s.heap[h.queue]? = some c) : d = c :=
  Option.some.inj (hd.cell.symm.trans hc)

/-- Every handle keeps its cell where the heap only grows. -/
theorem Inv.handles_frame (hi : Inv s)
    (hheap : ∀ (r : Nat) (c : Cell), s.heap[r]? = some c → s'.heap[r]? = some c)
    (hcomplete : ∀ p q len, s.Complete p q len → s'.Complete p q len)
    (hpassed : ∀ p len, s.Passed p len → s'.Passed p len) : ∀ h ∈ s.handles, ∃ c, HandleAt s' h c := by
  intro h hh
  obtain ⟨c, hc⟩ := hi.handles h hh
  exact ⟨c, hc.frame (hheap _ _ hc.cell) (fun _ => hcomplete _ _ _) (fun _ => hpassed _ _)⟩

theorem inv_receive (hi : Inv s) (hidle : s.handover = .idle) (hn : 1 ≤ n.seqValue)
    (hok : Orderly s (.receive n)) : Inv { s with handover := .routing n, received := s.received ++ [n] } := by
  have hnone : s.handover.notification = none := by rw [hidle]; rfl
  -- what is complete stays so: the new notification is on its way
  have hcomplete : ∀ p q len, s.Complete p q len →
      State.Complete { s with handover := .routing n, received := s.received ++ [n] } p q len := by
    intro p q len hc m hm hid
    rcases mem_append.mp hm with hm | hm
    · rcases hc m hm hid with h | h | h
      · exact Or.inl h
      · exact Or.inr (Or.inl h)
      · rw [hnone] at h
        cases h
    · rw [mem_singleton] at hm
      exact Or.inr (Or.inr (by rw [hm]; rfl))
  refine ⟨?_, hi.distinct, hi.calls, hi.apart, ?_, ?_, hi.ended, hi.closing, nofun, ?_⟩
  · intro h hh
    obtain ⟨c, hc⟩ := hi.handles h hh
    refine ⟨c, hc.frame hc.cell (fun _ => hcomplete _ _ _) ?_⟩
    intro hclosed hp m hm hid
    rcases mem_append.mp hm with hm | hm
    · exact hp m hm hid
    -- a notification of this process would have found the queue open
    rw [mem_singleton] at hm
    subst hm
    obtain ⟨⟨c', hc', hopen⟩, _⟩ := hok h hh hid.symm
    rw [hc.cell] at hc'
    cases hc'
    exact absurd hopen hclosed
  · intro p r hp
    obtain ⟨c, hc, hown, hu⟩ := hi.mapped p r hp
    exact ⟨c, hc, hown, fun hun => (hu hun).frame (hcomplete _ _ _)⟩
  · intro hopen p hp hun m hm hid
    rcases mem_append.mp hm with hm | hm
    · have := hi.absent hopen p hp hun m hm hid
      rw [hnone] at this
      cases this
    · rw [mem_singleton] at hm
      rw [hm]
      rfl
  · intro m hm
    cases hm
    refine ⟨hn, ?_⟩
    intro h hh hid c hc
    obtain ⟨⟨c', hc', hopen⟩, hmap⟩ := hok h hh hid
    have hcc : c' = c := Option.some.inj (hc'.symm.trans hc)
    subst hcc
    refine ⟨fun _ => ⟨hopen, hmap⟩, fun herr => ?_⟩
    rw [hi.ended herr] at hmap
    cases hmap

theorem Inv.calls_append {x : Cell} (hi : Inv s) :
    ∀ k ∈ s.calls, ∃ c, (s.heap ++ [x])[k.queue]? = some c ∧ c.processID = k.processID := by
  intro k hk
  obtain ⟨c, hc, hown⟩ := hi.calls k hk
  exact ⟨c, heap_append hc, hown⟩

theorem Inv.calls_modify (hi : Inv s) (r : Nat) (f : ProcessQueue ExecError → ProcessQueue ExecError) :
    ∀ k ∈ s.calls, ∃ c, (modifyQueue s.heap r f)[k.queue]? = some c ∧ c.processID = k.processID := by
  intro k hk
  obtain ⟨c, hc, hown⟩ := hi.calls k hk
  obtain ⟨d, hd, hid⟩ := cell_modify hc
  exact ⟨d, hd, hid.trans hown⟩

/-- After the end, `ensureProcessQueue` adds a cell nothing refers to. -/
theorem inv_addCell {x : Cell} (hi : Inv s) (herr : s.processErr ≠ none) :
    Inv { s with heap := s.heap ++ [x] } := by
  refine ⟨?_, hi.distinct, hi.calls_append, hi.apart, ?_, fun hopen => absurd hopen herr, hi.ended, hi.closing,
    ?_, ?_⟩
  · exact hi.handles_frame (fun _ _ => heap_append) (fun _ _ _ => id) (fun _ _ => id)
  · intro p r hp
    rw [show s.processQueues = [] from hi.ended herr] at hp
    cases hp
  · intro r n hpush
    obtain ⟨c, hc, hrest⟩ := hi.pushing r n hpush
    exact ⟨c, heap_append hc, hrest⟩
  · intro n hn
    refine ⟨(hi.inFlight n hn).1, ?_⟩
    intro h hh hid c hc
    obtain ⟨d, hd⟩ := hi.handles h hh
    have hdc : d = c := Option.some.inj ((heap_append hd.cell).symm.trans hc)
    subst hdc
    exact (hi.inFlight n hn).2 h hh hid d hd.cell

/-- Before the end, `ensureProcessQueue` adds a queue for a process that has none. -/
theorem inv_addQueue (hi : Inv s) (herr : s.processErr = none) (hget : get? s.processQueues p = none) :
    Inv { s with
      heap := s.heap ++ [⟨p, .new⟩], processQueues := insert s.processQueues p s.heap.length } := by
  -- a process that has a queue already is another one
  have hother : ∀ p' r, get? s.processQueues p' = some r → p ≠ p' := by
    rintro p' r hr rfl
    rw [hget] at hr
    cases hr
  refine ⟨?_, hi.distinct, hi.calls_append, hi.apart, ?_, ?_, fun hne => absurd herr hne, hi.closing, ?_, ?_⟩
  · exact hi.handles_frame (fun _ _ => heap_append) (fun _ _ _ => id) (fun _ _ => id)
  · intro p' r hp
    by_cases hpp : p = p'
    · subst hpp
      rw [SortedMap.get?_insert_self] at hp
      cases hp
      refine ⟨_, getElem?_concat_length, rfl, fun hun => ⟨rfl, QueueRun.ordered_new, ?_⟩⟩
      intro m hm hid
      exact Or.inr (Or.inr (hi.absent herr p hget hun m hm hid))
    · rw [SortedMap.get?_insert_ne hpp] at hp
      obtain ⟨c, hc, hown, hu⟩ := hi.mapped p' r hp
      exact ⟨c, heap_append hc, hown, fun hun => (hu hun).frame id⟩
  · intro _ p' hp hun m hm hid
    by_cases hpp : p = p'
    · subst hpp
      rw [SortedMap.get?_insert_self] at hp
      cases hp
    · rw [SortedMap.get?_insert_ne hpp] at hp
      exact hi.absent herr p' hp hun m hm hid
  · intro r n hpush
    obtain ⟨c, hc, hown, hopen, hclosed⟩ := hi.pushing r n hpush
    refine ⟨c, heap_append hc, hown, fun _ hnone => ?_, hclosed⟩
    have hmap := hopen herr hnone
    exact (SortedMap.get?_insert_ne (hother _ _ hmap)).trans hmap
  · intro n hn
    refine ⟨(hi.inFlight n hn).1, ?_⟩
    intro h hh hid c hc
    obtain ⟨d, hd⟩ := hi.handles h hh
    have hdc : d = c := Option.some.inj ((heap_append hd.cell).symm.trans hc)
    subst hdc
    obtain ⟨hopen, hclosed⟩ := (hi.inFlight n hn).2 h hh hid d hd.cell
    obtain ⟨hdo, hmap⟩ := hopen herr
    exact ⟨fun _ => ⟨hdo, (SortedMap.get?_insert_ne (hother _ _ hmap)).trans hmap⟩, hclosed⟩

/-- What a call of `ensureProcessQueue` gives: a queue of the process, the one in the map before the end
    and a closed one after it. -/
structure Ensured (s s₁ : State) (p : Bytes) (r : Nat) : Prop where
  inv : Inv s₁
  handles : s₁.handles = s.handles
  calls : s₁.calls = s.calls
  received : s₁.received = s.received
  handover : s₁.handover = s.handover
  processErr : s₁.processErr = s.processErr
  mapped : s.processErr = none → get? s₁.processQueues p = some r
  closed : ∀ e, s.processErr = some e → s₁.heap[r]? = some ⟨p, ProcessQueue.new.close e⟩

theorem ensureProcessQueue_ended (herr : s.processErr = some e) :
    s.ensureProcessQueue p =
      (s.heap.length, { s with heap := s.heap ++ [⟨p, ProcessQueue.new.close e⟩] }) := by
  unfold State.ensureProcessQueue
  split
  · rename_i e' he
    rw [herr] at he
    cases he
    rfl
  · rename_i he
    rw [herr] at he
    cases he

theorem ensureProcessQueue_mapped (herr : s.processErr = none) (hget : get? s.processQueues p = some r) :
    s.ensureProcessQueue p = (r, s) := by
  unfold State.ensureProcessQueue
  split
  · rename_i e he
    rw [herr] at he
    cases he
  · rw [hget]

theorem ensureProcessQueue_new (herr : s.processErr = none) (hget : get? s.processQueues p = none) :
    s.ensureProcessQueue p =
      (s.heap.length,
        { s with
          heap := s.heap ++ [⟨p, .new⟩]
          processQueues := insert s.processQueues p s.heap.length }) := by
  unfold State.ensureProcessQueue
  split
  · rename_i e he
    rw [herr] at he
    cases he
  · rw [hget]

theorem ensured (hi : Inv s) (p : Bytes) :
    Ensured s (s.ensureProcessQueue p).2 p (s.ensureProcessQueue p).1 := by
  cases herr : s.processErr with
  | some e =>
    rw [ensureProcessQueue_ended herr]
    refine ⟨inv_addCell hi (by rw [herr]; nofun), rfl, rfl, rfl, rfl, rfl, ?_, ?_⟩
    · intro hnone
      rw [herr] at hnone
      cases hnone
    · intro e' he'
      rw [herr] at he'
      cases he'
      exact getElem?_concat_length
  | none =>
    have hclosed : ∀ (s₁ : State) (r : Nat) (e : ExecError), s.processErr = some e →
        s₁.heap[r]? = some ⟨p, ProcessQueue.new.close e⟩ := by
      intro s₁ r e he
      rw [herr] at he
      cases he
    cases hget : get? s.processQueues p with
    | some r =>
      rw [ensureProcessQueue_mapped herr hget]
      exact ⟨hi, rfl, rfl, rfl, rfl, rfl, fun _ => hget, hclosed _ _⟩
    | none =>
      rw [ensureProcessQueue_new herr hget]
      exact ⟨inv_addQueue hi herr hget, rfl, rfl, rfl, rfl, rfl, fun _ => SortedMap.get?_insert_self, hclosed _ _⟩

theorem inv_ensure (hrouting : s.handover = .routing n) {s₁ : State} (he : Ensured s s₁ n.processIDValue r) :
    Inv { s₁ with handover := .pushing r n } := by
  have hnot : s₁.handover.notification = some n := by rw [he.handover, hrouting]; rfl
  have hi₁ := he.inv
  have hcomplete : ∀ p q len, s₁.Complete p q len →
      State.Complete { s₁ with handover := .pushing r n } p q len := by
    intro p q len hc m hm hid
    refine (hc m hm hid).imp id (Or.imp id ?_)
    intro h
    rw [hnot] at h
    exact h
  refine ⟨?_, hi₁.distinct, hi₁.calls, hi₁.apart, ?_, ?_, hi₁.ended, hi₁.closing, ?_, ?_⟩
  · exact hi₁.handles_frame (fun _ _ => id) hcomplete (fun _ _ => id)
  · intro p r' hp
    obtain ⟨c, hc, hown, hu⟩ := hi₁.mapped p r' hp
    exact ⟨c, hc, hown, fun hun => (hu hun).frame (hcomplete _ _ _)⟩
  · intro hopen p hp hun m hm hid
    have := hi₁.absent hopen p hp hun m hm hid
    rw [hnot] at this
    exact this
  · intro r' n' hpush
    cases hpush
    cases herr : s.processErr with
    | none =>
      have hmap := he.mapped herr
      obtain ⟨c, hc, hown, _⟩ := hi₁.mapped _ _ hmap
      refine ⟨c, hc, hown, fun _ _ => hmap, ?_⟩
      intro hne
      exact absurd (he.processErr.trans herr) hne
    | some e =>
      refine ⟨_, he.closed e herr, rfl, ?_, fun _ => err_close_ne⟩
      intro hnone
      rw [← he.processErr, show s₁.processErr = none from hnone] at herr
      cases herr
  · intro m hm
    cases hm
    exact hi₁.inFlight n hnot

/-- The notification being handed over is parked, or dropped after the end. -/
theorem State.Complete.push {len : Nat} (hc : s.Complete p q len) (ho : q.err = none)
    (hflight : s.handover.notification = some n) (hrec : s'.received = s.received) :
    s'.Complete p (q.push n) len := by
  intro m hm hid
  rw [hrec] at hm
  rcases hc m hm hid with h | h | h
  · exact Or.inl h
  · exact Or.inr (Or.inl (parked_push ho (Or.inr h)))
  rw [hflight] at h
  cases h
  exact Or.inr (Or.inl (parked_push ho (Or.inl rfl)))

/-- Another process does not notice. -/
theorem State.Complete.handed {len : Nat} (hc : s.Complete p q len) (hflight : s.handover.notification = some n)
    (hne : n.processIDValue ≠ p) (hrec : s'.received = s.received) : s'.Complete p q len := by
  intro m hm hid
  rw [hrec] at hm
  refine (hc m hm hid).imp id (Or.imp id ?_)
  intro h
  rw [hflight] at h
  cases h
  exact absurd hid hne

theorem inv_push (hi : Inv s) (hpushing : s.handover = .pushing r n) :
    Inv { s with heap := modifyQueue s.heap r (·.push n), handover := .idle } := by
  have hflight : s.handover.notification = some n := by rw [hpushing]; rfl
  obtain ⟨hn, hhandles⟩ := hi.inFlight n hflight
  obtain ⟨c, hc, hown, hopen, hclosed⟩ := hi.pushing r n hpushing
  have hself : (modifyQueue s.heap r (·.push n))[r]? = some { c with queue := c.queue.push n } :=
    modifyQueue_self _ hc
  have hother : ∀ r', r' ≠ r → (modifyQueue s.heap r (·.push n))[r']? = s.heap[r']? :=
    fun _ hne => modifyQueue_ne hne
  refine ⟨?_, hi.distinct, hi.calls_modify r (·.push n), hi.apart, ?_, ?_, hi.ended, hi.closing, nofun, nofun⟩
  · intro h hh
    obtain ⟨d, hd⟩ := hi.handles h hh
    by_cases hr : h.queue = r
    · have hcd : d = c := hd.cell_eq (hr ▸ hc)
      subst hcd
      cases herr : d.queue.err with
      | none =>
        have he : (d.queue.push n).err = none := err_push.trans herr
        refine ⟨{ d with queue := d.queue.push n }, ?_⟩
        exact ⟨hr ▸ hself, hd.own, hd.ordered.push hn,
          fun _ => (hd.complete herr).push herr hflight rfl, fun h => absurd he h,
          fun hf => absurd herr (hd.failed hf), fun hp => absurd herr (hd.deleting hp)⟩
      | some e =>
        have hne : d.queue.err ≠ none := by rw [herr]; nofun
        have hcell : (modifyQueue s.heap r (·.push n))[h.queue]? = some d := by
          rw [hr, hself, push_eq_self hne]
        exact ⟨d, hd.frame hcell (fun ho => absurd ho hne) (fun _ => id)⟩
    · refine ⟨d, hd.frame ((hother _ hr).trans hd.cell) (fun ho hcomp => ?_) (fun _ => id)⟩
      refine hcomp.handed hflight ?_ rfl
      -- the handle of the process would have this very queue, or be past the end
      intro hid
      obtain ⟨ho', hc'⟩ := hhandles h hh hid.symm d hd.cell
      cases herr : s.processErr with
      | none =>
        have hmap := (ho' herr).2
        rw [← hid, hopen herr (fun k hk heq => hi.apart h hh k hk (hid.symm.trans heq.symm))] at hmap
        exact hr (Option.some.inj hmap).symm
      | some e => exact hc' (by rw [herr]; nofun) ho
  · intro p r' hp
    obtain ⟨d, hd, hdown, hu⟩ := hi.mapped p r' hp
    have herr : s.processErr = none := by
      by_contra hne
      rw [show s.processQueues = [] from hi.ended hne] at hp
      cases hp
    by_cases hr : r' = r
    · subst hr
      have hcd : d = c := Option.some.inj (hd.symm.trans hc)
      subst hcd
      refine ⟨_, hself, hdown, fun hun => ?_⟩
      have hud := hu hun
      exact ⟨err_push.trans hud.isOpen, hud.ordered.push hn, hud.complete.push hud.isOpen hflight rfl⟩
    · refine ⟨d, (hother _ hr).trans hd, hdown, fun hun => (hu hun).frame (fun hcomp => ?_)⟩
      refine hcomp.handed hflight ?_ rfl
      rintro rfl
      have hmap := hopen herr hun.2
      rw [show get? s.processQueues n.processIDValue = some r' from hp] at hmap
      exact hr (Option.some.inj hmap)
  · intro herr p hp hun m hm hid
    have hm' := hi.absent herr p hp hun m hm hid
    rw [hflight] at hm'
    cases hm'
    have hmap := hopen herr (hid ▸ hun.2)
    rw [hid, show get? s.processQueues p = none from hp] at hmap
    cases hmap

theorem inv_closeAll (hi : Inv s) (hidle : s.handover = .idle) : Inv (s.closeAllProcessQueues e) := by
  refine ⟨?_, hi.distinct, hi.calls, hi.apart, nofun, nofun, fun _ => rfl, fun _ => nofun, ?_, ?_⟩
  · exact hi.handles_frame (fun _ _ => id) (fun _ _ _ => id) (fun _ _ => id)
  · intro r n hpush
    rw [show s.handover = .pushing r n from hpush] at hidle
    cases hidle
  · intro n hn
    have hn' : s.handover.notification = some n := hn
    rw [hidle] at hn'
    cases hn'

theorem inv_closeOne {rest : List Nat} (hi : Inv s) (hto : s.toClose = some (e, r :: rest))
    (hready : ¬ s.Ready r) :
    Inv { s with heap := modifyQueue s.heap r (·.close e), toClose := some (e, rest) } := by
  have herr : s.processErr ≠ none := hi.closing (by rw [hto]; nofun)
  have hclose : ∀ (r' : Nat) (c : Cell), s.heap[r']? = some c → c.queue.err ≠ none →
      (modifyQueue s.heap r (·.close e))[r']? = some c := by
    intro r' c hc hne
    by_cases hr : r' = r
    · subst hr
      rw [modifyQueue_self _ hc, close_eq_self hne]
    · exact (modifyQueue_ne hr).trans hc
  refine ⟨?_, hi.distinct, hi.calls_modify r (·.close e), hi.apart, ?_, fun h => absurd h herr, hi.ended,
    fun _ => herr, ?_, ?_⟩
  · intro h hh
    obtain ⟨c, hc⟩ := hi.handles h hh
    by_cases hr : h.queue = r
    · subst hr
      have hcell : (modifyQueue s.heap h.queue (·.close e))[h.queue]? =
          some { c with queue := c.queue.close e } := modifyQueue_self _ hc.cell
      refine ⟨_, hc.close ?_ ?_ hcell rfl⟩
      · exact fun hq => hready ⟨c, hc.cell, hq⟩
      · intro hopen n hn hid
        exact ((hi.inFlight n hn).2 h hh hid.symm c hc.cell).2 herr hopen
    · have hcell : (modifyQueue s.heap r (·.close e))[h.queue]? = some c := (modifyQueue_ne hr).trans hc.cell
      exact ⟨c, hc.frame hcell (fun _ => id) (fun _ => id)⟩
  · intro p r' hp
    rw [show s.processQueues = [] from hi.ended herr] at hp
    cases hp
  · intro r' n hpush
    obtain ⟨c, hc, hown, hopen, hclosed⟩ := hi.pushing r' n hpush
    exact ⟨c, hclose r' c hc (hclosed herr), hown, hopen, hclosed⟩
  · intro n hn
    refine ⟨(hi.inFlight n hn).1, ?_⟩
    intro h hh hid c hc
    obtain ⟨d, hd⟩ := hi.handles h hh
    have hdc := ((hi.inFlight n hn).2 h hh hid d hd.cell).2 herr
    have : d = c := Option.some.inj ((hclose _ d hd.cell hdc).symm.trans hc)
    subst this
    exact ⟨fun h => absurd h herr, fun _ => hdc⟩

theorem inv_start {s₁ : State} (hok : Orderly s (.start p)) (he : Ensured s s₁ p r) :
    Inv { s₁ with handles := s₁.handles ++ [⟨p, r, .outside, [], none⟩] } := by
  have hi₁ := he.inv
  obtain ⟨hunused, hfirst⟩ := hok
  have hunused₁ : s₁.Unused p := by
    rw [State.Unused, he.handles, he.calls]
    exact hunused
  -- the new handle is at the start of a complete queue, or behind the end
  have hnew : ∃ c, HandleAt s₁ ⟨p, r, .outside, [], none⟩ c ∧
      (s₁.processErr = none → c.queue.err = none ∧ get? s₁.processQueues p = some r) ∧
      (s₁.processErr ≠ none → c.queue.err ≠ none) := by
    cases herr : s.processErr with
    | none =>
      have hmap := he.mapped herr
      obtain ⟨c, hc, hown, hu⟩ := hi₁.mapped p r hmap
      have hud := hu hunused₁
      refine ⟨c, ⟨hc, hown, hud.ordered, fun _ => hud.complete, fun h => absurd hud.isOpen h,
        fun h => absurd rfl h, nofun⟩, fun _ => ⟨hud.isOpen, hmap⟩, ?_⟩
      exact fun h => absurd (he.processErr.trans herr) h
    | some e =>
      refine ⟨_, ⟨he.closed e herr, rfl, QueueRun.ordered_new.close e, fun h => absurd h err_close_ne,
        fun _ => ?_, fun h => absurd rfl h, nofun⟩, ?_, fun _ => err_close_ne⟩
      · intro m hm hid
        rw [he.received] at hm
        exact hfirst.resolve_left (by rw [herr]; nofun) m hm hid
      · intro h
        rw [he.processErr, herr] at h
        cases h
  obtain ⟨c, hc, hopen, hclosed⟩ := hnew
  have hunused_of : ∀ p', State.Unused
      { s₁ with handles := s₁.handles ++ [⟨p, r, .outside, [], none⟩] } p' → s₁.Unused p' :=
    fun p' hun => ⟨fun h hh => hun.1 h (mem_append_left _ hh), hun.2⟩
  refine ⟨?_, AllAt.concat ?_ ?_, hi₁.calls, ?_, ?_, ?_, hi₁.ended, hi₁.closing, hi₁.pushing, ?_⟩
  · intro h hh
    rcases mem_append.mp hh with hh | hh
    · obtain ⟨d, hd⟩ := hi₁.handles h hh
      exact ⟨d, hd.frame hd.cell (fun _ => id) (fun _ => id)⟩
    rw [mem_singleton] at hh
    subst hh
    exact ⟨c, hc.frame hc.cell (fun _ => id) (fun _ => id)⟩
  · intro i h hh
    refine AllAt.concat (hi₁.distinct i h hh) ?_
    intro hid
    exact absurd hid (hunused₁.1 h (mem_of_getElem? hh))
  · refine AllAt.concat ?_ (fun _ => rfl)
    intro i h hh hid
    exact absurd hid.symm (hunused₁.1 h (mem_of_getElem? hh))
  · intro h hh k hk
    rcases mem_append.mp hh with hh | hh
    · exact hi₁.apart h hh k hk
    rw [mem_singleton] at hh
    subst hh
    exact Ne.symm (hunused₁.2 k hk)
  · intro p' r' hp
    obtain ⟨d, hd, hown, hu⟩ := hi₁.mapped p' r' hp
    exact ⟨d, hd, hown, fun hun => (hu (hunused_of p' hun)).frame id⟩
  · intro herr p' hp hun m hm hid
    exact hi₁.absent herr p' hp (hunused_of p' hun) m hm hid
  · intro n hn
    refine ⟨(hi₁.inFlight n hn).1, ?_⟩
    intro h hh hid d hd
    rcases mem_append.mp hh with hh | hh
    · exact (hi₁.inFlight n hn).2 h hh hid d hd
    rw [mem_singleton] at hh
    subst hh
    have hcd : c = d := hc.cell_eq hd
    subst hcd
    exact ⟨hopen, hclosed⟩

/-- A turn of a call on handle `i`: it may change the handle's queue, which no other handle has. -/
theorem Inv.turn {f : ProcessQueue ExecError → ProcessQueue ExecError} {g : Handle → Handle} (hi : Inv s)
    (hh : s.handles[i]? = some h) (hc : HandleAt s h c)
    (hg : ∀ k, (g k).processID = k.processID ∧ (g k).queue = k.queue)
    (hat : HandleAt ((s.setQueue h.queue f).setHandle i g) (g h) ⟨c.processID, f c.queue⟩) (herr : (f
    c.queue).err = c.queue.err ∨ ∀ n, s.handover.notification = some n → n.processIDValue ≠ h.processID) :
    Inv ((s.setQueue h.queue f).setHandle i g) := by
  have hself : (modifyQueue s.heap h.queue f)[h.queue]? = some ⟨c.processID, f c.queue⟩ :=
    modifyQueue_self f hc.cell
  have hother : ∀ r', r' ≠ h.queue → (modifyQueue s.heap h.queue f)[r']? = s.heap[r']? :=
    fun _ hne => modifyQueue_ne hne
  -- the handles are those of before, but for the one that moves
  have hback : AllAt (s.handles.modify i g) fun j k => ∃ k₀, s.handles[j]? = some k₀ ∧
      k.processID = k₀.processID ∧ k.queue = k₀.queue ∧ (j ≠ i → k = k₀) ∧ (j = i → k = g k₀) :=
    AllAt.modify (fun b hb => ⟨b, hb, (hg b).1, (hg b).2, fun hne => absurd rfl hne, fun _ => rfl⟩)
      (fun j b hne hb => ⟨b, hb, rfl, rfl, fun _ => rfl, fun heq => absurd heq hne⟩)
  have hunused : ∀ p, State.Unused ((s.setQueue h.queue f).setHandle i g) p → s.Unused p := by
    refine fun p hun => ⟨?_, hun.2⟩
    intro k hk hid
    obtain ⟨j, hj⟩ := mem_iff_getElem?.mp hk
    by_cases hji : j = i
    · subst hji
      refine hun.1 (g k) ?_ ((hg k).1.trans hid)
      refine mem_of_getElem? (i := j) ?_
      show (s.handles.modify j g)[j]? = _
      rw [getElem?_modify, hj]
      simp
    · refine hun.1 k ?_ hid
      refine mem_of_getElem? (i := j) ?_
      show (s.handles.modify i g)[j]? = _
      rw [getElem?_modify, hj]
      simp [Ne.symm hji]
  refine ⟨?_, ?_, hi.calls_modify _ f, ?_, ?_, ?_, hi.ended, hi.closing, ?_, ?_⟩
  · intro k hk
    obtain ⟨j, hj⟩ := mem_iff_getElem?.mp hk
    obtain ⟨k₀, hk₀, hid, hq, hne, heq⟩ := hback j k hj
    by_cases hji : j = i
    · subst hji
      rw [hh] at hk₀
      cases hk₀
      exact ⟨_, heq rfl ▸ hat⟩
    · rw [hne hji]
      obtain ⟨d, hd⟩ := hi.handles k₀ (mem_of_getElem? hk₀)
      have hpid : k₀.processID ≠ h.processID := fun h' => hji (hi.distinct j k₀ hk₀ i h hh h')
      exact ⟨d, hd.frame ((hother _ (hd.queue_ne hc hpid)).trans hd.cell) (fun _ => id) (fun _ => id)⟩
  · intro j k hj j' k' hj' hid
    obtain ⟨k₀, hk₀, hid₀, _⟩ := hback j k hj
    obtain ⟨k₁, hk₁, hid₁, _⟩ := hback j' k' hj'
    exact hi.distinct j k₀ hk₀ j' k₁ hk₁ (by rw [← hid₀, ← hid₁, hid])
  · intro k hk
    obtain ⟨j, hj⟩ := mem_iff_getElem?.mp hk
    obtain ⟨k₀, hk₀, hid₀, _⟩ := hback j k hj
    rw [hid₀]
    exact hi.apart k₀ (mem_of_getElem? hk₀)
  · intro p r hp
    obtain ⟨d, hd, hown, hu⟩ := hi.mapped p r hp
    by_cases hr : r = h.queue
    · subst hr
      have hcd : d = c := Option.some.inj (hd.symm.trans hc.cell)
      subst hcd
      refine ⟨_, hself, hown, fun hun => ?_⟩
      exact absurd (hc.own.symm.trans hown) ((hunused p hun).1 h (mem_of_getElem? hh))
    · exact ⟨d, (hother r hr).trans hd, hown, fun hun => (hu (hunused p hun)).frame id⟩
  · intro herr' p hp hun m hm hid
    exact hi.absent herr' p hp (hunused p hun) m hm hid
  · intro r n hpush
    obtain ⟨d, hd, hown, hopen, hclosed⟩ := hi.pushing r n hpush
    by_cases hr : r = h.queue
    · subst hr
      have hcd : d = c := Option.some.inj (hd.symm.trans hc.cell)
      subst hcd
      refine ⟨_, hself, hown, hopen, fun hne => ?_⟩
      rcases herr with herr | hflight
      · show (f d.queue).err ≠ none
        rw [herr]
        exact hclosed hne
      · have hn : s.handover.notification = some n := by
          rw [show s.handover = .pushing h.queue n from hpush]
          rfl
        exact absurd (hown.symm.trans hc.own) (hflight n hn)
    · exact ⟨d, (hother r hr).trans hd, hown, hopen, hclosed⟩
  · intro n hn
    refine ⟨(hi.inFlight n hn).1, ?_⟩
    intro k hk hid d hd
    obtain ⟨j, hj⟩ := mem_iff_getElem?.mp hk
    obtain ⟨k₀, hk₀, hid₀, hq, _⟩ := hback j k hj
    have hk₀m : k₀ ∈ s.handles := mem_of_getElem? hk₀
    by_cases hr : k₀.queue = h.queue
    · -- the handle that moves
      have hd' : d = ⟨c.processID, f c.queue⟩ := by
        have hd : (modifyQueue s.heap h.queue f)[k.queue]? = some d := hd
        rw [hq, hr] at hd
        exact Option.some.inj (hd.symm.trans hself)
      subst hd'
      have hcell : s.heap[k₀.queue]? = some c := hr ▸ hc.cell
      have hin := (hi.inFlight n hn).2 k₀ hk₀m (hid₀ ▸ hid) c hcell
      rw [hid₀, hq]
      rcases herr with herr | hflight
      · show (s.processErr = none → (f c.queue).err = none ∧ _) ∧
          (s.processErr ≠ none → (f c.queue).err ≠ none)
        rw [herr]
        exact hin
      · obtain ⟨d₀, hd₀⟩ := hi.handles k₀ hk₀m
        have : d₀ = c := hd₀.cell_eq hcell
        subst this
        exact absurd (by rw [← hid, hid₀, ← hd₀.own, hc.own]) (hflight n hn)
    · have hcell : s.heap[k₀.queue]? = some d := by
        rw [← hother _ hr, ← hq]
        exact hd
      rw [hid₀, hq]
      exact (hi.inFlight n hn).2 k₀ hk₀m (hid₀ ▸ hid) d hcell

/-- A turn that takes nothing: the queue keeps what it holds. -/
theorem HandleAt.idleTurn {h' : Handle} (hc : HandleAt s h c)
    (hcell : s'.heap[h'.queue]? = some ⟨c.processID, q⟩) (hrec : s'.received = s.received)
    (hho : s'.handover = s.handover) (hid : h'.processID = h.processID) (hres : h'.results = h.results)
    (hpending : q.pending = c.queue.pending) (hnext : q.nextSeq = c.queue.nextSeq) (herr : q.err = c.queue.err)
    (hfailed : h'.failed ≠ none → c.queue.err ≠ none) (hdeleting : h'.place = .deleting → c.queue.err ≠ none) :
    HandleAt s' h' ⟨c.processID, q⟩ where
  cell := hcell
  own := hc.own.trans hid.symm
  ordered := by
    rw [hres]
    exact ⟨hc.ordered.numbers, hc.ordered.pushed, hc.ordered.bound, hnext ▸ hc.ordered.next,
      hpending ▸ hc.ordered.parked⟩
  complete := by
    intro ho
    have hcomp := hc.complete (herr ▸ ho)
    unfold State.Complete at hcomp ⊢
    rw [hrec, hho, hid, hres]
    show ∀ m ∈ s.received, _ → _ ∨ get? q.pending _ ≠ none ∨ _
    rw [hpending]
    exact hcomp
  passed := by
    intro hne
    have hp := hc.passed (herr ▸ hne)
    unfold State.Passed at hp ⊢
    rw [hrec, hid, hres]
    exact hp
  failed := fun hf => herr ▸ hfailed hf
  deleting := fun hp => herr ▸ hdeleting hp

theorem inv_setPlace {p : Place} (hi : Inv s) (hh : s.handles[i]? = some h) (hp : p ≠ .deleting) :
    Inv (s.setPlace i p) := by
  obtain ⟨c, hc⟩ := hi.handles h (mem_of_getElem? hh)
  have := hi.turn (f := id) (g := fun h => { h with place := p }) hh hc (fun _ => ⟨rfl, rfl⟩) ?_ (Or.inl rfl)
  · rwa [setQueue_id] at this
  · exact hc.idleTurn (modifyQueue_self id hc.cell) rfl rfl rfl rfl rfl rfl rfl hc.failed
      (fun h => absurd h hp)

/-- The turn that takes the next notification. -/
theorem HandleAt.deliver {h' : Handle} (hc : HandleAt s h c) (hopen : c.queue.err = none)
    (hget : get? c.queue.pending c.queue.nextSeq = some n) (hcell : s'.heap[h'.queue]? = some ⟨c.processID, {
    c.queue with pending := erase c.queue.pending c.queue.nextSeq, nextSeq := c.queue.nextSeq + 1 }⟩)
    (hrec : s'.received = s.received) (hho : s'.handover = s.handover) (hid : h'.processID = h.processID)
    (hres : h'.results = h.results ++ [n]) (hfailed : h'.failed = h.failed) (hp : h'.place ≠ .deleting) :
    HandleAt s' h' ⟨c.processID, { c.queue with
      pending := erase c.queue.pending c.queue.nextSeq, nextSeq := c.queue.nextSeq + 1 }⟩ where
  cell := hcell
  own := hc.own.trans hid.symm
  ordered := by
    rw [hres]
    exact hc.ordered.deliver (fun _ hn => hn) hget
  complete := by
    intro _ m hm hmid
    rw [hrec] at hm
    rw [hid] at hmid
    have hnum : n.number = h.results.length + 1 := by
      have := (hc.ordered.deliver (fun _ hn => hn) hget).numbers
      rw [map_append, length_append, length_singleton, range'_concat, hc.ordered.numbers] at this
      have := append_cancel_left this
      simp at this
      omega
    have hseq : n.seqValue = c.queue.nextSeq := (hc.ordered.parked _ (SortedMap.mem_of_get? hget)).1
    rw [hres, length_append, length_singleton, hho]
    rcases hc.complete hopen m hm hmid with hle | hparked | hfl
    · exact Or.inl (by omega)
    · by_cases hms : m.seqValue = c.queue.nextSeq
      · -- it is the one that was taken
        left
        have : m.number = n.number := by
          show m.seqValue.toNat = n.seqValue.toNat
          rw [hms, hseq]
        omega
      · exact Or.inr (Or.inl (by rwa [SortedMap.get?_erase_ne hms]))
    · exact Or.inr (Or.inr hfl)
  passed := fun hne => absurd hopen hne
  failed := fun hf => absurd hopen (hc.failed (hfailed ▸ hf))
  deleting := fun h => absurd h hp

theorem inv_lock (hi : Inv s) (hh : s.handles[i]? = some h) (hcell : s.heap[h.queue]? = some c) :
    Inv (s.take i h c.queue.next) := by
  obtain ⟨c', hc⟩ := hi.handles h (mem_of_getElem? hh)
  have hcc : c' = c := hc.cell_eq hcell
  subst hcc
  cases herr : c'.queue.err with
  | some e =>
    rw [ProcessQueue.next_closed herr]
    refine hi.turn hh hc (fun _ => ⟨rfl, rfl⟩) ?_ (Or.inl rfl)
    have hne : c'.queue.err ≠ none := by rw [herr]; nofun
    exact hc.idleTurn (modifyQueue_self (fun _ => c'.queue) hc.cell) rfl rfl rfl rfl rfl rfl rfl
      (fun _ => hne) nofun
  | none =>
    cases hget : get? c'.queue.pending c'.queue.nextSeq with
    | none =>
      rw [ProcessQueue.next_missing herr hget]
      refine hi.turn hh hc (fun _ => ⟨rfl, rfl⟩) ?_ (Or.inl rfl)
      exact hc.idleTurn (modifyQueue_self (fun _ => c'.queue) hc.cell) rfl rfl rfl rfl rfl rfl rfl
        hc.failed nofun
    | some n =>
      rw [ProcessQueue.next_ready herr hget]
      refine hi.turn hh hc (fun _ => ⟨rfl, rfl⟩) ?_ (Or.inl rfl)
      refine hc.deliver herr hget (modifyQueue_self (fun _ => _) hc.cell) rfl rfl rfl rfl rfl ?_
      show (match n with | .closed .. => Place.closing | _ => Place.outside) ≠ .deleting
      split <;> nofun

theorem inv_wake (hi : Inv s) (hh : s.handles[i]? = some h) :
    Inv ((s.setQueue h.queue (fun q => { q with notify := false })).setPlace i .locking) := by
  obtain ⟨c, hc⟩ := hi.handles h (mem_of_getElem? hh)
  refine hi.turn hh hc (fun _ => ⟨rfl, rfl⟩) ?_ (Or.inl rfl)
  exact hc.idleTurn (modifyQueue_self (fun q => { q with notify := false }) hc.cell) rfl rfl rfl rfl
    rfl rfl rfl hc.failed nofun

theorem inv_closeEOF (hi : Inv s) (hh : s.handles[i]? = some h) (hok : Orderly s (.closeEOF i)) :
    Inv ((s.setQueue h.queue (·.close .eof)).setPlace i .deleting) := by
  obtain ⟨c, hc⟩ := hi.handles h (mem_of_getElem? hh)
  obtain ⟨hready, hflight⟩ := hok h hh
  refine hi.turn hh hc (fun _ => ⟨rfl, rfl⟩) ?_ (Or.inr hflight)
  have hcell : (modifyQueue s.heap h.queue (·.close .eof))[h.queue]? =
      some { c with queue := c.queue.close .eof } := modifyQueue_self _ hc.cell
  have hclosed : HandleAt (s.setQueue h.queue (·.close .eof)) h { c with queue := c.queue.close .eof } :=
    hc.close (fun hq => hready ⟨c, hc.cell, hq⟩) (fun _ => hflight) hcell rfl
  exact { hclosed with deleting := fun _ => err_close_ne }

/-- A queue leaves the map: the process is in use, and a notification is on its way to it only if somebody
    takes them through the client. -/
theorem inv_erase (hi : Inv s) (hused : ¬ s.Unused p) (hflight : ∀ n, s.handover.notification = some n →
    s.processErr = none → n.processIDValue = p → ∃ k ∈ s.calls, k.processID = p) :
    Inv { s with processQueues := erase s.processQueues p } := by
  refine ⟨?_, hi.distinct, hi.calls, hi.apart, ?_, ?_, ?_, hi.closing, ?_, ?_⟩
  · exact hi.handles_frame (fun _ _ => id) (fun _ _ _ => id) (fun _ _ => id)
  · intro p' r hp
    have hpp : p' ≠ p := by
      rintro rfl
      rw [SortedMap.get?_erase_self] at hp
      cases hp
    obtain ⟨d, hd, hown, hu⟩ := hi.mapped p' r ((SortedMap.get?_erase_ne hpp).symm.trans hp)
    exact ⟨d, hd, hown, fun hun => (hu hun).frame id⟩
  · intro herr p' hp hun m hm hid
    have hpp : p' ≠ p := fun heq => hused (heq ▸ hun)
    exact hi.absent herr p' ((SortedMap.get?_erase_ne hpp).symm.trans hp) hun m hm hid
  · intro herr
    show erase s.processQueues p = []
    rw [hi.ended herr]
    rfl
  · intro r n hpush
    obtain ⟨d, hd, hown, hopen, hcl⟩ := hi.pushing r n hpush
    have hn : s.handover.notification = some n := by
      rw [show s.handover = .pushing r n from hpush]
      rfl
    refine ⟨d, hd, hown, fun herr hnone => ?_, hcl⟩
    have hpp : n.processIDValue ≠ p := by
      intro heq
      obtain ⟨k, hk, hkp⟩ := hflight n hn herr heq
      exact hnone k hk (hkp.trans heq.symm)
    exact (SortedMap.get?_erase_ne hpp).trans (hopen herr hnone)
  · intro n hn
    refine ⟨(hi.inFlight n hn).1, fun h hh hid d hd => ?_⟩
    obtain ⟨hopen, hcl⟩ := (hi.inFlight n hn).2 h hh hid d hd
    refine ⟨fun herr => ?_, hcl⟩
    obtain ⟨hdo, hmap⟩ := hopen herr
    have hpp : h.processID ≠ p := by
      intro heq
      obtain ⟨k, hk, hkp⟩ := hflight n hn herr (hid.symm.trans heq)
      exact hi.apart h hh k hk (heq.trans hkp.symm)
    exact ⟨hdo, (SortedMap.get?_erase_ne hpp).trans hmap⟩

theorem inv_deleteProcessQueue (hi : Inv s) (hh : s.handles[i]? = some h)
    (hplace : h.place = .deleting) : Inv (s.deleteProcessQueue h.processID h.queue) := by
  have hmem : h ∈ s.handles := mem_of_getElem? hh
  obtain ⟨c, hc⟩ := hi.handles h hmem
  unfold State.deleteProcessQueue
  split
  · refine inv_erase hi (fun hun => hun.1 h hmem rfl) (fun n hn herr hid => ?_)
    -- nothing is on its way to a process whose queue is being deleted before the end
    exact absurd (((hi.inFlight n hn).2 h hmem hid.symm c hc.cell).1 herr).1 (hc.deleting hplace)
  · exact hi

/-! Calls through the client only touch queues of processes without a handle. -/

section

variable {k : Call} {f : ProcessQueue ExecError → ProcessQueue ExecError}

/-- Calls come and move on; none is forgotten. -/
theorem Inv.setCalls {calls : List Call} (hi : Inv s)
    (hcalls : ∀ k ∈ calls, ∃ c, s.heap[k.queue]? = some c ∧ c.processID = k.processID)
    (hapart : ∀ h ∈ s.handles, ∀ k ∈ calls, h.processID ≠ k.processID)
    (hkeep : ∀ k ∈ s.calls, ∃ k' ∈ calls, k'.processID = k.processID) : Inv { s with calls := calls } := by
  have hback : ∀ p, (∀ k ∈ calls, k.processID ≠ p) → ∀ k ∈ s.calls, k.processID ≠ p := by
    intro p hnone k hk hid
    obtain ⟨k', hk', hid'⟩ := hkeep k hk
    exact hnone k' hk' (hid'.trans hid)
  refine ⟨?_, hi.distinct, hcalls, hapart, ?_, ?_, hi.ended, hi.closing, ?_, hi.inFlight⟩
  · exact hi.handles_frame (fun _ _ => id) (fun _ _ _ => id) (fun _ _ => id)
  · intro p r hp
    obtain ⟨c, hc, hown, hu⟩ := hi.mapped p r hp
    exact ⟨c, hc, hown, fun hun => (hu ⟨hun.1, hback p hun.2⟩).frame id⟩
  · intro herr p hp hun m hm hid
    exact hi.absent herr p hp ⟨hun.1, hback p hun.2⟩ m hm hid
  · intro r n hpush
    obtain ⟨c, hc, hown, hopen, hclosed⟩ := hi.pushing r n hpush
    exact ⟨c, hc, hown, fun herr hnone => hopen herr (hback _ hnone), hclosed⟩

theorem inv_setCall {p' : Place} (hi : Inv s) : Inv (s.setCall i p') := by
  have hat : ∀ j : Nat, (s.calls.modify i (fun k => { k with place := p' }))[j]? =
      s.calls[j]?.map (fun k => if i = j then { k with place := p' } else k) := fun j => getElem?_modify ..
  have hback : ∀ k ∈ s.calls.modify i (fun k => { k with place := p' }), ∃ k₀ ∈ s.calls,
      k.processID = k₀.processID ∧ k.queue = k₀.queue := by
    intro k hk
    obtain ⟨j, hj⟩ := mem_iff_getElem?.mp hk
    obtain ⟨k₀, hk₀, rfl⟩ := Option.map_eq_some_iff.mp ((hat j).symm.trans hj)
    refine ⟨k₀, mem_of_getElem? hk₀, ?_⟩
    split <;> exact ⟨rfl, rfl⟩
  refine hi.setCalls ?_ ?_ ?_
  · intro k hk
    obtain ⟨k₀, hk₀, hid, hq⟩ := hback k hk
    rw [hid, hq]
    exact hi.calls k₀ hk₀
  · intro h hh k hk
    obtain ⟨k₀, hk₀, hid, _⟩ := hback k hk
    rw [hid]
    exact hi.apart h hh k₀ hk₀
  · intro k hk
    obtain ⟨j, hj⟩ := mem_iff_getElem?.mp hk
    refine ⟨_, mem_of_getElem? (i := j) (by rw [hat j, hj]; rfl), ?_⟩
    split <;> rfl

/-- An operation on the queue of a call, one that opens no closed queue. -/
theorem inv_callQueue (hi : Inv s) (hk : k ∈ s.calls) (hc : s.heap[k.queue]? = some c)
    (hf : c.queue.err ≠ none → (f c.queue).err ≠ none) : Inv (s.setQueue k.queue f) := by
  have hown : c.processID = k.processID := by
    obtain ⟨d, hd, hown⟩ := hi.calls k hk
    rw [← hown, Option.some.inj (hc.symm.trans hd)]
  -- no handle has the queue
  have hother : ∀ h ∈ s.handles, (modifyQueue s.heap k.queue f)[h.queue]? = s.heap[h.queue]? := by
    intro h hh
    obtain ⟨d, hd⟩ := hi.handles h hh
    refine modifyQueue_ne (fun heq => hi.apart h hh k hk ?_)
    rw [← hd.own, ← hown, Option.some.inj (hd.cell.symm.trans (heq ▸ hc))]
  refine ⟨?_, hi.distinct, hi.calls_modify _ f, hi.apart, ?_, hi.absent, hi.ended, hi.closing, ?_, ?_⟩
  · intro h hh
    obtain ⟨d, hd⟩ := hi.handles h hh
    exact ⟨d, hd.frame ((hother h hh).trans hd.cell) (fun _ => id) (fun _ => id)⟩
  · intro p r hp
    obtain ⟨d, hd, hdown, hu⟩ := hi.mapped p r hp
    by_cases hr : r = k.queue
    · subst hr
      refine ⟨_, modifyQueue_self f hd, hdown, fun hun => absurd ?_ (hun.2 k hk)⟩
      rw [← hown, ← hdown, Option.some.inj (hc.symm.trans hd)]
    · exact ⟨d, (modifyQueue_ne hr).trans hd, hdown, fun hun => (hu hun).frame id⟩
  · intro r n hpush
    obtain ⟨d, hd, hdown, hopen, hclosed⟩ := hi.pushing r n hpush
    by_cases hr : r = k.queue
    · subst hr
      have hdc : d = c := Option.some.inj (hd.symm.trans hc)
      subst hdc
      exact ⟨_, modifyQueue_self f hd, hdown, hopen, fun herr => hf (hclosed herr)⟩
    · exact ⟨d, (modifyQueue_ne hr).trans hd, hdown, hopen, hclosed⟩
  · intro n hn
    refine ⟨(hi.inFlight n hn).1, fun h hh hid d hd => ?_⟩
    exact (hi.inFlight n hn).2 h hh hid d ((hother h hh).symm.trans hd)

/-- The queue of a call leaves the map. -/
theorem inv_callDelete (hi : Inv s) (hk : k ∈ s.calls) : Inv (s.deleteProcessQueue k.processID k.queue) := by
  unfold State.deleteProcessQueue
  split
  · exact inv_erase hi (fun hun => hun.2 k hk rfl) (fun _ _ _ _ => ⟨k, hk, rfl⟩)
  · exact hi

/-- `NextProcessNotification` is called for a process without a handle. -/
theorem inv_nextProcess {s₁ : State} (hok : Orderly s (.nextProcess p)) (he : Ensured s s₁ p r) :
    Inv { s₁ with calls := s₁.calls ++ [⟨p, r, .locking⟩] } := by
  have hcell : ∃ c, s₁.heap[r]? = some c ∧ c.processID = p := by
    cases herr : s.processErr with
    | none =>
      obtain ⟨c, hc, hown, _⟩ := he.inv.mapped p r (he.mapped herr)
      exact ⟨c, hc, hown⟩
    | some e => exact ⟨_, he.closed e herr, rfl⟩
  refine he.inv.setCalls ?_ ?_ (fun k hk => ⟨k, mem_append_left _ hk, rfl⟩)
  · exact forall_mem_append.mpr ⟨he.inv.calls, forall_mem_singleton.mpr hcell⟩
  · intro h hh
    exact forall_mem_append.mpr ⟨he.inv.apart h hh, forall_mem_singleton.mpr (hok h (he.handles ▸ hh))⟩

theorem inv_stepCall (hi : Inv s) (hk : k ∈ s.calls) (hcell : s.heap[k.queue]? = some c)
    (hstep : s.stepCall i k c.queue = some s') : Inv s' := by
  unfold State.stepCall at hstep
  split at hstep
  · cases hstep
  · cases hstep
    exact inv_setCall (inv_callQueue hi hk hcell (fun h => by rwa [err_next]))
  · split at hstep <;> cases hstep
    exact inv_setCall (inv_callQueue hi hk hcell id)
  · cases hstep
    exact inv_setCall (inv_callQueue hi hk hcell (fun _ => err_close_ne))
  · split at hstep <;> cases hstep
    exact inv_setCall (inv_callDelete hi hk)

end

theorem inv_step {a : Action} (hi : Inv s) (hok : Orderly s a) (hstep : step s a = some s') : Inv s' := by
  cases a
  all_goals simp only [step] at hstep
  case receive n =>
    split at hstep <;> cases hstep
    rename_i h
    exact inv_receive hi h.1 h.2.2 hok
  case ensure =>
    split at hstep
    · cases hstep
      exact inv_ensure ‹_› (ensured hi _)
    · cases hstep
  case push =>
    split at hstep
    · cases hstep
      exact inv_push hi ‹_›
    · cases hstep
  case closeAll e =>
    split at hstep <;> cases hstep
    exact inv_closeAll hi hok
  case closeOne =>
    split at hstep
    · rename_i e r rest hto
      cases hstep
      exact inv_closeOne hi hto (hok r (by rw [State.nextToClose, hto]; rfl))
    · cases hstep
  case closedAll =>
    split at hstep
    · cases hstep
      refine ⟨?_, hi.distinct, hi.calls, hi.apart, ?_, hi.absent, hi.ended, fun h => absurd rfl h, hi.pushing,
        hi.inFlight⟩
      · exact hi.handles_frame (fun _ _ => id) (fun _ _ _ => id) (fun _ _ => id)
      intro p r hp
      obtain ⟨c, hc, hown, hu⟩ := hi.mapped p r hp
      exact ⟨c, hc, hown, fun hun => (hu hun).frame id⟩
    · cases hstep
  case start p =>
    split at hstep <;> cases hstep
    exact inv_start hok (ensured hi _)
  case next i | contextDone i =>
    split at hstep
    · split at hstep <;> cases hstep
      exact inv_setPlace hi ‹_› nofun
    · cases hstep
  case lock i =>
    split at hstep
    · split at hstep
      · split at hstep <;> cases hstep
        exact inv_lock hi ‹_› ‹_›
      · cases hstep
    · cases hstep
  case wake i =>
    split at hstep
    · split at hstep
      · split at hstep <;> cases hstep
        exact inv_wake hi ‹_›
      · cases hstep
    · cases hstep
  case closeEOF i =>
    split at hstep
    · split at hstep <;> cases hstep
      exact inv_closeEOF hi ‹_› hok
    · cases hstep
  case delete i =>
    split at hstep
    · rename_i h hh _
      split at hstep <;> cases hstep
      have hi' := inv_deleteProcessQueue hi hh ‹_›
      refine inv_setPlace hi' (h := h) ?_ nofun
      unfold State.deleteProcessQueue
      split <;> exact hh
    · cases hstep
  case nextProcess p =>
    split at hstep <;> cases hstep
    exact inv_nextProcess hok (ensured hi _)
  case callStep i =>
    split at hstep
    · rename_i k hk
      split at hstep
      · exact inv_stepCall hi (mem_of_getElem? hk) ‹_› hstep
      · cases hstep
    · cases hstep
  case callContextDone i =>
    split at hstep
    · split at hstep <;> cases hstep
      exact inv_setCall hi
    · cases hstep

end

end Processes

end Pandaemonium.Codex
