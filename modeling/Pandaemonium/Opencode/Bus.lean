import Pandaemonium.Opencode.Turn

/-!
# `Opencode.Bus` — the shared event bus (`event_routing.go`)

One connection to `/event` serves every turn of a client. The run loop (`run`) owns it: it dials, waits for the
`server.connected` handshake, routes events to the registered consumers and reconnects within a budget. Calls of
`dial` start the loop once and wait for the first handshake. A call whose timer or context runs out tears the
bus down (`failDial`), unless the handshake was there first: the mark of the handshake and the test of it in
`closeInternal` are in critical sections of one mutex.

The machine has one action for each critical section, channel operation and call into the outside of these
functions, of `subscribe`, `unsubscribe` and of the part of `Client.Close` that concerns the bus. `closeInternal`
goes on outside the mutex, where it cancels the context of the bus, closes the body of the stream and closes the
consumers one by one, in the order of a map (`Teardown`). A read of the stream may fail at any time, so the body
is only known to be there or not. Timers may fire as soon as they are set. Consumers are named by their position
in a list; the source draws their ids from the `uint64` counter `nextID`, which names them as well as long as a
client subscribes fewer than 2^64 times. Other counters, delays and the answers to permission requests are
left out.
-/

namespace Pandaemonium.Opencode

open Llm

/-- The errors of `streamOnce`. -/
inductive StreamError where
  /-- of `dialEvents` -/
  | dial (err : Bytes)
  /-- `opencode event bus closed` -/
  | closed
  /-- `opencode event stream read: %w` -/
  | read (err : Bytes)
  /-- `opencode event stream: expected server.connected handshake, got %q` -/
  | unexpected (type : Bytes)
  /-- `opencode event bus closed during handshake` -/
  | closedDuringHandshake
deriving DecidableEq, Repr

/-- The messages of `TransportClosedError`. -/
inductive BusError where
  /-- `opencode event bus closed` -/
  | closed
  /-- `opencode event bus dial timed out waiting for server.connected` -/
  | dialTimedOut
  /-- `opencode event bus dial canceled: %s` -/
  | dialCanceled (ctxErr : Bytes)
  /-- `opencode event bus dial failed: %s` -/
  | dialFailed (err : StreamError)
  /-- `opencode event bus reconnect exhausted after %d attempts: %s` -/
  | exhausted (attempts : Nat) (err : StreamError)
  /-- `opencode event bus closed during reconnect backoff` -/
  | closedDuringBackoff
  /-- `opencode event bus closed: client closed` -/
  | clientClosed
  /-- `opencode event bus consumer unsubscribed` -/
  | unsubscribed
deriving DecidableEq, Repr

structure BusConsumer where
  sessionID : Bytes
  q : NotifyQueue Event BusError

/-- `eventBus`, with the contexts it depends on. -/
structure Bus where
  /-- the lifetime of the client has been cancelled -/
  lifetimeDone : Bool
  /-- `b.cancel` has been called -/
  cancelled : Bool
  /-- `dialOnce` is done -/
  started : Bool
  /-- the channel `connected` is closed -/
  connected : Bool
  /-- the consumers that were made; the one with id `k + 1` has the number `k` -/
  made : List BusConsumer
  /-- the numbers of the registered ones -/
  consumers : List Nat
  /-- `body` is not `nil` -/
  body : Bool
  closed : Bool
  err : Option BusError
  /-- the channel `done` is closed -/
  done : Bool

namespace Bus

variable (b : Bus)

/-- `newEventBus`. -/
def new : Bus := ⟨false, false, false, false, [], [], false, false, none, false⟩

/-- `b.ctx.Err()` is not `nil`. -/
def ctxDone : Bool := b.lifetimeDone || b.cancelled

/-- `closedErr`. -/
def closedErr : BusError := b.err.getD .closed

/-- `subscribe`, on the bus. -/
def subscribe (sessionID : Bytes) : Bus :=
  if b.closed then b
  else { b with
    made := b.made ++ [⟨sessionID, .new⟩]
    consumers := b.consumers ++ [b.made.length] }

/-- The critical section of `unsubscribe`. -/
def delete (k : Nat) : Bus := { b with consumers := b.consumers.filter (· != k) }

/-- `busConsumer.push`. -/
def push (k : Nat) (ev : Event) : Bus :=
  { b with made := b.made.modify k (fun c =>
      { c with q := (c.q.pushBounded ev eventQueueCapacity (fun _ => some .gap)).1 }) }

/-- `busConsumer.close`. -/
def closeConsumer (k : Nat) (err : BusError) : Bus :=
  { b with made := b.made.modify k (fun c => { c with q := (c.q.close (some err)).1 }) }

/-- The registered consumers of a session. -/
def sessionConsumers (sessionID : Bytes) : List Nat :=
  b.consumers.filter (fun k => (b.made[k]?.map BusConsumer.sessionID) == some sessionID)

end Bus

/-- Where `closeInternal` is, behind its critical section. -/
inductive Teardown where
  /-- before `b.cancel(err)` -/
  | cancel (err : BusError) (body : Bool) (consumers : List Nat)
  /-- before `body.Close()` -/
  | body (err : BusError) (consumers : List Nat)
  /-- closing the consumers -/
  | consumers (err : BusError) (rest : List Nat)
deriving DecidableEq, Repr

/-- What the critical section of `closeInternal` decides. -/
inductive Closing where
  /-- the bus was closed before -/
  | already
  /-- the bus is connected, and stays -/
  | refused
  | won (t : Teardown)
deriving DecidableEq, Repr

/-- The critical section of `closeInternal`. -/
def Bus.closeInternal (b : Bus) (err : BusError) (onlyIfUnconnected : Bool) : Bus × Closing :=
  if b.closed then (b, .already)
  else if onlyIfUnconnected && b.connected then (b, .refused)
  else
    ({ b with closed := true, err := some err, body := false, consumers := [] },
      .won (.cancel err b.body b.consumers))

inductive TeardownStep where
  | cancel
  | body
  /-- the consumer `k` is next in the order of the map -/
  | consumer (k : Nat)
deriving DecidableEq, Repr

def Teardown.step (b : Bus) : Teardown → TeardownStep → Option (Bus × Teardown)
  | .cancel err hasBody rest, .cancel =>
    some ({ b with cancelled := true }, if hasBody then .body err rest else .consumers err rest)
  | .body err rest, .body => some (b, .consumers err rest)
  | .consumers err rest, .consumer k =>
    if k ∈ rest then some (b.closeConsumer k err, .consumers err (rest.filter (· != k))) else none
  | _, _ => none

/-! ## `dial` -/

/-- Where a call of `dial` is. -/
inductive DialPhase where
  /-- before `dialOnce.Do` -/
  | starting
  /-- on the fast path -/
  | checking
  /-- in the `select` -/
  | selecting
  /-- in `failDial`, before the critical section of `closeInternal` -/
  | failing (cause : BusError)
  /-- in `closeInternal`, behind the critical section -/
  | tearing (t : Teardown)
  /-- in `failDial`, at `<-b.done` -/
  | awaiting
  /-- before `closedErr` -/
  | reporting
  | returned (err : Option BusError)
deriving DecidableEq, Repr

/-- A call of `dial`; `ctxErr` is the error of its context, once that is done. -/
structure Dial where
  ctxErr : Option Bytes
  phase : DialPhase
deriving DecidableEq, Repr

inductive DialStep where
  | start
  | check
  /-- the cases of the `select` -/
  | connected
  | done
  | timeout
  | canceled
  /-- the critical section of `closeInternal` -/
  | close
  | tear (t : TeardownStep)
  /-- `closeInternal` returns -/
  | torn
  | await
  | report
deriving DecidableEq, Repr

def stepDial (b : Bus) (d : Dial) : DialStep → Option (Bus × Dial)
  | .start =>
    match d.phase with
    | .starting => some ({ b with started := true }, { d with phase := .checking })
    | _ => none
  | .check =>
    match d.phase with
    | .checking => some (b, { d with phase := if b.connected then .returned none else .selecting })
    | _ => none
  | .connected =>
    match d.phase, b.connected with
    | .selecting, true => some (b, { d with phase := .returned none })
    | _, _ => none
  | .done =>
    match d.phase, b.done with
    | .selecting, true => some (b, { d with phase := .reporting })
    | _, _ => none
  | .timeout =>
    match d.phase with
    | .selecting => some (b, { d with phase := .failing .dialTimedOut })
    | _ => none
  | .canceled =>
    match d.phase, d.ctxErr with
    | .selecting, some err => some (b, { d with phase := .failing (.dialCanceled err) })
    | _, _ => none
  | .close =>
    match d.phase with
    | .failing cause =>
      match b.closeInternal cause true with
      | (b', .already) => some (b', { d with phase := .awaiting })
      | (b', .refused) => some (b', { d with phase := .returned none })
      | (b', .won t) => some (b', { d with phase := .tearing t })
    | _ => none
  | .tear a =>
    match d.phase with
    | .tearing t => (t.step b a).map (fun r => (r.1, { d with phase := .tearing r.2 }))
    | _ => none
  | .torn =>
    match d.phase with
    | .tearing (.consumers _ []) => some (b, { d with phase := .awaiting })
    | _ => none
  | .await =>
    match d.phase, b.done with
    | .awaiting, true => some (b, { d with phase := .reporting })
    | _, _ => none
  | .report =>
    match d.phase with
    | .reporting => some (b, { d with phase := .returned (some b.closedErr) })
    | _ => none

/-! ## The run loop -/

/-- A frame of the stream that decodes. -/
structure Frame where
  type : Bytes
  sessionID : Bytes
  event : Event
deriving DecidableEq, Repr

/-- The session `route` sends the event to. -/
def Frame.target (f : Frame) : Option Bytes :=
  if f.type = ascii "session.error" ∧ f.sessionID = [] then none
  else if f.sessionID = [] then none
  else some f.sessionID

/-- Where the run loop is. -/
inductive LoopPhase where
  /-- not started -/
  | idle
  /-- at the head of the loop -/
  | checking
  /-- in `dialEvents` -/
  | dialing
  /-- before `setBody` -/
  | opened
  /-- in `scanner.next` -/
  | reading (handshaken : Bool)
  /-- in `handshake` of the first connection, before its critical section -/
  | handshaking
  /-- in `broadcastGap`, before its critical section -/
  | gapping
  /-- in `route`, before its critical section -/
  | routing (sessionID : Bytes) (ev : Event)
  /-- pushing an event to the consumers -/
  | delivering (ev : Event) (rest : List Nat)
  /-- `streamOnce` has returned, before `isClosed` -/
  | ended (err : StreamError)
  /-- before `b.ctx.Err()` -/
  | testing (err : StreamError)
  /-- before the critical section of `close` -/
  | closing (err : BusError)
  /-- in `closeInternal`, behind the critical section -/
  | tearing (t : Teardown)
  /-- in `SleepDelay` -/
  | sleeping
  /-- before the deferred `close(b.done)` -/
  | leaving
  | exited
deriving DecidableEq, Repr

structure Loop where
  phase : LoopPhase
  firstConnection : Bool
  attempt : Nat
deriving DecidableEq, Repr

inductive LoopStep where
  | begin
  | check
  /-- `dialEvents` returns, with an error or a body -/
  | dial (err : Option Bytes)
  | setBody
  /-- a frame, `none` if it does not decode -/
  | frame (f : Option Frame)
  | readErr (err : Bytes)
  /-- the critical section of `handshake` -/
  | mark
  | gap
  | route
  | deliver (k : Nat)
  | delivered
  | isClosed
  | ctxErr
  | close
  | tear (t : TeardownStep)
  | torn
  /-- `SleepDelay` returns -/
  | sleep
  | sleepErr
  | exit
deriving DecidableEq, Repr

/-- What `streamOnce` does with a frame: it hands the first one of a connection to `handshake`, the others to
    `route`. -/
def Loop.receive (l : Loop) (handshaken : Bool) (f : Frame) : LoopPhase :=
  if handshaken then
    match f.target with
    | some sessionID => .routing sessionID f.event
    | none => .reading true
  else if f.type ≠ ascii "server.connected" then .ended (.unexpected f.type)
  else if l.firstConnection then .handshaking
  else .gapping

/-- What the loop decides when a stream has ended and the bus is open. -/
def Loop.decide (maxAttempts : Nat) (l : Loop) (err : StreamError) : Loop :=
  if l.firstConnection then { l with phase := .closing (.dialFailed err) }
  else if l.attempt + 1 ≥ maxAttempts then
    { l with phase := .closing (.exhausted (l.attempt + 1) err), attempt := l.attempt + 1 }
  else { l with phase := .sleeping, attempt := l.attempt + 1 }

def stepLoop (maxAttempts : Nat) (b : Bus) (l : Loop) : LoopStep → Option (Bus × Loop)
  | .begin =>
    match l.phase, b.started with
    | .idle, true => some (b, { l with phase := .checking })
    | _, _ => none
  | .check =>
    match l.phase with
    | .checking => some (b, { l with phase := if b.closed then .leaving else .dialing })
    | _ => none
  | .dial err =>
    match l.phase, err with
    | .dialing, some err => some (b, { l with phase := .ended (.dial err) })
    | .dialing, none => some (b, { l with phase := .opened })
    | _, _ => none
  | .setBody =>
    match l.phase with
    | .opened =>
      if b.closed then some (b, { l with phase := .ended .closed })
      else some ({ b with body := true }, { l with phase := .reading false })
    | _ => none
  | .frame f =>
    match l.phase, f with
    | .reading handshaken, some f => some (b, { l with phase := l.receive handshaken f })
    | .reading _, none => some (b, l)
    | _, _ => none
  | .readErr err =>
    match l.phase with
    | .reading handshaken =>
      some (b, { l with
        phase := .ended (.read err)
        attempt := if handshaken then 0 else l.attempt })
    | _ => none
  | .mark =>
    match l.phase with
    | .handshaking =>
      if b.closed then some (b, { l with phase := .ended .closedDuringHandshake })
      else some ({ b with connected := true }, { l with phase := .reading true, firstConnection := false })
    | _ => none
  | .gap =>
    match l.phase with
    | .gapping => some (b, { l with phase := .delivering .gap b.consumers })
    | _ => none
  | .route =>
    match l.phase with
    | .routing sessionID ev => some (b, { l with phase := .delivering ev (b.sessionConsumers sessionID) })
    | _ => none
  | .deliver k =>
    match l.phase with
    | .delivering ev rest =>
      if k ∈ rest then some (b.push k ev, { l with phase := .delivering ev (rest.filter (· != k)) })
      else none
    | _ => none
  | .delivered =>
    match l.phase with
    | .delivering _ [] => some (b, { l with phase := .reading true })
    | _ => none
  | .isClosed =>
    match l.phase with
    | .ended err => some (b, { l with phase := if b.closed then .leaving else .testing err })
    | _ => none
  | .ctxErr =>
    match l.phase with
    | .testing err =>
      if b.ctxDone then some (b, { l with phase := .leaving }) else some (b, l.decide maxAttempts err)
    | _ => none
  | .close =>
    match l.phase with
    | .closing err =>
      match b.closeInternal err false with
      | (b', .won t) => some (b', { l with phase := .tearing t })
      | (b', _) => some (b', { l with phase := .leaving })
    | _ => none
  | .tear a =>
    match l.phase with
    | .tearing t => (t.step b a).map (fun r => (r.1, { l with phase := .tearing r.2 }))
    | _ => none
  | .torn =>
    match l.phase with
    | .tearing (.consumers _ []) => some (b, { l with phase := .leaving })
    | _ => none
  | .sleep =>
    match l.phase with
    | .sleeping => some (b, { l with phase := .checking })
    | _ => none
  | .sleepErr =>
    match l.phase, b.ctxDone with
    | .sleeping, true => some (b, { l with phase := .closing .closedDuringBackoff })
    | _, _ => none
  | .exit =>
    match l.phase with
    | .leaving => some ({ b with done := true }, { l with phase := .exited })
    | _ => none

/-! ## `Client.Close` -/

/-- Where `Client.Close` is; a client without a bus never gets past `cancelled`. -/
inductive ClosePhase where
  | open
  /-- the lifetime is cancelled, before `bus.close` -/
  | cancelled
  | tearing (t : Teardown)
  | closed
deriving DecidableEq, Repr

inductive CloseStep where
  | cancel
  | close
  | tear (t : TeardownStep)
  | torn
deriving DecidableEq, Repr

def stepClose (b : Bus) : ClosePhase → CloseStep → Option (Bus × ClosePhase)
  | .open, .cancel => some ({ b with lifetimeDone := true }, .cancelled)
  | .cancelled, .close =>
    match b.closeInternal .clientClosed false with
    | (b', .won t) => some (b', .tearing t)
    | (b', _) => some (b', .closed)
  | .tearing t, .tear a => (t.step b a).map (fun r => (r.1, .tearing r.2))
  | .tearing (.consumers _ []), .torn => some (b, .closed)
  | _, _ => none

/-! ## The machine -/

structure BusState where
  bus : Bus
  loop : Loop
  dials : List Dial
  close : ClosePhase
  /-- consumers that `unsubscribe` has deleted and not yet closed -/
  unsubscribing : List Nat

inductive BusAction where
  /-- a call of `dial` -/
  | call
  /-- the context of a call ends -/
  | cancel (i : Nat) (err : Bytes)
  | dial (i : Nat) (a : DialStep)
  | loop (a : LoopStep)
  | close (a : CloseStep)
  | subscribe (sessionID : Bytes)
  /-- the critical section of `unsubscribe` -/
  | unsubscribe (k : Nat)
  | unsubscribed (k : Nat)

/-- A step of the call `i` of `dial`. -/
def stepDialAt (s : BusState) (i : Nat) (a : DialStep) : Option BusState :=
  match s.dials[i]? with
  | some d => (stepDial s.bus d a).map (fun r => { s with bus := r.1, dials := s.dials.set i r.2 })
  | none => none

def stepBus (maxAttempts : Nat) (s : BusState) : BusAction → Option BusState
  | .call => some { s with dials := s.dials ++ [⟨none, .starting⟩] }
  | .cancel i err =>
    match s.dials[i]? with
    | some d => some { s with dials := s.dials.set i { d with ctxErr := d.ctxErr.or (some err) } }
    | none => none
  | .dial i a => stepDialAt s i a
  | .loop a => (stepLoop maxAttempts s.bus s.loop a).map (fun r => { s with bus := r.1, loop := r.2 })
  | .close a => (stepClose s.bus s.close a).map (fun r => { s with bus := r.1, close := r.2 })
  | .subscribe sessionID => some { s with bus := s.bus.subscribe sessionID }
  | .unsubscribe k => some { s with bus := s.bus.delete k, unsubscribing := k :: s.unsubscribing }
  | .unsubscribed k =>
    if k ∈ s.unsubscribing then
      some { s with
        bus := s.bus.closeConsumer k .unsubscribed
        unsubscribing := s.unsubscribing.erase k }
    else none

/-- A bus from `newEventBus` on, with the retry budget of the client. -/
def busMachine (maxAttempts : Nat) : Machine BusState BusAction where
  init := ⟨.new, ⟨.idle, true, 0⟩, [], .open, []⟩
  step := stepBus maxAttempts

/-! ## The critical section of `closeInternal` -/

/-- The branches of `closeInternal`. -/
inductive CloseMove (b : Bus) (err : BusError) (onlyIfUnconnected : Bool) : Bus → Closing → Prop where
  | already : b.closed = true → CloseMove b err onlyIfUnconnected b .already
  | refused : b.closed = false → onlyIfUnconnected = true → b.connected = true →
      CloseMove b err onlyIfUnconnected b .refused
  | won : b.closed = false → (onlyIfUnconnected = true → b.connected = false) →
      CloseMove b err onlyIfUnconnected
        { b with closed := true, err := some err, body := false, consumers := [] }
        (.won (.cancel err b.body b.consumers))

theorem Bus.closeInternal_inv (b : Bus) (err : BusError) (onlyIfUnconnected : Bool) :
    CloseMove b err onlyIfUnconnected (b.closeInternal err onlyIfUnconnected).1
      (b.closeInternal err onlyIfUnconnected).2 := by
  unfold Bus.closeInternal
  cases hclosed : b.closed with
  | true => exact .already hclosed
  | false =>
    cases honly : onlyIfUnconnected && b.connected with
    | true =>
      rw [Bool.and_eq_true] at honly
      exact .refused hclosed honly.1 honly.2
    | false =>
      refine .won hclosed (fun hu => ?_)
      rw [hu] at honly
      exact honly

/-- What follows the critical section cancels the context of the bus and closes consumers, and touches nothing
    else. -/
theorem Teardown.step_inv {b b' : Bus} {t t' : Teardown} {a : TeardownStep} (h : t.step b a = some (b', t')) :
    ∃ cancelled made, b' = { b with cancelled := cancelled, made := made } ∧
      (cancelled = b.cancelled ∨ cancelled = true) := by
  unfold Teardown.step at h
  split at h
  · cases h
    exact ⟨true, b.made, rfl, .inr rfl⟩
  · cases h
    exact ⟨b.cancelled, b.made, rfl, .inl rfl⟩
  · split at h
    · cases h
      exact ⟨b.cancelled, _, rfl, .inl rfl⟩
    · cases h
  · cases h

end Pandaemonium.Opencode
