import Pandaemonium.Lib.Decimal
import Pandaemonium.Lib.Machine
import Pandaemonium.Lib.SortedMap

/-!
# `Claude.Correlation` — which response a control request returns

Any number of `sendControlRequest` calls share the map `pending` with the read loop, which routes one
line after the other, and with any number of `failPending` calls. A result channel has room for one result
and every send into it gives up when it is full. The lookup of a channel and the send into it are separate
steps, and the waiter may remove its entry, or have returned, in between.

The machine takes `pendingMu` and runs a critical section in two actions, so that a thread which waits for
the mutex can be told from one that waits for a channel. The write of the request may succeed or fail at any
time. Besides the state of the code there is a `history` of what the statements speak of: registrations,
lookups and attempted sends.

* `FirstResponse`, `FirstFailure`, `FirstResult` — what the history says of the result that reached a call
  first;
* `State.Unblocked` — nobody who routes a response or fails the requests waits for anything but the mutex.
-/

namespace Pandaemonium.Claude.Correlation

open List
open SortedMap (get? insert erase)

/-- `controlResult`: the response object of a success, or the text of the `CLIConnectionError`. -/
inductive ControlResult where
  | response (value : Bytes)
  | error (message : Bytes)
deriving DecidableEq, Repr

/-- What `sendControlRequest` returns. -/
inductive Outcome where
  | marshalError
  | writeError
  | result (r : ControlResult)
  | timeout
  | contextDone
deriving DecidableEq, Repr

/-- Where a call of `sendControlRequest` is. -/
inductive Phase where
  /-- before the critical section that registers its channel -/
  | registering
  /-- in that critical section -/
  | lockedRegister
  /-- in `writeFn` -/
  | unwritten
  /-- in the `select` -/
  | waiting
  /-- before the critical section of the deferred delete -/
  | leaving (o : Outcome)
  /-- in that critical section -/
  | lockedDelete (o : Outcome)
  | returned (o : Outcome)
deriving DecidableEq, Repr

/-- A call of `sendControlRequest`. -/
structure Call where
  requestID : Bytes
  phase : Phase
  /-- the channel, of capacity one -/
  chan : Option ControlResult
deriving DecidableEq, Repr

/-- `newRequestID` for the value `n` of the counter: `req_`, the number, an underscore and a random
    suffix. -/
def newRequestID (n : UInt64) (suffix : Bytes) : Bytes :=
  ascii "req_" ++ (Decimal.render n.toNat ++ 0x5F :: suffix)

/-- The inner object of a `controlResponseEnvelope`. -/
structure ResponseEnvelope where
  requestID : Bytes
  subtype : Bytes
  response : Bytes
  error : Bytes
deriving DecidableEq, Repr

/-- The result `routeControlResponse` makes of a response. -/
def ResponseEnvelope.controlResult (env : ResponseEnvelope) : ControlResult :=
  if env.subtype = ascii "error" then
    .error (if env.error = [] then ascii "unknown error" else env.error)
  else .response env.response

/-- The result `failPending` sends, for a cause or for none. -/
def disconnected (cause : Option Bytes) : ControlResult :=
  match cause with
  | none => .error (ascii "\"claude\" disconnected")
  | some e => .error (ascii "\"claude\" disconnected: " ++ e)

/-- Where the read loop is in `routeControlResponse`. -/
inductive Router where
  | idle
  /-- the line is decoded, `pendingMu` not yet taken -/
  | routing (env : ResponseEnvelope)
  | locked (env : ResponseEnvelope)
  /-- the channel of call `i` was found, the send is ahead -/
  | sending (i : Nat) (env : ResponseEnvelope)
deriving DecidableEq, Repr

/-- Where a call of `failPending` is. -/
inductive Failer where
  | entered (cause : Option Bytes)
  | locked (cause : Option Bytes)
  /-- the channels it has collected and not sent to yet; it returns when none is left -/
  | sending (cause : Option Bytes) (chans : List Nat)
deriving DecidableEq, Repr

/-- Who may hold `pendingMu`. -/
inductive Thread where
  | call (i : Nat)
  | router
  | failer (j : Nat)
deriving DecidableEq, Repr

/-- What happens to the calls, as the statements see it. -/
inductive Event where
  | registered (i : Nat)
  | unregistered (i : Nat)
  /-- `routeControlResponse` looks up the id of a response -/
  | routed (env : ResponseEnvelope)
  /-- it has sent the response to call `i`, or found the channel full -/
  | sent (i : Nat) (env : ResponseEnvelope)
  /-- `failPending` has sent its error to call `i`, or found the channel full -/
  | reached (i : Nat) (cause : Option Bytes)
deriving DecidableEq, Repr

/-- `controlProtocol` with its calls, the read loop and the calls of `failPending`. -/
structure State where
  counter : UInt64
  calls : List Call
  pending : List (Bytes × Nat)
  pendingMu : Option Thread
  router : Router
  failers : List Failer
  /-- the latest event first; no step reads it -/
  history : List Event
deriving DecidableEq, Repr

namespace State

def setPhase (s : State) (i : Nat) (c : Call) (p : Phase) : State :=
  { s with calls := s.calls.set i { c with phase := p } }

/-- `sendControlRequest` up to the marshalled body. -/
def begin (s : State) (suffix : Bytes) (marshals : Bool) : State :=
  { s with
    counter := s.counter + 1
    calls := s.calls ++
      [{ requestID := newRequestID (s.counter + 1) suffix
         phase := if marshals then .registering else .returned .marshalError
         chan := none }] }

/-- A send under `select` with a `default`: into an empty channel or nowhere. -/
def send (s : State) (i : Nat) (r : ControlResult) : State :=
  { s with calls := s.calls.modify i (fun c => { c with chan := c.chan.or (some r) }) }

/-- `routeControlResponse` up to `pendingMu`: a line that does not decode, or has no id, is dropped. -/
def routeControlResponse (s : State) : Option ResponseEnvelope → State
  | none => s
  | some env => if env.requestID = [] then s else { s with router := .routing env }

/-- A thread takes `pendingMu`. -/
def lock (s : State) : Thread → Option State
  | .call i =>
    match s.calls[i]? with
    | some c =>
      match c.phase with
      | .registering => some { s.setPhase i c .lockedRegister with pendingMu := some (.call i) }
      | .leaving o => some { s.setPhase i c (.lockedDelete o) with pendingMu := some (.call i) }
      | _ => none
    | none => none
  | .router =>
    match s.router with
    | .routing env => some { s with router := .locked env, pendingMu := some .router }
    | _ => none
  | .failer j =>
    match s.failers[j]? with
    | some (.entered cause) =>
      some { s with failers := s.failers.set j (.locked cause), pendingMu := some (.failer j) }
    | _ => none

/-- The critical section of a thread, with the unlock at its end. -/
def critical (s : State) : Thread → Option State
  | .call i =>
    match s.calls[i]? with
    | some c =>
      match c.phase with
      | .lockedRegister =>
        some { s.setPhase i c .unwritten with
          pending := insert s.pending c.requestID i
          pendingMu := none
          history := .registered i :: s.history }
      | .lockedDelete o =>
        some { s.setPhase i c (.returned o) with
          pending := erase s.pending c.requestID
          pendingMu := none
          history := .unregistered i :: s.history }
      | _ => none
    | none => none
  | .router =>
    match s.router with
    | .locked env =>
      some { s with
        router :=
          match get? s.pending env.requestID with
          | some i => .sending i env
          | none => .idle
        pendingMu := none
        history := .routed env :: s.history }
    | _ => none
  | .failer j =>
    match s.failers[j]? with
    | some (.locked cause) =>
      some { s with
        failers := s.failers.set j (.sending cause (s.pending.map Prod.snd)), pendingMu := none }
    | _ => none

end State

inductive Action where
  | begin (suffix : Bytes) (marshals : Bool)
  | lock (t : Thread)
  | critical (t : Thread)
  /-- `writeFn` returns -/
  | endWrite (i : Nat) (succeeds : Bool)
  | receive (i : Nat)
  /-- the deadline of `reqCtx` passes -/
  | timeout (i : Nat)
  | contextDone (i : Nat)
  /-- the read loop has a `control_response` line, decoded if it decodes -/
  | readResponse (env : Option ResponseEnvelope)
  /-- the `select` of `routeControlResponse` -/
  | routerSend
  | failPending (cause : Option Bytes)
  /-- the `select` of the `j`th `failPending` for the channel of call `i` -/
  | failerSend (j i : Nat)
deriving DecidableEq, Repr

/-- **A step of the protocol.** -/
def step (s : State) : Action → Option State
  | .begin suffix marshals => some (s.begin suffix marshals)
  | .lock t => if s.pendingMu = none then s.lock t else none
  | .critical t => s.critical t
  | .endWrite i succeeds =>
    match s.calls[i]? with
    | some c =>
      if c.phase = .unwritten then
        some (s.setPhase i c (if succeeds then .waiting else .leaving .writeError))
      else none
    | none => none
  | .receive i =>
    match s.calls[i]? with
    | some c =>
      match c.phase, c.chan with
      | .waiting, some r =>
        some { s with
          calls := s.calls.set i { c with phase := .leaving (.result r), chan := none } }
      | _, _ => none
    | none => none
  | .timeout i =>
    match s.calls[i]? with
    | some c => if c.phase = .waiting then some (s.setPhase i c (.leaving .timeout)) else none
    | none => none
  | .contextDone i =>
    match s.calls[i]? with
    | some c => if c.phase = .waiting then some (s.setPhase i c (.leaving .contextDone)) else none
    | none => none
  | .readResponse env => if s.router = .idle then some (s.routeControlResponse env) else none
  | .routerSend =>
    match s.router with
    | .sending i env =>
      some { s.send i env.controlResult with
        router := .idle, history := .sent i env :: s.history }
    | _ => none
  | .failPending cause => some { s with failers := s.failers ++ [.entered cause] }
  | .failerSend j i =>
    match s.failers[j]? with
    | some (.sending cause chans) =>
      -- the channels are collected from a map, so they come in any order
      if i ∈ chans then
        some { s.send i (disconnected cause) with
          failers := s.failers.set j (.sending cause (chans.erase i))
          history := .reached i cause :: s.history }
      else none
    | _ => none

/-- One `controlProtocol`. -/
def machine : Machine State Action where
  init :=
    { counter := 0, calls := [], pending := [], pendingMu := none, router := .idle, failers := []
      history := [] }
  step := step

/-! ## Request ids -/

/-- The number in a request id: the digits up to the underscore. -/
theorem newRequestID_number (n : UInt64) (suffix : Bytes) :
    ((newRequestID n suffix).drop 4).takeWhile Decimal.isDigit = Decimal.render n.toNat := by
  show (Decimal.render n.toNat ++ 0x5F :: suffix).takeWhile Decimal.isDigit = _
  rw [takeWhile_append_of_pos (Decimal.isDigit_render n.toNat), takeWhile_cons_of_neg (by decide), append_nil]

/-- **Request ids with different numbers are different**, whatever the random suffixes. -/
theorem newRequestID_injective {n m : UInt64} {suffix suffix' : Bytes}
    (h : newRequestID n suffix = newRequestID m suffix') : n = m := by
  refine UInt64.toNat.inj (Decimal.render_injective ?_)
  rw [← newRequestID_number n suffix, h, newRequestID_number]

/-- **Fewer than 2^64 calls have different ids**: until the counter wraps around, the number in the id is that
    of the call. -/
theorem call_eq_of_newRequestID {len i j : Nat} {suffix suffix' : Bytes} (hlen : len < 2 ^ 64) (hi : i < len)
    (hj : j < len)
    (h : newRequestID (UInt64.ofNat (i + 1)) suffix = newRequestID (UInt64.ofNat (j + 1)) suffix') : i = j := by
  have hn := congrArg UInt64.toNat (newRequestID_injective h)
  rw [UInt64.toNat_ofNat', UInt64.toNat_ofNat', Nat.mod_eq_of_lt (by omega), Nat.mod_eq_of_lt (by omega)] at hn
  omega

/-! ## What is said of the history -/

/-- Neither a response nor the error of a `failPending` has been sent to call `i`. -/
def NoneSent (h : List Event) (i : Nat) : Prop :=
  (∀ env, .sent i env ∉ h) ∧ ∀ cause, .reached i cause ∉ h

/-- Call `i` is registered, and no response with the id `id` has been looked up since. -/
def Quiet (h : List Event) (i : Nat) (id : Bytes) : Prop :=
  ∃ during earlier, h = during ++ .registered i :: earlier ∧ .unregistered i ∉ during ∧
    ∀ env, .routed env ∈ during → env.requestID ≠ id

/-- `env` carries the id `id`, and was looked up while call `i` was registered, as the first such
    response. -/
def RoutedFirst (h : List Event) (i : Nat) (id : Bytes) (env : ResponseEnvelope) : Prop :=
  env.requestID = id ∧ ∃ between before, h = between ++ .routed env :: before ∧ Quiet before i id

/-- `env` is the first response with the id `id` that was routed while call `i` was registered, and it was
    sent to the call before any `failPending` reached it. -/
def FirstResponse (h : List Event) (i : Nat) (id : Bytes) (env : ResponseEnvelope) : Prop :=
  ∃ after before, h = after ++ .sent i env :: before ∧ RoutedFirst before i id env ∧ NoneSent before i

/-- A `failPending` reached call `i` before any response was sent to it. -/
def FirstFailure (h : List Event) (i : Nat) (cause : Option Bytes) : Prop :=
  ∃ after before, h = after ++ .reached i cause :: before ∧ NoneSent before i

/-- Where the result that reached call `i` came from. -/
def FirstResult (h : List Event) (i : Nat) (id : Bytes) (r : ControlResult) : Prop :=
  (∃ env, FirstResponse h i id env ∧ r = env.controlResult) ∨
    ∃ cause, FirstFailure h i cause ∧ r = disconnected cause

/-- The event may change what call `i`, with the id `id`, is going to return. -/
def Event.Concerns (i : Nat) (id : Bytes) : Event → Prop
  | .registered _ => False
  | .unregistered j | .sent j _ | .reached j _ => j = i
  | .routed env => env.requestID = id

/-- A result has been sent to some call. -/
def Event.IsSend : Event → Prop
  | .sent _ _ | .reached _ _ => True
  | _ => False

section

variable {h : List Event} (es : List Event) {i : Nat} {id : Bytes} {r : ControlResult} {env : ResponseEnvelope}

theorem FirstResult.append (hr : FirstResult h i id r) : FirstResult (es ++ h) i id r := by
  rcases hr with ⟨env, ⟨after, before, rfl, hb⟩, rfl⟩ | ⟨cause, ⟨after, before, rfl, hb⟩, rfl⟩
  · exact .inl ⟨env, ⟨es ++ after, before, (append_assoc ..).symm, hb⟩, rfl⟩
  · exact .inr ⟨cause, ⟨es ++ after, before, (append_assoc ..).symm, hb⟩, rfl⟩

theorem NoneSent.append (hn : NoneSent h i) (hes : ∀ e ∈ es, ¬ e.Concerns i id) : NoneSent (es ++ h) i := by
  constructor
  · intro env he
    rcases mem_append.mp he with he | he
    · exact hes _ he rfl
    · exact hn.1 env he
  · intro cause he
    rcases mem_append.mp he with he | he
    · exact hes _ he rfl
    · exact hn.2 cause he

theorem Quiet.append (hq : Quiet h i id) (hes : ∀ e ∈ es, ¬ e.Concerns i id) : Quiet (es ++ h) i id := by
  obtain ⟨during, earlier, rfl, hun, hrouted⟩ := hq
  refine ⟨es ++ during, earlier, (append_assoc ..).symm, ?_, ?_⟩
  · intro he
    rcases mem_append.mp he with he | he
    · exact hes _ he rfl
    · exact hun he
  · intro env he
    rcases mem_append.mp he with he | he
    · exact hes _ he
    · exact hrouted env he

theorem RoutedFirst.append (hr : RoutedFirst h i id env) : RoutedFirst (es ++ h) i id env := by
  obtain ⟨hid, between, before, rfl, hq⟩ := hr
  exact ⟨hid, es ++ between, before, (append_assoc ..).symm, hq⟩

/-- What a registered call has heard of so far, the response under way to it included. -/
def Heard (h : List Event) (i : Nat) (id : Bytes) : Option ResponseEnvelope → Prop
  | none => Quiet h i id
  | some env => RoutedFirst h i id env

theorem Heard.append {o : Option ResponseEnvelope} (hh : Heard h i id o)
    (hes : ∀ e ∈ es, ¬ e.Concerns i id) : Heard (es ++ h) i id o := by
  cases o with
  | none => exact Quiet.append es hh hes
  | some env => exact RoutedFirst.append es hh

end

/-! ## Nothing waits but for the mutex -/

/-- The steps ahead of a thread in `routeControlResponse` or in `failPending`. -/
def State.ahead (s : State) : Thread → List Action
  | .call _ => []
  | .router =>
    match s.router with
    | .idle => []
    | .routing _ => [.lock .router]
    | .locked _ => [.critical .router]
    | .sending _ _ => [.routerSend]
  | .failer j =>
    match s.failers[j]? with
    | some (.entered _) => [.lock (.failer j)]
    | some (.locked _) => [.critical (.failer j)]
    | some (.sending _ chans) => chans.map (.failerSend j)
    | none => []

/-- Whoever is in `routeControlResponse` or in `failPending` can take its next step, or waits for `pendingMu`,
    which its holder is about to release. -/
def State.Unblocked (s : State) : Prop :=
  ∀ t, ∀ a ∈ s.ahead t, (∃ s', step s a = some s') ∨
    a = .lock t ∧ ∃ u s', s.pendingMu = some u ∧ step s (.critical u) = some s' ∧ s'.pendingMu = none

end Pandaemonium.Claude.Correlation
