import Pandaemonium.Lib.Machine
import Pandaemonium.Tmux.Protocol

/-!
# `Tmux.Client` — commands, the read loop and shutdown (`client.go`)

A client has one command under way at a time: `ExecRaw` holds `writeMu` from its closed check to its return,
and between the two it puts its command into the slot `pending`, writes the line and waits on the channel of
the command. The read loop feeds every line to the parser and hands a complete response to the command in
the slot; when it ends it aborts, which marks the client closed and fails the command in the slot. `Close`
aborts too, and writes `detach-client` when nobody holds `writeMu`. The association of responses with
commands is by position alone.

The machine has one action for each critical section, for each channel operation and for each read and
write. Calls of `ExecRaw` are numbered in the order they are made, and the number of a call stands for the
pointer to its `pendingCommand`. Two histories are kept for the statements: who wrote each line that was
written in full (`written`), and how many response blocks have come (`responses`).
-/

namespace Pandaemonium.Tmux.Client

open List

/-- What `abort` is called with. -/
inductive Cause where
  /-- `ErrClosed` -/
  | errClosed
  /-- `io.EOF` -/
  | eof
  | protocol (err : ProtocolError)
  /-- the error of `ReadLine` -/
  | read (err : Bytes)
  /-- `ExitError` -/
  | exit (reason : Bytes)
deriving DecidableEq, Repr

/-- `responseResult`. A response is returned as it is or, when it ended with `%error`, inside a
    `CommandError` with the line of the command; `block` is its number among the response blocks that have
    come. -/
inductive Result where
  | response (block : Nat) (r : Response)
  | failed (cause : Cause)
deriving DecidableEq, Repr

inductive LineError where
  /-- `tmux: command line must not be empty` -/
  | empty
  /-- `tmux: command line must be valid UTF-8` -/
  | invalidUtf8
  /-- `tmux: command line contains a newline` -/
  | newline
deriving DecidableEq, Repr

/-- What `ExecRaw` returns. -/
inductive Outcome where
  | invalidLine (err : LineError)
  /-- `ctx.Err()` -/
  | contextDone
  /-- `closedError()` -/
  | closed (cause : Cause)
  /-- `tmux: another command is already pending` -/
  | busy
  | writeError
  | result (r : Result)
deriving DecidableEq, Repr

/-- How far a call of `abort` has come. -/
inductive Abort where
  /-- before `markClosed` -/
  | mark (cause : Cause)
  /-- before the critical section of `failPending` -/
  | fail (cause : Cause)
  /-- the command `call` taken out of the slot, the error still to be sent -/
  | send (cause : Cause) (call : Nat)
  | done
deriving DecidableEq, Repr

/-- Where a call of `ExecRaw` is. -/
inductive Phase where
  /-- before `writeMu.Lock` -/
  | locking
  /-- before the closed check, holding `writeMu` -/
  | checking
  /-- before `registerPending` -/
  | registering
  /-- before `WriteLine` -/
  | writing
  /-- inside `WriteLine`, the line written in full -/
  | written
  /-- in the `select`, the write having succeeded -/
  | waiting
  /-- before the `clearPending` of a failed write -/
  | dropping
  /-- before the `clearPending` of a call whose context is done -/
  | cancelling
  | aborting (a : Abort)
  /-- before `writeMu.Unlock` -/
  | unlocking (o : Outcome)
  | returned (o : Outcome)
deriving DecidableEq, Repr

structure Call where
  line : Bytes
  phase : Phase
  /-- the channel, of capacity one -/
  chan : Option Result
deriving DecidableEq, Repr

/-- Where `readLoop` is. -/
inductive LoopPhase where
  | reading
  /-- the command `call` taken out of the slot, the response still to be sent; `next`: the abort that
      follows, where the line came with an error -/
  | delivering (call : Nat) (result : Result) (next : Option Cause)
  /-- it has ended when the abort is done -/
  | aborting (a : Abort)
deriving DecidableEq, Repr

/-- How far `Close` has come; `cleanupDone` lets one call of it do the work. -/
inductive ClosePhase where
  | notCalled
  /-- `already`: the client was closed before -/
  | aborting (already : Bool) (a : Abort)
  /-- before `WriteLine` of `detach-client`, holding `writeMu` -/
  | detaching
  /-- before `transport.Close` -/
  | detached
  | transportClosed
deriving DecidableEq, Repr

inductive Holder where
  | call (i : Nat)
  | closer
deriving DecidableEq, Repr

structure State where
  calls : List Call
  writeMu : Option Holder
  /-- `closed` with `closeErr` -/
  closed : Option Cause
  pending : Option Nat
  loop : LoopPhase
  parser : ProtocolParser
  close : ClosePhase
  /-- the standard input of tmux -/
  stdinOpen : Bool
  written : List Holder
  responses : Nat
deriving DecidableEq, Repr

/-- `validateRawLine`. A text is blank when it has no fields. -/
def validateRawLine (line : Bytes) : Option LineError :=
  if GoText.fields line = [] then some .empty
  else if Utf8.valid line = false then some .invalidUtf8
  else if line.contains 0x0D || line.contains 0x0A then some .newline
  else none

/-- Where a call of `ExecRaw` goes before it takes `writeMu`. -/
def firstPhase (line : Bytes) (contextDone : Bool) : Phase :=
  match validateRawLine line with
  | some err => .returned (.invalidLine err)
  | none => if contextDone then .returned .contextDone else .locking

/-- The call `i` goes on to the phase `p`. -/
def advance (calls : List Call) (i : Nat) (p : Phase) : List Call :=
  calls.modify i (fun c => { c with phase := p })

namespace State

def setPhase (s : State) (i : Nat) (p : Phase) : State := { s with calls := advance s.calls i p }

/-- A send into the channel of a command. -/
def send (s : State) (i : Nat) (r : Result) : State :=
  { s with calls := s.calls.modify i (fun c => { c with chan := some r }) }

/-- The result is received, and the call is about to return it. -/
def receive (s : State) (i : Nat) (r : Result) : State :=
  { s with calls := s.calls.modify i
                      (fun c => { c with phase := .unlocking (.result r), chan := none }) }

/-- The channel of a command takes another result. -/
def canSend (s : State) (i : Nat) : Bool := (s.calls[i]?).any (fun c => c.chan.isNone)

def markClosed (s : State) (cause : Cause) : State :=
  { s with closed := s.closed.or (some cause) }

def clearPending (s : State) (i : Nat) : State :=
  { s with pending := if s.pending = some i then none else s.pending }

/-- The command in the slot is taken out of it. -/
def takePending (s : State) : State := { s with pending := none }

/-- One step of an `abort`. -/
def abort (s : State) : Abort → Option (State × Abort)
  | .mark cause => some (s.markClosed cause, .fail cause)
  | .fail cause =>
    match s.pending with
    | none => some (s, .done)
    | some i => some (s.takePending, .send cause i)
  | .send cause i => if s.canSend i then some (s.send i (.failed cause), .done) else none
  | .done => none

def setLoop (s : State) (l : LoopPhase) : State := { s with loop := l }

def setClose (s : State) (p : ClosePhase) : State := { s with close := p }

/-- Behind a message of the parser: the loop goes on, or aborts with the error of the read. -/
def loopNext : Option Cause → LoopPhase
  | none => .reading
  | some cause => .aborting (.mark cause)

/-- The cause a failed read aborts with, `err` being `none` for the end of the input. -/
def readCause (parser : ProtocolParser) (err : Option Bytes) : Cause :=
  match err with
  | some e => .read e
  | none =>
    match parser.eof with
    | some e => .protocol e
    | none => .eof

def setParser (s : State) (p : ProtocolParser) : State := { s with parser := p }

/-- The critical section of `deliverResponse`. -/
def deliverResponse (s : State) (r : Response) (next : Option Cause) : State :=
  match s.pending with
  | none => { s with responses := s.responses + 1, loop := loopNext next }
  | some i =>
    { s with responses := s.responses + 1, pending := none,
             loop := .delivering i (.response s.responses r) next }

/-- `ReadLine` returns a line, and an error with it where `err` is given. A notification other than `%exit`
    goes to the event buffer, which is not part of this model. -/
def readLine (s : State) (line : Bytes) (err : Option (Option Bytes)) : State :=
  match line, err with
  | [], some e => s.setLoop (.aborting (.mark (readCause s.parser e)))
  | line, err =>
    match s.parser.feed line with
    | (parser, .error e) =>
      { s with parser := parser, loop := .aborting (.mark (.protocol e)) }
    | (parser, .ok message) =>
      let next := err.map (readCause parser)
      match message with
      | .response r => (s.setParser parser).deliverResponse r next
      | .notification n =>
        if n.kind = ascii "%exit" then
          { s with parser := parser,
                   loop := .aborting (.mark (.exit (GoText.cut 0x20 n.raw).2.1)) }
        else { s with parser := parser, loop := loopNext next }
      | .none => { s with parser := parser, loop := loopNext next }

end State

inductive Action where
  /-- a call of `ExecRaw`; `contextDone`: its context is done already -/
  | execRaw (line : Bytes) (contextDone : Bool)
  | lock (i : Nat)
  /-- the closed check and the check of the context behind it -/
  | check (i : Nat) (contextDone : Bool)
  | register (i : Nat)
  /-- the line is written in full -/
  | write (i : Nat)
  | writeReturns (i : Nat)
  | writeFails (i : Nat)
  /-- `clearPending` -/
  | clear (i : Nat)
  | receive (i : Nat)
  | contextDone (i : Nat)
  /-- the next step of the `abort` of a call -/
  | abortCall (i : Nat)
  | unlock (i : Nat)
  | readLine (line : Bytes) (err : Option (Option Bytes))
  /-- `deliverResponse` sends -/
  | deliver
  | abortLoop
  /-- `Close` up to `alreadyClosed` -/
  | close
  | abortClose
  /-- `writeMu.TryLock` -/
  | tryLock
  /-- `WriteLine` of `detach-client` -/
  | detach (succeeds : Bool)
  | closeTransport
deriving DecidableEq, Repr

/-- A step of the call `i`, from the phase it is in. -/
def stepCall (s : State) (i : Nat) (f : Call → Option State) : Option State :=
  match s.calls[i]? with
  | some c => f c
  | none => none

def step (s : State) : Action → Option State
  | .execRaw line contextDone =>
    some { s with calls := s.calls ++ [⟨line, firstPhase line contextDone, none⟩] }
  | .lock i => stepCall s i fun c =>
    if c.phase = .locking ∧ s.writeMu = none then
      some { s with calls := advance s.calls i .checking, writeMu := some (.call i) }
    else none
  | .check i contextDone => stepCall s i fun c =>
    if c.phase = .checking then
      match s.closed with
      | some cause => some (s.setPhase i (.unlocking (.closed cause)))
      | none =>
        if contextDone then some (s.setPhase i (.unlocking .contextDone))
        else some (s.setPhase i .registering)
    else none
  | .register i => stepCall s i fun c =>
    if c.phase = .registering then
      match s.pending with
      | some _ => some (s.setPhase i (.unlocking .busy))
      | none => some { s with calls := advance s.calls i .writing, pending := some i }
    else none
  | .write i => stepCall s i fun c =>
    if c.phase = .writing ∧ s.stdinOpen = true then
      some { s with calls := advance s.calls i .written, written := s.written ++ [.call i] }
    else none
  | .writeReturns i => stepCall s i fun c =>
    if c.phase = .written then some (s.setPhase i .waiting) else none
  | .writeFails i => stepCall s i fun c =>
    if c.phase = .writing then some (s.setPhase i .dropping) else none
  | .clear i => stepCall s i fun c =>
    if c.phase = .dropping then some ((s.clearPending i).setPhase i (.unlocking .writeError))
    else if c.phase = .cancelling then
      some ((s.clearPending i).setPhase i (.aborting (.mark .errClosed)))
    else none
  | .receive i => stepCall s i fun c =>
    match c.phase, c.chan with
    | .waiting, some r =>
      some (s.receive i r)
    | _, _ => none
  | .contextDone i => stepCall s i fun c =>
    if c.phase = .waiting then some (s.setPhase i .cancelling) else none
  | .abortCall i => stepCall s i fun c =>
    match c.phase with
    | .aborting .done => some (s.setPhase i (.unlocking .contextDone))
    | .aborting a => (s.abort a).map (fun r => r.1.setPhase i (.aborting r.2))
    | _ => none
  | .unlock i => stepCall s i fun c =>
    match c.phase with
    | .unlocking o => some { s with calls := advance s.calls i (.returned o), writeMu := none }
    | _ => none
  | .readLine line err => if s.loop = .reading then some (s.readLine line err) else none
  | .deliver =>
    match s.loop with
    | .delivering i r next =>
      if s.canSend i then some ((s.send i r).setLoop (State.loopNext next)) else none
    | _ => none
  | .abortLoop =>
    match s.loop with
    | .aborting a => (s.abort a).map (fun r => r.1.setLoop (.aborting r.2))
    | _ => none
  | .close =>
    if s.close = .notCalled then
      some { s with close := .aborting s.closed.isSome (.mark .errClosed) }
    else none
  | .abortClose =>
    match s.close with
    | .aborting already a =>
      (s.abort a).map (fun r => r.1.setClose (.aborting already r.2))
    | _ => none
  | .tryLock =>
    match s.close with
    | .aborting true .done => some { s with close := .detached }
    | .aborting false .done =>
      if s.writeMu = none then some { s with writeMu := some .closer, close := .detaching }
      else some { s with close := .detached }
    | _ => none
  | .detach succeeds =>
    if s.close = .detaching then
      some { s with
        writeMu := none
        close := .detached
        written := if succeeds then s.written ++ [.closer] else s.written }
    else none
  | .closeTransport =>
    if s.close = .detached then some { s with stdinOpen := false, close := .transportClosed }
    else none

/-- A client once `New` has returned. -/
def machine : Machine State Action where
  init :=
    { calls := [], writeMu := none, closed := none, pending := none, loop := .reading,
      parser := .new, close := .notCalled, stdinOpen := true, written := [], responses := 0 }
  step := step

/-! ## The branches of a step -/

/-- The branches of `State.abort`. -/
inductive AbortStep (s : State) : Abort → State → Abort → Prop where
  | mark (cause) : AbortStep s (.mark cause) (s.markClosed cause) (.fail cause)
  | none (cause) : s.pending = none → AbortStep s (.fail cause) s .done
  | take (cause i) : s.pending = some i → AbortStep s (.fail cause) s.takePending (.send cause i)
  | send (cause i) : AbortStep s (.send cause i) (s.send i (.failed cause)) .done

variable {s₁ : State} {a₁ : Abort}

theorem abort_inv {s : State} {a : Abort} (h : s.abort a = some (s₁, a₁)) : AbortStep s a s₁ a₁ := by
  cases a with
  | mark cause =>
    cases h
    exact .mark cause
  | fail cause =>
    simp only [State.abort] at h
    split at h
    · rename_i hp
      cases h
      exact .none cause hp
    · rename_i i hp
      cases h
      exact .take cause i hp
  | send cause i =>
    simp only [State.abort] at h
    split at h
    · cases h
      exact .send cause i
    · cases h
  | done => cases h

/-- The branches of `State.readLine`: the loop goes on or begins to abort, and a response block finds the
    slot empty or takes the command out of it. -/
inductive ReadStep (s : State) (line : Bytes) : State → Prop where
  | other {parser l} : l = .reading ∨ (∃ cause, l = .aborting (.mark cause)) →
      ReadStep s line { s with parser := parser, loop := l }
  | unclaimed {parser l r} : (s.parser.feed line).2 = .ok (.response r) → s.pending = none →
      l = .reading ∨ (∃ cause, l = .aborting (.mark cause)) →
      ReadStep s line { s with parser := parser, responses := s.responses + 1, loop := l }
  | claimed {parser i r next} : (s.parser.feed line).2 = .ok (.response r) → s.pending = some i →
      ReadStep s line
        { s with parser := parser, responses := s.responses + 1, pending := none,
                 loop := .delivering i (.response s.responses r) next }

theorem loopNext_cases (next : Option Cause) :
    State.loopNext next = .reading ∨ ∃ cause, State.loopNext next = .aborting (.mark cause) := by
  cases next with
  | none => exact .inl rfl
  | some cause => exact .inr ⟨cause, rfl⟩

theorem deliverResponse_inv {s : State} {line : Bytes} {r : Response}
    (h : (s.parser.feed line).2 = .ok (.response r)) (parser : ProtocolParser) (next : Option Cause) :
    ReadStep s line ((s.setParser parser).deliverResponse r next) := by
  cases hp : s.pending with
  | none =>
    have hd : (s.setParser parser).deliverResponse r next
        = { s with parser := parser, responses := s.responses + 1, loop := State.loopNext next } := by
      simp only [State.deliverResponse, State.setParser, hp]
    rw [hd]
    exact .unclaimed h hp (loopNext_cases next)
  | some i =>
    have hd : (s.setParser parser).deliverResponse r next
        = { s with parser := parser, responses := s.responses + 1, pending := none,
                   loop := .delivering i (.response s.responses r) next } := by
      simp only [State.deliverResponse, State.setParser, hp]
    rw [hd]
    exact .claimed h hp

theorem readLine_inv (s : State) (line : Bytes) (err : Option (Option Bytes)) :
    ReadStep s line (s.readLine line err) := by
  unfold State.readLine
  split
  · exact .other (.inr ⟨_, rfl⟩)
  split
  · exact .other (.inr ⟨_, rfl⟩)
  next parser message hfeed =>
    have hmessage : (s.parser.feed line).2 = .ok message := by rw [hfeed]
    cases message with
    | response r => exact deliverResponse_inv hmessage parser _
    | notification n =>
      by_cases hexit : n.kind = ascii "%exit"
      · simp only [hexit, if_true]
        exact .other (.inr ⟨_, rfl⟩)
      · simp only [hexit, if_false]
        exact .other (loopNext_cases _)
    | none => exact .other (loopNext_cases _)

/-- The branches of `step`. -/
inductive Step (s : State) : Action → State → Prop where
  | execRaw {line done p} : p = .locking ∨ (∃ err, p = .returned (.invalidLine err)) ∨
      p = .returned .contextDone →
      Step s (.execRaw line done) { s with calls := s.calls ++ [⟨line, p, none⟩] }
  | lock {i c} : s.calls[i]? = some c → c.phase = .locking → s.writeMu = none →
      Step s (.lock i) { s with calls := advance s.calls i .checking, writeMu := some (.call i) }
  | refuse {i c done o} : s.calls[i]? = some c → c.phase = .checking →
      (∃ cause, o = .closed cause) ∨ o = .contextDone →
      Step s (.check i done) (s.setPhase i (.unlocking o))
  | check {i c done} : s.calls[i]? = some c → c.phase = .checking → s.closed = none →
      Step s (.check i done) (s.setPhase i .registering)
  | busy {i j c} : s.calls[i]? = some c → c.phase = .registering → s.pending = some j →
      Step s (.register i) (s.setPhase i (.unlocking .busy))
  | register {i c} : s.calls[i]? = some c → c.phase = .registering → s.pending = none →
      Step s (.register i) { s with calls := advance s.calls i .writing, pending := some i }
  | write {i c} : s.calls[i]? = some c → c.phase = .writing →
      Step s (.write i)
        { s with calls := advance s.calls i .written, written := s.written ++ [.call i] }
  | writeReturns {i c} : s.calls[i]? = some c → c.phase = .written →
      Step s (.writeReturns i) (s.setPhase i .waiting)
  | writeFails {i c} : s.calls[i]? = some c → c.phase = .writing →
      Step s (.writeFails i) (s.setPhase i .dropping)
  | drop {i c} : s.calls[i]? = some c → c.phase = .dropping →
      Step s (.clear i) ((s.clearPending i).setPhase i (.unlocking .writeError))
  | cancel {i c} : s.calls[i]? = some c → c.phase = .cancelling →
      Step s (.clear i) ((s.clearPending i).setPhase i (.aborting (.mark .errClosed)))
  | receive {i c r} : s.calls[i]? = some c → c.phase = .waiting → c.chan = some r →
      Step s (.receive i) (s.receive i r)
  | contextDone {i c} : s.calls[i]? = some c → c.phase = .waiting →
      Step s (.contextDone i) (s.setPhase i .cancelling)
  | aborted {i c} : s.calls[i]? = some c → c.phase = .aborting .done →
      Step s (.abortCall i) (s.setPhase i (.unlocking .contextDone))
  | abortCall {i c a s₁ a₁} : s.calls[i]? = some c → c.phase = .aborting a → AbortStep s a s₁ a₁ →
      Step s (.abortCall i) (s₁.setPhase i (.aborting a₁))
  | unlock {i c o} : s.calls[i]? = some c → c.phase = .unlocking o →
      Step s (.unlock i) { s with calls := advance s.calls i (.returned o), writeMu := none }
  | readLine {line err s'} : s.loop = .reading → ReadStep s line s' → Step s (.readLine line err) s'
  | deliver {i r next} : s.loop = .delivering i r next →
      Step s .deliver ((s.send i r).setLoop (State.loopNext next))
  | abortLoop {a s₁ a₁} : s.loop = .aborting a → AbortStep s a s₁ a₁ →
      Step s .abortLoop (s₁.setLoop (.aborting a₁))
  | close : s.close = .notCalled →
      Step s .close (s.setClose (.aborting s.closed.isSome (.mark .errClosed)))
  | abortClose {already a s₁ a₁} : s.close = .aborting already a → AbortStep s a s₁ a₁ →
      Step s .abortClose (s₁.setClose (.aborting already a₁))
  | skip {already} : s.close = .aborting already .done → Step s .tryLock (s.setClose .detached)
  | tryLock {already} : s.close = .aborting already .done → s.writeMu = none →
      Step s .tryLock { s with writeMu := some .closer, close := .detaching }
  | detach {succeeds w} : s.close = .detaching → w = s.written ∨ w = s.written ++ [.closer] →
      Step s (.detach succeeds) { s with writeMu := none, close := .detached, written := w }
  | closeTransport : s.close = .detached →
      Step s .closeTransport { s with stdinOpen := false, close := .transportClosed }

theorem stepCall_inv {s s' : State} {i : Nat} {f : Call → Option State}
    (h : stepCall s i f = some s') : ∃ c, s.calls[i]? = some c ∧ f c = some s' := by
  unfold stepCall at h
  split at h
  · next c hc => exact ⟨c, hc, h⟩
  · cases h

theorem firstPhase_cases (line : Bytes) (done : Bool) :
    firstPhase line done = .locking ∨ (∃ err, firstPhase line done = .returned (.invalidLine err)) ∨
      firstPhase line done = .returned .contextDone := by
  unfold firstPhase
  split
  · next err _ => exact .inr (.inl ⟨err, rfl⟩)
  cases done with
  | false => exact .inl rfl
  | true => exact .inr (.inr rfl)

theorem step_inv {s s' : State} {a : Action} (h : step s a = some s') : Step s a s' := by
  cases a
  all_goals simp only [step] at h
  case execRaw line done =>
    cases h
    exact .execRaw (firstPhase_cases line done)
  case check i done =>
    obtain ⟨c, hc, h⟩ := stepCall_inv h
    split at h
    · rename_i hp
      split at h
      · next cause _ => cases h; exact .refuse hc hp (.inl ⟨cause, rfl⟩)
      next hclosed =>
        split at h
        · cases h; exact .refuse hc hp (.inr rfl)
        · cases h; exact .check hc hp hclosed
    · cases h
  case readLine line err =>
    split at h
    · next hl => cases h; exact .readLine hl (readLine_inv s line err)
    · cases h
  case deliver =>
    split at h
    · rename_i i r next hl
      split at h
      · cases h; exact .deliver hl
      · cases h
    · cases h
  case abortLoop =>
    split at h
    · rename_i a hl
      obtain ⟨⟨s₁, a₁⟩, hr, rfl⟩ := Option.map_eq_some_iff.mp h
      exact .abortLoop hl (abort_inv hr)
    · cases h
  case close =>
    split at h
    · next hc => cases h; exact .close hc
    · cases h
  case abortClose =>
    split at h
    · rename_i already a hc
      obtain ⟨⟨s₁, a₁⟩, hr, rfl⟩ := Option.map_eq_some_iff.mp h
      exact .abortClose hc (abort_inv hr)
    · cases h
  case tryLock =>
    split at h
    · next hc => cases h; exact .skip hc
    · rename_i hc
      split at h
      · next hm => cases h; exact .tryLock hc hm
      · cases h; exact .skip hc
    · cases h
  case detach succeeds =>
    split at h
    · rename_i hc
      cases h
      refine .detach hc ?_
      cases succeeds with
      | false => exact .inl rfl
      | true => exact .inr rfl
    · cases h
  case closeTransport =>
    split at h
    · next hc => cases h; exact .closeTransport hc
    · cases h
  case lock i =>
    obtain ⟨c, hc, h⟩ := stepCall_inv h
    split at h
    · next hp => cases h; exact .lock hc hp.1 hp.2
    · cases h
  case register i =>
    obtain ⟨c, hc, h⟩ := stepCall_inv h
    split at h
    · rename_i hp
      split at h
      · next j hj => cases h; exact .busy hc hp hj
      · next hj => cases h; exact .register hc hp hj
    · cases h
  case write i =>
    obtain ⟨c, hc, h⟩ := stepCall_inv h
    split at h
    · next hp => cases h; exact .write hc hp.1
    · cases h
  case writeReturns i =>
    obtain ⟨c, hc, h⟩ := stepCall_inv h
    split at h
    · next hp => cases h; exact .writeReturns hc hp
    · cases h
  case writeFails i =>
    obtain ⟨c, hc, h⟩ := stepCall_inv h
    split at h
    · next hp => cases h; exact .writeFails hc hp
    · cases h
  case clear i =>
    obtain ⟨c, hc, h⟩ := stepCall_inv h
    split at h
    · next hp => cases h; exact .drop hc hp
    split at h
    · next hp => cases h; exact .cancel hc hp
    · cases h
  case receive i =>
    obtain ⟨c, hc, h⟩ := stepCall_inv h
    split at h
    · next r hp hr => cases h; exact .receive hc hp hr
    · cases h
  case contextDone i =>
    obtain ⟨c, hc, h⟩ := stepCall_inv h
    split at h
    · next hp => cases h; exact .contextDone hc hp
    · cases h
  case abortCall i =>
    obtain ⟨c, hc, h⟩ := stepCall_inv h
    split at h
    · next hp => cases h; exact .aborted hc hp
    · rename_i a _ hp
      obtain ⟨⟨s₁, a₁⟩, hr, rfl⟩ := Option.map_eq_some_iff.mp h
      exact .abortCall hc hp (abort_inv hr)
    · cases h
  case unlock i =>
    obtain ⟨c, hc, h⟩ := stepCall_inv h
    split at h
    · next o hp => cases h; exact .unlock hc hp
    · cases h

/-! ## One command at a time -/

/-- The call holds `writeMu`. -/
def Phase.holds : Phase → Bool
  | .locking | .returned _ => false
  | _ => true

/-- The command of the call has been put into the slot, and the call has not given it up. -/
def Phase.registered : Phase → Bool
  | .writing | .written | .waiting | .dropping | .cancelling => true
  | _ => false

/-- The call has not come to `registerPending`. -/
def Phase.early : Phase → Bool
  | .locking | .checking | .registering => true
  | _ => false

/-- The command taken out of the slot whose result is still to be sent. -/
def Abort.target : Abort → Option Nat
  | .send _ i => some i
  | _ => none

@[inherit_doc Abort.target]
def Phase.target : Phase → Option Nat
  | .aborting a => a.target
  | _ => none

@[inherit_doc Abort.target]
def LoopPhase.target : LoopPhase → Option Nat
  | .reading => none
  | .delivering i _ _ => some i
  | .aborting a => a.target

@[inherit_doc Abort.target]
def ClosePhase.target : ClosePhase → Option Nat
  | .aborting _ a => a.target
  | _ => none

/-- The command of call `i` has been taken out of the slot by the read loop or by `Close`. -/
def State.Taken (s : State) (i : Nat) (c : Call) : Prop :=
  s.loop.target = some i ∨ s.close.target = some i ∨ c.chan ≠ none

/-- `writeMu` has at most one holder, which is between `Lock` and `Unlock`. -/
structure Mutex (s : State) : Prop where
  held : AllAt s.calls (fun i c => c.phase.holds = true ↔ s.writeMu = some (.call i))
  holder : ∀ i, s.writeMu = some (.call i) → i < s.calls.length
  detaching : s.close = .detaching ↔ s.writeMu = some .closer

/-- The command in the slot is that of a call that has not given it up, the abort of a cancelled call finds
    the slot empty, and a command taken out of the slot does not come back. -/
structure Slotted (s : State) : Prop where
  slot : ∀ i, s.pending = some i → ∃ c, s.calls[i]? = some c ∧ c.phase.registered = true
  silent : AllAt s.calls (fun _ c => c.phase.target = none)
  taken : AllAt s.calls (fun i c => s.Taken i c → s.pending ≠ some i ∧ c.phase.early = false)
  aimed : ∀ i, s.loop.target = some i ∨ s.close.target = some i → i < s.calls.length

/-- **One command at a time.** -/
structure Locked (s : State) : Prop extends Mutex s, Slotted s

theorem Phase.holds_of_registered {p : Phase} (h : p.registered = true) : p.holds = true := by
  cases p <;> simp_all [Phase.registered, Phase.holds]

theorem Phase.not_early_of_registered {p : Phase} (h : p.registered = true) : p.early = false := by
  cases p <;> simp_all [Phase.registered, Phase.early]

theorem loopNext_target (next : Option Cause) : (State.loopNext next).target = none := by
  cases next <;> rfl

theorem getElem?_modify_some {calls : List Call} {i j : Nat} {c : Call} {f : Call → Call}
    (hc : calls[j]? = some c) : (calls.modify i f)[j]? = some (if i = j then f c else c) := by
  rw [getElem?_modify, hc]
  rfl

theorem lt_of_getElem? {calls : List Call} {i : Nat} {c : Call} (hc : calls[i]? = some c) :
    i < calls.length := (List.getElem?_eq_some_iff.mp hc).1

variable {s s' : State} {i : Nat} {c : Call} {p : Phase}

namespace Mutex

/-- Two calls that hold `writeMu` are one. -/
theorem eq_of_holds (h : Mutex s) {j : Nat} {d : Call} (hc : s.calls[i]? = some c)
    (hd : s.calls[j]? = some d) (hi : c.phase.holds = true) (hj : d.phase.holds = true) : i = j := by
  have hij := ((h.held i c hc).mp hi).symm.trans ((h.held j d hd).mp hj)
  cases hij
  rfl

theorem of_eq (h : Mutex s) (hcalls : s'.calls = s.calls) (hmu : s'.writeMu = s.writeMu)
    (hclose : s'.close = .detaching ↔ s.close = .detaching) : Mutex s' where
  held := by rw [hcalls, hmu]; exact h.held
  holder := by rw [hcalls, hmu]; exact h.holder
  detaching := by rw [hclose, hmu]; exact h.detaching

/-- A call is changed without taking or giving back `writeMu`. -/
theorem modify (h : Mutex s) {f : Call → Call}
    (hf : ∀ c, s.calls[i]? = some c → (f c).phase.holds = c.phase.holds) :
    Mutex { s with calls := s.calls.modify i f } where
  held := by
    refine AllAt.modify (fun c hc => ?_) (fun j c _ hc => h.held j c hc)
    rw [hf c hc]
    exact h.held i c hc
  holder := by
    intro j hj
    rw [length_modify]
    exact h.holder j hj
  detaching := h.detaching

theorem acquire (h : Mutex s) (hc : s.calls[i]? = some c) (hmu : s.writeMu = none) (hp : p.holds = true) :
    Mutex { s with calls := advance s.calls i p, writeMu := some (.call i) } where
  held := by
    refine AllAt.modify (fun _ _ => iff_of_true hp rfl) (fun j d hji hd => ?_)
    have hfree := h.held j d hd
    rw [hmu] at hfree
    exact iff_of_false (fun hd => nomatch hfree.mp hd) (fun hj => by cases hj; exact hji rfl)
  holder := by
    intro j hj
    cases hj
    show i < (advance s.calls i p).length
    rw [advance, length_modify]
    exact lt_of_getElem? hc
  detaching := by
    refine iff_of_false (fun hclose => ?_) nofun
    have hheld := h.detaching.mp hclose
    rw [hmu] at hheld
    cases hheld

theorem release (h : Mutex s) (hc : s.calls[i]? = some c) (hholds : c.phase.holds = true)
    (hp : p.holds = false) : Mutex { s with calls := advance s.calls i p, writeMu := none } where
  held := by
    refine AllAt.modify (fun _ _ => ?_) (fun j d hji hd => ?_)
    · exact iff_of_false (by rw [hp]; nofun) nofun
    · exact iff_of_false (fun hj => hji (h.eq_of_holds hd hc hj hholds)) nofun
  holder := nofun
  detaching := by
    refine iff_of_false (fun hclose => ?_) nofun
    have hheld := (h.held i c hc).mp hholds
    rw [h.detaching.mp hclose] at hheld
    cases hheld

end Mutex

namespace Slotted

/-- Only the calls, the slot and the targets matter, and a target comes out of the slot. -/
theorem of_eq (h : Slotted s) (hcalls : s'.calls = s.calls) (hslot : s'.pending = s.pending ∨ s'.pending = none)
    (htarget : ∀ i, s'.loop.target = some i ∨ s'.close.target = some i → (s.loop.target = some i ∨
    s.close.target = some i) ∨ (s.pending = some i ∧ s'.pending = none)) : Slotted s' where
  slot := by
    intro i hp
    rw [hcalls]
    rcases hslot with hs | hs <;> rw [hs] at hp
    · exact h.slot i hp
    · cases hp
  silent := by rw [hcalls]; exact h.silent
  taken := by
    rw [hcalls]
    intro i c hc ht
    have hold : s.Taken i c ∨ (s.pending = some i ∧ s'.pending = none) := by
      rcases ht with ht | ht | ht
      · exact (htarget i (.inl ht)).imp (fun h => h.imp id .inl) id
      · exact (htarget i (.inr ht)).imp (fun h => h.imp id .inl) id
      · exact .inl (.inr (.inr ht))
    rcases hold with hold | ⟨hp, hnone⟩
    · obtain ⟨hne, hearly⟩ := h.taken i c hc hold
      refine ⟨?_, hearly⟩
      rcases hslot with hs | hs <;> rw [hs]
      · exact hne
      · nofun
    · obtain ⟨d, hd, hreg⟩ := h.slot i hp
      rw [hc] at hd
      cases hd
      exact ⟨by rw [hnone]; nofun, Phase.not_early_of_registered hreg⟩
  aimed := by
    intro i hi
    rw [hcalls]
    rcases htarget i hi with hi | ⟨hp, _⟩
    · exact h.aimed i hi
    · obtain ⟨c, hc, _⟩ := h.slot i hp
      exact lt_of_getElem? hc

/-- A call is changed: it gives up its command only when that is not in the slot. -/
theorem modify (h : Slotted s) (hc : s.calls[i]? = some c) {f : Call → Call}
    (hreg : s.pending = some i → (f c).phase.registered = true) (htarget : (f c).phase.target = none)
    (htaken : s.Taken i (f c) → s.Taken i c) (hearly : (f c).phase.early = true → c.phase.early = true) :
    Slotted { s with calls := s.calls.modify i f } where
  slot := by
    intro j hj
    obtain ⟨d, hd, hdreg⟩ := h.slot j hj
    refine ⟨_, getElem?_modify_some hd, ?_⟩
    by_cases hij : i = j
    · subst hij
      rw [hc] at hd
      cases hd
      rw [if_pos rfl]
      exact hreg hj
    · rw [if_neg hij]
      exact hdreg
  silent := by
    refine AllAt.modify (fun d hd => ?_) (fun j d _ hd => h.silent j d hd)
    rw [hc] at hd
    cases hd
    exact htarget
  taken := by
    refine AllAt.modify (fun d hd ht => ?_) (fun j d _ hd => h.taken j d hd)
    rw [hc] at hd
    cases hd
    obtain ⟨hne, hlate⟩ := h.taken i c hc (htaken ht)
    refine ⟨hne, ?_⟩
    cases hp : (f c).phase.early with
    | false => rfl
    | true => exact absurd (hearly hp) (by rw [hlate]; nofun)
  aimed := by
    intro j hj
    rw [length_modify]
    exact h.aimed j hj

/-- `writeMu` does not matter. -/
theorem withMutex (h : Slotted s) (m : Option Holder) : Slotted { s with writeMu := m } :=
  ⟨h.slot, h.silent, h.taken, h.aimed⟩

/-- `registerPending` of a call that comes to it. -/
theorem register (h : Slotted s) (hc : s.calls[i]? = some c) (hp : c.phase = .registering) :
    Slotted { s with calls := advance s.calls i .writing, pending := some i } where
  slot := by
    intro j hj
    cases hj
    exact ⟨_, getElem?_modify_some hc, by rw [if_pos rfl]; rfl⟩
  silent := AllAt.modify (fun _ _ => rfl) (fun j d _ hd => h.silent j d hd)
  taken := by
    refine AllAt.modify (fun d hd ht => ?_) (fun j d hji hd ht => ?_)
    · rw [hc] at hd
      cases hd
      have hlate := (h.taken i c hc ht).2
      rw [hp] at hlate
      cases hlate
    · refine ⟨fun hj => ?_, (h.taken j d hd ht).2⟩
      cases hj
      exact hji rfl
  aimed := by
    intro j hj
    show j < (advance s.calls i .writing).length
    rw [advance, length_modify]
    exact h.aimed j hj

end Slotted

namespace Locked

theorem init : Locked machine.init where
  held := AllAt.nil
  holder := nofun
  detaching := by simp [machine]
  slot := nofun
  silent := AllAt.nil
  taken := AllAt.nil
  aimed := by simp [machine, LoopPhase.target, ClosePhase.target]

section

variable (h : Locked s)
include h

/-- While a call that has not registered, or no longer waits, holds `writeMu`, the slot is empty. -/
theorem pending_eq_none (hc : s.calls[i]? = some c) (hi : c.phase.holds = true)
    (hreg : c.phase.registered = false) : s.pending = none := by
  cases hp : s.pending with
  | none => rfl
  | some j =>
    obtain ⟨d, hd, hdreg⟩ := h.slot j hp
    have hij := h.eq_of_holds hc hd hi (Phase.holds_of_registered hdreg)
    subst hij
    rw [hc] at hd
    cases hd
    rw [hreg] at hdreg
    cases hdreg

/-- A call goes on without taking or giving back `writeMu`. -/
theorem move (hc : s.calls[i]? = some c) (hholds : p.holds = c.phase.holds)
    (hreg : s.pending = some i → p.registered = true) (htarget : p.target = none)
    (hearly : p.early = true → c.phase.early = true) : Locked (s.setPhase i p) where
  toMutex := by
    refine h.toMutex.modify (fun d hd => ?_)
    rw [hc] at hd
    cases hd
    exact hholds
  toSlotted := h.toSlotted.modify hc hreg htarget id hearly

/-- The same for a call that is not registered, so that its command is not in the slot. -/
theorem go (hc : s.calls[i]? = some c) (hholds : c.phase.holds = true) (hreg : c.phase.registered = false)
    (hp : p.holds = true) (htarget : p.target = none) (hearly : p.early = true → c.phase.early = true) :
    Locked (s.setPhase i p) := by
  refine h.move hc (hp.trans hholds.symm) (fun hpending => ?_) htarget hearly
  rw [h.pending_eq_none hc hholds hreg] at hpending
  cases hpending

/-- A result is sent to a command that was taken out of the slot. -/
theorem send (ht : s.loop.target = some i ∨ s.close.target = some i) (r : Result) : Locked (s.send i r) where
  toMutex := h.toMutex.modify (fun _ _ => rfl)
  toSlotted := by
    obtain ⟨c, hc⟩ : ∃ c, s.calls[i]? = some c := ⟨_, getElem?_eq_getElem (h.aimed i ht)⟩
    have htaken : s.Taken i c := ht.imp id .inl
    exact h.toSlotted.modify hc (fun hp => absurd hp (h.taken i c hc htaken).1) (h.silent i c hc)
      (fun _ => htaken) id

/-- The result is received: the command was taken out of the slot before it came. -/
theorem receive (hc : s.calls[i]? = some c) (hp : c.phase = .waiting) {r : Result} (hr : c.chan = some r) :
    Locked (s.receive i r) where
  toMutex := by
    refine h.toMutex.modify (fun d hd => ?_)
    rw [hc] at hd
    cases hd
    rw [hp]
    rfl
  toSlotted := by
    have htaken : s.Taken i c := .inr (.inr (by rw [hr]; nofun))
    exact h.toSlotted.modify hc (fun hp => absurd hp (h.taken i c hc htaken).1) rfl (fun _ => htaken) nofun

/-- Nothing but the read loop, `Close` and the slot has changed, and no new target. -/
theorem of_targets (hcalls : s'.calls = s.calls) (hmu : s'.writeMu = s.writeMu)
    (hclose : s'.close = .detaching ↔ s.close = .detaching) (hslot : s'.pending = s.pending ∨ s'.pending = none)
    (hlt : s'.loop.target = none ∨ s'.loop = s.loop) (hct : s'.close.target = none ∨ s'.close = s.close) :
    Locked s' where
  toMutex := h.toMutex.of_eq hcalls hmu hclose
  toSlotted := by
    refine h.toSlotted.of_eq hcalls hslot (fun i hi => .inl ?_)
    rcases hi with hi | hi
    · rcases hlt with hlt | hlt <;> rw [hlt] at hi
      · cases hi
      · exact .inl hi
    · rcases hct with hct | hct <;> rw [hct] at hi
      · cases hi
      · exact .inr hi

theorem execRaw {line : Bytes} (hholds : p.holds = false) (htarget : p.target = none) :
    Locked { s with calls := s.calls ++ [⟨line, p, none⟩] } where
  held := by
    refine AllAt.concat h.held ?_
    refine iff_of_false (by rw [hholds]; nofun) (fun hmu => ?_)
    exact absurd (h.holder _ hmu) (Nat.lt_irrefl _)
  holder := by
    intro i hi
    rw [length_append]
    exact Nat.lt_add_right _ (h.holder i hi)
  detaching := h.detaching
  slot := by
    intro i hi
    obtain ⟨c, hc, hreg⟩ := h.slot i hi
    exact ⟨c, by rw [getElem?_append_left (lt_of_getElem? hc)]; exact hc, hreg⟩
  silent := AllAt.concat h.silent htarget
  taken := by
    refine AllAt.concat h.taken (fun ht => ?_)
    have haimed : s.loop.target = some s.calls.length ∨ s.close.target = some s.calls.length := by
      rcases ht with ht | ht | ht
      · exact .inl ht
      · exact .inr ht
      · exact absurd rfl ht
    exact absurd (h.aimed _ haimed) (Nat.lt_irrefl _)
  aimed := by
    intro i hi
    rw [length_append]
    exact Nat.lt_add_right _ (h.aimed i hi)

/-- `clearPending`, by the call whose command may be in the slot. -/
theorem clearPending : Locked (s.clearPending i) := by
  refine h.of_targets rfl rfl Iff.rfl ?_ (.inr rfl) (.inr rfl)
  show (if s.pending = some i then none else s.pending) = s.pending ∨ _
  by_cases hp : s.pending = some i
  · exact .inr (if_pos hp)
  · exact .inl (if_neg hp)

end

theorem clearPending_ne (s : State) (i : Nat) : (s.clearPending i).pending ≠ some i := by
  show (if s.pending = some i then none else s.pending) ≠ some i
  by_cases hp : s.pending = some i
  · rw [if_pos hp]
    nofun
  · rw [if_neg hp]
    exact hp

section

variable (h : Locked s)
include h

theorem markClosed (cause : Cause) : Locked (s.markClosed cause) :=
  h.of_targets rfl rfl Iff.rfl (.inl rfl) (.inr rfl) (.inr rfl)

/-- The read loop takes a step of its abort. -/
theorem abortLoop {a : Abort} (hl : s.loop = .aborting a) (ha : AbortStep s a s₁ a₁) :
    Locked (s₁.setLoop (.aborting a₁)) := by
  cases ha with
  | mark | none => exact h.of_targets rfl rfl Iff.rfl (.inl rfl) (.inl rfl) (.inr rfl)
  | take _ j hp =>
    refine ⟨h.toMutex.of_eq rfl rfl Iff.rfl, h.toSlotted.of_eq rfl (.inr rfl) (fun k hk => ?_)⟩
    rcases hk with hk | hk
    · cases hk
      exact .inr ⟨hp, rfl⟩
    · exact .inl (.inr hk)
  | send cause j =>
    have hsend := h.send (i := j) (.inl (by rw [hl]; rfl)) (.failed cause)
    exact hsend.of_targets rfl rfl Iff.rfl (.inl rfl) (.inl rfl) (.inr rfl)

/-- `Close` takes a step of its abort. -/
theorem abortClose {already : Bool} {a : Abort} (hclose : s.close = .aborting already a)
    (ha : AbortStep s a s₁ a₁) : Locked (s₁.setClose (.aborting already a₁)) := by
  have hdet : s.close ≠ .detaching := by rw [hclose]; nofun
  cases ha with
  | mark | none => exact h.of_targets rfl rfl (iff_of_false nofun hdet) (.inl rfl) (.inr rfl) (.inl rfl)
  | take _ j hp =>
    refine ⟨h.toMutex.of_eq rfl rfl (iff_of_false nofun hdet),
      h.toSlotted.of_eq rfl (.inr rfl) (fun k hk => ?_)⟩
    rcases hk with hk | hk
    · exact .inl (.inl hk)
    · cases hk
      exact .inr ⟨hp, rfl⟩
  | send cause j =>
    have hsend := h.send (i := j) (.inr (by rw [hclose]; rfl)) (.failed cause)
    exact hsend.of_targets rfl rfl (iff_of_false nofun hdet) (.inl rfl) (.inr rfl) (.inl rfl)

/-- A cancelled call takes a step of its abort: the slot is empty, as the call has cleared it and still
    holds `writeMu`. -/
theorem abortCall {a : Abort} (hc : s.calls[i]? = some c) (hphase : c.phase = .aborting a)
    (ha : AbortStep s a s₁ a₁) : Locked (s₁.setPhase i (.aborting a₁)) := by
  have hholds : c.phase.holds = true := by rw [hphase]; rfl
  have hreg : c.phase.registered = false := by rw [hphase]; rfl
  cases ha with
  | mark cause =>
    exact (h.markClosed cause).go hc hholds hreg rfl rfl nofun
  | none => exact h.go hc hholds hreg rfl rfl nofun
  | take _ j hp => exact nomatch (h.pending_eq_none hc hholds hreg).symm.trans hp
  | send =>
    have hsilent : c.phase.target = none := h.silent i c hc
    rw [hphase] at hsilent
    cases hsilent

theorem readStep {line : Bytes} (hr : ReadStep s line s') : Locked s' := by
  have htarget : ∀ l : LoopPhase, l = .reading ∨ (∃ cause, l = .aborting (.mark cause)) →
      l.target = none := by
    intro l hl
    rcases hl with rfl | ⟨cause, rfl⟩ <;> rfl
  cases hr with
  | other hl => exact h.of_targets rfl rfl Iff.rfl (.inl rfl) (.inl (htarget _ hl)) (.inr rfl)
  | unclaimed _ _ hl =>
    exact h.of_targets rfl rfl Iff.rfl (.inl rfl) (.inl (htarget _ hl)) (.inr rfl)
  | claimed _ hp =>
    refine ⟨h.toMutex.of_eq rfl rfl Iff.rfl, h.toSlotted.of_eq rfl (.inr rfl) (fun k hk => ?_)⟩
    rcases hk with hk | hk
    · cases hk
      exact .inr ⟨hp, rfl⟩
    · exact .inl (.inr hk)

/-- `Close` takes `writeMu` when it is free. -/
theorem tryLock (hmu : s.writeMu = none) : Locked { s with writeMu := some .closer, close := .detaching } where
  held := by
    intro i c hc
    have hfree := h.held i c hc
    rw [hmu] at hfree
    exact iff_of_false (fun hi => nomatch hfree.mp hi) nofun
  holder := nofun
  detaching := iff_of_true rfl rfl
  toSlotted := h.toSlotted.of_eq rfl (.inl rfl) (fun _ hi => .inl (hi.imp id nofun))

theorem unlockCloser (hclose : s.close = .detaching) {w : List Holder} :
    Locked { s with writeMu := none, close := .detached, written := w } where
  held := by
    intro i c hc
    have hheld := h.held i c hc
    rw [h.detaching.mp hclose] at hheld
    exact iff_of_false (fun hi => nomatch hheld.mp hi) nofun
  holder := nofun
  detaching := iff_of_false nofun nofun
  toSlotted := h.toSlotted.of_eq rfl (.inl rfl) (fun _ hi => .inl (hi.imp id nofun))

/-- **Every step keeps the calls one at a time.** -/
theorem step {a : Action} (hstep : Step s a s') : Locked s' := by
  cases hstep with
  | execRaw hp =>
    refine h.execRaw ?_ ?_
    all_goals rcases hp with rfl | ⟨_, rfl⟩ | rfl <;> rfl
  | lock hc hp hmu =>
    refine ⟨h.toMutex.acquire hc hmu rfl, Slotted.withMutex (s := s.setPhase _ _) ?_ _⟩
    refine h.toSlotted.modify hc (fun hpending => ?_) rfl id (fun _ => by rw [hp]; rfl)
    -- the call does not hold `writeMu`, so the slot is not its own
    obtain ⟨d, hd, hreg⟩ := h.slot _ hpending
    rw [hc] at hd
    cases hd
    rw [hp] at hreg
    cases hreg
  | refuse hc hp | busy hc hp | aborted hc hp =>
    exact h.go hc (by rw [hp]; rfl) (by rw [hp]; rfl) rfl rfl nofun
  | check hc hp =>
    exact h.go hc (by rw [hp]; rfl) (by rw [hp]; rfl) rfl rfl (fun _ => by rw [hp]; rfl)
  | register hc hp =>
    have hmove := h.move (p := .writing) hc (by rw [hp]; rfl) (fun _ => rfl) rfl nofun
    exact ⟨⟨hmove.held, hmove.holder, hmove.detaching⟩, h.toSlotted.register hc hp⟩
  | write hc hp =>
    have hmove := h.move (p := .written) hc (by rw [hp]; rfl) (fun _ => rfl) rfl nofun
    exact hmove.of_targets rfl rfl Iff.rfl (.inl rfl) (.inr rfl) (.inr rfl)
  | writeReturns hc hp | writeFails hc hp | contextDone hc hp =>
    exact h.move hc (by rw [hp]; rfl) (fun _ => rfl) rfl nofun
  | drop hc hp | cancel hc hp =>
    exact h.clearPending.move hc (by rw [hp]; rfl) (fun hi => absurd hi (clearPending_ne s _)) rfl
      nofun
  | receive hc hp hr => exact h.receive hc hp hr
  | abortCall hc hp ha => exact h.abortCall hc hp ha
  | unlock hc hp =>
    refine ⟨h.toMutex.release hc (by rw [hp]; rfl) rfl, Slotted.withMutex (s := s.setPhase _ _) ?_ _⟩
    refine h.toSlotted.modify hc (fun hpending => ?_) rfl id nofun
    rw [h.pending_eq_none hc (by rw [hp]; rfl) (by rw [hp]; rfl)] at hpending
    cases hpending
  | readLine _ hr => exact h.readStep hr
  | @deliver i r next hl =>
    have hsend := h.send (i := i) (.inl (by rw [hl]; rfl)) r
    exact hsend.of_targets rfl rfl Iff.rfl (.inl rfl) (.inl (loopNext_target next)) (.inr rfl)
  | abortLoop hl ha => exact h.abortLoop hl ha
  | close hclose | skip hclose =>
    exact h.of_targets rfl rfl (iff_of_false nofun (by rw [hclose]; nofun)) (.inl rfl) (.inr rfl)
      (.inl rfl)
  | abortClose hclose ha => exact h.abortClose hclose ha
  | tryLock hclose hmu => exact h.tryLock hmu
  | detach hclose => exact h.unlockCloser hclose
  | closeTransport hclose =>
    exact h.of_targets rfl rfl (iff_of_false nofun (by rw [hclose]; nofun)) (.inl rfl) (.inr rfl) (.inl rfl)

end

end Locked

end Pandaemonium.Tmux.Client
