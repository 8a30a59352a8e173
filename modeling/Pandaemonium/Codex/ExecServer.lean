import Pandaemonium.Codex.Processes
import Pandaemonium.Codex.Rpc

/-!
# `Codex.ExecServer` — the exec-server client as one system

`ExecServerClient` is a JSON-RPC client (`Codex.Rpc`) and a set of process queues (`Codex.Processes`) driven by
one read loop. The loop delivers responses, pushes process notifications, and ends on a read error, a request
from the server or a notification it cannot decode: it then fails the pending requests once, and closes all
process queues. The transport may stay open and writable at that moment; only `Close` takes it away.

The machine puts the two components together with the writes (`writeMu` and the transport), the read loop and
`Close`. JSON decoding is left to the environment: a read carries the message and what the library makes of
its parameters.

* `projects` — each step is a step of the process queues or leaves them alone, so what `Codex.Processes` proves
  holds here (`exec_drained_of_admits`);
* `none_stranded_of_admits` — no written request outlives the read loop, provided no request is written
  while its channel is registered behind the loop's last `failPending`;
* `request_outlives_read_loop` — without that condition one does.
-/

namespace Pandaemonium.Codex.ExecServer

open List
open SortedMap (get?)

/-- The goroutines that send into response channels. -/
def loopThread : Nat := 0
def closeThread : Nat := 1

/-- Where the read loop is. -/
inductive LoopPhase where
  | reading
  /-- it leaves the loop with this error, before `failPending` -/
  | exiting (e : ExecError)
  /-- `failPending` has taken the map -/
  | failing (e : ExecError)
  /-- inside `closeAllProcessQueues` -/
  | closingQueues
  | ended
deriving DecidableEq, Repr

/-- Where `Close` is; `closeMu` admits one call at a time. -/
inductive ClosePhase where
  | idle
  | failing
  | closingQueues
  | queuesClosed
  /-- the transport is closed, `readDone` is waited for -/
  | waiting
deriving DecidableEq, Repr

/-- The client with its read loop and `Close`. -/
structure State where
  rpc : Rpc.State ExecError
  procs : Processes.State
  /-- the transport pointer is not nil -/
  transport : Bool
  /-- the request that is being written -/
  writeMu : Option Nat
  loop : LoopPhase
  close : ClosePhase
deriving DecidableEq, Repr

/-- How `readMessage` may fail. -/
inductive ReadFailure where
  | eof
  | other (message : Bytes)
  | invalidLine (message : Bytes)
deriving DecidableEq, Repr

def ReadFailure.error : ReadFailure → ExecError
  | .eof => .transportClosed (ascii "exec-server closed stdout")
  | .other message => .transport message
  | .invalidLine message => .transport (ascii "invalid JSON-RPC line " ++ message)

def closedError : ExecError := .transportClosed (ascii "exec-server is not running")

def processOutputMethod : Bytes := ascii "process/output"
def processExitedMethod : Bytes := ascii "process/exited"
def processClosedMethod : Bytes := ascii "process/closed"

/-- The method a notification type belongs to. -/
def notificationMethod : ProcessNotification → Bytes
  | .output .. => processOutputMethod
  | .exited .. => processExitedMethod
  | .closed .. => processClosedMethod

/-- `decodeExecServerProcessNotification` on what the library decodes the parameters to. -/
def decodeProcessNotification (method : Bytes) (decoded : Except Bytes ProcessNotification) :
    Except ExecError ProcessNotification :=
  match decoded with
  | .error reason => .error (.notificationDecode method reason)
  | .ok n =>
    if n.processIDValue = [] then .error (.notificationDecode method (ascii "missing processId"))
    else if n.seqValue = 0 then .error (.notificationDecode method (ascii "missing seq"))
    else .ok n

/-- The notification `routeNotification` is to push, if it is one of a process. -/
def routeNotification (method : Bytes) (decoded : Except Bytes ProcessNotification) :
    Except ExecError (Option ProcessNotification) :=
  if method = processOutputMethod ∨ method = processExitedMethod ∨ method = processClosedMethod then
    (decodeProcessNotification method decoded).map some
  else .ok none

/-- What the library may make of the parameters of a message: an error, or a value of the type that belongs
    to the method. -/
def Decodes (m : Rpc.Message) : Except Bytes ProcessNotification → Prop
  | .error _ => True
  | .ok n => notificationMethod n = m.method

instance (m : Rpc.Message) : ∀ decoded, Decidable (Decodes m decoded)
  | .error _ => isTrue trivial
  | .ok n => inferInstanceAs (Decidable (notificationMethod n = m.method))

/-- What a turn of the read loop does with a message. -/
inductive Turn where
  | exit (e : ExecError)
  | push (n : ProcessNotification)
  | ignore
  | deliver
deriving DecidableEq, Repr

/-- What the read loop makes of a message. -/
def readTurn (m : Rpc.Message) (decoded : Except Bytes ProcessNotification) : Turn :=
  if m.method ≠ [] ∧ m.id ≠ [] then .exit (.unexpectedServerRequest m.method)
  else if m.method ≠ [] then
    match routeNotification m.method decoded with
    | .error e => .exit e
    | .ok (some n) => .push n
    | .ok none => .ignore
  else .deliver

namespace State

def new : State :=
  { rpc := .new, procs := .new, transport := true, writeMu := none, loop := .reading, close := .idle }

/-- Goroutine `thread` has done the sends it was committed to. -/
def sendsDone (s : State) (thread : Nat) : Bool := s.rpc.sends.all (fun x => x.thread ≠ thread)

/-- The read loop is at its next read. -/
def AtRead (s : State) : Prop :=
  s.loop = .reading ∧ s.procs.handover = .idle ∧ s.sendsDone loopThread = true

instance (s : State) : Decidable s.AtRead :=
  inferInstanceAs (Decidable (_ ∧ _ ∧ _))

/-- A step of the JSON-RPC state. -/
def withRpc (s : State) (a : Rpc.Action ExecError) : Option State :=
  (Rpc.step s.rpc a).map (fun r => { s with rpc := r })

/-- A step of the process queues. -/
def withProcs (s : State) (a : Processes.Action) : Option State :=
  (Processes.step s.procs a).map (fun p => { s with procs := p })

end State

inductive Action where
  /-- a step of `requestRaw` other than its write -/
  | request (a : Rpc.Action ExecError)
  /-- `writeMessage` cannot encode the payload -/
  | encodeFails (i : Nat) (message : Bytes)
  /-- `writeMessage` takes `writeMu` -/
  | lockWrite (i : Nat)
  /-- `WriteJSON` returns -/
  | endWrite (i : Nat) (err : Option Bytes)
  /-- a send a goroutine is committed to -/
  | send (x : Rpc.Send ExecError)
  | readFails (f : ReadFailure)
  | read (m : Rpc.Message) (decoded : Except Bytes ProcessNotification)
  /-- the read loop inside `pushProcessNotification` -/
  | ensure
  | push
  /-- the read loop's `failPending` -/
  | loopFails
  /-- the read loop's `closeAllProcessQueues` -/
  | loopCloseAll
  | loopEnds
  /-- whoever is inside `closeAllProcessQueues` closes a queue -/
  | closeOne
  /-- `Close`, up to the critical section of its `failPending` -/
  | closeFails
  | closeCloseAll
  | closeClosedAll
  | closeTransport
  | closeReturns
  /-- `ProcessStart` returns a handle for the process named in the response to request `i` -/
  | start (i : Nat) (processID : Bytes)
  /-- a step of `NextNotification` on a handle, or of the client's `NextProcessNotification` -/
  | handle (a : Processes.Action)

/-- The steps of `requestRaw` that do not write. -/
def isRequestStep : Rpc.Action ExecError → Bool
  | .call _ | .register _ | .receive _ | .contextDone _ | .unregister _ => true
  | .writeSucceeds _ | .writeFails _ _ | .deliver _ _ | .fail _ _ | .send _ => false

/-- The steps of `NextNotification` and `NextProcessNotification`. -/
def isHandleStep : Processes.Action → Bool
  | .next _ | .lock _ | .wake _ | .contextDone _ | .closeEOF _ | .delete _ => true
  | .nextProcess _ | .callStep _ | .callContextDone _ => true
  | .receive _ | .ensure | .push | .closeAll _ | .closeOne | .closedAll | .start _ => false

/-- **A step of the client.** -/
def step (s : State) : Action → Option State
  | .request a => if isRequestStep a then s.withRpc a else none
  | .encodeFails i message =>
    if s.writeMu ≠ some i then s.withRpc (.writeFails i (.encode message)) else none
  | .lockWrite i =>
    match s.writeMu, s.rpc.calls[i]? with
    | none, some c =>
      if c.phase = .unwritten then
        if s.transport then some { s with writeMu := some i }
        else s.withRpc (.writeFails i closedError)
      else none
    | _, _ => none
  | .endWrite i err =>
    if s.writeMu = some i then
      match err with
      | none => ({ s with writeMu := none } : State).withRpc (.writeSucceeds i)
      | some message => ({ s with writeMu := none } : State).withRpc (.writeFails i (.transport message))
    else none
  | .send x => s.withRpc (.send x)
  | .readFails f => if s.AtRead then some { s with loop := .exiting f.error } else none
  | .read m decoded =>
    if s.AtRead ∧ Decodes m decoded then
      match readTurn m decoded with
      | .exit e => some { s with loop := .exiting e }
      | .push n => s.withProcs (.receive n)
      | .ignore => some s
      | .deliver => s.withRpc (.deliver loopThread m)
    else none
  | .ensure => s.withProcs .ensure
  | .push => s.withProcs .push
  | .loopFails =>
    match s.loop with
    | .exiting e => ({ s with loop := .failing e } : State).withRpc (.fail loopThread e)
    | _ => none
  | .loopCloseAll =>
    match s.loop with
    | .failing e =>
      if s.sendsDone loopThread then
        ({ s with loop := .closingQueues } : State).withProcs (.closeAll e)
      else none
    | _ => none
  | .loopEnds =>
    if s.loop = .closingQueues then ({ s with loop := .ended } : State).withProcs .closedAll else none
  | .closeOne => s.withProcs .closeOne
  | .closeFails =>
    if s.close = .idle then
      ({ s with close := .failing } : State).withRpc (.fail closeThread closedError)
    else none
  | .closeCloseAll =>
    if s.close = .failing ∧ s.sendsDone closeThread then
      ({ s with close := .closingQueues } : State).withProcs (.closeAll closedError)
    else none
  | .closeClosedAll =>
    if s.close = .closingQueues then
      ({ s with close := .queuesClosed } : State).withProcs .closedAll
    else none
  | .closeTransport =>
    if s.close = .queuesClosed ∧ s.writeMu = none then
      some { s with close := .waiting, transport := false }
    else none
  | .closeReturns =>
    if s.close = .waiting ∧ s.loop = .ended then some { s with close := .idle } else none
  | .start i processID =>
    -- the request has returned a response without an error
    if s.rpc.outcomes.any (fun o =>
        match o with
        | (j, .received (.msg _ m)) => j = i && m.error.isNone
        | _ => false) then
      s.withProcs (.start processID)
    else none
  | .handle a => if isHandleStep a then s.withProcs a else none

def machine : Machine State Action where
  init := .new
  step := step

/-! ## Process notifications -/

/-- The step of the process queues that an action takes. -/
def procAction (s : State) : Action → Option Processes.Action
  | .read m decoded =>
    match readTurn m decoded with
    | .push n => some (.receive n)
    | _ => none
  | .ensure => some .ensure
  | .push => some .push
  | .loopCloseAll =>
    match s.loop with
    | .failing e => some (.closeAll e)
    | _ => none
  | .loopEnds => some .closedAll
  | .closeOne => some .closeOne
  | .closeCloseAll => some (.closeAll closedError)
  | .closeClosedAll => some .closedAll
  | .start _ processID => some (.start processID)
  | .handle a => some a
  | _ => none

variable {s s' : State}

theorem withRpc_inv {a : Rpc.Action ExecError} (h : s.withRpc a = some s') :
    ∃ r, Rpc.step s.rpc a = some r ∧ s' = { s with rpc := r } := by
  obtain ⟨r, hr, rfl⟩ := Option.map_eq_some_iff.mp h
  exact ⟨r, hr, rfl⟩

theorem withProcs_inv {a : Processes.Action} (h : s.withProcs a = some s') :
    ∃ p, Processes.step s.procs a = some p ∧ s' = { s with procs := p } := by
  obtain ⟨p, hp, rfl⟩ := Option.map_eq_some_iff.mp h
  exact ⟨p, hp, rfl⟩

/-- The discipline of `Processes.Orderly`, for the steps the client takes on its queues. -/
def Orderly (s : State) (a : Action) : Prop :=
  ∀ pa ∈ procAction s a, Processes.Orderly s.procs pa

instance (s : State) (a : Action) : Decidable (Orderly s a) :=
  inferInstanceAs (Decidable (∀ pa ∈ procAction s a, Processes.Orderly s.procs pa))

/-- A call of `NextNotification` on the first handle. -/
def nextCall : List Action := [.handle (.next 0), .handle (.lock 0)]

/-- The read loop has failed the pending requests; it will not do so again. -/
def LoopPhase.Swapped : LoopPhase → Prop
  | .failing _ | .closingQueues | .ended => True
  | .reading | .exiting _ => False

instance : ∀ l : LoopPhase, Decidable l.Swapped
  | .failing _ | .closingQueues | .ended => isTrue trivial
  | .reading | .exiting _ => isFalse not_false

/-- **No request outlives the read loop**: with the loop ended, and `Close` not in the middle of its own
    `failPending`, every request whose write succeeded and that still waits has its answer in its channel. -/
def NoneStranded (s : State) : Prop :=
  s.loop = .ended → s.close ≠ .failing →
    ∀ c ∈ s.rpc.calls, c.phase = .waiting → c.chan ≠ none

/-- The condition on the writes: once the read loop has failed the pending requests, no write succeeds for a
    request whose channel is (still or newly) registered. Requests are fewer than 2^64. -/
def Answerable (s : State) : Action → Prop
  | .request (.call _) => s.rpc.calls.length + 1 < 2 ^ 64
  | .endWrite i none => s.loop.Swapped →
      ∀ c ∈ s.rpc.calls[i]?, get? s.rpc.responses c.id = none
  | _ => True

instance (s : State) (a : Action) : Decidable (Answerable s a) := by
  unfold Answerable
  split <;> infer_instance

structure Inv (s : State) : Prop where
  rpc : Rpc.Inv s.rpc
  bound : s.rpc.calls.length < 2 ^ 64
  /-- behind the loop's `failPending` no waiting request has its channel in the map -/
  swapped : s.loop.Swapped → AllAt s.rpc.calls fun i c => c.phase = .waiting →
    ∀ key, (key, i) ∉ s.rpc.responses
  threads : ∀ x ∈ s.rpc.sends, x.thread = loopThread ∨ x.thread = closeThread
  loopDone : s.loop = .closingQueues ∨ s.loop = .ended →
    ∀ x ∈ s.rpc.sends, x.thread ≠ loopThread
  closeDone : s.close ≠ .failing → ∀ x ∈ s.rpc.sends, x.thread ≠ closeThread

theorem inv_new : Inv State.new where
  rpc := Rpc.inv_new
  bound := by decide
  swapped := nofun
  threads := by intro x hx; cases hx
  loopDone := by intro _ x hx; cases hx
  closeDone := by intro _ x hx; cases hx

theorem Inv.noneStranded (hi : Inv s) : NoneStranded s := by
  intro hended hclose c hc hwait
  obtain ⟨i, hci⟩ := mem_iff_getElem?.mp hc
  refine hi.rpc.answered hci hwait (hi.swapped (by rw [hended]; trivial) i c hci hwait) ?_
  intro x hx
  rcases hi.threads x hx with hth | hth
  · exact absurd hth (hi.loopDone (Or.inr hended) x hx)
  · exact absurd hth (hi.closeDone hclose x hx)

theorem sendsDone_iff {thread : Nat} : s.sendsDone thread = true ↔ ∀ x ∈ s.rpc.sends, x.thread ≠ thread := by
  unfold State.sendsDone
  rw [all_eq_true]
  simp

/-- A step that leaves the JSON-RPC state alone. -/
theorem Inv.sameRpc (hi : Inv s) (hrpc : s'.rpc = s.rpc) (hswapped : s'.loop.Swapped → s.loop.Swapped)
    (hloop : s'.loop = .closingQueues ∨ s'.loop = .ended → ∀ x ∈ s.rpc.sends, x.thread ≠ loopThread)
    (hclose : s'.close ≠ .failing → ∀ x ∈ s.rpc.sends, x.thread ≠ closeThread) : Inv s' where
  rpc := hrpc ▸ hi.rpc
  bound := hrpc ▸ hi.bound
  swapped := by rw [hrpc]; exact fun h => hi.swapped (hswapped h)
  threads := by rw [hrpc]; exact hi.threads
  loopDone := by rw [hrpc]; exact hloop
  closeDone := by rw [hrpc]; exact hclose

/-- A step of the JSON-RPC state that neither reads nor fails: the requests' own steps, and the sends. -/
theorem Inv.requestStep {a : Rpc.Action ExecError} (hi : Inv s) (hstep : Rpc.step s.rpc a = some s'.rpc)
    (hloop : s'.loop = s.loop) (hclose : s'.close = s.close)
    (hcall : a = .call false → s.rpc.calls.length + 1 < 2 ^ 64) (hfail : ∀ thread e, a ≠ .fail thread e)
    (hdeliver : ∀ thread m, a ≠ .deliver thread m) (hwrite : s.loop.Swapped → ∀ i, a = .writeSucceeds i → ∀ c,
    s.rpc.calls[i]? = some c → get? s.rpc.responses c.id = none) : Inv s' := by
  have hsends : ∀ x ∈ s'.rpc.sends, x ∈ s.rpc.sends := by
    intro x hx
    rcases Rpc.send_of_step hstep hx with hx | ⟨m, rfl⟩ | ⟨e, rfl⟩
    · exact hx
    · exact absurd rfl (hdeliver _ _)
    · exact absurd rfl (hfail _ _)
  have hbound : s'.rpc.calls.length < 2 ^ 64 := by
    rcases Rpc.length_of_step hstep with h | ⟨ha, h⟩
    · rw [h]
      exact hi.bound
    · rw [h]
      exact hcall ha
  refine ⟨Rpc.inv_step hi.rpc hi.bound hstep, hbound, ?_, fun x hx => hi.threads x (hsends x hx), ?_, ?_⟩
  · intro hsw i c' hc' hwait key he
    rw [hloop] at hsw
    -- an entry that is new belongs to a call that is still to be written
    rcases Rpc.entry_of_step hstep he with he | ⟨d, hd, hphase⟩
    · by_cases hws : ∃ j, a = .writeSucceeds j
      · obtain ⟨j, rfl⟩ := hws
        obtain ⟨c, hc, _, hs'⟩ := Rpc.writeSucceeds_inv hstep
        rw [hs'] at hc'
        by_cases hij : j = i
        · -- the request that has just been written has no entry
          subst hij
          have hkey := ((hi.rpc.calls j c hc).entry key he).1
          exact SortedMap.ne_of_get?_none (hwrite hsw j rfl c hc) _ he hkey
        · have hold : s.rpc.calls[i]? = some c' := by
            rw [← hc']
            show _ = (s.rpc.calls.modify j _)[i]?
            rw [getElem?_modify]
            simp [hij]
          exact hi.swapped hsw i c' hold hwait key he
      · obtain ⟨c, hc, hw⟩ := Rpc.waiting_of_step hstep (fun j hj => hws ⟨j, hj⟩) i c' hc' hwait
        exact hi.swapped hsw i c hc hw key he
    · rw [hc'] at hd
      cases hd
      rw [hwait] at hphase
      cases hphase
  · rw [hloop]
    exact fun h x hx => hi.loopDone h x (hsends x hx)
  · rw [hclose]
    exact fun h x hx => hi.closeDone h x (hsends x hx)

/-- The read loop delivers a response. -/
theorem Inv.deliverStep {m : Rpc.Message} (hi : Inv s) (hread : s.loop = .reading)
    (hstep : Rpc.step s.rpc (.deliver loopThread m) = some s'.rpc) (hloop : s'.loop = s.loop)
    (hclose : s'.close = s.close) : Inv s' := by
  have hsends : ∀ x ∈ s'.rpc.sends, x ∈ s.rpc.sends ∨ x.thread = loopThread := by
    intro x hx
    rcases Rpc.send_of_step hstep hx with hx | ⟨m', hm⟩ | ⟨e, he⟩
    · exact Or.inl hx
    · exact Or.inr (Rpc.Action.deliver.inj hm).1.symm
    · cases he
  have hcalls : s'.rpc.calls = s.rpc.calls := by
    have := Option.some.inj hstep
    rw [← this]
    unfold Rpc.State.deliverResponse
    split <;> rfl
  refine ⟨Rpc.inv_step hi.rpc hi.bound hstep, hcalls ▸ hi.bound, ?_, ?_, ?_, ?_⟩
  · intro hsw
    rw [hloop, hread] at hsw
    cases hsw
  · intro x hx
    exact (hsends x hx).elim (hi.threads x) Or.inl
  · intro h
    rw [hloop, hread] at h
    rcases h with h | h <;> cases h
  · rw [hclose]
    intro h x hx
    rcases hsends x hx with hx | hth
    · exact hi.closeDone h x hx
    · rw [hth]
      decide

/-- `failPending` of the read loop or of `Close`: the map is empty afterwards. -/
theorem Inv.failStep {thread : Nat} {e : ExecError} (hi : Inv s)
    (hstep : Rpc.step s.rpc (.fail thread e) = some s'.rpc)
    (hthread : thread = loopThread ∨ thread = closeThread) (hloop : s'.loop = .closingQueues ∨ s'.loop = .ended
    → (s.loop = .closingQueues ∨ s.loop = .ended) ∧ thread ≠ loopThread)
    (hclose : s'.close ≠ .failing → s.close ≠ .failing ∧ thread ≠ closeThread) : Inv s' := by
  have hrpc : s'.rpc = s.rpc.failPending thread e := (Option.some.inj hstep).symm
  have hsends : ∀ x ∈ s'.rpc.sends, x ∈ s.rpc.sends ∨ x.thread = thread := by
    intro x hx
    rcases Rpc.send_of_step hstep hx with hx | ⟨m, hm⟩ | ⟨e', he⟩
    · exact Or.inl hx
    · cases hm
    · exact Or.inr (Rpc.Action.fail.inj he).1.symm
  refine ⟨Rpc.inv_step hi.rpc hi.bound hstep, ?_, ?_, ?_, ?_, ?_⟩
  · rw [hrpc]
    exact hi.bound
  · intro _ i c _ _ key he
    rw [hrpc] at he
    cases he
  · intro x hx
    rcases hsends x hx with hx | hth
    · exact hi.threads x hx
    · rw [hth]
      exact hthread
  · intro h x hx
    obtain ⟨hl, hne⟩ := hloop h
    rcases hsends x hx with hx | hth
    · exact hi.loopDone hl x hx
    · rw [hth]
      exact hne
  · intro h x hx
    obtain ⟨hc, hne⟩ := hclose h
    rcases hsends x hx with hx | hth
    · exact hi.closeDone hc x hx
    · rw [hth]
      exact hne

theorem inv_step {a : Action} (hi : Inv s) (hok : Answerable s a) (hstep : step s a = some s') : Inv s' := by
  -- a step of the process queues only
  have hprocs : ∀ {s₀ : State} {pa}, s₀.withProcs pa = some s' → s₀.rpc = s.rpc →
      s₀.close = s.close → s₀.loop = s.loop → Inv s' := by
    intro s₀ pa h hr hc hl
    obtain ⟨p, _, rfl⟩ := withProcs_inv h
    refine hi.sameRpc hr ?_ ?_ ?_
    · exact fun h => hl ▸ h
    · exact fun h => hi.loopDone (hl ▸ h)
    · exact fun h => hi.closeDone (hc ▸ h)
  -- a write that fails
  have hfails : ∀ {s₀ : State} {i e}, s₀.withRpc (.writeFails i e) = some s' → s₀.rpc = s.rpc →
      s₀.close = s.close → s₀.loop = s.loop → Inv s' := by
    intro s₀ i e h hr hc hl
    obtain ⟨r, hr', rfl⟩ := withRpc_inv h
    rw [hr] at hr'
    exact hi.requestStep hr' hl hc (by simp) (by simp) (by simp) (by simp)
  cases a
  all_goals simp only [step] at hstep
  case request ra =>
    split at hstep
    · rename_i hreq
      obtain ⟨r, hr, rfl⟩ := withRpc_inv hstep
      refine hi.requestStep hr rfl rfl ?_ ?_ ?_ ?_
      · rintro rfl
        exact hok
      · rintro thread e rfl
        cases hreq
      · rintro thread m rfl
        cases hreq
      · rintro _ i rfl
        cases hreq
    · cases hstep
  case encodeFails i message =>
    split at hstep
    · exact hfails hstep rfl rfl rfl
    · cases hstep
  case lockWrite i =>
    split at hstep
    · split at hstep
      · split at hstep
        · cases hstep
          exact hi.sameRpc rfl id hi.loopDone hi.closeDone
        · exact hfails hstep rfl rfl rfl
      · cases hstep
    · cases hstep
  case endWrite i err =>
    split at hstep
    · split at hstep
      · obtain ⟨r, hr, rfl⟩ := withRpc_inv hstep
        refine hi.requestStep hr rfl rfl (by simp) (by simp) (by simp) ?_
        intro hsw j hj c hc
        cases hj
        exact hok hsw c hc
      · exact hfails hstep rfl rfl rfl
    · cases hstep
  case send x =>
    obtain ⟨r, hr, rfl⟩ := withRpc_inv hstep
    exact hi.requestStep hr rfl rfl (by simp) (by simp) (by simp) (by simp)
  case readFails f =>
    split at hstep <;> cases hstep
    exact hi.sameRpc rfl (fun h => by cases h) (by rintro (h | h) <;> cases h) hi.closeDone
  case read m decoded =>
    split at hstep
    · rename_i hread
      split at hstep
      · cases hstep
        exact hi.sameRpc rfl (fun h => by cases h) (by rintro (h | h) <;> cases h) hi.closeDone
      · exact hprocs hstep rfl rfl rfl
      · cases hstep
        exact hi
      · obtain ⟨r, hr, rfl⟩ := withRpc_inv hstep
        exact hi.deliverStep hread.1.1 hr rfl rfl
    · cases hstep
  case ensure | push | closeOne => exact hprocs hstep rfl rfl rfl
  case loopFails =>
    split at hstep
    · obtain ⟨r, hr, rfl⟩ := withRpc_inv hstep
      refine hi.failStep hr (Or.inl rfl) (by rintro (h | h) <;> cases h) ?_
      exact fun h => ⟨h, by decide⟩
    · cases hstep
  case loopCloseAll =>
    split at hstep
    · rename_i e hloop
      split at hstep
      · rename_i hdone
        obtain ⟨p, _, rfl⟩ := withProcs_inv hstep
        refine hi.sameRpc rfl ?_ (fun _ => sendsDone_iff.mp hdone) hi.closeDone
        intro _
        rw [hloop]
        trivial
      · cases hstep
    · cases hstep
  case loopEnds =>
    split at hstep
    · rename_i hloop
      obtain ⟨p, _, rfl⟩ := withProcs_inv hstep
      refine hi.sameRpc rfl ?_ (fun _ => hi.loopDone (Or.inl hloop)) hi.closeDone
      intro _
      rw [hloop]
      trivial
    · cases hstep
  case closeFails =>
    split at hstep
    · obtain ⟨r, hr, rfl⟩ := withRpc_inv hstep
      refine hi.failStep hr (Or.inr rfl) (fun h => ⟨h, by decide⟩) ?_
      exact fun h => absurd rfl h
    · cases hstep
  case closeCloseAll =>
    split at hstep
    · rename_i hc
      obtain ⟨p, _, rfl⟩ := withProcs_inv hstep
      exact hi.sameRpc rfl id hi.loopDone (fun _ => sendsDone_iff.mp hc.2)
    · cases hstep
  case closeClosedAll =>
    split at hstep
    · rename_i hc
      obtain ⟨p, _, rfl⟩ := withProcs_inv hstep
      exact hi.sameRpc rfl id hi.loopDone (fun _ => hi.closeDone (by rw [hc]; decide))
    · cases hstep
  case closeTransport | closeReturns =>
    split at hstep <;> cases hstep
    rename_i hc
    exact hi.sameRpc rfl id hi.loopDone (fun _ => hi.closeDone (by rw [hc.1]; decide))
  case start i processID | handle pa =>
    split at hstep
    · exact hprocs hstep rfl rfl rfl
    · cases hstep

/-- **No request outlives the read loop**, in every run whose successful writes meet the condition. -/
theorem none_stranded_of_admits {as : List Action} {s : State} (has : machine.Admits Answerable machine.init as)
    (hrun : machine.run as = some s) : NoneStranded s :=
  (Machine.admits_invariant inv_new (fun _ _ _ => inv_step) has hrun).noneStranded

/-- A request written before the stream ends is answered by the loop's `failPending`. -/
theorem none_stranded_at_eof :
    ∃ s, machine.run [.request (.call false), .request (.register 0), .lockWrite 0, .endWrite 0 none,
        .readFails .eof, .loopFails, .send ⟨loopThread, 0, .err ReadFailure.eof.error⟩, .loopCloseAll,
        .loopEnds] = some s ∧
      s.loop = .ended ∧ s.rpc.calls.map Rpc.Call.phase = [.waiting] ∧ NoneStranded s := by
  refine Machine.exists_run_and (by decide +kernel) ?_
  refine Machine.exists_run_and (by decide +kernel) ?_
  exact Machine.exists_run (by decide +kernel) (fun _ hrun => none_stranded_of_admits (by decide +kernel) hrun)

/-- **A request outlives the read loop.** The loop has ended over a request from the server, with the
    transport still open: the client's next request is registered and written, and nobody is left to answer
    it. -/
theorem request_outlives_read_loop :
    ∃ s, machine.run [.read ⟨ascii "1", ascii "ask", [], [], none⟩ (.error []), .loopFails,
        .loopCloseAll, .loopEnds, .request (.call false), .request (.register 0), .lockWrite 0,
        .endWrite 0 none] = some s ∧
      s.loop = .ended ∧ s.close = .idle ∧ s.rpc.sends = [] ∧
      s.rpc.calls = [⟨ascii "go-sdk-1", .waiting, none⟩] ∧ ¬ NoneStranded s := by
  have hrun : (machine.run [.read ⟨ascii "1", ascii "ask", [], [], none⟩ (.error []), .loopFails,
        .loopCloseAll, .loopEnds, .request (.call false), .request (.register 0), .lockWrite 0,
        .endWrite 0 none]).map (fun s => (s.loop, s.close, s.rpc.sends, s.rpc.calls)) =
      some (.ended, .idle, [], [⟨ascii "go-sdk-1", .waiting, none⟩]) := by decide +kernel
  obtain ⟨s, hs, hp⟩ := Option.map_eq_some_iff.mp hrun
  simp only [Prod.mk.injEq] at hp
  obtain ⟨hloop, hclose, hsends, hcalls⟩ := hp
  refine ⟨s, hs, hloop, hclose, hsends, hcalls, ?_⟩
  intro hn
  refine hn hloop (by rw [hclose]; nofun) ⟨ascii "go-sdk-1", .waiting, none⟩ ?_ rfl rfl
  rw [hcalls]
  exact mem_singleton_self _

end Pandaemonium.Codex.ExecServer
