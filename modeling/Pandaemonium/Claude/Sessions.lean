import Pandaemonium.Lib.Machine

/-!
# `Claude.Sessions` — control requests and the transport they are written to

A client that has been closed may be started again by the next `Query`: `start` then assigns a new transport
and a new control protocol, and launches a read loop that feeds the one from the other. `controlRequest` reads
`c.cp` under `closeMu` and releases it; the request is registered in that protocol and written later, by
`writeMessage`, to whatever `c.transport` is then, under `writeMu`.

The machine has one action for each critical section, for the two assignments of `start`, and for the two ends of
a write. Threads are calls of `controlRequest`, `Query` and `Close`, numbered as they enter; transports and
protocols are numbered as they are made. A write may succeed or fail, and a request may end at any time after it.

* `OwnTransport` — every control request that was written went to a transport whose read loop feeds the protocol
  it is registered in;
* `ownTransport_of_exclusive` — it holds in every run in which no `start` takes place between the reading of
  `c.cp` and the write of a control request (`Exclusive`);
* `request_crosses_sessions` — a `Close` and a `Query` between the two, and the request goes to the new process
  while its waiter listens to the old one.
-/

namespace Pandaemonium.Claude.Sessions

open List

/-- Who calls `sendControlRequest`. -/
inductive Caller where
  | controlRequest
  /-- `initialize`, inside `launchSubprocess`, with `closeMu` held -/
  | launch
deriving DecidableEq, Repr

/-- Where a call is. -/
inductive Phase where
  /-- `controlRequest`, before it has `closeMu` -/
  | requesting
  /-- `controlRequest` with the protocol it has read -/
  | snapshotted (cp : Nat)
  /-- `sendControlRequest`, registered, before `writeMessage` has `writeMu` -/
  | registered (caller : Caller) (cp : Nat)
  /-- in `WriteJSON` of the transport, holding `writeMu` -/
  | writing (caller : Caller) (cp transport : Nat)
  /-- in the `select` of `sendControlRequest` -/
  | awaiting (caller : Caller)
  /-- `Query`, before it has `closeMu` -/
  | querying
  /-- `launchSubprocess`, before `start` -/
  | launching
  /-- `start`, with `c.transport` assigned and `c.cp` not yet -/
  | starting
  /-- after `start`, before `initialize` registers its request -/
  | initializing (cp : Nat)
  /-- `Query`, before `writeMessage` has `writeMu` for the prompt -/
  | prompting
  | promptWriting
  /-- `Close`, before it has `closeMu` -/
  | closing
  /-- `Close` with the transport closed, before it has `writeMu` -/
  | clearing
  | finished
deriving DecidableEq, Repr

structure State where
  transport : Option Nat
  cp : Option Nat
  /-- the thread that holds the mutex, where it is held over several steps -/
  closeMu : Option Nat
  writeMu : Option Nat
  /-- how many have been made -/
  transports : Nat
  protocols : Nat
  /-- the arguments the read loops were launched with -/
  readLoops : List (Option Nat × Nat)
  threads : List Phase
  /-- protocol and transport of every control request whose write succeeded -/
  written : List (Nat × Nat)
deriving DecidableEq, Repr

namespace State

def goto (s : State) (i : Nat) (ph : Phase) : State := { s with threads := s.threads.set i ph }

/-- The call returns, `closeMu` being released where it is a launch. -/
def leave (s : State) (i : Nat) : Caller → State
  | .controlRequest => s.goto i .finished
  | .launch => { s.goto i .finished with closeMu := none }

/-- `writeMessage` up to the write, for a control request. -/
def writeRequest (s : State) (i : Nat) (caller : Caller) (cp : Nat) : State :=
  match s.transport with
  | none => s.leave i caller
  | some t => { s.goto i (.writing caller cp t) with writeMu := some i }

/-- `writeMessage` up to the write, for a prompt. -/
def writePrompt (s : State) (i : Nat) : State :=
  match s.transport with
  | none => s.goto i .finished
  | some _ => { s.goto i .promptWriting with writeMu := some i }

/-- `Query` with `closeMu`: a running client goes on to the prompt. -/
def query (s : State) (i : Nat) : State :=
  match s.transport with
  | none => { s.goto i .launching with closeMu := some i }
  | some _ => s.goto i .prompting

/-- `Close` with `closeMu`: nothing is to be done for a client that does not run. -/
def close (s : State) (i : Nat) : State :=
  match s.transport with
  | none => s.goto i .finished
  | some _ => { s.goto i .clearing with closeMu := some i }

/-- `start`, its first half: `c.transport = t`. -/
def assignTransport (s : State) (i : Nat) : State :=
  { s.goto i .starting with transport := some s.transports, transports := s.transports + 1 }

/-- `start`, its second half: the new protocol, and the read loop between the two. -/
def assignProtocol (s : State) (i : Nat) : State :=
  { s.goto i (.initializing s.protocols) with
    cp := some s.protocols
    protocols := s.protocols + 1
    readLoops := (s.transport, s.protocols) :: s.readLoops }

end State

inductive Action where
  | controlRequest
  | query
  | close
  /-- `controlRequest` reads `c.cp` under `closeMu` -/
  | snapshot (i : Nat)
  | register (i : Nat)
  /-- `writeMessage` takes `writeMu` -/
  | lockWrite (i : Nat)
  | endWrite (i : Nat) (succeeds : Bool)
  /-- the `select` of `sendControlRequest` is over; `succeeds` where `initialize` has no error -/
  | endRequest (i : Nat) (succeeds : Bool)
  | lockQuery (i : Nat)
  /-- `launchSubprocess` fails before `start` -/
  | launchFails (i : Nat)
  | assignTransport (i : Nat)
  | assignProtocol (i : Nat)
  | lockClose (i : Nat)
  /-- `Close` clears the transport under `writeMu` and releases both -/
  | clear (i : Nat)
deriving DecidableEq, Repr

def step (s : State) : Action → Option State
  | .controlRequest => some { s with threads := s.threads ++ [.requesting] }
  | .query => some { s with threads := s.threads ++ [.querying] }
  | .close => some { s with threads := s.threads ++ [.closing] }
  | .snapshot i =>
    match s.threads[i]? with
    | some .requesting =>
      if s.closeMu = none then
        match s.cp with
        | none => some (s.goto i .finished)
        | some p => some (s.goto i (.snapshotted p))
      else none
    | _ => none
  | .register i =>
    match s.threads[i]? with
    | some (.snapshotted p) => some (s.goto i (.registered .controlRequest p))
    | some (.initializing p) => some (s.goto i (.registered .launch p))
    | _ => none
  | .lockWrite i =>
    match s.threads[i]? with
    | some (.registered caller p) =>
      if s.writeMu = none then some (s.writeRequest i caller p) else none
    | some .prompting => if s.writeMu = none then some (s.writePrompt i) else none
    | _ => none
  | .endWrite i succeeds =>
    match s.threads[i]? with
    | some (.writing caller p t) =>
      if succeeds then
        some { s.goto i (.awaiting caller) with writeMu := none, written := (p, t) :: s.written }
      else some { s.leave i caller with writeMu := none }
    | some .promptWriting => some { s.goto i .finished with writeMu := none }
    | _ => none
  | .endRequest i succeeds =>
    match s.threads[i]? with
    | some (.awaiting .controlRequest) => some (s.goto i .finished)
    | some (.awaiting .launch) =>
      some { s.goto i (if succeeds then .prompting else .finished) with closeMu := none }
    | _ => none
  | .lockQuery i =>
    match s.threads[i]? with
    | some .querying => if s.closeMu = none then some (s.query i) else none
    | _ => none
  | .launchFails i =>
    match s.threads[i]? with
    | some .launching => some (s.leave i .launch)
    | _ => none
  | .assignTransport i =>
    match s.threads[i]? with
    | some .launching => some (s.assignTransport i)
    | _ => none
  | .assignProtocol i =>
    match s.threads[i]? with
    | some .starting => some (s.assignProtocol i)
    | _ => none
  | .lockClose i =>
    match s.threads[i]? with
    | some .closing => if s.closeMu = none then some (s.close i) else none
    | _ => none
  | .clear i =>
    match s.threads[i]? with
    | some .clearing =>
      if s.writeMu = none then some { s.goto i .finished with transport := none, closeMu := none }
      else none
    | _ => none

/-- A client that has never run. -/
def machine : Machine State Action where
  init :=
    { transport := none, cp := none, closeMu := none, writeMu := none, transports := 0, protocols := 0
      readLoops := [], threads := [], written := [] }
  step := step

/-! ## The property and its condition -/

/-- Every control request that was written went to a transport whose read loop feeds its protocol. -/
def OwnTransport (s : State) : Prop := ∀ w ∈ s.written, (some w.2, w.1) ∈ s.readLoops

/-- A `controlRequest` call that has read `c.cp` and not come to its write yet. -/
def Phase.isUnwritten : Phase → Bool
  | .snapshotted _ | .registered .controlRequest _ => true
  | _ => false

/-- `start` finds no control request between the reading of `c.cp` and its write. -/
def Exclusive (s : State) : Action → Prop
  | .assignTransport _ => ∀ ph ∈ s.threads, ph.isUnwritten = false
  | _ => True

instance (s : State) (a : Action) : Decidable (Exclusive s a) := by
  cases a <;> dsimp only [Exclusive] <;> infer_instance

/-! ## The invariant -/

/-- The call holds `closeMu`. -/
def Phase.HoldsClose : Phase → Prop
  | .registered .launch _ | .writing .launch _ _ | .awaiting .launch => True
  | .launching | .starting | .initializing _ | .clearing => True
  | _ => False

/-- What a call has in hand: a protocol it is going to write for is fed from the transport in place, if
    any, and a transport it is writing to feeds the protocol. -/
def Phase.Fed (s : State) : Phase → Prop
  | .snapshotted p | .registered _ p | .initializing p =>
    ∀ t, s.transport = some t → (some t, p) ∈ s.readLoops
  | .writing _ p t => (some t, p) ∈ s.readLoops
  | _ => True

structure ThreadOk (s : State) (i : Nat) (ph : Phase) : Prop where
  holds : ph.HoldsClose → s.closeMu = some i
  fed : ph.Fed s

structure Inv (s : State) : Prop where
  threads : AllAt s.threads (ThreadOk s)
  /-- outside `start` the transport and the protocol in place belong together -/
  paired : (∀ ph ∈ s.threads, ph ≠ .starting) →
    ∀ t p, s.transport = some t → s.cp = some p → (some t, p) ∈ s.readLoops
  own : OwnTransport s

theorem inv_init : Inv machine.init where
  threads := AllAt.nil
  paired := by intro _ t p ht; cases ht
  own := by intro w hw; cases hw

section

variable {s s' : State} {i j : Nat} {ph ph' : Phase}

theorem Phase.Fed.mono (h : ph.Fed s) (ht : ∀ t, s'.transport = some t → s.transport = some t)
    (hr : ∀ l ∈ s.readLoops, l ∈ s'.readLoops) : ph.Fed s' := by
  cases ph with
  | snapshotted p | registered caller p | initializing p => exact fun t h' => hr _ (h t (ht t h'))
  | writing caller p t => exact hr _ h
  | _ => exact trivial

/-- Only one call is inside `closeMu`. -/
theorem Inv.holder (hi : Inv s) (h : s.threads[i]? = some ph) (h' : s.threads[j]? = some ph')
    (hph : ph.HoldsClose) (hph' : ph'.HoldsClose) : i = j := by
  have hc := (hi.threads i ph h).holds hph
  rw [(hi.threads j ph' h').holds hph'] at hc
  exact (Option.some.inj hc).symm

/-- With `closeMu` free nobody is in `start`. -/
theorem Inv.not_starting (hi : Inv s) (hfree : s.closeMu = none) : ∀ ph ∈ s.threads, ph ≠ .starting := by
  rintro ph hph rfl
  obtain ⟨j, hj⟩ := mem_iff_getElem?.mp hph
  have hc := (hi.threads j _ hj).holds trivial
  rw [hfree] at hc
  cases hc

/-- A call enters. -/
theorem Inv.enter (hi : Inv s) (hph : ¬ ph.HoldsClose) (hfed : ph.Fed s) :
    Inv { s with threads := s.threads ++ [ph] } where
  threads := by
    refine AllAt.concat ?_ ⟨fun h => absurd h hph, hfed.mono (fun _ h => h) (fun _ h => h)⟩
    intro j ph' hj
    have hok := hi.threads j ph' hj
    exact ⟨hok.holds, hok.fed.mono (fun _ h => h) (fun _ h => h)⟩
  paired h := hi.paired (fun ph' hph' => h ph' (mem_append_left _ hph'))
  own := hi.own

/-- A call moves on: `closeMu` stays with whoever else holds it, no transport comes into place, and the read
    loops stay. -/
theorem Inv.goto (hi : Inv s) (hth : s'.threads = s.threads.set i ph')
    (hclose : ∀ j ph, j ≠ i → s.threads[j]? = some ph → ph.HoldsClose → s'.closeMu = some j)
    (ht : ∀ t, s'.transport = some t → s.transport = some t) (hr : ∀ l ∈ s.readLoops, l ∈ s'.readLoops)
    (hown : ThreadOk s' i ph') (hpaired : (∀ ph ∈ s'.threads, ph ≠ .starting) → ∀ t p, s'.transport = some t →
    s'.cp = some p → (some t, p) ∈ s'.readLoops) (hwritten : OwnTransport s') : Inv s' where
  threads := by
    rw [hth]
    refine AllAt.set (fun _ => hown) ?_
    intro j d hj hd
    exact ⟨hclose j d hj hd, (hi.threads j d hd).fed.mono ht hr⟩
  paired := hpaired
  own := hwritten

/-- The transport and the protocol in place are as before, and the call was not in `start`. -/
theorem Inv.paired_goto (hi : Inv s) (hph : s.threads[i]? = some ph) (hne : ph ≠ .starting)
    (hth : s'.threads = s.threads.set i ph') (ht : ∀ t, s'.transport = some t → s.transport = some t)
    (hcp : s'.cp = s.cp) (hr : s'.readLoops = s.readLoops) :
    (∀ ph ∈ s'.threads, ph ≠ .starting) →
      ∀ t p, s'.transport = some t → s'.cp = some p → (some t, p) ∈ s'.readLoops := by
  intro hnone t p htr hp
  rw [hr]
  refine hi.paired ?_ t p (ht t htr) (hcp ▸ hp)
  rintro d hd rfl
  obtain ⟨j, hj⟩ := mem_iff_getElem?.mp hd
  have hij : i ≠ j := by
    rintro rfl
    rw [hph] at hj
    exact hne (Option.some.inj hj)
  refine hnone .starting (mem_iff_getElem?.mpr ⟨j, ?_⟩) rfl
  rw [hth, getElem?_set_ne hij, hj]

/-- A step of one call that leaves transport, protocol and read loops in place. -/
theorem Inv.move (hi : Inv s) (hph : s.threads[i]? = some ph) (hne : ph ≠ .starting)
    (hth : s'.threads = s.threads.set i ph') (ht : s'.transport = s.transport) (hcp : s'.cp = s.cp)
    (hr : s'.readLoops = s.readLoops)
    (hclose : ∀ j ph, j ≠ i → s.threads[j]? = some ph → ph.HoldsClose → s'.closeMu = some j)
    (hown : ThreadOk s' i ph') (hwritten : OwnTransport s') : Inv s' :=
  hi.goto hth hclose (fun _ h => ht ▸ h) (fun _ h => hr ▸ h) hown
    (hi.paired_goto hph hne hth (fun _ h => ht ▸ h) hcp hr) hwritten

/-! The three things that may happen to `closeMu`. -/

theorem Inv.close_kept (hi : Inv s) (hc : s'.closeMu = s.closeMu) :
    ∀ j ph, j ≠ i → s.threads[j]? = some ph → ph.HoldsClose → s'.closeMu = some j :=
  fun j ph _ hj hh => hc.trans ((hi.threads j ph hj).holds hh)

theorem Inv.close_taken (hi : Inv s) (hfree : s.closeMu = none) :
    ∀ j ph, j ≠ i → s.threads[j]? = some ph → ph.HoldsClose → s'.closeMu = some j := by
  intro j d _ hd hh
  have hc := (hi.threads j d hd).holds hh
  rw [hfree] at hc
  cases hc

theorem Inv.close_released (hi : Inv s) (hph : s.threads[i]? = some ph) (hh : ph.HoldsClose) :
    ∀ j ph, j ≠ i → s.threads[j]? = some ph → ph.HoldsClose → s'.closeMu = some j :=
  fun _ _ hj hd hd' => absurd (hi.holder hd hph hd' hh) hj

end

/-! ## Every action keeps it -/

section

variable {s : State} {i : Nat} {p t : Nat} {caller : Caller}

theorem inv_snapshot (hi : Inv s) (hph : s.threads[i]? = some .requesting) (hfree : s.closeMu = none)
    (hp : s.cp = some p) : Inv (s.goto i (.snapshotted p)) := by
  refine hi.move hph nofun rfl rfl rfl rfl (hi.close_kept rfl) ⟨nofun, ?_⟩ hi.own
  -- `closeMu` is free, so `start` is not half done
  intro t ht
  exact hi.paired (hi.not_starting hfree) t p ht hp

/-- A call ends without holding `closeMu`. -/
theorem inv_finish {ph : Phase} (hi : Inv s) (hph : s.threads[i]? = some ph) (hne : ph ≠ .starting) :
    Inv (s.goto i .finished) :=
  hi.move hph hne rfl rfl rfl rfl (hi.close_kept rfl) ⟨nofun, trivial⟩ hi.own

theorem inv_leave {ph : Phase} (hi : Inv s) (hph : s.threads[i]? = some ph) (hne : ph ≠ .starting)
    (hh : caller = .launch → ph.HoldsClose) : Inv (s.leave i caller) := by
  cases caller with
  | controlRequest => exact inv_finish hi hph hne
  | launch =>
    exact hi.move hph hne rfl rfl rfl rfl (hi.close_released hph (hh rfl)) ⟨nofun, trivial⟩ hi.own

theorem inv_writeRequest (hi : Inv s) (hph : s.threads[i]? = some (.registered caller p)) :
    Inv (s.writeRequest i caller p) := by
  have hok := hi.threads i _ hph
  unfold State.writeRequest
  split
  · exact inv_leave hi hph nofun (by rintro rfl; trivial)
  rename_i t ht
  refine hi.move hph nofun rfl rfl rfl rfl (hi.close_kept rfl) ⟨?_, hok.fed t ht⟩ hi.own
  intro hh
  refine hok.holds ?_
  cases caller with
  | controlRequest => exact hh
  | launch => trivial

theorem inv_endWrite {succeeds : Bool} (hi : Inv s) (hph : s.threads[i]? = some (.writing caller p t)) :
    Inv (if succeeds then
        { s.goto i (.awaiting caller) with writeMu := none, written := (p, t) :: s.written }
      else { s.leave i caller with writeMu := none }) := by
  have hok := hi.threads i _ hph
  split
  · refine hi.move hph nofun rfl rfl rfl rfl (hi.close_kept rfl) ⟨?_, trivial⟩ ?_
    · intro hh
      refine hok.holds ?_
      cases caller with
      | controlRequest => exact hh
      | launch => trivial
    · intro w hw
      rcases mem_cons.mp hw with rfl | hw
      · exact hok.fed
      · exact hi.own w hw
  · have hl : Inv (s.leave i caller) := inv_leave hi hph nofun (by rintro rfl; trivial)
    refine ⟨?_, hl.paired, hl.own⟩
    intro j d hd
    have hd' := hl.threads j d hd
    exact ⟨hd'.holds, hd'.fed.mono (fun _ h => h) (fun _ h => h)⟩

/-- **The step that needs the condition**: a new transport comes into place, and no control request that has
    read `c.cp` is still to be written. -/
theorem inv_assignTransport (hi : Inv s) (hph : s.threads[i]? = some .launching)
    (hex : ∀ ph ∈ s.threads, ph.isUnwritten = false) : Inv (s.assignTransport i) where
  threads := by
    refine AllAt.set (fun _ => ⟨fun _ => (hi.threads i _ hph).holds trivial, trivial⟩) ?_
    intro j d hj hd
    have hok := hi.threads j d hd
    refine ⟨hok.holds, ?_⟩
    have hwritten := hex d (mem_of_getElem? hd)
    -- a launch that is still to write would hold `closeMu` as well
    have hlaunch : ¬ d.HoldsClose := fun hh => hj (hi.holder hd hph hh trivial)
    cases d with
    | snapshotted p => cases hwritten
    | registered caller p =>
      cases caller with
      | controlRequest => cases hwritten
      | launch => exact absurd trivial hlaunch
    | initializing p => exact absurd trivial hlaunch
    | writing caller p t => exact hok.fed
    | _ => exact trivial
  paired h := by
    refine absurd rfl (h .starting (mem_iff_getElem?.mpr ⟨i, ?_⟩))
    exact getElem?_set_self (List.getElem?_eq_some_iff.mp hph).1
  own := hi.own

theorem inv_assignProtocol (hi : Inv s) (hph : s.threads[i]? = some .starting) : Inv (s.assignProtocol i) := by
  have hmono : ∀ l ∈ s.readLoops, l ∈ (s.assignProtocol i).readLoops := fun _ => mem_cons_of_mem _
  refine hi.goto rfl (hi.close_kept rfl) (fun _ h => h) hmono ⟨?_, ?_⟩ ?_ ?_
  · exact fun _ => (hi.threads i _ hph).holds trivial
  · intro t ht
    have ht' : s.transport = some t := ht
    exact ht' ▸ mem_cons_self
  · intro _ t p ht hp
    have ht' : s.transport = some t := ht
    cases hp
    exact ht' ▸ mem_cons_self
  · exact fun w hw => hmono _ (hi.own w hw)

theorem inv_step {s' : State} {a : Action} (hi : Inv s) (hex : Exclusive s a)
    (hstep : step s a = some s') : Inv s' := by
  cases a
  all_goals simp only [step] at hstep
  case controlRequest | query | close =>
    cases hstep
    exact hi.enter id trivial
  case snapshot i =>
    split at hstep
    · rename_i hph
      split at hstep
      · rename_i hfree
        split at hstep <;> cases hstep
        · exact inv_finish hi hph nofun
        · exact inv_snapshot hi hph hfree ‹_›
      · cases hstep
    · cases hstep
  case register i =>
    split at hstep <;> cases hstep
    · rename_i p hph
      exact hi.move hph nofun rfl rfl rfl rfl (hi.close_kept rfl) ⟨nofun, (hi.threads i _ hph).fed⟩ hi.own
    rename_i p hph
    have hok := hi.threads i _ hph
    exact hi.move hph nofun rfl rfl rfl rfl (hi.close_kept rfl) ⟨fun _ => hok.holds trivial, hok.fed⟩ hi.own
  case lockWrite i =>
    split at hstep
    · split at hstep <;> cases hstep
      exact inv_writeRequest hi ‹_›
    · rename_i hph
      split at hstep <;> cases hstep
      unfold State.writePrompt
      split
      · exact inv_finish hi hph nofun
      · exact hi.move hph nofun rfl rfl rfl rfl (hi.close_kept rfl) ⟨nofun, trivial⟩ hi.own
    · cases hstep
  case endWrite i succeeds =>
    split at hstep
    · rename_i caller p t hph
      cases succeeds with
      | true => cases hstep; exact @inv_endWrite s i p t caller true hi hph
      | false => cases hstep; exact @inv_endWrite s i p t caller false hi hph
    · rename_i hph
      cases hstep
      exact hi.move hph nofun rfl rfl rfl rfl (hi.close_kept rfl) ⟨nofun, trivial⟩ hi.own
    · cases hstep
  case endRequest i succeeds =>
    split at hstep <;> cases hstep
    · rename_i hph
      exact inv_finish hi hph nofun
    rename_i hph
    refine hi.move hph nofun rfl rfl rfl rfl (hi.close_released hph trivial) ?_ hi.own
    cases succeeds with
    | true | false => exact ⟨nofun, trivial⟩
  case lockQuery i =>
    split at hstep
    · rename_i hph
      split at hstep <;> cases hstep
      rename_i hfree
      unfold State.query
      split
      · exact hi.move hph nofun rfl rfl rfl rfl (hi.close_taken hfree) ⟨fun _ => rfl, trivial⟩ hi.own
      · exact hi.move hph nofun rfl rfl rfl rfl (hi.close_kept rfl) ⟨nofun, trivial⟩ hi.own
    · cases hstep
  case launchFails i =>
    split at hstep <;> cases hstep
    rename_i hph
    exact inv_leave hi hph nofun (fun _ => trivial)
  case assignTransport i =>
    split at hstep <;> cases hstep
    exact inv_assignTransport hi ‹_› hex
  case assignProtocol i =>
    split at hstep <;> cases hstep
    exact inv_assignProtocol hi ‹_›
  case lockClose i =>
    split at hstep
    · rename_i hph
      split at hstep <;> cases hstep
      rename_i hfree
      unfold State.close
      split
      · exact inv_finish hi hph nofun
      · exact hi.move hph nofun rfl rfl rfl rfl (hi.close_taken hfree) ⟨fun _ => rfl, trivial⟩ hi.own
    · cases hstep
  case clear i =>
    split at hstep
    · rename_i hph
      split at hstep <;> cases hstep
      exact hi.goto rfl (hi.close_released hph trivial) nofun (fun _ h => h) ⟨nofun, trivial⟩
        (fun _ t p ht => nomatch ht) hi.own
    · cases hstep

end

/-! ## The runs of a client -/

/-- **Control requests stay in their session** in every run in which each `start` finds no control request
    between the reading of `c.cp` and its write. -/
theorem ownTransport_of_exclusive {as : List Action} {s : State}
    (hex : machine.Admits Exclusive machine.init as) (hrun : machine.run as = some s) : OwnTransport s :=
  (Machine.admits_invariant inv_init (fun _ _ _ hi ok h => inv_step hi ok h) hex hrun).own

/-- A client that is closed and started again, with a control request in each session. -/
theorem ownTransport_restarted :
    ∃ s, machine.run [.query, .lockQuery 0, .assignTransport 0, .assignProtocol 0, .register 0,
        .lockWrite 0, .endWrite 0 true, .endRequest 0 true, .controlRequest, .snapshot 1, .register 1,
        .lockWrite 1, .endWrite 1 true, .close, .lockClose 2, .clear 2, .query, .lockQuery 3,
        .assignTransport 3, .assignProtocol 3, .controlRequest, .register 3, .lockWrite 3,
        .endWrite 3 true, .endRequest 3 true, .snapshot 4, .register 4, .lockWrite 4,
        .endWrite 4 true] = some s ∧
      s.written = [(1, 1), (1, 1), (0, 0), (0, 0)] ∧ OwnTransport s := by
  refine Machine.exists_run_and (by decide +kernel) ?_
  exact Machine.exists_run (by decide +kernel) (fun _ hrun => ownTransport_of_exclusive (by decide) hrun)

/-- **A control request crosses sessions.** It reads `c.cp`; the client is closed and started again; and it is
    written to the new transport, whose read loop feeds the new protocol, while it waits in the old one. -/
theorem request_crosses_sessions :
    ∃ s, machine.run [.query, .lockQuery 0, .assignTransport 0, .assignProtocol 0, .register 0,
        .lockWrite 0, .endWrite 0 true, .endRequest 0 true, .controlRequest, .snapshot 1, .close,
        .lockClose 2, .clear 2, .query, .lockQuery 3, .assignTransport 3, .assignProtocol 3, .register 3,
        .lockWrite 3, .endWrite 3 true, .endRequest 3 true, .register 1, .lockWrite 1,
        .endWrite 1 true] = some s ∧
      s.readLoops = [(some 1, 1), (some 0, 0)] ∧ (0, 1) ∈ s.written ∧ ¬ OwnTransport s := by
  refine ⟨
    { transport := some 1, cp := some 1, closeMu := none, writeMu := none, transports := 2
      protocols := 2, readLoops := [(some 1, 1), (some 0, 0)]
      threads := [.prompting, .awaiting .controlRequest, .finished, .prompting]
      written := [(0, 1), (1, 1), (0, 0)] }, rfl, rfl, mem_cons_self, ?_⟩
  intro h
  have := h (0, 1) mem_cons_self
  simp at this

end Pandaemonium.Claude.Sessions
