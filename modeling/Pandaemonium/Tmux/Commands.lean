import Pandaemonium.Tmux.Client

/-!
# `Tmux.Commands` — responses and commands

Two properties of every interleaving of calls of `ExecRaw`, the read loop and `Close`.

* *Nobody is left waiting.* Once the client is closed and the read loop has ended, nothing but what is in
  its channel can wake a waiting call. `ExecRaw` tests the closed flag and registers its command in two
  steps, under different locks, so the last `failPending` of the read loop may run between them and miss the
  command (`command_left_waiting`). Where registration comes before that `failPending`, and the loop does
  not end while `Close` holds a command whose error it has not sent, every waiting call has its result
  (`none_left_waiting`).
* *Responses match commands.* When tmux answers the lines it is given one block each and in order, a
  response is returned by the very call that wrote the line it answers (`responses_match`). The invariant
  (`Matched`) counts: as long as the client is open, blocks and lines are level whenever no written command
  is outstanding, and every path that gives up a written command closes the client first.
-/

namespace Pandaemonium.Tmux.Client

open List

variable {s s' : State} {i : Nat} {c : Call} {p : Phase}

/-! ## Nobody is left waiting -/

/-- The `failPending` of the read loop has run. -/
def LoopPhase.failed : LoopPhase → Bool
  | .aborting (.send _ _) | .aborting .done => true
  | _ => false

/-- The next step of the read loop's abort is its last one. -/
def State.loopEnds (s : State) : Bool :=
  match s.loop with
  | .aborting (.fail _) => s.pending.isNone
  | .aborting (.send _ _) => true
  | _ => false

/-- The client is closed and the read loop has ended: no call whose write succeeded waits on a channel
    nothing was sent to. -/
def NoneLeftWaiting (s : State) : Prop :=
  s.closed ≠ none → s.loop = .aborting .done →
    AllAt s.calls (fun _ c => c.phase = .waiting → c.chan ≠ none)

/-- The condition on the steps: a call registers its command before the read loop fails what is in the slot,
    and the read loop does not end while `Close` has a command in hand whose error is still to be sent. -/
def Timely (s : State) : Action → Prop
  | .register _ => s.loop.failed = false
  | .abortLoop => s.loopEnds = true → s.close.target = none
  | _ => True

instance : ∀ s a, Decidable (Timely s a) := by
  intro s a
  cases a <;> unfold Timely <;> infer_instance

/-- The command of the call has been registered, and the call has not stopped waiting for its result. -/
def Phase.awaits : Phase → Bool
  | .writing | .written | .waiting => true
  | _ => false

/-- A command that is awaited is in the slot or has been taken out of it. -/
def State.Attends (s : State) (i : Nat) (c : Call) : Prop :=
  c.phase.awaits = true → s.pending = some i ∨ s.Taken i c

structure Attended (s : State) : Prop where
  attends : AllAt s.calls s.Attends
  emptied : s.loop.failed = true → s.pending = none
  ended : s.loop = .aborting .done → s.close.target = none

variable {a a₁ : Abort} {s₁ : State}

namespace Attended

theorem init : Attended machine.init := ⟨AllAt.nil, nofun, nofun⟩

section

variable (h : Attended s)
include h

theorem noneLeftWaiting : NoneLeftWaiting s := by
  intro _ hloop i c hc hp
  rcases h.attends i c hc (by rw [hp]; rfl) with hpending | htaken | htaken | htaken
  · rw [h.emptied (by rw [hloop]; rfl)] at hpending
    cases hpending
  · rw [hloop] at htaken
    cases htaken
  · rw [h.ended hloop] at htaken
    cases htaken
  · exact htaken

/-- A call goes on, and does not begin to wait. -/
theorem advance (hc : s.calls[i]? = some c) (hp : p.awaits = true → c.phase.awaits = true) :
    AllAt (advance s.calls i p) s.Attends := by
  refine AllAt.modify (fun d hd haw => ?_) (fun j d _ hd => h.attends j d hd)
  rw [hc] at hd
  cases hd
  exact h.attends i c hc (hp haw)

/-- A step that leaves the calls alone, and after which each command is where it was or has been taken. -/
theorem of_eq (hcalls : s'.calls = s.calls) (hkeep : ∀ i c, s.calls[i]? = some c → s.pending = some i ∨ s.Taken
    i c → s'.pending = some i ∨ s'.Taken i c) (hemptied : s'.loop.failed = true → s'.pending = none)
    (hended : s'.loop = .aborting .done → s'.close.target = none) : Attended s' where
  attends := by
    rw [hcalls]
    intro i c hc haw
    exact hkeep i c hc (h.attends i c hc haw)
  emptied := hemptied
  ended := hended

/-- A result is sent to the command in hand of the read loop or of `Close`, which lets go of it. -/
theorem attends_send {r : Result} (hcalls : s'.calls = (s.send i r).calls) (hpending : s'.pending = s.pending)
    (hloop : ∀ j, s.loop.target = some j → j = i ∨ s'.loop.target = some j)
    (hclose : ∀ j, s.close.target = some j → j = i ∨ s'.close.target = some j) : AllAt s'.calls s'.Attends := by
  rw [hcalls]
  refine AllAt.modify (fun d hd _ => .inr (.inr (.inr nofun))) (fun j d hji hd haw => ?_)
  rw [hpending]
  rcases h.attends j d hd haw with hp | ht | ht | ht
  · exact .inl hp
  · exact .inr (.inl ((hloop j ht).resolve_left hji))
  · exact .inr (.inr (.inl ((hclose j ht).resolve_left hji)))
  · exact .inr (.inr (.inr ht))

theorem abortLoop (hl : s.loop = .aborting a) (hok : s.loopEnds = true → s.close.target = none)
    (ha : AbortStep s a s₁ a₁) : Attended (s₁.setLoop (.aborting a₁)) := by
  have htarget : a.target = none → ∀ i c, s.Taken i c →
      s.close.target = some i ∨ c.chan ≠ none := by
    intro hnone i c ht
    rcases ht with ht | ht
    · rw [hl, LoopPhase.target, hnone] at ht
      cases ht
    · exact ht
  cases ha with
  | mark =>
    exact h.of_eq rfl (fun i c _ hi => hi.imp id (fun ht => .inr (htarget rfl i c ht)))
      (fun h => by cases h) (fun h => by cases h)
  | none _ hp =>
    refine h.of_eq rfl (fun i c _ hi => hi.imp id (fun ht => .inr (htarget rfl i c ht))) (fun _ => hp)
      (fun _ => hok ?_)
    rw [State.loopEnds, hl]
    exact Option.isNone_iff_eq_none.mpr hp
  | take _ j hp =>
    refine h.of_eq rfl (fun i c _ hi => .inr ?_) (fun _ => rfl) (fun h => by cases h)
    rcases hi with hi | hi
    · exact .inl (hp.symm.trans hi)
    · exact .inr (htarget rfl i c hi)
  | send cause j =>
    refine ⟨h.attends_send rfl rfl (fun k hk => .inl ?_) (fun k hk => .inr hk), fun _ => ?_, fun _ => ?_⟩
    · rw [hl] at hk
      cases hk
      rfl
    · exact h.emptied (by rw [hl]; rfl)
    · exact hok (by rw [State.loopEnds, hl])

theorem abortClose {already : Bool} (hclose : s.close = .aborting already a) (ha : AbortStep s a s₁ a₁) :
    Attended (s₁.setClose (.aborting already a₁)) := by
  have htarget : a.target = none → ∀ i c, s.Taken i c →
      s.loop.target = some i ∨ c.chan ≠ none := by
    intro hnone i c ht
    rcases ht with ht | ht | ht
    · exact .inl ht
    · rw [hclose, ClosePhase.target, hnone] at ht
      cases ht
    · exact .inr ht
  cases ha with
  | mark | none _ hp =>
    exact h.of_eq rfl (fun i c _ hi => hi.imp id (fun ht => (htarget rfl i c ht).imp id .inr))
      h.emptied (fun _ => rfl)
  | take _ j hp =>
    -- the slot is not empty, so the read loop has not failed it
    refine h.of_eq rfl (fun i c _ hi => .inr ?_) (fun _ => rfl) (fun hl => ?_)
    · rcases hi with hi | hi
      · exact .inr (.inl (hp.symm.trans hi))
      · exact (htarget rfl i c hi).imp id .inr
    · have hnone := h.emptied (by rw [show s.loop = _ from hl]; rfl)
      rw [hp] at hnone
      cases hnone
  | send cause j =>
    refine ⟨h.attends_send rfl rfl (fun k hk => .inr hk) (fun k hk => .inl ?_), h.emptied, fun _ => rfl⟩
    rw [hclose] at hk
    cases hk
    rfl

/-- `clearPending`, by a call that stops waiting. -/
theorem clear (hp : p.awaits = true → False) : Attended ((s.clearPending i).setPhase i p) where
  attends := by
    refine AllAt.modify (fun _ _ haw => (hp haw).elim) (fun j d hji hd haw => ?_)
    refine (h.attends j d hd haw).imp (fun hj => ?_) id
    show (if s.pending = some i then none else s.pending) = some j
    rw [hj, if_neg (fun hij => hji (Option.some.inj hij))]
  emptied := by
    intro hf
    show (if s.pending = some i then none else s.pending) = none
    rw [h.emptied hf, if_neg nofun]
  ended := h.ended

/-- The abort of a cancelled call sends to nobody. -/
theorem abortCall (hlock : Locked s) (hc : s.calls[i]? = some c) (hphase : c.phase = .aborting a)
    (ha : AbortStep s a s₁ a₁) : Attended (s₁.setPhase i (.aborting a₁)) := by
  cases ha with
  | mark | none => exact ⟨h.advance hc nofun, h.emptied, h.ended⟩
  | take _ j hp =>
    have hnone := hlock.pending_eq_none hc (by rw [hphase]; rfl) (by rw [hphase]; rfl)
    rw [hp] at hnone
    cases hnone
  | send =>
    have hsilent : c.phase.target = none := hlock.silent i c hc
    rw [hphase] at hsilent
    cases hsilent

theorem readStep {line : Bytes} (hl : s.loop = .reading) (hr : ReadStep s line s') : Attended s' := by
  have htarget : ∀ i c, s.Taken i c → s.close.target = some i ∨ c.chan ≠ none := by
    intro i c ht
    rcases ht with ht | ht
    · rw [hl] at ht
      cases ht
    · exact ht
  cases hr with
  | other hnext | unclaimed _ _ hnext =>
    refine h.of_eq rfl (fun i c _ hi => hi.imp id (fun ht => .inr (htarget i c ht))) ?_ ?_
    all_goals rcases hnext with rfl | ⟨cause, rfl⟩ <;> nofun
  | claimed _ hp =>
    refine h.of_eq rfl (fun i c _ hi => .inr ?_) nofun nofun
    rcases hi with hi | hi
    · exact .inl (hp.symm.trans hi)
    · exact .inr (htarget i c hi)

/-- `Close` goes on, with no command in hand before and after. -/
theorem setClose (hbefore : s.close.target = none) {q : ClosePhase} (hq : q.target = none) :
    Attended (s.setClose q) := by
  refine h.of_eq rfl (fun i c _ hi => hi.imp id (fun ht => ?_)) h.emptied (fun _ => hq)
  rcases ht with ht | ht | ht
  · exact .inl ht
  · rw [hbefore] at ht
    cases ht
  · exact .inr (.inr ht)

/-- **A timely step keeps every awaited command attended to.** -/
theorem step (hlock : Locked s) {a : Action} (hok : Timely s a) (hstep : Step s a s') : Attended s' := by
  cases hstep with
  | execRaw hp =>
    refine ⟨AllAt.concat h.attends (fun haw => ?_), h.emptied, h.ended⟩
    rcases hp with rfl | ⟨_, rfl⟩ | rfl <;> cases haw
  | lock hc _ _ | refuse hc _ _ | check hc _ _ | busy hc _ _ | writeFails hc _ | contextDone hc _
  | aborted hc _ | unlock hc _ => exact ⟨h.advance hc nofun, h.emptied, h.ended⟩
  | @register i c hc hp hnone =>
    refine ⟨AllAt.modify (fun _ _ _ => .inl rfl) (fun j d _ hd haw => ?_), fun hf => ?_, h.ended⟩
    · refine .inr ((h.attends j d hd haw).resolve_left ?_)
      rw [hnone]
      nofun
    · exact absurd hf (by rw [show s.loop.failed = false from hok]; nofun)
  | write hc hp | writeReturns hc hp => exact ⟨h.advance hc (fun _ => by rw [hp]; rfl), h.emptied, h.ended⟩
  | drop _ _ | cancel _ _ => exact h.clear nofun
  | receive hc _ _ =>
    exact ⟨AllAt.modify (fun _ _ => nofun) (fun j d _ hd => h.attends j d hd), h.emptied, h.ended⟩
  | abortCall hc hp ha => exact h.abortCall hlock hc hp ha
  | readLine hl hr => exact h.readStep hl hr
  | @deliver i r next hl =>
    refine ⟨h.attends_send rfl rfl (fun k hk => .inl ?_) (fun k hk => .inr hk), ?_, ?_⟩
    · rw [hl] at hk
      cases hk
      rfl
    · show (State.loopNext next).failed = true → _
      cases next <;> nofun
    · show State.loopNext next = .aborting .done → _
      cases next <;> nofun
  | abortLoop hl ha => exact h.abortLoop hl hok ha
  | close hclose | skip hclose => exact h.setClose (by rw [hclose]; rfl) rfl
  | abortClose hclose ha => exact h.abortClose hclose ha
  | tryLock hclose _ =>
    have hnext := h.setClose (q := .detaching) (by rw [hclose]; rfl) rfl
    exact ⟨hnext.attends, hnext.emptied, hnext.ended⟩
  | detach hclose _ =>
    have hnext := h.setClose (q := .detached) (by rw [hclose]; rfl) rfl
    exact ⟨hnext.attends, hnext.emptied, hnext.ended⟩
  | closeTransport hclose =>
    have hnext := h.setClose (q := .transportClosed) (by rw [hclose]; rfl) rfl
    exact ⟨hnext.attends, hnext.emptied, hnext.ended⟩

end

end Attended

/-- **Nobody is left waiting, when registrations come in time.** -/
theorem none_left_waiting {as : List Action} (has : machine.Admits Timely machine.init as)
    (hrun : machine.run as = some s) : NoneLeftWaiting s := by
  have hinit : Locked machine.init ∧ Attended machine.init := ⟨Locked.init, Attended.init⟩
  have hinv : Locked s ∧ Attended s := by
    refine Machine.admits_invariant (I := fun s => Locked s ∧ Attended s) hinit ?_ has hrun
    intro s a s' hs hok hstep
    exact ⟨hs.1.step (step_inv hstep), hs.2.step hs.1 hok (step_inv hstep)⟩
  exact hinv.2.noneLeftWaiting

/-- A line outside any block ends the read loop while a call waits, and the call returns the error. -/
theorem none_left_waiting_failed :
    ∃ s, machine.run [.execRaw (ascii "ls") false, .lock 0, .check 0 false, .register 0, .write 0,
        .writeReturns 0, .readLine (ascii "stray") none, .abortLoop, .abortLoop, .abortLoop, .receive 0,
        .unlock 0] = some s ∧ s.closed ≠ none ∧ s.loop = .aborting .done ∧ NoneLeftWaiting s := by
  refine Machine.exists_run_and (by decide +kernel) ?_
  refine Machine.exists_run_and (by decide +kernel) ?_
  exact Machine.exists_run (by decide +kernel) (fun _ hrun => none_left_waiting (by decide +kernel) hrun)

/-- The same line between the closed check of the call and its registration: the read loop fails an empty
    slot and ends, the call registers and writes its line, and waits for ever. -/
theorem command_left_waiting :
    ∃ s, machine.run [.execRaw (ascii "ls") false, .lock 0, .check 0 false,
        .readLine (ascii "stray") none, .abortLoop, .abortLoop, .register 0, .write 0, .writeReturns 0]
        = some s ∧ s.closed ≠ none ∧ s.loop = .aborting .done ∧
      s.calls[0]? = some ⟨ascii "ls", .waiting, none⟩ ∧ s.written = [.call 0] ∧
      ¬ NoneLeftWaiting s := by
  have hrun : machine.run [.execRaw (ascii "ls") false, .lock 0, .check 0 false,
        .readLine (ascii "stray") none, .abortLoop, .abortLoop, .register 0, .write 0, .writeReturns 0] =
      some
        { calls := [⟨ascii "ls", .waiting, none⟩]
          writeMu := some (.call 0), closed := some (.protocol ⟨ascii "stray", .nonControlLine⟩)
          pending := some 0, loop := .aborting .done, parser := .new, close := .notCalled
          stdinOpen := true, written := [.call 0], responses := 0 } := by decide +kernel
  refine ⟨_, hrun, nofun, rfl, rfl, rfl, fun h => ?_⟩
  exact h nofun rfl 0 _ rfl rfl rfl

/-! ## Responses match commands -/

/-- The line ends a response block. -/
def completes (parser : ProtocolParser) (line : Bytes) : Bool :=
  match (parser.feed line).2 with
  | .ok (.response _) => true
  | _ => false

/-- tmux answers every line that was written in full with one response block, in order, and emits no other
    block: the block that comes next answers the first line that is not answered yet. -/
def Answers (s : State) : Action → Prop
  | .readLine line _ => completes s.parser line = true → s.responses < s.written.length
  | _ => True

instance : ∀ s a, Decidable (Answers s a) := by
  intro s a
  cases a <;> unfold Answers <;> infer_instance

def Result.block : Result → Option Nat
  | .response k _ => some k
  | .failed _ => none

/-- The block a call returns, or is about to return. -/
def Phase.block : Phase → Option Nat
  | .unlocking (.result r) | .returned (.result r) => r.block
  | _ => none

/-- The block `k` has been handed to call `i`: it is on its way, in the channel, or received. -/
def State.Reaches (s : State) (k i : Nat) : Prop :=
  (∃ r next, s.loop = .delivering i r next ∧ r.block = some k) ∨
    ∃ c, s.calls[i]? = some c ∧ (c.chan.bind Result.block = some k ∨ c.phase.block = some k)

/-- Every line that was written is answered. -/
def State.level (s : State) : Prop := s.responses = s.written.length

/-- The line of the call is the last one that was written; it is the only one not answered as long as the
    command is in the slot. -/
structure Last (s : State) (i : Nat) : Prop where
  last : s.written.getLast? = some (.call i)
  bound : s.written.length ≤ s.responses + 1
  unanswered : s.pending = some i → s.written.length = s.responses + 1

/-- Where lines and blocks stand while a call is in a phase. -/
def Position (s : State) (i : Nat) : Phase → Prop
  | .registering | .dropping => s.level
  | .writing => s.level ∧ (s.pending ≠ some i → s.closed ≠ none)
  | .written | .waiting => Last s i ∧ (s.pending ≠ some i → s.closed = none → s.level)
  | .cancelling => Last s i
  | _ => True

/-- The call has written a line and not received an answer, and the client need not be closed. -/
def Phase.outstanding : Phase → Bool
  | .written | .waiting | .cancelling | .aborting (.mark _) => true
  | _ => false

/-- `markClosed` of the abort has run. -/
def Abort.marked : Abort → Bool
  | .mark _ => false
  | _ => true

def LoopPhase.marked : LoopPhase → Bool
  | .aborting a => a.marked
  | _ => false

def ClosePhase.marked : ClosePhase → Bool
  | .notCalled => false
  | .aborting _ a => a.marked
  | _ => true

structure Matched (s : State) : Prop where
  bound : s.responses ≤ s.written.length
  position : AllAt s.calls (fun i c => Position s i c.phase)
  idle : s.closed = none → AllAt s.calls (fun _ c => c.phase.outstanding = false) → s.level
  loopClosed : s.loop.marked = true → s.closed ≠ none
  closeClosed : s.close.marked = true → s.closed ≠ none
  answered : ∀ k i, s.Reaches k i → s.written[k]? = some (.call i)

namespace Matched

theorem init : Matched machine.init where
  bound := Nat.le_refl _
  position := AllAt.nil
  idle := fun _ _ => rfl
  loopClosed := nofun
  closeClosed := nofun
  answered := by
    intro k i h
    rcases h with ⟨r, next, hl, _⟩ | ⟨c, hc, _⟩
    · cases hl
    · cases hc

end Matched

theorem position_of_not_holds (hp : p.holds = false) : Position s i p := by
  cases p with
  | locking | returned o => exact trivial
  | _ => cases hp

theorem holds_of_outstanding (hp : p.outstanding = true) : p.holds = true := by
  cases p <;> first | rfl | cases hp

/-- The calls other than the holder of `writeMu` hold nothing. -/
theorem Locked.others (h : Locked s) (hc : s.calls[i]? = some c) (hi : c.phase.holds = true) {j : Nat}
    {d : Call} (hji : j ≠ i) (hd : s.calls[j]? = some d) : d.phase.holds = false := by
  cases hj : d.phase.holds with
  | false => rfl
  | true => exact absurd (h.eq_of_holds hd hc hj hi) hji

/-- A position is kept when lines and blocks stay, the client only closes, and the slot is emptied by nobody
    but an abort. -/
theorem Position.mono (h : Position s i p) (hw : s'.written = s.written) (hr : s'.responses = s.responses)
    (hslot : s'.pending = s.pending ∨ (s'.pending = none ∧ s'.closed ≠ none))
    (hclosed : s'.closed = none → s.closed = none) : Position s' i p := by
  have hlevel : s.level → s'.level := by
    intro h
    rw [State.level, hr, hw]
    exact h
  have hlast : Last s i → Last s' i := by
    intro h
    refine ⟨by rw [hw]; exact h.last, by rw [hw, hr]; exact h.bound, fun hp => ?_⟩
    rcases hslot with hs | ⟨hs, _⟩ <;> rw [hs] at hp
    · rw [hw, hr]
      exact h.unanswered hp
    · cases hp
  cases p with
  | registering | dropping => exact hlevel h
  | cancelling => exact hlast h
  | writing =>
    refine ⟨hlevel h.1, fun hp hnone => ?_⟩
    rcases hslot with hs | ⟨_, hs⟩
    · exact h.2 (hs ▸ hp) (hclosed hnone)
    · exact hs hnone
  | written | waiting =>
    refine ⟨hlast h.1, fun hp hnone => ?_⟩
    rcases hslot with hs | ⟨_, hs⟩
    · exact hlevel (h.2 (hs ▸ hp) (hclosed hnone))
    · exact absurd hnone hs
  | _ => exact trivial

theorem allAt_phase {l l' : List Call} {P : Nat → Phase → Prop} (hl : l'.map Call.phase = l.map Call.phase)
    (h : AllAt l (fun i c => P i c.phase)) : AllAt l' (fun i c => P i c.phase) := by
  intro i c hc
  have hi : (l.map Call.phase)[i]? = some c.phase := by
    rw [← hl, getElem?_map, hc]
    rfl
  rw [getElem?_map] at hi
  obtain ⟨d, hd, hdc⟩ := Option.map_eq_some_iff.mp hi
  rw [← hdc]
  exact h i d hd

theorem map_phase_send (s : State) (i : Nat) (r : Result) :
    (s.send i r).calls.map Call.phase = s.calls.map Call.phase := by
  apply ext_getElem?
  intro j
  rw [getElem?_map, getElem?_map, State.send, getElem?_modify]
  cases s.calls[j]? with
  | none => rfl
  | some c => by_cases hij : i = j <;> simp [hij]

namespace Matched

/-- The written lines only grow, and no block reaches a call it had not reached. -/
theorem answered_of (h : Matched s) {w : List Holder} (hw : s'.written = s.written ++ w)
    (hreach : ∀ k i, s'.Reaches k i → s.Reaches k i) :
    ∀ k i, s'.Reaches k i → s'.written[k]? = some (.call i) := by
  intro k i hi
  have hk := h.answered k i (hreach k i hi)
  rw [hw, getElem?_append_left (List.getElem?_eq_some_iff.mp hk).1]
  exact hk

/-- A step of the read loop or of `Close` that leaves lines and blocks alone. -/
theorem frame (h : Matched s) (hphases : s'.calls.map Call.phase = s.calls.map Call.phase)
    (hw : s'.written = s.written) (hr : s'.responses = s.responses)
    (hslot : s'.pending = s.pending ∨ (s'.pending = none ∧ s'.closed ≠ none))
    (hclosed : s'.closed = none → s.closed = none) (hloop : s'.loop.marked = true → s'.closed ≠ none)
    (hclose : s'.close.marked = true → s'.closed ≠ none)
    (hreach : ∀ k i, s'.Reaches k i → s.Reaches k i) : Matched s' where
  bound := by rw [hw, hr]; exact h.bound
  position := by
    refine allAt_phase (P := Position s') hphases (fun i c hc => ?_)
    exact (h.position i c hc).mono hw hr hslot hclosed
  idle := by
    intro hnone hall
    rw [State.level, hw, hr]
    refine h.idle (hclosed hnone) ?_
    exact allAt_phase (P := fun _ p => p.outstanding = false) hphases.symm hall
  loopClosed := hloop
  closeClosed := hclose
  answered := h.answered_of (w := []) (by rw [hw, append_nil]) hreach

/-- Lines and blocks are level when a call that goes on leaves nothing outstanding. -/
theorem idle_advance (h : Matched s) (hc : s.calls[i]? = some c)
    (hp : c.phase.outstanding = true → p.outstanding = false → s.closed = none → s.level)
    (hclosed : s.closed = none)
    (hall : AllAt (advance s.calls i p) (fun _ d => d.phase.outstanding = false)) : s.level := by
  cases ho : c.phase.outstanding with
  | true =>
    have hi := hall i _ (getElem?_modify_some hc)
    rw [if_pos rfl] at hi
    exact hp ho hi hclosed
  | false =>
    refine h.idle hclosed (fun j d hd => ?_)
    by_cases hij : i = j
    · subst hij
      rw [hc] at hd
      cases hd
      exact ho
    · have hj := hall j _ (getElem?_modify_some hd)
      rw [if_neg hij] at hj
      exact hj

end Matched

/-- Only the holder of `writeMu` has a position to keep. -/
theorem Locked.position_advance (h : Locked s) (hc : s.calls[i]? = some c) (hi : c.phase.holds = true)
    (hp : Position s' i p) : AllAt (advance s.calls i p) (fun j d => Position s' j d.phase) :=
  AllAt.modify (fun _ _ => hp)
    (fun _ _ hji hd => position_of_not_holds (h.others hc hi hji hd))

/-- A call is changed, and holds no block that had not reached it. -/
theorem State.Reaches.of_modify {f : Call → Call} (hcalls : s'.calls = s.calls.modify i f)
    (hloop : ∀ j r next, s'.loop = .delivering j r next → s.loop = .delivering j r next) (hf : ∀ c, s.calls[i]?
    = some c → ∀ k, (f c).chan.bind Result.block = some k ∨ (f c).phase.block = some k → s.Reaches k i) :
    ∀ k j, s'.Reaches k j → s.Reaches k j := by
  intro k j h
  rcases h with ⟨r, next, hl, hr⟩ | ⟨d, hd, hk⟩
  · exact .inl ⟨r, next, hloop j r next hl, hr⟩
  rw [hcalls, getElem?_modify] at hd
  obtain ⟨d₀, hd₀, rfl⟩ := Option.map_eq_some_iff.mp hd
  by_cases hij : i = j
  · subst hij
    rw [if_pos rfl] at hk
    exact hf d₀ hd₀ k hk
  · rw [if_neg hij] at hk
    exact .inr ⟨d₀, hd₀, hk⟩

/-- The read loop has no block in hand that it had not. -/
theorem State.Reaches.of_loop (hcalls : s'.calls = s.calls)
    (hloop : ∀ i r next, s'.loop = .delivering i r next → s.loop = .delivering i r next) :
    ∀ k j, s'.Reaches k j → s.Reaches k j := by
  intro k j h
  rcases h with ⟨r, next, hl, hr⟩ | ⟨d, hd, hk⟩
  · exact .inl ⟨r, next, hloop j r next hl, hr⟩
  · exact .inr ⟨d, hcalls ▸ hd, hk⟩

/-- A call goes on to a phase with the block of the phase it is in, if any. -/
theorem State.Reaches.of_advance (hc : s.calls[i]? = some c) (hcalls : s'.calls = advance s.calls i p)
    (hloop : s'.loop = s.loop) (hblock : p.block = none ∨ p.block = c.phase.block) :
    ∀ k j, s'.Reaches k j → s.Reaches k j := by
  refine State.Reaches.of_modify hcalls (fun _ _ _ => hloop ▸ id) (fun d hd k hk => ?_)
  rw [hc] at hd
  cases hd
  rcases hk with hk | hk
  · exact .inr ⟨c, hc, .inl hk⟩
  rcases hblock with hb | hb <;> rw [hb] at hk
  · cases hk
  · exact .inr ⟨c, hc, .inr hk⟩

theorem markClosed_ne (s : State) (cause : Cause) : (s.markClosed cause).closed ≠ none := by
  show s.closed.or (some cause) ≠ none
  cases s.closed <;> nofun

namespace Matched

/-- The call that holds `writeMu` goes on, and nothing else changes. -/
theorem move (h : Matched s) (hlock : Locked s) (hc : s.calls[i]? = some c)
    (hholds : c.phase.holds = true) (hpos : Position s i p)
    (hidle : c.phase.outstanding = true → p.outstanding = false → s.closed = none → s.level)
    (hblock : p.block = none) : Matched (s.setPhase i p) where
  bound := h.bound
  position := hlock.position_advance hc hholds (hpos.mono rfl rfl (.inl rfl) id)
  idle := h.idle_advance hc hidle
  loopClosed := h.loopClosed
  closeClosed := h.closeClosed
  answered := h.answered_of (w := []) (append_nil _).symm
    (State.Reaches.of_advance hc rfl rfl (.inl hblock))

/-- A step of an abort, whoever takes it; the client is closed from the first one on. -/
theorem abort (h : Matched s) (ha : AbortStep s a s₁ a₁) (hmarked : a.marked = true → s.closed ≠ none) :
    Matched s₁ ∧ s₁.closed ≠ none := by
  cases ha with
  | mark cause =>
    have hne := markClosed_ne s cause
    exact ⟨h.frame rfl rfl rfl (.inl rfl) (fun hnone => absurd hnone hne) (fun _ => hne) (fun _ => hne)
      (State.Reaches.of_loop rfl (fun _ _ _ => id)), hne⟩
  | none => exact ⟨h, hmarked rfl⟩
  | take =>
    have hne : s.closed ≠ none := hmarked rfl
    exact ⟨h.frame rfl rfl rfl (.inr ⟨rfl, hne⟩) id h.loopClosed h.closeClosed
      (State.Reaches.of_loop rfl (fun _ _ _ => id)), hne⟩
  | send cause j =>
    refine ⟨h.frame (map_phase_send s j _) rfl rfl (.inl rfl) id h.loopClosed h.closeClosed ?_, hmarked rfl⟩
    refine State.Reaches.of_modify rfl (fun _ _ _ => id) (fun d hd k hk => ?_)
    rcases hk with hk | hk
    · cases hk
    · exact .inr ⟨d, hd, .inr hk⟩

theorem setLoop (h : Matched s) {l : LoopPhase} (hl : l.marked = true → s.closed ≠ none)
    (hnot : ∀ i r next, l ≠ .delivering i r next) : Matched (s.setLoop l) :=
  h.frame rfl rfl rfl (.inl rfl) id hl h.closeClosed
    (State.Reaches.of_loop rfl (fun i r next hd => absurd hd (hnot i r next)))

theorem setClose (h : Matched s) {q : ClosePhase} (hq : q.marked = true → s.closed ≠ none) :
    Matched (s.setClose q) :=
  h.frame rfl rfl rfl (.inl rfl) id h.loopClosed hq (State.Reaches.of_loop rfl (fun _ _ _ => id))

/-- A cancelled call takes a step of its abort. -/
theorem abortCall (h : Matched s) (hlock : Locked s) (hc : s.calls[i]? = some c)
    (hphase : c.phase = .aborting a) (ha : AbortStep s a s₁ a₁) : Matched (s₁.setPhase i (.aborting a₁)) := by
  have hholds : c.phase.holds = true := by rw [hphase]; rfl
  cases ha with
  | mark cause =>
    obtain ⟨hmatched, hne⟩ := h.abort (.mark cause) nofun
    exact hmatched.move (hlock.markClosed cause) hc hholds trivial
      (fun _ _ hnone => absurd hnone hne) rfl
  | none =>
    refine h.move hlock hc hholds trivial (fun ho => ?_) rfl
    rw [hphase] at ho
    cases ho
  | take _ j hp =>
    have hnone := hlock.pending_eq_none hc hholds (by rw [hphase]; rfl)
    rw [hp] at hnone
    cases hnone
  | send =>
    have hsilent : c.phase.target = none := hlock.silent i c hc
    rw [hphase] at hsilent
    cases hsilent

/-- A block comes while a line is unanswered. -/
theorem not_level (hlt : s.responses < s.written.length) : ¬ s.level := Nat.ne_of_lt hlt

section

variable (h : Matched s)
include h

/-- A call that is registered when a block comes has written the last line. -/
theorem last_of_registered (hc : s.calls[i]? = some c) (hlt : s.responses < s.written.length)
    (hreg : c.phase.registered = true) : Last s i := by
  have hpos : Position s i c.phase := h.position i c hc
  cases hp : c.phase with
  | writing =>
    rw [hp] at hpos
    exact absurd hpos.1 (not_level hlt)
  | dropping =>
    rw [hp] at hpos
    exact absurd hpos (not_level hlt)
  | cancelling =>
    rw [hp] at hpos
    exact hpos
  | written | waiting =>
    rw [hp] at hpos
    exact hpos.1
  | _ =>
    rw [hp] at hreg
    cases hreg

/-- The positions after a block has come, the slot being empty now. -/
theorem position_block (hlt : s.responses < s.written.length) (hcalls : s'.calls = s.calls)
    (hw : s'.written = s.written) (hr : s'.responses = s.responses + 1) (hnone : s'.pending = none)
    (hclosed : s'.closed = s.closed) : AllAt s'.calls (fun i c => Position s' i c.phase) := by
  rw [hcalls]
  intro i c hc
  have hpos : Position s i c.phase := h.position i c hc
  have hlast : Last s i → Last s' i := by
    intro hl
    refine ⟨by rw [hw]; exact hl.last, ?_, by rw [hnone]; nofun⟩
    rw [hw, hr]
    exact Nat.le_succ_of_le hl.bound
  show Position s' i c.phase
  cases hp : c.phase with
  | registering | dropping =>
    rw [hp] at hpos
    exact absurd hpos (not_level hlt)
  | writing =>
    rw [hp] at hpos
    exact absurd hpos.1 (not_level hlt)
  | written | waiting =>
    rw [hp] at hpos
    refine ⟨hlast hpos.1, fun _ hopen => ?_⟩
    rw [hclosed] at hopen
    by_cases hslot : s.pending = some i
    · -- the block answers the line of this call, which was the only one unanswered
      rw [State.level, hr, hw]
      exact (hpos.1.unanswered hslot).symm
    · exact absurd (hpos.2 hslot hopen) (not_level hlt)
  | cancelling =>
    rw [hp] at hpos
    exact hlast hpos
  | _ => exact trivial

theorem readStep (hlock : Locked s) {line : Bytes}
    (hok : completes s.parser line = true → s.responses < s.written.length) (hr : ReadStep s line s') :
    Matched s' := by
  have hunmarked : ∀ l : LoopPhase, l = .reading ∨ (∃ cause, l = .aborting (.mark cause)) →
      l.marked = false ∧ ∀ i r next, l ≠ .delivering i r next := by
    intro l hl
    rcases hl with rfl | ⟨cause, rfl⟩
    all_goals
      refine ⟨rfl, ?_⟩
      intro i r next h
      cases h
  cases hr with
  | other hnext =>
    obtain ⟨hm, hd⟩ := hunmarked _ hnext
    exact h.frame rfl rfl rfl (.inl rfl) id (fun hmarked => (nomatch hm.symm.trans hmarked))
      h.closeClosed (State.Reaches.of_loop rfl (fun i r next hdel => absurd hdel (hd i r next)))
  | unclaimed hfeed hnone hnext =>
    obtain ⟨hm, hd⟩ := hunmarked _ hnext
    have hlt := hok (by rw [completes, hfeed])
    refine ⟨hlt, h.position_block hlt rfl rfl rfl hnone rfl, fun hopen hall => ?_,
      fun hmarked => (nomatch hm.symm.trans hmarked), h.closeClosed, ?_⟩
    · exact absurd (h.idle hopen hall) (not_level hlt)
    · exact h.answered_of (w := []) (append_nil _).symm
        (State.Reaches.of_loop rfl (fun i r next hdel => absurd hdel (hd i r next)))
  | @claimed parser j r next hfeed hpending =>
    have hlt := hok (by rw [completes, hfeed])
    obtain ⟨c, hc, hreg⟩ := hlock.slot j hpending
    have hlast := h.last_of_registered hc hlt hreg
    refine ⟨hlt, h.position_block hlt rfl rfl rfl rfl rfl, fun hopen hall => ?_, nofun, h.closeClosed, ?_⟩
    · exact absurd (h.idle hopen hall) (not_level hlt)
    -- the block in hand answers the last line, written by the call it goes to
    intro k i hi
    rcases hi with ⟨r', next', hdel, hk⟩ | hi
    · cases hdel
      cases hk
      have hwl := hlast.last
      rw [getLast?_eq_getElem?, hlast.unanswered hpending] at hwl
      exact hwl
    · exact h.answered k i (.inr hi)

theorem execRaw {line : Bytes} (hholds : p.holds = false) (hblock : p.block = none) :
    Matched { s with calls := s.calls ++ [⟨line, p, none⟩] } where
  bound := h.bound
  position := by
    refine AllAt.concat (fun j d hd => ?_) (position_of_not_holds hholds)
    exact (h.position j d hd).mono rfl rfl (.inl rfl) id
  idle := by
    intro hopen hall
    refine h.idle hopen (fun j d hd => hall j d ?_)
    rw [getElem?_append_left (lt_of_getElem? hd)]
    exact hd
  loopClosed := h.loopClosed
  closeClosed := h.closeClosed
  answered := by
    refine h.answered_of (w := []) (append_nil _).symm (fun k j hj => ?_)
    rcases hj with hj | ⟨d, hd, hk⟩
    · exact .inl hj
    rcases Nat.lt_or_ge j s.calls.length with hlt | hge
    · rw [getElem?_append_left hlt] at hd
      exact .inr ⟨d, hd, hk⟩
    rw [getElem?_append_right hge] at hd
    obtain rfl := mem_singleton.mp (mem_of_getElem? hd)
    rcases hk with hk | hk
    · cases hk
    · rw [hblock] at hk
      cases hk

/-- The call writes its line. -/
theorem write (hlock : Locked s) (hc : s.calls[i]? = some c) (hp : c.phase = .writing) :
    Matched { s with calls := advance s.calls i .written, written := s.written ++ [.call i] } where
  bound := by
    rw [length_append]
    exact Nat.le_add_right_of_le h.bound
  position := by
    have hpos : Position s i c.phase := h.position i c hc
    rw [hp] at hpos
    have hlen : (s.written ++ [Holder.call i]).length = s.responses + 1 := by
      rw [length_append, ← hpos.1]
      rfl
    refine hlock.position_advance hc (by rw [hp]; rfl) ⟨⟨?_, Nat.le_of_eq hlen, fun _ => hlen⟩, ?_⟩
    · exact getLast?_concat
    · exact fun hslot hopen => absurd hopen (hpos.2 hslot)
  idle := by
    -- the call is outstanding now
    intro _ hall
    have hi := hall i _ (getElem?_modify_some hc)
    rw [if_pos rfl] at hi
    cases hi
  loopClosed := h.loopClosed
  closeClosed := h.closeClosed
  answered := h.answered_of rfl (State.Reaches.of_advance hc rfl rfl (.inl rfl))

/-- The call gives up its command, after a failed write or when its context is done. -/
theorem clear (hlock : Locked s) (hc : s.calls[i]? = some c) (hholds : c.phase.holds = true)
    (hpos : ∀ s, Position s i p) (hidle : c.phase.outstanding = true → p.outstanding = true)
    (hblock : p.block = none) : Matched ((s.clearPending i).setPhase i p) where
  bound := h.bound
  position := hlock.position_advance hc hholds (hpos _)
  idle := by
    refine h.idle_advance hc (fun ho hp => ?_)
    rw [hidle ho] at hp
    cases hp
  loopClosed := h.loopClosed
  closeClosed := h.closeClosed
  answered := h.answered_of (w := []) (append_nil _).symm
    (State.Reaches.of_advance hc rfl rfl (.inl hblock))

/-- The call receives its result: its command has left the slot, so the block has come or the client is
    closed. -/
theorem receive (hlock : Locked s) (hc : s.calls[i]? = some c) (hp : c.phase = .waiting) {r : Result}
    (hr : c.chan = some r) : Matched (s.receive i r) where
  bound := h.bound
  position := by
    refine AllAt.modify (fun _ _ => trivial) (fun j d hji hd => position_of_not_holds ?_)
    exact hlock.others hc (by rw [hp]; rfl) hji hd
  idle := by
    intro hopen _
    have hpos : Position s i c.phase := h.position i c hc
    rw [hp] at hpos
    exact hpos.2 (hlock.taken i c hc (.inr (.inr (by rw [hr]; nofun)))).1 hopen
  loopClosed := h.loopClosed
  closeClosed := h.closeClosed
  answered := by
    refine h.answered_of (w := []) (append_nil _).symm
      (State.Reaches.of_modify rfl (fun _ _ _ => id) (fun d hd k hk => ?_))
    rw [hc] at hd
    cases hd
    rcases hk with hk | hk
    · cases hk
    · exact .inr ⟨c, hc, .inl (by rw [hr]; exact hk)⟩

/-- The client is level when a call passes the closed check. -/
theorem level_of_check (hlock : Locked s) (hc : s.calls[i]? = some c) (hp : c.phase = .checking)
    (hopen : s.closed = none) : s.level := by
  refine h.idle hopen (fun j d hd => ?_)
  cases ho : d.phase.outstanding with
  | false => exact ho
  | true =>
    have hij := hlock.eq_of_holds hc hd (by rw [hp]; rfl) (holds_of_outstanding ho)
    subst hij
    rw [hc] at hd
    cases hd
    rw [hp] at ho
    cases ho

theorem register (hlock : Locked s) (hc : s.calls[i]? = some c) (hp : c.phase = .registering) :
    Matched { s with calls := advance s.calls i .writing, pending := some i } where
  bound := h.bound
  position := by
    have hpos : Position s i c.phase := h.position i c hc
    rw [hp] at hpos
    exact hlock.position_advance hc (by rw [hp]; rfl) ⟨hpos, fun hne => absurd rfl hne⟩
  idle := h.idle_advance hc (by rw [hp]; nofun)
  loopClosed := h.loopClosed
  closeClosed := h.closeClosed
  answered := h.answered_of (w := []) (append_nil _).symm
    (State.Reaches.of_advance hc rfl rfl (.inl rfl))

/-- The read loop sends the response it has in hand. -/
theorem deliver {r : Result} {next : Option Cause} (hl : s.loop = .delivering i r next) :
    Matched ((s.send i r).setLoop (State.loopNext next)) := by
  have hnext := loopNext_cases next
  refine h.frame (map_phase_send s i r) rfl rfl (.inl rfl) id (fun hm => ?_) h.closeClosed
    (State.Reaches.of_modify rfl (fun j r' next' hd => ?_) (fun d hd k hk => ?_))
  · rw [show ((s.send i r).setLoop (State.loopNext next)).loop = State.loopNext next from rfl] at hm
    rcases hnext with hn | ⟨cause, hn⟩ <;> rw [hn] at hm <;> cases hm
  · rw [show ((s.send i r).setLoop (State.loopNext next)).loop = State.loopNext next from rfl] at hd
    rcases hnext with hn | ⟨cause, hn⟩ <;> rw [hn] at hd <;> cases hd
  rcases hk with hk | hk
  · exact .inl ⟨r, next, hl, hk⟩
  · exact .inr ⟨d, hd, .inr hk⟩

/-- `Close` writes `detach-client`: no call is under way, and the client is closed. -/
theorem detach (hlock : Locked s) (hclose : s.close = .detaching) {w : List Holder}
    (hw : w = s.written ∨ w = s.written ++ [.closer]) :
    Matched { s with writeMu := none, close := .detached, written := w } := by
  have hne := h.closeClosed (by rw [hclose]; rfl)
  obtain ⟨v, rfl⟩ : ∃ v, w = s.written ++ v := by
    rcases hw with rfl | rfl
    · exact ⟨[], (append_nil _).symm⟩
    · exact ⟨_, rfl⟩
  refine ⟨?_, fun j d hd => position_of_not_holds ?_, fun hopen => absurd hopen hne, h.loopClosed,
    fun _ => hne, h.answered_of rfl (State.Reaches.of_loop rfl (fun _ _ _ => id))⟩
  · show s.responses ≤ (s.written ++ v).length
    rw [length_append]
    exact Nat.le_add_right_of_le h.bound
  · have hheld := hlock.held j d hd
    rw [hlock.detaching.mp hclose] at hheld
    cases hj : d.phase.holds with
    | false => rfl
    | true => exact nomatch hheld.mp hj

/-- **Every step keeps blocks and lines matched, when tmux answers as it should.** -/
theorem step (hlock : Locked s) {a : Action} (hok : Answers s a) (hstep : Step s a s') : Matched s' := by
  cases hstep with
  | execRaw hp =>
    refine h.execRaw ?_ ?_
    all_goals rcases hp with rfl | ⟨_, rfl⟩ | rfl <;> rfl
  | @lock i c hc hp hmu =>
    refine ⟨h.bound, AllAt.modify (fun _ _ => trivial) (fun j d _ hd => ?_),
      h.idle_advance hc (by rw [hp]; nofun), h.loopClosed, h.closeClosed, h.answered_of (w := [])
      (append_nil _).symm (State.Reaches.of_advance hc rfl rfl (.inl rfl))⟩
    exact (h.position j d hd).mono rfl rfl (.inl rfl) id
  | refuse hc hp ho =>
    refine h.move hlock hc (by rw [hp]; rfl) trivial (by rw [hp]; nofun) ?_
    rcases ho with ⟨_, rfl⟩ | rfl <;> rfl
  | check hc hp hopen =>
    exact h.move hlock hc (by rw [hp]; rfl) (h.level_of_check hlock hc hp hopen) (by rw [hp]; nofun) rfl
  | busy hc hp _ | aborted hc hp => exact h.move hlock hc (by rw [hp]; rfl) trivial (by rw [hp]; nofun) rfl
  | register hc hp _ => exact h.register hlock hc hp
  | write hc hp => exact h.write hlock hc hp
  | @writeReturns i c hc hp =>
    have hpos : Position s i c.phase := h.position i c hc
    rw [hp] at hpos
    exact h.move hlock hc (by rw [hp]; rfl) hpos nofun rfl
  | @writeFails i c hc hp =>
    have hpos : Position s i c.phase := h.position i c hc
    rw [hp] at hpos
    exact h.move hlock hc (by rw [hp]; rfl) hpos.1 (by rw [hp]; nofun) rfl
  | drop hc hp =>
    exact h.clear hlock hc (by rw [hp]; rfl) (fun _ => trivial) (by rw [hp]; nofun) rfl
  | cancel hc hp => exact h.clear hlock hc (by rw [hp]; rfl) (fun _ => trivial) (fun _ => rfl) rfl
  | receive hc hp hr => exact h.receive hlock hc hp hr
  | @contextDone i c hc hp =>
    have hpos : Position s i c.phase := h.position i c hc
    rw [hp] at hpos
    exact h.move hlock hc (by rw [hp]; rfl) hpos.1 nofun rfl
  | abortCall hc hp ha => exact h.abortCall hlock hc hp ha
  | @unlock i c o hc hp =>
    refine ⟨h.bound, hlock.position_advance hc (by rw [hp]; rfl) trivial,
      h.idle_advance hc (by rw [hp]; nofun), h.loopClosed, h.closeClosed, h.answered_of (w := [])
      (append_nil _).symm (State.Reaches.of_advance hc rfl rfl (.inr ?_))⟩
    rw [hp]
    cases o <;> rfl
  | readLine _ hr => exact h.readStep hlock hok hr
  | deliver hl => exact h.deliver hl
  | abortLoop hl ha =>
    obtain ⟨hmatched, hne⟩ := h.abort ha (fun hm => h.loopClosed (by rw [hl]; exact hm))
    refine hmatched.setLoop (fun _ => hne) ?_
    intro i r next h
    cases h
  | close hclose => exact h.setClose nofun
  | abortClose hclose ha =>
    obtain ⟨hmatched, hne⟩ := h.abort ha (fun hm => h.closeClosed (by rw [hclose]; exact hm))
    exact hmatched.setClose (fun _ => hne)
  | skip hclose => exact h.setClose (fun _ => h.closeClosed (by rw [hclose]; rfl))
  | tryLock hclose hmu | closeTransport hclose =>
    have hne := h.closeClosed (by rw [hclose]; rfl)
    exact h.frame rfl rfl rfl (.inl rfl) id h.loopClosed (fun _ => hne)
      (State.Reaches.of_loop rfl (fun _ _ _ => id))
  | detach hclose hw => exact h.detach hlock hclose hw

end

end Matched

end Pandaemonium.Tmux.Client
