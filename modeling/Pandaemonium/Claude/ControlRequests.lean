import Pandaemonium.Claude.CorrelationRuns

/-!
# `Claude.ControlRequests` — outbound control requests and `Close`

`Claude.Correlation` leaves open when the write of a request succeeds and who calls `failPending`. This is the
session around it. `writeMessage` holds `writeMu` and writes only while the transport is there; the read loop
routes responses and, when reading fails, fails the requests; `Close` closes the transport, clears it under
`writeMu`, and fails the requests.

A state holds a state of the protocol, and a step takes at most one step of it, so the invariant of
`Claude.CorrelationRuns` holds here as it stands.

`no_request_outlives_close` is the main result: registration comes before the write, a successful write
before the transport is cleared, and the clearing before the final `failPending`, so once that has run no
call waits on an empty channel. It is about fewer than 2^64 calls: the counter of the ids is an
`atomic.Uint64`, and a wrapped id would take the place of an entry that is still registered.
-/

namespace Pandaemonium.Claude.ControlRequests

open List
open Correlation (Call Phase Failer ResponseEnvelope)

/-- The read loop. -/
inductive LoopPhase where
  | reading
  /-- out of the loop -/
  | ended
deriving DecidableEq, Repr

/-- How far `Close` has come. -/
inductive ClosePhase where
  | notCalled
  | transportClosed
  | transportCleared
  /-- in `failPending`, the `j`th call of it -/
  | failingPending (j : Nat)
  | pendingFailed
deriving DecidableEq, Repr

/-- One start of the client, with its read loop and `Close`. -/
structure State where
  protocol : Correlation.State
  /-- `c.transport` is not nil -/
  transport : Bool
  /-- the call that holds `writeMu` -/
  writeMu : Option Nat
  loop : LoopPhase
  close : ClosePhase
deriving DecidableEq, Repr

inductive Action where
  /-- a step of the calls, of the router or of a `failPending` -/
  | protocol (a : Correlation.Action)
  /-- `writeMessage` takes `writeMu` -/
  | lockWrite (i : Nat)
  /-- `WriteJSON` returns and `writeMu` is released -/
  | endWrite (i : Nat) (succeeds : Bool)
  /-- the read loop routes a `control_response` line -/
  | readResponse (env : Option ResponseEnvelope)
  /-- `ReadJSON` fails -/
  | readFails (cause : Bytes)
  /-- `rawMessages.push` fails: the loop ends without failing the requests -/
  | pushFails
  /-- `Close`: `tr.Close()` -/
  | closeTransport
  /-- `Close`: the transport is cleared under `writeMu` -/
  | clearTransport
  /-- `Close`: `failPending` is called -/
  | closeFails
  /-- `Close`: `failPending` returns -/
  | closeFailed
deriving DecidableEq, Repr

/-- The steps of the protocol that are up to the session. -/
def ofSession : Correlation.Action → Bool
  | .endWrite .. | .readResponse _ | .failPending _ => true
  | _ => false

/-- A step of the protocol. -/
def State.protocolStep (s : State) (a : Correlation.Action) : Option State :=
  (Correlation.step s.protocol a).map (fun p => { s with protocol := p })

/-- **A step of the session.** -/
def step (s : State) : Action → Option State
  | .protocol a => if ofSession a then none else s.protocolStep a
  | .lockWrite i =>
    if s.writeMu = none then
      if s.transport then
        if ∃ c ∈ s.protocol.calls[i]?, c.phase = .unwritten then some { s with writeMu := some i } else none
      else s.protocolStep (.endWrite i false)
    else none
  | .endWrite i succeeds =>
    if s.writeMu = some i then { s with writeMu := none }.protocolStep (.endWrite i succeeds) else none
  | .readResponse env => if s.loop = .reading then s.protocolStep (.readResponse env) else none
  | .readFails cause =>
    if s.loop = .reading ∧ s.protocol.router = .idle then
      { s with loop := .ended }.protocolStep (.failPending (some cause))
    else none
  | .pushFails =>
    if s.loop = .reading ∧ s.protocol.router = .idle then some { s with loop := .ended } else none
  | .closeTransport =>
    if s.close = .notCalled then some { s with close := .transportClosed } else none
  | .clearTransport =>
    -- `writeMu` must be free: a write under way ends first
    if s.close = .transportClosed ∧ s.writeMu = none then
      some { s with close := .transportCleared, transport := false }
    else none
  | .closeFails =>
    if s.close = .transportCleared then
      { s with close := .failingPending s.protocol.failers.length }.protocolStep (.failPending none)
    else none
  | .closeFailed =>
    match s.close with
    | .failingPending j =>
      match s.protocol.failers[j]? with
      | some (.sending _ []) => some { s with close := .pendingFailed }
      | _ => none
    | _ => none

def machine : Machine State Action where
  init :=
    { protocol := Correlation.machine.init, transport := true, writeMu := none, loop := .reading
      close := .notCalled }
  step := step

/-! ## What a step of the protocol does to a call that waits -/

/-- Call `i` waits on an empty channel. -/
def Starving (p : Correlation.State) (i : Nat) : Prop :=
  ∃ c, p.calls[i]? = some c ∧ c.phase = .waiting ∧ c.chan = none

/-- The `j`th `failPending` has yet to send to call `i`, or to collect the channels. -/
def Owes (p : Correlation.State) (j i : Nat) : Prop :=
  match p.failers[j]? with
  | some (.sending _ chans) => i ∈ chans
  | some _ => True
  | none => False

section

variable {p p' : Correlation.State} {a : Correlation.Action} {i j k : Nat} {c : Call}

theorem Starving.of_set (hcalls : p'.calls = p.calls.set k c) (hc : c.phase ≠ .waiting) (h : Starving p' i) :
    Starving p i := by
  obtain ⟨d, hd, hphase, hchan⟩ := h
  rw [hcalls] at hd
  by_cases hki : k = i
  · subst hki
    have hlt : k < p.calls.length := by simpa using (List.getElem?_eq_some_iff.mp hd).1
    rw [getElem?_set_self hlt] at hd
    cases hd
    exact absurd hphase hc
  · rw [getElem?_set_ne hki] at hd
    exact ⟨d, hd, hphase, hchan⟩

/-- A send leaves no call starving that it goes to. -/
theorem Starving.of_send {r : Correlation.ControlResult} (hcalls : p'.calls = (p.send k r).calls)
    (h : Starving p' i) : Starving p i ∧ i ≠ k := by
  obtain ⟨d, hd, hphase, hchan⟩ := h
  rw [hcalls, Correlation.State.send, getElem?_modify] at hd
  obtain ⟨d₀, hd₀, rfl⟩ := Option.map_eq_some_iff.mp hd
  by_cases hki : k = i
  · rw [if_pos hki] at hchan
    cases hc : d₀.chan with
    | none | some r => simp [hc] at hchan
  · rw [if_neg hki] at hphase hchan
    exact ⟨⟨d₀, hd₀, hphase, hchan⟩, Ne.symm hki⟩

/-- **Only a successful write makes a call starve.** -/
theorem starving_of_step (hstep : Correlation.step p a = some p') (ha : ∀ i, a ≠ .endWrite i true)
    (h : Starving p' i) : Starving p i := by
  cases a
  all_goals simp only [Correlation.step] at hstep
  case begin suffix marshals =>
    cases hstep
    obtain ⟨d, hd, hphase, hchan⟩ := h
    rcases Nat.lt_or_ge i p.calls.length with hlt | hge
    · exact ⟨d, (getElem?_append_left hlt).symm.trans hd, hphase, hchan⟩
    · have hd := (getElem?_append_right hge).symm.trans hd
      rw [mem_singleton.mp (mem_of_getElem? hd)] at hphase
      cases marshals <;> cases hphase
  case lock t =>
    cases t
    all_goals simp only [Correlation.State.lock] at hstep
    all_goals repeat' split at hstep
    all_goals cases hstep
    · exact h.of_set rfl (by simp)
    · exact h.of_set rfl (by simp)
    · exact h
    · exact h
  case critical t =>
    cases t
    all_goals simp only [Correlation.State.critical] at hstep
    all_goals repeat' split at hstep
    all_goals cases hstep
    · exact h.of_set rfl (by simp)
    · exact h.of_set rfl (by simp)
    · exact h
    · exact h
    · exact h
  case endWrite k succeeds =>
    cases succeeds with
    | true => exact absurd rfl (ha k)
    | false =>
      split at hstep
      · split at hstep <;> cases hstep
        exact h.of_set rfl (by simp)
      · cases hstep
  case receive k =>
    repeat' split at hstep
    all_goals cases hstep
    exact h.of_set rfl (by simp)
  case timeout k | contextDone k =>
    repeat' split at hstep
    all_goals cases hstep
    exact h.of_set rfl (by simp)
  case readResponse env =>
    split at hstep <;> cases hstep
    unfold Correlation.State.routeControlResponse at h
    repeat' split at h
    all_goals exact h
  case routerSend =>
    split at hstep <;> cases hstep
    exact (h.of_send rfl).1
  case failPending cause => cases hstep; exact h
  case failerSend k l =>
    repeat' split at hstep
    all_goals cases hstep
    exact (h.of_send rfl).1

/-- A `failPending` owes what it owed where another one moves. -/
theorem Owes.set_ne {f : Failer} (h : Owes p j i) (hfailers : p'.failers = p.failers.set k f) (hne : k ≠ j) :
    Owes p' j i := by
  unfold Owes at h ⊢
  rwa [hfailers, getElem?_set_ne hne]

theorem owes_set_self {f : Failer} (hk : p.failers[j]? = some f) {f' : Failer}
    (hfailers : p'.failers = p.failers.set j f') (hf : ∀ cause chans, f' = .sending cause chans → i ∈ chans) :
    Owes p' j i := by
  unfold Owes
  rw [hfailers, getElem?_set_self (List.getElem?_eq_some_iff.mp hk).1]
  cases f' with
  | sending cause chans => exact hf cause chans rfl
  | entered cause | locked cause => trivial

/-- **What is owed to a call that starves stays owed**: the channels are collected from the map, where the call
    is registered. -/
theorem owes_of_step (hi : Correlation.Inv p) (hstep : Correlation.step p a = some p') (h : Owes p j i)
    (hs : Starving p i) (hs' : Starving p' i) : Owes p' j i := by
  have hkeep : p'.failers = p.failers → Owes p' j i := by
    intro hfailers
    unfold Owes at h ⊢
    rwa [hfailers]
  cases a
  all_goals simp only [Correlation.step] at hstep
  case lock t =>
    split at hstep
    · cases t
      all_goals simp only [Correlation.State.lock] at hstep
      case failer k =>
        split at hstep <;> cases hstep
        rename_i hk
        by_cases hkj : k = j
        · subst hkj
          exact owes_set_self hk rfl (by simp)
        · exact h.set_ne rfl hkj
      all_goals repeat' split at hstep
      all_goals cases hstep
      all_goals exact hkeep rfl
    · cases hstep
  case critical t =>
    cases t
    all_goals simp only [Correlation.State.critical] at hstep
    case failer k =>
      split at hstep <;> cases hstep
      rename_i hk
      by_cases hkj : k = j
      · subst hkj
        refine owes_set_self hk rfl ?_
        rintro _ _ ⟨⟩
        obtain ⟨c, hc, hphase, -⟩ := hs
        have hentry := (hi.calls i c hc).entered (by rw [hphase]; trivial)
        exact mem_map.mpr ⟨_, SortedMap.mem_of_get? hentry, rfl⟩
      · exact h.set_ne rfl hkj
    all_goals repeat' split at hstep
    all_goals cases hstep
    all_goals exact hkeep rfl
  case readResponse env =>
    split at hstep <;> cases hstep
    refine hkeep ?_
    unfold Correlation.State.routeControlResponse
    repeat' split
    all_goals rfl
  case failPending cause =>
    cases hstep
    unfold Owes at h ⊢
    cases hj : p.failers[j]? with
    | none => rw [hj] at h; exact h.elim
    | some f =>
      rw [hj] at h
      rw [getElem?_append_left (List.getElem?_eq_some_iff.mp hj).1, hj]
      exact h
  case failerSend k l =>
    split at hstep
    · rename_i cause chans hk
      split at hstep <;> cases hstep
      by_cases hkj : k = j
      · subst hkj
        refine owes_set_self hk rfl ?_
        rintro _ _ ⟨⟩
        unfold Owes at h
        rw [hk] at h
        exact (mem_erase_of_ne (hs'.of_send rfl).2).mpr h
      · exact h.set_ne rfl hkj
    · cases hstep
  all_goals
    refine hkeep ?_
    repeat' split at hstep
    all_goals cases hstep
    all_goals rfl

end

/-! ## The invariant -/

/-- The transport has been cleared. -/
def ClosePhase.Cleared : ClosePhase → Prop
  | .transportCleared | .failingPending _ | .pendingFailed => True
  | .notCalled | .transportClosed => False

/-- What every run keeps. -/
structure Inv (s : State) : Prop where
  protocol : Correlation.Inv s.protocol
  /-- a write holds `writeMu` with the transport in place -/
  inPlace : s.writeMu ≠ none → s.transport = true
  cleared : s.close.Cleared → s.transport = false
  owed : ∀ j, s.close = .failingPending j → ∀ i, Starving s.protocol i → Owes s.protocol j i
  fed : s.close = .pendingFailed → ∀ i, ¬ Starving s.protocol i

theorem inv_init : Inv machine.init where
  protocol := Correlation.inv_init
  inPlace h := absurd rfl h
  cleared := nofun
  owed := nofun
  fed := nofun

section

variable {s s' : State} {a : Correlation.Action}

theorem protocolStep_inv (h : s.protocolStep a = some s') :
    ∃ p, Correlation.step s.protocol a = some p ∧ s' = { s with protocol := p } := by
  obtain ⟨p, hp, rfl⟩ := Option.map_eq_some_iff.mp h
  exact ⟨p, hp, rfl⟩

/-- A step of the protocol after which no call starves that did not before. -/
theorem inv_protocolStep (hi : Inv s) (hlen : s'.protocol.calls.length < 2 ^ 64)
    (ha : ∀ i, a ≠ .endWrite i true) (h : s.protocolStep a = some s') : Inv s' := by
  obtain ⟨p, hp, rfl⟩ := protocolStep_inv h
  refine ⟨Correlation.inv_step hi.protocol hlen hp, hi.inPlace, hi.cleared, ?_, ?_⟩
  · intro j hclose i hs
    have hs₀ := starving_of_step hp ha hs
    exact owes_of_step hi.protocol hp (hi.owed j hclose i hs₀) hs₀ hs
  · intro hclose i hs
    exact hi.fed hclose i (starving_of_step hp ha hs)

/-- A write ends with the transport in place, so `Close` is not failing the requests yet. -/
theorem inv_endWrite {i : Nat} {succeeds : Bool} (hi : Inv s) (hlen : s'.protocol.calls.length < 2 ^ 64)
    (hmu : s.writeMu = some i)
    (h : { s with writeMu := none }.protocolStep (.endWrite i succeeds) = some s') : Inv s' := by
  obtain ⟨p, hp, rfl⟩ := protocolStep_inv h
  have hopen : ¬ s.close.Cleared := by
    intro hcl
    have hin := hi.inPlace (by rw [hmu]; nofun)
    rw [hi.cleared hcl] at hin
    cases hin
  refine ⟨Correlation.inv_step hi.protocol hlen hp, fun h => absurd rfl h, hi.cleared, ?_, ?_⟩
  · intro j hclose
    exact absurd (hclose ▸ trivial : s.close.Cleared) hopen
  · intro hclose
    exact absurd (hclose ▸ trivial : s.close.Cleared) hopen

theorem inv_closeFails (hi : Inv s) (hlen : s'.protocol.calls.length < 2 ^ 64) (hc : s.close = .transportCleared)
    (h : { s with close := .failingPending s.protocol.failers.length }.protocolStep (.failPending none) =
      some s') : Inv s' := by
  obtain ⟨p, hp, rfl⟩ := protocolStep_inv h
  have hcleared := hi.cleared (by rw [hc]; trivial)
  refine ⟨Correlation.inv_step hi.protocol hlen hp, hi.inPlace, fun _ => hcleared, ?_, nofun⟩
  rintro j ⟨⟩ i -
  cases hp
  simp [Owes]

theorem inv_closeFailed {j : Nat} {cause : Option Bytes} (hi : Inv s) (hc : s.close = .failingPending j)
    (hf : s.protocol.failers[j]? = some (.sending cause [])) : Inv { s with close := .pendingFailed } := by
  refine ⟨hi.protocol, hi.inPlace, fun _ => hi.cleared (by rw [hc]; trivial), nofun, ?_⟩
  intro _ i hs
  have howes := hi.owed j hc i hs
  unfold Owes at howes
  rw [hf] at howes
  exact not_mem_nil howes

theorem inv_step {a : Action} (hi : Inv s) (hlen : s'.protocol.calls.length < 2 ^ 64)
    (hstep : step s a = some s') : Inv s' := by
  cases a
  all_goals simp only [step] at hstep
  case protocol a =>
    split at hstep
    · cases hstep
    rename_i ha
    refine inv_protocolStep hi hlen ?_ hstep
    rintro i rfl
    exact ha rfl
  case lockWrite i =>
    split at hstep
    · split at hstep
      · rename_i ht
        split at hstep <;> cases hstep
        exact { hi with inPlace := fun _ => ht }
      · exact inv_protocolStep hi hlen (by simp) hstep
    · cases hstep
  case endWrite i succeeds =>
    split at hstep
    · exact inv_endWrite hi hlen ‹_› hstep
    · cases hstep
  case readResponse env =>
    split at hstep
    · exact inv_protocolStep hi hlen (by simp) hstep
    · cases hstep
  case readFails cause =>
    split at hstep
    · exact @inv_protocolStep { s with loop := .ended } s' _ { hi with } hlen (by simp) hstep
    · cases hstep
  case pushFails =>
    split at hstep <;> cases hstep
    exact { hi with }
  case closeTransport =>
    split at hstep <;> cases hstep
    exact ⟨hi.protocol, hi.inPlace, nofun, nofun, nofun⟩
  case clearTransport =>
    split at hstep <;> cases hstep
    rename_i h
    exact ⟨hi.protocol, fun hmu => absurd h.2 hmu, fun _ => rfl, nofun, nofun⟩
  case closeFails =>
    split at hstep
    · exact inv_closeFails hi hlen ‹_› hstep
    · cases hstep
  case closeFailed =>
    split at hstep
    · split at hstep <;> cases hstep
      exact inv_closeFailed hi ‹_› ‹_›
    · cases hstep

/-- Calls are only added. -/
theorem length_le_of_step {a : Action} (hstep : step s a = some s') :
    s.protocol.calls.length ≤ s'.protocol.calls.length := by
  have hprotocol : ∀ {s₀ a}, State.protocolStep s₀ a = some s' → s₀.protocol = s.protocol →
      s.protocol.calls.length ≤ s'.protocol.calls.length := by
    intro s₀ a h hs₀
    obtain ⟨p, hp, rfl⟩ := protocolStep_inv h
    rw [← hs₀]
    exact Correlation.length_le_of_step hp
  cases a
  all_goals simp only [step] at hstep
  case protocol a =>
    split at hstep
    · cases hstep
    · exact hprotocol hstep rfl
  case lockWrite i =>
    split at hstep
    · split at hstep
      · split at hstep <;> cases hstep
        exact Nat.le_refl _
      · exact hprotocol hstep rfl
    · cases hstep
  case endWrite | readResponse | readFails | closeFails =>
    split at hstep
    · exact hprotocol hstep rfl
    · cases hstep
  all_goals repeat' split at hstep
  all_goals cases hstep
  all_goals exact Nat.le_refl _

end

/-! ## The runs of a session -/

/-- **No control request outlives `Close`.** Once `Close` has executed its `failPending`, every one of fewer
    than 2^64 calls whose write succeeded and that still waits finds a result in its channel. -/
theorem no_request_outlives_close {as : List Action} {s : State} (hrun : machine.run as = some s)
    (hlen : s.protocol.calls.length < 2 ^ 64) (hclose : s.close = .pendingFailed) :
    ∀ c ∈ s.protocol.calls, c.phase = .waiting → c.chan ≠ none := by
  have hi : Inv s := Machine.bounded_invariant (f := fun s => s.protocol.calls.length)
    (fun _ _ _ => length_le_of_step) (fun _ => inv_init) (fun _ _ _ hi _ => inv_step hi) hrun hlen
  intro c hc hwait hchan
  obtain ⟨i, hi'⟩ := mem_iff_getElem?.mp hc
  exact hi.fed hclose i ⟨c, hi', hwait, hchan⟩

/-- A request is written while `Close` closes the transport, and another registered too late to be
    written: the first is answered, the second fails to write. -/
theorem request_answered_by_close :
    ∃ s, machine.run [.protocol (.begin [] true), .protocol (.begin [] true), .protocol (.lock (.call 0)),
        .protocol (.critical (.call 0)), .lockWrite 0, .closeTransport, .endWrite 0 true, .clearTransport,
        .protocol (.lock (.call 1)), .protocol (.critical (.call 1)), .closeFails,
        .protocol (.lock (.failer 0)), .protocol (.critical (.failer 0)), .lockWrite 1,
        .protocol (.failerSend 0 0), .protocol (.failerSend 0 1), .closeFailed] = some s ∧
      s.close = .pendingFailed ∧
      s.protocol.calls.map Call.phase = [.waiting, .leaving .writeError] ∧
      ∀ c ∈ s.protocol.calls, c.phase = .waiting → c.chan ≠ none := by
  refine Machine.exists_run_and (by decide +kernel) (Machine.exists_run_and (by decide +kernel) ?_)
  refine Machine.exists_run (by decide +kernel) (fun s hrun => no_request_outlives_close hrun ?_ ?_)
  · exact Machine.of_run (I := fun s => s.protocol.calls.length < 2 ^ 64) hrun (by decide +kernel)
  · exact Machine.of_run (I := fun s => s.close = .pendingFailed) hrun (by decide +kernel)

end Pandaemonium.Claude.ControlRequests
