import Pandaemonium.Lib.Bytes
import Pandaemonium.Lib.Machine
import Pandaemonium.Lib.SortedMap

/-!
# `Claude.Inflight` — inbound control requests and their cancellation

`controlProtocol` runs a handler goroutine for every inbound `control_request` and keeps the handler's
cancel function in the map `inflight`, under the request id the peer chose. An entry is removed by id, in
two places: by `cancelControlRequest` and by the deferred cleanup of each handler. `closeInflight` bars
new handlers and cancels those it finds in the map.

The machine below has one action for each critical section over `inflightMu` and for each call of a
cancel function outside it. Handlers are numbered in the order they were admitted; a cancel function is
the number of its handler.

* `Cancellable` — a running handler can still be cancelled, and after `closeInflight` none is left;
* `cancellable_of_admits` — it holds in every state of a run in which no request id is used again before
  the earlier handler has removed its entry (`Fresh`);
* `reused_id_strands_handler` — with an id used again it fails, and `closeInflight` leaves a running
  handler behind.
-/

namespace Pandaemonium.Claude.Inflight

open List
open SortedMap (get? insert erase)

/-- Where the goroutine of a handler is. -/
inductive Phase where
  /-- inside `handleControlRequest` -/
  | running
  /-- returned from it, the deferred cleanup still ahead -/
  | returned
  /-- its entry deleted, its `cancel` still to call -/
  | removed
  | finished
deriving DecidableEq, Repr

structure Handler where
  requestID : Bytes
  phase : Phase
  /-- its cancel function has been called -/
  cancelled : Bool
deriving DecidableEq, Repr

/-- The part of `controlProtocol` guarded by `inflightMu`, the handler goroutines and the calls under way. -/
structure State where
  handlers : List Handler
  /-- request id to the cancel function stored under it -/
  inflight : List (Bytes × Nat)
  closed : Bool
  /-- cancel functions a `cancelControlRequest` has taken out of the map and not called yet -/
  taken : List Nat
  /-- for each call of `closeInflight` the cancel functions it has collected and not called yet -/
  closers : List (List Nat)
  /-- the context every handler's context is derived from is done -/
  parentDone : Bool
deriving DecidableEq, Repr

namespace State

/-- `cancel()` of handler `h`. -/
def cancel (s : State) (h : Nat) : State :=
  { s with handlers := s.handlers.modify h (fun hd => { hd with cancelled := true }) }

def setPhase (s : State) (h : Nat) (p : Phase) : State :=
  { s with handlers := s.handlers.modify h (fun hd => { hd with phase := p }) }

/-- The context of a handler has been cancelled, by its own cancel function or through its parent. -/
def isCancelled (s : State) (hd : Handler) : Bool := hd.cancelled || s.parentDone

/-- `spawnControlRequest` on a line whose envelope decodes to the given request id, if it decodes. The
    handler counts as running from its registration on. -/
def spawnControlRequest (s : State) (env : Option Bytes) : State :=
  match env with
  | none => s
  | some id =>
    if id = [] then s
    else if s.closed then s
    else { s with
      handlers := s.handlers ++ [{ requestID := id, phase := .running, cancelled := false }]
      inflight := insert s.inflight id s.handlers.length }

/-- The critical section of `cancelControlRequest`. -/
def cancelControlRequest (s : State) (env : Option Bytes) : State :=
  match env with
  | none => s
  | some id =>
    if id = [] then s
    else
      match get? s.inflight id with
      | some h => { s with inflight := erase s.inflight id, taken := h :: s.taken }
      | none => { s with inflight := erase s.inflight id }

/-- The critical section of `closeInflight`. -/
def closeInflight (s : State) : State :=
  { s with closed := true, closers := s.closers ++ [s.inflight.map Prod.snd] }

/-- The critical section of a handler's deferred cleanup. -/
def cleanup (s : State) (h : Nat) (hd : Handler) : State :=
  { s.setPhase h .removed with inflight := erase s.inflight hd.requestID }

/-- The end of a handler's deferred cleanup: `cancel` and `handlerWG.Done`. -/
def finish (s : State) (h : Nat) : State :=
  { s with handlers := s.handlers.modify h (fun hd => { hd with phase := .finished, cancelled := true }) }

end State

inductive Action where
  /-- the read loop routes a `control_request` line -/
  | controlRequest (env : Option Bytes)
  /-- the read loop routes a `control_cancel_request` line -/
  | controlCancelRequest (env : Option Bytes)
  /-- `cancelControlRequest` calls the function it has taken -/
  | callTaken (h : Nat)
  /-- `handleControlRequest` of handler `h` returns -/
  | handlerReturns (h : Nat)
  | handlerCleanup (h : Nat)
  /-- the cleanup calls `cancel` and `handlerWG.Done` -/
  | handlerDone (h : Nat)
  | closeInflight
  /-- the `c`th `closeInflight` calls the next function it has collected -/
  | callCollected (c : Nat)
  | parentDone
deriving DecidableEq, Repr

def step (s : State) : Action → Option State
  | .controlRequest env => some (s.spawnControlRequest env)
  | .controlCancelRequest env => some (s.cancelControlRequest env)
  | .callTaken h =>
    if h ∈ s.taken then some { s.cancel h with taken := s.taken.erase h } else none
  | .handlerReturns h =>
    match s.handlers[h]? with
    | some hd => if hd.phase = .running then some (s.setPhase h .returned) else none
    | none => none
  | .handlerCleanup h =>
    match s.handlers[h]? with
    | some hd => if hd.phase = .returned then some (s.cleanup h hd) else none
    | none => none
  | .handlerDone h =>
    match s.handlers[h]? with
    | some hd => if hd.phase = .removed then some (s.finish h) else none
    | none => none
  | .closeInflight => some s.closeInflight
  | .callCollected c =>
    match s.closers[c]? with
    | some (h :: rest) => some { s.cancel h with closers := s.closers.set c rest }
    | _ => none
  | .parentDone => some { s with parentDone := true }

/-- The protocol of one session. -/
def machine : Machine State Action where
  init :=
    { handlers := [], inflight := [], closed := false, taken := [], closers := [],
      parentDone := false }
  step := step

/-! ## What is to hold -/

/-- Some call of `closeInflight` has returned. -/
def State.CloseReturned (s : State) : Prop := [] ∈ s.closers

instance (s : State) : Decidable s.CloseReturned := inferInstanceAs (Decidable ([] ∈ s.closers))

/-- **Running handlers stay cancellable.** -/
structure Cancellable (s : State) : Prop where
  /-- a running handler whose context is not cancelled is registered under its request id with its own
      cancel function, unless a `cancelControlRequest` has just taken that function to call it -/
  registered : AllAt s.handlers fun h hd => hd.phase = .running → s.isCancelled hd = false →
    get? s.inflight hd.requestID = some h ∨ h ∈ s.taken
  /-- once `closeInflight` has returned, no running handler is left with a live context -/
  drained : s.CloseReturned → ∀ hd ∈ s.handlers, hd.phase = .running → s.isCancelled hd = true
  /-- and none starts any more -/
  barred : s.CloseReturned → ∀ a s', step s a = some s' → s'.handlers.length = s.handlers.length

/-- A handler that may still delete the entry of its request id. -/
def Handler.Busy (hd : Handler) : Prop := hd.phase = .running ∨ hd.phase = .returned

/-- A handler of request id `id` has its cleanup ahead. -/
def State.Uses (s : State) (id : Bytes) : Prop := ∃ hd ∈ s.handlers, hd.requestID = id ∧ hd.Busy

/-- The discipline of the peer and of `Close`: a request id is not used again while an earlier handler of
    it has its cleanup ahead, and `closeInflight` does not fall between the two halves of a
    `cancelControlRequest` of a running handler. -/
def Fresh (s : State) : Action → Prop
  | .controlRequest (some id) => s.closed = true ∨ ¬ s.Uses id
  | .closeInflight => ∀ h ∈ s.taken, ∀ hd ∈ s.handlers[h]?, hd.phase = .running →
      s.isCancelled hd = true
  | _ => True

instance (hd : Handler) : Decidable hd.Busy :=
  inferInstanceAs (Decidable (hd.phase = .running ∨ hd.phase = .returned))

instance (s : State) (id : Bytes) : Decidable (s.Uses id) :=
  inferInstanceAs (Decidable (∃ hd ∈ s.handlers, hd.requestID = id ∧ hd.Busy))

instance (s : State) (a : Action) : Decidable (Fresh s a) := by
  unfold Fresh
  split <;> infer_instance

/-! ## The invariant -/

/-- Running, with a live context. -/
def State.Live (s : State) (hd : Handler) : Prop :=
  hd.phase = .running ∧ s.isCancelled hd = false

structure Inv (s : State) : Prop where
  registered : AllAt s.handlers fun h hd => s.Live hd →
    get? s.inflight hd.requestID = some h ∨ h ∈ s.taken
  /-- busy handlers have distinct request ids -/
  distinct : AllAt s.handlers fun h hd => AllAt s.handlers fun h' hd' => hd.Busy → hd'.Busy →
    hd.requestID = hd'.requestID → h = h'
  /-- every `closeInflight` under way has collected all handlers that are still live -/
  collected : ∀ cs ∈ s.closers, AllAt s.handlers fun h hd => s.Live hd → h ∈ cs
  barred : s.closers ≠ [] → s.closed = true

/-- The handlers of `s'` are those of `s`, each at most further on: none comes to life. -/
def Advances (s s' : State) : Prop :=
  AllAt s'.handlers fun h hd' => ∃ hd, s.handlers[h]? = some hd ∧ hd'.requestID = hd.requestID ∧
    (hd'.Busy → hd.Busy) ∧ (s'.Live hd' → s.Live hd)

variable {s s' : State}

theorem advances_of_handlers (hh : s'.handlers = s.handlers) (hp : s.parentDone = true → s'.parentDone = true) :
    Advances s s' := by
  intro h hd hhd
  rw [hh] at hhd
  refine ⟨hd, hhd, rfl, id, ?_⟩
  rintro ⟨hrun, hlive⟩
  refine ⟨hrun, ?_⟩
  unfold State.isCancelled at hlive ⊢
  cases hc : s.parentDone with
  | false => simpa using (Bool.or_eq_false_iff.mp hlive).1
  | true => simp [hp hc] at hlive

variable {h : Nat}

/-- One handler moves on in place. -/
theorem advances_modify {f : Handler → Handler} (hh : s'.handlers = s.handlers.modify h f)
    (hp : s'.parentDone = s.parentDone) (hf : ∀ hd, s.handlers[h]? = some hd → (f hd).requestID = hd.requestID ∧
    ((f hd).Busy → hd.Busy) ∧ (s.Live (f hd) → s.Live hd)) : Advances s s' := by
  have hlive : ∀ hd, s'.Live hd ↔ s.Live hd := by
    intro hd
    unfold State.Live State.isCancelled
    rw [hp]
  unfold Advances
  rw [hh]
  refine AllAt.modify ?_ ?_
  · intro hd hhd
    obtain ⟨hid, hbusy, hl⟩ := hf hd hhd
    exact ⟨hd, hhd, hid, hbusy, fun h' => hl ((hlive _).mp h')⟩
  · intro j hd _ hhd
    exact ⟨hd, hhd, rfl, id, (hlive _).mp⟩

/-- What is left to check of a step that admits no handler: the live handlers keep their entries, or have
    them taken, and the closers keep the live handlers they have to cancel. -/
theorem Inv.advance (hi : Inv s) (ha : Advances s s') (hreg : AllAt s'.handlers fun h hd => s'.Live hd → (get?
    s.inflight hd.requestID = some h ∨ h ∈ s.taken) → (get? s'.inflight hd.requestID = some h ∨ h ∈ s'.taken))
    (hcol : AllAt s'.handlers fun h hd => s'.Live hd → (get? s.inflight hd.requestID = some h ∨ h ∈ s.taken) →
    (∀ cs ∈ s.closers, h ∈ cs) → ∀ cs ∈ s'.closers, h ∈ cs) (hbar : s'.closers ≠ [] → s'.closed = true) :
    Inv s' where
  registered := by
    intro h hd' hhd' hlive
    obtain ⟨hd, hhd, hid, _, hl⟩ := ha h hd' hhd'
    exact hreg h hd' hhd' hlive (hid ▸ hi.registered h hd hhd (hl hlive))
  distinct := by
    intro h hd' hhd' j hj' hhj' hb hb' hid
    obtain ⟨hd, hhd, hidh, hbh, _⟩ := ha h hd' hhd'
    obtain ⟨hj, hhj, hidj, hbj, _⟩ := ha j hj' hhj'
    exact hi.distinct h hd hhd j hj hhj (hbh hb) (hbj hb') (by rw [← hidh, ← hidj, hid])
  collected := by
    intro cs hcs h hd' hhd' hlive
    obtain ⟨hd, hhd, hid, _, hl⟩ := ha h hd' hhd'
    exact hcol h hd' hhd' hlive (hid ▸ hi.registered h hd hhd (hl hlive))
      (fun cs hcs => hi.collected cs hcs h hd hhd (hl hlive)) cs hcs
  barred := hbar

theorem inv_init : Inv machine.init where
  registered := AllAt.nil
  distinct := AllAt.nil
  collected := by intro cs hcs; cases hcs
  barred := by intro h; exact absurd rfl h

/-! ## Every action keeps it -/

theorem advances_cancel (hh : s'.handlers = (s.cancel h).handlers) (hp : s'.parentDone = s.parentDone) :
    Advances s s' := by
  refine advances_modify hh hp ?_
  intro hd _
  refine ⟨rfl, id, ?_⟩
  rintro ⟨_, hlive⟩
  simp [State.isCancelled] at hlive

/-- A cancelled handler is live no more, so the numbers of the live ones differ from its own. -/
theorem ne_of_live_cancel (hh : s'.handlers = (s.cancel h).handlers) :
    AllAt s'.handlers fun j hd => s'.Live hd → j ≠ h := by
  rw [hh]
  refine AllAt.modify ?_ (fun j hd hne _ _ => hne)
  rintro hd _ ⟨_, hlive⟩
  simp [State.isCancelled] at hlive

section

variable (hi : Inv s)
include hi

theorem inv_spawnControlRequest {env : Option Bytes} (hok : Fresh s (.controlRequest env)) :
    Inv (s.spawnControlRequest env) := by
  unfold State.spawnControlRequest
  cases env with
  | none => exact hi
  | some id =>
    simp only
    split
    · exact hi
    split
    · exact hi
    rename_i hopen
    have hunused : ¬ s.Uses id := hok.resolve_left hopen
    have hclosers : s.closers = [] := by
      by_contra hne
      exact hopen (hi.barred hne)
    -- the entry of a live handler is under another id than the new one
    have hother : AllAt s.handlers fun _ hd => hd.Busy → id ≠ hd.requestID := by
      intro h hd hhd hb heq
      exact hunused ⟨hd, mem_of_getElem? hhd, heq.symm, hb⟩
    refine ⟨AllAt.concat ?_ ?_, AllAt.concat ?_ ?_, ?_, ?_⟩
    · intro h hd hhd hlive
      rw [SortedMap.get?_insert_ne (hother h hd hhd (Or.inl hlive.1))]
      exact hi.registered h hd hhd hlive
    · intro _
      exact Or.inl SortedMap.get?_insert_self
    · intro h hd hhd
      refine AllAt.concat (hi.distinct h hd hhd) ?_
      intro hb _ heq
      exact absurd heq.symm (hother h hd hhd hb)
    · refine AllAt.concat ?_ (fun _ _ _ => rfl)
      intro h hd hhd _ hb heq
      exact absurd heq (hother h hd hhd hb)
    · rw [hclosers]
      intro cs hcs
      cases hcs
    · exact fun hne => absurd hclosers hne

theorem inv_cancelControlRequest {env : Option Bytes} : Inv (s.cancelControlRequest env) := by
  unfold State.cancelControlRequest
  cases env with
  | none => exact hi
  | some reqID =>
    simp only
    split
    · exact hi
    split
    · rename_i h hget
      refine hi.advance (advances_of_handlers rfl id) ?_ (fun _ _ _ _ _ hc => hc) hi.barred
      intro j hd _ _ hreg
      rcases hreg with hreg | hreg
      · by_cases heq : hd.requestID = reqID
        · -- the entry that is taken out is the handler's own
          rw [heq, hget] at hreg
          exact Or.inr (Option.some.inj hreg ▸ mem_cons_self)
        · exact Or.inl ((SortedMap.get?_erase_ne heq).trans hreg)
      · exact Or.inr (mem_cons_of_mem _ hreg)
    · rename_i hget
      refine hi.advance (advances_of_handlers rfl id) ?_ (fun _ _ _ _ _ hc => hc) hi.barred
      intro j hd _ _ hreg
      refine hreg.imp ?_ id
      intro hreg
      have hne : hd.requestID ≠ reqID := by
        intro heq
        rw [heq, hget] at hreg
        cases hreg
      exact (SortedMap.get?_erase_ne hne).trans hreg

theorem inv_callTaken : Inv { s.cancel h with taken := s.taken.erase h } := by
  refine hi.advance (advances_cancel rfl rfl) ?_ (fun _ _ _ _ _ hc => hc) hi.barred
  intro j hd hj hlive hreg
  have hne : j ≠ h := ne_of_live_cancel (s := s) rfl j hd hj hlive
  exact hreg.imp id (mem_erase_of_ne hne).mpr

theorem inv_handlerReturns {hd : Handler} (hhd : s.handlers[h]? = some hd) (hrun : hd.phase = .running) :
    Inv (s.setPhase h .returned) := by
  refine hi.advance (advances_modify rfl rfl ?_) (fun _ _ _ _ hr => hr) (fun _ _ _ _ _ hc => hc) hi.barred
  intro hd' hhd'
  rw [hhd] at hhd'
  cases hhd'
  refine ⟨rfl, fun _ => Or.inl hrun, ?_⟩
  rintro ⟨hrun', _⟩
  cases hrun'

theorem inv_cleanup {hd : Handler} (hhd : s.handlers[h]? = some hd) (hret : hd.phase = .returned) :
    Inv (s.cleanup h hd) := by
  have hadv : Advances s (s.cleanup h hd) := by
    refine advances_modify rfl rfl ?_
    intro hd' _
    refine ⟨rfl, ?_, ?_⟩
    · rintro (hb | hb) <;> cases hb
    · rintro ⟨hrun, _⟩
      cases hrun
  refine hi.advance hadv ?_ (fun _ _ _ _ _ hc => hc) hi.barred
  intro j hj' hjj' hlive hreg
  refine hreg.imp ?_ id
  intro hreg
  obtain ⟨hj, hjj, hid, _, hl⟩ := hadv j hj' hjj'
  -- a live handler with the id that is deleted would be the one that cleans up, which is not running
  have hne : hj'.requestID ≠ hd.requestID := by
    intro heq
    have hjh : j = h := hi.distinct j hj hjj h hd hhd (Or.inl (hl hlive).1) (Or.inr hret) (hid ▸ heq)
    subst hjh
    rw [hhd] at hjj
    cases hjj
    rw [(hl hlive).1] at hret
    cases hret
  exact (SortedMap.get?_erase_ne hne).trans hreg

theorem inv_finish : Inv (s.finish h) := by
  refine hi.advance (advances_modify rfl rfl ?_) (fun _ _ _ _ hr => hr) (fun _ _ _ _ _ hc => hc) hi.barred
  intro hd _
  refine ⟨rfl, ?_, ?_⟩
  · rintro (hb | hb) <;> cases hb
  · rintro ⟨hrun, _⟩
    cases hrun

theorem inv_closeInflight (hok : Fresh s .closeInflight) : Inv s.closeInflight := by
  refine hi.advance (advances_of_handlers rfl id) (fun _ _ _ _ hr => hr) ?_ (fun _ => rfl)
  intro h hd hhd hlive hreg hcol cs hcs
  rcases mem_append.mp hcs with hcs | hcs
  · exact hcol cs hcs
  rw [mem_singleton] at hcs
  subst hcs
  rcases hreg with hreg | htaken
  · exact mem_map_of_mem (f := Prod.snd) (SortedMap.mem_of_get? hreg)
  · have hc : s.isCancelled hd = true := hok h htaken hd hhd hlive.1
    exact absurd (hc.symm.trans hlive.2) (by decide)

theorem inv_callCollected {c : Nat} {rest : List Nat} (hc : s.closers[c]? = some (h :: rest)) :
    Inv { s.cancel h with closers := s.closers.set c rest } := by
  have hmem : (h :: rest) ∈ s.closers := mem_of_getElem? hc
  refine hi.advance (advances_cancel rfl rfl) (fun _ _ _ _ hr => hr) ?_ ?_
  · intro j hd hj hlive _ hcol cs hcs
    have hne : j ≠ h := ne_of_live_cancel (s := s) rfl j hd hj hlive
    rcases mem_or_eq_of_mem_set hcs with hcs | rfl
    · exact hcol cs hcs
    · exact (mem_cons.mp (hcol _ hmem)).resolve_left hne
  · intro _
    refine hi.barred ?_
    intro hnil
    rw [hnil] at hmem
    cases hmem

end

theorem inv_step {a : Action} (hi : Inv s) (hok : Fresh s a) (hstep : step s a = some s') : Inv s' := by
  cases a
  all_goals simp only [step] at hstep
  case controlRequest env => cases hstep; exact inv_spawnControlRequest hi hok
  case controlCancelRequest env => cases hstep; exact inv_cancelControlRequest hi
  case callTaken h =>
    split at hstep
    · cases hstep; exact inv_callTaken hi
    · cases hstep
  case handlerReturns h =>
    split at hstep
    · split at hstep
      · cases hstep; exact inv_handlerReturns hi ‹_› ‹_›
      · cases hstep
    · cases hstep
  case handlerCleanup h =>
    split at hstep
    · split at hstep
      · cases hstep; exact inv_cleanup hi ‹_› ‹_›
      · cases hstep
    · cases hstep
  case handlerDone h =>
    split at hstep
    · split at hstep
      · cases hstep; exact inv_finish hi
      · cases hstep
    · cases hstep
  case closeInflight => cases hstep; exact inv_closeInflight hi hok
  case callCollected c =>
    split at hstep
    · cases hstep; exact inv_callCollected hi ‹_›
    · cases hstep
  case parentDone =>
    cases hstep
    exact hi.advance (advances_of_handlers rfl (fun _ => rfl)) (fun _ _ _ _ hr => hr)
      (fun _ _ _ _ _ hc => hc) hi.barred

/-! ## The runs of a session -/

/-- Behind the barrier no step admits a handler. -/
theorem handlers_length_of_closed {a : Action} (hc : s.closed = true) (hstep : step s a = some s') :
    s'.handlers.length = s.handlers.length := by
  cases a
  all_goals simp only [step] at hstep
  case controlRequest env =>
    cases hstep
    unfold State.spawnControlRequest
    cases env with
    | none => rfl
    | some id => simp [hc]
  case controlCancelRequest env =>
    cases hstep
    unfold State.cancelControlRequest
    cases env with
    | none => rfl
    | some id =>
      simp only
      split
      · rfl
      · split <;> rfl
  case closeInflight | parentDone => cases hstep; rfl
  case callTaken h | callCollected c =>
    split at hstep <;> cases hstep
    exact length_modify ..
  case handlerReturns h | handlerCleanup h | handlerDone h =>
    split at hstep
    · split at hstep <;> cases hstep
      exact length_modify ..
    · cases hstep

theorem Inv.cancellable (hi : Inv s) : Cancellable s where
  registered := by
    intro h hd hhd hrun hlive
    exact hi.registered h hd hhd ⟨hrun, hlive⟩
  drained := by
    intro hret hd hmem hrun
    obtain ⟨h, hhd⟩ := mem_iff_getElem?.mp hmem
    -- the closer that has returned has nothing left to cancel
    cases hc : s.isCancelled hd with
    | true => rfl
    | false => exact absurd (hi.collected [] hret h hd hhd ⟨hrun, hc⟩) not_mem_nil
  barred := by
    intro hret a s' hstep
    exact handlers_length_of_closed (hi.barred (ne_nil_of_mem hret)) hstep

/-- **Running handlers stay cancellable, and `closeInflight` leaves none behind**, in every run whose
    request ids are fresh. -/
theorem cancellable_of_admits {as : List Action} {s : State}
    (has : machine.Admits Fresh machine.init as) (hrun : machine.run as = some s) : Cancellable s :=
  (Machine.admits_invariant inv_init (fun _ _ _ => inv_step) has hrun).cancellable

/-- A session that cancels a request, uses its id again once the handler is gone, and closes. -/
theorem cancellable_after_reuse :
    ∃ s, machine.run [.controlRequest (some [0x72]), .controlCancelRequest (some [0x72]),
        .callTaken 0, .handlerReturns 0, .handlerCleanup 0, .controlRequest (some [0x72]),
        .closeInflight, .callCollected 0] = some s ∧ s.CloseReturned ∧ Cancellable s := by
  refine Machine.exists_run_and (by decide +kernel) ?_
  exact Machine.exists_run (by decide +kernel) (fun _ hrun => cancellable_of_admits (by decide +kernel) hrun)

/-- **A request id used again strands the earlier handler.** Two `control_request` lines with one id:
    the second registration overwrites the first, so `closeInflight` returns with the first handler
    running in a live context. -/
theorem reused_id_strands_handler :
    ∃ s, machine.run [.controlRequest (some [0x72]), .controlRequest (some [0x72]), .closeInflight,
        .callCollected 0] = some s ∧ s.CloseReturned ∧
      s.handlers[0]? = some { requestID := [0x72], phase := .running, cancelled := false } ∧
      s.parentDone = false ∧ get? s.inflight [0x72] = some 1 ∧ s.taken = [] ∧ ¬ Cancellable s := by
  have hrun : machine.run [.controlRequest (some [0x72]), .controlRequest (some [0x72]),
        .closeInflight, .callCollected 0] =
      some
        { handlers := [⟨[0x72], .running, false⟩, ⟨[0x72], .running, true⟩]
          inflight := [([0x72], 1)], closed := true, taken := [], closers := [[]]
          parentDone := false } := by decide +kernel
  refine ⟨_, hrun, by decide +kernel, rfl, rfl, by decide +kernel, rfl, ?_⟩
  intro hc
  have := hc.drained (by decide) ⟨[0x72], .running, false⟩ mem_cons_self rfl
  cases this

end Pandaemonium.Claude.Inflight
