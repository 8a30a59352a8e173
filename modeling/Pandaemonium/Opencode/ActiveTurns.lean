import Pandaemonium.Lib.Bytes
import Pandaemonium.Lib.Machine

/-!
# `Opencode.ActiveTurns` — one active turn for each session (`api.go`, `client.go`)

`Session.Run` and `Session.Turn` reserve the slot of their session with `beginTurn` and give it back with
`endTurn`. The slot is an entry of the map `activeTurns` and has no owner: `endTurn` deletes whatever entry is
there. `Run` ends its turn in a deferred call; `Turn` does so when it cannot subscribe, when `goWork` refuses the
prompt, or on the goroutine of the prompt once that has returned.

The machine has one action for each critical section over `c.mu`, for the results of `ensureBus` and `subscribe`,
which may fail at any time, and for the two ends of a prompt request. A call of `Turn` and the goroutine it starts
are one thread: the caller does nothing after `goWork`. Input that `promptParams` refuses and the abort of a
cancelled `Run` touch no slot and are left out, and so is the wait group, for which `Close` waits a bounded time
only. The `history` records who acquired and who released which slot.

`one_active_turn` is the main result: in every state of every run the slots are used as if they had owners
(`SlotDiscipline`).
-/

namespace Pandaemonium.Opencode.ActiveTurns

open List

inductive Kind where
  | run
  | turn
deriving DecidableEq, Repr

/-- Where a call of `Run` or `Turn` is. -/
inductive Phase where
  /-- `Turn`, in `ensureBus` -/
  | dialing
  /-- before `beginTurn` -/
  | starting
  /-- `beginTurn` has succeeded; `Run` goes on to the prompt, `Turn` to `subscribe` -/
  | begun
  /-- `Turn`, before `goWork` -/
  | subscribed
  /-- the goroutine of `Turn`, before the prompt -/
  | spawned
  /-- the prompt request is in flight -/
  | prompting
  /-- `Prompt` has returned -/
  | prompted
  /-- `Turn` could not subscribe, or `goWork` has refused the prompt -/
  | refused
  /-- `endTurn` has returned -/
  | ended
  | finished
deriving DecidableEq, Repr

structure Call where
  kind : Kind
  sessionID : Bytes
  phase : Phase
deriving DecidableEq, Repr

inductive SlotEvent where
  | acquired (i : Nat) (sessionID : Bytes)
  | released (i : Nat) (sessionID : Bytes)
deriving DecidableEq, Repr

namespace SlotEvent

def call : SlotEvent → Nat
  | .acquired i _ | .released i _ => i

def sessionID : SlotEvent → Bytes
  | .acquired _ sid | .released _ sid => sid

end SlotEvent

structure State where
  closed : Bool
  /-- the keys of the map -/
  activeTurns : List Bytes
  calls : List Call
  /-- the latest event first; no step reads it -/
  history : List SlotEvent
deriving DecidableEq, Repr

namespace State

def goto (s : State) (i : Nat) (c : Call) (ph : Phase) : State :=
  { s with calls := s.calls.set i { c with phase := ph } }

/-- `beginTurn`. -/
def beginTurn (s : State) (i : Nat) (c : Call) : State :=
  if s.closed then s.goto i c .finished
  else if c.sessionID ∈ s.activeTurns then s.goto i c .finished
  else { s.goto i c .begun with
    activeTurns := c.sessionID :: s.activeTurns
    history := .acquired i c.sessionID :: s.history }

/-- `endTurn`. -/
def endTurn (s : State) (i : Nat) (c : Call) : State :=
  { s.goto i c .ended with
    activeTurns := s.activeTurns.filter (· ≠ c.sessionID)
    history := .released i c.sessionID :: s.history }

/-- `goWork`, for the goroutine of a turn. -/
def goWork (s : State) (i : Nat) (c : Call) : State := s.goto i c (if s.closed then .refused else .spawned)

/-- `Prompt` up to the request: none is sent by a closed client, or when it cannot be built. -/
def prompt (s : State) (i : Nat) (c : Call) (sends : Bool) : State :=
  s.goto i c (if s.closed then .prompted else if sends then .prompting else .prompted)

end State

inductive Action where
  | run (sessionID : Bytes)
  | turn (sessionID : Bytes)
  | ensureBus (i : Nat) (succeeds : Bool)
  | beginTurn (i : Nat)
  | subscribe (i : Nat) (succeeds : Bool)
  | goWork (i : Nat)
  | prompt (i : Nat) (sends : Bool)
  | promptReturns (i : Nat)
  | endTurn (i : Nat)
  /-- what follows the turn: `unsubscribe`, the outcome, the return -/
  | finish (i : Nat)
  /-- `Close` sets `c.closed` -/
  | close
deriving DecidableEq, Repr

def step (s : State) : Action → Option State
  | .run sid => some { s with calls := s.calls ++ [⟨.run, sid, .starting⟩] }
  | .turn sid => some { s with calls := s.calls ++ [⟨.turn, sid, .dialing⟩] }
  | .ensureBus i succeeds =>
    match s.calls[i]? with
    | some c =>
      if c.phase = .dialing then some (s.goto i c (if succeeds then .starting else .finished))
      else none
    | none => none
  | .beginTurn i =>
    match s.calls[i]? with
    | some c => if c.phase = .starting then some (s.beginTurn i c) else none
    | none => none
  | .subscribe i succeeds =>
    match s.calls[i]? with
    | some c =>
      if c.kind = .turn ∧ c.phase = .begun then
        some (s.goto i c (if succeeds then .subscribed else .refused))
      else none
    | none => none
  | .goWork i =>
    match s.calls[i]? with
    | some c => if c.phase = .subscribed then some (s.goWork i c) else none
    | none => none
  | .prompt i sends =>
    match s.calls[i]? with
    | some c =>
      if c.kind = .run ∧ c.phase = .begun ∨ c.phase = .spawned then some (s.prompt i c sends)
      else none
    | none => none
  | .promptReturns i =>
    match s.calls[i]? with
    | some c => if c.phase = .prompting then some (s.goto i c .prompted) else none
    | none => none
  | .endTurn i =>
    match s.calls[i]? with
    | some c => if c.phase = .prompted ∨ c.phase = .refused then some (s.endTurn i c) else none
    | none => none
  | .finish i =>
    match s.calls[i]? with
    | some c => if c.phase = .ended then some (s.goto i c .finished) else none
    | none => none
  | .close => some { s with closed := true }

/-- A client, attached and without turns. -/
def machine : Machine State Action where
  init := { closed := false, activeTurns := [], calls := [], history := [] }
  step := step

/-! ## The discipline -/

namespace Phase

/-- From a successful `beginTurn` to `endTurn`. -/
def Holds : Phase → Prop
  | .begun | .subscribed | .spawned | .prompting | .prompted | .refused => True
  | .dialing | .starting | .ended | .finished => False

end Phase

/-- Call `i` is a started turn of the session. -/
def State.Holder (s : State) (sid : Bytes) (i : Nat) : Prop :=
  At s.calls (fun c => c.sessionID = sid ∧ c.phase.Holds) i

/-- What the events make of the slot of a session: it is acquired only when it is free, and released only by the
    call that has acquired it. -/
inductive Turns (sid : Bytes) : List SlotEvent → Option Nat → Prop
  | nil : Turns sid [] none
  | other {e h o} : e.sessionID ≠ sid → Turns sid h o → Turns sid (e :: h) o
  | acquired {h} (i) : Turns sid h none → Turns sid (.acquired i sid :: h) (some i)
  | released {h i} : Turns sid h (some i) → Turns sid (.released i sid :: h) none

/-- The events of call `i`. -/
def eventsOf (i : Nat) (h : List SlotEvent) : List SlotEvent := h.filter (fun e => e.call = i)

/-- The slots of the client are in order. -/
structure SlotDiscipline (s : State) : Prop where
  /-- of two prompt requests in flight for one session there is only one -/
  inFlight : ∀ (i j : Nat) (c d : Call), s.calls[i]? = some c → s.calls[j]? = some d →
    c.phase = .prompting → d.phase = .prompting → c.sessionID = d.sessionID → i = j
  /-- a session id is in the map exactly while a started turn holds it -/
  active : ∀ sid, sid ∈ s.activeTurns ↔ ∃ i, s.Holder sid i
  /-- and then it is one turn -/
  unique : ∀ sid i j, s.Holder sid i → s.Holder sid j → i = j
  /-- every slot is released by the call that acquired it, before it is acquired again -/
  turns : ∀ sid, ∃ o, Turns sid s.history o
  /-- a call that is over has released, once, what it had acquired -/
  settled : ∀ (i : Nat) (c : Call), s.calls[i]? = some c → c.phase = .finished →
    eventsOf i s.history = [] ∨
      eventsOf i s.history = [.released i c.sessionID, .acquired i c.sessionID]

/-! ## The invariant -/

/-- The events of a call, by where it is. -/
def Phase.Ledger (i : Nat) (sid : Bytes) (es : List SlotEvent) : Phase → Prop
  | .dialing | .starting => es = []
  | .begun | .subscribed | .spawned | .prompting | .prompted | .refused => es = [.acquired i sid]
  | .ended => es = [.released i sid, .acquired i sid]
  | .finished => es = [] ∨ es = [.released i sid, .acquired i sid]

structure Inv (s : State) : Prop where
  ledger : AllAt s.calls fun i c => c.phase.Ledger i c.sessionID (eventsOf i s.history)
  numbered : ∀ e ∈ s.history, e.call < s.calls.length
  /-- the events, the map and the phases of the calls agree on the holder of a slot -/
  slots : ∀ sid, ∃ o, Turns sid s.history o ∧ (sid ∈ s.activeTurns ↔ o.isSome) ∧
    ∀ i, o = some i ↔ s.Holder sid i

theorem inv_init : Inv machine.init where
  ledger := AllAt.nil
  numbered := by intro e he; cases he
  slots := by
    intro sid
    refine ⟨none, .nil, by simp [machine], ?_⟩
    intro i
    constructor
    · nofun
    · rintro ⟨c, hc, _⟩
      simp [machine] at hc

section

variable {s : State} {i j : Nat} {c : Call} {ph : Phase} {sid : Bytes}

theorem holder_iff (hc : s.calls[i]? = some c) : s.Holder sid i ↔ c.sessionID = sid ∧ c.phase.Holds := by
  constructor
  · rintro ⟨d, hd, h⟩
    rw [hc] at hd
    cases hd
    exact h
  · exact fun h => ⟨c, hc, h⟩

theorem holder_goto_self (hc : s.calls[i]? = some c) :
    (s.goto i c ph).Holder sid i ↔ c.sessionID = sid ∧ ph.Holds :=
  holder_iff (c := { c with phase := ph }) (getElem?_set_self (List.getElem?_eq_some_iff.mp hc).1)

theorem holder_goto_ne (hij : j ≠ i) : (s.goto i c ph).Holder sid j ↔ s.Holder sid j := by
  unfold State.Holder At State.goto
  simp only [getElem?_set_ne (Ne.symm hij)]

theorem eventsOf_cons_self {e : SlotEvent} {h : List SlotEvent} (he : e.call = i) :
    eventsOf i (e :: h) = e :: eventsOf i h := filter_cons_of_pos (by simpa using he)

theorem eventsOf_cons_ne {e : SlotEvent} {h : List SlotEvent} (he : e.call ≠ i) :
    eventsOf i (e :: h) = eventsOf i h := filter_cons_of_neg (by simpa using he)

/-- The events of a call, from where it is. -/
theorem Inv.ledger_at (hi : Inv s) (hc : s.calls[i]? = some c) (hphase : c.phase = ph) :
    ph.Ledger i c.sessionID (eventsOf i s.history) := hphase ▸ hi.ledger i c hc

theorem Inv.eventsOf_new (hi : Inv s) : eventsOf s.calls.length s.history = [] := by
  refine filter_eq_nil_iff.mpr ?_
  intro e he
  have := hi.numbered e he
  simp only [decide_eq_true_eq]
  omega

/-- A call enters. -/
theorem Inv.enter (hi : Inv s) (hc : ¬ c.phase.Holds) (hl : c.phase.Ledger s.calls.length c.sessionID []) :
    Inv { s with calls := s.calls ++ [c] } where
  ledger := AllAt.concat hi.ledger (hi.eventsOf_new ▸ hl)
  numbered e he := by
    rw [length_append]
    exact Nat.lt_add_right _ (hi.numbered e he)
  slots sid := by
    obtain ⟨o, hturns, hactive, hholder⟩ := hi.slots sid
    refine ⟨o, hturns, hactive, ?_⟩
    intro k
    refine (hholder k).trans ⟨At.concat_left, ?_⟩
    intro hk
    rcases hk.of_concat with hk | ⟨_, _, hk⟩
    · exact hk
    · exact absurd hk hc

/-- A step of one call that has to do with no slot. -/
theorem Inv.move (hi : Inv s) (hc : s.calls[i]? = some c) (hholds : ph.Holds ↔ c.phase.Holds)
    (hl : ∀ es, c.phase.Ledger i c.sessionID es → ph.Ledger i c.sessionID es) : Inv (s.goto i c ph) where
  ledger := AllAt.set (fun _ => hl _ (hi.ledger i c hc)) (fun j d _ hd => hi.ledger j d hd)
  numbered e he := by
    rw [State.goto, length_set]
    exact hi.numbered e he
  slots sid := by
    obtain ⟨o, hturns, hactive, hholder⟩ := hi.slots sid
    refine ⟨o, hturns, hactive, ?_⟩
    intro k
    by_cases hk : k = i
    · subst hk
      rw [hholder, holder_iff hc, holder_goto_self hc, hholds]
    · rw [hholder, holder_goto_ne hk]

/-- The slot is taken by a call that finds it free. -/
theorem inv_acquire (hi : Inv s) (hc : s.calls[i]? = some c) (hphase : c.phase = .starting)
    (hfree : c.sessionID ∉ s.activeTurns) :
    Inv { s.goto i c .begun with
      activeTurns := c.sessionID :: s.activeTurns
      history := .acquired i c.sessionID :: s.history } where
  ledger := by
    refine AllAt.set ?_ ?_
    · intro _
      have hempty : eventsOf i s.history = [] := hi.ledger_at hc hphase
      show eventsOf i (.acquired i c.sessionID :: s.history) = [.acquired i c.sessionID]
      rw [eventsOf_cons_self (i := i) (e := .acquired i c.sessionID) rfl, hempty]
    · intro j d hj hd
      show d.phase.Ledger j d.sessionID (eventsOf j (.acquired i c.sessionID :: s.history))
      rw [eventsOf_cons_ne (Ne.symm hj)]
      exact hi.ledger j d hd
  numbered := by
    intro e he
    rw [State.goto, length_set]
    rcases mem_cons.mp he with rfl | he
    · exact (List.getElem?_eq_some_iff.mp hc).1
    · exact hi.numbered e he
  slots := by
    intro sid
    obtain ⟨o, hturns, hactive, hholder⟩ := hi.slots sid
    by_cases hsid : c.sessionID = sid
    · subst hsid
      -- the id is not in the map, so nobody holds the slot
      have ho : o = none := by
        cases o with
        | none => rfl
        | some k => exact absurd (hactive.mpr rfl) hfree
      subst ho
      refine ⟨some i, .acquired i hturns, by simp, ?_⟩
      intro k
      by_cases hk : k = i
      · subst hk
        refine ⟨fun _ => (holder_goto_self hc).mpr ⟨rfl, trivial⟩, fun _ => rfl⟩
      refine ⟨fun h => absurd (Option.some.inj h).symm hk, ?_⟩
      intro h
      exact nomatch (hholder k).mpr ((holder_goto_ne hk).mp h)
    · refine ⟨o, .other hsid hturns, ?_, ?_⟩
      · rw [← hactive]
        simp [Ne.symm hsid]
      intro k
      by_cases hk : k = i
      · subst hk
        have hnot : ¬ (c.sessionID = sid ∧ Phase.begun.Holds) := fun h => hsid h.1
        refine ⟨?_, fun h => absurd ((holder_goto_self hc).mp h) hnot⟩
        intro h
        exact absurd ((holder_iff hc).mp ((hholder k).mp h)).1 hsid
      · exact (hholder k).trans (holder_goto_ne hk).symm

/-- The slot is given back by the call that holds it. -/
theorem inv_release (hi : Inv s) (hc : s.calls[i]? = some c)
    (hphase : c.phase = .prompted ∨ c.phase = .refused) : Inv (s.endTurn i c) where
  ledger := by
    refine AllAt.set ?_ ?_
    · intro _
      have hone : eventsOf i s.history = [.acquired i c.sessionID] := by
        rcases hphase with h | h
        · exact hi.ledger_at hc h
        · exact hi.ledger_at hc h
      show eventsOf i (.released i c.sessionID :: s.history) =
        [.released i c.sessionID, .acquired i c.sessionID]
      rw [eventsOf_cons_self (i := i) (e := .released i c.sessionID) rfl, hone]
    · intro j d hj hd
      show d.phase.Ledger j d.sessionID (eventsOf j (.released i c.sessionID :: s.history))
      rw [eventsOf_cons_ne (Ne.symm hj)]
      exact hi.ledger j d hd
  numbered := by
    intro e he
    rw [State.endTurn, State.goto, length_set]
    rcases mem_cons.mp he with rfl | he
    · exact (List.getElem?_eq_some_iff.mp hc).1
    · exact hi.numbered e he
  slots := by
    intro sid
    obtain ⟨o, hturns, hactive, hholder⟩ := hi.slots sid
    by_cases hsid : c.sessionID = sid
    · subst hsid
      have ho : o = some i := by
        refine (hholder i).mpr ((holder_iff hc).mpr ⟨rfl, ?_⟩)
        rcases hphase with h | h <;> rw [h] <;> trivial
      subst ho
      refine ⟨none, .released hturns, by simp [State.endTurn], ?_⟩
      intro k
      refine ⟨nofun, ?_⟩
      intro h
      by_cases hk : k = i
      · subst hk
        exact absurd ((holder_goto_self hc).mp h).2 id
      · exact absurd (Option.some.inj ((hholder k).mpr ((holder_goto_ne hk).mp h))).symm hk
    · refine ⟨o, .other hsid hturns, ?_, ?_⟩
      · rw [← hactive]
        simp [State.endTurn, Ne.symm hsid]
      intro k
      by_cases hk : k = i
      · subst hk
        refine ⟨?_, fun h => absurd ((holder_goto_self hc).mp h).1 hsid⟩
        intro h
        exact absurd ((holder_iff hc).mp ((hholder k).mp h)).1 hsid
      · exact (hholder k).trans (holder_goto_ne hk).symm

end

/-! ## Every action keeps it -/

theorem inv_step {s s' : State} {a : Action} (hi : Inv s) (hstep : step s a = some s') : Inv s' := by
  cases a
  all_goals simp only [step] at hstep
  case run sid | turn sid =>
    cases hstep
    exact hi.enter id rfl
  case ensureBus i succeeds =>
    split at hstep
    · rename_i c hc
      split at hstep <;> cases hstep
      rename_i hphase
      cases succeeds with
      | true => exact hi.move hc (by rw [hphase]; rfl) (by rw [hphase]; exact fun _ h => h)
      | false => exact hi.move hc (by rw [hphase]; rfl) (by rw [hphase]; exact fun _ h => .inl h)
    · cases hstep
  case beginTurn i =>
    split at hstep
    · rename_i c hc
      split at hstep <;> cases hstep
      rename_i hphase
      have hrefused : Inv (s.goto i c .finished) :=
        hi.move hc (by rw [hphase]; rfl) (by rw [hphase]; exact fun _ h => .inl h)
      unfold State.beginTurn
      split
      · exact hrefused
      split
      · exact hrefused
      · exact inv_acquire hi hc hphase ‹_›
    · cases hstep
  case subscribe i succeeds =>
    split at hstep
    · rename_i c hc
      split at hstep <;> cases hstep
      rename_i hphase
      cases succeeds with
      | true | false => exact hi.move hc (by rw [hphase.2]; rfl) (by rw [hphase.2]; exact fun _ h => h)
    · cases hstep
  case goWork i =>
    split at hstep
    · rename_i c hc
      split at hstep <;> cases hstep
      rename_i hphase
      unfold State.goWork
      split
      · exact hi.move hc (by rw [hphase]; rfl) (by rw [hphase]; exact fun _ h => h)
      · exact hi.move hc (by rw [hphase]; rfl) (by rw [hphase]; exact fun _ h => h)
    · cases hstep
  case prompt i sends =>
    split at hstep
    · rename_i c hc
      split at hstep <;> cases hstep
      rename_i hphase
      have hmove : ∀ ph, ph = .prompting ∨ ph = .prompted → Inv (s.goto i c ph) := by
        rintro ph (rfl | rfl) <;> rcases hphase with ⟨_, h⟩ | h <;>
          exact hi.move hc (by rw [h]; rfl) (by rw [h]; exact fun _ h => h)
      unfold State.prompt
      split
      · exact hmove _ (.inr rfl)
      split
      · exact hmove _ (.inl rfl)
      · exact hmove _ (.inr rfl)
    · cases hstep
  case promptReturns i =>
    split at hstep
    · rename_i c hc
      split at hstep <;> cases hstep
      rename_i hphase
      exact hi.move hc (by rw [hphase]; rfl) (by rw [hphase]; exact fun _ h => h)
    · cases hstep
  case endTurn i =>
    split at hstep
    · split at hstep <;> cases hstep
      exact inv_release hi ‹_› ‹_›
    · cases hstep
  case finish i =>
    split at hstep
    · rename_i c hc
      split at hstep <;> cases hstep
      rename_i hphase
      exact hi.move hc (by rw [hphase]; rfl) (by rw [hphase]; exact fun _ h => .inr h)
    · cases hstep
  case close =>
    cases hstep
    exact ⟨hi.ledger, hi.numbered, hi.slots⟩

/-! ## The runs of a client -/

theorem Inv.unique {s : State} {sid : Bytes} {i j : Nat} (hi : Inv s) (h : s.Holder sid i)
    (h' : s.Holder sid j) : i = j := by
  obtain ⟨o, _, _, hholder⟩ := hi.slots sid
  have := (hholder i).mpr h
  rw [(hholder j).mpr h'] at this
  exact (Option.some.inj this).symm

/-- **One active turn for each session.** For every interleaving of `Run` and `Turn` calls on any sessions, with
    prompts that return, a bus that fails and a client that is closed at any time, the slots are in order. -/
theorem one_active_turn {as : List Action} {s : State} (hrun : machine.run as = some s) : SlotDiscipline s := by
  have hi : Inv s := Machine.invariant inv_init (fun _ _ _ => inv_step) hrun
  refine ⟨?_, ?_, fun sid i j => hi.unique, ?_, ?_⟩
  · intro i j c d hc hd hcp hdp hsid
    have hi₁ : s.Holder d.sessionID i := (holder_iff hc).mpr ⟨hsid, by rw [hcp]; trivial⟩
    have hj₁ : s.Holder d.sessionID j := (holder_iff hd).mpr ⟨rfl, by rw [hdp]; trivial⟩
    exact hi.unique hi₁ hj₁
  · intro sid
    obtain ⟨o, _, hactive, hholder⟩ := hi.slots sid
    rw [hactive]
    cases o with
    | none =>
      refine ⟨nofun, ?_⟩
      rintro ⟨i, h⟩
      exact nomatch (hholder i).mpr h
    | some i => exact ⟨fun _ => ⟨i, (hholder i).mp rfl⟩, fun _ => rfl⟩
  · intro sid
    obtain ⟨o, hturns, _⟩ := hi.slots sid
    exact ⟨o, hturns⟩
  · intro i c hc hphase
    exact hi.ledger_at hc hphase

/-- `Run` holds the slot of a session when the bus lets a `Turn` start; the `Turn` is refused, starts after the
    `Run` has ended, and is refused its goroutine by `Close`. -/
theorem one_active_turn_handover :
    ∃ s, machine.run [.turn [0x73], .run [0x73], .beginTurn 1, .prompt 1 true, .ensureBus 0 true,
        .beginTurn 0, .promptReturns 1, .endTurn 1, .turn [0x73], .ensureBus 2 true, .beginTurn 2,
        .subscribe 2 true, .close, .goWork 2, .finish 1, .endTurn 2, .finish 2] = some s ∧
      s.calls.map Call.phase = [.finished, .finished, .finished] ∧ s.activeTurns = [] ∧
      s.history = [.released 2 [0x73], .acquired 2 [0x73], .released 1 [0x73], .acquired 1 [0x73]] ∧
      SlotDiscipline s := by
  refine Machine.exists_run_and (by decide +kernel) ?_
  refine Machine.exists_run_and (by decide +kernel) ?_
  refine Machine.exists_run_and (by decide +kernel) ?_
  exact Machine.exists_run (by decide +kernel) (fun _ hrun => one_active_turn hrun)

end Pandaemonium.Opencode.ActiveTurns
