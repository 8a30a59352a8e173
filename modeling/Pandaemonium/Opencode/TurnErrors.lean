import Pandaemonium.Opencode.TurnOutcome

/-!
# `Opencode.TurnErrors` — a session error outweighs success

A `session.error` travels from the queue of the turn through the hand of a pump to the consumer that notes it.
`Custody` says where it can be: in the queue, in the hand of a pump, received and about to be noted, or noted,
in which case it stays in the progress of the handle. It leaves this path only by overflow of the queue
(`evicted`) or with a pump that returns because its context is done (`Action.loses`).

`resolve` reads the progress once, and does not look at the queue. So the turn ends with an error when the
session error has been noted by then; one that is still waiting in the queue or in the hand of a pump is passed
over, as it is by a resumed consumer, which resolves at once, or when the drain window has passed.
-/

namespace Pandaemonium.Opencode

open Llm
open List

variable {ρ : Type}

/-- The pump of the call has the session error `n` in hand. -/
def Consumer.holdsError (c : Consumer ρ) (n : Nat) : Bool :=
  match c.pump with
  | .holding m ev => m == n && ev.isError
  | _ => false

/-- The session error `n` has not reached a consumer: it is in the queue or in the hand of a pump. -/
def State.waiting (s : State ρ) (n : Nat) : Bool :=
  s.queue.pending.any (fun e => e.1 == n && e.2.isError) || s.consumers.any (fun c => c.holdsError n)

/-- A pump returns with the session error `n` in hand. -/
def Action.loses (s : State ρ) (n : Nat) : Action ρ → Bool
  | .pump i .drop =>
    match s.consumers[i]? with
    | some c => c.holdsError n
    | none => false
  | _ => false

theorem Consumer.holdsError_iff {c : Consumer ρ} {n : Nat} :
    c.holdsError n = true ↔ ∃ ev, c.pump = .holding n ev ∧ ev.isError = true := by
  unfold Consumer.holdsError
  constructor
  · intro h
    split at h
    · rename_i m ev hp
      rw [Bool.and_eq_true, beq_iff_eq] at h
      obtain ⟨rfl, hev⟩ := h
      exact ⟨ev, hp, hev⟩
    · cases h
  · rintro ⟨ev, hp, hev⟩
    simp [hp, hev]

/-! ## Where a session error is -/

/-- Where the session error `n` is, unless it is lost. -/
inductive Custody (s : State ρ) (n : Nat) : Prop where
  | queued (ev) : (n, ev) ∈ s.queue.pending → ev.isError = true → Custody s n
  | held (i) : At s.consumers (fun c => c.holdsError n = true) i → Custody s n
  | received (i) : At s.consumers (fun c => ∃ ev, c.phase = .noting n ev ∧ ev.isError = true) i → Custody s n
  | noted : s.progress.sessErr ≠ none → Custody s n

/-- Every session error that was pushed before the outcome was sent, and not evicted, is somewhere. -/
def Kept (n : Nat) (s : State ρ) : Prop := n ∈ s.errors → n ∉ s.evicted → Custody s n

theorem State.note_keeps (s : State ρ) (ev : Event) :
    (s.note ev).queue = s.queue ∧ (s.note ev).errors = s.errors ∧ (s.note ev).evicted = s.evicted ∧
      (s.progress.sessErr ≠ none → (s.note ev).progress.sessErr ≠ none) := by
  unfold State.note
  split
  · split
    · exact ⟨rfl, rfl, rfl, id⟩
    · exact ⟨rfl, rfl, rfl, id⟩
  · exact ⟨rfl, rfl, rfl, fun _ => nofun⟩
  · exact ⟨rfl, rfl, rfl, id⟩
  · exact ⟨rfl, rfl, rfl, id⟩

/-- `note` of a session error keeps it in the progress. -/
theorem State.note_error (s : State ρ) {ev : Event} (h : ev.isError = true) :
    (s.note ev).progress.sessErr ≠ none := by
  unfold Event.isError at h
  split at h
  · exact nofun
  · cases h

/-- What a step of `consume` does to the session errors: it takes one out of the hand of its pump, and it notes
    the one it has received. -/
theorem ConsumeMove.path {s s₁ : State ρ} {c c₁ : Consumer ρ} {a : ConsumeStep} (h : ConsumeMove s c a s₁ c₁) :
    (s₁.queue.pending = s.queue.pending ∧ s₁.errors = s.errors ∧ s₁.evicted = s.evicted) ∧
      (s.progress.sessErr ≠ none → s₁.progress.sessErr ≠ none) ∧
      (c₁.pump = c.pump ∨ ∃ n ev, c.pump = .holding n ev ∧ c₁.phase = .noting n ev) ∧
      ∀ n ev, c.phase = .noting n ev → ev.isError = true → s₁.progress.sessErr ≠ none := by
  cases h
  case event n ev hp hpump =>
    refine ⟨⟨rfl, rfl, rfl⟩, id, .inr ⟨n, ev, hpump, rfl⟩, fun m ev' hm => ?_⟩
    exact nomatch hp.symm.trans hm
  case note n ev hp =>
    obtain ⟨hqueue, herrors, hevicted, hmono⟩ := s.note_keeps ev
    refine ⟨⟨by rw [hqueue], herrors, hevicted⟩, hmono, .inl rfl, fun m ev' hm hev => ?_⟩
    cases hp.symm.trans hm
    exact s.note_error hev
  case unsubscribe o p hp =>
    refine ⟨⟨NotifyQueue.pending_close _, rfl, rfl⟩, id, .inl rfl, fun m ev hm => ?_⟩
    exact nomatch hp.symm.trans hm
  all_goals
    refine ⟨⟨rfl, rfl, rfl⟩, id, .inl rfl, fun m ev hm => ?_⟩
    simp_all

namespace Custody

variable {s s' : State ρ} {n i : Nat} {c c₁ : Consumer ρ}

/-- The queue may grow, and further calls may come. -/
theorem mono (h : Custody s n) (hqueue : ∀ ev, (n, ev) ∈ s.queue.pending → (n, ev) ∈ s'.queue.pending)
    (hcalls : ∃ cs, s'.consumers = s.consumers ++ cs) (hprogress : s'.progress = s.progress) :
    Custody s' n := by
  obtain ⟨cs, hcalls⟩ := hcalls
  have hat : ∀ {P : Consumer ρ → Prop} {j : Nat}, At s.consumers P j → At s'.consumers P j := by
    rintro P j ⟨d, hd, hP⟩
    refine ⟨d, ?_, hP⟩
    rw [hcalls, getElem?_append_left (List.getElem?_eq_some_iff.mp hd).1]
    exact hd
  cases h with
  | queued ev hev herr => exact .queued ev (hqueue ev hev) herr
  | held j hj => exact .held j (hat hj)
  | received j hj => exact .received j (hat hj)
  | noted hp => exact .noted (by rw [hprogress]; exact hp)

/-- The call `i` moves; what it or the queue had must be accounted for. -/
theorem move (h : Custody s n) (hc : s.consumers[i]? = some c) (hcalls : s'.consumers = s.consumers.set i c₁)
    (hqueue : ∀ ev, (n, ev) ∈ s.queue.pending → ev.isError = true → Custody s' n)
    (hprogress : s.progress.sessErr ≠ none → s'.progress.sessErr ≠ none)
    (hheld : c.holdsError n = true → Custody s' n)
    (hreceived : ∀ ev, c.phase = .noting n ev → ev.isError = true → Custody s' n) : Custody s' n := by
  cases h with
  | queued ev hev herr => exact hqueue ev hev herr
  | held j hj =>
    by_cases hij : j = i
    · subst hij
      obtain ⟨d, hd, hh⟩ := hj
      cases hc.symm.trans hd
      exact hheld hh
    · exact .held j (by rw [hcalls]; exact hj.set_ne hij)
  | received j hj =>
    by_cases hij : j = i
    · subst hij
      obtain ⟨d, hd, ev, hp, herr⟩ := hj
      cases hc.symm.trans hd
      exact hreceived ev hp herr
    · exact .received j (by rw [hcalls]; exact hj.set_ne hij)
  | noted hp => exact .noted (hprogress hp)

/-- A move that leaves pump and phase as they are. -/
theorem setCall (h : Custody s n) (hc : s.consumers[i]? = some c) (hpump : c₁.pump = c.pump)
    (hphase : c₁.phase = c.phase) : Custody (s.setConsumer i c₁) n := by
  refine h.move hc rfl (fun ev hev herr => .queued ev hev herr) id (fun hh => ?_) (fun ev hp herr => ?_)
  · refine .held i (At.set_self hc ?_)
    rw [Consumer.holdsError, hpump]
    exact hh
  · exact .received i (At.set_self hc ⟨ev, hphase.trans hp, herr⟩)

theorem consume (h : Custody s n) {s₁ : State ρ} (hc : s.consumers[i]? = some c) {a : ConsumeStep}
    (hm : ConsumeMove s c a s₁ c₁) : Custody (s₁.setConsumer i c₁) n := by
  obtain ⟨⟨hpending, _, _⟩, hmono, hpump, hnote⟩ := hm.path
  have hcalls : (s₁.setConsumer i c₁).consumers = s.consumers.set i c₁ := by
    show s₁.consumers.set i c₁ = _
    rw [hm.frame.2.1]
  have hset : ∀ {P : Consumer ρ → Prop}, P c₁ → At (s₁.setConsumer i c₁).consumers P i := by
    intro P hP
    rw [hcalls]
    exact At.set_self hc hP
  refine h.move hc hcalls (fun ev hev herr => .queued ev ?_ herr) hmono (fun hh => ?_)
    (fun ev hp herr => .noted (hnote n ev hp herr))
  · show (n, ev) ∈ s₁.queue.pending
    rw [hpending]
    exact hev
  · -- the pump hands over what it has, or keeps it
    rcases hpump with hpump | ⟨m, ev, hhold, hp⟩
    · refine .held i (hset ?_)
      rw [Consumer.holdsError, hpump]
      exact hh
    · obtain ⟨ev', hhold', herr⟩ := Consumer.holdsError_iff.mp hh
      cases hhold.symm.trans hhold'
      exact .received i (hset ⟨ev, hp, herr⟩)

theorem pump (h : Custody s n) {s₁ : State ρ} (hc : s.consumers[i]? = some c) {a : PumpStep}
    (hm : PumpMove s c a s₁ c₁) (hkeep : Action.loses s n (.pump i a) = false) :
    Custody (s₁.setConsumer i c₁) n := by
  cases hm with
  | item m ev rearm hp hnext =>
    refine h.move hc rfl (fun ev' hev herr => ?_) id (fun hh => ?_) (fun ev' hph herr => ?_)
    · -- the first event of the queue is the one in hand now
      cases hq : s.queue.pending with
      | nil =>
        rw [hq] at hev
        cases hev
      | cons x rest =>
        obtain ⟨⟨rearm', hitem, _⟩, hrest, _⟩ := NotifyQueue.next_cons hq
        cases hnext.symm.trans hitem
        rw [hq] at hev
        rcases mem_cons.mp hev with hx | hx
        · cases hx
          exact .held i (At.set_self hc (Consumer.holdsError_iff.mpr ⟨ev, rfl, herr⟩))
        refine .queued ev' ?_ herr
        show (n, ev') ∈ s.queue.next.1.pending
        rw [hrest]
        exact hx
    · obtain ⟨ev', hhold, _⟩ := Consumer.holdsError_iff.mp hh
      exact nomatch hp.symm.trans hhold
    · exact .received i (At.set_self hc ⟨ev', hph, herr⟩)
  | drop m ev hp hdone =>
    have hloses : c.holdsError n = false := by
      simpa [Action.loses, hc] using hkeep
    refine h.move hc rfl (fun ev' hev herr => .queued ev' hev herr) id (fun hh => ?_)
      (fun ev' hph herr => .received i (At.set_self hc ⟨ev', hph, herr⟩))
    rw [hloses] at hh
    cases hh
  | other _ p e hbefore _ =>
    refine h.move hc rfl (fun ev' hev herr => .queued ev' hev herr) id (fun hh => ?_)
      (fun ev' hph herr => .received i (At.set_self hc ⟨ev', hph, herr⟩))
    obtain ⟨ev', hhold, _⟩ := Consumer.holdsError_iff.mp hh
    exact absurd hhold (hbefore n ev')

end Custody

section

variable {s : State ρ} (ev : Event)

/-- The fields of the turn that a push touches, on a closed queue. -/
theorem State.push_closed (h : s.queue.closed = true) :
    (s.push ev).queue = s.queue ∧ (s.push ev).errors = s.errors ∧ (s.push ev).evicted = s.evicted := by
  simp [State.push, NotifyQueue.pushBounded_closed h]

/-- And on an open one. -/
theorem State.push_open (h : s.queue.closed = false) :
    (s.push ev).queue.pending
        = NotifyQueue.evict s.queue.pending eventQueueCapacity (fun _ => some (s.pushed, .gap))
          ++ [(s.pushed, ev)] ∧
      (s.push ev).errors
        = (if ev.isError && !s.wasSent then s.errors ++ [s.pushed] else s.errors) ∧
      (s.push ev).evicted
        = (if s.queue.pending.length ≥ eventQueueCapacity then
            s.evicted ++
              (s.queue.pending.take (s.queue.pending.length - (eventQueueCapacity - 2))).map Prod.fst
          else s.evicted) := by
  obtain ⟨hacc, hpending, _⟩ := NotifyQueue.pushBounded_open h (s.pushed, ev) eventQueueCapacity
    (fun _ => some (s.pushed, .gap))
  refine ⟨hpending, ?_, ?_⟩
  all_goals simp [State.push, hacc]

end

namespace Kept

variable {s s' : State ρ} {n : Nat}

theorem init : Kept n (machine ρ).init := by
  intro h
  cases h

/-- An accepted event is in the queue, and what it pushes out is recorded as evicted. -/
theorem push (h : Kept n s) (ev : Event) : Kept n (s.push ev) := by
  intro herr hevi
  cases hclosed : s.queue.closed with
  | true =>
    obtain ⟨hqueue, herrors, hevicted⟩ := s.push_closed ev hclosed
    rw [herrors] at herr
    rw [hevicted] at hevi
    exact (h herr hevi).mono (fun ev' hev => by rw [hqueue]; exact hev) ⟨[], (append_nil _).symm⟩ rfl
  | false =>
    obtain ⟨hpending, herrors, hevicted⟩ := s.push_open ev hclosed
    -- what was in the queue and is not evicted stays there
    have hstay : ∀ ev', (n, ev') ∈ s.queue.pending → (n, ev') ∈ (s.push ev).queue.pending := by
      intro ev' hev'
      rw [hpending]
      refine mem_append_left _ ?_
      unfold NotifyQueue.evict
      split
      · rename_i hfull
        rw [hevicted, if_pos hfull] at hevi
        rw [← take_append_drop (s.queue.pending.length - (eventQueueCapacity - 2)) s.queue.pending] at hev'
        rcases mem_append.mp hev' with hev' | hev'
        · exact absurd (mem_append_right _ (mem_map_of_mem hev')) hevi
        · exact mem_append_right _ hev'
      · exact hev'
    have hold : n ∉ s.evicted := by
      intro hmem
      refine hevi ?_
      rw [hevicted]
      split
      · exact mem_append_left _ hmem
      · exact hmem
    by_cases hmem : n ∈ s.errors
    · exact (h hmem hold).mono hstay ⟨[], (append_nil _).symm⟩ rfl
    -- the event is the session error itself
    rw [herrors] at herr
    split at herr
    · rename_i hnew
      rw [Bool.and_eq_true] at hnew
      rcases mem_append.mp herr with herr | herr
      · exact absurd herr hmem
      cases mem_singleton.mp herr
      refine .queued ev ?_ hnew.1
      rw [hpending]
      exact mem_append_right _ mem_cons_self
    · exact absurd herr hmem

/-- A step that touches neither the errors nor what is evicted. -/
theorem of_custody (h : Kept n s) (herrors : s'.errors = s.errors) (hevicted : s'.evicted = s.evicted)
    (hcustody : Custody s n → Custody s' n) : Kept n s' := by
  intro herr hevi
  rw [herrors] at herr
  rw [hevicted] at hevi
  exact hcustody (h herr hevi)

theorem acquire (h : Kept n s) (streaming : Bool) : Kept n (s.acquire streaming) := by
  unfold State.acquire
  split
  · exact h.of_custody rfl rfl (fun hs => hs.mono (fun _ => id) ⟨_, rfl⟩ rfl)
  split
  all_goals exact h.of_custody rfl rfl (fun hs => hs.mono (fun _ => id) ⟨_, rfl⟩ rfl)

/-- **A session error stays on its path, unless a pump returns with it.** -/
theorem step (h : Kept n s) {a : Action ρ} (hkeep : a.loses s n = false) (hstep : step s a = some s') :
    Kept n s' := by
  have hsame : ∀ {t : State ρ}, t.queue.pending = s.queue.pending → t.consumers = s.consumers →
      t.progress = s.progress → Custody s n → Custody t n := by
    intro t hqueue hcalls hprogress hs
    exact hs.mono (fun ev hev => by rw [hqueue]; exact hev) ⟨[], by rw [hcalls, append_nil]⟩ hprogress
  cases a with
  | promptReturns o | promptSends =>
    simp only [Opencode.step] at hstep
    split at hstep
    · cases hstep
      exact h.of_custody rfl rfl (hsame rfl rfl rfl)
    · cases hstep
  | push ev =>
    cases hstep
    exact h.push ev
  | busLost err =>
    cases hstep
    exact h.of_custody rfl rfl (hsame (NotifyQueue.pending_close _) rfl rfl)
  | endLifetime =>
    cases hstep
    exact h.of_custody rfl rfl (hsame rfl rfl rfl)
  | call streaming =>
    cases hstep
    exact h.acquire streaming
  | cancel i =>
    obtain ⟨c, s₁, c₁, hc, hf, rfl⟩ := stepAt_inv hstep
    cases hf
    exact h.of_custody rfl rfl (fun hs => hs.setCall hc rfl rfl)
  | consume i a =>
    obtain ⟨c, s₁, c₁, hc, hf, rfl⟩ := stepAt_inv hstep
    have hm := stepConsume_inv hf
    obtain ⟨_, herrors, hevicted⟩ := hm.path.1
    exact h.of_custody herrors hevicted (fun hs => hs.consume hc hm)
  | pump i a =>
    obtain ⟨c, s₁, c₁, hc, hf, rfl⟩ := stepAt_inv hstep
    have hm := stepPump_inv hf
    have hframe : s₁.errors = s.errors ∧ s₁.evicted = s.evicted := by
      cases hm <;> exact ⟨rfl, rfl⟩
    exact h.of_custody hframe.1 hframe.2 (fun hs => hs.pump hc hm hkeep)

end Kept

/-! ## The resolution -/

/-- The call is in `resolve` with a session error, or has an error to return. -/
def Phase.Fails : Phase ρ → Prop
  | .finishing _ p | .unsubscribing _ p | .concluding _ p => p.sessErr ≠ none
  | .leaving (.resolved r) | .releasing (.resolved r) | .returned (.resolved r) => ∃ e, r = .error e
  | _ => False

theorem resolution_error {p : TurnProgress} (h : p.sessErr ≠ none) (messageID : Bytes) (lifetimeDone : Bool)
    (o : TurnOutcome ρ) : ∃ e, resolution p messageID lifetimeDone o = .error e := by
  unfold resolution
  split
  · exact ⟨_, rfl⟩
  · next hnone => exact absurd hnone h

theorem ConsumeMove.fails {s s₁ : State ρ} {c c₁ : Consumer ρ} {a : ConsumeStep}
    (hm : ConsumeMove s c a s₁ c₁) (h : c.phase.Fails) : c₁.phase.Fails := by
  cases hm
  case conclude o p hp =>
    rw [hp] at h
    exact resolution_error h _ _ o
  case cancelPump r hp | release r hp =>
    rw [hp] at h
    cases r <;> exact h
  all_goals simp_all [Phase.Fails]

end Pandaemonium.Opencode
