import Pandaemonium.Opencode.Turn

/-!
# `Opencode.TurnOutcome` — the outcome of a turn is kept and resolved once

Two invariants over every interleaving.

* `Exclusive` — at most one call is the active consumer, and the handle is finished exactly from the `finish`
  of the one call that resolves the turn.
* `Carried` — once it has been sent the outcome is in its channel, on the handle, or with the call that has
  just received it; every outcome that a call works with is that one.

A third one is about the run as well as the state: `Traced` says in which states of the run a call has read
what its resolution is computed from.

From them `resolved_once`: at most one call obtains a resolution, later calls are told that the turn is
completed, and a `Run` that is active when the outcome has been sent always has a step of its own to take and
reaches a resolution computed from that outcome by its own steps. What lowers the distance to the resolution is
a rank of the phases (`Consumer.rank`).
-/

namespace Pandaemonium.Opencode

variable {ρ : Type}

variable {o : TurnOutcome ρ}

namespace Phase

/-- The call is the consumer of the turn. -/
def active : Phase ρ → Bool
  | .returned _ => false
  | _ => true

/-- The outcome the call is working with. -/
def outcome : Phase ρ → Option (TurnOutcome ρ)
  | .received o | .judging o | .resolving o | .finishing o _ | .unsubscribing o _ | .concluding o _ => some o
  | _ => none

/-- The progress the call has read in `resolve`. -/
def read : Phase ρ → Option TurnProgress
  | .finishing _ p | .unsubscribing _ p | .concluding _ p => some p
  | _ => none

/-- What the call returns or has returned. -/
def result : Phase ρ → Option (ConsumeResult ρ)
  | .leaving r | .releasing r | .returned r => some r
  | _ => none

/-- The call has finished the turn. -/
def settled : Phase ρ → Bool
  | .unsubscribing _ _ | .concluding _ _ => true
  | .leaving (.resolved _) | .releasing (.resolved _) | .returned (.resolved _) => true
  | _ => false

/-- The call is in its loop. -/
def waits : Phase ρ → Bool
  | .selecting | .noting _ _ | .yielding | .weighing => true
  | _ => false

theorem of_outcome {p : Phase ρ} (h : p.outcome = some o) :
    p.waits = false ∧ p.result = none ∧ p ≠ .resuming ∧ p ≠ .yielding := by
  cases p <;> first | (cases h; done) | exact ⟨rfl, rfl, nofun, nofun⟩

theorem of_waits {p : Phase ρ} (h : p.waits = true) :
    p.outcome = none ∧ p.result = none ∧ p ≠ .resuming ∧ p.active = true := by
  cases p <;> first | (cases h; done) | exact ⟨rfl, rfl, nofun, rfl⟩

theorem of_result {p : Phase ρ} {r : ConsumeResult ρ} (h : p.result = some r) :
    p.outcome = none ∧ p.waits = false ∧ p ≠ .resuming ∧ p ≠ .yielding := by
  cases p <;> first | (cases h; done) | exact ⟨rfl, rfl, nofun, nofun⟩

end Phase

/-! ## One consumer -/

/-- The call `i` is the consumer of the turn. -/
def State.ActiveAt (s : State ρ) : Nat → Prop := At s.consumers (fun c => c.phase.active = true)

/-- The call `i` has finished the turn. -/
def State.SettledAt (s : State ρ) : Nat → Prop := At s.consumers (fun c => c.phase.settled = true)

structure Exclusive (s : State ρ) : Prop where
  one : ∀ i j, s.ActiveAt i → s.ActiveAt j → i = j
  consuming : s.consuming = true ↔ ∃ i, s.ActiveAt i
  unfinished : AllAt s.consumers (fun _ c =>
    c.phase.active = true → c.phase.settled = false → s.finished = false)
  settled : ∀ i, s.SettledAt i → s.finished = true
  unique : ∀ i j, s.SettledAt i → s.SettledAt j → i = j

/-- What a step of `consume` does to the flags: the call goes on, or finishes the turn, or returns. -/
inductive Flags (s s₁ : State ρ) (c c₁ : Consumer ρ) : Prop where
  | keep : c₁.phase.active = true → s₁.consuming = s.consuming → c₁.phase.settled = c.phase.settled →
      s₁.finished = s.finished → Flags s s₁ c c₁
  | again : c.phase.settled = false → s.finished = true → Flags s s₁ c c₁
  | finish : c₁.phase.active = true → s₁.consuming = s.consuming → c₁.phase.settled = true →
      s.finished = false → s₁.finished = true → Flags s s₁ c c₁
  | release : c₁.phase.active = false → s₁.consuming = false → c₁.phase.settled = c.phase.settled →
      s₁.finished = s.finished → Flags s s₁ c c₁

/-- `note` touches the progress and the message id alone. -/
theorem State.note_frame (s : State ρ) (ev : Event) :
    (s.note ev).consumers = s.consumers ∧ (s.note ev).consuming = s.consuming ∧
      (s.note ev).finished = s.finished ∧ (s.note ev).out = s.out ∧
      (s.note ev).outcome = s.outcome ∧ (s.note ev).prompt = s.prompt := by
  unfold State.note
  split
  · split <;> exact ⟨rfl, rfl, rfl, rfl, rfl, rfl⟩
  all_goals exact ⟨rfl, rfl, rfl, rfl, rfl, rfl⟩

namespace ConsumeMove

variable {s s₁ : State ρ} {c c₁ : Consumer ρ} {a : ConsumeStep}

/-- Only a call that has not returned takes a step; it stays the call it is, and the prompt goroutine and
    the other calls are not touched. -/
theorem frame (h : ConsumeMove s c a s₁ c₁) :
    c.phase.active = true ∧ s₁.consumers = s.consumers ∧ s₁.prompt = s.prompt ∧
      c₁.streaming = c.streaming ∧ c₁.ctxDone = c.ctxDone := by
  cases h
  case note n ev hp => exact ⟨by rw [hp]; rfl, (s.note_frame ev).1, (s.note_frame ev).2.2.2.2.2, rfl, rfl⟩
  all_goals
    refine ⟨?_, rfl, rfl, rfl, rfl⟩
    simp_all [Phase.active]

theorem flags (h : ConsumeMove s c a s₁ c₁) : Flags s s₁ c c₁ := by
  cases h
  case note n ev hp =>
    obtain ⟨_, hcons, hfin, _⟩ := s.note_frame ev
    refine .keep ?_ hcons ?_ hfin
    · cases c.streaming <;> rfl
    · rw [hp]
      cases c.streaming <;> rfl
  case finishAgain o p hp hf => exact .again (by rw [hp]; rfl) hf
  case finish o p hp hf => exact .finish rfl rfl rfl hf rfl
  case release r hp =>
    refine .release rfl rfl ?_ rfl
    rw [hp]
    cases r <;> rfl
  case cancelPump r hp =>
    refine .keep rfl rfl ?_ rfl
    rw [hp]
    cases r <;> rfl
  all_goals
    refine .keep ?_ rfl ?_ rfl
    all_goals simp_all [Phase.active, Phase.settled]

end ConsumeMove

namespace Exclusive

variable {s s' s₁ : State ρ} {i : Nat} {c c₁ : Consumer ρ}

theorem init : Exclusive (machine ρ).init where
  one := by
    rintro i j ⟨c, hc, _⟩
    cases hc
  consuming := iff_of_false nofun (by rintro ⟨i, c, hc, _⟩; cases hc)
  unfinished := AllAt.nil
  settled := by
    rintro i ⟨c, hc, _⟩
    cases hc
  unique := by
    rintro i j ⟨c, hc, _⟩
    cases hc

section

variable (h : Exclusive s)
include h

/-- Only the phases of the calls matter, and the two flags. -/
theorem of_phases (hphases : s'.consumers.map Consumer.phase = s.consumers.map Consumer.phase)
    (hcons : s'.consuming = s.consuming) (hfin : s'.finished = s.finished) : Exclusive s' := by
  have hactive : ∀ j, s'.ActiveAt j ↔ s.ActiveAt j := fun j =>
    ⟨At.of_map (R := fun p : Phase ρ => p.active = true) hphases.symm,
      At.of_map (R := fun p : Phase ρ => p.active = true) hphases⟩
  have hsettled : ∀ j, s'.SettledAt j → s.SettledAt j := fun j =>
    At.of_map (R := fun p : Phase ρ => p.settled = true) hphases.symm
  refine ⟨?_, ?_, ?_, ?_, ?_⟩
  · exact fun j k hj hk => h.one j k ((hactive j).mp hj) ((hactive k).mp hk)
  · rw [hcons, h.consuming]
    exact exists_congr (fun j => (hactive j).symm)
  · rw [hfin]
    exact AllAt.of_map (R := fun _ p => p.active = true → p.settled = false → s.finished = false)
      hphases h.unfinished
  · rw [hfin]
    exact fun j hj => h.settled j (hsettled j hj)
  · exact fun j k hj hk => h.unique j k (hsettled j hj) (hsettled k hk)

/-- While one call is the consumer, nobody else is. -/
theorem activeAt_set (hc : s.consumers[i]? = some c) (hactive : c.phase.active = true) {j : Nat}
    (hj : At (s.consumers.set i c₁) (fun d => d.phase.active = true) j) : j = i ∧ c₁.phase.active = true := by
  rcases hj.of_set with hj | ⟨hne, hj⟩
  · exact hj
  · exact absurd (h.one j i hj ⟨c, hc, hactive⟩) hne

/-- Another call has finished the turn only when the handle was finished before. -/
theorem settledAt_set {j : Nat} (hj : At (s.consumers.set i c₁) (fun d => d.phase.settled = true) j) :
    (j = i ∧ c₁.phase.settled = true) ∨ (s.SettledAt j ∧ s.finished = true) := by
  rcases hj.of_set with hj | ⟨_, hj⟩
  · exact .inl hj
  · exact .inr ⟨hj, h.settled j hj⟩

/-- The consumer goes on: `hflags` for the handle's `finished` flag. -/
theorem goOn (hc : s.consumers[i]? = some c) (hactive : c.phase.active = true)
    (hcalls : s'.consumers = s.consumers.set i c₁) (hactive₁ : c₁.phase.active = true)
    (hcons : s'.consuming = s.consuming) (hflags : (c₁.phase.settled = c.phase.settled ∧ s'.finished =
    s.finished) ∨ (c₁.phase.settled = true ∧ s.finished = false ∧ s'.finished = true)) : Exclusive s' where
  one := by
    intro j k hj hk
    rw [State.ActiveAt, hcalls] at hj hk
    exact (h.activeAt_set hc hactive hj).1.trans (h.activeAt_set hc hactive hk).1.symm
  consuming := by
    refine iff_of_true ?_ ⟨i, ?_⟩
    · rw [hcons]
      exact h.consuming.mpr ⟨i, c, hc, hactive⟩
    · rw [State.ActiveAt, hcalls]
      exact At.set_self hc hactive₁
  unfinished := by
    rw [hcalls]
    refine AllAt.set (fun _ _ hun => ?_) (fun j d hji hd ha => ?_)
    · rcases hflags with ⟨hs, hf⟩ | ⟨hs, _, _⟩
      · rw [hf]
        exact h.unfinished i c hc hactive (hs ▸ hun)
      · rw [hs] at hun
        cases hun
    · exact absurd (h.one j i ⟨d, hd, ha⟩ ⟨c, hc, hactive⟩) hji
  settled := by
    intro j hj
    rw [State.SettledAt, hcalls] at hj
    rcases hflags with ⟨hs, hf⟩ | ⟨_, _, hf⟩
    · rw [hf]
      rcases h.settledAt_set hj with ⟨rfl, hj'⟩ | ⟨_, hj'⟩
      · exact h.settled j ⟨c, hc, hs.symm.trans hj'⟩
      · exact hj'
    · exact hf
  unique := by
    intro j k hj hk
    rw [State.SettledAt, hcalls] at hj hk
    rcases hflags with ⟨hs, _⟩ | ⟨_, hf, _⟩
    · have hback : ∀ {n}, At (s.consumers.set i c₁) (fun d => d.phase.settled = true) n →
          s.SettledAt n := by
        intro n hn
        rcases h.settledAt_set hn with ⟨rfl, hn'⟩ | ⟨hn', _⟩
        · exact ⟨c, hc, hs.symm.trans hn'⟩
        · exact hn'
      exact h.unique j k (hback hj) (hback hk)
    · -- the handle was not finished, so no other call had finished it
      have honly : ∀ {n}, At (s.consumers.set i c₁) (fun d => d.phase.settled = true) n → n = i := by
        intro n hn
        rcases h.settledAt_set hn with ⟨hn, _⟩ | ⟨_, hn⟩
        · exact hn
        · rw [hf] at hn
          cases hn
      exact (honly hj).trans (honly hk).symm

/-- The consumer returns. -/
theorem release (hc : s.consumers[i]? = some c) (hactive : c.phase.active = true)
    (hcalls : s'.consumers = s.consumers.set i c₁) (hactive₁ : c₁.phase.active = false)
    (hcons : s'.consuming = false) (hsettled : c₁.phase.settled = c.phase.settled)
    (hfin : s'.finished = s.finished) : Exclusive s' := by
  have hnone : ∀ j, ¬ s'.ActiveAt j := by
    intro j hj
    rw [State.ActiveAt, hcalls] at hj
    have ha := (h.activeAt_set hc hactive hj).2
    rw [hactive₁] at ha
    cases ha
  have hback : ∀ j, s'.SettledAt j → s.SettledAt j := by
    intro j hj
    rw [State.SettledAt, hcalls] at hj
    rcases h.settledAt_set hj with ⟨rfl, hj'⟩ | ⟨hj', _⟩
    · exact ⟨c, hc, hsettled.symm.trans hj'⟩
    · exact hj'
  refine ⟨fun j _ hj => absurd hj (hnone j), ?_, fun j d hd ha => absurd ⟨d, hd, ha⟩ (hnone j), ?_, ?_⟩
  · exact iff_of_false (by rw [hcons]; nofun) (fun ⟨j, hj⟩ => hnone j hj)
  · rw [hfin]
    exact fun j hj => h.settled j (hback j hj)
  · exact fun j k hj hk => h.unique j k (hback j hj) (hback k hk)

/-- **A step of `consume` keeps the consumer alone.** -/
theorem consume (hc : s.consumers[i]? = some c) {a : ConsumeStep} (hm : ConsumeMove s c a s₁ c₁) :
    Exclusive (s₁.setConsumer i c₁) := by
  obtain ⟨hactive, hcalls, _⟩ := hm.frame
  have hset : (s₁.setConsumer i c₁).consumers = s.consumers.set i c₁ := by
    rw [← hcalls]
    rfl
  cases hm.flags with
  | keep ha hcons hs hf => exact h.goOn hc hactive hset ha hcons (.inl ⟨hs, hf⟩)
  | again hs hf =>
    rw [h.unfinished i c hc hactive hs] at hf
    cases hf
  | finish ha hcons hs hf hf₁ => exact h.goOn hc hactive hset ha hcons (.inr ⟨hs, hf, hf₁⟩)
  | release ha hcons hs hf => exact h.release hc hactive hset ha hcons hs hf

/-- A call that is refused. -/
theorem refuse (hactive : c.phase.active = false) (hsettled : c.phase.settled = false) :
    Exclusive { s with consumers := s.consumers ++ [c] } := by
  have hback : ∀ {j}, At (s.consumers ++ [c]) (fun d => d.phase.active = true) j → s.ActiveAt j := by
    intro j hj
    rcases hj.of_concat with hj | ⟨_, hj⟩
    · exact hj
    · rw [hactive] at hj
      cases hj
  have hback' : ∀ {j}, At (s.consumers ++ [c]) (fun d => d.phase.settled = true) j → s.SettledAt j := by
    intro j hj
    rcases hj.of_concat with hj | ⟨_, hj⟩
    · exact hj
    · rw [hsettled] at hj
      cases hj
  refine ⟨fun j k hj hk => h.one j k (hback hj) (hback hk), ?_, ?_, ?_, ?_⟩
  · exact h.consuming.trans ⟨fun ⟨j, hj⟩ => ⟨j, At.concat_left hj⟩, fun ⟨j, hj⟩ => ⟨j, hback hj⟩⟩
  · refine AllAt.concat h.unfinished (fun ha => ?_)
    rw [hactive] at ha
    cases ha
  · exact fun j hj => h.settled j (hback' hj)
  · exact fun j k hj hk => h.unique j k (hback' hj) (hback' hk)

/-- A call that becomes the consumer. -/
theorem enter (streaming : Bool) (hfin : s.finished = false) (hcons : s.consuming = false) :
    Exclusive { s with consuming := true, consumers := s.consumers ++ [.new streaming] } := by
  have hnone : ∀ j, ¬ s.ActiveAt j := fun j hj => by
    have htrue := h.consuming.mpr ⟨j, hj⟩
    rw [hcons] at htrue
    cases htrue
  have hlast : ∀ {j}, At (s.consumers ++ [Consumer.new streaming]) (fun d => d.phase.active = true) j →
      j = s.consumers.length := fun hj =>
    hj.of_concat.elim (fun hj => absurd hj (hnone _)) And.left
  have hback : ∀ {j}, At (s.consumers ++ [Consumer.new streaming]) (fun d => d.phase.settled = true) j →
      s.SettledAt j := fun hj => hj.of_concat.elim id (fun hj => nomatch hj.2)
  refine ⟨fun j k hj hk => (hlast hj).trans (hlast hk).symm, ?_, ?_, ?_, ?_⟩
  · exact iff_of_true rfl ⟨s.consumers.length, At.concat_last rfl⟩
  · exact AllAt.concat h.unfinished (fun _ _ => hfin)
  · exact fun j hj => h.settled j (hback hj)
  · exact fun j k hj hk => h.unique j k (hback hj) (hback hk)

/-- A new call becomes the consumer when there is none, and is refused otherwise. -/
theorem acquire (streaming : Bool) : Exclusive (s.acquire streaming) := by
  cases hfin : s.finished with
  | true =>
    rw [State.acquire_finished streaming hfin]
    exact h.refuse (c := .refused streaming .completed) rfl rfl
  | false =>
    cases hcons : s.consuming with
    | true =>
      rw [State.acquire_busy streaming hfin hcons]
      exact h.refuse (c := .refused streaming .active) rfl rfl
    | false =>
      rw [State.acquire_free streaming hfin hcons]
      exact h.enter streaming hfin hcons

/-- **Every step keeps the consumer alone.** -/
theorem step {a : Action ρ} (hstep : step s a = some s') : Exclusive s' := by
  cases a with
  | promptReturns o | promptSends =>
    simp only [Opencode.step] at hstep
    split at hstep
    · cases hstep
      exact h.of_phases rfl rfl rfl
    · cases hstep
  | push ev | busLost err | endLifetime =>
    cases hstep
    exact h.of_phases rfl rfl rfl
  | call streaming =>
    cases hstep
    exact h.acquire streaming
  | cancel i =>
    obtain ⟨c, s₁, c₁, hc, hf, rfl⟩ := stepAt_inv hstep
    cases hf
    exact h.of_phases (map_set_of_eq hc rfl) rfl rfl
  | consume i a =>
    obtain ⟨c, s₁, c₁, hc, hf, rfl⟩ := stepAt_inv hstep
    exact h.consume hc (stepConsume_inv hf)
  | pump i a =>
    obtain ⟨c, s₁, c₁, hc, hf, rfl⟩ := stepAt_inv hstep
    cases stepPump_inv hf with
    | item n ev rearm | drop n ev | other p e => exact h.of_phases (map_set_of_eq hc rfl) rfl rfl

end

end Exclusive

/-! ## One outcome -/

/-- What a call knows of the outcome. -/
structure Knows (s : State ρ) (c : Consumer ρ) : Prop where
  out : ∀ o, c.out = some o → s.prompt = .sent o
  outcome : ∀ o, c.phase.outcome = some o → s.prompt = .sent o
  resuming : c.phase = .resuming → c.out = none
  /-- in its loop a call without the outcome is ahead of every receiver, and one with it has a timer -/
  fresh : c.phase.waits = true → c.out = none → s.out = none
  drains : c.phase.waits = true → c.out ≠ none → c.drain = true
  judged : ∀ o, c.phase = .judging o → c.out ≠ none
  yields : c.phase = .yielding → c.streaming = true
  /-- a `Run` whose context is not done leaves its loop with a resolution -/
  reason : ∀ r, c.phase.active = true → c.phase.result = some r → c.streaming = false →
    c.ctxDone = false → ∃ x, r = .resolved x

/-- The outcome is kept from the send to the resolution. -/
structure Carried (s : State ρ) : Prop where
  chan : ∀ o, s.outcome = some o → s.prompt = .sent o
  stored : ∀ o, s.out = some o → s.prompt = .sent o
  knows : AllAt s.consumers (fun _ c => Knows s c)
  kept : ∀ o, s.prompt = .sent o →
    s.outcome = some o ∨ s.out = some o ∨ ∃ i, At s.consumers (fun c => c.phase = .received o) i

namespace Knows

variable {s s' : State ρ} {c c₁ : Consumer ρ}

theorem mono (h : Knows s c) (hprompt : ∀ o, s.prompt = .sent o → s'.prompt = .sent o)
    (hout : c.phase.waits = true → s.out = none → s'.out = none) : Knows s' c where
  out := fun o ho => hprompt o (h.out o ho)
  outcome := fun o ho => hprompt o (h.outcome o ho)
  resuming := h.resuming
  fresh := fun hw hn => hout hw (h.fresh hw hn)
  drains := h.drains
  judged := h.judged
  yields := h.yields
  reason := h.reason

/-- The pump does not matter. -/
theorem setPump (h : Knows s c) (p : Pump) (e : Option Bytes) : Knows s { c with pump := p, pumpErr := e } :=
  ⟨h.out, h.outcome, h.resuming, h.fresh, h.drains, h.judged, h.yields, h.reason⟩

section

variable (hout : ∀ o, c.out = some o → s.prompt = .sent o)
include hout

/-- A call that works with the outcome. -/
theorem working (hp : c.phase.outcome = some o) (ho : s.prompt = .sent o)
    (hjudged : ∀ o, c.phase = .judging o → c.out ≠ none) : Knows s c := by
  obtain ⟨hw, hr, hres, hy⟩ := Phase.of_outcome hp
  refine ⟨hout, fun o' ho' => ?_, fun h => absurd h hres, ?_, ?_, hjudged, fun h => absurd h hy, ?_⟩
  · rw [hp] at ho'
    cases ho'
    exact ho
  · exact fun h => nomatch hw.symm.trans h
  · exact fun h => nomatch hw.symm.trans h
  · exact fun r _ h => nomatch hr.symm.trans h

/-- A call in its loop. -/
theorem waiting (hp : c.phase.waits = true) (hfresh : c.out = none → s.out = none)
    (hdrain : c.out ≠ none → c.drain = true) (hyield : c.phase = .yielding → c.streaming = true) :
    Knows s c := by
  obtain ⟨ho, hr, hres, _⟩ := Phase.of_waits hp
  refine ⟨hout, ?_, fun h => absurd h hres, fun _ => hfresh, fun _ => hdrain, fun o h => ?_, hyield, ?_⟩
  · exact fun o h => nomatch ho.symm.trans h
  · rw [h] at hp
    cases hp
  · exact fun r _ h => nomatch hr.symm.trans h

/-- A call that has left its loop. -/
theorem leaving {r : ConsumeResult ρ} (hp : c.phase.result = some r)
    (hreason : c.phase.active = true → c.streaming = false → c.ctxDone = false → ∃ x, r = .resolved x) :
    Knows s c := by
  obtain ⟨ho, hw, hresu, hy⟩ := Phase.of_result hp
  refine ⟨hout, ?_, fun h => absurd h hresu, ?_, ?_, fun o h => ?_, fun h => absurd h hy, fun x ha hx => ?_⟩
  · exact fun o h => nomatch ho.symm.trans h
  · exact fun h => nomatch hw.symm.trans h
  · exact fun h => nomatch hw.symm.trans h
  · rw [h] at hp
    cases hp
  rw [hp] at hx
  cases hx
  exact hreason ha

end

end Knows

variable {a : ConsumeStep} {c c₁ : Consumer ρ} {s : State ρ}

/-- **A step of `consume` keeps what the call knows right.** -/
theorem ConsumeMove.knows {s₁ : State ρ}
    (hm : ConsumeMove s c a s₁ c₁) (hs : Carried s) (h : Knows s c) : Knows s₁ c₁ := by
  -- a call in its loop that stays there
  have hloop : c.phase.waits = true → (c.out = none → s.out = none) ∧ (c.out ≠ none → c.drain = true) :=
    fun hw => ⟨h.fresh hw, h.drains hw⟩
  cases hm with
  | resume o hp ho => exact .working h.out rfl (hs.stored o ho) nofun
  | select hp ho => exact .waiting h.out rfl (fun _ => ho) (fun hne => absurd (h.resuming hp) hne) nofun
  | contextDone hp hd =>
    exact .leaving h.out rfl (fun _ _ hnd => nomatch hd.symm.trans hnd)
  | outcome o hp hnone ho => exact .working (o := o) h.out rfl (hs.chan o ho) nofun
  | store o hp =>
    have ho := h.outcome o (by rw [hp]; rfl)
    exact .working (o := o) (fun o' ho' => by cases ho'; exact ho) rfl ho (fun _ _ => nofun)
  | judgeOver o hp | resolve o hp | finishAgain o p hp =>
    exact .working h.out rfl (h.outcome o (by rw [hp]; rfl)) nofun
  | judge o hp => exact .waiting h.out rfl (fun hn => absurd hn (h.judged o hp)) (fun _ => rfl) nofun
  | drain o hp ho | weighOver o hp ho | deafOver o hp ho => exact .working h.out rfl (h.out o ho) nofun
  | event n ev hp | more hp | weigh hp =>
    obtain ⟨hf, hd⟩ := hloop (by rw [hp]; rfl)
    exact .waiting h.out rfl hf hd nofun
  | note n ev hp =>
    obtain ⟨hf, hd⟩ := hloop (by rw [hp]; rfl)
    obtain ⟨_, _, _, hout, _, hprompt⟩ := s.note_frame ev
    refine .waiting (by rw [hprompt]; exact h.out) ?_ (by rw [hout]; exact hf) hd ?_
    · cases c.streaming <;> rfl
    cases hstream : c.streaming with
    | true => exact fun _ => rfl
    | false => nofun
  | stop hp =>
    exact .leaving h.out rfl (fun _ hstream => nomatch (h.yields hp).symm.trans hstream)
  | busLost err hp hstream =>
    exact .leaving h.out rfl (fun _ hs => nomatch hstream.symm.trans hs)
  | deaf hp ho =>
    obtain ⟨hf, hd⟩ := hloop (by rw [hp]; rfl)
    exact .waiting h.out (by rw [hp]; rfl) hf hd (by rw [hp]; nofun)
  | finish o p hp | unsubscribe o p hp =>
    exact .working (o := o) h.out rfl (h.outcome o (by rw [hp]; rfl)) nofun
  | conclude o p hp => exact .leaving h.out rfl (fun _ _ _ => ⟨_, rfl⟩)
  | cancelPump r hp => exact .leaving h.out rfl (fun _ => h.reason r (by rw [hp]; rfl) (by rw [hp]; rfl))
  | release r hp => exact .leaving (r := r) h.out rfl nofun

/-- What a step of `consume` does to the channel and the stored outcome. -/
theorem ConsumeMove.outcomes {s₁ : State ρ} (hm : ConsumeMove s c a s₁ c₁) :
    (s₁.outcome = s.outcome ∧ s₁.out = s.out ∧ ∀ o, c.phase ≠ .received o) ∨
      (∃ o, s.outcome = some o ∧ s₁.outcome = none ∧ s₁.out = s.out ∧ c₁.phase = .received o) ∨
      (∃ o, c.phase = .received o ∧ s₁.outcome = s.outcome ∧ s₁.out = s.out.or (some o)) := by
  cases hm
  case outcome o hp hnone ho => exact .inr (.inl ⟨o, ho, rfl, rfl, rfl⟩)
  case store o hp => exact .inr (.inr ⟨o, hp, rfl, rfl⟩)
  case note n ev hp =>
    obtain ⟨_, _, _, hout, hchan, _⟩ := s.note_frame ev
    exact .inl ⟨hchan, hout, by rw [hp]; nofun⟩
  all_goals
    refine .inl ⟨rfl, rfl, ?_⟩
    simp_all

namespace Carried

variable {s s' s₁ : State ρ} {i : Nat} {c c₁ : Consumer ρ}

theorem init : Carried (machine ρ).init := ⟨nofun, nofun, AllAt.nil, nofun⟩

/-- There is one outcome. -/
theorem sent_inj {o' : TurnOutcome ρ} (h : s.prompt = .sent o) (h' : s.prompt = .sent o') : o = o' :=
  Prompt.sent.inj (h.symm.trans h')

section

variable (h : Carried s)
include h

/-- **A step of `consume` keeps the outcome.** -/
theorem consume (hex : Exclusive s) (hc : s.consumers[i]? = some c) {a : ConsumeStep}
    (hm : ConsumeMove s c a s₁ c₁) : Carried (s₁.setConsumer i c₁) := by
  obtain ⟨hactive, hcalls, hprompt, _⟩ := hm.frame
  have hknows : Knows s c := h.knows i c hc
  refine ⟨fun o ho => ?_, fun o ho => ?_, ?_, fun o ho => ?_⟩
  · show s₁.prompt = .sent o
    rw [hprompt]
    rcases hm.outcomes with ⟨hchan, _⟩ | ⟨_, _, hchan, _⟩ | ⟨_, _, hchan, _⟩
    · exact h.chan o (hchan ▸ ho)
    · exact nomatch hchan.symm.trans ho
    · exact h.chan o (hchan ▸ ho)
  · show s₁.prompt = .sent o
    rw [hprompt]
    rcases hm.outcomes with ⟨_, hout, _⟩ | ⟨_, _, _, hout, _⟩ | ⟨o', hp, _, hout⟩
    · exact h.stored o (hout ▸ ho)
    · exact h.stored o (hout ▸ ho)
    have hor : s.out.or (some o') = some o := hout ▸ ho
    cases hs : s.out with
    | some o'' =>
      rw [hs] at hor
      cases hor
      exact h.stored o hs
    | none =>
      rw [hs] at hor
      cases hor
      exact hknows.outcome o (by rw [hp]; rfl)
  · show AllAt (s₁.consumers.set i c₁) _
    rw [hcalls]
    refine AllAt.set (fun _ => ?_) (fun j d hji hd => ?_)
    · exact (hm.knows h hknows).mono (fun _ => id) (fun _ => id)
    refine (h.knows j d hd).mono (fun o ho => hprompt.trans ho) (fun hw => ?_)
    -- another call is not in its loop
    exact absurd (hex.one j i ⟨d, hd, (Phase.of_waits hw).2.2.2⟩ ⟨c, hc, hactive⟩) hji
  · have ho' : s.prompt = .sent o := hprompt ▸ ho
    show s₁.outcome = some o ∨ s₁.out = some o ∨ ∃ j, At (s₁.consumers.set i c₁) _ j
    rw [hcalls]
    rcases hm.outcomes with ⟨hchan, hout, hp⟩ | ⟨o', hchan, _, _, hp⟩ | ⟨o', hp, _, hout⟩
    · rw [hchan, hout]
      refine (h.kept o ho').imp id (Or.imp id (fun ⟨j, hj⟩ => ⟨j, hj.set_ne ?_⟩))
      rintro rfl
      obtain ⟨d, hd, hdp⟩ := hj
      rw [hc] at hd
      cases hd
      exact hp o hdp
    · have heq := sent_inj ho' (h.chan o' hchan)
      subst heq
      exact .inr (.inr ⟨i, At.set_self hc hp⟩)
    · have heq := sent_inj ho' (hknows.outcome o' (by rw [hp]; rfl))
      subst heq
      refine .inr (.inl ?_)
      rw [hout]
      cases hs : s.out with
      | some o'' =>
        have heq := sent_inj ho' (h.stored o'' hs)
        subst heq
        rfl
      | none => rfl

/-- A step that touches neither the outcome nor what the calls know of it. -/
theorem frame (hprompt : s'.prompt = s.prompt) (hchan : s'.outcome = s.outcome) (hout : s'.out = s.out)
    (hcalls : s'.consumers = s.consumers) : Carried s' := by
  refine ⟨?_, ?_, ?_, ?_⟩
  · rw [hchan, hprompt]
    exact h.chan
  · rw [hout, hprompt]
    exact h.stored
  · rw [hcalls]
    exact fun j d hd => (h.knows j d hd).mono (fun o ho => hprompt.trans ho) (fun _ hn => hout.trans hn)
  · rw [hprompt, hchan, hout, hcalls]
    exact h.kept

/-- A call is replaced by one that is in the same phase and knows the same. -/
theorem replace (hc : s.consumers[i]? = some c) (hp : c₁.phase = c.phase) (hknows : Knows s c → Knows s c₁) :
    Carried (s.setConsumer i c₁) := by
  refine ⟨h.chan, h.stored, ?_, fun o ho => ?_⟩
  · refine AllAt.set (fun _ => ?_) (fun j d _ hd => ?_)
    · exact (hknows (h.knows i c hc)).mono (fun _ => id) (fun _ => id)
    · exact (h.knows j d hd).mono (fun _ => id) (fun _ => id)
  · refine (h.kept o ho).imp id (Or.imp id (fun ⟨j, hj⟩ => ⟨j, ?_⟩))
    exact At.of_map (R := fun p : Phase ρ => p = .received o) (map_set_of_eq hc hp) hj

/-- A call comes. -/
theorem concat (hknows : Knows s c) {consuming : Bool} :
    Carried { s with consuming := consuming, consumers := s.consumers ++ [c] } := by
  refine ⟨h.chan, h.stored, ?_, fun o ho => ?_⟩
  · refine AllAt.concat (fun j d hd => ?_) (hknows.mono (fun _ => id) (fun _ => id))
    exact (h.knows j d hd).mono (fun _ => id) (fun _ => id)
  · exact (h.kept o ho).imp id (Or.imp id (fun ⟨j, hj⟩ => ⟨j, At.concat_left hj⟩))

theorem acquire (streaming : Bool) : Carried (s.acquire streaming) := by
  have hnew : Knows s (Consumer.new streaming) :=
    ⟨nofun, nofun, fun _ => rfl, nofun, nofun, nofun, nofun, nofun⟩
  have hrefused : ∀ r, Knows s (Consumer.refused streaming r) := fun r => .leaving (r := r) nofun rfl nofun
  cases hfin : s.finished with
  | true =>
    rw [State.acquire_finished streaming hfin]
    exact h.concat (hrefused .completed)
  | false =>
    cases hcons : s.consuming with
    | true =>
      rw [State.acquire_busy streaming hfin hcons]
      exact h.concat (hrefused .active)
    | false =>
      rw [State.acquire_free streaming hfin hcons]
      exact h.concat hnew

/-- **Every step keeps the outcome.** -/
theorem step (hex : Exclusive s) {a : Action ρ} (hstep : step s a = some s') : Carried s' := by
  cases a with
  | promptReturns o =>
    simp only [Opencode.step] at hstep
    split at hstep
    · rename_i hp
      cases hstep
      -- nothing was sent yet
      have hnot : ∀ o, s.prompt ≠ .sent o := by rw [hp]; nofun
      refine ⟨fun o ho => absurd (h.chan o ho) (hnot o), fun o ho => absurd (h.stored o ho) (hnot o),
        fun j d hd => ?_, nofun⟩
      exact (h.knows j d hd).mono (fun o ho => absurd ho (hnot o)) (fun _ => id)
    · cases hstep
  | promptSends =>
    simp only [Opencode.step] at hstep
    split at hstep
    · rename_i o hp
      cases hstep
      have hnot : ∀ o, s.prompt ≠ .sent o := by rw [hp]; nofun
      refine ⟨fun o ho => ?_, fun o ho => absurd (h.stored o ho) (hnot o), fun j d hd => ?_,
        fun o ho => .inl ?_⟩
      · cases ho
        rfl
      · exact (h.knows j d hd).mono (fun o ho => absurd ho (hnot o)) (fun _ => id)
      · cases ho
        rfl
    · cases hstep
  | push ev | busLost err | endLifetime =>
    cases hstep
    exact h.frame rfl rfl rfl rfl
  | call streaming =>
    cases hstep
    exact h.acquire streaming
  | cancel i =>
    obtain ⟨c, s₁, c₁, hc, hf, rfl⟩ := stepAt_inv hstep
    cases hf
    refine h.replace hc rfl (fun hk => ⟨hk.out, hk.outcome, hk.resuming, hk.fresh, hk.drains, hk.judged,
      hk.yields, fun _ _ _ _ hd => nomatch hd⟩)
  | consume i a =>
    obtain ⟨c, s₁, c₁, hc, hf, rfl⟩ := stepAt_inv hstep
    exact h.consume hex hc (stepConsume_inv hf)
  | pump i a =>
    obtain ⟨c, s₁, c₁, hc, hf, rfl⟩ := stepAt_inv hstep
    cases stepPump_inv hf with
    | item n ev rearm =>
      have hq : Carried { s with queue := s.queue.next.1 } := h.frame rfl rfl rfl rfl
      exact hq.replace hc rfl (fun hk => hk.setPump (.holding n ev) c.pumpErr)
    | drop n ev => exact h.replace hc rfl (fun hk => hk.setPump .done c.pumpErr)
    | other p e => exact h.replace hc rfl (fun hk => hk.setPump _ _)

end

end Carried

/-! ## What a resolution is computed from -/

/-- In the run `as` the call `i` has read the progress `p` in its `resolve`. -/
def ReadIn (as : List (Action ρ)) (i : Nat) (p : TurnProgress) : Prop :=
  ∃ as₁ as₂ s₁, as = as₁ ++ .consume i .resolve :: as₂ ∧ (machine ρ).run as₁ = some s₁ ∧ p = s₁.progress

/-- **The resolution is what `resolve` makes of the outcome**: of the progress in the state `s₁` in which the
    call entered it, and of the message id and the lifetime in the state `s₂` behind its `finish`. -/
def ComputedIn (as : List (Action ρ)) (i : Nat) (o : TurnOutcome ρ) (r : Except TurnError ρ) : Prop :=
  ∃ as₁ as₂ as₃ s₁ s₂, as = as₁ ++ .consume i .resolve :: (as₂ ++ .consume i .conclude :: as₃) ∧
    (machine ρ).run as₁ = some s₁ ∧ (machine ρ).run (as₁ ++ .consume i .resolve :: as₂) = some s₂ ∧
    r = resolution s₁.progress s₂.messageID s₂.lifetimeDone o

/-- Where the call `i` has what it works with, and what it returns, from. -/
structure Traced (as : List (Action ρ)) (s : State ρ) (i : Nat) (c : Consumer ρ) : Prop where
  read : ∀ p, c.phase.read = some p → ReadIn as i p
  result : ∀ r, c.phase.result = some (.resolved r) → ∃ o, s.prompt = .sent o ∧ ComputedIn as i o r

/-- What is sent stays sent. -/
theorem sent_step {s' : State ρ} {a : Action ρ} (hstep : step s a = some s') (h : s.prompt = .sent o) :
    s'.prompt = .sent o := by
  cases a with
  | promptReturns o' | promptSends =>
    rw [step, h] at hstep
    cases hstep
  | push ev | busLost err | endLifetime =>
    cases hstep
    exact h
  | call streaming =>
    cases hstep
    unfold State.acquire
    split
    · exact h
    split <;> exact h
  | cancel i =>
    obtain ⟨c, s₁, c₁, _, hf, rfl⟩ := stepAt_inv hstep
    cases hf
    exact h
  | consume i b =>
    obtain ⟨c, s₁, c₁, _, hf, rfl⟩ := stepAt_inv hstep
    exact (stepConsume_inv hf).frame.2.2.1.trans h
  | pump i b =>
    obtain ⟨c, s₁, c₁, _, hf, rfl⟩ := stepAt_inv hstep
    cases stepPump_inv hf with
    | item n ev rearm | drop n ev | other p e => exact h

namespace Traced

variable {as : List (Action ρ)} {s s' s₁ : State ρ} {i : Nat} {c c₁ : Consumer ρ} {a : Action ρ}

/-- The run goes on, and the call stays in its phase. -/
theorem extend (h : Traced as s i c) (hstep : step s a = some s') (hp : c₁.phase = c.phase) :
    Traced (as ++ [a]) s' i c₁ where
  read := by
    intro p hr
    obtain ⟨as₁, as₂, s₁, rfl, hs₁, hprog⟩ := h.read p (hp ▸ hr)
    exact ⟨as₁, as₂ ++ [a], s₁, List.append_assoc .., hs₁, hprog⟩
  result := by
    intro r hr
    obtain ⟨o, ho, as₁, as₂, as₃, s₁, s₂, rfl, hs₁, hs₂, hres⟩ := h.result r (hp ▸ hr)
    exact ⟨o, sent_step hstep ho, as₁, as₂, as₃ ++ [a], s₁, s₂, by simp, hs₁, hs₂, hres⟩

/-- A call that has read no progress and has no resolution. -/
theorem of_none (hread : c.phase.read = none) (hres : ∀ r, c.phase.result ≠ some (.resolved r)) :
    Traced as s i c where
  read := by
    intro p h
    rw [hread] at h
    cases h
  result := fun r h => absurd h (hres r)

/-- **A step of the call itself.** `resolve` reads the progress and `conclude` computes the resolution; every
    other step hands on what the call has. -/
theorem consume (h : Traced as s i c) (hrun : (machine ρ).run as = some s) (hk : Knows s c) {b : ConsumeStep}
    (hm : ConsumeMove s c b s₁ c₁) (hstep : step s (.consume i b) = some s') :
    Traced (as ++ [.consume i b]) s' i c₁ := by
  have hon : Traced (as ++ [.consume i b]) s' i c := h.extend hstep rfl
  cases hm with
  | resolve o hp =>
    refine ⟨fun p hr => ?_, fun r hr => by cases hr⟩
    cases hr
    exact ⟨as, [], s, rfl, hrun, rfl⟩
  | finishAgain o p hp | finish o p hp | unsubscribe o p hp =>
    exact ⟨fun q hr => hon.read q (by rw [hp]; exact hr), fun r hr => by cases hr⟩
  | conclude o p hp =>
    refine ⟨fun q hr => (by cases hr), fun r hr => ?_⟩
    cases hr
    obtain ⟨as₁, as₂, s₁, rfl, hs₁, rfl⟩ := h.read p (by rw [hp]; rfl)
    have ho := hk.outcome o (by rw [hp]; rfl)
    exact ⟨o, sent_step hstep ho, as₁, as₂, [], s₁, s, by simp, hs₁, hrun, rfl⟩
  | cancelPump r hp | release r hp =>
    exact ⟨fun q hr => (by cases hr), fun x hx => hon.result x (by rw [hp]; exact hx)⟩
  | deaf hp ho => exact of_none (by rw [hp]; rfl) (by rw [hp]; nofun)
  | note n ev hp => exact of_none (by cases c.streaming <;> rfl) (by cases c.streaming <;> nofun)
  | _ => exact of_none rfl nofun

/-- **Every step of the turn.** -/
theorem step (h : AllAt s.consumers (Traced as s)) (hrun : (machine ρ).run as = some s) (hcar : Carried s)
    (hstep : step s a = some s') : AllAt s'.consumers (Traced (as ++ [a]) s') := by
  have hkeep : AllAt s.consumers (Traced (as ++ [a]) s') := fun i c hc => (h i c hc).extend hstep rfl
  cases a with
  | promptReturns o | promptSends =>
    have hcalls : s'.consumers = s.consumers := by
      simp only [Opencode.step] at hstep
      split at hstep <;> cases hstep
      rfl
    rw [hcalls]
    exact hkeep
  | push ev | busLost err | endLifetime =>
    cases hstep
    exact hkeep
  | call streaming =>
    cases hstep
    have hnew : ∃ c, (s.acquire streaming).consumers = s.consumers ++ [c] ∧ c.phase.read = none ∧
        ∀ r, c.phase.result ≠ some (.resolved r) := by
      unfold State.acquire
      split
      · exact ⟨_, rfl, rfl, nofun⟩
      split
      · exact ⟨_, rfl, rfl, nofun⟩
      · exact ⟨_, rfl, rfl, nofun⟩
    obtain ⟨c, hcalls, hread, hres⟩ := hnew
    rw [hcalls]
    exact AllAt.concat hkeep (of_none hread hres)
  | cancel i =>
    obtain ⟨c, s₁, c₁, hc, hf, rfl⟩ := stepAt_inv hstep
    cases hf
    exact AllAt.set (fun _ => (h i c hc).extend hstep rfl) (fun j d _ hd => hkeep j d hd)
  | consume i b =>
    obtain ⟨c, s₁, c₁, hc, hf, rfl⟩ := stepAt_inv hstep
    have hm := stepConsume_inv hf
    show AllAt (s₁.consumers.set i c₁) _
    rw [hm.frame.2.1]
    exact AllAt.set (fun _ => (h i c hc).consume hrun (hcar.knows i c hc) hm hstep)
      (fun j d _ hd => hkeep j d hd)
  | pump i b =>
    obtain ⟨c, s₁, c₁, hc, hf, rfl⟩ := stepAt_inv hstep
    cases stepPump_inv hf with
    | item n ev rearm | drop n ev | other p e =>
      exact AllAt.set (fun _ => (h i c hc).extend hstep rfl) (fun j d _ hd => hkeep j d hd)

end Traced

/-- In every run the three invariants hold. -/
theorem turn_invariants {as : List (Action ρ)} (hrun : (machine ρ).run as = some s) :
    Exclusive s ∧ Carried s ∧ AllAt s.consumers (Traced as s) :=
  Machine.history_invariant
    (I := fun as s => Exclusive s ∧ Carried s ∧ AllAt s.consumers (Traced as s))
    ⟨Exclusive.init, Carried.init, AllAt.nil⟩
    (fun _ _ _ _ hrun h hstep => ⟨h.1.step hstep, h.2.1.step h.1 hstep, Traced.step h.2.2 hrun h.2.1 hstep⟩)
    hrun

/-! ## A `Run` reaches the resolution -/

/-- How far a call is from its return, once the outcome has been sent. -/
def Consumer.rank (c : Consumer ρ) : Nat :=
  match c.phase with
  | .returned _ => 0
  | .releasing _ => 1
  | .leaving _ => 2
  | .concluding _ _ => 3
  | .unsubscribing _ _ => 4
  | .finishing _ _ => 5
  | .resolving _ => 6
  | .selecting => if c.out.isSome then 7 else 10
  | .judging _ => 8
  | .received _ => 9
  | .resuming => 11
  | .weighing => 11
  | .yielding => 12
  | .noting _ _ => 13

/-- A call of `Run` whose context is not done, the outcome `o` having been sent. -/
structure Pending (s : State ρ) (c : Consumer ρ) (o : TurnOutcome ρ) : Prop where
  run : c.streaming = false
  ctx : c.ctxDone = false
  active : c.phase.active = true
  sent : s.prompt = .sent o

/-- In its `select` a call finds its timer set or the outcome in the channel. -/
theorem Carried.selecting {i : Nat} (h : Carried s) (hex : Exclusive s)
    (hc : s.consumers[i]? = some c) (hp : c.phase = .selecting) (ho : s.prompt = .sent o) :
    (c.drain = true ∧ ∃ o', c.out = some o') ∨ (c.out = none ∧ s.outcome = some o) := by
  have hknows : Knows s c := h.knows i c hc
  have hwaits : c.phase.waits = true := by rw [hp]; rfl
  cases hout : c.out with
  | some o' => exact .inl ⟨hknows.drains hwaits (by rw [hout]; nofun), o', rfl⟩
  | none =>
    refine .inr ⟨rfl, ?_⟩
    rcases h.kept o ho with hchan | hstored | ⟨j, d, hd, hdp⟩
    · exact hchan
    · exact nomatch (hknows.fresh hwaits hout).symm.trans hstored
    have hda : d.phase.active = true := by rw [hdp]; rfl
    have hij := hex.one j i ⟨d, hd, hda⟩ ⟨c, hc, (Phase.of_waits hwaits).2.2.2⟩
    subst hij
    rw [hc] at hd
    cases hd
    exact nomatch hp.symm.trans hdp

/-- **A step of its own is open to a pending `Run`, and brings it nearer to its return.** -/
theorem Pending.progress {i : Nat} (h : Pending s c o) (hcar : Carried s)
    (hex : Exclusive s) (hc : s.consumers[i]? = some c) :
    ∃ a s₁ c₁, stepConsume s c a = some (s₁, c₁) ∧ c₁.rank < c.rank ∧
      (c₁.phase.active = true ∨ ∃ r, c₁.phase = .returned (.resolved r)) := by
  have hknows : Knows s c := hcar.knows i c hc
  cases hp : c.phase with
  | resuming =>
    cases hout : s.out with
    | some o' =>
      refine ⟨.resume, _, _, by simp only [stepConsume, hp, hout]; rfl, ?_, .inl rfl⟩
      simp [Consumer.rank, hp]
    | none =>
      refine ⟨.resume, _, _, by simp only [stepConsume, hp, hout]; rfl, ?_, .inl rfl⟩
      simp only [Consumer.rank, hp]
      split <;> decide
  | selecting =>
    rcases hcar.selecting hex hc hp h.sent with ⟨hdrain, o', hout⟩ | ⟨hout, hchan⟩
    · refine ⟨.drain, _, _, by simp only [stepConsume, hp, hdrain, hout]; rfl, ?_, .inl rfl⟩
      simp [Consumer.rank, hp, hout]
    · refine ⟨.outcome, _, _, by simp only [stepConsume, hp, hout, hchan]; rfl, ?_, .inl rfl⟩
      simp [Consumer.rank, hp, hout]
  | received o' =>
    refine ⟨.store, _, _, by simp only [stepConsume, hp]; rfl, ?_, .inl rfl⟩
    simp [Consumer.rank, hp]
  | judging o' =>
    obtain ⟨o'', hout⟩ := Option.ne_none_iff_exists'.mp (hknows.judged o' hp)
    cases hover : turnOver s.progress o' with
    | true =>
      refine ⟨.judge, _, _, by simp only [stepConsume, hp, hover]; rfl, ?_, .inl rfl⟩
      simp [Consumer.rank, hp]
    | false =>
      refine ⟨.judge, _, _, by simp only [stepConsume, hp, hover]; rfl, ?_, .inl rfl⟩
      simp [Consumer.rank, hp, hout]
  | noting n ev =>
    refine ⟨.note, _, _, by simp only [stepConsume, hp]; rfl, ?_, .inl ?_⟩
    · simp [Consumer.rank, hp, h.run]
    · simp [h.run, Phase.active]
  | yielding => exact absurd ((hknows.yields hp).symm.trans h.run) (by decide)
  | weighing =>
    cases hout : c.out with
    | some o' =>
      cases hover : turnOver s.progress o' with
      | true | false =>
        refine ⟨.weigh, _, _, by simp only [stepConsume, hp, hout, hover]; rfl, ?_, .inl rfl⟩
        simp [Consumer.rank, hp]
    | none =>
      refine ⟨.weigh, _, _, by simp only [stepConsume, hp, hout]; rfl, ?_, .inl rfl⟩
      simp [Consumer.rank, hp]
  | resolving o' =>
    refine ⟨.resolve, _, _, by simp only [stepConsume, hp]; rfl, ?_, .inl rfl⟩
    simp [Consumer.rank, hp]
  | finishing o' p =>
    cases hfin : s.finished with
    | true | false =>
      refine ⟨.finish, _, _, by simp only [stepConsume, hp, hfin]; rfl, ?_, .inl rfl⟩
      simp [Consumer.rank, hp]
  | unsubscribing o' p =>
    refine ⟨.unsubscribe, _, _, by simp only [stepConsume, hp]; rfl, ?_, .inl rfl⟩
    simp [Consumer.rank, hp]
  | concluding o' p =>
    refine ⟨.conclude, _, _, by simp only [stepConsume, hp]; rfl, ?_, .inl rfl⟩
    simp [Consumer.rank, hp]
  | leaving r =>
    refine ⟨.cancelPump, _, _, by simp only [stepConsume, hp]; rfl, ?_, .inl rfl⟩
    simp [Consumer.rank, hp]
  | releasing r =>
    obtain ⟨x, rfl⟩ := hknows.reason r h.active (by rw [hp]; rfl) h.run h.ctx
    refine ⟨.release, _, _, by simp only [stepConsume, hp]; rfl, ?_, .inr ⟨x, rfl⟩⟩
    simp [Consumer.rank, hp]
  | returned r =>
    have hactive := h.active
    rw [hp] at hactive
    cases hactive

/-- A step of `consume` is a step of the machine. -/
theorem step_consume {s₁ : State ρ} {i : Nat}
    (hc : s.consumers[i]? = some c) (h : stepConsume s c a = some (s₁, c₁)) :
    step s (.consume i a) = some (s₁.setConsumer i c₁) := by
  rw [step, stepAt, hc]
  show (stepConsume s c a).map _ = _
  rw [h]
  rfl

/-- **A pending `Run` reaches its resolution by steps of its own.** -/
theorem Pending.reaches {i : Nat} (h : Pending s c o) (hcar : Carried s)
    (hex : Exclusive s) (hc : s.consumers[i]? = some c) :
    ∃ (as : List ConsumeStep) (s' : State ρ) (c' : Consumer ρ) (r : Except TurnError ρ),
      (machine ρ).runFrom s (as.map (.consume i)) = some s' ∧ s'.consumers[i]? = some c' ∧
        c'.phase = .returned (.resolved r) ∧ s'.prompt = .sent o := by
  generalize hn : c.rank = n
  induction n using Nat.strongRecOn generalizing s c with
  | ind n ih =>
    obtain ⟨a, s₁, c₁, hstep, hlt, hactive⟩ := h.progress hcar hex hc
    have hstep' := step_consume hc hstep
    have hcar' := hcar.step hex hstep'
    have hex' := hex.step hstep'
    obtain ⟨_, hcalls, hprompt, hrun, hctx⟩ := (stepConsume_inv hstep).frame
    have hsent : (s₁.setConsumer i c₁).prompt = .sent o := hprompt.trans h.sent
    have hc' : (s₁.setConsumer i c₁).consumers[i]? = some c₁ := by
      show (s₁.consumers.set i c₁)[i]? = some c₁
      rw [hcalls, List.getElem?_set_self (List.getElem?_eq_some_iff.mp hc).1]
    rcases hactive with hactive | ⟨r, hr⟩
    · have hpending : Pending (s₁.setConsumer i c₁) c₁ o :=
        ⟨hrun.trans h.run, hctx.trans h.ctx, hactive, hsent⟩
      obtain ⟨as, s', c', r, hrest, hc'', hr, ho⟩ := ih c₁.rank (hn ▸ hlt) hpending hcar' hex' hc' rfl
      refine ⟨a :: as, s', c', r, ?_, hc'', hr, ho⟩
      rw [List.map_cons, Machine.runFrom_cons hstep']
      exact hrest
    · refine ⟨[a], _, c₁, r, ?_, hc', hr, hsent⟩
      rw [List.map_cons, Machine.runFrom_cons hstep']
      rfl

/-! ## The theorem -/

/-- The call `i` has obtained a resolution. -/
def State.ResolvedAt (s : State ρ) : Nat → Prop :=
  At s.consumers (fun c => ∃ r, c.phase.result = some (.resolved r))

/-- The outcome is never lost, and is resolved once: what is to hold in the state `s` at the end of the run
    `as`. -/
structure ResolvedOnce (as : List (Action ρ)) (s : State ρ) : Prop where
  /-- at most one call obtains a resolution -/
  unique : ∀ i j, s.ResolvedAt i → s.ResolvedAt j → i = j
  /-- a later call is told that the turn is completed -/
  later : ∀ i, s.ResolvedAt i → ∀ streaming, step s (.call streaming)
    = some { s with consumers := s.consumers ++ [.refused streaming .completed] }
  /-- a resolution is computed from the outcome that was sent -/
  computed : AllAt s.consumers (fun i c => ∀ r, c.phase.result = some (.resolved r) →
    ∃ o, s.prompt = .sent o ∧ ComputedIn as i o r)
  /-- on an unfinished handle without a consumer a call becomes the consumer -/
  starts : s.finished = false → (∀ i, ¬ s.ActiveAt i) → ∀ streaming, step s (.call streaming)
    = some { s with consuming := true, consumers := s.consumers ++ [.new streaming] }
  /-- once the outcome has been sent, an active `Run` whose context is not done has a step to take -/
  enabled : AllAt s.consumers (fun i c => ∀ o, Pending s c o →
    ∃ a, (step s (.consume i a)).isSome = true)
  /-- and reaches a resolution computed from that outcome -/
  reaches : AllAt s.consumers (fun i c => ∀ o, Pending s c o →
    ∃ (bs : List ConsumeStep) (s' : State ρ) (c' : Consumer ρ) (r : Except TurnError ρ),
      (machine ρ).run (as ++ bs.map (.consume i)) = some s' ∧ s'.consumers[i]? = some c' ∧
        c'.phase = .returned (.resolved r) ∧ ComputedIn (as ++ bs.map (.consume i)) i o r)

theorem Phase.settled_of_resolved {p : Phase ρ} {r : Except TurnError ρ}
    (h : p.result = some (.resolved r)) : p.settled = true := by
  cases p <;> first | (cases h; done) | (cases h; rfl)

/-- **The prompt outcome is never lost, and is resolved once.** -/
theorem resolved_once {as : List (Action ρ)} {s : State ρ} (hrun : (machine ρ).run as = some s) :
    ResolvedOnce as s := by
  obtain ⟨hex, hcar, htraced⟩ := turn_invariants hrun
  have hsettled : ∀ i, s.ResolvedAt i → s.SettledAt i :=
    fun _ ⟨c, hc, _, hr⟩ => ⟨c, hc, Phase.settled_of_resolved hr⟩
  refine ⟨fun i j hi hj => hex.unique i j (hsettled i hi) (hsettled j hj), fun i hi streaming => ?_,
    fun i c hc => (htraced i c hc).result, fun hfin hnone streaming => ?_, fun i c hc o hp => ?_,
    fun i c hc o hp => ?_⟩
  · rw [step, State.acquire_finished streaming (hex.settled i (hsettled i hi))]
  · have hcons : s.consuming = false := by
      cases hcons : s.consuming with
      | false => rfl
      | true =>
        obtain ⟨i, hi⟩ := hex.consuming.mp hcons
        exact absurd hi (hnone i)
    rw [step, State.acquire_free streaming hfin hcons]
  · obtain ⟨a, s₁, c₁, hstep, _⟩ := hp.progress hcar hex hc
    exact ⟨a, by rw [step_consume hc hstep]; rfl⟩
  · obtain ⟨bs, s', c', r, hbs, hc', hr, ho⟩ := hp.reaches hcar hex hc
    have hrun' : (machine ρ).run (as ++ bs.map (.consume i)) = some s' := by
      rw [Machine.run, Machine.runFrom_append, show (machine ρ).runFrom (machine ρ).init as = some s from hrun]
      exact hbs
    obtain ⟨o', ho', hcomp⟩ := ((turn_invariants hrun').2.2 i c' hc').result r (by rw [hr]; rfl)
    have heq := Carried.sent_inj ho ho'
    subst heq
    exact ⟨bs, s', c', r, hrun', hc', hr, hcomp⟩

/-- A `Stream` receives the outcome and is cancelled before the turn is over; the `Run` behind it resolves the
    turn from the stored outcome, and a third call is told that it is completed. -/
theorem resolved_once_resumed :
    ∃ as s, (machine Nat).run as = some s ∧
      (s.consumers.map Consumer.phase = [.returned .contextDone, .returned (.resolved (.ok 7)),
        .returned .completed]) ∧ ResolvedOnce as s := by
  refine ⟨[.call true, .consume 0 .resume, .promptReturns ⟨⟨[], none, 7⟩, none⟩, .promptSends,
    .consume 0 .outcome, .consume 0 .store, .consume 0 .judge, .cancel 0, .consume 0 .contextDone,
    .consume 0 .cancelPump, .consume 0 .release, .call false, .consume 1 .resume, .consume 1 .resolve,
    .consume 1 .finish, .consume 1 .unsubscribe, .consume 1 .conclude, .consume 1 .cancelPump,
    .consume 1 .release, .call false], ?s, ?hrun, ?phases, resolved_once ?hrun⟩
  case hrun | phases => exact rfl

end Pandaemonium.Opencode
