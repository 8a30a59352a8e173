import Pandaemonium.Opencode.Bus

/-!
# `Opencode.BusDial` — an established bus is never torn down by a dial

The bus is torn down by `failDial`, by the run loop and by `Client.Close`. The invariant says who can be behind
the critical section of `closeInternal` when: a call of `dial` only while the bus is closed and was never
connected, since the test of the handshake is made under the mutex, and a closed bus does not connect any more.
The run loop exits only from a bus that is closed or whose client lifetime is over, so that a dial that waits for
its end has an error to report.
-/

namespace Pandaemonium.Opencode

/-! ## What holds in every state -/

/-- The bus is closed or the lifetime of the client is over. -/
def Bus.Down (b : Bus) : Prop := b.closed = true ∨ b.lifetimeDone = true

/-- The invariant of the bus itself. -/
structure Bus.Sound (b : Bus) : Prop where
  cancelled : b.cancelled = true → b.closed = true
  done : b.done = true → b.Down
  started : b.connected = true → b.started = true

/-- What a call of `dial` may rely on: only a bus that never connected is torn down by it, and it reports an
    error of a bus that is down. -/
def DialPhase.Ok (b : Bus) : DialPhase → Prop
  | .tearing _ => b.closed = true ∧ b.connected = false
  | .awaiting => b.closed = true
  | .reporting | .returned (some _) => b.Down
  | _ => True

/-- What the run loop may rely on. -/
structure Loop.Ok (b : Bus) (l : Loop) : Prop where
  started : l.phase ≠ .idle → b.started = true
  first : l.firstConnection = !b.connected
  handshaking : l.phase = .handshaking → l.firstConnection = true
  tearing : ∀ t, l.phase = .tearing t → b.closed = true
  leaving : l.phase = .leaving ∨ l.phase = .exited → b.Down

def ClosePhase.Ok (b : Bus) : ClosePhase → Prop
  | .tearing _ => b.closed = true
  | _ => True

/-- The invariant of the machine. -/
structure BusInv (s : BusState) : Prop where
  bus : s.bus.Sound
  dials : AllAt s.dials (fun _ d => d.phase.Ok s.bus)
  loop : s.loop.Ok s.bus
  close : s.close.Ok s.bus

/-- What no step takes back. A bus that is closed does not connect any more. -/
structure Bus.Later (b b' : Bus) : Prop where
  closed : b.closed = true → b'.closed = true
  lifetime : b.lifetimeDone = true → b'.lifetimeDone = true
  started : b.started = true → b'.started = true
  connected : b.closed = true → b'.connected = b.connected
  stays : b.connected = true → b'.connected = true

namespace Bus.Later

variable {b b' : Bus}

theorem refl : b.Later b := ⟨id, id, id, fun _ => rfl, id⟩

theorem down (h : b.Later b') (hdown : b.Down) : b'.Down := hdown.imp h.closed h.lifetime

theorem dial (h : b.Later b') {p : DialPhase} (hp : p.Ok b) : p.Ok b' := by
  cases p with
  | tearing t => exact ⟨h.closed hp.1, (h.connected hp.1).trans hp.2⟩
  | awaiting => exact h.closed hp
  | reporting => exact h.down hp
  | returned err =>
    cases err with
    | none => trivial
    | some e => exact h.down hp
  | starting | checking | selecting | failing cause => trivial

theorem loop (h : b.Later b') (hconn : b'.connected = b.connected) {l : Loop} (hl : l.Ok b) : l.Ok b' where
  started hp := h.started (hl.started hp)
  first := by rw [hconn]; exact hl.first
  handshaking := hl.handshaking
  tearing t ht := h.closed (hl.tearing t ht)
  leaving hp := h.down (hl.leaving hp)

theorem close (h : b.Later b') {p : ClosePhase} (hp : p.Ok b) : p.Ok b' := by
  cases p with
  | tearing t => exact h.closed hp
  | «open» | cancelled | closed => trivial

end Bus.Later

/-- A step of a thread other than the run loop. -/
structure Bus.Step (b b' : Bus) : Prop where
  sound : b'.Sound
  later : b.Later b'
  connected : b'.connected = b.connected

namespace Bus.Step

variable {b b' : Bus}

theorem refl (h : b.Sound) : b.Step b := ⟨h, .refl, rfl⟩

/-- The critical section of `closeInternal`. -/
theorem closeMove {err : BusError} {onlyIfUnconnected : Bool} {r : Closing} (h : b.Sound)
    (hm : CloseMove b err onlyIfUnconnected b' r) : b.Step b' := by
  cases hm with
  | already _ | refused _ _ _ => exact .refl h
  | won hclosed _ =>
    exact ⟨⟨fun _ => rfl, fun _ => .inl rfl, h.started⟩, ⟨fun _ => rfl, id, id, fun _ => rfl, id⟩, rfl⟩

/-- What follows it, on a closed bus. -/
theorem teardown {t t' : Teardown} {a : TeardownStep} (h : b.Sound) (hclosed : b.closed = true)
    (hstep : t.step b a = some (b', t')) : b.Step b' := by
  obtain ⟨cancelled, made, rfl, _⟩ := Teardown.step_inv hstep
  exact ⟨⟨fun _ => hclosed, h.done, h.started⟩, ⟨id, id, id, fun _ => rfl, id⟩, rfl⟩

/-- Consumers come and go. -/
theorem consumers (h : b.Sound) (made : List BusConsumer) (consumers : List Nat) :
    b.Step { b with made := made, consumers := consumers } :=
  ⟨⟨h.cancelled, h.done, h.started⟩, ⟨id, id, id, fun _ => rfl, id⟩, rfl⟩

end Bus.Step

/-! ## The steps of `dial` -/

/-- A step of `dial` keeps what it relies on, and does nothing to a bus that is connected. -/
theorem stepDial_spec {b b' : Bus} {d d' : Dial} {a : DialStep} (hb : b.Sound) (hd : d.phase.Ok b)
    (h : stepDial b d a = some (b', d')) : b.Step b' ∧ d'.phase.Ok b' ∧ (b.connected = true → b' = b) := by
  cases a
  all_goals simp only [stepDial] at h
  case start =>
    split at h
    · cases h
      refine ⟨⟨⟨hb.cancelled, hb.done, fun _ => rfl⟩, ⟨id, id, fun _ => rfl, fun _ => rfl, id⟩, rfl⟩, trivial,
        fun hconn => ?_⟩
      -- the loop runs already
      have hstarted := hb.started hconn
      cases b
      cases hstarted
      rfl
    · cases h
  case check =>
    split at h
    · cases h
      refine ⟨.refl hb, ?_, fun _ => rfl⟩
      show DialPhase.Ok b (if b.connected then _ else _)
      split <;> trivial
    · cases h
  case connected | timeout | canceled =>
    split at h
    · cases h
      exact ⟨.refl hb, trivial, fun _ => rfl⟩
    · cases h
  case done | await =>
    split at h
    · rename_i hdone
      cases h
      exact ⟨.refl hb, hb.done hdone, fun _ => rfl⟩
    · cases h
  case close =>
    split at h
    · rename_i cause hp
      have hm := b.closeInternal_inv cause true
      split at h
      · rename_i b₁ heq
        rw [heq] at hm
        cases h
        cases hm with
        | already hclosed => exact ⟨.refl hb, hclosed, fun _ => rfl⟩
      · rename_i b₁ heq
        rw [heq] at hm
        cases h
        cases hm with
        | refused _ _ _ => exact ⟨.refl hb, trivial, fun _ => rfl⟩
      · rename_i b₁ t heq
        rw [heq] at hm
        cases h
        refine ⟨.closeMove hb hm, ?_, fun hconn => ?_⟩
        · cases hm with
          | won _ hunconnected => exact ⟨rfl, hunconnected rfl⟩
        · cases hm with
          | won _ hunconnected => exact nomatch hconn.symm.trans (hunconnected rfl)
    · cases h
  case tear a =>
    split at h
    · rename_i t hp
      rw [hp] at hd
      obtain ⟨⟨b₁, t'⟩, hstep, heq⟩ := Option.map_eq_some_iff.mp h
      cases heq
      have hs := Bus.Step.teardown hb hd.1 hstep
      exact ⟨hs, ⟨hs.later.closed hd.1, hs.connected.trans hd.2⟩, fun hconn => nomatch hconn.symm.trans hd.2⟩
    · cases h
  case torn =>
    split at h
    · rename_i hp
      rw [hp] at hd
      cases h
      exact ⟨.refl hb, hd.1, fun _ => rfl⟩
    · cases h
  case report =>
    split at h
    · rename_i hp
      rw [hp] at hd
      cases h
      exact ⟨.refl hb, hd, fun _ => rfl⟩
    · cases h

/-! ## The steps of the run loop -/

theorem Bus.Sound.down {b : Bus} (h : b.Sound) (hctx : b.ctxDone = true) : b.Down := by
  rcases Bool.or_eq_true_iff.mp hctx with hlife | hcancel
  · exact .inr hlife
  · exact .inl (h.cancelled hcancel)

/-- The phases in which the loop relies on more than having been started. -/
def LoopPhase.Relies : LoopPhase → Prop
  | .handshaking | .tearing _ | .leaving | .exited => True
  | _ => False

namespace Loop.Ok

variable {b : Bus} {l : Loop}

/-- The loop goes to a phase that relies on nothing. -/
theorem goOn (hl : l.Ok b) (hidle : l.phase ≠ .idle) {p : LoopPhase} (n : Nat) (hp : ¬ p.Relies) :
    Loop.Ok b { l with phase := p, attempt := n } where
  started _ := hl.started hidle
  first := hl.first
  handshaking hp' := by cases hp'; exact absurd trivial hp
  tearing t ht := by cases ht; exact absurd trivial hp
  leaving hp' := by rcases hp' with h | h <;> cases h <;> exact absurd trivial hp

/-- The loop ends. -/
theorem leave (hl : l.Ok b) (hidle : l.phase ≠ .idle) (hdown : b.Down) :
    Loop.Ok b { l with phase := .leaving } where
  started _ := hl.started hidle
  first := hl.first
  handshaking := nofun
  tearing := nofun
  leaving _ := hdown

/-- A frame is received. -/
theorem receive (hl : l.Ok b) {handshaken : Bool} (hp : l.phase = .reading handshaken) (f : Frame) :
    Loop.Ok b { l with phase := l.receive handshaken f } := by
  have hidle : l.phase ≠ .idle := by
    rw [hp]
    nofun
  unfold Loop.receive
  split
  · split
    · exact hl.goOn hidle _ id
    · exact hl.goOn hidle _ id
  · split
    · exact hl.goOn hidle _ id
    split
    · next hfirst => exact ⟨fun _ => hl.started hidle, hl.first, fun _ => hfirst, nofun, nofun⟩
    · exact hl.goOn hidle _ id

theorem decide (hl : l.Ok b) (hidle : l.phase ≠ .idle) (maxAttempts : Nat) (err : StreamError) :
    Loop.Ok b (l.decide maxAttempts err) := by
  unfold Loop.decide
  split
  · exact hl.goOn hidle _ id
  split
  all_goals exact hl.goOn hidle _ id

/-- The loop is behind the critical section of `closeInternal`. -/
theorem tear (hl : l.Ok b) (hidle : l.phase ≠ .idle) (hclosed : b.closed = true) (t : Teardown) :
    Loop.Ok b { l with phase := .tearing t } where
  started _ := hl.started hidle
  first := hl.first
  handshaking := nofun
  tearing _ _ := hclosed
  leaving := nofun

end Loop.Ok

/-- A step of the run loop keeps the invariant of the bus and what the loop relies on. -/
theorem stepLoop_spec {maxAttempts : Nat} {b b' : Bus} {l l' : Loop} {a : LoopStep} (hb : b.Sound) (hl : l.Ok b)
    (h : stepLoop maxAttempts b l a = some (b', l')) : b'.Sound ∧ b.Later b' ∧ l'.Ok b' := by
  -- a step that changes the phase of the loop alone
  have hgo : ∀ {p : LoopPhase} (n : Nat), l.phase ≠ .idle → ¬ p.Relies →
      b.Sound ∧ b.Later b ∧ Loop.Ok b { l with phase := p, attempt := n } :=
    fun n hidle hp => ⟨hb, .refl, hl.goOn hidle n hp⟩
  cases a
  all_goals simp only [stepLoop] at h
  case begin =>
    split at h
    · rename_i hp hstarted
      cases h
      exact ⟨hb, .refl, fun _ => hstarted, hl.first, nofun, nofun, nofun⟩
    · cases h
  case check | isClosed =>
    split at h
    · rename_i hp
      cases h
      by_cases hclosed : b.closed = true
      · rw [if_pos hclosed]
        exact ⟨hb, .refl, hl.leave (by rw [hp]; nofun) (.inl hclosed)⟩
      · rw [if_neg hclosed]
        exact hgo _ (by rw [hp]; nofun) id
    · cases h
  case dial err =>
    split at h
    · rename_i hp
      cases h
      exact hgo _ (by rw [hp]; nofun) id
    · rename_i hp
      cases h
      exact hgo _ (by rw [hp]; nofun) id
    · cases h
  case setBody =>
    split at h
    · rename_i hp
      split at h
      · cases h
        exact hgo _ (by rw [hp]; nofun) id
      cases h
      have hlater : b.Later { b with body := true } := ⟨id, id, id, fun _ => rfl, id⟩
      exact ⟨⟨hb.cancelled, hb.done, hb.started⟩, hlater,
        (hlater.loop rfl hl).goOn (by rw [hp]; nofun) _ id⟩
    · cases h
  case frame f =>
    split at h
    · rename_i f' hp
      cases h
      exact ⟨hb, .refl, hl.receive hp f'⟩
    · cases h
      exact ⟨hb, .refl, hl⟩
    · cases h
  case readErr err | gap | route | delivered | sleep =>
    split at h
    · rename_i hp
      cases h
      exact hgo _ (by rw [hp]; nofun) id
    · cases h
  case mark =>
    split at h
    · rename_i hp
      have hidle : l.phase ≠ .idle := by
        rw [hp]
        nofun
      split at h
      · cases h
        exact hgo _ hidle id
      next hopen =>
        cases h
        exact ⟨⟨hb.cancelled, hb.done, fun _ => hl.started hidle⟩,
          ⟨id, id, id, fun hclosed => absurd hclosed hopen, fun _ => rfl⟩,
          fun _ => hl.started hidle, rfl, nofun, nofun, nofun⟩
    · cases h
  case deliver k =>
    split at h
    · rename_i ev rest hp
      split at h
      · cases h
        have hs := Bus.Step.consumers hb (b.push k ev).made b.consumers
        exact ⟨hs.sound, hs.later,
          (hs.later.loop rfl hl).goOn (by rw [hp]; nofun) _ id⟩
      · cases h
    · cases h
  case ctxErr =>
    split at h
    · rename_i err hp
      have hidle : l.phase ≠ .idle := by
        rw [hp]
        nofun
      split at h
      · rename_i hctx
        cases h
        exact ⟨hb, .refl, hl.leave hidle (hb.down hctx)⟩
      · cases h
        exact ⟨hb, .refl, hl.decide hidle maxAttempts err⟩
    · cases h
  case close =>
    split at h
    · rename_i err hp
      have hidle : l.phase ≠ .idle := by
        rw [hp]
        nofun
      have hm := b.closeInternal_inv err false
      have hs := Bus.Step.closeMove hb hm
      have hok := hs.later.loop hs.connected hl
      split at h
      · rename_i b₁ t heq
        rw [heq] at hm hs hok
        cases h
        refine ⟨hs.sound, hs.later, hok.tear hidle ?_ t⟩
        cases hm with
        | won _ _ => rfl
      · rename_i b₁ r hnot heq
        rw [heq] at hm hs hok
        cases h
        refine ⟨hs.sound, hs.later, hok.leave hidle (.inl ?_)⟩
        cases hm with
        | already hclosed => exact hclosed
        | refused _ honly _ => cases honly
        | won _ _ => rfl
    · cases h
  case tear a =>
    split at h
    · rename_i t hp
      obtain ⟨⟨b₁, t'⟩, hstep, heq⟩ := Option.map_eq_some_iff.mp h
      cases heq
      have hs := Bus.Step.teardown hb (hl.tearing t hp) hstep
      exact ⟨hs.sound, hs.later, (hs.later.loop hs.connected hl).tear (by rw [hp]; nofun)
        (hs.later.closed (hl.tearing t hp)) t'⟩
    · cases h
  case torn =>
    split at h
    · rename_i hp
      cases h
      exact ⟨hb, .refl, hl.leave (by rw [hp]; nofun) (.inl (hl.tearing _ hp))⟩
    · cases h
  case sleepErr =>
    split at h
    · rename_i hp _
      cases h
      exact hgo _ (by rw [hp]; nofun) id
    · cases h
  case exit =>
    split at h
    · rename_i hp
      cases h
      have hdown : b.Down := hl.leaving (.inl hp)
      exact ⟨⟨hb.cancelled, fun _ => hdown, hb.started⟩, ⟨id, id, id, fun _ => rfl, id⟩,
        fun _ => hl.started (by rw [hp]; nofun), hl.first, nofun, nofun, fun _ => hdown⟩
    · cases h

/-! ## The machine -/

theorem stepClose_spec {b b' : Bus} {p p' : ClosePhase} {a : CloseStep} (hb : b.Sound) (hp : p.Ok b)
    (h : stepClose b p a = some (b', p')) : b.Step b' ∧ p'.Ok b' := by
  unfold stepClose at h
  split at h
  · cases h
    exact ⟨⟨⟨hb.cancelled, fun _ => .inr rfl, hb.started⟩, ⟨id, fun _ => rfl, id, fun _ => rfl, id⟩, rfl⟩,
      trivial⟩
  · have hm := b.closeInternal_inv .clientClosed false
    have hs := Bus.Step.closeMove hb hm
    split at h
    · rename_i b₁ t heq
      rw [heq] at hm hs
      cases h
      refine ⟨hs, ?_⟩
      cases hm with
      | won _ _ => exact rfl
    · rename_i b₁ r hnot heq
      rw [heq] at hs
      cases h
      exact ⟨hs, trivial⟩
  · rename_i t a
    obtain ⟨⟨b₁, t'⟩, hstep, heq⟩ := Option.map_eq_some_iff.mp h
    cases heq
    have hs := Bus.Step.teardown hb hp hstep
    exact ⟨hs, hs.later.closed hp⟩
  · cases h
    exact ⟨.refl hb, trivial⟩
  · cases h

theorem stepDialAt_inv {s s' : BusState} {i : Nat} {a : DialStep} (h : stepDialAt s i a = some s') :
    ∃ d b' d', s.dials[i]? = some d ∧ stepDial s.bus d a = some (b', d') ∧
      s' = { s with bus := b', dials := s.dials.set i d' } := by
  unfold stepDialAt at h
  split at h
  · rename_i d hd
    obtain ⟨⟨b', d'⟩, hstep, rfl⟩ := Option.map_eq_some_iff.mp h
    exact ⟨d, b', d', hd, hstep, rfl⟩
  · cases h

namespace BusInv

variable {maxAttempts : Nat} {s s' : BusState} {b' : Bus}

theorem init : BusInv (busMachine maxAttempts).init where
  bus := ⟨nofun, nofun, nofun⟩
  dials := .nil
  loop := ⟨fun h => absurd rfl h, rfl, nofun, nofun, nofun⟩
  close := trivial

/-- A step of the bus that no other thread notices. -/
theorem move (h : BusInv s) (hs : s.bus.Step b') {unsubscribing : List Nat} :
    BusInv { s with bus := b', unsubscribing := unsubscribing } where
  bus := hs.sound
  dials i d hd := hs.later.dial (h.dials i d hd)
  loop := hs.later.loop hs.connected h.loop
  close := hs.later.close h.close

/-- **Every step keeps the invariant**, and a connected bus stays connected. -/
theorem step (h : BusInv s) {a : BusAction} (hstep : stepBus maxAttempts s a = some s') :
    BusInv s' ∧ (s.bus.connected = true → s'.bus.connected = true) := by
  cases a with
  | call =>
    cases hstep
    exact ⟨⟨h.bus, h.dials.concat trivial, h.loop, h.close⟩, id⟩
  | cancel i err =>
    simp only [stepBus] at hstep
    split at hstep
    · rename_i d hd
      cases hstep
      refine ⟨⟨h.bus, .set (fun _ => ?_) (fun j c _ hc => h.dials j c hc), h.loop, h.close⟩, id⟩
      exact h.dials i d hd
    · cases hstep
  | dial i a =>
    obtain ⟨d, b', d', hd, hf, rfl⟩ := stepDialAt_inv hstep
    obtain ⟨hs, hok, _⟩ := stepDial_spec h.bus (h.dials i d hd) hf
    refine ⟨⟨hs.sound, .set (fun _ => hok) (fun j c _ hc => hs.later.dial (h.dials j c hc)),
      hs.later.loop hs.connected h.loop, hs.later.close h.close⟩, hs.later.stays⟩
  | loop a =>
    obtain ⟨⟨b', l'⟩, hf, rfl⟩ := Option.map_eq_some_iff.mp hstep
    obtain ⟨hsound, hlater, hok⟩ := stepLoop_spec h.bus h.loop hf
    exact ⟨⟨hsound, fun i d hd => hlater.dial (h.dials i d hd), hok, hlater.close h.close⟩, hlater.stays⟩
  | close a =>
    obtain ⟨⟨b', p'⟩, hf, rfl⟩ := Option.map_eq_some_iff.mp hstep
    obtain ⟨hs, hok⟩ := stepClose_spec h.bus h.close hf
    exact ⟨⟨hs.sound, fun i d hd => hs.later.dial (h.dials i d hd),
      hs.later.loop hs.connected h.loop, hok⟩, hs.later.stays⟩
  | subscribe sessionID =>
    cases hstep
    have hs : s.bus.Step (s.bus.subscribe sessionID) := by
      unfold Bus.subscribe
      split
      · exact .refl h.bus
      · exact .consumers h.bus _ _
    exact ⟨h.move hs, hs.later.stays⟩
  | unsubscribe k =>
    cases hstep
    have hs : s.bus.Step (s.bus.delete k) := .consumers h.bus _ _
    exact ⟨h.move hs, hs.later.stays⟩
  | unsubscribed k =>
    simp only [stepBus] at hstep
    split at hstep
    · cases hstep
      have hs : s.bus.Step (s.bus.closeConsumer k .unsubscribed) := .consumers h.bus _ _
      exact ⟨h.move hs, hs.later.stays⟩
    · cases hstep

end BusInv

/-- What a dial can and cannot do to the bus. -/
structure Sacrosanct (maxAttempts : Nat) (s : BusState) : Prop where
  /-- a step of `dial`, in `failDial` or not, leaves a connected bus as it is: closed or not, its error, its
      registered consumers and the rest -/
  untouched : s.bus.connected = true → ∀ i a s', stepBus maxAttempts s (.dial i a) = some s' → s'.bus = s.bus
  /-- a connected bus stays connected -/
  stays : s.bus.connected = true → ∀ a s', stepBus maxAttempts s a = some s' → s'.bus.connected = true
  /-- the channel `connected` is closed once -/
  once : s.loop.phase = .handshaking → s.bus.connected = false
  /-- a dial that has returned an error is one of a closed bus or a cancelled lifetime -/
  failed : AllAt s.dials (fun _ d => ∀ err, d.phase = .returned (some err) →
    s.bus.closed = true ∨ s.bus.lifetimeDone = true)

/-- **An established bus is never torn down by a dial.** -/
theorem established_bus_sacrosanct {maxAttempts : Nat} {as : List BusAction} {s : BusState}
    (hrun : (busMachine maxAttempts).run as = some s) : Sacrosanct maxAttempts s := by
  have hinv : BusInv s := Machine.invariant BusInv.init (fun _ _ _ h hstep => (h.step hstep).1) hrun
  refine ⟨fun hconn i a s' hstep => ?_, fun hconn a s' hstep => (hinv.step hstep).2 hconn, fun hp => ?_,
    fun i d hd err hp => ?_⟩
  · obtain ⟨d, b', d', hd, hf, rfl⟩ := stepDialAt_inv hstep
    exact (stepDial_spec hinv.bus (hinv.dials i d hd) hf).2.2 hconn
  · have hfirst : true = !s.bus.connected := (hinv.loop.handshaking hp).symm.trans hinv.loop.first
    simpa using hfirst.symm
  have hok : d.phase.Ok s.bus := hinv.dials i d hd
  rw [hp] at hok
  exact hok

/-- Two calls of `dial` wait; the timer of the first fires while the handshake is under way. The handshake is
    marked before `failDial` gets the mutex, so both calls succeed. -/
theorem established_bus_sacrosanct_race :
    ∃ s, (busMachine 5).run [.call, .call, .dial 0 .start, .dial 1 .start, .dial 0 .check, .dial 1 .check,
        .loop .begin, .loop .check, .loop (.dial none), .loop .setBody,
        .loop (.frame (some ⟨ascii "server.connected", [], .other []⟩)), .dial 0 .timeout, .loop .mark,
        .subscribe (ascii "ses"), .dial 0 .close, .dial 1 .connected] = some s ∧
      (s.bus.closed = false ∧ s.bus.consumers = [0] ∧
        s.dials.map Dial.phase = [.returned none, .returned none]) ∧ Sacrosanct 5 s := by
  refine ⟨?s, ?hrun, ?facts, established_bus_sacrosanct ?hrun⟩
  case hrun => exact rfl
  case facts => exact ⟨rfl, rfl, rfl⟩

end Pandaemonium.Opencode
