import Pandaemonium.Lib.Machine
import Pandaemonium.Llm.NotifyQueue

/-!
# `Llm.NotifyWake` — wake-ups of the notification queue

Any number of producers, closers and callers of `Next` share one queue and one wake-up channel of capacity
one. The machine has one action for each critical section (the functions of `Llm.NotifyQueue`), for each
`signal`, and for each outcome of the `select` in `Next`: a caller takes the token, or leaves because its
context is done. A caller that has taken the token goes back to the critical section.

* `no_lost_wakeup` — whenever there is something for a caller to find, the wake-up is in the channel, or with
  somebody who is about to send it, or with a caller who has taken it and is about to look;
* `served_of_ready` — from there a few steps of the hand-over bring a waiting caller to its answer.
-/

namespace Pandaemonium.Llm

open List

/-- What a call of `Next` returns. -/
inductive Returned (T ε : Type) where
  | item (x : T)
  /-- the terminal error, `none` being `ErrQueueClosed` -/
  | terminal (err : Option ε)
  /-- `ctx.Err()` -/
  | contextDone
deriving DecidableEq, Repr

/-- Where a call is. -/
inductive Thread (T ε : Type) where
  /-- `Push`, `PushBounded` or `Close`, between its update and its signal -/
  | signalling
  | signalled
  /-- `Next`, before its first critical section -/
  | entering
  /-- `Next` in its `select` -/
  | blocked
  /-- `Next`, between taking the token and its next critical section -/
  | rechecking
  /-- `Next`, between its critical section and its signal -/
  | rearming (r : Returned T ε)
  | returned (r : Returned T ε)
deriving DecidableEq, Repr

namespace Thread

variable {T ε : Type}

/-- The call is going to signal. -/
def signals : Thread T ε → Bool
  | .signalling | .rearming _ => true
  | _ => false

/-- The call has an item or the terminal error to return. -/
def answers : Thread T ε → Bool
  | .rearming r | .returned r =>
    match r with
    | .item _ | .terminal _ => true
    | .contextDone => false
  | _ => false

/-- Where a caller goes from its critical section. -/
def ofPass : Pass T ε → Thread T ε
  | .item x true => .rearming (.item x)
  | .item x false => .returned (.item x)
  | .closed err => .rearming (.terminal err)
  | .wait => .blocked

end Thread

structure Wake (T ε : Type) where
  queue : NotifyQueue T ε
  /-- `notify` -/
  token : Bool
  threads : List (Thread T ε)

inductive WakeAction (T ε : Type) where
  | push (item : T)
  | pushBounded (item : T) (capacity : Nat) (gap : Nat → Option T)
  | close (err : Option ε)
  /-- a call of `Next` -/
  | next
  /-- the critical section of `Next` -/
  | pass (i : Nat)
  | signal (i : Nat)
  /-- the token is taken -/
  | take (i : Nat)
  /-- the context is done -/
  | leave (i : Nat)

/-- The steps by which a wake-up gets from a signal to the caller that looks. -/
def WakeAction.handsOver {T ε : Type} : WakeAction T ε → Bool
  | .signal _ | .take _ | .pass _ => true
  | _ => false

namespace Wake

variable {T ε : Type}

/-- An update of the queue; the call goes on to `signal` when it took effect. -/
def update (s : Wake T ε) (r : NotifyQueue T ε × Bool) : Wake T ε :=
  ⟨r.1, s.token, if r.2 then s.threads ++ [.signalling] else s.threads⟩

def step [Inhabited T] (s : Wake T ε) : WakeAction T ε → Option (Wake T ε)
  | .push item => some (s.update (s.queue.push item))
  | .pushBounded item capacity gap => some (s.update (s.queue.pushBounded item capacity gap))
  | .close err => some (s.update (s.queue.close err))
  | .next => some ⟨s.queue, s.token, s.threads ++ [.entering]⟩
  | .pass i =>
    match s.threads[i]? with
    | some .entering | some .rechecking =>
      some ⟨s.queue.next.1, s.token, s.threads.set i (.ofPass s.queue.next.2)⟩
    | _ => none
  | .signal i =>
    match s.threads[i]? with
    | some .signalling => some ⟨s.queue, true, s.threads.set i .signalled⟩
    | some (.rearming r) => some ⟨s.queue, true, s.threads.set i (.returned r)⟩
    | _ => none
  | .take i =>
    match s.threads[i]?, s.token with
    | some .blocked, true => some ⟨s.queue, false, s.threads.set i .rechecking⟩
    | _, _ => none
  | .leave i =>
    match s.threads[i]? with
    | some .blocked => some ⟨s.queue, s.token, s.threads.set i (.returned .contextDone)⟩
    | _ => none

def machine (T ε : Type) [Inhabited T] : Machine (Wake T ε) (WakeAction T ε) where
  init := ⟨.new, false, []⟩
  step := step

/-- There is something to find: an entry is pending or the queue is closed. -/
def Ready (s : Wake T ε) : Prop := s.queue.pending ≠ [] ∨ s.queue.closed = true

/-- The wake-up is somewhere. -/
def Armed (s : Wake T ε) : Prop :=
  s.token = true ∨ (∃ t ∈ s.threads, t.signals = true) ∨ .rechecking ∈ s.threads

/-- No caller waits for a wake-up that is lost. -/
def NoLostWakeup (s : Wake T ε) : Prop := s.Ready → .blocked ∈ s.threads → s.Armed

variable {s s' : Wake T ε}

/-- An update either changes nothing or leaves a call that is going to signal. -/
theorem armed_update {r : NotifyQueue T ε × Bool} (hr : r.2 = false → r.1 = s.queue)
    (h : s.Ready → s.Armed) : (s.update r).Ready → (s.update r).Armed := by
  cases hres : r.2 with
  | true =>
    intro _
    refine .inr (.inl ⟨.signalling, ?_, rfl⟩)
    rw [update, hres]
    exact mem_append_right _ mem_cons_self
  | false =>
    have hs : s.update r = s := by rw [update, hres, hr hres]; rfl
    rw [hs]
    exact h

/-- A call that is not going to signal and has not taken the token moves on. -/
theorem Armed.set (h : s.Armed) {i : Nat} {t t' : Thread T ε} (ht : s.threads[i]? = some t)
    (hsignals : t.signals = false) (hrecheck : t ≠ .rechecking) :
    (⟨s.queue, s.token, s.threads.set i t'⟩ : Wake T ε).Armed := by
  have hother : ∀ u ∈ s.threads, u ≠ t → u ∈ s.threads.set i t' := by
    intro u hu hne
    obtain ⟨j, hj⟩ := mem_iff_getElem?.mp hu
    refine mem_iff_getElem?.mpr ⟨j, ?_⟩
    rw [getElem?_set_ne, hj]
    intro hij
    rw [← hij, ht] at hj
    exact hne (Option.some.inj hj).symm
  rcases h with h | ⟨u, hu, hus⟩ | h
  · exact .inl h
  · refine .inr (.inl ⟨u, hother u hu ?_, hus⟩)
    intro hut
    rw [hut, hsignals] at hus
    cases hus
  · exact .inr (.inr (hother _ h (Ne.symm hrecheck)))

variable [Inhabited T]

/-- A caller leaves its critical section: it is going to signal, or there is nothing to find any more. -/
theorem armed_pass {i : Nat} {t : Thread T ε} (ht : s.threads[i]? = some t) :
    (⟨s.queue.next.1, s.token, s.threads.set i (.ofPass s.queue.next.2)⟩ : Wake T ε).Ready →
      (⟨s.queue.next.1, s.token, s.threads.set i (.ofPass s.queue.next.2)⟩ : Wake T ε).Armed := by
  have hmem : Thread.ofPass s.queue.next.2 ∈ s.threads.set i (.ofPass s.queue.next.2) :=
    mem_set (List.getElem?_eq_some_iff.mp ht).1 _
  intro hready
  refine .inr (.inl ⟨_, hmem, ?_⟩)
  cases hp : s.queue.pending with
  | nil =>
    rw [NotifyQueue.next_nil hp] at hready ⊢
    cases hc : s.queue.closed with
    | true => rfl
    | false =>
      rcases hready with hready | hready
      · exact absurd hp hready
      · rw [hc] at hready
        cases hready
  | cons x rest =>
    obtain ⟨⟨rearm, hitem, hrearm⟩, hpending, hclosed, _⟩ := NotifyQueue.next_cons hp
    have htrue : rearm = true := by
      refine hrearm.mpr (hready.imp (fun h => ?_) (fun h => ?_))
      · exact hpending ▸ h
      · exact hclosed ▸ h
    rw [hitem, htrue]
    rfl

/-- **A step does not lose the wake-up.** -/
theorem armed_step {a : WakeAction T ε} (h : s.Ready → s.Armed) (hstep : s.step a = some s') :
    s'.Ready → s'.Armed := by
  cases a
  all_goals simp only [step] at hstep
  case push item =>
    cases hstep
    exact armed_update NotifyQueue.push_refused h
  case pushBounded item capacity gap =>
    cases hstep
    exact armed_update NotifyQueue.pushBounded_refused h
  case close err =>
    cases hstep
    exact armed_update NotifyQueue.close_refused h
  case next =>
    cases hstep
    intro hready
    rcases h hready with h | ⟨t, ht, hs⟩ | h
    · exact .inl h
    · exact .inr (.inl ⟨t, mem_append_left _ ht, hs⟩)
    · exact .inr (.inr (mem_append_left _ h))
  case pass i =>
    split at hstep
    · next ht => cases hstep; exact armed_pass ht
    · next ht => cases hstep; exact armed_pass ht
    · cases hstep
  case signal i =>
    split at hstep
    · cases hstep; exact fun _ => .inl rfl
    · cases hstep; exact fun _ => .inl rfl
    · cases hstep
  case take i =>
    split at hstep
    · rename_i ht _
      cases hstep
      exact fun _ => .inr (.inr (mem_set (List.getElem?_eq_some_iff.mp ht).1 _))
    · cases hstep
  case leave i =>
    split at hstep
    · rename_i ht
      cases hstep
      exact fun hready => (h hready).set ht rfl nofun
    · cases hstep

/-- Whether somebody waits or not. -/
theorem armed_of_ready {as : List (WakeAction T ε)} (hrun : (machine T ε).run as = some s) :
    s.Ready → s.Armed := by
  have hinit : (machine T ε).init.Ready → (machine T ε).init.Armed := by
    rintro (h | h)
    · exact absurd rfl h
    · cases h
  exact Machine.invariant (I := fun s => s.Ready → s.Armed) hinit
    (fun _ _ _ h hstep => armed_step h hstep) hrun

/-- **No wake-up is lost.** -/
theorem no_lost_wakeup {as : List (WakeAction T ε)} (hrun : (machine T ε).run as = some s) : s.NoLostWakeup :=
  fun hready _ => armed_of_ready hrun hready

/-- Two callers wait and two items come with one token between them: the caller that took the token has not
    looked yet. -/
theorem no_lost_wakeup_two :
    ∃ s, (machine Nat Unit).run [.next, .pass 0, .next, .pass 1, .push 1, .signal 2, .push 2, .signal 3,
        .take 0] = some s ∧ s.Ready ∧ .blocked ∈ s.threads ∧ s.token = false ∧ s.NoLostWakeup := by
  refine ⟨?s, ?hrun, ?ready, ?blocked, ?token, no_lost_wakeup ?hrun⟩
  case hrun | token => exact rfl
  case ready => exact .inl nofun
  case blocked => exact .tail _ (.head _)

/-! ## A caller is served -/

/-- A caller that looks while there is something to find has an answer. -/
theorem answers_ofPass (hready : s.Ready) : (Thread.ofPass s.queue.next.2).answers = true := by
  cases hp : s.queue.pending with
  | nil =>
    have hc : s.queue.closed = true := hready.resolve_left (fun h => h hp)
    rw [NotifyQueue.next_nil hp, hc]
    rfl
  | cons x rest =>
    obtain ⟨⟨rearm, hitem, _⟩, _⟩ := NotifyQueue.next_cons hp
    rw [hitem]
    cases rearm <;> rfl

/-- A caller that has taken the token looks. -/
theorem served_pass {j : Nat} (hj : s.threads[j]? = some .rechecking) (hready : s.Ready) :
    ∃ s', s.step (.pass j) = some s' ∧ At s'.threads (fun t => t.answers = true) j := by
  refine ⟨⟨s.queue.next.1, s.token, s.threads.set j (.ofPass s.queue.next.2)⟩, ?_, ?_⟩
  · rw [step, hj]
  · exact At.set_self hj (answers_ofPass hready)

/-- A blocked caller takes the token and looks. -/
theorem served_take {i : Nat} (hi : s.threads[i]? = some .blocked) (htoken : s.token = true)
    (hready : s.Ready) :
    ∃ s', (machine T ε).runFrom s [.take i, .pass i] = some s' ∧ At s'.threads (fun t => t.answers = true) i := by
  have htake : (machine T ε).step s (.take i) = some ⟨s.queue, false, s.threads.set i .rechecking⟩ := by
    show s.step (.take i) = _
    rw [step, hi, htoken]
  have hself : (s.threads.set i .rechecking)[i]? = some .rechecking := by
    rw [getElem?_set_self (List.getElem?_eq_some_iff.mp hi).1]
  obtain ⟨s', hpass, hserved⟩ :=
    served_pass (s := ⟨s.queue, false, s.threads.set i .rechecking⟩) hself hready
  refine ⟨s', ?_, hserved⟩
  rw [Machine.runFrom_cons htake, Machine.runFrom_cons hpass]
  rfl

/-- A call that is going to signal can do so, and the token is there; nobody else has moved. -/
theorem signal_enabled {i j : Nat} {t : Thread T ε} (hj : s.threads[j]? = some t) (ht : t.signals = true)
    (hi : s.threads[i]? = some .blocked) :
    ∃ t', s.step (.signal j) = some ⟨s.queue, true, s.threads.set j t'⟩ ∧
      (s.threads.set j t')[i]? = some .blocked := by
  have hne : j ≠ i := by
    rintro rfl
    rw [hi] at hj
    cases hj
    cases ht
  cases t with
  | signalling => exact ⟨.signalled, by rw [step, hj], by rw [getElem?_set_ne hne, hi]⟩
  | rearming r => exact ⟨.returned r, by rw [step, hj], by rw [getElem?_set_ne hne, hi]⟩
  | signalled | entering | blocked | rechecking | returned r => cases ht

/-- **A blocked caller is no dead end.** Where there is something to find while somebody is blocked, at most
    three steps of the hand-over (no push, no new call, no expiring context) bring a caller that was blocked
    or had been woken to an item or the terminal error. -/
theorem served_of_ready {as : List (WakeAction T ε)} (hrun : (machine T ε).run as = some s)
    (hready : s.Ready) (hblocked : .blocked ∈ s.threads) :
    ∃ j bs s', At s.threads (fun t => t = .blocked ∨ t = .rechecking) j ∧ bs.length ≤ 3 ∧
      (∀ b ∈ bs, b.handsOver = true) ∧ (machine T ε).runFrom s bs = some s' ∧
      At s'.threads (fun t => t.answers = true) j := by
  obtain ⟨i, hi⟩ := mem_iff_getElem?.mp hblocked
  rcases armed_of_ready hrun hready with htoken | ⟨t, ht, hsignals⟩ | hrecheck
  · obtain ⟨s', hbs, hserved⟩ := served_take hi htoken hready
    exact ⟨i, _, s', ⟨_, hi, .inl rfl⟩, by simp, by simp [WakeAction.handsOver], hbs, hserved⟩
  · obtain ⟨j, hj⟩ := mem_iff_getElem?.mp ht
    obtain ⟨t', hsignal, hi'⟩ := signal_enabled hj hsignals hi
    obtain ⟨s', hbs, hserved⟩ := served_take (s := ⟨s.queue, true, s.threads.set j t'⟩) hi' rfl hready
    refine ⟨i, .signal j :: [.take i, .pass i], s', ⟨_, hi, .inl rfl⟩, by simp,
      by simp [WakeAction.handsOver], ?_, hserved⟩
    rw [Machine.runFrom_cons hsignal, hbs]
  · obtain ⟨j, hj⟩ := mem_iff_getElem?.mp hrecheck
    obtain ⟨s', hpass, hserved⟩ := served_pass hj hready
    refine ⟨j, [.pass j], s', ⟨_, hj, .inr rfl⟩, by simp, by simp [WakeAction.handsOver], ?_, hserved⟩
    rw [Machine.runFrom_cons hpass]
    rfl

/-- An item is there and its token not yet. -/
theorem served_of_ready_pushed : ∃ s, (machine Nat Unit).run [.next, .pass 0, .push 1] = some s ∧
    ∃ j bs s', At s.threads (fun t => t = .blocked ∨ t = .rechecking) j ∧ bs.length ≤ 3 ∧
      (∀ b ∈ bs, b.handsOver = true) ∧ (machine Nat Unit).runFrom s bs = some s' ∧
      At s'.threads (fun t => t.answers = true) j := by
  refine ⟨?s, ?hrun, served_of_ready ?hrun ?ready ?blocked⟩
  case hrun => exact rfl
  case ready => exact .inl (by decide)
  case blocked => exact .head _

end Wake

end Pandaemonium.Llm
