import Pandaemonium.Claude.Correlation

/-!
# `Claude.CorrelationRuns` — control requests return their own responses

The invariant of `Claude.Correlation`: a registered call is found in `pending` under its own id; while its
channel is empty nothing has been sent to it, and the only response with its id that has been looked up since
its registration is the one on its way to it (`CallOk.silent`); what is in the channel, or was taken out of it,
came first (`CallOk.filled`, `CallOk.taken`).

`control_request_correlation` is the main result.
-/

namespace Pandaemonium.Claude.Correlation

open SortedMap (get? insert erase)
open List hiding insert erase

/-! ## The invariant -/

namespace Phase

/-- The channel has been registered. -/
def Begun : Phase → Prop
  | .registering | .lockedRegister => False
  | _ => True

/-- From the registration to the deferred delete. -/
def Registered : Phase → Prop
  | .unwritten | .waiting | .leaving _ | .lockedDelete _ => True
  | _ => False

/-- Registered, with the channel still to be looked at. -/
def Open : Phase → Prop
  | .unwritten | .waiting => True
  | _ => False

/-- What the call is going to return, or has returned. -/
def outcome : Phase → Option Outcome
  | .leaving o | .lockedDelete o | .returned o => some o
  | _ => none

variable {p : Phase}

theorem Open.registered (h : p.Open) : p.Registered := by
  cases p <;> first | exact trivial | exact h.elim

theorem Registered.begun (h : p.Registered) : p.Begun := by
  cases p <;> first | exact trivial | exact h.elim

end Phase

/-- The response the read loop is about to send to call `i`. -/
def State.routingTo (s : State) (i : Nat) : Option ResponseEnvelope :=
  match s.router with
  | .sending j env => if j = i then some env else none
  | _ => none

/-- Call `i` has registered its channel. -/
def State.Begun (s : State) (i : Nat) : Prop := At s.calls (fun c => c.phase.Begun) i

/-- What holds of call `i` in state `s`. -/
structure CallOk (s : State) (i : Nat) (c : Call) : Prop where
  entered : c.phase.Registered → get? s.pending c.requestID = some i
  unborn : ¬ c.phase.Begun → c.chan = none
  silent : c.phase.Open → c.chan = none →
    NoneSent s.history i ∧ Heard s.history i c.requestID (s.routingTo i)
  filled : c.phase.Open → ∀ r, c.chan = some r → FirstResult s.history i c.requestID r
  taken : ∀ r, c.phase.outcome = some (.result r) → FirstResult s.history i c.requestID r

/-- The holder of `pendingMu` is in its critical section. -/
def State.Inside (s : State) : Thread → Prop
  | .call i => ∃ c, s.calls[i]? = some c ∧ (c.phase = .lockedRegister ∨ ∃ o, c.phase = .lockedDelete o)
  | .router => ∃ env, s.router = .locked env
  | .failer j => ∃ cause, s.failers[j]? = some (Failer.locked cause)

/-- What every run keeps. -/
structure Inv (s : State) : Prop where
  counted : s.counter = UInt64.ofNat s.calls.length
  numbered : AllAt s.calls fun i c => ∃ suffix, c.requestID = newRequestID (UInt64.ofNat (i + 1)) suffix
  few : s.calls.length < 2 ^ 64
  calls : AllAt s.calls (CallOk s)
  /-- an entry of the map belongs to a call that has not deleted it yet -/
  entries : ∀ e ∈ s.pending, ∃ c, s.calls[e.2]? = some c ∧ c.requestID = e.1 ∧ c.phase.Registered
  mutex : ∀ t, s.pendingMu = some t → s.Inside t
  /-- results go to registered channels only -/
  routed : ∀ i env, s.router = .sending i env → s.Begun i
  collected : ∀ (j : Nat) cause chans, s.failers[j]? = some (Failer.sending cause chans) →
    ∀ i ∈ chans, s.Begun i
  delivered : ∀ i, ¬ s.Begun i → NoneSent s.history i

theorem inv_init : Inv machine.init where
  counted := rfl
  numbered := AllAt.nil
  few := by decide
  calls := AllAt.nil
  entries := by intro e he; cases he
  mutex := by intro t ht; cases ht
  routed := by intro i env h; cases h
  collected := by intro j cause chans h; simp [machine] at h
  delivered := by intro i _; exact ⟨fun env => not_mem_nil, fun cause => not_mem_nil⟩

section

variable {s s' : State} {i j : Nat} {c c' d : Call}

/-- **Request ids tell the calls apart.** -/
theorem Inv.distinct (hi : Inv s) (hc : s.calls[i]? = some c) (hd : s.calls[j]? = some d)
    (heq : c.requestID = d.requestID) : i = j := by
  obtain ⟨_, hid⟩ := hi.numbered i c hc
  obtain ⟨_, hid'⟩ := hi.numbered j d hd
  exact call_eq_of_newRequestID hi.few (List.getElem?_eq_some_iff.mp hc).1
    (List.getElem?_eq_some_iff.mp hd).1 (hid.symm.trans (heq.trans hid'))

/-- A call is not concerned by a step that keeps its entry and, while its channel may still be looked at,
    adds no event about it and leaves the response on its way to it. -/
theorem CallOk.frame (es : List Event) (h : CallOk s i c)
    (hp : get? s.pending c.requestID = some i → get? s'.pending c.requestID = some i)
    (hh : s'.history = es ++ s.history)
    (hn : c.phase.Open → (∀ e ∈ es, ¬ e.Concerns i c.requestID) ∧ s'.routingTo i = s.routingTo i) :
    CallOk s' i c where
  entered hr := hp (h.entered hr)
  unborn := h.unborn
  silent ho hchan := by
    obtain ⟨hes, hto⟩ := hn ho
    obtain ⟨hnone, hheard⟩ := h.silent ho hchan
    rw [hh, hto]
    exact ⟨hnone.append es hes, hheard.append es hes⟩
  filled ho r hr := hh ▸ (h.filled ho r hr).append es
  taken r hr := hh ▸ (h.taken r hr).append es

theorem CallOk.keep (h : CallOk s i c) (hp : s'.pending = s.pending) (hh : s'.history = s.history)
    (hto : s'.routingTo i = s.routingTo i) : CallOk s' i c :=
  h.frame [] (hp ▸ id) hh (fun _ => ⟨nofun, hto⟩)

/-- A call that goes on to phase `p`. -/
theorem CallOk.advance {p : Phase} (h : CallOk s i c)
    (hp : p.Registered → get? s'.pending c.requestID = some i) (hbegun : c.phase.Begun → p.Begun)
    (hopen : p.Open → c.phase.Open) (hh : s'.history = s.history) (hto : s'.routingTo i = s.routingTo i)
    (hout : ∀ r, p.outcome = some (.result r) → c.phase.outcome = some (.result r)) :
    CallOk s' i { c with phase := p } where
  entered := hp
  unborn hb := h.unborn (fun hb' => hb (hbegun hb'))
  silent ho hchan := by
    rw [hh, hto]
    exact h.silent (hopen ho) hchan
  filled ho r hr := hh ▸ h.filled (hopen ho) r hr
  taken r hr := hh ▸ h.taken r (hout r hr)

/-- Events that are no sends leave the calls without a result as they are. -/
theorem NoneSent.append_of_forall {h : List Event} (es : List Event) (hn : NoneSent h i)
    (hes : ∀ e ∈ es, ¬ e.IsSend) : NoneSent (es ++ h) i := by
  constructor
  · intro env he
    rcases mem_append.mp he with he | he
    · exact hes _ he trivial
    · exact hn.1 env he
  · intro cause he
    rcases mem_append.mp he with he | he
    · exact hes _ he trivial
    · exact hn.2 cause he

theorem begun_set (hc : s.calls[i]? = some c) (hbegun : c.phase.Begun → c'.phase.Begun)
    (hcalls : s'.calls = s.calls.set i c') (h : s.Begun j) : s'.Begun j := by
  unfold State.Begun at h ⊢
  rw [hcalls]
  by_cases hij : j = i
  · subst hij
    obtain ⟨b, hb, hbb⟩ := h
    rw [hc] at hb
    cases hb
    exact At.set_self hc (hbegun hbb)
  · exact h.set_ne hij

/-- A step of one call. -/
theorem Inv.setCall (es : List Event) (hi : Inv s) (hc : s.calls[i]? = some c)
    (hcalls : s'.calls = s.calls.set i c') (hcounter : s'.counter = s.counter) (hid : c'.requestID = c.requestID)
    (hbegun : c.phase.Begun → c'.phase.Begun) (hrouter : s'.router = s.router)
    (hfailers : s'.failers = s.failers) (hh : s'.history = es ++ s.history)
    (hes : ∀ e ∈ es, ¬ e.IsSend)
    (hok : CallOk s' i c') (hothers : ∀ j d, j ≠ i → s.calls[j]? = some d → CallOk s' j d)
    (hentries : ∀ e ∈ s'.pending, ∃ c, s'.calls[e.2]? = some c ∧ c.requestID = e.1 ∧ c.phase.Registered)
    (hmutex : ∀ t, s'.pendingMu = some t → s'.Inside t) : Inv s' where
  counted := by rw [hcounter, hi.counted, hcalls, length_set]
  numbered := by
    have hmap : s'.calls.map Call.requestID = s.calls.map Call.requestID := by
      rw [hcalls]
      exact map_set_of_eq hc hid
    exact @AllAt.of_map _ s.calls _ s'.calls Call.requestID
      (fun k id => ∃ suffix, id = newRequestID (UInt64.ofNat (k + 1)) suffix) hmap hi.numbered
  few := by rw [hcalls, length_set]; exact hi.few
  calls := by
    rw [hcalls]
    exact AllAt.set (fun _ => hok) hothers
  entries := hentries
  mutex := hmutex
  routed j env h := begun_set hc hbegun hcalls (hi.routed j env (hrouter ▸ h))
  collected j cause chans h k hk :=
    begun_set hc hbegun hcalls (hi.collected j cause chans (hfailers ▸ h) k hk)
  delivered j hj := by
    rw [hh]
    exact (hi.delivered j (fun h => hj (begun_set hc hbegun hcalls h))).append_of_forall es hes

/-- A step of the read loop or of a `failPending` between its sends. -/
theorem Inv.keepCalls (es : List Event) (hi : Inv s) (hcalls : s'.calls = s.calls)
    (hcounter : s'.counter = s.counter) (hpending : s'.pending = s.pending) (hh : s'.history = es ++ s.history)
    (hes : ∀ e ∈ es, ¬ e.IsSend) (hok : AllAt s.calls (CallOk s'))
    (hmutex : ∀ t, s'.pendingMu = some t → s'.Inside t)
    (hrouted : ∀ i env, s'.router = .sending i env → s.Begun i) (hcollected : ∀ (j : Nat) cause chans,
    s'.failers[j]? = some (Failer.sending cause chans) → ∀ i ∈ chans, s.Begun i) : Inv s' where
  counted := by rw [hcounter, hi.counted, hcalls]
  numbered := by rw [hcalls]; exact hi.numbered
  few := by rw [hcalls]; exact hi.few
  calls := by rw [hcalls]; exact hok
  entries := by rw [hpending, hcalls]; exact hi.entries
  mutex := hmutex
  routed := by unfold State.Begun; rw [hcalls]; exact hrouted
  collected := by unfold State.Begun; rw [hcalls]; exact hcollected
  delivered j hj := by
    rw [hh]
    refine (hi.delivered j ?_).append_of_forall es hes
    unfold State.Begun at hj ⊢
    rw [← hcalls]
    exact hj

/-- The mutex stays with its holder over a step of one call outside its critical sections. -/
theorem inside_set {t : Thread} (hc : s.calls[i]? = some c) (hcalls : s'.calls = s.calls.set i c')
    (hrouter : s'.router = s.router) (hfailers : s'.failers = s.failers)
    (hphase : c.phase ≠ .lockedRegister ∧ ∀ o, c.phase ≠ .lockedDelete o) (h : s.Inside t) : s'.Inside t := by
  cases t with
  | call k =>
    obtain ⟨b, hb, hphase'⟩ := h
    refine ⟨b, ?_, hphase'⟩
    rw [hcalls, getElem?_set_ne, hb]
    rintro rfl
    rw [hc] at hb
    cases hb
    rcases hphase' with h | ⟨o, h⟩
    · exact hphase.1 h
    · exact hphase.2 o h
  | router =>
    obtain ⟨env, henv⟩ := h
    exact ⟨env, hrouter.trans henv⟩
  | failer j =>
    obtain ⟨cause, hcause⟩ := h
    exact ⟨cause, hfailers ▸ hcause⟩

end

/-! ## Every action keeps it -/

variable {r : ControlResult}

section

variable {s : State} {i j : Nat} {c : Call} {env : ResponseEnvelope} {cause : Option Bytes}

section

variable (hi : Inv s)
include hi

theorem inv_begin {suffix : Bytes} {marshals : Bool} (hlen : (s.begin suffix marshals).calls.length < 2 ^ 64) :
    Inv (s.begin suffix marshals) := by
  have hnext : s.counter + 1 = UInt64.ofNat (s.calls.length + 1) := by
    rw [hi.counted, UInt64.ofNat_add]
    rfl
  have hbegun : ∀ k, s.Begun k → (s.begin suffix marshals).Begun k := fun _ h => At.concat_left h
  refine ⟨?_, AllAt.concat hi.numbered ⟨suffix, by rw [hnext]⟩, hlen, AllAt.concat ?_ ?_, ?_, ?_, ?_, ?_, ?_⟩
  · show s.counter + 1 = UInt64.ofNat (s.calls ++ [_]).length
    rw [hnext, length_append]
    rfl
  · intro k d hd
    exact (hi.calls k d hd).keep rfl rfl rfl
  · cases marshals with
    | false | true => exact ⟨nofun, fun _ => rfl, nofun, nofun, nofun⟩
  · intro e he
    obtain ⟨d, hd, hrest⟩ := hi.entries e he
    exact ⟨d, by rw [State.begin, getElem?_append_left (List.getElem?_eq_some_iff.mp hd).1, hd], hrest⟩
  · intro t ht
    have hin := hi.mutex t ht
    cases t with
    | call k =>
      obtain ⟨d, hd, hphase⟩ := hin
      exact ⟨d, by rw [State.begin, getElem?_append_left (List.getElem?_eq_some_iff.mp hd).1, hd],
        hphase⟩
    | router | failer k => exact hin
  · intro k env h
    exact hbegun k (hi.routed k env h)
  · intro k cause chans h l hl
    exact hbegun l (hi.collected k cause chans h l hl)
  · intro k hk
    exact hi.delivered k (fun h => hk (hbegun k h))

/-- The entries after a step of one call that keeps the map. -/
theorem Inv.entries_set {p : Phase} {r : Option ControlResult} (hc : s.calls[i]? = some c)
    (hp : c.phase.Registered → p.Registered) :
    ∀ e ∈ s.pending, ∃ d, (s.calls.set i { c with phase := p, chan := r })[e.2]? = some d ∧
      d.requestID = e.1 ∧ d.phase.Registered := by
  intro e he
  obtain ⟨d, hd, hid, hreg⟩ := hi.entries e he
  by_cases hie : i = e.2
  · subst hie
    rw [hc] at hd
    cases hd
    refine ⟨{ c with phase := p, chan := r }, ?_, hid, hp hreg⟩
    rw [getElem?_set_self (List.getElem?_eq_some_iff.mp hc).1]
  · exact ⟨d, by rw [getElem?_set_ne hie, hd], hid, hreg⟩

/-- A step of one call that touches neither map nor history, `pendingMu` apart. -/
theorem inv_setPhase {p : Phase} {mu : Option Thread} (hc : s.calls[i]? = some c)
    (hreg : p.Registered ↔ c.phase.Registered) (hbegun : c.phase.Begun → p.Begun)
    (hopen : p.Open → c.phase.Open)
    (hout : ∀ r, p.outcome = some (.result r) → c.phase.outcome = some (.result r))
    (hmutex : ∀ t, mu = some t → { s.setPhase i c p with pendingMu := mu }.Inside t) :
    Inv { s.setPhase i c p with pendingMu := mu } := by
  refine hi.setCall [] hc rfl rfl rfl hbegun rfl rfl rfl nofun ?_ ?_ ?_ hmutex
  · exact (hi.calls i c hc).advance (fun h => (hi.calls i c hc).entered (hreg.mp h)) hbegun hopen rfl rfl hout
  · intro k d _ hd
    exact (hi.calls k d hd).keep rfl rfl rfl
  · exact hi.entries_set hc hreg.mpr

theorem inv_lock_call {s' : State} (h : s.lock (.call i) = some s') : Inv s' := by
  simp only [State.lock] at h
  split at h
  · rename_i c hc
    have hinside : ∀ p, p = .lockedRegister ∨ (∃ o, p = .lockedDelete o) →
        ∀ t, some (Thread.call i) = some t →
          { s.setPhase i c p with pendingMu := some (Thread.call i) }.Inside t := by
      intro p hp t ht
      cases ht
      exact ⟨{ c with phase := p }, getElem?_set_self (List.getElem?_eq_some_iff.mp hc).1, hp⟩
    split at h
    · rename_i hphase
      cases h
      exact inv_setPhase hi hc (by rw [hphase]; rfl) (by rw [hphase]; exact id) nofun nofun
        (hinside _ (.inl rfl))
    · rename_i o hphase
      cases h
      refine inv_setPhase hi hc (by rw [hphase]; rfl) (fun _ => trivial) nofun ?_ (hinside _ (.inr ⟨o, rfl⟩))
      intro r hr
      rw [hphase]
      exact hr
    · cases h
  · cases h

theorem inv_register (hc : s.calls[i]? = some c) (hphase : c.phase = .lockedRegister) :
    Inv { s.setPhase i c .unwritten with
      pending := insert s.pending c.requestID i, pendingMu := none
      history := .registered i :: s.history } := by
  have hok := hi.calls i c hc
  -- nothing is sent to a channel before it is registered
  have hunborn : ¬ s.Begun i := by
    rintro ⟨d, hd, hbegun⟩
    rw [hc] at hd
    cases hd
    rw [hphase] at hbegun
    exact hbegun
  have hchan : c.chan = none := hok.unborn (by rw [hphase]; exact id)
  have hto : s.routingTo i = none := by
    unfold State.routingTo
    split
    · rename_i j env hrouter
      refine if_neg ?_
      rintro rfl
      exact hunborn (hi.routed j env hrouter)
    · rfl
  refine hi.setCall [.registered i] hc rfl rfl rfl (fun _ => trivial) rfl rfl rfl
    (by simp [Event.IsSend]) ?_ ?_ ?_ nofun
  · refine ⟨fun _ => SortedMap.get?_insert_self, fun h => absurd trivial h, ?_, ?_, nofun⟩
    · intro _ _
      have hnone := hi.delivered i hunborn
      refine ⟨hnone.append_of_forall [.registered i] (by simp [Event.IsSend]), ?_⟩
      · show Heard (.registered i :: s.history) i c.requestID (s.routingTo i)
        rw [hto]
        exact ⟨[], s.history, rfl, not_mem_nil, nofun⟩
    · intro _ r hr
      rw [hchan] at hr
      cases hr
  · intro k d hk hd
    refine (hi.calls k d hd).frame [.registered i] ?_ rfl ?_
    · have hne : c.requestID ≠ d.requestID := fun heq => hk (hi.distinct hc hd heq).symm
      exact (SortedMap.get?_insert_ne hne).trans
    intro _
    refine ⟨?_, rfl⟩
    intro e he
    rw [mem_singleton.mp he]
    exact id
  · intro e he
    rcases SortedMap.mem_insert he with rfl | he
    · exact ⟨{ c with phase := .unwritten },
        getElem?_set_self (List.getElem?_eq_some_iff.mp hc).1, rfl, trivial⟩
    · refine hi.entries_set hc (p := .unwritten) ?_ e he
      exact fun _ => trivial

theorem inv_delete {o : Outcome} (hc : s.calls[i]? = some c) (hphase : c.phase = .lockedDelete o) :
    Inv { s.setPhase i c (.returned o) with
      pending := erase s.pending c.requestID, pendingMu := none
      history := .unregistered i :: s.history } := by
  refine hi.setCall [.unregistered i] hc rfl rfl rfl (fun _ => trivial) rfl rfl rfl
    (by simp [Event.IsSend]) ?_ ?_ ?_ nofun
  · refine ⟨nofun, fun h => absurd trivial h, nofun, nofun, ?_⟩
    intro r hr
    exact ((hi.calls i c hc).taken r (by rw [hphase]; exact hr)).append [.unregistered i]
  · intro k d hk hd
    refine (hi.calls k d hd).frame [.unregistered i] ?_ rfl ?_
    · have hne : d.requestID ≠ c.requestID := fun heq => hk (hi.distinct hd hc heq)
      exact (SortedMap.get?_erase_ne hne).trans
    intro _
    refine ⟨?_, rfl⟩
    intro e he
    rw [mem_singleton.mp he]
    exact Ne.symm hk
  · intro e he
    have he' := mem_filter.mp he
    obtain ⟨d, hd, hid, hreg⟩ := hi.entries e he'.1
    have hne : i ≠ e.2 := by
      intro hie
      rw [← hie, hc] at hd
      cases hd
      exact absurd hid.symm (by simpa using he'.2)
    exact ⟨d, by rw [State.setPhase, getElem?_set_ne hne, hd], hid, hreg⟩

theorem inv_critical_call {s' : State} (h : s.critical (.call i) = some s') : Inv s' := by
  simp only [State.critical] at h
  split at h
  · rename_i c hc
    split at h
    · cases h
      exact inv_register hi hc ‹_›
    · cases h
      exact inv_delete hi hc ‹_›
    · cases h
  · cases h

end

/-! The read loop. -/

/-- The read loop goes on without a send: no response is on its way before and after. -/
theorem inv_router {r : Router} {mu : Option Thread} (hi : Inv s)
    (hs : ∀ k env, s.router ≠ .sending k env) (hr : ∀ k env, r ≠ .sending k env)
    (hmutex : ∀ t, mu = some t → { s with router := r, pendingMu := mu }.Inside t) :
    Inv { s with router := r, pendingMu := mu } := by
  refine hi.keepCalls [] rfl rfl rfl rfl nofun ?_ hmutex (fun k env h => absurd h (hr k env)) hi.collected
  intro k d hd
  refine (hi.calls k d hd).keep rfl rfl ?_
  have hnone : ∀ s₁ : State, (∀ k env, s₁.router ≠ .sending k env) → s₁.routingTo k = none := by
    intro s₁ h₁
    unfold State.routingTo
    split
    · exact absurd ‹_› (h₁ _ _)
    · rfl
  rw [hnone s hs, hnone { s with router := r, pendingMu := mu } hr]

/-- Every registered call is found under its own id, so a response looked up concerns the call it is sent to
    and no other. -/
theorem inv_lookup (hi : Inv s) (hrouter : s.router = .locked env) :
    Inv { s with
      router := match get? s.pending env.requestID with
        | some i => .sending i env
        | none => .idle
      pendingMu := none
      history := .routed env :: s.history } := by
  have hto : ∀ k, s.routingTo k = none := by
    intro k
    unfold State.routingTo
    rw [hrouter]
  refine hi.keepCalls [.routed env] rfl rfl rfl rfl (by simp [Event.IsSend]) ?_ nofun ?_ hi.collected
  · intro k d hd
    have hok := hi.calls k d hd
    by_cases hid : env.requestID = d.requestID
    · refine ⟨hok.entered, hok.unborn, ?_, ?_, ?_⟩
      · intro ho hchan
        obtain ⟨hnone, hheard⟩ := hok.silent ho hchan
        rw [hto] at hheard
        have hfound : get? s.pending env.requestID = some k := by
          rw [hid]
          exact hok.entered ho.registered
        refine ⟨hnone.append_of_forall [.routed env] (by simp [Event.IsSend]), ?_⟩
        · simp only [State.routingTo, hfound, if_true]
          exact ⟨hid, [], s.history, rfl, hheard⟩
      · intro ho r hr
        exact (hok.filled ho r hr).append [.routed env]
      · intro r hr
        exact (hok.taken r hr).append [.routed env]
    · refine hok.frame [.routed env] id rfl ?_
      intro ho
      constructor
      · intro e he
        rw [mem_singleton.mp he]
        exact hid
      · rw [hto]
        unfold State.routingTo
        split
        · rename_i j env' h
          refine if_neg ?_
          rintro rfl
          simp only at h
          split at h
          · rename_i j' hfound
            cases h
            obtain ⟨d', hd', hid', _⟩ := hi.entries _ (SortedMap.mem_of_get? hfound)
            rw [hd] at hd'
            cases hd'
            exact hid hid'.symm
          · cases h
        · rfl
  · intro k env' h
    simp only at h
    split at h
    · rename_i j hfound
      cases h
      obtain ⟨d, hd, _, hreg⟩ := hi.entries _ (SortedMap.mem_of_get? hfound)
      exact ⟨d, hd, hreg.begun⟩
    · cases h

/-! The sends. -/

theorem begun_send (h : s.Begun j) : (s.send i r).Begun j := by
  obtain ⟨d, hd, hbegun⟩ := h
  refine ⟨if i = j then { d with chan := d.chan.or (some r) } else d, ?_, ?_⟩
  · simp only [State.send, getElem?_modify, hd]
    rfl
  · split <;> exact hbegun

theorem requestID_send : (s.send i r).calls.map Call.requestID = s.calls.map Call.requestID := by
  apply ext_getElem?
  intro k
  simp only [State.send, getElem?_map, getElem?_modify]
  cases s.calls[k]? with
  | none => rfl
  | some d =>
    show some _ = some _
    split <;> rfl

/-- What a send changes of a call, its channel apart. -/
theorem getElem?_send {d : Call} (hd : s.calls[j]? = some d) :
    ∃ d', (s.send i r).calls[j]? = some d' ∧ d'.requestID = d.requestID ∧ d'.phase = d.phase := by
  refine ⟨if i = j then { d with chan := d.chan.or (some r) } else d, ?_, ?_, ?_⟩
  · simp only [State.send, getElem?_modify, hd]
    rfl
  · split <;> rfl
  · split <;> rfl

/-- **A send decides the result of a call or changes nothing**: the first one finds the channel empty, so it
    comes before every other event that concerns the call. -/
theorem CallOk.send {s' : State} {e : Event} (h : CallOk s i c) (hbegun : c.phase.Begun)
    (hp : s'.pending = s.pending) (hh : s'.history = e :: s.history) (hfirst : NoneSent s.history i → Heard
    s.history i c.requestID (s.routingTo i) → FirstResult (e :: s.history) i c.requestID r) :
    CallOk s' i { c with chan := c.chan.or (some r) } where
  entered hr := hp ▸ h.entered hr
  unborn hb := absurd hbegun hb
  silent _ hchan := by cases hc : c.chan <;> simp [hc] at hchan
  filled ho r' hr := by
    rw [hh]
    cases hc : c.chan with
    | none =>
      obtain ⟨hnone, hheard⟩ := h.silent ho hc
      simp only [hc, Option.none_or, Option.some.injEq] at hr
      exact hr ▸ hfirst hnone hheard
    | some r₀ =>
      simp only [hc, Option.some_or, Option.some.injEq] at hr
      exact hr ▸ (h.filled ho r₀ hc).append [e]
  taken r' hr := hh ▸ (h.taken r' hr).append [e]

theorem Inv.send {s' : State} {e : Event} (hi : Inv s) (hbegun : s.Begun i)
    (hcalls : s'.calls = (s.send i r).calls) (hcounter : s'.counter = s.counter)
    (hpending : s'.pending = s.pending) (hmu : s'.pendingMu = s.pendingMu) (hh : s'.history = e :: s.history)
    (he : ∀ k id, k ≠ i → ¬ e.Concerns k id) (hfirst : ∀ c, s.calls[i]? = some c → NoneSent s.history i → Heard
    s.history i c.requestID (s.routingTo i) → FirstResult (e :: s.history) i c.requestID r)
    (hto : ∀ k, k ≠ i → s'.routingTo k = s.routingTo k)
    (hlockedRouter : ∀ env, s.router = .locked env → s'.router = .locked env) (hlockedFailer : ∀ (j : Nat)
    cause, s.failers[j]? = some (Failer.locked cause) → s'.failers[j]? = some (Failer.locked cause))
    (hrouted : ∀ k env, s'.router = .sending k env → s.router = .sending k env) (hcollected : ∀ (j : Nat) cause
    chans, s'.failers[j]? = some (Failer.sending cause chans) → ∀ k ∈ chans, s.Begun k) : Inv s' := by
  have hlater : ∀ k, s.Begun k → s'.Begun k := by
    intro k hk
    unfold State.Begun
    rw [hcalls]
    exact begun_send hk
  have hlen : s'.calls.length = s.calls.length := by rw [hcalls, State.send, length_modify]
  refine ⟨?_, ?_, hlen ▸ hi.few, ?_, ?_, ?_, ?_, ?_, ?_⟩
  · rw [hcounter, hi.counted, hlen]
  · have hmap : s'.calls.map Call.requestID = s.calls.map Call.requestID := hcalls ▸ requestID_send
    exact @AllAt.of_map _ s.calls _ s'.calls Call.requestID
      (fun k id => ∃ suffix, id = newRequestID (UInt64.ofNat (k + 1)) suffix) hmap hi.numbered
  · rw [hcalls]
    refine AllAt.modify ?_ ?_
    · intro d hd
      obtain ⟨d', hd', hb⟩ := hbegun
      rw [hd] at hd'
      cases hd'
      exact (hi.calls i d hd).send hb hpending hh (hfirst d hd)
    · intro k d hk hd
      refine (hi.calls k d hd).frame [e] (hpending ▸ id) hh ?_
      intro _
      refine ⟨?_, hto k hk⟩
      intro e' he'
      rw [mem_singleton.mp he']
      exact he k _ hk
  · intro x hx
    rw [hpending] at hx
    obtain ⟨d, hd, hid, hreg⟩ := hi.entries x hx
    obtain ⟨d', hd', hid', hphase⟩ := getElem?_send (i := i) (r := r) hd
    exact ⟨d', hcalls ▸ hd', hid'.trans hid, hphase ▸ hreg⟩
  · intro t ht
    have hin := hi.mutex t (hmu ▸ ht)
    cases t with
    | call k =>
      obtain ⟨d, hd, hphase⟩ := hin
      obtain ⟨d', hd', _, hphase'⟩ := getElem?_send (i := i) (r := r) hd
      exact ⟨d', hcalls ▸ hd', hphase' ▸ hphase⟩
    | router =>
      obtain ⟨env, henv⟩ := hin
      exact ⟨env, hlockedRouter env henv⟩
    | failer k =>
      obtain ⟨cause, hcause⟩ := hin
      exact ⟨cause, hlockedFailer k cause hcause⟩
  · intro k env h
    exact hlater k (hi.routed k env (hrouted k env h))
  · intro k cause chans h l hl
    exact hlater l (hcollected k cause chans h l hl)
  · intro k hk
    have hki : k ≠ i := by
      rintro rfl
      exact hk (hlater k hbegun)
    have hes : ∀ e' ∈ [e], ¬ e'.Concerns k [] := by
      intro e' he'
      rw [mem_singleton.mp he']
      exact he k [] hki
    rw [hh]
    exact (hi.delivered k (fun h => hk (hlater k h))).append [e] hes

theorem inv_routerSend (hi : Inv s) (hrouter : s.router = .sending i env) :
    Inv { s.send i env.controlResult with router := .idle, history := .sent i env :: s.history } := by
  refine hi.send (hi.routed i env hrouter) rfl rfl rfl rfl rfl (fun k id hk h => hk h.symm) ?_ ?_ ?_
    (fun _ _ h => h) nofun hi.collected
  · intro c hc hnone hheard
    have hto : s.routingTo i = some env := by
      unfold State.routingTo
      rw [hrouter]
      exact if_pos rfl
    rw [hto] at hheard
    exact .inl ⟨env, ⟨[], s.history, rfl, hheard, hnone⟩, rfl⟩
  · intro k hk
    have hto : s.routingTo k = none := by
      unfold State.routingTo
      rw [hrouter]
      exact if_neg (Ne.symm hk)
    exact hto.symm
  · intro env' h
    rw [hrouter] at h
    cases h

theorem inv_failerSend {chans : List Nat} (hi : Inv s)
    (hj : s.failers[j]? = some (Failer.sending cause chans)) (hmem : i ∈ chans) :
    Inv { s.send i (disconnected cause) with
      failers := s.failers.set j (.sending cause (chans.erase i))
      history := .reached i cause :: s.history } := by
  refine hi.send (hi.collected j cause chans hj i hmem) rfl rfl rfl rfl rfl (fun k id hk h => hk h.symm)
    ?_ (fun _ _ => rfl) (fun _ h => h) ?_ (fun _ _ h => h) ?_
  · intro c hc hnone _
    exact .inr ⟨cause, ⟨[], s.history, rfl, hnone⟩, rfl⟩
  · intro k cause' hk
    have hne : j ≠ k := by
      rintro rfl
      rw [hj] at hk
      cases hk
    exact (getElem?_set_ne hne).trans hk
  · intro k cause' chans' hk l hl
    by_cases hjk : j = k
    · subst hjk
      rw [getElem?_set_self (List.getElem?_eq_some_iff.mp hj).1] at hk
      cases hk
      exact hi.collected j cause chans hj l (mem_of_mem_erase hl)
    · rw [getElem?_set_ne hjk] at hk
      exact hi.collected k cause' chans' hk l hl

/-! `failPending` between its sends. -/

section

variable (hi : Inv s)
include hi

/-- A `failPending` goes on; the channels it holds afterwards, if any, are registered. -/
theorem inv_failer {f f' : Failer} {mu : Option Thread} (hj : s.failers[j]? = some f)
    (hf : ∀ cause chans, f' = .sending cause chans → ∀ k ∈ chans, s.Begun k)
    (hmutex : ∀ t, mu = some t → { s with failers := s.failers.set j f', pendingMu := mu }.Inside t) :
    Inv { s with failers := s.failers.set j f', pendingMu := mu } := by
  refine hi.keepCalls [] rfl rfl rfl rfl nofun ?_ hmutex hi.routed ?_
  · intro k d hd
    exact (hi.calls k d hd).keep rfl rfl rfl
  intro k cause chans hk l hl
  by_cases hjk : j = k
  · subst hjk
    rw [getElem?_set_self (List.getElem?_eq_some_iff.mp hj).1] at hk
    exact hf cause chans (Option.some.inj hk) l hl
  · rw [getElem?_set_ne hjk] at hk
    exact hi.collected k cause chans hk l hl

theorem inv_failPending : Inv { s with failers := s.failers ++ [.entered cause] } := by
  refine hi.keepCalls [] rfl rfl rfl rfl nofun ?_ ?_ hi.routed ?_
  · intro k d hd
    exact (hi.calls k d hd).keep rfl rfl rfl
  · intro t ht
    have hin := hi.mutex t ht
    cases t with
    | call k | router => exact hin
    | failer k =>
      obtain ⟨cause', hk⟩ := hin
      refine ⟨cause', ?_⟩
      rw [getElem?_append_left (List.getElem?_eq_some_iff.mp hk).1]
      exact hk
  · intro k cause' chans hk l hl
    rcases Nat.lt_or_ge k s.failers.length with hlt | hge
    · rw [getElem?_append_left hlt] at hk
      exact hi.collected k cause' chans hk l hl
    rw [getElem?_append_right hge] at hk
    rcases mem_singleton.mp (mem_of_getElem? hk) with h
    cases h

theorem inv_lock {s' : State} {t : Thread} (h : s.lock t = some s') : Inv s' := by
  cases t with
  | call i => exact inv_lock_call hi h
  | router =>
    simp only [State.lock] at h
    split at h
    · rename_i env hrouter
      cases h
      refine inv_router hi (by rw [hrouter]; nofun) nofun ?_
      intro t ht
      cases ht
      exact ⟨env, rfl⟩
    · cases h
  | failer j =>
    simp only [State.lock] at h
    split at h
    · rename_i cause hj
      cases h
      refine inv_failer hi hj nofun ?_
      intro t ht
      cases ht
      exact ⟨cause, getElem?_set_self (List.getElem?_eq_some_iff.mp hj).1⟩
    · cases h

theorem inv_critical {s' : State} {t : Thread} (h : s.critical t = some s') : Inv s' := by
  cases t with
  | call i => exact inv_critical_call hi h
  | router =>
    simp only [State.critical] at h
    split at h
    · cases h
      exact inv_lookup hi ‹_›
    · cases h
  | failer j =>
    simp only [State.critical] at h
    split at h
    · rename_i cause hj
      cases h
      refine inv_failer hi hj ?_ (by simp)
      intro cause' chans hc k hk
      cases hc
      obtain ⟨e, he, rfl⟩ := mem_map.mp hk
      obtain ⟨d, hd, _, hreg⟩ := hi.entries e he
      exact ⟨d, hd, hreg.begun⟩
    · cases h

/-- A step of one call outside its critical sections. -/
theorem inv_move {p : Phase} (hc : s.calls[i]? = some c) (hopen : c.phase.Open) (hreg : p.Registered)
    (hout : ∀ r, p.outcome ≠ some (.result r)) : Inv (s.setPhase i c p) := by
  refine inv_setPhase hi hc ⟨fun _ => hopen.registered, fun _ => hreg⟩ (fun _ => hreg.begun)
    (fun _ => hopen) (fun r h => absurd h (hout r)) ?_
  intro t ht
  refine inside_set hc rfl rfl rfl ?_ (hi.mutex t ht)
  constructor
  · intro h
    rw [h] at hopen
    exact hopen
  · intro o h
    rw [h] at hopen
    exact hopen

theorem inv_receive (hc : s.calls[i]? = some c) (hphase : c.phase = .waiting) (hr : c.chan = some r) :
    Inv { s with calls := s.calls.set i { c with phase := .leaving (.result r), chan := none } } := by
  have hok := hi.calls i c hc
  refine hi.setCall [] hc rfl rfl rfl (fun _ => trivial) rfl rfl rfl nofun ?_ ?_ ?_ ?_
  · refine ⟨fun _ => hok.entered (by rw [hphase]; trivial), fun h => absurd trivial h, nofun, nofun, ?_⟩
    intro r' hr'
    cases hr'
    exact hok.filled (by rw [hphase]; trivial) r hr
  · intro k d _ hd
    exact (hi.calls k d hd).keep rfl rfl rfl
  · exact hi.entries_set hc (fun _ => trivial)
  · intro t ht
    exact inside_set hc rfl rfl rfl ⟨by rw [hphase]; nofun, fun o => by rw [hphase]; nofun⟩ (hi.mutex t ht)

theorem inv_readResponse {o : Option ResponseEnvelope} (hidle : s.router = .idle) :
    Inv (s.routeControlResponse o) := by
  cases o with
  | none => exact hi
  | some env =>
    simp only [State.routeControlResponse]
    split
    · exact hi
    refine inv_router hi (by rw [hidle]; nofun) nofun ?_
    intro t ht
    have hin := hi.mutex t ht
    cases t with
    | call k | failer k => exact hin
    | router =>
      obtain ⟨env', h⟩ := hin
      rw [hidle] at h
      cases h

end

theorem inv_step {s' : State} {a : Action} (hi : Inv s) (hlen : s'.calls.length < 2 ^ 64)
    (hstep : step s a = some s') : Inv s' := by
  cases a
  all_goals simp only [step] at hstep
  case begin suffix marshals => cases hstep; exact inv_begin hi hlen
  case lock t =>
    split at hstep
    · exact inv_lock hi hstep
    · cases hstep
  case critical t => exact inv_critical hi hstep
  case endWrite i succeeds =>
    split at hstep
    · rename_i c hc
      split at hstep <;> cases hstep
      rename_i hphase
      have hopen : c.phase.Open := by rw [hphase]; trivial
      cases succeeds with
      | true | false => exact inv_move hi hc hopen trivial nofun
    · cases hstep
  case receive i =>
    split at hstep
    · split at hstep <;> cases hstep
      exact inv_receive hi ‹_› ‹_› ‹_›
    · cases hstep
  case timeout i | contextDone i =>
    split at hstep
    · rename_i c hc
      split at hstep <;> cases hstep
      rename_i hphase
      exact inv_move hi hc (by rw [hphase]; trivial) trivial nofun
    · cases hstep
  case readResponse env =>
    split at hstep <;> cases hstep
    exact inv_readResponse hi ‹_›
  case routerSend =>
    split at hstep <;> cases hstep
    exact inv_routerSend hi ‹_›
  case failPending cause => cases hstep; exact inv_failPending hi
  case failerSend j i =>
    split at hstep
    · split at hstep <;> cases hstep
      exact inv_failerSend hi ‹_› ‹_›
    · cases hstep

end

/-- Calls are only added. -/
theorem length_le_of_step {s s' : State} {a : Action} (hstep : step s a = some s') :
    s.calls.length ≤ s'.calls.length := by
  cases a with
  | begin suffix marshals =>
    cases hstep
    simp [State.begin]
  | readResponse env =>
    simp only [step] at hstep
    split at hstep <;> cases hstep
    cases env with
    | none => exact Nat.le_refl _
    | some env =>
      rw [State.routeControlResponse]
      split <;> exact Nat.le_refl _
  | lock t | critical t =>
    cases t
    all_goals simp only [step, State.lock, State.critical] at hstep
    all_goals repeat' split at hstep
    all_goals cases hstep
    all_goals simp [State.setPhase]
  | _ =>
    simp only [step] at hstep
    repeat' split at hstep
    all_goals cases hstep
    all_goals simp [State.setPhase, State.send]

/-! ## Nothing waits but for the mutex -/

/-- The critical sections wait for nothing. -/
theorem critical_of_inside {s : State} {t : Thread} (h : s.Inside t) :
    ∃ s', step s (.critical t) = some s' ∧ s'.pendingMu = none := by
  cases t with
  | call i =>
    obtain ⟨c, hc, hphase | ⟨o, hphase⟩⟩ := h
    all_goals simp [step, State.critical, hc, hphase]
  | router =>
    obtain ⟨env, henv⟩ := h
    simp [step, State.critical, henv]
  | failer j =>
    obtain ⟨cause, hcause⟩ := h
    simp [step, State.critical, hcause]

theorem Inv.unblocked {s : State} (hi : Inv s) : s.Unblocked := by
  -- a thread at its lock takes it, or the holder is in its critical section
  have hlock : ∀ t, (∃ s', s.lock t = some s') → (∃ s', step s (.lock t) = some s') ∨
      Action.lock t = .lock t ∧
        ∃ u s', s.pendingMu = some u ∧ step s (.critical u) = some s' ∧ s'.pendingMu = none := by
    intro t ⟨s', hs'⟩
    cases hmu : s.pendingMu with
    | none => exact .inl ⟨s', by simp [step, hmu, hs']⟩
    | some u =>
      obtain ⟨s₁, hs₁, hfree⟩ := critical_of_inside (hi.mutex u hmu)
      exact .inr ⟨rfl, u, s₁, rfl, hs₁, hfree⟩
  intro t a ha
  cases t with
  | call i => cases ha
  | router =>
    simp only [State.ahead] at ha
    split at ha
    · cases ha
    · rename_i env hrouter
      rw [mem_singleton.mp ha]
      exact hlock .router (by simp [State.lock, hrouter])
    · rename_i env hrouter
      rw [mem_singleton.mp ha]
      obtain ⟨s', hs', _⟩ := critical_of_inside (t := .router) ⟨env, hrouter⟩
      exact .inl ⟨s', hs'⟩
    · rename_i k env hrouter
      rw [mem_singleton.mp ha]
      exact .inl (by simp [step, hrouter])
  | failer j =>
    simp only [State.ahead] at ha
    split at ha
    · rename_i cause hj
      rw [mem_singleton.mp ha]
      exact hlock (.failer j) (by simp [State.lock, hj])
    · rename_i cause hj
      rw [mem_singleton.mp ha]
      obtain ⟨s', hs', _⟩ := critical_of_inside (t := .failer j) ⟨cause, hj⟩
      exact .inl ⟨s', hs'⟩
    · rename_i cause chans hj
      obtain ⟨i, hmem, rfl⟩ := mem_map.mp ha
      exact .inl (by simp [step, hj, hmem])
    · cases ha

/-! ## The runs of a control protocol -/

/-- **Control requests are answered by their own responses.** Whatever the order of registrations, responses,
    `failPending` calls, timeouts and cancellations, for fewer than 2^64 calls:

    * what a call returns from its channel is the first response with its id that was routed while it was
      registered, sent before any `failPending` reached it, or the error of a `failPending` that came first;
    * the routing of a response and `failPending` wait for nothing but `pendingMu`, which is released by its
      holder's next step;
    * when all calls have returned, `pending` is empty. -/
theorem control_request_correlation {as : List Action} {s : State} (hrun : machine.run as = some s)
    (hlen : s.calls.length < 2 ^ 64) :
    (∀ i c r, s.calls[i]? = some c → c.phase = .returned (.result r) →
      FirstResult s.history i c.requestID r) ∧
    s.Unblocked ∧
    ((∀ c ∈ s.calls, ∃ o, c.phase = .returned o) → s.pending = []) := by
  have hi : Inv s := Machine.bounded_invariant (f := fun s => s.calls.length)
    (fun _ _ _ => length_le_of_step) (fun _ => inv_init) (fun _ _ _ hi _ => inv_step hi) hrun hlen
  refine ⟨?_, hi.unblocked, ?_⟩
  · intro i c r hc hphase
    exact (hi.calls i c hc).taken r (by rw [hphase]; rfl)
  intro hall
  refine eq_nil_iff_forall_not_mem.mpr ?_
  intro e he
  obtain ⟨c, hc, _, hreg⟩ := hi.entries e he
  obtain ⟨o, ho⟩ := hall c (mem_of_getElem? hc)
  rw [ho] at hreg
  exact hreg

/-- A response is looked up, a `failPending` collects the same channel, the response is sent first, and a second
    response with the id finds the channel full. -/
theorem control_request_correlation_duplicate :
    ∃ s, machine.run [.begin [] true, .lock (.call 0), .critical (.call 0), .endWrite 0 true,
        .failPending none, .readResponse (some ⟨ascii "req_1_", [], ascii "ok", []⟩), .lock .router,
        .critical .router, .lock (.failer 0), .critical (.failer 0), .routerSend, .failerSend 0 0,
        .readResponse (some ⟨ascii "req_1_", [], ascii "late", []⟩), .lock .router, .critical .router,
        .routerSend, .receive 0, .lock (.call 0), .critical (.call 0)] = some s ∧
      s.calls.map Call.phase = [.returned (.result (.response (ascii "ok")))] ∧
      FirstResult s.history 0 (ascii "req_1_") (.response (ascii "ok")) ∧ s.Unblocked ∧ s.pending = [] := by
  refine Machine.exists_run_and (by decide +kernel) (Machine.exists_run (by decide +kernel) fun s hrun => ?_)
  have hcall := Machine.of_run (I := fun s => s.calls[0]? =
    some ⟨ascii "req_1_", .returned (.result (.response (ascii "ok"))), none⟩) hrun (by decide +kernel)
  have hlen := Machine.of_run (I := fun s => s.calls.length < 2 ^ 64) hrun (by decide +kernel)
  obtain ⟨hfirst, hfree, -⟩ := control_request_correlation hrun hlen
  exact ⟨hfirst 0 _ _ hcall rfl, hfree, Machine.of_run (I := fun s => s.pending = []) hrun (by decide +kernel)⟩

end Pandaemonium.Claude.Correlation
