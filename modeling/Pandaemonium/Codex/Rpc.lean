import Pandaemonium.Lib.Decimal
import Pandaemonium.Lib.Machine
import Pandaemonium.Lib.SortedMap

/-!
# `Codex.Rpc` — correlating JSON-RPC requests and responses

`jsonRPCClientState` is shared by any number of goroutines: callers of `requestRaw`, which register a
channel of capacity one under a fresh id, write, and wait for the channel or their context; the read loop,
which takes the channel of a response's id out of the map and then sends; and `failPending`, which takes the
whole map and then sends to every channel in it. Taking a channel out and sending into it are separate
steps, so a send is an obligation of the goroutine that took the channel (`Send`).

The machine has one action for each critical section over `responseMu`, each channel operation and each
return of the `write` callback. A send blocks while the channel is full: its action cannot be taken then.
Incoming responses are numbered (`ticket`), so that one response can be told from another with the same
contents; `sent` and `outcomes` record what has been sent and returned.

The invariant is that a call's channel is in one place at a time: in the map, with a goroutine that is about
to send, or used (`holders`). `requests_correlated` is what it comes to.
-/

namespace Pandaemonium.Codex.Rpc

open SortedMap (get? insert erase)
open List hiding insert erase

/-- `rpcErrorBody` -/
structure ErrorBody where
  code : Int64
  message : Bytes
  data : Bytes
deriving DecidableEq, Repr

/-- `rpcMessage` -/
structure Message where
  id : Bytes
  method : Bytes
  params : Bytes
  result : Bytes
  error : Option ErrorBody
deriving DecidableEq, Repr

/-- `responseWait`: a response, with its number among the incoming ones, or the error of `failPending`. -/
inductive ResponseWait (ε : Type) where
  | msg (ticket : Nat) (m : Message)
  | err (e : ε)
deriving DecidableEq, Repr

/-- Why `requestRaw` returns without having received anything. -/
inductive Abort (ε : Type) where
  | contextDone
  | writeError (e : ε)
deriving DecidableEq, Repr

/-- How `requestRaw` comes to its result. -/
inductive Outcome (ε : Type) where
  | aborted (a : Abort ε)
  | received (w : ResponseWait ε)
deriving DecidableEq, Repr

/-- Where a call of `requestRaw` is. -/
inductive Phase (ε : Type) where
  /-- it has its id -/
  | numbered
  /-- its channel is registered, the write not yet done -/
  | unwritten
  /-- the write has succeeded -/
  | waiting
  /-- about to unregister its channel and to return -/
  | unregistering (a : Abort ε)
  | returned
deriving DecidableEq, Repr

structure Call (ε : Type) where
  id : Bytes
  phase : Phase ε
  chan : Option (ResponseWait ε)
deriving DecidableEq, Repr

/-- A channel send that goroutine `thread` is committed to: it has taken the channel out of the map. -/
structure Send (ε : Type) where
  thread : Nat
  call : Nat
  wait : ResponseWait ε
deriving DecidableEq, Repr

/-- `jsonRPCClientState` with its callers. -/
structure State (ε : Type) where
  requestSeq : UInt64
  responses : List (Bytes × Nat)
  /-- the calls in the order of their numbers -/
  calls : List (Call ε)
  sends : List (Send ε)
  /-- the number of responses that have come in -/
  tickets : Nat
  /-- the sends that are done -/
  sent : List (Send ε)
  /-- what the calls have returned -/
  outcomes : List (Nat × Outcome ε)
deriving DecidableEq, Repr

/-- The id made from the value of `requestSeq`. -/
def requestID (n : UInt64) : Bytes := ascii "go-sdk-" ++ Decimal.render n.toNat

namespace State

variable {ε : Type}

/-- `newJSONRPCClientState` -/
def new : State ε :=
  { requestSeq := 0, responses := [], calls := [], sends := [], tickets := 0, sent := []
    outcomes := [] }

def setPhase (s : State ε) (i : Nat) (p : Phase ε) : State ε :=
  { s with calls := s.calls.modify i (fun c => { c with phase := p }) }

/-- `requestRaw` draws its id by `nextRequestID`. -/
def nextCall (s : State ε) : State ε :=
  { s with
    requestSeq := s.requestSeq + 1
    calls := s.calls ++ [{ id := requestID (s.requestSeq + 1), phase := .numbered, chan := none }] }

def registerResponse (s : State ε) (id : Bytes) (i : Nat) : State ε :=
  { s with responses := insert s.responses id i }

def unregisterResponse (s : State ε) (id : Bytes) : State ε :=
  { s with responses := erase s.responses id }

/-- The critical section of `deliverResponse`. -/
def deliverResponse (s : State ε) (thread : Nat) (m : Message) : State ε :=
  match get? s.responses m.id with
  | some i =>
    { s with
      responses := erase s.responses m.id
      tickets := s.tickets + 1
      sends := ⟨thread, i, .msg s.tickets m⟩ :: s.sends }
  | none => { s with responses := erase s.responses m.id, tickets := s.tickets + 1 }

/-- The critical section of `failPending`. -/
def failPending (s : State ε) (thread : Nat) (e : ε) : State ε :=
  { s with
    responses := []
    sends := s.responses.map (fun p => ⟨thread, p.2, .err e⟩) ++ s.sends }

/-- A send into an empty channel. -/
def send [DecidableEq ε] (s : State ε) (x : Send ε) : State ε :=
  { s with
    sends := s.sends.erase x
    sent := x :: s.sent
    calls := s.calls.modify x.call (fun c => { c with chan := some x.wait }) }

/-- Call `i` takes `w` out of its channel and returns. -/
def receive (s : State ε) (i : Nat) (w : ResponseWait ε) : State ε :=
  { s with
    calls := s.calls.modify i (fun c => { c with phase := .returned, chan := none })
    outcomes := (i, .received w) :: s.outcomes }

/-- Call `i` returns, leaving its channel as it is. -/
def leave (s : State ε) (i : Nat) (a : Abort ε) : State ε :=
  { s.setPhase i .returned with outcomes := (i, .aborted a) :: s.outcomes }

end State

inductive Action (ε : Type) where
  /-- `requestRaw` is called, with a context that may be done already -/
  | call (contextDone : Bool)
  | register (i : Nat)
  | writeSucceeds (i : Nat)
  | writeFails (i : Nat) (e : ε)
  /-- the call takes what is in its channel -/
  | receive (i : Nat)
  | contextDone (i : Nat)
  | unregister (i : Nat)
  | deliver (thread : Nat) (m : Message)
  | fail (thread : Nat) (e : ε)
  | send (x : Send ε)
deriving DecidableEq, Repr

section

variable {ε : Type} [DecidableEq ε]

/-- **A step of the requests.** -/
def step (s : State ε) : Action ε → Option (State ε)
  | .call contextDone => if contextDone then some s else some s.nextCall
  | .register i =>
    match s.calls[i]? with
    | some c =>
      if c.phase = .numbered then some ((s.setPhase i .unwritten).registerResponse c.id i)
      else none
    | none => none
  | .writeSucceeds i =>
    match s.calls[i]? with
    | some c => if c.phase = .unwritten then some (s.setPhase i .waiting) else none
    | none => none
  | .writeFails i e =>
    match s.calls[i]? with
    | some c =>
      if c.phase = .unwritten then some (s.setPhase i (.unregistering (.writeError e))) else none
    | none => none
  | .receive i =>
    match s.calls[i]? with
    | some c =>
      match c.phase, c.chan with
      | .waiting, some w => some (s.receive i w)
      | _, _ => none
    | none => none
  | .contextDone i =>
    match s.calls[i]? with
    | some c =>
      if c.phase = .waiting then some (s.setPhase i (.unregistering .contextDone)) else none
    | none => none
  | .unregister i =>
    match s.calls[i]? with
    | some c =>
      match c.phase with
      | .unregistering a => some ((s.unregisterResponse c.id).leave i a)
      | _ => none
    | none => none
  | .deliver thread m => some (s.deliverResponse thread m)
  | .fail thread e => some (s.failPending thread e)
  | .send x =>
    if x ∈ s.sends then
      match s.calls[x.call]? with
      | some c =>
        match c.chan with
        | none => some (s.send x)
        | some _ => none
      | none => none
    else none

def machine : Machine (State ε) (Action ε) where
  init := .new
  step := step

end

/-! ## What is to hold -/

variable {ε : Type}

/-- The number of the response a send carries. -/
def Send.ticket (x : Send ε) : Option Nat :=
  match x.wait with
  | .msg t _ => some t
  | .err _ => none

/-- **Requests and responses are correlated.** -/
structure Correlated [DecidableEq ε] (s : State ε) : Prop where
  /-- each request obtains at most one outcome -/
  oneOutcome : (s.outcomes.map Prod.fst).Nodup
  /-- an outcome that carries a response carries one with the request's own id -/
  ownResponse : ∀ i t m, (i, Outcome.received (.msg t m)) ∈ s.outcomes →
    ∃ c, s.calls[i]? = some c ∧ c.id = m.id
  /-- no response is delivered to two requests, neither as an outcome nor into a channel -/
  oneRequest : ∀ x ∈ s.sent, ∀ y ∈ s.sent, ∀ t, x.ticket = some t → y.ticket = some t →
    x.call = y.call
  /-- what a request has received was sent to it -/
  outcomeSent : ∀ i w, (i, Outcome.received w) ∈ s.outcomes → ∃ x ∈ s.sent, x.call = i ∧ x.wait = w
  /-- every send that a goroutine is committed to can be done at once -/
  nonBlocking : ∀ x ∈ s.sends, ∃ s', step s (.send x) = some s'
  /-- no entry outlives its request -/
  emptied : (∀ c ∈ s.calls, c.phase = .returned) → s.responses = []

/-! ## The invariant: a channel is in one place at a time -/

/-- From the registration of the channel to the return. -/
def Phase.Registered : Phase ε → Prop
  | .unwritten | .waiting | .unregistering _ => True
  | .numbered | .returned => False

/-- All sends, ahead and done. -/
def State.answers (s : State ε) : List (Send ε) := s.sends ++ s.sent

/-- The calls whose channel is in the map, is to be sent to, or has been sent to. -/
def State.holders (s : State ε) : List Nat := s.responses.map Prod.snd ++ s.answers.map Send.call

/-- A send that carries a response carries one with this id. -/
def Send.Answers (x : Send ε) (id : Bytes) : Prop := ∀ t m, x.wait = .msg t m → m.id = id

/-- What holds of call `i` in state `s`. -/
structure CallOk (s : State ε) (i : Nat) (c : Call ε) : Prop where
  numbered : c.id = requestID (UInt64.ofNat (i + 1))
  fresh : c.phase = .numbered → i ∉ s.holders
  held : c.phase.Registered → i ∈ s.holders
  entry : ∀ key, (key, i) ∈ s.responses → key = c.id ∧ c.phase.Registered
  own : ∀ x ∈ s.answers, x.call = i → x.Answers c.id
  /-- what is in the channel has been sent -/
  chan : ∀ w, c.chan = some w → ∃ x ∈ s.sent, x.call = i ∧ x.wait = w
  /-- what has been sent stays in the channel until the call returns -/
  full : c.phase.Registered → i ∈ s.sent.map Send.call → c.chan ≠ none
  outcome : ∀ o, (i, o) ∈ s.outcomes → c.phase = .returned ∧
    ∀ w, o = .received w → ∃ x ∈ s.sent, x.call = i ∧ x.wait = w

/-- What every run keeps. -/
structure Inv (s : State ε) : Prop where
  seq : s.requestSeq = UInt64.ofNat s.calls.length
  calls : AllAt s.calls (CallOk s)
  keys : (s.responses.map Prod.fst).Nodup
  known : ∀ i ∈ s.holders ++ s.outcomes.map Prod.fst, i < s.calls.length
  once : s.holders.Nodup
  tickets : (s.answers.filterMap Send.ticket).Nodup
  ticketsBound : ∀ t ∈ s.answers.filterMap Send.ticket, t < s.tickets
  outcomes : (s.outcomes.map Prod.fst).Nodup

theorem inv_new : Inv (State.new : State ε) :=
  ⟨rfl, AllAt.nil, by simp [State.new], by simp [State.new, State.holders, State.answers],
    by simp [State.new, State.holders, State.answers], by simp [State.new, State.answers],
    by simp [State.new, State.answers], by simp [State.new]⟩

/-- Ids with different numbers are different. -/
theorem requestID_injective {n m : UInt64} (h : requestID n = requestID m) : n = m :=
  UInt64.toNat.inj (Decimal.render_injective (append_cancel_left h))

/-- **Fewer than 2^64 requests have different ids.** -/
theorem Inv.id_injective {s : State ε} (hi : Inv s) (hlen : s.calls.length < 2 ^ 64) {i j : Nat} {c d : Call ε}
    (hc : s.calls[i]? = some c) (hd : s.calls[j]? = some d) (h : c.id = d.id) : i = j := by
  have hilt : i < s.calls.length := (List.getElem?_eq_some_iff.mp hc).1
  have hjlt : j < s.calls.length := (List.getElem?_eq_some_iff.mp hd).1
  rw [(hi.calls i c hc).numbered, (hi.calls j d hd).numbered] at h
  have := congrArg UInt64.toNat (requestID_injective h)
  rw [UInt64.toNat_ofNat', UInt64.toNat_ofNat', Nat.mod_eq_of_lt (by omega),
    Nat.mod_eq_of_lt (by omega)] at this
  omega

/-- Another call is not concerned by a step that leaves its channel where it is. -/
theorem CallOk.frame {s s' : State ε} {j : Nat} {d : Call ε} (h : CallOk s j d)
    (hheld : j ∈ s'.holders ↔ j ∈ s.holders) (hentry : ∀ key, (key, j) ∈ s'.responses → (key, j) ∈ s.responses)
    (hown : ∀ x ∈ s'.answers, x.call = j → x ∈ s.answers ∨ x.Answers d.id)
    (hsent : ∀ x, x.call = j → (x ∈ s'.sent ↔ x ∈ s.sent))
    (hout : ∀ o, (j, o) ∈ s'.outcomes → (j, o) ∈ s.outcomes) : CallOk s' j d where
  numbered := h.numbered
  fresh hp := fun hmem => h.fresh hp (hheld.mp hmem)
  held hr := hheld.mpr (h.held hr)
  entry key hk := h.entry key (hentry key hk)
  own x hx hxj := (hown x hx hxj).elim (fun hx => h.own x hx hxj) id
  chan w hw := by
    obtain ⟨x, hx, hxj, hxw⟩ := h.chan w hw
    exact ⟨x, (hsent x hxj).mpr hx, hxj, hxw⟩
  full hr hmem := by
    obtain ⟨x, hx, hxj⟩ := mem_map.mp hmem
    exact h.full hr (mem_map.mpr ⟨x, (hsent x hxj).mp hx, hxj⟩)
  outcome o ho := by
    obtain ⟨hret, hw⟩ := h.outcome o (hout o ho)
    refine ⟨hret, ?_⟩
    intro w how
    obtain ⟨x, hx, hxj, hxw⟩ := hw w how
    exact ⟨x, (hsent x hxj).mpr hx, hxj, hxw⟩

/-- A step that moves no channel. -/
theorem CallOk.keep {s s' : State ε} {j : Nat} {d : Call ε} (h : CallOk s j d)
    (hresp : s'.responses = s.responses) (hsends : s'.sends = s.sends) (hsent : s'.sent = s.sent)
    (hout : ∀ o, (j, o) ∈ s'.outcomes → (j, o) ∈ s.outcomes) : CallOk s' j d := by
  have hans : s'.answers = s.answers := by unfold State.answers; rw [hsends, hsent]
  refine h.frame ?_ ?_ ?_ ?_ hout
  · unfold State.holders
    rw [hresp, hans]
  · intro key hk
    rwa [hresp] at hk
  · intro x hx _
    rw [hans] at hx
    exact Or.inl hx
  · intro x _
    rw [hsent]

/-! ## Every action keeps it -/

variable {x : Send ε}

section

variable {s s' : State ε} {i : Nat} {c : Call ε}

theorem mem_holders_of_entry {key : Bytes} (h : (key, i) ∈ s.responses) : i ∈ s.holders :=
  mem_append_left _ (mem_map.mpr ⟨(key, i), h, rfl⟩)

theorem mem_holders_of_answer (h : x ∈ s.answers) : x.call ∈ s.holders :=
  mem_append_right _ (mem_map_of_mem h)

section

variable (hi : Inv s)
include hi

/-- A channel that is in the map is not to be sent to, and has not been. -/
theorem Inv.entry_or_answer {key : Bytes} (he : (key, i) ∈ s.responses) (hx : x ∈ s.answers) : x.call ≠ i := by
  have hdisj := (nodup_append.mp hi.once).2.2
  exact (hdisj i (mem_map.mpr ⟨(key, i), he, rfl⟩) x.call (mem_map_of_mem hx)).symm

/-- A channel that is to be sent to has not been sent to. -/
theorem Inv.send_or_sent {y : Send ε} (hx : x ∈ s.sends) (hy : y ∈ s.sent) : x.call ≠ y.call := by
  have hans := (nodup_append.mp hi.once).2.1
  rw [State.answers, map_append] at hans
  exact (nodup_append.mp hans).2.2 _ (mem_map_of_mem hx) _ (mem_map_of_mem hy)

theorem Inv.not_returned (hc : s.calls[i]? = some c) (hr : c.phase ≠ .returned) :
    i ∉ s.outcomes.map Prod.fst := by
  intro hmem
  obtain ⟨p, hp, rfl⟩ := mem_map.mp hmem
  exact hr ((hi.calls p.1 c hc).outcome p.2 hp).1

theorem inv_nextCall : Inv s.nextCall := by
  have hnew : s.calls.length ∉ s.holders ++ s.outcomes.map Prod.fst := fun h => Nat.lt_irrefl _ (hi.known _ h)
  have hh : s.calls.length ∉ s.holders := fun h => hnew (mem_append_left _ h)
  have hseq : s.requestSeq + 1 = UInt64.ofNat (s.calls.length + 1) := by
    rw [hi.seq, UInt64.ofNat_add]
    rfl
  refine ⟨?_, AllAt.concat ?_ ?_, hi.keys, ?_, hi.once, hi.tickets, hi.ticketsBound, hi.outcomes⟩
  · show s.requestSeq + 1 = UInt64.ofNat (s.calls ++ [_]).length
    rw [length_append, length_singleton]
    exact hseq
  · intro j d hd
    exact (hi.calls j d hd).keep rfl rfl rfl (fun _ => id)
  · refine ⟨congrArg requestID hseq, fun _ => hh, nofun, ?_, ?_, nofun, nofun, ?_⟩
    · intro key hk
      exact absurd (mem_holders_of_entry hk) hh
    · intro x hx heq
      exact absurd (heq ▸ mem_holders_of_answer hx) hh
    · intro o ho
      exact absurd (mem_append_right _ (mem_map.mpr ⟨_, ho, rfl⟩)) hnew
  · intro j hj
    have := hi.known j hj
    show j < (s.calls ++ [_]).length
    rw [length_append]
    omega

/-- A step of one call. -/
theorem Inv.move {f : Call ε → Call ε} (hcalls : s'.calls = s.calls.modify i f)
    (hseq : s'.requestSeq = s.requestSeq) (hat : ∀ c, s.calls[i]? = some c → CallOk s' i (f c))
    (hothers : ∀ j d, j ≠ i → s.calls[j]? = some d → CallOk s' j d) (hkeys : (s'.responses.map Prod.fst).Nodup)
    (hknown : ∀ j ∈ s'.holders ++ s'.outcomes.map Prod.fst, j < s.calls.length) (honce : s'.holders.Nodup)
    (htickets : (s'.answers.filterMap Send.ticket).Nodup)
    (hbound : ∀ t ∈ s'.answers.filterMap Send.ticket, t < s'.tickets) (hout : (s'.outcomes.map Prod.fst).Nodup)
    : Inv s' := by
  have hlen : s'.calls.length = s.calls.length := by rw [hcalls, length_modify]
  refine ⟨?_, ?_, hkeys, ?_, honce, htickets, hbound, hout⟩
  · rw [hseq, hlen]
    exact hi.seq
  · rw [hcalls]
    exact AllAt.modify hat hothers
  intro j hj
  rw [hlen]
  exact hknown j hj

/-- The write returns, or the context is done: the channel stays where it is. -/
theorem inv_setPhase {p : Phase ε} (hc : s.calls[i]? = some c) (hr : c.phase.Registered) (hp : p.Registered) :
    Inv (s.setPhase i p) := by
  refine hi.move rfl rfl ?_ ?_ hi.keys hi.known hi.once hi.tickets hi.ticketsBound hi.outcomes
  · intro c' hc'
    rw [hc] at hc'
    cases hc'
    have hok := hi.calls i c hc
    refine ⟨hok.numbered, ?_, fun _ => hok.held hr, ?_, hok.own, hok.chan, fun _ => hok.full hr, ?_⟩
    · intro heq
      rw [show p = .numbered from heq] at hp
      exact hp.elim
    · intro key hk
      exact ⟨(hok.entry key hk).1, hp⟩
    · intro o ho
      have hret := (hok.outcome o ho).1
      rw [hret] at hr
      exact hr.elim
  · intro j d _ hd
    exact (hi.calls j d hd).keep rfl rfl rfl (fun _ => id)

/-- The id of an unregistered call is not in the map, whose keys are the ids of registered ones. -/
theorem Inv.key_absent (hlen : s.calls.length < 2 ^ 64) (hc : s.calls[i]? = some c) (hr : ¬ c.phase.Registered)
    : ∀ e ∈ s.responses, e.1 ≠ c.id := by
  rintro ⟨key, k⟩ he heq
  have hk : k < s.calls.length := hi.known k (mem_append_left _ (mem_holders_of_entry he))
  have hd : s.calls[k]? = some s.calls[k] := getElem?_eq_getElem hk
  obtain ⟨hkey, hreg⟩ := (hi.calls k _ hd).entry key he
  have hki : k = i := hi.id_injective hlen hd hc (hkey.symm.trans heq)
  subst hki
  rw [hd] at hc
  cases hc
  exact hr hreg

theorem inv_register (hlen : s.calls.length < 2 ^ 64) (hc : s.calls[i]? = some c) (hphase : c.phase = .numbered)
    : Inv ((s.setPhase i .unwritten).registerResponse c.id i) := by
  have hok := hi.calls i c hc
  have hperm : (insert s.responses c.id i).Perm ((c.id, i) :: s.responses) :=
    SortedMap.insert_perm (hi.key_absent hlen hc (by rw [hphase]; exact not_false))
  have hholders : ((s.setPhase i .unwritten).registerResponse c.id i).holders.Perm
      (i :: s.holders) := (hperm.map Prod.snd).append_right _
  have hilt : i < s.calls.length := (List.getElem?_eq_some_iff.mp hc).1
  refine hi.move rfl rfl ?_ ?_ ?_ ?_ ?_ hi.tickets hi.ticketsBound hi.outcomes
  · intro c' hc'
    rw [hc] at hc'
    cases hc'
    refine ⟨hok.numbered, nofun, fun _ => hholders.mem_iff.mpr mem_cons_self, ?_, hok.own, hok.chan, ?_, ?_⟩
    · intro key hk
      rcases mem_cons.mp (hperm.mem_iff.mp hk) with heq | hk
      · exact ⟨congrArg Prod.fst heq, trivial⟩
      · exact absurd (mem_holders_of_entry hk) (hok.fresh hphase)
    · intro _ hmem
      obtain ⟨x, hx, hxi⟩ := mem_map.mp hmem
      have : x ∈ s.answers := mem_append_right _ hx
      exact absurd (hxi ▸ mem_holders_of_answer this) (hok.fresh hphase)
    · intro o ho
      have hret := (hok.outcome o ho).1
      rw [hphase] at hret
      cases hret
  · intro j d hj hd
    refine (hi.calls j d hd).frame ?_ ?_ (fun _ hx _ => Or.inl hx) (fun _ _ => Iff.rfl) (fun _ => id)
    · rw [hholders.mem_iff, mem_cons]
      exact or_iff_right hj
    intro key hk
    rcases mem_cons.mp (hperm.mem_iff.mp hk) with heq | hk
    · exact absurd (congrArg Prod.snd heq) hj
    · exact hk
  · refine ((hperm.map Prod.fst).nodup_iff).mpr (nodup_cons.mpr ⟨?_, hi.keys⟩)
    intro hmem
    obtain ⟨e, he, heq⟩ := mem_map.mp hmem
    exact hi.key_absent hlen hc (by rw [hphase]; exact not_false) e he heq
  · intro j hj
    rcases mem_append.mp hj with hj | hj
    · rcases mem_cons.mp (hholders.mem_iff.mp hj) with rfl | hj
      · exact hilt
      · exact hi.known j (mem_append_left _ hj)
    · exact hi.known j (mem_append_right _ hj)
  · exact hholders.nodup_iff.mpr (nodup_cons.mpr ⟨hok.fresh hphase, hi.once⟩)

/-- One call more has returned. -/
theorem Inv.known_outcome (hc : s.calls[i]? = some c) (o : Outcome ε) :
    ∀ j ∈ s.holders ++ ((i, o) :: s.outcomes).map Prod.fst, j < s.calls.length := by
  intro j hj
  rw [map_cons] at hj
  rcases mem_append.mp hj with hj | hj
  · exact hi.known j (mem_append_left _ hj)
  rcases mem_cons.mp hj with rfl | hj
  · exact (List.getElem?_eq_some_iff.mp hc).1
  · exact hi.known j (mem_append_right _ hj)

theorem inv_receive {w : ResponseWait ε} (hc : s.calls[i]? = some c) (hphase : c.phase = .waiting)
    (hchan : c.chan = some w) : Inv (s.receive i w) := by
  have hok := hi.calls i c hc
  have hnew : i ∉ s.outcomes.map Prod.fst := hi.not_returned hc (by rw [hphase]; nofun)
  obtain ⟨x, hx, hxi, hxw⟩ := hok.chan w hchan
  refine hi.move rfl rfl ?_ ?_ hi.keys (hi.known_outcome hc _) hi.once hi.tickets hi.ticketsBound
    (nodup_cons.mpr ⟨hnew, hi.outcomes⟩)
  · intro c' hc'
    rw [hc] at hc'
    cases hc'
    refine ⟨hok.numbered, nofun, nofun, ?_, hok.own, nofun, nofun, ?_⟩
    · intro key hk
      -- the channel was sent to, so it is not in the map
      exact absurd hxi (hi.entry_or_answer hk (mem_append_right _ hx))
    · intro o ho
      refine ⟨rfl, ?_⟩
      intro w' how
      rcases mem_cons.mp ho with heq | ho
      · cases heq
        cases how
        exact ⟨x, hx, hxi, hxw⟩
      · exact absurd (mem_map.mpr ⟨_, ho, rfl⟩) hnew
  · intro j d hj hd
    refine (hi.calls j d hd).keep rfl rfl rfl ?_
    intro o ho
    rcases mem_cons.mp ho with heq | ho
    · exact absurd (congrArg Prod.fst heq) hj
    · exact ho

/-- The entries of the other calls are under other ids, so a deletion by id leaves them. -/
theorem Inv.mem_erase (hlen : s.calls.length < 2 ^ 64) (hc : s.calls[i]? = some c) {j : Nat} {d : Call ε}
    (hd : s.calls[j]? = some d) (hj : j ≠ i) {key : Bytes} (hk : (key, j) ∈ s.responses) :
    (key, j) ∈ erase s.responses c.id := by
  refine mem_filter.mpr ⟨hk, ?_⟩
  have hne : key ≠ c.id := by
    intro heq
    exact hj (hi.id_injective hlen hd hc (((hi.calls j d hd).entry key hk).1.symm.trans heq))
  simpa using hne

theorem inv_leave {a : Abort ε} (hlen : s.calls.length < 2 ^ 64) (hc : s.calls[i]? = some c)
    (hphase : c.phase = .unregistering a) : Inv ((s.unregisterResponse c.id).leave i a) := by
  have hok := hi.calls i c hc
  have hnew : i ∉ s.outcomes.map Prod.fst := hi.not_returned hc (by rw [hphase]; nofun)
  have hsub : (erase s.responses c.id).Sublist s.responses := filter_sublist
  have hholders : ((s.unregisterResponse c.id).leave i a).holders.Sublist s.holders :=
    (hsub.map Prod.snd).append_right _
  refine hi.move rfl rfl ?_ ?_ (hi.keys.sublist (hsub.map Prod.fst)) ?_ (hi.once.sublist hholders)
    hi.tickets hi.ticketsBound (nodup_cons.mpr ⟨hnew, hi.outcomes⟩)
  · intro c' hc'
    rw [hc] at hc'
    cases hc'
    refine ⟨hok.numbered, nofun, nofun, ?_, hok.own, hok.chan, nofun, ?_⟩
    · intro key hk
      obtain ⟨hk, hne⟩ := mem_filter.mp hk
      exact absurd (hok.entry key hk).1 (by simpa using hne)
    · intro o' ho'
      refine ⟨rfl, ?_⟩
      rcases mem_cons.mp ho' with heq | ho'
      · cases heq
        exact nofun
      · exact absurd (mem_map.mpr ⟨_, ho', rfl⟩) hnew
  · intro j d hj hd
    refine (hi.calls j d hd).frame ⟨fun h => hholders.subset h, ?_⟩ ?_ (fun _ hx _ => Or.inl hx)
      (fun _ _ => Iff.rfl) ?_
    · intro hmem
      rcases mem_append.mp hmem with hmem | hmem
      · obtain ⟨⟨key, k⟩, hk, rfl⟩ := mem_map.mp hmem
        exact mem_holders_of_entry (hi.mem_erase hlen hc hd hj hk)
      · exact mem_append_right _ hmem
    · intro key hk
      exact hsub.subset hk
    · intro o' ho'
      rcases mem_cons.mp ho' with heq | ho'
      · exact absurd (congrArg Prod.fst heq) hj
      · exact ho'
  · intro j hj
    refine hi.known_outcome hc (.aborted a) j ?_
    rcases mem_append.mp hj with hj | hj
    · exact mem_append_left _ (hholders.subset hj)
    · exact mem_append_right _ hj

/-- Channels are taken out of the map to be sent to: every channel is still in one place. -/
theorem Inv.transfer (hcalls : s'.calls = s.calls) (hseq : s'.requestSeq = s.requestSeq)
    (hout : s'.outcomes = s.outcomes) (hsent : s'.sent = s.sent) (hresp : s'.responses.Sublist s.responses)
    (hperm : s'.holders.Perm s.holders)
    (hown : ∀ x ∈ s'.answers, x ∈ s.answers ∨ ∀ c, s.calls[x.call]? = some c → x.Answers c.id)
    (htickets : (s'.answers.filterMap Send.ticket).Nodup)
    (hbound : ∀ t ∈ s'.answers.filterMap Send.ticket, t < s'.tickets) : Inv s' where
  seq := by rw [hseq, hcalls]; exact hi.seq
  calls := by
    rw [hcalls]
    intro j d hd
    refine (hi.calls j d hd).frame hperm.mem_iff (fun key hk => hresp.subset hk) ?_ ?_ ?_
    · rintro x hx rfl
      exact (hown x hx).imp id (fun h => h d hd)
    · intro x _
      rw [hsent]
    · intro o ho
      rwa [hout] at ho
  keys := hi.keys.sublist (hresp.map Prod.fst)
  known := by
    intro j hj
    rw [hcalls]
    refine hi.known j ?_
    rw [hout] at hj
    rcases mem_append.mp hj with hj | hj
    · exact mem_append_left _ (hperm.mem_iff.mp hj)
    · exact mem_append_right _ hj
  once := hperm.nodup_iff.mpr hi.once
  tickets := htickets
  ticketsBound := hbound
  outcomes := by rw [hout]; exact hi.outcomes

theorem inv_deliverResponse {thread : Nat} {m : Message} : Inv (s.deliverResponse thread m) := by
  unfold State.deliverResponse
  have hsub : (erase s.responses m.id).Sublist s.responses := filter_sublist
  cases hget : get? s.responses m.id with
  | none =>
    have hsame : erase s.responses m.id = s.responses :=
      SortedMap.erase_eq_self (SortedMap.ne_of_get?_none hget)
    refine hi.transfer rfl rfl rfl rfl hsub ?_ (fun _ hx => Or.inl hx) hi.tickets ?_
    · exact List.Perm.of_eq (by rw [State.holders, hsame]; rfl)
    · exact fun t ht => Nat.lt_succ_of_lt (hi.ticketsBound t ht)
  | some i =>
    have hperm : s.responses.Perm ((m.id, i) :: erase s.responses m.id) :=
      SortedMap.perm_cons_erase hi.keys hget
    refine hi.transfer rfl rfl rfl rfl hsub ?_ ?_ ?_ ?_
    · exact perm_middle.trans ((hperm.map Prod.snd).append_right _).symm
    · intro x hx
      rcases mem_cons.mp hx with rfl | hx
      · -- the response has the id its channel was found under
        right
        intro c hc t m' hm
        cases hm
        exact ((hi.calls i c hc).entry m.id (SortedMap.mem_of_get? hget)).1
      · exact Or.inl hx
    · refine nodup_cons.mpr ⟨?_, hi.tickets⟩
      exact fun hmem => Nat.lt_irrefl _ (hi.ticketsBound _ hmem)
    · intro t ht
      rcases mem_cons.mp ht with rfl | ht
      · exact Nat.lt_succ_self _
      · exact Nat.lt_succ_of_lt (hi.ticketsBound t ht)

theorem inv_failPending {thread : Nat} {e : ε} : Inv (s.failPending thread e) := by
  have htickets : (s.failPending thread e).answers.filterMap Send.ticket =
      s.answers.filterMap Send.ticket := by
    unfold State.failPending State.answers
    rw [append_assoc, filterMap_append, filterMap_map]
    simp [Send.ticket, Function.comp_def]
  refine hi.transfer rfl rfl rfl rfl (nil_sublist _) (List.Perm.of_eq ?_) ?_ ?_ ?_
  · unfold State.holders State.answers State.failPending
    simp [Function.comp_def]
  · intro x hx
    unfold State.answers State.failPending at hx
    rw [append_assoc] at hx
    rcases mem_append.mp hx with hx | hx
    · right
      obtain ⟨p, _, rfl⟩ := mem_map.mp hx
      intro c _ t m hm
      cases hm
    · exact Or.inl hx
  · rw [htickets]
    exact hi.tickets
  · rw [htickets]
    exact hi.ticketsBound

theorem inv_send [DecidableEq ε] (hx : x ∈ s.sends) : Inv (s.send x) := by
  have hans : (s.send x).answers.Perm s.answers := by
    refine perm_middle.trans ?_
    exact ((perm_cons_erase hx).append_right s.sent).symm
  have hholders : (s.send x).holders.Perm s.holders := (hans.map Send.call).append_left _
  refine hi.move rfl rfl ?_ ?_ hi.keys ?_ (hholders.nodup_iff.mpr hi.once)
    ((hans.filterMap Send.ticket).nodup_iff.mpr hi.tickets) ?_ hi.outcomes
  · intro c hc
    have hok := hi.calls x.call c hc
    refine ⟨hok.numbered, fun hp hmem => hok.fresh hp (hholders.mem_iff.mp hmem),
      fun hr => hholders.mem_iff.mpr (hok.held hr), hok.entry,
      fun y hy => hok.own y (hans.mem_iff.mp hy), ?_, fun _ _ => nofun, ?_⟩
    · intro w hw
      exact ⟨x, mem_cons_self, rfl, Option.some.inj hw⟩
    intro o ho
    obtain ⟨hret, hw⟩ := hok.outcome o ho
    refine ⟨hret, ?_⟩
    intro w how
    obtain ⟨y, hy, hyc, hyw⟩ := hw w how
    exact ⟨y, mem_cons_of_mem _ hy, hyc, hyw⟩
  · intro j d hj hd
    refine (hi.calls j d hd).frame hholders.mem_iff (fun _ => id)
      (fun y hy _ => Or.inl (hans.mem_iff.mp hy)) ?_ (fun _ => id)
    intro y hyj
    refine ⟨fun hy => (mem_cons.mp hy).resolve_left ?_, mem_cons_of_mem _⟩
    rintro rfl
    exact hj hyj.symm
  · intro j hj
    refine hi.known j ?_
    rcases mem_append.mp hj with hj | hj
    · exact mem_append_left _ (hholders.mem_iff.mp hj)
    · exact mem_append_right _ hj
  · intro t ht
    exact hi.ticketsBound t ((hans.filterMap Send.ticket).mem_iff.mp ht)

/-- A call whose channel is neither in the map nor to be sent to, and which waits, has its answer. -/
theorem Inv.answered (hc : s.calls[i]? = some c) (hwait : c.phase = .waiting)
    (hentry : ∀ key, (key, i) ∉ s.responses) (hsend : ∀ x ∈ s.sends, x.call ≠ i) : c.chan ≠ none := by
  have hr : c.phase.Registered := by rw [hwait]; trivial
  rcases mem_append.mp ((hi.calls i c hc).held hr) with hmem | hmem
  · obtain ⟨⟨key, j⟩, he, rfl⟩ := mem_map.mp hmem
    exact absurd he (hentry key)
  rw [State.answers, map_append] at hmem
  rcases mem_append.mp hmem with hmem | hmem
  · obtain ⟨x, hx, hxi⟩ := mem_map.mp hmem
    exact absurd hxi (hsend x hx)
  · exact (hi.calls i c hc).full hr hmem

end

end

/-! ## The runs of a client -/

section

variable [DecidableEq ε] {s s' : State ε} {a : Action ε}

theorem inv_step (hi : Inv s) (hlen : s.calls.length < 2 ^ 64) (hstep : step s a = some s') : Inv s' := by
  cases a
  all_goals simp only [step] at hstep
  case call contextDone =>
    split at hstep <;> cases hstep
    · exact hi
    · exact inv_nextCall hi
  case register i =>
    split at hstep
    · split at hstep <;> cases hstep
      exact inv_register hi hlen ‹_› ‹_›
    · cases hstep
  case writeSucceeds i | writeFails i e | contextDone i =>
    split at hstep
    · rename_i c hc
      split at hstep <;> cases hstep
      rename_i hphase
      exact inv_setPhase hi hc (by rw [hphase]; trivial) trivial
    · cases hstep
  case receive i =>
    split at hstep
    · split at hstep <;> cases hstep
      exact inv_receive hi ‹_› ‹_› ‹_›
    · cases hstep
  case unregister i =>
    split at hstep
    · split at hstep <;> cases hstep
      exact inv_leave hi hlen ‹_› ‹_›
    · cases hstep
  case deliver thread m => cases hstep; exact inv_deliverResponse hi
  case fail thread e => cases hstep; exact inv_failPending hi
  case send x =>
    split at hstep
    · rename_i hx
      split at hstep
      · split at hstep <;> cases hstep
        exact inv_send hi hx
      · cases hstep
    · cases hstep

/-- Calls are only added, one at a time and by `requestRaw`. -/
theorem length_of_step (hstep : step s a = some s') :
    s'.calls.length = s.calls.length ∨
      a = .call false ∧ s'.calls.length = s.calls.length + 1 := by
  cases a with
  | call contextDone =>
    cases contextDone with
    | true => cases hstep; exact Or.inl rfl
    | false => cases hstep; exact Or.inr ⟨rfl, by simp [State.nextCall]⟩
  | deliver thread m =>
    cases hstep
    unfold State.deliverResponse
    split <;> exact Or.inl rfl
  | fail thread e => cases hstep; exact Or.inl rfl
  | register i | writeSucceeds i | writeFails i e | receive i | contextDone i | unregister i =>
    simp only [step] at hstep
    split at hstep
    · split at hstep <;> cases hstep
      exact Or.inl (length_modify ..)
    · cases hstep
  | send x =>
    simp only [step] at hstep
    split at hstep
    · split at hstep
      · split at hstep <;> cases hstep
        exact Or.inl (length_modify ..)
      · cases hstep
    · cases hstep

theorem inv_of_run {as : List (Action ε)} (hrun : machine.run as = some s)
    (hlen : s.calls.length < 2 ^ 64) : Inv s := by
  refine Machine.bounded_invariant (M := machine) (f := fun s => s.calls.length) ?_ (fun _ => inv_new)
    (fun _ _ _ hi hlen _ hstep => inv_step hi hlen hstep) hrun hlen
  intro s a s' hstep
  rcases length_of_step hstep with h | ⟨_, h⟩ <;> omega

theorem Inv.send_enabled (hi : Inv s) (hx : x ∈ s.sends) : ∃ s', step s (.send x) = some s' := by
  have hlt : x.call < s.calls.length :=
    hi.known _ (mem_append_left _ (mem_holders_of_answer (mem_append_left _ hx)))
  have hc : s.calls[x.call]? = some s.calls[x.call] := getElem?_eq_getElem hlt
  cases hchan : s.calls[x.call].chan with
  | none => exact ⟨s.send x, by simp only [step, if_pos hx, hc, hchan]⟩
  | some w =>
    -- a full channel has been sent to, so no send to it is left
    obtain ⟨y, hy, hyx, _⟩ := (hi.calls _ _ hc).chan w hchan
    exact absurd hyx.symm (hi.send_or_sent hx hy)

theorem Inv.correlated (hi : Inv s) : Correlated s where
  oneOutcome := hi.outcomes
  ownResponse := by
    intro i t m ho
    have hlt : i < s.calls.length := hi.known i (mem_append_right _ (mem_map.mpr ⟨_, ho, rfl⟩))
    have hc : s.calls[i]? = some s.calls[i] := getElem?_eq_getElem hlt
    obtain ⟨x, hx, hxi, hxw⟩ := ((hi.calls i _ hc).outcome _ ho).2 _ rfl
    exact ⟨_, hc, ((hi.calls i _ hc).own x (mem_append_right _ hx) hxi t m hxw).symm⟩
  oneRequest := by
    intro x hx y hy t hxt hyt
    by_contra hne
    have hsymm : Std.Symm fun x y : Send ε =>
        ∀ b, x.ticket = some b → ∀ b', y.ticket = some b' → b ≠ b' :=
      ⟨fun _ _ h b hb b' hb' => (h b' hb' b hb).symm⟩
    have hpair := (pairwise_filterMap.mp hi.tickets).forall (mem_append_right _ hx)
      (mem_append_right _ hy) (fun heq => hne (heq ▸ rfl))
    exact hpair t hxt t hyt rfl
  outcomeSent := by
    intro i w ho
    have hlt : i < s.calls.length := hi.known i (mem_append_right _ (mem_map.mpr ⟨_, ho, rfl⟩))
    exact ((hi.calls i _ (getElem?_eq_getElem hlt)).outcome _ ho).2 w rfl
  nonBlocking := fun x hx => hi.send_enabled hx
  emptied := by
    intro hret
    by_contra hne
    obtain ⟨⟨key, i⟩, he⟩ := exists_mem_of_ne_nil _ hne
    have hlt : i < s.calls.length := hi.known i (mem_append_left _ (mem_holders_of_entry he))
    have hreg := ((hi.calls i _ (getElem?_eq_getElem hlt)).entry key he).2
    rw [hret _ (getElem_mem hlt)] at hreg
    exact hreg

/-- **JSON-RPC correlation.** After any interleaving of fewer than 2^64 requests with responses,
    cancellations and failures: every request has at most one outcome and no response but its own, no
    response goes to two requests, no send blocks, and when all requests have returned the map is
    empty. -/
theorem requests_correlated {as : List (Action ε)} (hrun : machine.run as = some s)
    (hlen : s.calls.length < 2 ^ 64) : Correlated s :=
  (inv_of_run hrun hlen).correlated

end

/-- Two requests: the first is answered, and the repetition of its response finds nothing; the second is
    cancelled while its response is on the way. -/
theorem requests_correlated_two :
    ∃ s : State Unit, machine.run
        [.call false, .register 0, .writeSucceeds 0, .call false, .register 1, .writeSucceeds 1,
          .deliver 0 ⟨ascii "go-sdk-2", [], [], [], none⟩,
          .deliver 1 ⟨ascii "go-sdk-1", [], [], [], none⟩,
          .deliver 2 ⟨ascii "go-sdk-1", [], [], [], none⟩, .contextDone 1, .unregister 1,
          .send ⟨1, 0, .msg 1 ⟨ascii "go-sdk-1", [], [], [], none⟩⟩, .receive 0,
          .send ⟨0, 1, .msg 0 ⟨ascii "go-sdk-2", [], [], [], none⟩⟩, .fail 0 ()] = some s ∧
      (∀ c ∈ s.calls, c.phase = .returned) ∧ Correlated s := by
  refine Machine.exists_run_and (by decide +kernel) ?_
  refine Machine.exists_run (by decide +kernel) (fun s hrun => ?_)
  have hlen : s.calls.length < 2 ^ 64 :=
    Machine.of_run (I := fun s => s.calls.length < 2 ^ 64) hrun (by decide +kernel)
  exact requests_correlated hrun hlen

/-! ## What a step can do to the map, the sends and the waiting calls -/

section

variable [DecidableEq ε] {s s' : State ε} {a : Action ε}

theorem writeSucceeds_inv {i : Nat} (hstep : step s (.writeSucceeds i) = some s') :
    ∃ c, s.calls[i]? = some c ∧ c.phase = .unwritten ∧ s' = s.setPhase i .waiting := by
  simp only [step] at hstep
  split at hstep
  · split at hstep <;> cases hstep
    exact ⟨_, ‹_›, ‹_›, rfl⟩
  · cases hstep

/-- Only a successful write makes a call wait. -/
theorem waiting_of_step (hstep : step s a = some s') (ha : ∀ i, a ≠ .writeSucceeds i) :
    AllAt s'.calls fun i c' => c'.phase = .waiting → ∃ c, s.calls[i]? = some c ∧ c.phase = .waiting := by
  -- a call moved in place by `f` waits only if it did before
  have hmove : ∀ (j : Nat) (f : Call ε → Call ε), (∀ c, (f c).phase = .waiting → c.phase = .waiting) →
      AllAt (s.calls.modify j f) fun i c' => c'.phase = .waiting →
        ∃ c, s.calls[i]? = some c ∧ c.phase = .waiting := by
    intro j f hf
    exact AllAt.modify (fun c hc hw => ⟨c, hc, hf c hw⟩) (fun i c _ hc hw => ⟨c, hc, hw⟩)
  have hsame : AllAt s.calls fun i c' => c'.phase = .waiting →
      ∃ c, s.calls[i]? = some c ∧ c.phase = .waiting := fun i c hc hw => ⟨c, hc, hw⟩
  cases a
  all_goals simp only [step] at hstep
  case call contextDone =>
    split at hstep <;> cases hstep
    · exact hsame
    · exact AllAt.concat hsame nofun
  case writeSucceeds i => exact absurd rfl (ha i)
  case register i | writeFails i e | contextDone i | receive i | unregister i =>
    split at hstep
    · split at hstep <;> cases hstep
      exact hmove i _ nofun
    · cases hstep
  case deliver thread m =>
    cases hstep
    unfold State.deliverResponse
    split <;> exact hsame
  case fail thread e => cases hstep; exact hsame
  case send x =>
    split at hstep
    · split at hstep
      · split at hstep <;> cases hstep
        exact hmove x.call _ (fun _ h => h)
      · cases hstep
    · cases hstep

/-- Only a registration adds an entry, and then the call is still to be written. -/
theorem entry_of_step (hstep : step s a = some s') {key : Bytes} {i : Nat} (he : (key, i) ∈ s'.responses) :
    (key, i) ∈ s.responses ∨ ∃ c, s'.calls[i]? = some c ∧ c.phase = .unwritten := by
  cases a
  all_goals simp only [step] at hstep
  case call contextDone =>
    split at hstep <;> cases hstep <;> exact Or.inl he
  case register j =>
    split at hstep
    · rename_i c hc
      split at hstep <;> cases hstep
      rcases SortedMap.mem_insert he with heq | he
      · cases heq
        refine Or.inr ⟨{ c with phase := .unwritten }, ?_, rfl⟩
        show (s.calls.modify i _)[i]? = _
        rw [getElem?_modify, hc]
        simp
      · exact Or.inl he
    · cases hstep
  case writeSucceeds j | writeFails j e | contextDone j | receive j =>
    split at hstep
    · split at hstep <;> cases hstep
      exact Or.inl he
    · cases hstep
  case unregister j =>
    split at hstep
    · split at hstep <;> cases hstep
      exact Or.inl (mem_of_mem_filter he)
    · cases hstep
  case deliver thread m =>
    cases hstep
    unfold State.deliverResponse at he
    split at he <;> exact Or.inl (mem_of_mem_filter he)
  case fail thread e => cases hstep; cases he
  case send x =>
    split at hstep
    · split at hstep
      · split at hstep <;> cases hstep
        exact Or.inl he
      · cases hstep
    · cases hstep

/-- A goroutine commits itself to sends by delivering a response or failing the pending requests. -/
theorem send_of_step (hstep : step s a = some s') (hx : x ∈ s'.sends) :
    x ∈ s.sends ∨ (∃ m, a = .deliver x.thread m) ∨ ∃ e, a = .fail x.thread e := by
  cases a
  all_goals simp only [step] at hstep
  case call contextDone =>
    split at hstep <;> cases hstep <;> exact Or.inl hx
  case register j | writeSucceeds j | writeFails j e | contextDone j | receive j | unregister j =>
    split at hstep
    · split at hstep <;> cases hstep
      exact Or.inl hx
    · cases hstep
  case deliver thread m =>
    cases hstep
    unfold State.deliverResponse at hx
    split at hx
    · rcases mem_cons.mp hx with rfl | hx
      · exact Or.inr (Or.inl ⟨m, rfl⟩)
      · exact Or.inl hx
    · exact Or.inl hx
  case fail thread e =>
    cases hstep
    rcases mem_append.mp hx with hx | hx
    · obtain ⟨p, _, rfl⟩ := mem_map.mp hx
      exact Or.inr (Or.inr ⟨e, rfl⟩)
    · exact Or.inl hx
  case send y =>
    split at hstep
    · split at hstep
      · split at hstep <;> cases hstep
        exact Or.inl (mem_of_mem_erase hx)
      · cases hstep
    · cases hstep

end

end Pandaemonium.Codex.Rpc
