import Pandaemonium.Codex.RouterRefinement
import Pandaemonium.Lib.Machine

/-!
# `Codex.RouterClose` — a router closed under its consumers

A turn consumer registers and then calls `next` again and again. A call is in two parts: the critical section
of the router, which looks the queue up, and the loop over the queue's own critical section. `close` marks the
router closed and empties its maps in one critical section and closes the queues one by one afterwards, in any
order. Here they run against each other, and against everything else that uses the router.

`owed` records what the queue of a consumer held when the router was closed; `results` what its calls have
returned since.

* `Kept` — a consumer is given all it is owed, in order, before a call returns the error of `close`;
* `kept_of_admits` — it holds in every run in which the router is closed only over queues that are empty, or
  hold one notification for a call that is already past the router (`Orderly`);
* `close_loses_notification` — and not in others: the router answers with its error before the queue is asked.
-/

namespace Pandaemonium.Codex

open SortedMap (get? insert erase get?_insert_self get?_insert_ne get?_erase_self get?_erase_ne)
open List hiding insert erase

namespace RouterClose

/-- Where a call of `next` is. -/
inductive Place where
  | outside
  /-- at the queue at `ref`, in front of its critical section -/
  | locking (ref : Nat)
  /-- in the `select` on its channel and the context -/
  | waiting (ref : Nat)
deriving DecidableEq, Repr

def Place.ref? : Place → Option Nat
  | .outside => none
  | .locking ref => some ref
  | .waiting ref => some ref

structure Consumer where
  turnID : Bytes
  registered : Bool
  place : Place
  results : List Result
  owed : Option (List Notification)
deriving DecidableEq, Repr

namespace Consumer

/-- A call returns. -/
def returns (result : Result) (c : Consumer) : Consumer :=
  { c with place := .outside, results := c.results ++ [result] }

def goTo (place : Place) (c : Consumer) : Consumer := { c with place := place }

/-- What the critical section of the queue at `ref` has decided. -/
def afterTurn (ref : Nat) : QueueTurn → Consumer → Consumer
  | .wait => goTo (.waiting ref)
  | .fail e => returns (.failed e)
  | .deliver notif => returns (.notification notif)

/-- What the queue of a registered consumer holds. -/
def queued (r : Router) (c : Consumer) : Option (List Notification) :=
  if c.registered then (r.view .turn c.turnID).queue.map NotificationQueue.contents else none

end Consumer

structure State where
  router : Router
  /-- the queues a `close` has still to close -/
  toClose : List (Nat × Option RouterError)
  consumers : List Consumer
deriving DecidableEq, Repr

def State.new : State := { router := newTurnNotificationRouter, toClose := [], consumers := [] }

/-- Consumer `i` takes a step, which may change the router. -/
def State.moves (s : State) (i : Nat) (router : Router) (f : Consumer → Consumer) : State :=
  { s with router := router, consumers := s.consumers.modify i f }

inductive Action where
  /-- a call that is not one of a turn consumer -/
  | op (op : Op)
  /-- somebody begins to follow a turn -/
  | start (turnID : Bytes)
  | register (i : Nat)
  | unregister (i : Nat)
  /-- `next` is called, and its critical section over the router -/
  | call (i : Nat)
  | lock (i : Nat)
  | wake (i : Nat)
  | contextDone (i : Nat)
  /-- the critical section of `close` -/
  | close (e : RouterError)
  /-- `close` closes one of the queues left -/
  | closeQueue (k : Nat)
deriving DecidableEq, Repr

/-- The calls of turn consumers are actions of their own. -/
def ofTurnConsumer : Op → Bool
  | .register .turn _ => true
  | .next .turn _ => true
  | .unregister .turn _ => true
  | _ => false

variable (parse : Bytes → Option Json.Value)

def step (s : State) : Action → Option State
  | .op op =>
    if ofTurnConsumer op then none else some { s with router := (s.router.apply parse op).2 }
  | .start turnID => some { s with consumers := s.consumers ++ [⟨turnID, false, .outside, [], none⟩] }
  | .register i =>
    match s.consumers[i]? with
    | some c =>
      if c.registered then none
      else
        match s.router.register c.turnID with
        | (none, router) =>
          some (s.moves i router (fun c => { c with registered := true }))
        | (some _, router) => some { s with router := router }
    | none => none
  | .unregister i =>
    match s.consumers[i]? with
    | some c =>
      if c.registered ∧ c.place = .outside then
        some (s.moves i (s.router.unregister c.turnID) (fun c => { c with registered := false }))
      else none
    | none => none
  | .call i =>
    match s.consumers[i]? with
    | some c =>
      if c.registered ∧ c.place = .outside then
        match s.router.lookup .turn c.turnID with
        | .inl result => some (s.moves i s.router (.returns result))
        | .inr ref => some (s.moves i s.router (.goTo (.locking ref)))
      else none
    | none => none
  | .lock i =>
    match s.consumers[i]? with
    | some c =>
      match c.place with
      | .locking ref =>
        match s.router.heap[ref]? with
        | some q =>
          some (s.moves i (s.router.modifyQueue ref (fun _ => q.take.2)) (.afterTurn ref q.take.1))
        | none => none
      | _ => none
    | none => none
  | .wake i =>
    match s.consumers[i]? with
    | some c =>
      match c.place with
      | .waiting ref =>
        match s.router.heap[ref]? with
        | some q =>
          if q.notify then
            some (s.moves i (s.router.modifyQueue ref (fun q => { q with notify := false }))
              (.goTo (.locking ref)))
          else none
        | none => none
      | _ => none
    | none => none
  | .contextDone i =>
    match s.consumers[i]? with
    | some c =>
      match c.place with
      | .waiting _ =>
        some (s.moves i s.router (.returns (.failed (.text (ascii "context canceled")))))
      | _ => none
    | none => none
  | .close e =>
    -- a second `close` returns at once
    if s.router.closed then some s
    else
      some
        { router := s.router.closeLocked (some e)
          toClose := s.router.toClose (some e)
          consumers := s.consumers.map (fun c => { c with results := [], owed := c.queued s.router }) }
  | .closeQueue k =>
    match s.toClose[k]? with
    | some (ref, e) =>
      some
        { s with
          router := s.router.modifyQueue ref (fun q => q.close e)
          toClose := s.toClose.eraseIdx k }
    | none => none

def machine : Machine State Action where
  init := .new
  step := step parse

/-! ## What is to hold -/

/-- The notifications among the results. -/
def notifications (results : List Result) : List Notification :=
  results.filterMap (fun result =>
    match result with
    | .notification notif => some notif
    | _ => none)

/-- **A consumer that was registered when the router was closed has been given all its queue held then, in
    order, whenever a call has returned the error of `close`.** -/
def Kept (s : State) : Prop :=
  ∀ c ∈ s.consumers, ∀ xs ∈ c.owed, ∀ e ∈ s.router.err, ∀ before after : List Result,
    c.results = before ++ .failed e :: after → notifications before = xs

/-- The discipline under which nothing is lost. The router is closed only when the queue of each registered
    consumer is empty, or holds just one notification, with no drop to report first, while a call is already
    past the router; and the context of a call that waits is not done while a notification is left for it in a
    closed router. -/
def Orderly (s : State) : Action → Prop
  | .close _ => s.router.closed = false → ∀ c ∈ s.consumers, c.registered = true →
      ∀ q ∈ (s.router.view .turn c.turnID).queue,
        q.contents = [] ∨ q.contents.length = 1 ∧ q.dropped = 0 ∧ c.place ≠ .outside
  | .contextDone i => s.router.closed = true → ∀ c ∈ s.consumers[i]?, ∀ ref ∈ c.place.ref?,
      ∀ q ∈ s.router.heap[ref]?, q.contents = []
  | _ => True

instance (s : State) (a : Action) : Decidable (Orderly s a) := by
  cases a <;> dsimp only [Orderly] <;> infer_instance

/-! ## What the calls of others leave alone -/

/-- The turn consumers of `r` find their queues in `r'`, and in a closed router as they were. -/
structure Undisturbed (r r' : Router) : Prop where
  closed : r'.closed = r.closed
  err : r'.err = r.err
  queues : r'.turns.queues = r.turns.queues
  cells : ∀ (ref : Nat) (q : NotificationQueue), r.heap[ref]? = some q →
    ∃ q', r'.heap[ref]? = some q' ∧ q'.owner = q.owner ∧ (r.closed = true → q.scope = .turn → q' = q)

section

variable {parse} {r r' : Router} {f : Family} {id : Bytes} {ref : Nat}
  {op : NotificationQueue → NotificationQueue}

/-- The heap stays. -/
theorem undisturbed_of_heap (hc : r'.closed = r.closed) (he : r'.err = r.err)
    (hq : r'.turns.queues = r.turns.queues) (hh : r'.heap = r.heap) : Undisturbed r r' :=
  ⟨hc, he, hq, fun _ q h => ⟨q, hh ▸ h, rfl, fun _ _ => rfl⟩⟩

theorem Undisturbed.refl (r : Router) : Undisturbed r r := undisturbed_of_heap rfl rfl rfl rfl

/-- The heap grows. -/
theorem undisturbed_of_append {q : NotificationQueue} (hc : r'.closed = r.closed) (he : r'.err = r.err)
    (hq : r'.turns.queues = r.turns.queues) (hh : r'.heap = r.heap ++ [q]) : Undisturbed r r' := by
  refine ⟨hc, he, hq, fun ref q' h => ⟨q', ?_, rfl, fun _ _ => rfl⟩⟩
  rw [hh, getElem?_append_left (List.getElem?_eq_some_iff.mp h).1]
  exact h

/-- A queue changes: one of an open router, or not a turn's. -/
theorem undisturbed_modifyQueue {s : Scope} (ho : r.Owned) (href : r.refOf s id = some ref)
    (hs : s ≠ .turn ∨ r.closed = false) (hop : ∀ q, r.heap[ref]? = some q → (op q).owner = q.owner) :
    Undisturbed r (r.modifyQueue ref op) := by
  refine ⟨rfl, rfl, rfl, fun ref' q hq => ?_⟩
  show ∃ q', (r.heap.modify ref op)[ref']? = some q' ∧ _
  by_cases h : ref = ref'
  · subst h
    rw [getElem?_modify_eq, hq]
    refine ⟨op q, rfl, hop q hq, fun hclosed hturn => ?_⟩
    obtain ⟨q', hq', hown⟩ := ho s id ref href
    cases hq.symm.trans hq'
    have hscope : q.scope = s := (Prod.mk.inj hown).1
    exact hs.elim (fun h => absurd (hscope.symm.trans hturn) h) (fun h => nomatch h.symm.trans hclosed)
  · rw [getElem?_modify_ne _ _ h]
    exact ⟨q, hq, rfl, fun _ _ => rfl⟩

/-- The rest of a `next` on a queue that is not a turn's. -/
theorem undisturbed_finishNext {s : Scope} (ho : r.Owned) (hs : s ≠ .turn) {found : Result ⊕ Nat}
    (href : ∀ ref, found = .inr ref → r.refOf s id = some ref) : Undisturbed r (r.finishNext found).2 := by
  cases found with
  | inl result => exact .refl r
  | inr ref =>
    simp only [Router.finishNext]
    cases hq : r.heap[ref]? with
    | none => exact .refl r
    | some q =>
      refine undisturbed_modifyQueue ho (href ref rfl) (.inl hs) (fun q' hq' => ?_)
      cases hq.symm.trans hq'
      exact NotificationQueue.owner_next

theorem undisturbed_deliver (ho : r.Owned) (hopen : r.closed = false) (notif : Notification) :
    Undisturbed r (r.deliver f id notif) := by
  unfold Router.deliver
  cases href : get? (r.box f).queues id with
  | some ref =>
    exact undisturbed_modifyQueue ho ((Router.refOf_scope r f id).trans href) (.inr hopen)
      (fun _ _ => NotificationQueue.owner_push)
  | none => cases f <;> exact undisturbed_of_heap rfl rfl rfl rfl

theorem undisturbed_route (ho : r.Owned) (hopen : r.closed = false) (notif : Notification) :
    Undisturbed r (r.route parse notif).2 := by
  have hrouted := (Router.route_open parse hopen notif).2
  generalize (r.route parse notif).2 = r' at hrouted ⊢
  cases hrouted with
  | toLogin | toTurn => exact undisturbed_deliver ho hopen notif
  | toProcess hlogin href =>
    exact undisturbed_modifyQueue (s := .process) ho href (.inl nofun)
      (fun _ _ => NotificationQueue.owner_push)
  | toGlobal => exact undisturbed_of_heap rfl rfl rfl rfl

theorem undisturbed_registerLogin : Undisturbed r (r.registerLogin id).2 := by
  unfold Router.registerLogin Router.registerIn
  split
  · exact .refl r
  split
  · exact .refl r
  split
  · exact .refl r
  split
  · exact .refl r
  · exact undisturbed_of_append rfl rfl rfl rfl

theorem undisturbed_registerProcess : Undisturbed r (r.registerProcess id).2 := by
  unfold Router.registerProcess
  split
  · exact .refl r
  split
  · exact .refl r
  split
  · exact .refl r
  · exact undisturbed_of_append rfl rfl rfl rfl

section

variable (ho : r.Owned)
include ho

theorem undisturbed_unregisterProcess : Undisturbed r (r.unregisterProcess id) := by
  unfold Router.unregisterProcess
  split
  · exact .refl r
  split
  · exact .refl r
  rename_i ref href
  have hclose : Undisturbed r (r.modifyQueue ref
      (fun q => q.close (some (.text (ascii "process consumer closed for " ++ id))))) :=
    undisturbed_modifyQueue (s := .process) ho href (.inl (by decide))
      (fun _ _ => NotificationQueue.owner_close)
  exact ⟨rfl, rfl, rfl, hclose.cells⟩

/-- **No call but those of turn consumers touches their queues in a closed router.** -/
theorem undisturbed_apply {op : Op} (hop : ofTurnConsumer op = false) : Undisturbed r (r.apply parse op).2 := by
  cases op with
  | route notif =>
    cases hclosed : r.closed with
    | false => exact undisturbed_route ho hclosed notif
    | true =>
      simp only [Router.apply, Router.route, Router.routeLogin, hclosed, if_true]
      split <;> exact .refl r
  | nextGlobal =>
    simp only [Router.apply, Router.nextGlobal]
    split
    · exact .refl r
    split
    · exact .refl r
    · exact undisturbed_of_heap rfl rfl rfl rfl
  | register f id =>
    cases f with
    | turn => cases hop
    | login => exact undisturbed_registerLogin
  | next f id =>
    cases f with
    | turn => cases hop
    | login =>
      exact undisturbed_finishNext (s := .login) ho (by decide)
        (fun ref hfound => (Router.lookup_inr hfound).2)
  | unregister f id =>
    cases f with
    | turn => cases hop
    | login =>
      simp only [Router.apply, Router.unregisterLogin, Router.unregisterIn]
      split
      · exact .refl r
      · exact undisturbed_of_heap rfl rfl rfl rfl
  | clear f id =>
    cases f with
    | turn =>
      simp only [Router.apply, Router.clearPending]
      split
      · exact .refl r
      · exact undisturbed_of_heap rfl rfl rfl rfl
    | login =>
      simp only [Router.apply, Router.clearLoginPending]
      split
      · exact .refl r
      · exact undisturbed_of_heap rfl rfl rfl rfl
  | registerProcess p => exact undisturbed_registerProcess
  | nextProcess p =>
    exact undisturbed_finishNext (s := .process) ho (by decide)
      (fun ref hfound => Router.lookupProcess_inr hfound)
  | unregisterProcess p => exact undisturbed_unregisterProcess ho

theorem owned_route (notif : Notification) : (r.route parse notif).2.Owned := by
  cases hclosed : r.closed with
  | true =>
    simp only [Router.route, Router.routeLogin, hclosed, if_true]
    split <;> exact ho
  | false =>
    have hrouted := (Router.route_open parse hclosed notif).2
    generalize (r.route parse notif).2 = r' at hrouted ⊢
    cases hrouted with
    | toLogin | toTurn => exact (Router.deliver_view ho notif).1.owned
    | toProcess => exact Router.owned_modifyQueue ho (fun _ _ => NotificationQueue.owner_push)
    | toGlobal => exact (Router.frames_global ho _ none).owned

theorem owned_registerIn : (r.registerIn f id).2.Owned := by
  cases hclosed : r.closed with
  | false => exact (Router.registerIn_view ho hclosed).2.1.owned
  | true =>
    simp only [Router.registerIn, hclosed, if_true]
    split <;> exact ho

theorem owned_finishNext : (r.finishNext (r.lookup f id)).2.Owned := by
  cases hclosed : r.closed with
  | false => exact (Router.finishNext_view ho hclosed).2.1.owned
  | true =>
    simp only [Router.lookup, hclosed, if_true]
    exact ho

theorem owned_apply (op : Op) : (r.apply parse op).2.Owned := by
  cases op with
  | route notif => exact owned_route ho notif
  | nextGlobal => exact (Router.nextGlobal_frames ho none).owned
  | register f id => cases f <;> exact owned_registerIn ho
  | next f id => cases f <;> exact owned_finishNext ho
  | unregister f id => cases f <;> exact (Router.unregisterIn_view ho).1.owned
  | clear f id =>
    cases f with
    | turn => exact (Router.clearPending_view ho).1.owned
    | login => exact (Router.clearLoginPending_view ho).1.owned
  | registerProcess p => exact (Router.registerProcess_frames ho none).owned
  | nextProcess p => exact (Router.nextProcess_frames ho none).owned
  | unregisterProcess p => exact (Router.unregisterProcess_frames ho none).owned

end

end

/-! ## The invariant -/

/-- What is left in the queue a call stands at. -/
def held (r : Router) (c : Consumer) : List Notification :=
  ((c.place.ref?.bind (fun ref => r.heap[ref]?)).map NotificationQueue.contents).getD []

/-- A consumer that is owed `xs`: what it has been given and what is left for its call make them up. -/
structure Settled (r : Router) (c : Consumer) (xs : List Notification) : Prop where
  closed : r.closed = true
  kept : ∀ e ∈ r.err, ∀ before after : List Result,
    c.results = before ++ .failed e :: after → notifications before = xs
  rest : notifications c.results ++ held r c = xs
  last : ∀ ref q, c.place.ref? = some ref → r.heap[ref]? = some q →
    q.contents = [] ∨ q.contents.length = 1 ∧ q.dropped = 0

/-- A call stands at the queue of its turn. -/
structure Seated (r : Router) (c : Consumer) (ref : Nat) : Prop where
  registered : c.registered = true
  cell : ∃ q, r.heap[ref]? = some q ∧ q.owner = (.turn, c.turnID)
  mapped : r.closed = false → get? r.turns.queues c.turnID = some ref

structure Follows (r : Router) (c : Consumer) : Prop where
  mapped : c.registered = true → r.closed = false → ∃ ref, get? r.turns.queues c.turnID = some ref
  inside : ∀ ref, c.place.ref? = some ref → Seated r c ref
  owed : ∀ xs, c.owed = some xs → Settled r c xs

/-- A turn has one registered consumer. -/
def Distinct (consumers : List Consumer) : Prop :=
  AllAt consumers fun i c => AllAt consumers fun j d =>
    c.registered = true → d.registered = true → c.turnID = d.turnID → i = j

structure Inv (s : State) : Prop where
  owned : s.router.Owned
  err : s.router.closed = true → s.router.err ≠ none
  consumers : AllAt s.consumers fun _ c => Follows s.router c
  distinct : Distinct s.consumers

theorem inv_new : Inv State.new where
  owned := Router.owned_new
  err := nofun
  consumers := AllAt.nil
  distinct := AllAt.nil

/-! ## Consumers that do not move -/

/-- For this consumer the router has not changed, but for tokens and errors. -/
structure Same (r r' : Router) (c : Consumer) : Prop where
  closed : r'.closed = r.closed
  err : r'.err = r.err
  queues : c.registered = true → r.closed = false →
    get? r'.turns.queues c.turnID = get? r.turns.queues c.turnID
  cell : ∀ ref q, c.place.ref? = some ref → r.heap[ref]? = some q → q.owner = (.turn, c.turnID) →
    ∃ q', r'.heap[ref]? = some q' ∧ q'.owner = q.owner ∧
      (r.closed = true → q'.contents = q.contents ∧ q'.dropped = q.dropped)

section

variable {r r' : Router} {c : Consumer} {ref : Nat}

theorem Follows.same (h : Follows r c) (hs : Same r r' c) : Follows r' c where
  mapped hreg hopen := by
    have hopen : r.closed = false := hs.closed ▸ hopen
    rw [hs.queues hreg hopen]
    exact h.mapped hreg hopen
  inside ref href := by
    obtain ⟨hreg, ⟨q, hq, hown⟩, hmapped⟩ := h.inside ref href
    obtain ⟨q', hq', hown', -⟩ := hs.cell ref q href hq hown
    refine ⟨hreg, ⟨q', hq', hown'.trans hown⟩, fun hopen => ?_⟩
    have hopen : r.closed = false := hs.closed ▸ hopen
    rw [hs.queues hreg hopen]
    exact hmapped hopen
  owed xs hxs := by
    obtain ⟨hclosed, hkept, hrest, hlast⟩ := h.owed xs hxs
    refine ⟨hs.closed.trans hclosed, ?_, ?_, ?_⟩
    · rw [hs.err]
      exact hkept
    · -- the call, if there is one, stands at a queue with the same contents
      have hheld : held r' c = held r c := by
        unfold held
        cases href : c.place.ref? with
        | none => rfl
        | some ref =>
          obtain ⟨-, ⟨q, hq, hown⟩, -⟩ := h.inside ref href
          obtain ⟨q', hq', -, hsame⟩ := hs.cell ref q href hq hown
          simp only [Option.bind_some, hq, hq', Option.map_some, (hsame hclosed).1]
      rw [hheld]
      exact hrest
    · intro ref q' href hq'
      obtain ⟨-, ⟨q, hq, hown⟩, -⟩ := h.inside ref href
      obtain ⟨q'', hq'', -, hsame⟩ := hs.cell ref q href hq hown
      cases hq'.symm.trans hq''
      rw [(hsame hclosed).1, (hsame hclosed).2]
      exact hlast ref q href hq

theorem Undisturbed.same (h : Undisturbed r r') (c : Consumer) : Same r r' c where
  closed := h.closed
  err := h.err
  queues _ _ := by rw [h.queues]
  cell ref q _ hq hown := by
    obtain ⟨q', hq', hown', hsame⟩ := h.cells ref q hq
    refine ⟨q', hq', hown', fun hclosed => ?_⟩
    rw [hsame hclosed (Prod.mk.inj hown).1]
    exact ⟨rfl, rfl⟩

/-- Nothing but queues this call does not stand at. -/
theorem same_modifyQueue_ne {op : NotificationQueue → NotificationQueue} (h : c.place.ref? ≠ some ref) :
    Same r (r.modifyQueue ref op) c where
  closed := rfl
  err := rfl
  queues _ _ := rfl
  cell ref' q href hq _ := by
    have hne : ref ≠ ref' := by
      rintro rfl
      exact h href
    refine ⟨q, ?_, rfl, fun _ => ⟨rfl, rfl⟩⟩
    show (r.heap.modify ref op)[ref']? = some q
    rw [getElem?_modify_ne _ _ hne]
    exact hq

/-- Nothing but a token or an error. -/
theorem same_modifyQueue {op : NotificationQueue → NotificationQueue}
    (hop : ∀ q, (op q).owner = q.owner ∧ (op q).contents = q.contents ∧ (op q).dropped = q.dropped) :
    Same r (r.modifyQueue ref op) c where
  closed := rfl
  err := rfl
  queues _ _ := rfl
  cell ref' q href hq _ := by
    show ∃ q', (r.heap.modify ref op)[ref']? = some q' ∧ _
    by_cases h : ref = ref'
    · subst h
      rw [getElem?_modify_eq, hq]
      exact ⟨op q, rfl, (hop q).1, fun _ => (hop q).2⟩
    · rw [getElem?_modify_ne _ _ h]
      exact ⟨q, hq, rfl, fun _ => ⟨rfl, rfl⟩⟩

end

/-! ## Consumers that move -/

section

variable {r r' : Router} {c : Consumer} {ref : Nat} {xs : List Notification}

theorem notifications_append (results results' : List Result) :
    notifications (results ++ results') = notifications results ++ notifications results' :=
  filterMap_append

/-- An entry of a list with one more at its end is that one or was there before. -/
theorem split_concat {l before after : List Result} {x y : Result} (h : l ++ [x] = before ++ y :: after) :
    (before = l ∧ y = x) ∨ ∃ after', l = before ++ y :: after' := by
  rcases eq_nil_or_concat after with rfl | ⟨after', z, rfl⟩
  · left
    obtain ⟨hl, hx⟩ := append_inj' h rfl
    exact ⟨hl.symm, (List.cons.inj hx).1.symm⟩
  · right
    have h : l ++ [x] = (before ++ y :: after') ++ [z] := by
      rw [h]
      simp
    exact ⟨after', (append_inj' h rfl).1⟩

/-- A call returns: with an error only when nothing is left for it. -/
theorem Follows.returns {result : Result} (h : Follows r c)
    (hlast : ∀ xs, c.owed = some xs → notifications (c.results ++ [result]) = xs)
    (hfail : ∀ xs e, c.owed = some xs → result = .failed e → held r c = []) : Follows r (c.returns result) where
  mapped := h.mapped
  inside := nofun
  owed xs hxs := by
    obtain ⟨hclosed, hkept, hrest, -⟩ := h.owed xs hxs
    refine ⟨hclosed, ?_, ?_, nofun⟩
    · intro e he before after hsplit
      rcases split_concat hsplit with ⟨rfl, heq⟩ | ⟨after', hsplit⟩
      · rw [← hrest, hfail xs e hxs heq.symm, append_nil]
      · exact hkept e he before after' hsplit
    · show notifications (c.results ++ [result]) ++ [] = xs
      rw [append_nil]
      exact hlast xs hxs

/-- An error, when nothing is left for the call. -/
theorem Follows.fails (h : Follows r c) (e : RouterError) (hheld : ∀ xs, c.owed = some xs → held r c = []) :
    Follows r (c.returns (.failed e)) := by
  refine h.returns (fun xs hxs => ?_) (fun xs _ hxs _ => hheld xs hxs)
  rw [notifications_append]
  show notifications c.results ++ [] = xs
  have hrest := (h.owed xs hxs).rest
  rwa [hheld xs hxs] at hrest

/-- A call moves on at the queue it stands at. -/
theorem Follows.goTo {place : Place} (h : Follows r c) (hp : place.ref? = c.place.ref?) :
    Follows r (c.goTo place) where
  mapped := h.mapped
  inside ref href := by
    obtain ⟨hreg, hcell, hmapped⟩ := h.inside ref (hp ▸ href)
    exact ⟨hreg, hcell, hmapped⟩
  owed xs hxs := by
    obtain ⟨hclosed, hkept, hrest, hlast⟩ := h.owed xs hxs
    have hheld : held r (c.goTo place) = held r c := by
      unfold held
      rw [← hp]
      rfl
    refine ⟨hclosed, hkept, ?_, fun ref q href hq => hlast ref q (hp ▸ href) hq⟩
    rw [hheld]
    exact hrest

/-- The critical section of the queue. -/
theorem Follows.take {q : NotificationQueue} (h : Follows r c) (hplace : c.place = .locking ref)
    (hq : r.heap[ref]? = some q) :
    Follows (r.modifyQueue ref (fun _ => q.take.2)) (c.afterTurn ref q.take.1) := by
  have href : c.place.ref? = some ref := by
    rw [hplace]
    rfl
  have hheld : held r c = q.contents := by
    unfold held
    rw [href, Option.bind_some, hq]
    rfl
  by_cases hd : q.dropped = 0
  · cases hc : q.contents with
    | nil =>
      rw [NotificationQueue.take_nil hd hc]
      cases q.err with
      | some e =>
        exact (h.fails e (fun _ _ => hheld.trans hc)).same (same_modifyQueue_ne nofun)
      | none =>
        show Follows (r.modifyQueue ref (fun _ => q)) _
        rw [Router.modifyQueue_self hq]
        exact h.goTo href.symm
    | cons notif rest =>
      obtain ⟨q₁, htake, -⟩ := NotificationQueue.take_cons hd hc
      rw [htake]
      refine (h.returns (fun xs hxs => ?_) (fun _ _ _ he => ?_)).same (same_modifyQueue_ne nofun)
      · -- it was the last one
        obtain ⟨-, -, hrest, hlast⟩ := h.owed xs hxs
        have hone : rest = [] := by
          rcases hlast ref q href hq with hnil | ⟨hlen, -⟩
          · cases hc.symm.trans hnil
          · rw [hc] at hlen
            exact length_eq_zero_iff.mp (Nat.succ.inj hlen)
        rw [notifications_append, ← hrest, hheld, hc, hone]
        rfl
      · cases he
  · rw [NotificationQueue.take_dropped hd]
    refine (h.fails _ (fun xs hxs => ?_)).same (same_modifyQueue_ne nofun)
    -- with a drop to report the queue is empty
    rcases (h.owed xs hxs).last ref q href hq with hnil | ⟨-, hzero⟩
    · exact hheld.trans hnil
    · exact absurd hzero hd

end

/-! ## Every step keeps the invariant -/

theorem Distinct.modify {l : List Consumer} {i : Nat} {f : Consumer → Consumer} (h : Distinct l)
    (hf : ∀ c, (f c).turnID = c.turnID ∧ ((f c).registered = true → c.registered = true)) :
    Distinct (l.modify i f) := by
  have hback : ∀ (k : Nat) (c : Consumer), (l.modify i f)[k]? = some c → ∃ c₀, l[k]? = some c₀ ∧
      c.turnID = c₀.turnID ∧ (c.registered = true → c₀.registered = true) := by
    intro k c hc
    by_cases hk : i = k
    · subst hk
      rw [getElem?_modify_eq] at hc
      obtain ⟨c₀, hc₀, rfl⟩ := Option.map_eq_some_iff.mp hc
      exact ⟨c₀, hc₀, hf c₀⟩
    · rw [getElem?_modify_ne _ _ hk] at hc
      exact ⟨c, hc, rfl, id⟩
  intro j c hc k d hd hcr hdr heq
  obtain ⟨c₀, hc₀, hct, hcr₀⟩ := hback j c hc
  obtain ⟨d₀, hd₀, hdt, hdr₀⟩ := hback k d hd
  exact h j c₀ hc₀ k d₀ hd₀ (hcr₀ hcr) (hdr₀ hdr) (hct.symm.trans (heq.trans hdt))

section

variable {parse} {s s' : State} {i : Nat} {r' : Router} {c : Consumer} {f : Consumer → Consumer}

section

variable (hi : Inv s)
include hi

theorem Inv.moves (ho : r'.Owned) (hc : r'.closed = s.router.closed) (he : r'.err = s.router.err)
    (hself : ∀ c, s.consumers[i]? = some c → Follows r' (f c))
    (hother : ∀ j d, j ≠ i → s.consumers[j]? = some d → Same s.router r' d)
    (hdistinct : Distinct (s.consumers.modify i f)) : Inv (s.moves i r' f) where
  owned := ho
  err := by
    intro hclosed
    show r'.err ≠ none
    rw [he]
    exact hi.err (hc ▸ hclosed)
  consumers := AllAt.modify hself
    (fun j d hj hd => (hi.consumers j d hd).same (hother j d hj hd))
  distinct := hdistinct

/-- A step of the router alone. -/
theorem Inv.router (ho : r'.Owned) (hsame : ∀ c, Same s.router r' c) (toClose : List (Nat × Option RouterError))
    : Inv { router := r', toClose := toClose, consumers := s.consumers } where
  owned := ho
  err := by
    intro hclosed
    have hs := hsame ⟨[], false, .outside, [], none⟩
    show r'.err ≠ none
    rw [hs.err]
    exact hi.err (hs.closed ▸ hclosed)
  consumers j d hd := (hi.consumers j d hd).same (hsame d)
  distinct := hi.distinct

/-- Two calls do not stand at one queue. -/
theorem Inv.ref_ne {j : Nat} {d : Consumer} {ref : Nat} (hc : s.consumers[i]? = some c)
    (href : c.place.ref? = some ref) (hd : s.consumers[j]? = some d) (hj : j ≠ i) :
    d.place.ref? ≠ some ref := by
  intro hdref
  obtain ⟨hcr, ⟨q, hq, hown⟩, -⟩ := (hi.consumers i c hc).inside ref href
  obtain ⟨hdr, ⟨q', hq', hown'⟩, -⟩ := (hi.consumers j d hd).inside ref hdref
  cases hq.symm.trans hq'
  exact hj (hi.distinct j d hd i c hc hdr hcr (Prod.mk.inj (hown'.symm.trans hown)).2)

theorem inv_start (turnID : Bytes) :
    Inv { s with consumers := s.consumers ++ [⟨turnID, false, .outside, [], none⟩] } where
  owned := hi.owned
  err := hi.err
  consumers := AllAt.concat hi.consumers ⟨nofun, nofun, nofun⟩
  distinct := by
    refine AllAt.concat (fun j d hd => AllAt.concat (hi.distinct j d hd) ?_) ?_
    · intro _ hreg
      cases hreg
    · intro k d hd hreg
      cases hreg

section

variable (hc : s.consumers[i]? = some c)
include hc

theorem distinct_register
    (hnobody : ∀ (j : Nat) (d : Consumer), s.consumers[j]? = some d → d.registered = true → d.turnID ≠ c.turnID)
    : Distinct (s.consumers.modify i (fun c => { c with registered := true })) := by
  have hother : ∀ (k : Nat) (d : Consumer), k ≠ i →
      (s.consumers.modify i (fun c => { c with registered := true }))[k]? = some d →
      s.consumers[k]? = some d := by
    intro k d hk hd
    rwa [getElem?_modify_ne _ _ (Ne.symm hk)] at hd
  have hself : ∀ d : Consumer,
      (s.consumers.modify i (fun c => { c with registered := true }))[i]? = some d →
      d.turnID = c.turnID := by
    intro d hd
    rw [getElem?_modify_eq, hc] at hd
    cases hd
    rfl
  intro j d hd k e he hdr her heq
  by_cases hj : j = i
  · by_cases hk : k = i
    · rw [hj, hk]
    · rw [hj] at hd
      exact absurd (heq.symm.trans (hself d hd)) (hnobody k e (hother k e hk he) her)
  · by_cases hk : k = i
    · rw [hk] at he
      exact absurd (heq.trans (hself e he)) (hnobody j d (hother j d hj hd) hdr)
    · exact hi.distinct j d (hother j d hj hd) k e (hother k e hk he) hdr her heq

theorem inv_register (hcr : c.registered = false) (hreg : s.router.register c.turnID = (none, r')) :
    Inv (s.moves i r' (fun c => { c with registered := true })) := by
  have hopen : s.router.closed = false := by
    cases hclosed : s.router.closed with
    | false => rfl
    | true =>
      -- a closed router answers with its error
      simp only [Router.register, Router.registerIn, hclosed, if_true] at hreg
      split at hreg
      · cases hreg
      · exact absurd (Prod.mk.inj hreg).1 (hi.err hclosed)
  obtain ⟨hfree, hnew, hkeep, ⟨q, hheap⟩, hclosed, herr⟩ := Router.registerIn_none hopen hreg
  have hnobody : ∀ (j : Nat) (d : Consumer), s.consumers[j]? = some d → d.registered = true →
      d.turnID ≠ c.turnID := by
    intro j d hd hdr heq
    obtain ⟨ref, href⟩ := (hi.consumers j d hd).mapped hdr hopen
    cases (heq ▸ href).symm.trans hfree
  have hown : r'.Owned := by
    have hown : (s.router.registerIn .turn c.turnID).2.Owned := owned_registerIn hi.owned
    rwa [show s.router.registerIn .turn c.turnID = (none, r') from hreg] at hown
  refine hi.moves hown hclosed herr ?_ ?_ (distinct_register hi hc hnobody)
  · intro c' hc'
    cases hc.symm.trans hc'
    have hf := hi.consumers i c hc
    refine ⟨fun _ _ => ⟨_, hnew⟩, fun ref href => ?_, fun xs hxs => ?_⟩
    · cases hcr.symm.trans (hf.inside ref href).registered
    · cases hopen.symm.trans (hf.owed xs hxs).closed
  · intro j d hj hd
    refine ⟨hclosed, herr, fun hdr _ => hkeep d.turnID (hnobody j d hd hdr), ?_⟩
    intro ref q' _ hq' _
    refine ⟨q', ?_, rfl, fun _ => ⟨rfl, rfl⟩⟩
    rw [hheap, getElem?_append_left (List.getElem?_eq_some_iff.mp hq').1]
    exact hq'

theorem inv_unregister (hcr : c.registered = true) (hplace : c.place = .outside) :
    Inv (s.moves i (s.router.unregister c.turnID) (fun c => { c with registered := false })) := by
  have hsame : ∀ d : Consumer, (d.registered = true → d.turnID ≠ c.turnID) →
      Same s.router (s.router.unregister c.turnID) d := by
    intro d hd
    unfold Router.unregister Router.unregisterIn
    split
    · exact (Undisturbed.refl _).same d
    · exact ⟨rfl, rfl, fun hdr _ => get?_erase_ne (hd hdr),
        fun _ q _ hq _ => ⟨q, hq, rfl, fun _ => ⟨rfl, rfl⟩⟩⟩
  have hs := hsame { c with registered := false } nofun
  refine hi.moves (Router.unregisterIn_view hi.owned).1.owned hs.closed hs.err ?_ ?_
    (hi.distinct.modify (fun c => ⟨rfl, nofun⟩))
  · intro c' hc'
    cases hc.symm.trans hc'
    have hf := hi.consumers i c hc
    refine Follows.same ⟨nofun, fun ref href => ?_, fun xs hxs => ?_⟩ hs
    · cases (congrArg Place.ref? hplace).symm.trans href
    · obtain ⟨hclosed, hkept, hrest, hlast⟩ := hf.owed xs hxs
      exact ⟨hclosed, hkept, hrest, hlast⟩
  · intro j d hj hd
    exact hsame d (fun hdr heq => hj (hi.distinct j d hd i c hc hdr hcr heq))

theorem inv_call_fails (hplace : c.place = .outside) {result : Result}
    (hlook : s.router.lookup .turn c.turnID = .inl result) : Inv (s.moves i s.router (.returns result)) := by
  obtain ⟨e, rfl⟩ : ∃ e, result = .failed e := by
    unfold Router.lookup at hlook
    split at hlook
    · rename_i hclosed
      obtain ⟨e, he⟩ := Option.ne_none_iff_exists'.mp (hi.err hclosed)
      rw [he] at hlook
      cases hlook
      exact ⟨e, rfl⟩
    · split at hlook
      · cases hlook
        exact ⟨_, rfl⟩
      · cases hlook
  refine hi.moves hi.owned rfl rfl ?_ (fun _ d _ _ => (Undisturbed.refl _).same d)
    (hi.distinct.modify (fun c => ⟨rfl, fun h => h⟩))
  intro c' hc'
  cases hc.symm.trans hc'
  refine (hi.consumers i c hc).fails e (fun _ _ => ?_)
  unfold held
  rw [hplace]
  rfl

theorem inv_call (hcr : c.registered = true) {ref : Nat} (hlook : s.router.lookup .turn c.turnID = .inr ref) :
    Inv (s.moves i s.router (.goTo (.locking ref))) := by
  obtain ⟨hopen, href⟩ := Router.lookup_inr hlook
  refine hi.moves hi.owned rfl rfl ?_ (fun _ d _ _ => (Undisturbed.refl _).same d)
    (hi.distinct.modify (fun c => ⟨rfl, fun h => h⟩))
  intro c' hc'
  cases hc.symm.trans hc'
  have hf := hi.consumers i c hc
  refine ⟨hf.mapped, fun ref' href' => ?_, fun xs hxs => ?_⟩
  · cases href'
    exact ⟨hcr, hi.owned .turn c.turnID ref href, fun _ => href⟩
  · cases hopen.symm.trans (hf.owed xs hxs).closed

theorem inv_lock {ref : Nat} {q : NotificationQueue} (hplace : c.place = .locking ref)
    (hq : s.router.heap[ref]? = some q) :
    Inv (s.moves i (s.router.modifyQueue ref (fun _ => q.take.2)) (.afterTurn ref q.take.1)) := by
  have hown : (s.router.modifyQueue ref (fun _ => q.take.2)).Owned := by
    refine Router.owned_modifyQueue hi.owned (fun q' hq' => ?_)
    cases hq.symm.trans hq'
    exact NotificationQueue.owner_take
  refine hi.moves hown rfl rfl ?_ ?_ (hi.distinct.modify (fun c => ?_))
  · intro c' hc'
    cases hc.symm.trans hc'
    exact (hi.consumers i c hc).take hplace hq
  · intro j d hj hd
    exact same_modifyQueue_ne (hi.ref_ne hc (congrArg Place.ref? hplace) hd hj)
  · cases q.take.1 <;> exact ⟨rfl, fun h => h⟩

theorem inv_wake {ref : Nat} (hplace : c.place = .waiting ref) :
    Inv (s.moves i (s.router.modifyQueue ref (fun q => { q with notify := false }))
      (.goTo (.locking ref))) := by
  have hsame : ∀ d : Consumer,
      Same s.router (s.router.modifyQueue ref (fun q => { q with notify := false })) d :=
    fun d => same_modifyQueue (fun q => ⟨rfl, rfl, rfl⟩)
  refine hi.moves (Router.owned_modifyQueue hi.owned (fun _ _ => rfl)) rfl rfl ?_
    (fun _ d _ _ => hsame d) (hi.distinct.modify (fun c => ⟨rfl, fun h => h⟩))
  intro c' hc'
  cases hc.symm.trans hc'
  exact ((hi.consumers i c hc).same (hsame c)).goTo (congrArg Place.ref? hplace).symm

end

theorem inv_contextDone (hok : Orderly s (.contextDone i)) (hc : s.consumers[i]? = some c) {ref : Nat}
    (hplace : c.place = .waiting ref) (e : RouterError) : Inv (s.moves i s.router (.returns (.failed e))) := by
  refine hi.moves hi.owned rfl rfl ?_ (fun _ d _ _ => (Undisturbed.refl _).same d)
    (hi.distinct.modify (fun c => ⟨rfl, fun h => h⟩))
  intro c' hc'
  cases hc.symm.trans hc'
  have hf := hi.consumers i c hc
  refine hf.fails e (fun xs hxs => ?_)
  have href : c.place.ref? = some ref := congrArg Place.ref? hplace
  obtain ⟨-, ⟨q, hq, -⟩, -⟩ := hf.inside ref href
  have hnil := hok (hf.owed xs hxs).closed c hc ref href q hq
  unfold held
  rw [href, Option.bind_some, hq, Option.map_some, hnil]
  rfl

end

/-- A consumer when the router is closed. -/
theorem follows_close {e : RouterError} (hf : Follows s.router c) (hopen : s.router.closed = false) (hok :
    c.registered = true → ∀ q ∈ (s.router.view .turn c.turnID).queue, q.contents = [] ∨ q.contents.length = 1 ∧
    q.dropped = 0 ∧ c.place ≠ .outside) :
    Follows (s.router.closeLocked (some e)) { c with results := [], owed := c.queued s.router } where
  mapped _ hopen := nomatch hopen
  inside ref href := by
    obtain ⟨hreg, hcell, -⟩ := hf.inside ref href
    exact ⟨hreg, hcell, nofun⟩
  owed xs hxs := by
    have hxs : c.queued s.router = some xs := hxs
    unfold Consumer.queued at hxs
    split at hxs
    · rename_i hreg
      obtain ⟨q, hview, rfl⟩ := Option.map_eq_some_iff.mp hxs
      -- a call that is past the router stands at this very queue
      have hat : ∀ ref q', c.place.ref? = some ref → s.router.heap[ref]? = some q' → q' = q := by
        intro ref q' href hq'
        have hmapped := (hf.inside ref href).mapped hopen
        have hq : (s.router.view .turn c.turnID).queue = s.router.heap[ref]? := by
          show (get? s.router.turns.queues c.turnID).bind _ = _
          rw [hmapped]
          rfl
        exact Option.some.inj (hq'.symm.trans (hq.symm.trans hview))
      refine ⟨rfl, ?_, ?_, ?_⟩
      · intro e' _ before after hsplit
        have hsplit : ([] : List Result) = before ++ .failed e' :: after := hsplit
        cases before <;> cases hsplit
      · show held s.router c = q.contents
        unfold held
        cases hplace : c.place.ref? with
        | none =>
          have hout : c.place = .outside := by
            cases hp : c.place with
            | outside => rfl
            | locking ref | waiting ref => rw [hp] at hplace; cases hplace
          rcases hok hreg q hview with hnil | ⟨-, -, hin⟩
          · exact hnil.symm
          · exact absurd hout hin
        | some ref =>
          obtain ⟨-, ⟨q', hq', -⟩, -⟩ := hf.inside ref hplace
          cases hat ref q' hplace hq'
          rw [Option.bind_some, hq']
          rfl
      · intro ref q' href hq'
        cases hat ref q' href hq'
        exact (hok hreg q hview).imp id (fun h => ⟨h.1, h.2.1⟩)
    · cases hxs

theorem inv_close (hi : Inv s) {e : RouterError} (hok : Orderly s (.close e))
    (hopen : s.router.closed = false) :
    Inv { router := s.router.closeLocked (some e)
          toClose := s.router.toClose (some e)
          consumers := s.consumers.map (fun c => { c with results := [], owed := c.queued s.router }) } where
  owned := by
    intro scope id ref href
    cases scope <;> cases href
  err := nofun
  consumers := by
    intro j d hd
    rw [getElem?_map] at hd
    obtain ⟨c, hc, rfl⟩ := Option.map_eq_some_iff.mp hd
    exact follows_close (hi.consumers j c hc) hopen (hok hopen c (mem_of_getElem? hc))
  distinct := by
    intro j c' hc' k d' hd'
    rw [getElem?_map] at hc' hd'
    obtain ⟨c, hc, rfl⟩ := Option.map_eq_some_iff.mp hc'
    obtain ⟨d, hd, rfl⟩ := Option.map_eq_some_iff.mp hd'
    exact hi.distinct j c hc k d hd

/-- **The invariant is kept by every orderly step.** -/
theorem inv_step (s : State) (a : Action) (s' : State) (hi : Inv s) (hok : Orderly s a)
    (hstep : step parse s a = some s') : Inv s' := by
  cases a
  all_goals simp only [step] at hstep
  case op op =>
    split at hstep
    · cases hstep
    rename_i hop
    cases hstep
    have hu : Undisturbed s.router (s.router.apply parse op).2 :=
      undisturbed_apply hi.owned (by simpa using hop)
    exact hi.router (owned_apply hi.owned op) hu.same s.toClose
  case start turnID =>
    cases hstep
    exact inv_start hi turnID
  case register i =>
    split at hstep
    · rename_i c hc
      split at hstep
      · cases hstep
      rename_i hcr
      split at hstep
      · rename_i r' hreg
        cases hstep
        exact inv_register hi hc (by simpa using hcr) hreg
      · rename_i e r' hreg
        obtain rfl := Router.registerIn_some hreg
        cases hstep
        exact hi
    · cases hstep
  case unregister i =>
    split at hstep
    · rename_i c hc
      split at hstep
      · rename_i hcond
        cases hstep
        exact inv_unregister hi hc hcond.1 hcond.2
      · cases hstep
    · cases hstep
  case call i =>
    split at hstep
    · rename_i c hc
      split at hstep
      · rename_i hcond
        split at hstep
        · rename_i result hlook
          cases hstep
          exact inv_call_fails hi hc hcond.2 hlook
        · rename_i ref hlook
          cases hstep
          exact inv_call hi hc hcond.1 hlook
      · cases hstep
    · cases hstep
  case lock i =>
    split at hstep
    · rename_i c hc
      split at hstep
      · rename_i ref hplace
        split at hstep
        · rename_i q hq
          cases hstep
          exact inv_lock hi hc hplace hq
        · cases hstep
      · cases hstep
    · cases hstep
  case wake i =>
    split at hstep
    · rename_i c hc
      split at hstep
      · rename_i ref hplace
        split at hstep
        · split at hstep
          · cases hstep
            exact inv_wake hi hc hplace
          · cases hstep
        · cases hstep
      · cases hstep
    · cases hstep
  case contextDone i =>
    split at hstep
    · rename_i c hc
      split at hstep
      · rename_i ref hplace
        cases hstep
        exact inv_contextDone hi hok hc hplace _
      · cases hstep
    · cases hstep
  case close e =>
    split at hstep
    · cases hstep
      exact hi
    rename_i hopen
    cases hstep
    exact inv_close hi hok (by simpa using hopen)
  case closeQueue k =>
    split at hstep
    · rename_i ref e hk
      cases hstep
      exact hi.router (Router.owned_modifyQueue hi.owned (fun _ _ => NotificationQueue.owner_close))
        (fun c => same_modifyQueue (fun q => ⟨NotificationQueue.owner_close,
          NotificationQueue.contents_close, NotificationQueue.dropped_close⟩)) _
    · cases hstep

end

/-! ## The result -/

theorem Inv.kept {s : State} (hi : Inv s) : Kept s := by
  intro c hc xs hxs
  obtain ⟨i, hi'⟩ := mem_iff_getElem?.mp hc
  exact ((hi.consumers i c hi').owed xs hxs).kept

/-- **A router that is closed in an orderly way loses nothing.** -/
theorem kept_of_admits {parse : Bytes → Option Json.Value} {as : List Action} {s : State}
    (has : (machine parse).Admits Orderly State.new as) (hrun : (machine parse).run as = some s) : Kept s :=
  (Machine.admits_invariant inv_new inv_step has hrun).kept

/-- Of the turn `t`. -/
def delta : Notification := ⟨ascii "item/agentMessage/delta", ascii "\x7b\"turnId\":\"t\"\x7d"⟩

def streamClosed : RouterError := .transportClosed (ascii "app-server notification stream closed")

/-- The notification comes, and the end of the stream, while a call is already past the router: it is
    given. -/
theorem kept_past_router :
    ∃ s, (machine (fun _ => none)).run [.start (ascii "t"), .register 0, .call 0, .op (.route delta),
        .close streamClosed, .lock 0, .call 0] = some s ∧
      (∃ c ∈ s.consumers, c.results = [.notification delta, .failed streamClosed]) ∧ Kept s := by
  refine Machine.exists_run_and (by decide +kernel) ?_
  exact Machine.exists_run (by decide +kernel) (fun _ hrun => kept_of_admits (by decide +kernel) hrun)

/-- **The end of the stream loses a notification.** It has been routed to the queue of the consumer; the router
    is closed, and the consumer's next call returns the error without looking at the queue. -/
theorem close_loses_notification :
    ∃ s, (machine (fun _ => none)).run [.start (ascii "t"), .register 0, .op (.route delta),
        .close streamClosed, .call 0] = some s ∧
      (∃ c ∈ s.consumers, c.owed = some [delta] ∧ c.results = [.failed streamClosed]) ∧ ¬ Kept s := by
  have hrun : ((machine (fun _ => none)).run [.start (ascii "t"), .register 0, .op (.route delta),
      .close streamClosed, .call 0]).map (fun s => (s.consumers, s.router.err)) =
      some ([⟨ascii "t", true, .outside, [.failed streamClosed], some [delta]⟩], some streamClosed) := by
    decide +kernel
  obtain ⟨s, hs, heq⟩ := Option.map_eq_some_iff.mp hrun
  obtain ⟨hc, herr⟩ := Prod.mk.inj heq
  refine ⟨s, hs, ?_, fun hkept => ?_⟩
  · rw [hc]
    exact ⟨_, mem_singleton_self _, rfl, rfl⟩
  have := hkept ⟨ascii "t", true, .outside, [.failed streamClosed], some [delta]⟩
    (hc ▸ mem_singleton_self _) [delta] rfl streamClosed (herr ▸ rfl) [] [] rfl
  cases this

end RouterClose

end Pandaemonium.Codex
