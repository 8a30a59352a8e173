import Pandaemonium.Codex.RouterViews

/-!
# `Codex.RouterRefinement` — a router as bounded buffers

What an open router is for, seen from one turn or login: a `Mailbox`, that is a buffer of at most
`notificationQueueCapacity` notifications and a count of those that had to make room, whether or not a
consumer is there. The router keeps the two in a slice and a map until a consumer registers and in the ring
and the counter of its queue afterwards.

* `router_refines_mailbox` — over every sequence of operations, the results for an id are those of its
  mailbox, and operations on other ids do not touch it.
-/

namespace Pandaemonium.Codex

open SortedMap (get? insert erase get?_insert get?_insert_self get?_insert_ne get?_erase_self
  get?_erase_ne)

/-! ## Operations -/

/-- The calls on an open router. -/
inductive Op where
  | route (notif : Notification)
  | nextGlobal
  | register (f : Family) (id : Bytes)
  | next (f : Family) (id : Bytes)
  | unregister (f : Family) (id : Bytes)
  | clear (f : Family) (id : Bytes)
  | registerProcess (processHandle : Bytes)
  | nextProcess (processHandle : Bytes)
  | unregisterProcess (processHandle : Bytes)
deriving DecidableEq, Repr

section

variable (parse : Bytes → Option Json.Value)

def Router.apply (r : Router) : Op → Result × Router
  | .route notif => (.ofError (r.route parse notif).1, (r.route parse notif).2)
  | .nextGlobal => r.nextGlobal
  | .register .turn id => (.ofError (r.register id).1, (r.register id).2)
  | .register .login id => (.ofError (r.registerLogin id).1, (r.registerLogin id).2)
  | .next .turn id => r.next id
  | .next .login id => r.nextLogin id
  | .unregister .turn id => (.done, r.unregister id)
  | .unregister .login id => (.done, r.unregisterLogin id)
  | .clear .turn id => (.done, r.clearPending id)
  | .clear .login id => (.done, r.clearLoginPending id)
  | .registerProcess p => (.ofError (r.registerProcess p).1, (r.registerProcess p).2)
  | .nextProcess p => r.nextProcess p
  | .unregisterProcess p => (.done, r.unregisterProcess p)

/-- The notification carries this id. -/
def IsFor (f : Family) (id : Bytes) (notif : Notification) : Prop :=
  match f with
  | .turn => notificationLoginID parse notif = none ∧ notificationTurnID parse notif = id
  | .login => notificationLoginID parse notif = some id

instance (f : Family) (id : Bytes) (notif : Notification) : Decidable (IsFor parse f id notif) :=
  match f with
  | .turn => inferInstanceAs (Decidable (_ ∧ _))
  | .login => inferInstanceAs (Decidable (_ = _))

/-- The operation is one on this id. -/
def Op.concerns (f : Family) (id : Bytes) : Op → Bool
  | .route notif => decide (IsFor parse f id notif)
  | .register f' id' => decide (f' = f ∧ id' = id)
  | .next f' id' => decide (f' = f ∧ id' = id)
  | .unregister f' id' => decide (f' = f ∧ id' = id)
  | .clear f' id' => decide (f' = f ∧ id' = id)
  | _ => false

end

/-- The results of those operations that are of concern. -/
def observe {σ : Type} (step : σ → Op → Result × σ) (concerns : Op → Bool) : σ → List Op → List Result
  | _, [] => []
  | s, op :: ops =>
    (if concerns op then [(step s op).1] else []) ++ observe step concerns (step s op).2 ops

/-- The state after a sequence of operations. -/
def after {σ : Type} (step : σ → Op → Result × σ) (s : σ) (ops : List Op) : σ :=
  ops.foldl (fun s op => (step s op).2) s

/-! ## Mailboxes -/

/-- A bounded buffer with a drop counter. -/
@[ext] structure Mailbox where
  /-- a consumer is registered -/
  active : Bool
  buffer : List Notification
  dropped : UInt64
  bounded : buffer.length ≤ notificationQueueCapacity
deriving DecidableEq, Repr

namespace Mailbox

def empty : Mailbox := ⟨false, [], 0, Nat.zero_le _⟩

def push (m : Mailbox) (notif : Notification) : Mailbox where
  active := m.active
  buffer := (pushEvicting notificationQueueCapacity m.buffer notif).1
  dropped := if (pushEvicting notificationQueueCapacity m.buffer notif).2 then m.dropped + 1 else m.dropped
  bounded := length_pushEvicting (by decide) m.bounded

/-- A consumer finds buffer and counter as they are. -/
def register (f : Family) (id : Bytes) (m : Mailbox) : Result × Mailbox :=
  if id = [] then (.failed (.text f.emptyID), m)
  else if m.active then (.failed (.text (f.alreadyActive ++ id)), m)
  else (.done, { m with active := true })

/-- Without the oldest notification. -/
def pop (m : Mailbox) : Mailbox where
  active := m.active
  buffer := m.buffer.tail
  dropped := m.dropped
  bounded := by
    have := m.bounded
    rw [List.length_tail]
    omega

def next (f : Family) (id : Bytes) (m : Mailbox) : Result × Mailbox :=
  if m.active = false then (.failed (.text (f.notActive ++ id)), m)
  else if m.dropped ≠ 0 then (.failed (f.scope.dropError id m.dropped.toInt64), { m with dropped := 0 })
  else
    match m.buffer with
    | [] => (.blocked, m)
    | notif :: _ => (.notification notif, m.pop)

/-- A consumer takes what it has not read away with it. -/
def unregister (m : Mailbox) : Mailbox := if m.active then .empty else m

/-- The counter of a turn is not cleared. -/
def clear (f : Family) (m : Mailbox) : Mailbox :=
  if m.active then m
  else
    match f with
    | .turn => { m with buffer := [], bounded := Nat.zero_le _ }
    | .login => .empty

end Mailbox

/-- What decides about the notifications of one id: its mailbox, and the processes that have a consumer. -/
@[ext] structure Model where
  mailbox : Mailbox
  processes : Bytes → Bool

namespace Model

variable (parse : Bytes → Option Json.Value) (f : Family) (id : Bytes)

def new : Model := ⟨.empty, fun _ => false⟩

/-- A notification of a turn goes to the process it names where that has a consumer, and one without an id
    to the global channel. -/
def Claims (m : Model) (notif : Notification) : Prop :=
  IsFor parse f id notif ∧ id ≠ [] ∧
    ¬ (f = .turn ∧ m.processes (notificationProcessHandle parse notif) = true)

instance (m : Model) (notif : Notification) : Decidable (m.Claims parse f id notif) :=
  inferInstanceAs (Decidable (_ ∧ _ ∧ ¬ (_ ∧ _)))

def step (m : Model) : Op → Result × Model
  | .route notif =>
    (.done, if m.Claims parse f id notif then { m with mailbox := m.mailbox.push notif } else m)
  | .register f' id' =>
    if f' = f ∧ id' = id then
      ((m.mailbox.register f id).1, { m with mailbox := (m.mailbox.register f id).2 })
    else (.done, m)
  | .next f' id' =>
    if f' = f ∧ id' = id then ((m.mailbox.next f id).1, { m with mailbox := (m.mailbox.next f id).2 })
    else (.done, m)
  | .unregister f' id' =>
    (.done, if f' = f ∧ id' = id then { m with mailbox := m.mailbox.unregister } else m)
  | .clear f' id' => (.done, if f' = f ∧ id' = id then { m with mailbox := m.mailbox.clear f } else m)
  | .registerProcess p => (.done, { m with processes := fun p' => (p' = p ∧ p ≠ []) || m.processes p' })
  | .unregisterProcess p => (.done, { m with processes := fun p' => p' ≠ p && m.processes p' })
  | .nextProcess _ => (.done, m)
  | .nextGlobal => (.done, m)

variable {parse f id}

theorem step_register (m : Model) (f' : Family) (id' : Bytes) :
    m.step parse f id (.register f' id') =
      (if f' = f ∧ id' = id then (m.mailbox.register f id).1 else .done,
        if f' = f ∧ id' = id then { m with mailbox := (m.mailbox.register f id).2 } else m) := by
  rw [step]
  split <;> rfl

theorem step_next (m : Model) (f' : Family) (id' : Bytes) :
    m.step parse f id (.next f' id') =
      (if f' = f ∧ id' = id then (m.mailbox.next f id).1 else .done,
        if f' = f ∧ id' = id then { m with mailbox := (m.mailbox.next f id).2 } else m) := by
  rw [step]
  split <;> rfl

end Model

/-! ## A view shows a mailbox -/

/-- The view of an id shows its mailbox: in what is kept as long as there is no consumer, and in the queue of
    the consumer, which has taken over all of it. -/
inductive Shows (f : Family) (id : Bytes) : View → Mailbox → Prop where
  | kept {m : Mailbox} (ha : m.active = false) (hid : id = [] → m = .empty) :
      Shows f id ⟨none, m.buffer, m.dropped⟩ m
  | taken {m : Mailbox} {q : NotificationQueue} (ha : m.active = true) (hb : m.buffer = q.contents)
      (hd : m.dropped = q.dropped) (he : q.err = none) (hown : q.owner = (f.scope, id)) (hid : id ≠ []) :
      Shows f id ⟨some q, [], 0⟩ m

namespace Shows

variable {f : Family} {id : Bytes} {v : View} {m : Mailbox} {notif : Notification}

theorem empty : Shows f id .empty .empty := kept rfl (fun _ => rfl)

section

variable (h : Shows f id v m)
include h

theorem push (hid : id ≠ []) : Shows f id (v.push notif) (m.push notif) := by
  cases h with
  | kept ha _ =>
    have hv : View.push ⟨none, m.buffer, m.dropped⟩ notif =
        ⟨none, (m.push notif).buffer, (m.push notif).dropped⟩ := by
      simp only [View.push, pushPendingNotification_eq]
      rfl
    rw [hv]
    exact kept ha (fun h => absurd h hid)
  | @taken _ q ha hb hd he hown _ =>
    obtain ⟨hcontents, hdropped⟩ :
        (q.push notif).contents = _ ∧ (q.push notif).dropped = _ := NotificationQueue.push_open he
    refine taken ha ?_ ?_ (NotificationQueue.push_err.trans he) (NotificationQueue.owner_push.trans hown) hid
    · rw [hcontents, ← hb]
      rfl
    · rw [hdropped, ← hb, ← hd]
      rfl

theorem register :
    Result.ofError (v.register f id).1 = (m.register f id).1 ∧
      Shows f id (v.register f id).2 (m.register f id).2 := by
  unfold View.register Mailbox.register
  by_cases hid : id = []
  · rw [if_pos hid, if_pos hid]
    exact ⟨rfl, h⟩
  rw [if_neg hid, if_neg hid]
  cases h with
  | kept ha hnil =>
    obtain ⟨q, happ, hcontents, hdropped, herr, hown⟩ := NotificationQueue.appendAll_new f.scope id m.bounded
    have hnew : f.newQueue id = newNotificationQueue f.scope id := by
      cases f <;> rfl
    have hopen : View.open? f id ⟨none, m.buffer, m.dropped⟩ =
        some (if m.dropped > 0 then { q with dropped := m.dropped, notify := true } else q) := by
      rw [View.open?, hnew, happ]
      rfl
    simp only [hopen, ha]
    refine ⟨rfl, ?_⟩
    by_cases hpos : m.dropped > 0
    · rw [if_pos hpos]
      exact taken rfl hcontents.symm rfl herr hown hid
    have hzero : m.dropped = 0 := by
      by_contra hne
      exact hpos (UInt64.pos_iff_ne_zero.mpr hne)
    rw [if_neg hpos]
    exact taken rfl hcontents.symm (hzero.trans hdropped.symm) herr hown hid
  | taken ha hb hd he hown _ =>
    rw [if_pos ha]
    exact ⟨rfl, taken ha hb hd he hown hid⟩

theorem next : (v.next f id).1 = (m.next f id).1 ∧ Shows f id (v.next f id).2 (m.next f id).2 := by
  unfold Mailbox.next
  cases h with
  | kept ha hnil =>
    rw [if_pos ha]
    exact ⟨rfl, kept ha hnil⟩
  | @taken _ q ha hb hd he hown hid =>
    rw [if_neg (by rw [ha]; decide)]
    have hscope : q.scope = f.scope := (Prod.mk.inj hown).1
    have hscopeID : q.scopeID = id := (Prod.mk.inj hown).2
    by_cases hzero : m.dropped = 0
    · rw [if_neg (not_not.mpr hzero)]
      have hq : q.dropped = 0 := hd.symm.trans hzero
      cases hbuf : m.buffer with
      | nil =>
        have hnext := NotificationQueue.next_nil hq (hb.symm.trans hbuf) he
        simp only [View.next, hnext]
        exact ⟨rfl, taken ha hb hd he hown hid⟩
      | cons notif rest =>
        obtain ⟨q', htake, hrest, hq', he'⟩ := NotificationQueue.take_cons hq (hb.symm.trans hbuf)
        have hnext := NotificationQueue.next_of_take htake (by simp)
        have hown' : q'.owner = q.owner := by
          have := @NotificationQueue.owner_take q
          rwa [htake] at this
        simp only [View.next, hnext]
        refine ⟨rfl, taken ha ?_ (hzero.trans hq'.symm) (he'.trans he) (hown'.trans hown) hid⟩
        show m.buffer.tail = q'.contents
        rw [hbuf, hrest]
        rfl
    · have hq : q.dropped ≠ 0 := hd ▸ hzero
      have hnext := NotificationQueue.next_of_take (NotificationQueue.take_dropped hq) (by simp)
      rw [if_pos hzero]
      simp only [View.next, hnext, hd, hscope, hscopeID]
      exact ⟨rfl, taken ha hb rfl he rfl hid⟩

theorem unregister : Shows f id (v.unregister id) m.unregister := by
  unfold View.unregister Mailbox.unregister
  cases h with
  | kept ha hnil =>
    simp only [ha, Bool.false_eq_true, if_false, ite_self]
    exact kept ha hnil
  | taken ha hb hd he hown hid =>
    rw [if_neg hid, if_pos ha]
    exact empty

theorem clear : Shows f id (v.clear f id) (m.clear f) := by
  unfold View.clear Mailbox.clear
  cases h with
  | kept ha hnil =>
    rw [if_neg (show ¬ m.active = true by rw [ha]; nofun)]
    by_cases hid : id = []
    · -- nothing is ever kept without an id
      rw [if_pos hid, hnil hid]
      cases f <;> exact empty
    · rw [if_neg hid]
      cases f with
      | turn => exact kept (m := { m with buffer := [], bounded := _ }) ha (fun h => absurd h hid)
      | login => exact empty
  | taken ha hb hd he hown hid =>
    rw [if_neg hid, if_pos ha]
    cases f <;> exact taken ha hb hd he hown hid

end

end Shows

/-! ## The router refines a mailbox -/

/-- The router and the model of one id. -/
structure Refines (f : Family) (id : Bytes) (r : Router) (m : Model) : Prop where
  owned : r.Owned
  isOpen : r.closed = false
  shows : Shows f id (r.view f id) m.mailbox
  processes : ∀ p, m.processes p = (get? r.processQueues p).isSome
  nameless : get? r.processQueues [] = none

namespace Refines

variable {parse : Bytes → Option Json.Value} {f f' : Family} {id id' : Bytes} {r r' : Router} {m : Model}
  {touched : Option (Family × Bytes)} {notif : Notification}

theorem new : Refines f id newTurnNotificationRouter .new where
  owned := Router.owned_new
  isOpen := rfl
  shows := by
    cases f <;> exact Shows.empty
  processes _ := rfl
  nameless := rfl

section

variable (h : Refines f id r m)
include h

/-- An operation on something else. -/
theorem frame (hf : r.Frames r' touched) (hne : touched ≠ some (f, id))
    (hp : r'.processQueues = r.processQueues) : Refines f id r' m where
  owned := hf.owned
  isOpen := hf.isOpen.trans h.isOpen
  shows := by
    rw [hf.other f id hne]
    exact h.shows
  processes p := by
    rw [hp]
    exact h.processes p
  nameless := hp ▸ h.nameless

/-- An operation on the id. -/
theorem touch {mailbox : Mailbox} (hf : r.Frames r' touched) (hs : Shows f id (r'.view f id) mailbox)
    (hp : r'.processQueues = r.processQueues) : Refines f id r' { m with mailbox := mailbox } where
  owned := hf.owned
  isOpen := hf.isOpen.trans h.isOpen
  shows := hs
  processes p := by
    rw [hp]
    exact h.processes p
  nameless := hp ▸ h.nameless

/-- An operation on a process. -/
theorem process {processes : Bytes → Bool} (hf : r.Frames r' none)
    (hp : ∀ p, processes p = (get? r'.processQueues p).isSome) (hnil : processes [] = false) :
    Refines f id r' { m with processes := processes } where
  owned := hf.owned
  isOpen := hf.isOpen.trans h.isOpen
  shows := by
    rw [hf.other f id nofun]
    exact h.shows
  processes := hp
  nameless := by
    rw [hp] at hnil
    exact Option.not_isSome_iff_eq_none.mp (by rw [hnil]; nofun)

/-- An operation on some id, which may be this one. -/
theorem on {mailbox : Mailbox} (hf : r.Frames r' (some (f', id'))) (hp : r'.processQueues = r.processQueues)
    (hs : f' = f → id' = id → Shows f id (r'.view f id) mailbox) :
    Refines f id r' (if f' = f ∧ id' = id then { m with mailbox := mailbox } else m) := by
  split
  · rename_i heq
    exact h.touch hf (hs heq.1 heq.2) hp
  rename_i hne
  refine h.frame hf (fun heq => hne ?_) hp
  exact Prod.mk.inj (Option.some.inj heq)

theorem deliver (hid : id' ≠ []) :
    Refines f id (r.deliver f' id' notif)
      (if f' = f ∧ id' = id then { m with mailbox := m.mailbox.push notif } else m) := by
  obtain ⟨hf, hv⟩ : r.Frames (r.deliver f' id' notif) (some (f', id')) ∧ _ :=
    Router.deliver_view h.owned notif
  refine h.on hf (Router.processQueues_deliver notif) ?_
  rintro rfl rfl
  rw [hv]
  exact h.shows.push hid

theorem processQueue (p : Bytes) : (r.processQueue p).isSome = m.processes p := by
  unfold Router.processQueue
  rw [h.processes]
  split
  · rename_i hp
    rw [hp, h.nameless]
  · rfl

theorem route : Refines f id (r.route parse notif).2 (m.step parse f id (.route notif)).2 := by
  simp only [Model.step]
  have hrouted := (Router.route_open parse h.isOpen notif).2
  generalize (r.route parse notif).2 = r' at hrouted ⊢
  cases hrouted with
  | @toLogin loginID hlogin hid =>
    have hiff : m.Claims parse f id notif ↔ Family.login = f ∧ loginID = id := by
      cases f with
      | turn => exact ⟨fun hc => (nomatch hlogin.symm.trans hc.1.1), nofun⟩
      | login =>
        constructor
        · intro hc
          exact ⟨rfl, Option.some.inj (hlogin.symm.trans hc.1)⟩
        · rintro ⟨-, rfl⟩
          exact ⟨hlogin, hid, nofun⟩
    simp only [hiff]
    exact h.deliver hid
  | toProcess hlogin href =>
    -- the process takes it, whatever turn it names
    have hno : ¬ m.Claims parse f id notif := by
      rintro ⟨hfor, -, hnot⟩
      cases f with
      | turn => exact hnot ⟨rfl, by rw [h.processes, href]; rfl⟩
      | login => cases hlogin.symm.trans hfor
    rw [if_neg hno]
    exact h.frame (Router.frames_modifyQueue_process h.owned href
      (fun _ _ => NotificationQueue.owner_push) none) nofun rfl
  | toTurn hlogin href hid =>
    have hclaimed := h.processQueue (notificationProcessHandle parse notif)
    rw [href] at hclaimed
    have hiff : m.Claims parse f id notif ↔ Family.turn = f ∧ notificationTurnID parse notif = id := by
      cases f with
      | login => exact ⟨fun hc => (nomatch hlogin.symm.trans hc.1), nofun⟩
      | turn =>
        constructor
        · intro hc
          exact ⟨rfl, hc.1.2⟩
        · rintro ⟨-, rfl⟩
          exact ⟨⟨hlogin, rfl⟩, hid, fun hc => nomatch hclaimed.trans hc.2⟩
    simp only [hiff]
    exact h.deliver hid
  | toGlobal hid =>
    have hno : ¬ m.Claims parse f id notif := by
      rintro ⟨hfor, hne, -⟩
      cases f with
      | turn => exact hid.elim (fun hl => nomatch hl.symm.trans hfor.1) (fun ht => hne (hfor.2.symm.trans ht.2))
      | login =>
        exact hid.elim (fun hl => hne (Option.some.inj (hfor.symm.trans hl)))
          (fun ht => nomatch ht.1.symm.trans hfor)
    rw [if_neg hno]
    exact h.frame (Router.frames_global h.owned _ none) nofun rfl

/-- **Each operation keeps router and model together, and gives the same result for the id.** -/
theorem step (parse : Bytes → Option Json.Value) (op : Op) :
    Refines f id (r.apply parse op).2 (m.step parse f id op).2 ∧
      (op.concerns parse f id = true → (r.apply parse op).1 = (m.step parse f id op).1) := by
  cases op with
  | route notif =>
    have hok : (r.route parse notif).1 = none := (Router.route_open parse h.isOpen notif).1
    refine ⟨h.route, fun _ => ?_⟩
    simp only [Router.apply, hok]
    rfl
  | nextGlobal =>
    exact ⟨h.frame (Router.nextGlobal_frames h.owned none) nofun Router.processQueues_nextGlobal, nofun⟩
  | register f' id' =>
    have happ : r.apply parse (.register f' id') =
        (.ofError (r.registerIn f' id').1, (r.registerIn f' id').2) := by
      cases f' <;> rfl
    obtain ⟨hres, hf, hv⟩ : (r.registerIn f' id').1 = _ ∧ _ ∧ _ := Router.registerIn_view h.owned h.isOpen
    rw [happ, Model.step_register]
    refine ⟨h.on hf Router.processQueues_registerIn ?_, ?_⟩
    · rintro rfl rfl
      rw [hv]
      exact h.shows.register.2
    · intro hc
      obtain ⟨rfl, rfl⟩ := of_decide_eq_true hc
      rw [if_pos ⟨rfl, rfl⟩]
      exact (congrArg Result.ofError hres).trans h.shows.register.1
  | next f' id' =>
    have happ : r.apply parse (.next f' id') = r.finishNext (r.lookup f' id') := by
      cases f' <;> rfl
    obtain ⟨hres, hf, hv⟩ : (r.finishNext (r.lookup f' id')).1 = _ ∧ _ ∧ _ :=
      Router.finishNext_view h.owned h.isOpen
    rw [happ, Model.step_next]
    refine ⟨h.on hf (Router.processQueues_finishNext _) ?_, ?_⟩
    · rintro rfl rfl
      rw [hv]
      exact h.shows.next.2
    · intro hc
      obtain ⟨rfl, rfl⟩ := of_decide_eq_true hc
      rw [if_pos ⟨rfl, rfl⟩]
      exact hres.trans h.shows.next.1
  | unregister f' id' =>
    have happ : r.apply parse (.unregister f' id') = (.done, r.unregisterIn f' id') := by
      cases f' <;> rfl
    obtain ⟨hf, hv⟩ : r.Frames (r.unregisterIn f' id') _ ∧ _ := Router.unregisterIn_view h.owned
    rw [happ]
    refine ⟨h.on hf Router.processQueues_unregisterIn ?_, fun _ => rfl⟩
    rintro rfl rfl
    rw [hv]
    exact h.shows.unregister
  | clear f' id' =>
    cases f' with
    | turn =>
      obtain ⟨hf, hv⟩ : r.Frames (r.clearPending id') _ ∧ _ := Router.clearPending_view h.owned
      refine ⟨h.on hf Router.processQueues_clearPending ?_, fun _ => rfl⟩
      rintro rfl rfl
      exact hv ▸ h.shows.clear
    | login =>
      obtain ⟨hf, hv⟩ : r.Frames (r.clearLoginPending id') _ ∧ _ := Router.clearLoginPending_view h.owned
      refine ⟨h.on hf Router.processQueues_clearLoginPending ?_, fun _ => rfl⟩
      rintro rfl rfl
      exact hv ▸ h.shows.clear
  | registerProcess p =>
    refine ⟨h.process (Router.registerProcess_frames h.owned none) (fun p' => ?_) ?_, nofun⟩
    · rw [h.processes]
      exact (Router.get?_registerProcess h.isOpen p').symm
    · rw [h.processes, h.nameless]
      simp
  | nextProcess p =>
    exact ⟨h.frame (Router.nextProcess_frames h.owned none) nofun
      (Router.processQueues_finishNext _), nofun⟩
  | unregisterProcess p =>
    refine ⟨h.process (Router.unregisterProcess_frames h.owned none) (fun p' => ?_) ?_, nofun⟩
    · rw [h.processes]
      exact (Router.get?_unregisterProcess p' h.nameless).symm
    · rw [h.processes, h.nameless]
      simp

theorem observe (ops : List Op) :
    Codex.observe (Router.apply parse) (Op.concerns parse f id) r ops =
      Codex.observe (Model.step parse f id) (Op.concerns parse f id) m ops := by
  induction ops generalizing r m with
  | nil => rfl
  | cons op ops ih =>
    obtain ⟨hnext, hres⟩ := h.step parse op
    rw [Codex.observe, Codex.observe, ih hnext]
    split
    · rename_i hc
      rw [hres hc]
    · rfl

theorem after (ops : List Op) :
    Refines f id (Codex.after (Router.apply parse) r ops) (Codex.after (Model.step parse f id) m ops) := by
  induction ops generalizing r m with
  | nil => exact h
  | cons op ops ih => exact ih (h.step parse op).1

end

end Refines

/-- **An open router is one bounded buffer with a drop counter for each turn and each login.** The results of
    the operations on an id are those of its mailbox, and operations on anything else leave it alone. -/
theorem router_refines_mailbox (parse : Bytes → Option Json.Value) (f : Family) (id : Bytes) (ops : List Op) :
    observe (Router.apply parse) (Op.concerns parse f id) newTurnNotificationRouter ops =
        observe (Model.step parse f id) (Op.concerns parse f id) .new ops ∧
      ∀ (m : Model) (op : Op), op.concerns parse f id = false →
        (m.step parse f id op).2.mailbox = m.mailbox := by
  refine ⟨Refines.new.observe ops, fun m op hc => ?_⟩
  cases op with
  | route notif =>
    have hno : ¬ m.Claims parse f id notif := fun h => of_decide_eq_false hc h.1
    simp only [Model.step, if_neg hno]
  | register f' id' => simp only [Model.step_register, if_neg (of_decide_eq_false hc)]
  | next f' id' => simp only [Model.step_next, if_neg (of_decide_eq_false hc)]
  | unregister f' id' | clear f' id' => simp only [Model.step, if_neg (of_decide_eq_false hc)]
  | nextGlobal | registerProcess p | nextProcess p | unregisterProcess p => rfl

end Pandaemonium.Codex
