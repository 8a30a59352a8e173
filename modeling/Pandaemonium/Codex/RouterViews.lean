import Pandaemonium.Codex.Router

/-!
# `Codex.RouterViews` — what a router holds for one id

A queue belongs to one consumer: the maps of the router never hold one position twice (`Owned`, carried by the
scope and the id each queue was made with). So what the router holds for one turn or login, its `View`, changes
only by the operations on that id, and each of them acts on the view alone.

* `Frames` — an operation leaves every view alone but the one named;
* `unregisterIn_view`, `deliver_view` and their like — what it makes of that one.
-/

namespace Pandaemonium.Codex

open SortedMap (get? insert erase get?_insert get?_insert_self get?_insert_ne get?_erase_self
  get?_erase_ne)
open List hiding insert erase

/-- The scope of a family among the owners of queues. -/
def Family.scope : Family → Scope
  | .turn => .turn
  | .login => .login

theorem Family.scope_injective {f f' : Family} (h : f.scope = f'.scope) : f = f' := by
  cases f <;> cases f' <;> first | rfl | cases h

theorem Family.scope_ne_process (f : Family) : f.scope ≠ .process := by
  cases f <;> nofun

/-- The queue of a consumer, and what is kept for one. -/
structure View where
  queue : Option NotificationQueue
  pending : List Notification
  dropped : UInt64
deriving DecidableEq, Repr

namespace View

/-- Nothing for the id. -/
def empty : View := ⟨none, [], 0⟩

/-- A notification for the id. -/
def push (v : View) (notif : Notification) : View :=
  match v.queue with
  | some q => { v with queue := some (q.push notif) }
  | none =>
    { v with
      pending := (pushPendingNotification v.pending notif).1
      dropped := if (pushPendingNotification v.pending notif).2 then v.dropped + 1 else v.dropped }

/-- The queue of a new consumer, with what was kept for it. -/
def open? (f : Family) (id : Bytes) (v : View) : Option NotificationQueue :=
  ((f.newQueue id).appendAll v.pending).map
    (fun q => if v.dropped > 0 then { q with dropped := v.dropped, notify := true } else q)

/-- What `registerIn` makes of a view. -/
def register (f : Family) (id : Bytes) (v : View) : Option RouterError × View :=
  if id = [] then (some (.text f.emptyID), v)
  else
    match v.queue with
    | some _ => (some (.text (f.alreadyActive ++ id)), v)
    | none =>
      match v.open? f id with
      | none => (some (.text (f.pendingOverflow ++ id)), v)
      | some q => (none, { queue := some q, pending := [], dropped := 0 })

/-- What `next` makes of a view. -/
def next (f : Family) (id : Bytes) (v : View) : Result × View :=
  match v.queue with
  | none => (.failed (.text (f.notActive ++ id)), v)
  | some q => (q.next.1.result, { v with queue := some q.next.2 })

/-- What `unregisterIn` makes of a view. -/
def unregister (id : Bytes) (v : View) : View := if id = [] then v else { v with queue := none }

/-- What clearing makes of a view. -/
def clear (f : Family) (id : Bytes) (v : View) : View :=
  if id = [] then v
  else
    match f with
    | .turn => { v with pending := [] }
    | .login => { v with pending := [], dropped := 0 }

end View

namespace Router

/-- The position of a consumer's queue. -/
def refOf (r : Router) : Scope → Bytes → Option Nat
  | .turn => get? r.turns.queues
  | .login => get? r.logins.queues
  | .process => get? r.processQueues

/-- **What a router holds for an id of a family.** -/
def view (r : Router) (f : Family) (id : Bytes) : View where
  queue := (get? (r.box f).queues id).bind (fun ref => r.heap[ref]?)
  pending := (r.box f).pendingOf id
  dropped := (r.box f).droppedOf id

/-- Each position in the maps is that of a queue made for its key. -/
def Owned (r : Router) : Prop :=
  ∀ s id ref, r.refOf s id = some ref → ∃ q, r.heap[ref]? = some q ∧ q.owner = (s, id)

variable {r r' : Router} {f f' : Family} {s s' : Scope} {id id' : Bytes} {ref : Nat}
  {op : NotificationQueue → NotificationQueue} {q : NotificationQueue} {box' : Mailboxes}

theorem refOf_scope (r : Router) (f : Family) (id : Bytes) : r.refOf f.scope id = get? (r.box f).queues id := by
  cases f <;> rfl

/-- No two consumers share a queue. -/
theorem Owned.unique (h : Owned r) (href : r.refOf s id = some ref) (href' : r.refOf s' id' = some ref) :
    s = s' ∧ id = id' := by
  obtain ⟨q, hq, hown⟩ := h s id ref href
  obtain ⟨q', hq', hown'⟩ := h s' id' ref href'
  cases hq.symm.trans hq'
  exact Prod.mk.inj (hown.symm.trans hown')

/-- A new router has no queues to be mistaken about. -/
theorem owned_new : Owned newTurnNotificationRouter := by
  intro s id ref h
  cases s <;> cases h

@[simp] theorem box_setBox_self : (r.setBox f box').box f = box' := by
  cases f <;> rfl

theorem box_setBox_ne (h : f' ≠ f) : (r.setBox f box').box f' = r.box f' := by
  cases f <;> cases f' <;> first | rfl | exact absurd rfl h

@[simp] theorem heap_setBox : (r.setBox f box').heap = r.heap := by
  cases f <;> rfl

@[simp] theorem closed_setBox : (r.setBox f box').closed = r.closed := by
  cases f <;> rfl

@[simp] theorem processQueues_setBox : (r.setBox f box').processQueues = r.processQueues := by
  cases f <;> rfl

/-- Every view stays but the one named. -/
structure Frames (r r' : Router) (touched : Option (Family × Bytes)) : Prop where
  owned : Owned r'
  isOpen : r'.closed = r.closed
  other : ∀ f id, touched ≠ some (f, id) → r'.view f id = r.view f id

namespace Frames

/-- The same views. -/
theorem of_view (ho : Owned r') (hopen : r'.closed = r.closed) (hv : r'.view = r.view)
    (touched : Option (Family × Bytes)) : Frames r r' touched :=
  ⟨ho, hopen, fun f id _ => congrFun (congrFun hv f) id⟩

/-- Nothing changes. -/
theorem refl (ho : Owned r) (touched : Option (Family × Bytes)) : Frames r r touched :=
  of_view ho rfl rfl touched

/-- A step that touches no id, and another. -/
theorem trans {r₁ : Router} {touched : Option (Family × Bytes)} (h₁ : Frames r r₁ none)
    (h₂ : Frames r₁ r' touched) : Frames r r' touched where
  owned := h₂.owned
  isOpen := h₂.isOpen.trans h₁.isOpen
  other f id hne := (h₂.other f id hne).trans (h₁.other f id nofun)

end Frames

/-! ## One queue -/

/-- An operation on a queue leaves its owner. -/
theorem owned_modifyQueue (ho : Owned r) (hop : ∀ q, r.heap[ref]? = some q → (op q).owner = q.owner) :
    Owned (r.modifyQueue ref op) := by
  intro s id ref' href
  have href : r.refOf s id = some ref' := by
    cases s <;> exact href
  obtain ⟨q, hq, hown⟩ := ho s id ref' href
  show ∃ q, (r.heap.modify ref op)[ref']? = some q ∧ _
  by_cases h : ref = ref'
  · subst h
    rw [getElem?_modify_eq, hq]
    exact ⟨op q, rfl, (hop q hq).trans hown⟩
  · rw [getElem?_modify_ne _ _ h]
    exact ⟨q, hq, hown⟩

theorem modifyQueue_self (hq : r.heap[ref]? = some q) : r.modifyQueue ref (fun _ => q) = r := by
  have hheap : r.heap.modify ref (fun _ => q) = r.heap := by
    refine ext_getElem? (fun ref' => ?_)
    by_cases h : ref = ref'
    · subst h
      rw [getElem?_modify_eq, hq]
      rfl
    · rw [getElem?_modify_ne _ _ h]
  unfold modifyQueue
  rw [hheap]

/-- An operation on the queue of an id shows in its view, -/
theorem view_modifyQueue_self (href : get? (r.box f).queues id = some ref) (hq : r.heap[ref]? = some q) :
    (r.modifyQueue ref op).view f id = { r.view f id with queue := some (op q) } := by
  have hbox : (r.modifyQueue ref op).box f = r.box f := by
    cases f <;> rfl
  have hheap : (r.modifyQueue ref op).heap[ref]? = some (op q) := by
    show (r.heap.modify ref op)[ref]? = _
    rw [getElem?_modify_eq, hq]
    rfl
  unfold view
  rw [hbox, href, Option.bind_some, hheap]

/-- and in no other. -/
theorem view_modifyQueue_ne (ho : Owned r) (href : r.refOf s id = some ref)
    (hne : ¬ (s = f.scope ∧ id = id')) : (r.modifyQueue ref op).view f id' = r.view f id' := by
  have hbox : (r.modifyQueue ref op).box f = r.box f := by
    cases f <;> rfl
  have hheap : (get? (r.box f).queues id').bind (fun ref' => (r.modifyQueue ref op).heap[ref']?) =
      (get? (r.box f).queues id').bind (fun ref' => r.heap[ref']?) := by
    cases href' : get? (r.box f).queues id' with
    | none => rfl
    | some ref' =>
      have hrefs : ref ≠ ref' := by
        rintro rfl
        exact hne (ho.unique href ((refOf_scope r f id').trans href'))
      show (r.heap.modify ref op)[ref']? = r.heap[ref']?
      rw [getElem?_modify_ne _ _ hrefs]
  unfold view
  rw [hbox, hheap]

/-- An operation on the queue of a consumer. -/
theorem frames_modifyQueue (ho : Owned r) (href : get? (r.box f).queues id = some ref)
    (hop : ∀ q, r.heap[ref]? = some q → (op q).owner = q.owner) :
    Frames r (r.modifyQueue ref op) (some (f, id)) where
  owned := owned_modifyQueue ho hop
  isOpen := rfl
  other f' id' hne := by
    refine view_modifyQueue_ne ho ((refOf_scope r f id).trans href) ?_
    rintro ⟨hs, rfl⟩
    exact hne (by rw [Family.scope_injective hs])

/-- The queue of a process is no queue of a turn or a login. -/
theorem frames_modifyQueue_process (ho : Owned r) (href : get? r.processQueues id = some ref)
    (hop : ∀ q, r.heap[ref]? = some q → (op q).owner = q.owner)
    (touched : Option (Family × Bytes)) : Frames r (r.modifyQueue ref op) touched where
  owned := owned_modifyQueue ho hop
  isOpen := rfl
  other f _ _ := view_modifyQueue_ne ho (s := .process) href (fun h => f.scope_ne_process h.1.symm)

/-! ## One entry of the maps -/

/-- The maps agree but for one id. -/
structure Agree (box box' : Mailboxes) (id : Bytes) : Prop where
  queues : ∀ id', id' ≠ id → get? box'.queues id' = get? box.queues id'
  pending : ∀ id', id' ≠ id → box'.pendingOf id' = box.pendingOf id'
  dropped : ∀ id', id' ≠ id → box'.droppedOf id' = box.droppedOf id'

theorem Agree.trans {box box₁ box₂ : Mailboxes} (h₁ : Agree box box₁ id) (h₂ : Agree box₁ box₂ id) :
    Agree box box₂ id where
  queues id' hid := (h₂.queues id' hid).trans (h₁.queues id' hid)
  pending id' hid := (h₂.pending id' hid).trans (h₁.pending id' hid)
  dropped id' hid := (h₂.dropped id' hid).trans (h₁.dropped id' hid)

/-- New mailboxes that agree but for one id touch that id alone. -/
theorem frames_setBox (ho : Owned r) (ha : Agree (r.box f) box' id)
    (hq : ∀ ref, get? box'.queues id = some ref → ∃ q, r.heap[ref]? = some q ∧ q.owner = (f.scope, id)) :
    Frames r (r.setBox f box') (some (f, id)) where
  owned := by
    intro s id' ref href
    rw [heap_setBox]
    by_cases hs : s = f.scope
    · subst hs
      rw [refOf_scope, box_setBox_self] at href
      by_cases hid : id' = id
      · subst hid
        exact hq ref href
      · rw [ha.queues id' hid, ← refOf_scope] at href
        exact ho _ id' ref href
    · refine ho s id' ref (Eq.trans ?_ href)
      -- the other two maps are not touched
      cases f <;> cases s <;> first | rfl | exact absurd rfl hs
  isOpen := closed_setBox
  other f' id' hne := by
    unfold view
    rw [heap_setBox]
    by_cases hf : f' = f
    · subst hf
      have hid : id' ≠ id := by
        rintro rfl
        exact hne rfl
      rw [box_setBox_self, ha.queues id' hid, ha.pending id' hid, ha.dropped id' hid]
    · rw [box_setBox_ne hf]

theorem view_setBox_self : (r.setBox f box').view f id =
    ⟨(get? box'.queues id).bind (fun ref => r.heap[ref]?), box'.pendingOf id, box'.droppedOf id⟩ := by
  unfold view
  rw [box_setBox_self, heap_setBox]

/-- A new queue, before any map holds it. -/
theorem frames_append (ho : Owned r) (q : NotificationQueue) :
    Frames r { r with heap := r.heap ++ [q] } none := by
  have hheap : ∀ (ref : Nat) (q' : NotificationQueue), r.heap[ref]? = some q' → (r.heap ++ [q])[ref]? = some q' := by
    intro ref q' h
    rw [getElem?_append_left (List.getElem?_eq_some_iff.mp h).1]
    exact h
  refine ⟨fun s id ref href => ?_, rfl, fun f id _ => ?_⟩
  · have href : r.refOf s id = some ref := by
      cases s <;> exact href
    obtain ⟨q', hq', hown⟩ := ho s id ref href
    exact ⟨q', hheap ref q' hq', hown⟩
  · have hbox : ({ r with heap := r.heap ++ [q] } : Router).box f = r.box f := by
      cases f <;> rfl
    unfold view
    rw [hbox]
    cases href : get? (r.box f).queues id with
    | none => rfl
    | some ref =>
      obtain ⟨q', hq', -⟩ := ho f.scope id ref ((refOf_scope r f id).trans href)
      simp only [Option.bind_some]
      rw [hheap ref q' hq', hq']

/-- An entry of the process map. -/
theorem frames_process {processQueues' : List (Bytes × Nat)} (ho : Owned r) (handle : Bytes)
    (ha : ∀ p, p ≠ handle → get? processQueues' p = get? r.processQueues p) (hq : ∀ ref, get? processQueues'
    handle = some ref → ∃ q, r.heap[ref]? = some q ∧ q.owner = (.process, handle))
    (touched : Option (Family × Bytes)) : Frames r { r with processQueues := processQueues' } touched where
  owned := by
    intro s p ref href
    cases s with
    | turn => exact ho .turn p ref href
    | login => exact ho .login p ref href
    | process =>
      have href : get? processQueues' p = some ref := href
      by_cases hp : p = handle
      · subst hp
        exact hq ref href
      · rw [ha p hp] at href
        exact ho .process p ref href
  isOpen := rfl
  other f _ _ := by
    cases f <;> rfl

/-! ## What is kept for an id -/

section

variable (box : Mailboxes) (id : Bytes) (notif : Notification)

theorem keep_queues : (box.keep id notif).queues = box.queues := rfl

theorem pendingOf_keep :
    (box.keep id notif).pendingOf id = (pushPendingNotification (box.pendingOf id) notif).1 := by
  simp only [Mailboxes.pendingOf, Mailboxes.keep, get?_insert_self, Option.getD_some]

theorem droppedOf_keep : (box.keep id notif).droppedOf id =
    if (pushPendingNotification (box.pendingOf id) notif).2 then box.droppedOf id + 1
    else box.droppedOf id := by
  simp only [Mailboxes.droppedOf, Mailboxes.keep]
  split
  · rw [get?_insert_self, Option.getD_some]
  · rfl

theorem agree_keep : Agree box (box.keep id notif) id where
  queues _ _ := rfl
  pending id' hid := by
    simp only [Mailboxes.pendingOf, Mailboxes.keep, get?_insert_ne (Ne.symm hid)]
  dropped id' hid := by
    simp only [Mailboxes.droppedOf, Mailboxes.keep]
    split
    · rw [get?_insert_ne (Ne.symm hid)]
    · rfl

end

section

variable {box : Mailboxes} {q q' : NotificationQueue}

theorem movePending_none (h : q.appendAll (box.pendingOf id) = none) : box.movePending id q = none := by
  unfold Mailboxes.movePending
  rw [h]
  split
  · rfl
  -- nothing to move always fits
  rename_i hlen
  have hnil : box.pendingOf id = [] := length_eq_zero_iff.mp (by omega)
  rw [hnil, NotificationQueue.appendAll_nil] at h
  cases h

/-- What was kept moves into the queue that takes it. -/
theorem movePending_some (h : q.appendAll (box.pendingOf id) = some q') :
    ∃ box', box.movePending id q = some (box', q') ∧ Agree box box' id ∧ box'.pendingOf id = [] ∧
      box'.droppedOf id = box.droppedOf id := by
  unfold Mailboxes.movePending
  split
  · refine ⟨{ box with pending := erase box.pending id }, by rw [h]; rfl, ?_, ?_, rfl⟩
    · refine ⟨fun _ _ => rfl, fun id' hid => ?_, fun _ _ => rfl⟩
      simp only [Mailboxes.pendingOf, get?_erase_ne hid]
    · simp only [Mailboxes.pendingOf, get?_erase_self, Option.getD_none]
  · rename_i hlen
    have hnil : box.pendingOf id = [] := length_eq_zero_iff.mp (by omega)
    rw [hnil, NotificationQueue.appendAll_nil] at h
    cases h
    exact ⟨box, rfl, ⟨fun _ _ => rfl, fun _ _ => rfl, fun _ _ => rfl⟩, hnil, rfl⟩

theorem agree_movePending {box' : Mailboxes} (h : box.movePending id q = some (box', q')) :
    Agree box box' id := by
  cases happ : q.appendAll (box.pendingOf id) with
  | none =>
    rw [movePending_none happ] at h
    cases h
  | some q₁ =>
    obtain ⟨box₁, hmove, hagree, -⟩ := movePending_some happ
    cases hmove.symm.trans h
    exact hagree

theorem moveDropped_eq (box : Mailboxes) (id : Bytes) (q : NotificationQueue) :
    Agree box (box.moveDropped id q).1 id ∧
      (box.moveDropped id q).1.pendingOf id = box.pendingOf id ∧
      (box.moveDropped id q).1.droppedOf id = 0 ∧
      (box.moveDropped id q).2 =
        if box.droppedOf id > 0 then { q with dropped := box.droppedOf id, notify := true } else q := by
  unfold Mailboxes.moveDropped
  split
  · refine ⟨⟨fun _ _ => rfl, fun _ _ => rfl, fun id' hid => ?_⟩, rfl, ?_, rfl⟩
    · simp only [Mailboxes.droppedOf, get?_erase_ne hid]
    · simp only [Mailboxes.droppedOf, get?_erase_self, Option.getD_none]
  · rename_i hzero
    refine ⟨⟨fun _ _ => rfl, fun _ _ => rfl, fun _ _ => rfl⟩, rfl, ?_, rfl⟩
    by_contra hne
    exact hzero (UInt64.pos_iff_ne_zero.mpr hne)

end

/-! ## The operations -/

theorem view_queue_none (h : get? (r.box f).queues id = none) : (r.view f id).queue = none := by
  show (get? (r.box f).queues id).bind _ = none
  rw [h]
  rfl

theorem view_queue_some (ho : Owned r) (h : get? (r.box f).queues id = some ref) :
    ∃ q, r.heap[ref]? = some q ∧ (r.view f id).queue = some q := by
  obtain ⟨q, hq, -⟩ := ho f.scope id ref ((refOf_scope r f id).trans h)
  refine ⟨q, hq, ?_⟩
  show (get? (r.box f).queues id).bind _ = some q
  rw [h]
  exact hq

/-- A route to a turn or a login. -/
theorem deliver_view (ho : Owned r) (notif : Notification) :
    Frames r (r.deliver f id notif) (some (f, id)) ∧
      (r.deliver f id notif).view f id = (r.view f id).push notif := by
  cases href : get? (r.box f).queues id with
  | some ref =>
    obtain ⟨q, hq, hv⟩ := view_queue_some ho href
    have hd : r.deliver f id notif = r.modifyQueue ref (fun q => q.push notif) := by
      rw [deliver, href]
    rw [hd]
    refine ⟨frames_modifyQueue ho href (fun _ _ => NotificationQueue.owner_push), ?_⟩
    rw [view_modifyQueue_self href hq, View.push, hv]
  | none =>
    have hv := view_queue_none href
    have hd : r.deliver f id notif = r.setBox f ((r.box f).keep id notif) := by
      rw [deliver, href]
    rw [hd]
    constructor
    · refine frames_setBox ho (agree_keep _ _ _) (fun ref hsome => ?_)
      cases href.symm.trans hsome
    · rw [View.push, hv, view_setBox_self, pendingOf_keep, droppedOf_keep, keep_queues, href]
      rfl

/-- `unregisterIn` is `View.unregister`. -/
theorem unregisterIn_view (ho : Owned r) :
    Frames r (r.unregisterIn f id) (some (f, id)) ∧
      (r.unregisterIn f id).view f id = (r.view f id).unregister id := by
  unfold unregisterIn View.unregister
  by_cases hid : id = []
  · rw [if_pos hid, if_pos hid]
    exact ⟨Frames.refl ho _, rfl⟩
  rw [if_neg hid, if_neg hid]
  constructor
  · refine frames_setBox ho ⟨fun id' h => get?_erase_ne h, fun _ _ => rfl, fun _ _ => rfl⟩ ?_
    intro ref hsome
    rw [get?_erase_self] at hsome
    cases hsome
  · rw [view_setBox_self, get?_erase_self]
    rfl

/-- `clearPending` is `View.clear` on turns, -/
theorem clearPending_view (ho : Owned r) :
    Frames r (r.clearPending id) (some (.turn, id)) ∧
      (r.clearPending id).view .turn id = (r.view .turn id).clear .turn id := by
  unfold clearPending View.clear
  by_cases hid : id = []
  · rw [if_pos hid, if_pos hid]
    exact ⟨Frames.refl ho _, rfl⟩
  rw [if_neg hid, if_neg hid]
  constructor
  · refine frames_setBox (f := .turn) ho ⟨fun _ _ => rfl, fun id' h => ?_, fun _ _ => rfl⟩ ?_
    · simp only [Mailboxes.pendingOf, get?_erase_ne h]
      rfl
    · intro ref hsome
      exact ho .turn id ref hsome
  · show View.mk _ ((get? (erase _ id) id).getD []) _ = _
    rw [get?_erase_self]
    rfl

/-- and `clearLoginPending` on logins. -/
theorem clearLoginPending_view (ho : Owned r) :
    Frames r (r.clearLoginPending id) (some (.login, id)) ∧
      (r.clearLoginPending id).view .login id = (r.view .login id).clear .login id := by
  unfold clearLoginPending View.clear
  by_cases hid : id = []
  · rw [if_pos hid, if_pos hid]
    exact ⟨Frames.refl ho _, rfl⟩
  rw [if_neg hid, if_neg hid]
  constructor
  · refine frames_setBox (f := .login) ho ⟨fun _ _ => rfl, fun id' h => ?_, fun id' h => ?_⟩ ?_
    · simp only [Mailboxes.pendingOf, get?_erase_ne h]
      rfl
    · simp only [Mailboxes.droppedOf, get?_erase_ne h]
      rfl
    · intro ref hsome
      exact ho .login id ref hsome
  · show View.mk _ ((get? (erase _ id) id).getD []) ((get? (erase _ id) id).getD 0) = _
    rw [get?_erase_self, get?_erase_self]
    rfl

theorem lookup_inr (h : r.lookup f id = .inr ref) : r.closed = false ∧ get? (r.box f).queues id = some ref := by
  unfold lookup at h
  split at h
  · cases h
  rename_i hopen
  split at h
  · cases h
  rename_i ref' href
  cases h
  exact ⟨by simpa using hopen, href⟩

theorem lookupProcess_inr (h : r.lookupProcess id = .inr ref) : get? r.processQueues id = some ref := by
  unfold lookupProcess at h
  split at h
  · cases h
  split at h
  · cases h
  rename_i ref' href
  cases h
  exact href

/-- `next` is `View.next`. -/
theorem finishNext_view (ho : Owned r) (hopen : r.closed = false) :
    (r.finishNext (r.lookup f id)).1 = ((r.view f id).next f id).1 ∧
      Frames r (r.finishNext (r.lookup f id)).2 (some (f, id)) ∧
      (r.finishNext (r.lookup f id)).2.view f id = ((r.view f id).next f id).2 := by
  cases href : get? (r.box f).queues id with
  | none =>
    have hlook : r.lookup f id = .inl (.failed (.text (f.notActive ++ id))) := by
      rw [lookup, hopen, href]
      rfl
    rw [hlook, View.next, view_queue_none href]
    exact ⟨rfl, Frames.refl ho _, rfl⟩
  | some ref =>
    obtain ⟨q, hq, hv⟩ := view_queue_some ho href
    have hlook : r.lookup f id = .inr ref := by
      rw [lookup, hopen, href]
      rfl
    have hfin : r.finishNext (.inr ref) = (q.next.1.result, r.modifyQueue ref (fun _ => q.next.2)) := by
      rw [finishNext, hq]
    rw [hlook, View.next, hv, hfin]
    refine ⟨rfl, frames_modifyQueue ho href ?_, view_modifyQueue_self href hq⟩
    intro q' hq'
    cases hq.symm.trans hq'
    exact NotificationQueue.owner_next

/-- A queue that enters becomes the queue of the id. -/
theorem enter_view (ho : Owned r) (ha : Agree (r.box f) box' id) (hown : q.owner = (f.scope, id)) :
    Frames r (r.enter f id box' q) (some (f, id)) ∧
      (r.enter f id box' q).view f id = ⟨some q, box'.pendingOf id, box'.droppedOf id⟩ := by
  have happ := frames_append ho q
  have hnew : (r.heap ++ [q])[r.heap.length]? = some q := getElem?_concat_length
  have hget : get? (insert box'.queues id r.heap.length) id = some r.heap.length := get?_insert_self
  constructor
  · refine happ.trans (frames_setBox happ.owned ⟨fun id' hid => ?_, ?_, ?_⟩ ?_)
    · rw [get?_insert_ne (Ne.symm hid)]
      cases f <;> exact ha.queues id' hid
    · cases f <;> exact ha.pending
    · cases f <;> exact ha.dropped
    intro ref href
    cases hget.symm.trans href
    exact ⟨q, hnew, hown⟩
  · unfold enter
    rw [view_setBox_self]
    simp only [hget, Option.bind_some, hnew]
    rfl

/-- `registerIn` is `View.register`. -/
theorem registerIn_view (ho : Owned r) (hopen : r.closed = false) :
    (r.registerIn f id).1 = ((r.view f id).register f id).1 ∧
      Frames r (r.registerIn f id).2 (some (f, id)) ∧
      (r.registerIn f id).2.view f id = ((r.view f id).register f id).2 := by
  unfold registerIn View.register
  by_cases hid : id = []
  · rw [if_pos hid, if_pos hid]
    exact ⟨rfl, Frames.refl ho _, rfl⟩
  rw [if_neg hid, if_neg hid, if_neg (by rw [hopen]; nofun)]
  cases href : get? (r.box f).queues id with
  | some ref =>
    obtain ⟨q, -, hv⟩ := view_queue_some ho href
    rw [hv, if_pos Option.isSome_some]
    exact ⟨rfl, Frames.refl ho _, rfl⟩
  | none =>
    rw [view_queue_none href, if_neg nofun]
    have hopened : (r.view f id).open? f id = ((f.newQueue id).appendAll ((r.box f).pendingOf id)).map
        (fun q => if (r.box f).droppedOf id > 0 then
          { q with dropped := (r.box f).droppedOf id, notify := true } else q) := rfl
    rw [hopened]
    cases happ : (f.newQueue id).appendAll ((r.box f).pendingOf id) with
    | none =>
      rw [movePending_none happ]
      exact ⟨rfl, Frames.refl ho _, rfl⟩
    | some q =>
      obtain ⟨box₁, hmove, hagree₁, hpending₁, hdropped₁⟩ := movePending_some happ
      obtain ⟨hagree₂, hpending₂, hdropped₂, hq⟩ := moveDropped_eq box₁ id q
      rw [hmove]
      have hown : (box₁.moveDropped id q).2.owner = (f.scope, id) := by
        have hnew : (f.newQueue id).owner = (f.scope, id) := by
          cases f <;> rfl
        rw [hq, ← hnew, ← NotificationQueue.owner_appendAll happ]
        split <;> rfl
      obtain ⟨hframes, hview⟩ := enter_view ho (hagree₁.trans hagree₂) hown
      refine ⟨rfl, hframes, hview.trans ?_⟩
      rw [hpending₂, hpending₁, hdropped₂, hq, hdropped₁]
      rfl

/-- A registration that fails changes nothing. -/
theorem registerIn_some {e : RouterError} (h : r.registerIn f id = (some e, r')) : r' = r := by
  unfold registerIn at h
  split at h
  · exact (Prod.mk.inj h).2.symm
  split at h
  · exact (Prod.mk.inj h).2.symm
  split at h
  · exact (Prod.mk.inj h).2.symm
  split at h
  · exact (Prod.mk.inj h).2.symm
  · cases h

/-- A consumer that could register: it was the only one, and only its id has a new queue. -/
theorem registerIn_none (hopen : r.closed = false) (h : r.registerIn f id = (none, r')) :
    get? (r.box f).queues id = none ∧ get? (r'.box f).queues id = some r.heap.length ∧
      (∀ id', id' ≠ id → get? (r'.box f).queues id' = get? (r.box f).queues id') ∧
      (∃ q, r'.heap = r.heap ++ [q]) ∧ r'.closed = r.closed ∧ r'.err = r.err := by
  unfold registerIn at h
  split at h
  · cases h
  split at h
  · rename_i hclosed
    cases hopen.symm.trans hclosed
  split at h
  · cases h
  rename_i hnone
  split at h
  · cases h
  rename_i box queue hmove
  obtain rfl := (Prod.mk.inj h).2
  have hagree := (agree_movePending hmove).trans (moveDropped_eq box id queue).1
  refine ⟨Option.not_isSome_iff_eq_none.mp hnone, ?_, fun id' hid => ?_, ⟨_, heap_setBox⟩, ?_, ?_⟩
  · rw [enter, box_setBox_self]
    exact get?_insert_self
  · rw [enter, box_setBox_self]
    exact (get?_insert_ne (Ne.symm hid)).trans (hagree.queues id' hid)
  · exact closed_setBox
  · cases f <;> rfl

/-- Where an open router puts a notification. -/
inductive Routed (parse : Bytes → Option Json.Value) (r : Router) (notif : Notification) : Router → Prop where
  | toLogin {loginID : Bytes} (hlogin : notificationLoginID parse notif = some loginID) (hid : loginID ≠ []) :
      Routed parse r notif (r.deliver .login loginID notif)
  | toProcess {ref : Nat} (hlogin : notificationLoginID parse notif = none)
      (href : get? r.processQueues (notificationProcessHandle parse notif) = some ref) :
      Routed parse r notif (r.modifyQueue ref (fun q => q.push notif))
  | toTurn (hlogin : notificationLoginID parse notif = none)
      (href : r.processQueue (notificationProcessHandle parse notif) = none)
      (hid : notificationTurnID parse notif ≠ []) :
      Routed parse r notif (r.deliver .turn (notificationTurnID parse notif) notif)
  /-- a login without an id, or a notification that is neither a login's nor a turn's -/
  | toGlobal (hid : notificationLoginID parse notif = some [] ∨
        notificationLoginID parse notif = none ∧ notificationTurnID parse notif = []) :
      Routed parse r notif (r.routeGlobalLocked notif)

theorem route_open (parse : Bytes → Option Json.Value) (hopen : r.closed = false) (notif : Notification) :
    (r.route parse notif).1 = none ∧ Routed parse r notif (r.route parse notif).2 := by
  unfold route routeLogin
  rw [hopen]
  cases hlogin : notificationLoginID parse notif with
  | some loginID =>
    simp only [Bool.false_eq_true, if_false]
    by_cases hid : loginID = []
    · rw [if_pos hid]
      exact ⟨rfl, .toGlobal (.inl (hid ▸ hlogin))⟩
    · rw [if_neg hid]
      exact ⟨rfl, .toLogin hlogin hid⟩
  | none =>
    simp only [Bool.false_eq_true, if_false]
    cases href : r.processQueue (notificationProcessHandle parse notif) with
    | some ref =>
      have hget : get? r.processQueues (notificationProcessHandle parse notif) = some ref := by
        unfold processQueue at href
        split at href
        · cases href
        · exact href
      exact ⟨rfl, .toProcess hlogin hget⟩
    | none =>
      by_cases hid : notificationTurnID parse notif = []
      · simp only [if_pos hid]
        exact ⟨trivial, .toGlobal (.inr ⟨hlogin, hid⟩)⟩
      · simp only [if_neg hid]
        exact ⟨trivial, .toTurn hlogin href hid⟩

/-! ## The operations that touch no view -/

theorem frames_global (ho : Owned r) (global : List Notification) (touched : Option (Family × Bytes)) :
    Frames r { r with global := global } touched where
  owned := by
    intro s id ref href
    cases s <;> exact ho _ id ref href
  isOpen := rfl
  other f _ _ := by
    cases f <;> rfl

/-- The global channel is nobody's view. -/
theorem nextGlobal_frames (ho : Owned r) (touched : Option (Family × Bytes)) :
    Frames r r.nextGlobal.2 touched := by
  unfold nextGlobal
  split
  · exact .refl ho touched
  split
  · exact .refl ho touched
  · exact frames_global ho _ touched

/-- Processes are in nobody's view. -/
theorem registerProcess_frames (ho : Owned r) (touched : Option (Family × Bytes)) :
    Frames r (r.registerProcess id).2 touched := by
  unfold registerProcess
  split
  · exact .refl ho touched
  split
  · exact .refl ho touched
  split
  · exact .refl ho touched
  have happ := frames_append ho (newProcessNotificationQueue id)
  refine happ.trans (frames_process happ.owned id (fun p hp => get?_insert_ne (Ne.symm hp)) ?_ touched)
  intro ref href
  rw [get?_insert_self] at href
  cases href
  exact ⟨_, getElem?_concat_length, rfl⟩

theorem nextProcess_frames (ho : Owned r) (touched : Option (Family × Bytes)) :
    Frames r (r.nextProcess id).2 touched := by
  unfold nextProcess
  cases hfound : r.lookupProcess id with
  | inl result => exact .refl ho touched
  | inr ref =>
    simp only [finishNext]
    cases hq : r.heap[ref]? with
    | none => exact .refl ho touched
    | some q =>
      refine frames_modifyQueue_process ho (lookupProcess_inr hfound) (fun q' hq' => ?_) touched
      cases hq.symm.trans hq'
      exact NotificationQueue.owner_next

theorem unregisterProcess_frames (ho : Owned r) (touched : Option (Family × Bytes)) :
    Frames r (r.unregisterProcess id) touched := by
  unfold unregisterProcess
  split
  · exact .refl ho touched
  split
  · exact .refl ho touched
  rename_i ref href
  -- the queue is closed first and leaves the map then: the two commute
  have hclose := frames_modifyQueue_process ho href
    (fun _ _ => NotificationQueue.owner_close (e :=
      some (.text (ascii "process consumer closed for " ++ id)))) none
  refine hclose.trans (frames_process hclose.owned id (fun p hp => get?_erase_ne hp) ?_ touched)
  intro ref href
  rw [get?_erase_self] at href
  cases href

/-! ## The process map -/

@[simp] theorem processQueues_modifyQueue : (r.modifyQueue ref op).processQueues = r.processQueues := rfl

@[simp] theorem processQueues_deliver (notif : Notification) :
    (r.deliver f id notif).processQueues = r.processQueues := by
  unfold deliver
  split <;> simp

@[simp] theorem processQueues_registerIn : (r.registerIn f id).2.processQueues = r.processQueues := by
  unfold registerIn
  split
  · rfl
  split
  · rfl
  split
  · rfl
  split
  · rfl
  · exact processQueues_setBox

@[simp] theorem processQueues_finishNext (found : Result ⊕ Nat) :
    (r.finishNext found).2.processQueues = r.processQueues := by
  unfold finishNext
  split
  · rfl
  · split <;> rfl

@[simp] theorem processQueues_unregisterIn : (r.unregisterIn f id).processQueues = r.processQueues := by
  unfold unregisterIn
  split
  · rfl
  · exact processQueues_setBox

@[simp] theorem processQueues_clearPending : (r.clearPending id).processQueues = r.processQueues := by
  unfold clearPending
  split <;> rfl

@[simp] theorem processQueues_clearLoginPending : (r.clearLoginPending id).processQueues = r.processQueues := by
  unfold clearLoginPending
  split <;> rfl

@[simp] theorem processQueues_nextGlobal : r.nextGlobal.2.processQueues = r.processQueues := by
  unfold nextGlobal
  split
  · rfl
  · split <;> rfl

theorem get?_registerProcess (hopen : r.closed = false) (p : Bytes) :
    (get? (r.registerProcess id).2.processQueues p).isSome =
      ((p = id ∧ id ≠ []) || (get? r.processQueues p).isSome) := by
  unfold registerProcess
  by_cases hid : id = []
  · simp [hid]
  rw [if_neg hid, if_neg (by rw [hopen]; exact Bool.false_ne_true)]
  by_cases hsome : (get? r.processQueues id).isSome = true
  · rw [if_pos hsome]
    by_cases hp : p = id
    · subst hp
      simp [hsome, hid]
    · simp [hp]
  · rw [if_neg hsome]
    by_cases hp : p = id
    · subst hp
      simp [hid, get?_insert_self]
    · simp [hp, get?_insert_ne (Ne.symm hp)]

theorem get?_unregisterProcess (p : Bytes) (hnil : get? r.processQueues [] = none) :
    (get? (r.unregisterProcess id).processQueues p).isSome =
      (p ≠ id && (get? r.processQueues p).isSome) := by
  unfold unregisterProcess
  by_cases hid : id = []
  · subst hid
    by_cases hp : p = []
    · simp [hp, hnil]
    · simp [hp]
  rw [if_neg hid]
  cases href : get? r.processQueues id with
  | none =>
    by_cases hp : p = id
    · simp [hp, href]
    · simp [hp]
  | some ref =>
    simp only [processQueues_modifyQueue]
    by_cases hp : p = id
    · simp [hp]
    · simp [hp, get?_erase_ne hp]

end Router

end Pandaemonium.Codex
