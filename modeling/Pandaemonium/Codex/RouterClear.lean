import Pandaemonium.Codex.RouterRefinement

/-!
# `Codex.RouterClear` — what clearing leaves behind

`clearPending` and `clearLoginPending` are there to forget an id that is done with. Whether they do is a
question about two routers: one that went through a history and was cleared, and one that went through the same
history without the notifications of the id. Their mailboxes are compared, not the routers themselves.

* `Forgets` — no operation later on tells the two apart;
* `clear_forgets_iff` — a login is always forgotten; a turn if and only if no drop is counted for it when it is
  cleared, since `clearPending` leaves `pendingDropped` alone.
-/

namespace Pandaemonium.Codex

open SortedMap (get?)

section

variable (parse : Bytes → Option Json.Value) (f : Family) (id : Bytes)

/-- The operation brings a notification of the id. -/
def Op.brings : Op → Bool
  | .route notif => decide (IsFor parse f id notif)
  | _ => false

/-- A history without the notifications of an id. -/
def without (history : List Op) : List Op := history.filter (fun op => !op.brings parse f id)

/-- The router after a history. -/
def Router.after (history : List Op) : Router :=
  Codex.after (Router.apply parse) newTurnNotificationRouter history

/-- Once cleared, an id looks as if no notification of it had ever come. -/
def Forgets (history : List Op) : Prop :=
  ∀ later : List Op,
    observe (Router.apply parse) (Op.concerns parse f id) (Router.after parse (history ++ [.clear f id])) later =
      observe (Router.apply parse) (Op.concerns parse f id)
        (Router.after parse (without parse f id history)) later

end

variable {parse : Bytes → Option Json.Value} {f : Family} {id : Bytes} {m m' : Model}

/-- The model of a history, and that of the same history without the notifications of the id. -/
structure Unheard (m m' : Model) : Prop where
  active : m'.mailbox.active = m.mailbox.active
  buffer : m'.mailbox.buffer = []
  dropped : m'.mailbox.dropped = 0
  processes : m'.processes = m.processes

namespace Unheard

section

variable (h : Unheard m m')
include h

theorem push (notif : Notification) : Unheard { m with mailbox := m.mailbox.push notif } m' :=
  ⟨h.active, h.buffer, h.dropped, h.processes⟩

theorem register : Unheard { m with mailbox := (m.mailbox.register f id).2 }
    { m' with mailbox := (m'.mailbox.register f id).2 } := by
  simp only [Mailbox.register, h.active]
  split
  · exact h
  split
  · exact h
  · exact ⟨rfl, h.buffer, h.dropped, h.processes⟩

/-- The mailbox that heard nothing has nothing to give. -/
theorem next_eq : (m'.mailbox.next f id).2 = m'.mailbox := by
  unfold Mailbox.next
  split
  · rfl
  · rw [if_neg (not_not.mpr h.dropped), h.buffer]

theorem next : Unheard { m with mailbox := (m.mailbox.next f id).2 }
    { m' with mailbox := (m'.mailbox.next f id).2 } := by
  have hactive : (m.mailbox.next f id).2.active = m.mailbox.active := by
    unfold Mailbox.next
    split
    · rfl
    split
    · rfl
    · split <;> rfl
  rw [h.next_eq]
  exact ⟨h.active.trans hactive.symm, h.buffer, h.dropped, h.processes⟩

theorem unregister :
    Unheard { m with mailbox := m.mailbox.unregister } { m' with mailbox := m'.mailbox.unregister } := by
  simp only [Mailbox.unregister, h.active]
  split
  · exact ⟨rfl, rfl, rfl, h.processes⟩
  · exact h

theorem clear : Unheard { m with mailbox := m.mailbox.clear f } { m' with mailbox := m'.mailbox.clear f } := by
  simp only [Mailbox.clear, h.active]
  split
  · exact h
  cases f with
  | turn => exact ⟨rfl, rfl, h.dropped, h.processes⟩
  | login => exact ⟨rfl, rfl, rfl, h.processes⟩

/-- An operation that brings a notification of the id, for the router that hears of it. -/
theorem heard {op : Op} (hb : op.brings parse f id = true) : Unheard (m.step parse f id op).2 m' := by
  cases op with
  | route notif =>
    simp only [Model.step]
    split
    · exact h.push notif
    · exact h
  | _ => cases hb

/-- An operation both routers go through. -/
theorem step {op : Op} (hb : op.brings parse f id = false) :
    Unheard (m.step parse f id op).2 (m'.step parse f id op).2 := by
  cases op with
  | route notif =>
    have hno : ∀ m : Model, ¬ m.Claims parse f id notif := fun _ hc => of_decide_eq_false hb hc.1
    simp only [Model.step, if_neg (hno _)]
    exact h
  | register f' id' =>
    simp only [Model.step_register]
    split
    · exact h.register
    · exact h
  | next f' id' =>
    simp only [Model.step_next]
    split
    · exact h.next
    · exact h
  | unregister f' id' =>
    simp only [Model.step]
    split
    · exact h.unregister
    · exact h
  | clear f' id' =>
    simp only [Model.step]
    split
    · exact h.clear
    · exact h
  | registerProcess p | unregisterProcess p =>
    simp only [Model.step, h.processes]
    exact ⟨h.active, h.buffer, h.dropped, rfl⟩
  | nextProcess p | nextGlobal => exact h

theorem after (history : List Op) :
    Unheard (Codex.after (Model.step parse f id) m history)
      (Codex.after (Model.step parse f id) m' (without parse f id history)) := by
  induction history generalizing m m' with
  | nil => exact h
  | cons op history ih =>
    unfold without
    cases hb : op.brings parse f id with
    | true =>
      rw [List.filter_cons_of_neg (by rw [hb]; nofun)]
      exact ih (h.heard hb)
    | false =>
      rw [List.filter_cons_of_pos (by rw [hb]; rfl)]
      exact ih (h.step hb)

end

end Unheard

/-! ## Clearing -/

/-- The model of an id after a history. -/
def Model.after (parse : Bytes → Option Json.Value) (f : Family) (id : Bytes) (history : List Op) : Model :=
  Codex.after (Model.step parse f id) .new history

theorem refines_after (parse : Bytes → Option Json.Value) (f : Family) (id : Bytes) (history : List Op) :
    Refines f id (Router.after parse history) (Model.after parse f id history) :=
  Refines.new.after history

/-- Without a consumer, mailbox and router agree on what is kept. -/
theorem mailbox_of_unregistered {r : Router} (h : Refines f id r m) (hq : get? (r.box f).queues id = none) :
    m.mailbox.active = false ∧ m.mailbox.dropped = (r.box f).droppedOf id ∧
      (id = [] → m.mailbox = .empty) := by
  have hshows := h.shows
  have hv : (r.view f id).queue = none := Router.view_queue_none hq
  have hd : (r.view f id).dropped = (r.box f).droppedOf id := rfl
  generalize r.view f id = v at hshows hv hd
  cases hshows with
  | kept ha hnil => exact ⟨ha, hd, hnil⟩
  | taken => cases hv

/-- The two sides of `Forgets`, on the models. -/
theorem forgets_iff (history : List Op) : Forgets parse f id history ↔
    ∀ later : List Op,
      observe (Model.step parse f id) (Op.concerns parse f id)
          { Model.after parse f id history with
            mailbox := (Model.after parse f id history).mailbox.clear f } later =
        observe (Model.step parse f id) (Op.concerns parse f id)
          (Model.after parse f id (without parse f id history)) later := by
  have hclear : Model.after parse f id (history ++ [.clear f id]) =
      { Model.after parse f id history with
        mailbox := (Model.after parse f id history).mailbox.clear f } := by
    unfold Model.after after
    rw [List.foldl_append]
    simp only [List.foldl_cons, List.foldl_nil, Model.step, and_self, if_true]
  rw [← hclear]
  refine forall_congr' (fun later => ?_)
  rw [(refines_after parse f id _).observe, (refines_after parse f id _).observe]

/-- The first thing a later consumer is told. -/
theorem observe_next {m : Model} (hid : id ≠ []) (ha : m.mailbox.active = false) (hb : m.mailbox.buffer = []) :
    observe (Model.step parse f id) (Op.concerns parse f id) m [.register f id, .next f id] =
      [.done, if m.mailbox.dropped ≠ 0 then .failed (f.scope.dropError id m.mailbox.dropped.toInt64)
        else .blocked] := by
  have hreg : m.mailbox.register f id = (.done, { m.mailbox with active := true }) := by
    rw [Mailbox.register, if_neg hid, if_neg (by rw [ha]; nofun)]
  have hnext : (Mailbox.next f id { m.mailbox with active := true }).1 =
      if m.mailbox.dropped ≠ 0 then .failed (f.scope.dropError id m.mailbox.dropped.toInt64)
        else .blocked := by
    unfold Mailbox.next
    rw [if_neg nofun]
    split
    · rfl
    · simp only [hb]
  simp only [observe, Op.concerns, Model.step_register, Model.step_next, and_self, decide_true, if_true,
    hreg, hnext]
  rfl

/-- A consumer that comes after a clearing is told of the drops before it. -/
theorem forgets_turn_iff {turnID : Bytes} (h : Unheard m m') (ha : m.mailbox.active = false)
    (hnil : turnID = [] → m.mailbox = .empty) :
    (∀ later : List Op,
      observe (Model.step parse .turn turnID) (Op.concerns parse .turn turnID)
          { m with mailbox := m.mailbox.clear .turn } later =
        observe (Model.step parse .turn turnID) (Op.concerns parse .turn turnID) m' later) ↔
      m.mailbox.dropped = 0 := by
  have hclear : m.mailbox.clear .turn = ⟨m.mailbox.active, [], m.mailbox.dropped, Nat.zero_le _⟩ := by
    rw [Mailbox.clear, if_neg (by rw [ha]; nofun)]
  rw [hclear]
  constructor
  · intro hall
    by_cases hid : turnID = []
    · rw [hnil hid]
      rfl
    by_contra hne
    have hlater := hall [.register .turn turnID, .next .turn turnID]
    rw [observe_next (m := ⟨⟨m.mailbox.active, [], m.mailbox.dropped, _⟩, m.processes⟩) hid ha rfl,
      observe_next hid (h.active.trans ha) h.buffer, if_pos hne,
      if_neg (not_not.mpr h.dropped)] at hlater
    cases hlater
  · intro hzero later
    have hsame : { m with mailbox := ⟨m.mailbox.active, [], m.mailbox.dropped, Nat.zero_le _⟩ } = m' :=
      Model.ext (Mailbox.ext h.active.symm h.buffer.symm (hzero.trans h.dropped.symm)) h.processes.symm
    rw [hsame]

/-- **`clearLoginPending` makes the router forget a login, and `clearPending` a turn if and only if no drop
    is counted for it.** -/
theorem clear_forgets_iff (parse : Bytes → Option Json.Value) (history : List Op) :
    (∀ turnID, get? (Router.after parse history).turns.queues turnID = none →
      (Forgets parse .turn turnID history ↔ (Router.after parse history).turns.droppedOf turnID = 0)) ∧
    (∀ loginID, get? (Router.after parse history).logins.queues loginID = none →
      Forgets parse .login loginID history) := by
  have hunheard : ∀ f id, Unheard (Model.after parse f id history)
      (Model.after parse f id (without parse f id history)) :=
    fun _ _ => Unheard.after ⟨rfl, rfl, rfl, rfl⟩ history
  constructor
  · intro turnID hq
    obtain ⟨ha, hd, hnil⟩ := mailbox_of_unregistered (refines_after parse .turn turnID history) hq
    rw [forgets_iff, forgets_turn_iff (hunheard .turn turnID) ha hnil, hd]
    rfl
  · intro loginID hq later
    obtain ⟨ha, -, -⟩ := mailbox_of_unregistered (refines_after parse .login loginID history) hq
    have hu := hunheard .login loginID
    have hclear : (Model.after parse .login loginID history).mailbox.clear .login = .empty := by
      rw [Mailbox.clear, if_neg (by rw [ha]; nofun)]
    have hsame : { Model.after parse .login loginID history with
        mailbox := (Model.after parse .login loginID history).mailbox.clear .login } =
        Model.after parse .login loginID (without parse .login loginID history) := by
      rw [hclear]
      exact Model.ext (Mailbox.ext (hu.active.trans ha).symm hu.buffer.symm hu.dropped.symm) hu.processes.symm
    exact (forgets_iff history).mpr (fun later => by rw [hsame]) later

/-- A notification of the turn `t`. -/
def turnNotification : Notification := ⟨ascii "turn/started", ascii "\x7b\"turnId\":\"t\"\x7d"⟩

/-- A history with a drop. -/
def overflow : List Op := List.replicate 129 (.route turnNotification)

theorem clear_forgets_one :
    get? (Router.after (fun _ => none) [.route turnNotification]).turns.queues (ascii "t") = none ∧
      (Forgets (fun _ => none) .turn (ascii "t") [.route turnNotification] ↔
        (Router.after (fun _ => none) [.route turnNotification]).turns.droppedOf (ascii "t") = 0) :=
  ⟨by decide +kernel, (clear_forgets_iff (fun _ => none) [.route turnNotification]).1 (ascii "t")
    (by decide +kernel)⟩

/-- One notification too many, then `clearPending`: the next consumer is told of the drop. -/
theorem cleared_turn_reports_drop :
    get? (Router.after (fun _ => none) overflow).turns.queues (ascii "t") = none ∧
      ¬ Forgets (fun _ => none) .turn (ascii "t") overflow := by
  refine ⟨by decide +kernel, fun hforgets => ?_⟩
  have h := hforgets [.register .turn (ascii "t"), .next .turn (ascii "t")]
  revert h
  decide +kernel

end Pandaemonium.Codex
