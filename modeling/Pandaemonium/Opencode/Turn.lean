import Pandaemonium.Lib.Bytes
import Pandaemonium.Lib.Machine
import Pandaemonium.Llm.NotifyQueue

/-!
# `Opencode.Turn` — consuming a turn (`api.go`)

A turn has two sources of truth. The prompt goroutine sends its outcome, once, into a channel of capacity one;
session events come through the consumer queue of the bus. A call of `Stream` or `Run` (`consume`) starts a
pump goroutine that takes events out of the queue and offers them on an unbuffered channel, and then selects
among its context, the outcome, the drain timer, the events and the error of the pump. What an interrupted
consumer has learnt is kept on the handle (`out`, `progress`) for the next one. Pumps of consumers that have
returned may still be about, with an event in hand.

The machine has one action for each critical section, channel operation and return of `consume` and
`pumpEvents`, for the prompt goroutine, and for what comes from outside: events pushed to the queue, loss of
the bus, the end of the client lifetime, calls of `consume` and the end of their contexts. The drain timer may
fire as soon as it is set. Calls of `consume` are numbered; each carries its pump. The events of the queue are
numbered too, and two histories are kept: the numbers of the decodable session errors that were pushed before
the outcome was sent (`errors`), and of the events that were evicted from the queue by overflow (`evicted`).

Every error of a turn also carries the session id of the handle, which never changes and is left out here, as
are the counters.
-/

namespace Pandaemonium.Opencode

open Llm

/-- `MessageError`; `message` is the text `Message()` finds in its data. -/
structure MessageError where
  name : Bytes
  message : Bytes
deriving DecidableEq, Repr

structure SessionErrorProperties where
  error : Option MessageError
deriving DecidableEq, Repr

/-- `Event`, as far as a turn looks at it; the payload is `none` when it does not decode. -/
inductive Event where
  /-- `message.updated`, with role and id of the message -/
  | messageUpdated (info : Option (Bytes × Bytes))
  /-- `session.error` -/
  | sessionError (props : Option SessionErrorProperties)
  /-- `session.idle` -/
  | sessionIdle
  | gap
  | other (type : Bytes)
deriving DecidableEq, Repr

instance : Inhabited Event := ⟨.other []⟩

/-- `PromptResponse`; `result` is what `newRunResult` makes of it. -/
structure PromptResponse (ρ : Type) where
  id : Bytes
  error : Option MessageError
  result : ρ
deriving DecidableEq, Repr

structure TurnOutcome (ρ : Type) where
  resp : PromptResponse ρ
  err : Option Bytes
deriving DecidableEq, Repr

structure TurnProgress where
  sawIdle : Bool
  sessErr : Option SessionErrorProperties
deriving DecidableEq, Repr

inductive TurnError where
  | messageAborted (messageID message : Bytes)
  | turnFailed (messageID : Bytes) (err : MessageError)
  | transportClosed (message : Bytes)
  /-- the error of the prompt request -/
  | prompt (err : Bytes)
deriving DecidableEq, Repr

/-- `mapTurnError`. -/
def mapTurnError (messageID : Bytes) (err : MessageError) : TurnError :=
  if err.name = ascii "MessageAbortedError" then .messageAborted messageID err.message
  else .turnFailed messageID err

/-- `promptOutcome` of a request that did not fail. -/
def promptOutcome {ρ : Type} (resp : PromptResponse ρ) : Except TurnError ρ :=
  match resp.error with
  | some err => .error (mapTurnError resp.id err)
  | none => .ok resp.result

/-- `classifyPromptError`. -/
def classifyPromptError (lifetimeDone : Bool) (err : Bytes) : TurnError :=
  if lifetimeDone then .transportClosed (ascii "opencode client closed during turn: " ++ err)
  else .prompt err

/-- The result of `resolve`, from the progress it read. -/
def resolution {ρ : Type} (progress : TurnProgress) (messageID : Bytes) (lifetimeDone : Bool)
    (out : TurnOutcome ρ) : Except TurnError ρ :=
  match progress.sessErr with
  | some props =>
    .error (mapTurnError messageID (props.error.getD ⟨ascii "UnknownError", []⟩))
  | none =>
    match out.err with
    | some err => .error (classifyPromptError lifetimeDone err)
    | none => promptOutcome out.resp

def turnOver {ρ : Type} (progress : TurnProgress) (out : TurnOutcome ρ) : Bool :=
  out.err.isSome || out.resp.error.isSome || progress.sessErr.isSome || progress.sawIdle

/-- `setMessageID`: the first id that is not empty stays. -/
def setMessageID (messageID id : Bytes) : Bytes := if messageID = [] then id else messageID

/-- What `consume` returns. -/
inductive ConsumeResult (ρ : Type) where
  | resolved (r : Except TurnError ρ)
  /-- `turn on session %s already completed` -/
  | completed
  /-- `turn stream already active for session %s` -/
  | active
  /-- `ctx.Err()` -/
  | contextDone
  /-- `errEarlyStop` -/
  | earlyStop
  /-- the error of the pump -/
  | busLost (err : Bytes)

/-- Where a call of `consume` is. -/
inductive Phase (ρ : Type) where
  /-- before `storedOutcome` -/
  | resuming
  /-- in the `select` -/
  | selecting
  /-- the outcome received, before `setOutcome` -/
  | received (o : TurnOutcome ρ)
  /-- before `turnOver`, the outcome stored -/
  | judging (o : TurnOutcome ρ)
  /-- an event received, before `note` -/
  | noting (n : Nat) (ev : Event)
  /-- in `yield` -/
  | yielding
  /-- behind an event, before `turnOver` -/
  | weighing
  /-- in `resolve`, before the progress is read -/
  | resolving (o : TurnOutcome ρ)
  /-- before `finish` -/
  | finishing (o : TurnOutcome ρ) (p : TurnProgress)
  /-- in `finish`, before `unsubscribe` -/
  | unsubscribing (o : TurnOutcome ρ) (p : TurnProgress)
  /-- behind `finish` -/
  | concluding (o : TurnOutcome ρ) (p : TurnProgress)
  /-- before the deferred `cancelPump` -/
  | leaving (r : ConsumeResult ρ)
  /-- before the deferred `releaseConsumer` -/
  | releasing (r : ConsumeResult ρ)
  | returned (r : ConsumeResult ρ)

/-- Where the pump of a call is. -/
inductive Pump where
  /-- before the critical section of `Next` -/
  | asking
  /-- in the `select` of `Next` -/
  | blocked
  /-- offering an event -/
  | holding (n : Nat) (ev : Event)
  /-- before `pumpErr <- err` -/
  | failing (err : Bytes)
  | done
deriving DecidableEq, Repr

/-- A call of `consume`. -/
structure Consumer (ρ : Type) where
  streaming : Bool
  ctxDone : Bool
  phase : Phase ρ
  /-- the local `out`; `outcomeCh` is `nil` once it is set -/
  out : Option (TurnOutcome ρ)
  /-- `drainCh` is set -/
  drain : Bool
  /-- `events` and `pumpErr` are not `nil` -/
  listening : Bool
  pump : Pump
  /-- `cancelPump` has been called -/
  pumpCancelled : Bool
  /-- the channel `pumpErr`, of capacity one -/
  pumpErr : Option Bytes

inductive Prompt (ρ : Type) where
  | running
  /-- before the send -/
  | returned (o : TurnOutcome ρ)
  | sent (o : TurnOutcome ρ)

structure State (ρ : Type) where
  /-- the consumer queue of the turn -/
  queue : NotifyQueue (Nat × Event) Bytes
  pushed : Nat
  errors : List Nat
  evicted : List Nat
  prompt : Prompt ρ
  /-- the channel `outcome` -/
  outcome : Option (TurnOutcome ρ)
  messageID : Bytes
  consuming : Bool
  finished : Bool
  out : Option (TurnOutcome ρ)
  progress : TurnProgress
  lifetimeDone : Bool
  consumers : List (Consumer ρ)

/-- `eventQueueCapacity`. -/
def eventQueueCapacity : Nat := 128

/-- The event is a session error that decodes. -/
def Event.isError : Event → Bool
  | .sessionError (some _) => true
  | _ => false

/-- The pump's context is done. -/
def Consumer.pumpDone {ρ : Type} (c : Consumer ρ) : Bool := c.ctxDone || c.pumpCancelled

namespace State

variable {ρ : Type} (s : State ρ)

/-- The outcome has been sent. -/
def wasSent : Bool :=
  match s.prompt with
  | .sent _ => true
  | _ => false

def setConsumer (i : Nat) (c : Consumer ρ) : State ρ := { s with consumers := s.consumers.set i c }

/-- `busConsumer.push`. -/
def push (ev : Event) : State ρ :=
  let r := s.queue.pushBounded (s.pushed, ev) eventQueueCapacity (fun _ => some (s.pushed, .gap))
  let dropped := s.queue.pending.length - (eventQueueCapacity - 2)
  { s with
    queue := r.1
    pushed := s.pushed + 1
    errors := if r.2 && ev.isError && !s.wasSent then s.errors ++ [s.pushed] else s.errors
    evicted :=
      if r.2 && decide (s.queue.pending.length ≥ eventQueueCapacity) then
        s.evicted ++ (s.queue.pending.take dropped).map Prod.fst
      else s.evicted }

/-- `note`. -/
def note (ev : Event) : State ρ :=
  match ev with
  | .messageUpdated (some (role, id)) =>
    if role = ascii "assistant" then { s with messageID := setMessageID s.messageID id } else s
  | .sessionError (some props) => { s with progress := ⟨s.progress.sawIdle, some props⟩ }
  | .sessionIdle => { s with progress := ⟨true, s.progress.sessErr⟩ }
  | _ => s

end State

/-- A call that has become the consumer of the turn. -/
def Consumer.new {ρ : Type} (streaming : Bool) : Consumer ρ :=
  ⟨streaming, false, .resuming, none, false, true, .asking, false, none⟩

/-- A call that was refused. -/
def Consumer.refused {ρ : Type} (streaming : Bool) (r : ConsumeResult ρ) : Consumer ρ :=
  ⟨streaming, false, .returned r, none, false, false, .done, false, none⟩

/-- `acquireConsumer`. -/
def State.acquire {ρ : Type} (s : State ρ) (streaming : Bool) : State ρ :=
  if s.finished then { s with consumers := s.consumers ++ [.refused streaming .completed] }
  else if s.consuming then { s with consumers := s.consumers ++ [.refused streaming .active] }
  else { s with consuming := true, consumers := s.consumers ++ [.new streaming] }

section

variable {ρ : Type} {s : State ρ} (streaming : Bool)

theorem State.acquire_finished (h : s.finished = true) :
    s.acquire streaming = { s with consumers := s.consumers ++ [.refused streaming .completed] } := by
  rw [State.acquire, if_pos h]

theorem State.acquire_busy (h : s.finished = false) (hc : s.consuming = true) :
    s.acquire streaming = { s with consumers := s.consumers ++ [.refused streaming .active] } := by
  rw [State.acquire, if_neg (by rw [h]; nofun), if_pos hc]

theorem State.acquire_free (h : s.finished = false) (hc : s.consuming = false) :
    s.acquire streaming
      = { s with consuming := true, consumers := s.consumers ++ [.new streaming] } := by
  rw [State.acquire, if_neg (by rw [h]; nofun), if_neg (by rw [hc]; nofun)]

end

/-- The steps of a call of `consume`. -/
inductive ConsumeStep where
  | resume
  | contextDone
  | outcome
  | store
  | judge
  | drain
  | event
  | note
  /-- `yield` returns `more` -/
  | yield (more : Bool)
  | weigh
  | pumpErr
  | resolve
  | finish
  | unsubscribe
  | conclude
  | cancelPump
  | release
deriving DecidableEq, Repr

/-- The steps of a pump. -/
inductive PumpStep where
  /-- the critical section of `Next` -/
  | ask
  /-- the token is taken -/
  | wake
  /-- `Next` returns because the context is done -/
  | giveUp
  | fail
  /-- the pump returns with an event in hand, because its context is done -/
  | drop
deriving DecidableEq, Repr

inductive Action (ρ : Type) where
  /-- the prompt request returns -/
  | promptReturns (o : TurnOutcome ρ)
  | promptSends
  /-- the bus routes an event to the queue of the turn -/
  | push (ev : Event)
  /-- the bus closes the queue of the turn -/
  | busLost (err : Bytes)
  /-- the client lifetime ends -/
  | endLifetime
  /-- a call of `Stream` or `Run`, up to `acquireConsumer` -/
  | call (streaming : Bool)
  /-- the context of a call ends -/
  | cancel (i : Nat)
  | consume (i : Nat) (a : ConsumeStep)
  | pump (i : Nat) (a : PumpStep)

section

variable {ρ : Type}

/-- A step of `consume`, from the phase the call is in: the state with the call left aside, and the call. -/
def stepConsume (s : State ρ) (c : Consumer ρ) : ConsumeStep → Option (State ρ × Consumer ρ)
  | .resume =>
    match c.phase with
    | .resuming =>
      match s.out with
      | some o => some (s, { c with phase := .resolving o })
      | none => some (s, { c with phase := .selecting })
    | _ => none
  | .contextDone =>
    match c.phase, c.ctxDone with
    | .selecting, true => some (s, { c with phase := .leaving .contextDone })
    | _, _ => none
  | .outcome =>
    match c.phase, c.out, s.outcome with
    | .selecting, none, some o => some ({ s with outcome := none }, { c with phase := .received o })
    | _, _, _ => none
  | .store =>
    match c.phase with
    | .received o =>
      some ({ s with out := s.out.or (some o) }, { c with phase := .judging o, out := some o })
    | _ => none
  | .judge =>
    match c.phase with
    | .judging o =>
      if turnOver s.progress o then some (s, { c with phase := .resolving o })
      else some (s, { c with phase := .selecting, drain := true })
    | _ => none
  | .drain =>
    match c.phase, c.drain, c.out with
    | .selecting, true, some o => some (s, { c with phase := .resolving o })
    | _, _, _ => none
  | .event =>
    match c.phase, c.listening, c.pump with
    | .selecting, true, .holding n ev => some (s, { c with phase := .noting n ev, pump := .asking })
    | _, _, _ => none
  | .note =>
    match c.phase with
    | .noting _ ev =>
      some (s.note ev, { c with phase := if c.streaming then .yielding else .weighing })
    | _ => none
  | .yield more =>
    match c.phase with
    | .yielding =>
      if more then some (s, { c with phase := .weighing })
      else some (s, { c with phase := .leaving .earlyStop })
    | _ => none
  | .weigh =>
    match c.phase, c.out with
    | .weighing, some o =>
      if turnOver s.progress o then some (s, { c with phase := .resolving o })
      else some (s, { c with phase := .selecting })
    | .weighing, none => some (s, { c with phase := .selecting })
    | _, _ => none
  | .pumpErr =>
    match c.phase, c.listening, c.pumpErr with
    | .selecting, true, some err =>
      if c.streaming then some (s, { c with phase := .leaving (.busLost err) })
      else
        match c.out with
        | some o => some (s, { c with phase := .resolving o, listening := false })
        | none => some (s, { c with listening := false })
    | _, _, _ => none
  | .resolve =>
    match c.phase with
    | .resolving o => some (s, { c with phase := .finishing o s.progress })
    | _ => none
  | .finish =>
    match c.phase with
    | .finishing o p =>
      if s.finished then some (s, { c with phase := .concluding o p })
      else some ({ s with finished := true }, { c with phase := .unsubscribing o p })
    | _ => none
  | .unsubscribe =>
    match c.phase with
    | .unsubscribing o p =>
      let q := (s.queue.close (some (ascii "opencode event bus consumer unsubscribed"))).1
      some ({ s with queue := q }, { c with phase := .concluding o p })
    | _ => none
  | .conclude =>
    match c.phase with
    | .concluding o p =>
      let r := resolution p s.messageID s.lifetimeDone o
      some (s, { c with phase := .leaving (.resolved r) })
    | _ => none
  | .cancelPump =>
    match c.phase with
    | .leaving r => some (s, { c with phase := .releasing r, pumpCancelled := true })
    | _ => none
  | .release =>
    match c.phase with
    | .releasing r => some ({ s with consuming := false }, { c with phase := .returned r })
    | _ => none

/-- The text of `busConsumer.next` for a queue closed without an error. -/
def consumerClosed : Bytes := ascii "opencode event bus consumer closed"

/-- The error of `Next` whose context is done. -/
def contextCanceled : Bytes := ascii "context canceled"

/-- A step of the pump of a call. -/
def stepPump (s : State ρ) (c : Consumer ρ) : PumpStep → Option (State ρ × Consumer ρ)
  | .ask =>
    match c.pump with
    | .asking =>
      match s.queue.next with
      | (q, .item (n, ev) _) => some ({ s with queue := q }, { c with pump := .holding n ev })
      | (_, .closed err) => some (s, { c with pump := .failing (err.getD consumerClosed) })
      | (_, .wait) => some (s, { c with pump := .blocked })
    | _ => none
  | .wake =>
    match c.pump with
    | .blocked => some (s, { c with pump := .asking })
    | _ => none
  | .giveUp =>
    match c.pump, c.pumpDone with
    | .blocked, true => some (s, { c with pump := .failing contextCanceled })
    | _, _ => none
  | .fail =>
    match c.pump with
    | .failing err => some (s, { c with pump := .done, pumpErr := some err })
    | _ => none
  | .drop =>
    match c.pump, c.pumpDone with
    | .holding _ _, true => some (s, { c with pump := .done })
    | _, _ => none

/-- A step of the call `i`. -/
def stepAt (s : State ρ) (i : Nat) (f : Consumer ρ → Option (State ρ × Consumer ρ)) :
    Option (State ρ) :=
  match s.consumers[i]? with
  | some c => (f c).map (fun r => r.1.setConsumer i r.2)
  | none => none

def step (s : State ρ) : Action ρ → Option (State ρ)
  | .promptReturns o =>
    match s.prompt with
    | .running =>
      some { s with
        prompt := .returned o
        messageID := if o.err.isNone then setMessageID s.messageID o.resp.id else s.messageID }
    | _ => none
  | .promptSends =>
    match s.prompt with
    | .returned o => some { s with prompt := .sent o, outcome := some o }
    | _ => none
  | .push ev => some (s.push ev)
  | .busLost err => some { s with queue := (s.queue.close (some err)).1 }
  | .endLifetime => some { s with lifetimeDone := true }
  | .call streaming => some (s.acquire streaming)
  | .cancel i => stepAt s i (fun c => some (s, { c with ctxDone := true }))
  | .consume i a => stepAt s i (fun c => stepConsume s c a)
  | .pump i a => stepAt s i (fun c => stepPump s c a)

variable (ρ) in
/-- A turn once it has been started. -/
def machine : Machine (State ρ) (Action ρ) where
  init :=
    { queue := .new, pushed := 0, errors := [], evicted := [], prompt := .running, outcome := none
      messageID := [], consuming := false, finished := false, out := none, progress := ⟨false, none⟩
      lifetimeDone := false, consumers := [] }
  step := step

/-! ## The branches of a step -/

/-- The branches of `stepConsume`. -/
inductive ConsumeMove (s : State ρ) (c : Consumer ρ) : ConsumeStep → State ρ → Consumer ρ → Prop where
  | resume (o) : c.phase = .resuming → s.out = some o →
      ConsumeMove s c .resume s { c with phase := .resolving o }
  | select : c.phase = .resuming → s.out = none →
      ConsumeMove s c .resume s { c with phase := .selecting }
  | contextDone : c.phase = .selecting → c.ctxDone = true →
      ConsumeMove s c .contextDone s { c with phase := .leaving .contextDone }
  | outcome (o) : c.phase = .selecting → c.out = none → s.outcome = some o →
      ConsumeMove s c .outcome { s with outcome := none } { c with phase := .received o }
  | store (o) : c.phase = .received o →
      ConsumeMove s c .store { s with out := s.out.or (some o) }
        { c with phase := .judging o, out := some o }
  | judgeOver (o) : c.phase = .judging o → turnOver s.progress o = true →
      ConsumeMove s c .judge s { c with phase := .resolving o }
  | judge (o) : c.phase = .judging o →
      ConsumeMove s c .judge s { c with phase := .selecting, drain := true }
  | drain (o) : c.phase = .selecting → c.out = some o →
      ConsumeMove s c .drain s { c with phase := .resolving o }
  | event (n ev) : c.phase = .selecting → c.pump = .holding n ev →
      ConsumeMove s c .event s { c with phase := .noting n ev, pump := .asking }
  | note (n ev) : c.phase = .noting n ev →
      ConsumeMove s c .note (s.note ev)
        { c with phase := if c.streaming then .yielding else .weighing }
  | more : c.phase = .yielding → ConsumeMove s c (.yield true) s { c with phase := .weighing }
  | stop : c.phase = .yielding →
      ConsumeMove s c (.yield false) s { c with phase := .leaving .earlyStop }
  | weighOver (o) : c.phase = .weighing → c.out = some o → turnOver s.progress o = true →
      ConsumeMove s c .weigh s { c with phase := .resolving o }
  | weigh : c.phase = .weighing → ConsumeMove s c .weigh s { c with phase := .selecting }
  | busLost (err) : c.phase = .selecting → c.streaming = true →
      ConsumeMove s c .pumpErr s { c with phase := .leaving (.busLost err) }
  | deafOver (o) : c.phase = .selecting → c.out = some o →
      ConsumeMove s c .pumpErr s { c with phase := .resolving o, listening := false }
  | deaf : c.phase = .selecting → c.out = none →
      ConsumeMove s c .pumpErr s { c with listening := false }
  | resolve (o) : c.phase = .resolving o →
      ConsumeMove s c .resolve s { c with phase := .finishing o s.progress }
  | finishAgain (o p) : c.phase = .finishing o p → s.finished = true →
      ConsumeMove s c .finish s { c with phase := .concluding o p }
  | finish (o p) : c.phase = .finishing o p → s.finished = false →
      ConsumeMove s c .finish { s with finished := true } { c with phase := .unsubscribing o p }
  | unsubscribe (o p) : c.phase = .unsubscribing o p →
      ConsumeMove s c .unsubscribe
        { s with
          queue := (s.queue.close (some (ascii "opencode event bus consumer unsubscribed"))).1 }
        { c with phase := .concluding o p }
  | conclude (o p) : c.phase = .concluding o p →
      ConsumeMove s c .conclude s
        { c with phase := .leaving (.resolved (resolution p s.messageID s.lifetimeDone o)) }
  | cancelPump (r) : c.phase = .leaving r →
      ConsumeMove s c .cancelPump s { c with phase := .releasing r, pumpCancelled := true }
  | release (r) : c.phase = .releasing r →
      ConsumeMove s c .release { s with consuming := false } { c with phase := .returned r }

theorem stepConsume_inv {s s₁ : State ρ} {c c₁ : Consumer ρ} {a : ConsumeStep}
    (h : stepConsume s c a = some (s₁, c₁)) : ConsumeMove s c a s₁ c₁ := by
  cases a
  all_goals simp only [stepConsume] at h
  case resume =>
    split at h
    · rename_i hp
      split at h
      · next o ho => cases h; exact .resume o hp ho
      · next ho => cases h; exact .select hp ho
    · cases h
  case contextDone =>
    split at h
    · next hp hd => cases h; exact .contextDone hp hd
    · cases h
  case outcome =>
    split at h
    · next o hp hout ho => cases h; exact .outcome o hp hout ho
    · cases h
  case store =>
    split at h
    · next o hp => cases h; exact .store o hp
    · cases h
  case judge =>
    split at h
    · rename_i o hp
      split at h
      · next hover => cases h; exact .judgeOver o hp hover
      · cases h; exact .judge o hp
    · cases h
  case drain =>
    split at h
    · next o hp _ ho => cases h; exact .drain o hp ho
    · cases h
  case event =>
    split at h
    · next n ev hp _ hpump => cases h; exact .event n ev hp hpump
    · cases h
  case note =>
    split at h
    · next n ev hp => cases h; exact .note n ev hp
    · cases h
  case yield more =>
    split at h
    · rename_i hp
      cases more with
      | true => cases h; exact .more hp
      | false => cases h; exact .stop hp
    · cases h
  case weigh =>
    split at h
    · rename_i o hp ho
      split at h
      · next hover => cases h; exact .weighOver o hp ho hover
      · cases h; exact .weigh hp
    · next hp _ => cases h; exact .weigh hp
    · cases h
  case pumpErr =>
    split at h
    · rename_i err hp _ _
      split at h
      · next hs => cases h; exact .busLost err hp hs
      split at h
      · next o ho => cases h; exact .deafOver o hp ho
      · next ho => cases h; exact .deaf hp ho
    · cases h
  case resolve =>
    split at h
    · next o hp => cases h; exact .resolve o hp
    · cases h
  case finish =>
    split at h
    · rename_i o p hp
      cases hf : s.finished with
      | true =>
        rw [hf] at h
        cases h
        exact .finishAgain o p hp hf
      | false =>
        rw [hf] at h
        cases h
        exact .finish o p hp hf
    · cases h
  case unsubscribe =>
    split at h
    · next o p hp => cases h; exact .unsubscribe o p hp
    · cases h
  case conclude =>
    split at h
    · next o p hp => cases h; exact .conclude o p hp
    · cases h
  case cancelPump =>
    split at h
    · next r hp => cases h; exact .cancelPump r hp
    · cases h
  case release =>
    split at h
    · next r hp => cases h; exact .release r hp
    · cases h

/-- The branches of `stepPump`. -/
inductive PumpMove (s : State ρ) (c : Consumer ρ) : PumpStep → State ρ → Consumer ρ → Prop where
  | item (n ev rearm) : c.pump = .asking → s.queue.next.2 = .item (n, ev) rearm →
      PumpMove s c .ask { s with queue := s.queue.next.1 } { c with pump := .holding n ev }
  | drop (n ev) : c.pump = .holding n ev → c.pumpDone = true →
      PumpMove s c .drop s { c with pump := .done }
  /-- nothing is in hand before and after -/
  | other (a p e) : (∀ n ev, c.pump ≠ .holding n ev) → (∀ n ev, p ≠ .holding n ev) →
      PumpMove s c a s { c with pump := p, pumpErr := e }

theorem stepPump_inv {s s₁ : State ρ} {c c₁ : Consumer ρ} {a : PumpStep}
    (h : stepPump s c a = some (s₁, c₁)) : PumpMove s c a s₁ c₁ := by
  cases a
  all_goals simp only [stepPump] at h
  case ask =>
    split at h
    · rename_i hp
      split at h
      · rename_i q n ev rearm hq
        cases h
        have hnext := PumpMove.item (s := s) n ev rearm hp (by rw [hq])
        rw [hq] at hnext
        exact hnext
      · cases h; exact .other .ask _ c.pumpErr (by rw [hp]; nofun) nofun
      · cases h; exact .other .ask _ c.pumpErr (by rw [hp]; nofun) nofun
    · cases h
  case wake =>
    split at h
    · next hp => cases h; exact .other .wake _ c.pumpErr (by rw [hp]; nofun) nofun
    · cases h
  case giveUp =>
    split at h
    · next hp _ => cases h; exact .other .giveUp _ c.pumpErr (by rw [hp]; nofun) nofun
    · cases h
  case fail =>
    split at h
    · next err hp => cases h; exact .other .fail _ _ (by rw [hp]; nofun) nofun
    · cases h
  case drop =>
    split at h
    · next n ev hp hd => cases h; exact .drop n ev hp hd
    · cases h

theorem stepAt_inv {s s' : State ρ} {i : Nat} {f : Consumer ρ → Option (State ρ × Consumer ρ)}
    (h : stepAt s i f = some s') :
    ∃ c s₁ c₁, s.consumers[i]? = some c ∧ f c = some (s₁, c₁) ∧ s' = s₁.setConsumer i c₁ := by
  unfold stepAt at h
  split at h
  · rename_i c hc
    obtain ⟨⟨s₁, c₁⟩, hf, rfl⟩ := Option.map_eq_some_iff.mp h
    exact ⟨c, s₁, c₁, hc, hf, rfl⟩
  · cases h

end

end Pandaemonium.Opencode
