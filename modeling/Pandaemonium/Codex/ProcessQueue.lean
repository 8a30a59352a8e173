import Pandaemonium.Lib.Bytes
import Pandaemonium.Lib.Machine
import Pandaemonium.Lib.SortedMap

/-!
# `Codex.ProcessQueue` — the ordered notifications of one exec-server process

`execServerProcessQueue` parks the notifications of a process under their sequence numbers and hands them
out in order. A consumer that finds its next number missing waits on a channel of capacity one; `push` and
`close` put a token there without blocking, so that one token stands for any number of pushes.

`QueueRun` is the queue with one consumer: the critical section of `next` and its channel wait are separate
actions, and pushes, a close and the consumer's context may fall anywhere between them.

* `results_in_sequence` — what `next` returns is the sequence 1, 2, 3, …, each as it was pushed, and a
  consumer that waits while its notification is parked finds a token.
-/

namespace Pandaemonium.Codex

open List
open SortedMap (get? insert erase)

/-- `ExecServerProcessNotification` -/
inductive ProcessNotification where
  | output (processID : Bytes) (seq : UInt64) (stream chunk : Bytes)
  | exited (processID : Bytes) (seq : UInt64) (exitCode : Int32)
  | closed (processID : Bytes) (seq : UInt64)
deriving DecidableEq, Repr

namespace ProcessNotification

def processIDValue : ProcessNotification → Bytes
  | output processID _ _ _ => processID
  | exited processID _ _ => processID
  | closed processID _ => processID

def seqValue : ProcessNotification → UInt64
  | output _ seq _ _ => seq
  | exited _ seq _ => seq
  | closed _ seq => seq

end ProcessNotification

/-- `execServerProcessQueue`, with the errors it may be closed with. -/
structure ProcessQueue (ε : Type) where
  nextSeq : UInt64
  pending : List (UInt64 × ProcessNotification)
  /-- the channel holds a token -/
  notify : Bool
  err : Option ε
deriving DecidableEq, Repr

/-- What the critical section of `next` decides. -/
inductive NextTurn (ε : Type) where
  | fail (e : ε)
  | deliver (n : ProcessNotification)
  | wait
deriving DecidableEq, Repr

namespace ProcessQueue

variable {ε : Type}

/-- `newExecServerProcessQueue` -/
def new : ProcessQueue ε := { nextSeq := 1, pending := [], notify := false, err := none }

def push (q : ProcessQueue ε) (n : ProcessNotification) : ProcessQueue ε :=
  match q.err with
  | some _ => q
  | none => { q with pending := insert q.pending n.seqValue n, notify := true }

/-- The critical section of `next`. -/
def next (q : ProcessQueue ε) : NextTurn ε × ProcessQueue ε :=
  match q.err with
  | some e => (.fail e, q)
  | none =>
    match get? q.pending q.nextSeq with
    | some n => (.deliver n, { q with pending := erase q.pending q.nextSeq, nextSeq := q.nextSeq + 1 })
    | none => (.wait, q)

def close (q : ProcessQueue ε) (e : ε) : ProcessQueue ε :=
  match q.err with
  | some _ => q
  | none => { q with err := some e, notify := true }

variable {q : ProcessQueue ε} {n : ProcessNotification} {e : ε}

theorem next_closed (he : q.err = some e) : q.next = (.fail e, q) := by
  rw [next, he]

theorem next_ready (he : q.err = none) (hget : get? q.pending q.nextSeq = some n) :
    q.next = (.deliver n,
      { q with pending := erase q.pending q.nextSeq, nextSeq := q.nextSeq + 1 }) := by
  rw [next, he, hget]

theorem next_missing (he : q.err = none) (hget : get? q.pending q.nextSeq = none) : q.next = (.wait, q) := by
  rw [next, he, hget]

/-- The notification a consumer needs next is parked. -/
def Ready (q : ProcessQueue ε) : Prop := get? q.pending q.nextSeq ≠ none

end ProcessQueue

/-- Where a consumer is in `next`. -/
inductive Consumer where
  /-- between two calls -/
  | outside
  /-- in front of the critical section -/
  | locking
  /-- in the `select` on the channel and the context -/
  | waiting
deriving DecidableEq, Repr

/-- A queue with its one consumer and what the calls of `next` have returned so far. -/
structure QueueRun (ε : Type) where
  queue : ProcessQueue ε
  consumer : Consumer
  results : List ProcessNotification
deriving DecidableEq, Repr

namespace QueueRun

variable {ε : Type}

inductive Action (ε : Type) where
  | push (n : ProcessNotification)
  | close (e : ε)
  /-- the consumer calls `next` -/
  | call
  /-- its critical section -/
  | lock
  /-- it takes the token -/
  | wake
  /-- its context is done -/
  | contextDone
deriving DecidableEq, Repr

def step (s : QueueRun ε) : Action ε → Option (QueueRun ε)
  | .push n => some { s with queue := s.queue.push n }
  | .close e => some { s with queue := s.queue.close e }
  | .call => if s.consumer = .outside then some { s with consumer := .locking } else none
  | .lock =>
    if s.consumer = .locking then
      match s.queue.next with
      | (.deliver n, q) =>
        some { queue := q, consumer := .outside, results := s.results ++ [n] }
      | (.fail _, q) => some { s with queue := q, consumer := .outside }
      | (.wait, q) => some { s with queue := q, consumer := .waiting }
    else none
  | .wake =>
    if s.consumer = .waiting ∧ s.queue.notify then
      some { s with queue := { s.queue with notify := false }, consumer := .locking }
    else none
  | .contextDone =>
    if s.consumer = .waiting then some { s with consumer := .outside } else none

def machine : Machine (QueueRun ε) (Action ε) where
  init := { queue := .new, consumer := .outside, results := [] }
  step := step

end QueueRun

/-! ## Order and wake-ups -/

/-- The number of a notification in the order of its process. -/
def ProcessNotification.number (n : ProcessNotification) : Nat := n.seqValue.toNat

/-- What holds of a queue that has handed out `results`, where every notification pushed satisfies `P`. -/
structure ProcessQueue.Ordered {ε : Type} (P : ProcessNotification → Prop) (q : ProcessQueue ε)
    (results : List ProcessNotification) : Prop where
  numbers : results.map ProcessNotification.number = List.range' 1 results.length
  pushed : ∀ n ∈ results, P n
  bound : results.length < 2 ^ 64
  next : q.nextSeq.toNat = (results.length + 1) % 2 ^ 64
  parked : ∀ e ∈ q.pending, e.2.seqValue = e.1 ∧ P e.2

namespace ProcessQueue.Ordered

variable {ε : Type} {P : ProcessNotification → Prop} {q : ProcessQueue ε}
  {results : List ProcessNotification} {n : ProcessNotification}

theorem push (h : q.Ordered P results) (hn : P n) : (q.push n).Ordered P results := by
  unfold ProcessQueue.push
  split
  · exact h
  refine { h with parked := ?_ }
  intro e he
  rcases SortedMap.mem_insert he with rfl | he
  · exact ⟨rfl, hn⟩
  · exact h.parked e he

theorem close (h : q.Ordered P results) (e : ε) : (q.close e).Ordered P results := by
  unfold ProcessQueue.close
  split
  · exact h
  · exact { h with }

/-- The notification that is handed out has the next number: a parked one keeps its own, and the counter
    cannot have come round to 0, which nothing is parked under. -/
theorem deliver (h : q.Ordered P results) (hP : ∀ n, P n → 1 ≤ n.seqValue)
    (hget : get? q.pending q.nextSeq = some n) :
    ({ q with pending := erase q.pending q.nextSeq, nextSeq := q.nextSeq + 1 } :
      ProcessQueue ε).Ordered P (results ++ [n]) := by
  obtain ⟨hseq, hn⟩ := h.parked _ (SortedMap.mem_of_get? hget)
  have hpos : 1 ≤ q.nextSeq.toNat := by
    have := UInt64.le_iff_toNat_le.mp (hP n hn)
    rwa [hseq] at this
  have hlt : results.length + 1 < 2 ^ 64 := by
    have hb := h.bound
    by_contra hge
    have heq : results.length + 1 = 2 ^ 64 := by omega
    rw [h.next, heq, Nat.mod_self] at hpos
    omega
  have hnext : q.nextSeq.toNat = results.length + 1 := by rw [h.next, Nat.mod_eq_of_lt hlt]
  refine ⟨?_, ?_, ?_, ?_, ?_⟩
  · rw [map_append, h.numbers, length_append, length_singleton, List.range'_concat]
    have : n.number = 1 + 1 * results.length := by
      show n.seqValue.toNat = _
      rw [hseq, hnext]
      omega
    simp [this]
  · intro m hm
    rcases mem_append.mp hm with hm | hm
    · exact h.pushed m hm
    · rw [mem_singleton] at hm
      exact hm ▸ hn
  · simpa using hlt
  · show (q.nextSeq + 1).toNat = _
    rw [UInt64.toNat_add, hnext, length_append, length_singleton]
    rfl
  · intro e he
    exact h.parked e (mem_of_mem_filter he)

end ProcessQueue.Ordered

namespace QueueRun

variable {ε : Type} {P : ProcessNotification → Prop} {s s' : QueueRun ε} {a : Action ε}

structure Inv (P : ProcessNotification → Prop) (s : QueueRun ε) : Prop where
  ordered : s.queue.Ordered P s.results
  /-- a consumer that waits for a parked notification finds a token, and so does one that waits on a
      closed queue -/
  token : s.consumer = .waiting → s.queue.Ready ∨ s.queue.err ≠ none → s.queue.notify = true

theorem ordered_new : (ProcessQueue.new : ProcessQueue ε).Ordered P [] :=
  ⟨rfl, by simp, by decide, rfl, by simp [ProcessQueue.new]⟩

theorem inv_push {n : ProcessNotification} (hi : s.Inv P) (hn : P n) :
    Inv P { s with queue := s.queue.push n } := by
  refine ⟨hi.ordered.push hn, ?_⟩
  cases he : s.queue.err with
  | some e =>
    have : s.queue.push n = s.queue := by rw [ProcessQueue.push, he]
    rw [this]
    exact hi.token
  | none =>
    intro _ _
    show (s.queue.push n).notify = true
    rw [ProcessQueue.push, he]

theorem inv_close {e : ε} (hi : s.Inv P) : Inv P { s with queue := s.queue.close e } := by
  refine ⟨hi.ordered.close e, ?_⟩
  cases he : s.queue.err with
  | some e' =>
    have : s.queue.close e = s.queue := by rw [ProcessQueue.close, he]
    rw [this]
    exact hi.token
  | none =>
    intro _ _
    show (s.queue.close e).notify = true
    rw [ProcessQueue.close, he]

theorem inv_lock (hP : ∀ n, P n → 1 ≤ n.seqValue) (hi : s.Inv P) (hstep : step s .lock = some s') :
    s'.Inv P := by
  simp only [step] at hstep
  split at hstep
  · cases he : s.queue.err with
    | some e =>
      rw [ProcessQueue.next_closed he] at hstep
      cases hstep
      exact ⟨hi.ordered, nofun⟩
    | none =>
      cases hget : get? s.queue.pending s.queue.nextSeq with
      | some n =>
        rw [ProcessQueue.next_ready he hget] at hstep
        cases hstep
        exact ⟨hi.ordered.deliver hP hget, nofun⟩
      | none =>
        -- the consumer goes to wait with nothing to take: no token is owed to it
        rw [ProcessQueue.next_missing he hget] at hstep
        cases hstep
        refine ⟨hi.ordered, ?_⟩
        rintro _ (hready | herr)
        · exact absurd hget hready
        · exact absurd he herr
  · cases hstep

/-- The condition on the actions of a run: what is pushed satisfies `P`. -/
def Pushes (P : ProcessNotification → Prop) : Action ε → Prop
  | .push n => P n
  | _ => True

theorem inv_step (hP : ∀ n, P n → 1 ≤ n.seqValue) (hi : s.Inv P) (ha : Pushes P a)
    (hstep : step s a = some s') : s'.Inv P := by
  cases a
  all_goals simp only [step] at hstep
  case push n => cases hstep; exact inv_push hi ha
  case close e => cases hstep; exact inv_close hi
  case lock => exact inv_lock hP hi hstep
  case call | contextDone =>
    split at hstep <;> cases hstep
    exact ⟨hi.ordered, nofun⟩
  case wake =>
    split at hstep <;> cases hstep
    exact ⟨{ hi.ordered with }, nofun⟩

/-- **Process events come in order and none is stranded.** For notifications with sequence numbers from 1
    on, pushed in any order, and any interleaving with the consumer: the results of `next` are the
    sequence 1, 2, 3, …, each of them one that was pushed, and whenever the consumer waits with its
    notification parked the channel holds a token. -/
theorem results_in_sequence {as : List (Action ε)} {s : QueueRun ε}
    (hseq : ∀ n, .push n ∈ as → 1 ≤ n.seqValue) (hrun : machine.run as = some s) :
    s.results.map (fun n => n.seqValue.toNat) = List.range' 1 s.results.length ∧
      (∀ n ∈ s.results, .push n ∈ as) ∧
      (s.consumer = .waiting → s.queue.Ready → s.queue.notify = true) := by
  let P : ProcessNotification → Prop := fun n => 1 ≤ n.seqValue ∧ Action.push n ∈ as
  have has : machine.Admits (fun _ a => Pushes P a) machine.init as := by
    refine Machine.admits_of_forall ?_
    intro a ha
    cases a with
    | push n => exact ⟨hseq n ha, ha⟩
    | close e | call | lock | wake | contextDone => exact trivial
  have hi : s.Inv P :=
    Machine.admits_invariant (M := machine) ⟨ordered_new, nofun⟩
      (fun _ _ _ => inv_step (fun n hn => hn.1)) has hrun
  exact ⟨hi.ordered.numbers, fun n hn => (hi.ordered.pushed n hn).2, fun hw hr => hi.token hw (Or.inl hr)⟩

/-- Numbers 2 and 1 arrive in this order around a consumer that is already waiting: the first token wakes
    it for nothing, the second for both. -/
theorem results_in_sequence_out_of_order :
    ∃ s : QueueRun Unit, machine.run [.call, .lock, .push (.closed [] 2), .wake, .lock,
        .push (.exited [] 1 0), .wake, .lock, .call, .lock] = some s ∧
      s.results = [.exited [] 1 0, .closed [] 2] ∧
      s.results.map (fun n => n.seqValue.toNat) = List.range' 1 s.results.length := by
  refine Machine.exists_run_and (by decide +kernel) ?_
  refine Machine.exists_run (by decide +kernel) (fun s hrun => (results_in_sequence ?_ hrun).1)
  intro n hn
  simp at hn
  rcases hn with rfl | rfl <;> decide

end QueueRun

end Pandaemonium.Codex
