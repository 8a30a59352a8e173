import Pandaemonium.Lib.GoText
import Pandaemonium.Lib.Machine

/-!
# `Llm.StdioRead` — cancellable line reads (`stdio.go`)

`ReadJSONLine` reads in a goroutine of its own and waits for its result or for the end of the context. A
call that is cancelled while it waits returns, and its goroutine goes on: it takes a line off the shared
reader and sends it to a channel nobody receives from (`line_lost`). The lines come in order and none is
lost as long as no goroutine that was left behind gets a line and no call gives up with its line in the
channel (`lines_in_order`).
-/

namespace Pandaemonium.Llm

open List

/-! ## The machine -/

/-- What a call returns. -/
inductive ReadOutcome where
  | line (data : Bytes)
  /-- `io.EOF` -/
  | eof
  /-- `ctx.Err()` -/
  | cancelled
  deriving DecidableEq, Repr

def ReadOutcome.data : ReadOutcome → Option Bytes
  | .line data => some data
  | _ => none

/-- The next line with its newline, and what is left of the stream. -/
def readJSONLine (stdout : Bytes) : ReadOutcome × Bytes :=
  match GoText.cut 0x0A stdout with
  | (line, rest, true) => (.line (line ++ [0x0A]), rest)
  | (_, _, false) => (.eof, [])

/-- A call that waits in its `select`: its goroutine reads, or has sent what it read. -/
inductive Waiting where
  | reading
  | sent (r : ReadOutcome)
  deriving DecidableEq, Repr

structure ReadState where
  stdout : Bytes
  /-- the call that is under way -/
  call : Option Waiting
  /-- the goroutines of cancelled calls that still read -/
  abandoned : Nat
  /-- what the calls returned, the first one first -/
  results : List ReadOutcome
  deriving DecidableEq, Repr

inductive ReadAction where
  /-- `ReadJSONLine` is called, its context being cancelled already or not -/
  | call (cancelled : Bool)
  /-- the goroutine of the call reads and sends -/
  | read
  /-- the goroutine of a cancelled call does -/
  | readAbandoned
  /-- `case r := <-done` -/
  | receive
  /-- `case <-ctx.Done()` -/
  | cancel
  deriving DecidableEq, Repr

/-- The calls on a stream of these lines, one at a time. -/
def readMachine (lines : List Bytes) : Machine ReadState ReadAction where
  init := ⟨lines.flatten, none, 0, []⟩
  step s
    | .call cancelled =>
      if s.call ≠ none then none
      else if cancelled then some { s with results := s.results ++ [.cancelled] }
      else some { s with call := some .reading }
    | .read =>
      if s.call = some .reading then
        some { s with call := some (.sent (readJSONLine s.stdout).1), stdout := (readJSONLine s.stdout).2 }
      else none
    | .readAbandoned =>
      if s.abandoned = 0 then none
      else some { s with abandoned := s.abandoned - 1, stdout := (readJSONLine s.stdout).2 }
    | .receive =>
      match s.call with
      | some (.sent r) => some { s with call := none, results := s.results ++ [r] }
      | _ => none
    | .cancel =>
      match s.call with
      | none => none
      | some .reading =>
        some { s with call := none, abandoned := s.abandoned + 1, results := s.results ++ [.cancelled] }
      | some (.sent _) => some { s with call := none, results := s.results ++ [.cancelled] }

/-- The lines of the successful calls. -/
def ReadState.lines (s : ReadState) : List Bytes := s.results.filterMap ReadOutcome.data

/-- The line in the channel of the call. -/
def ReadState.held (s : ReadState) : List Bytes :=
  match s.call with
  | some (.sent r) => r.data.toList
  | _ => []

/-- The condition on the steps: a goroutine that was left behind finds no line to take, and a call does not
    give up with a line in its channel. -/
def Careful (s : ReadState) : ReadAction → Prop
  | .readAbandoned => 0x0A ∉ s.stdout
  | .cancel => s.held = []
  | _ => True

instance : ∀ s a, Decidable (Careful s a) := by
  intro s a
  cases a <;> unfold Careful <;> infer_instance

/-- A line of the stream. -/
def IsLine (l : Bytes) : Prop := ∃ body, 0x0A ∉ body ∧ l = body ++ [0x0A]

/-! ## The lines come in order -/

/-- What has been read is returned or in the channel, the rest is left in the stream. -/
def Kept (lines : List Bytes) (s : ReadState) : Prop :=
  ∃ left, (∀ l ∈ left, IsLine l) ∧ s.stdout = left.flatten ∧ lines = s.lines ++ (s.held ++ left)

theorem readJSONLine_cons {l : Bytes} (h : IsLine l) (rest : Bytes) :
    readJSONLine (l ++ rest) = (.line l, rest) := by
  obtain ⟨body, hbody, rfl⟩ := h
  rw [readJSONLine, append_assoc, singleton_append, GoText.cut_append hbody]

namespace Kept

variable {lines : List Bytes} {s s' : ReadState}

/-- A result is returned, and the channel is empty afterwards. -/
theorem returns (h : Kept lines s) {r : ReadOutcome} (hr : r.data.toList = s.held)
    (hstdout : s'.stdout = s.stdout) (hcall : s'.held = []) (hresults : s'.results = s.results ++ [r]) :
    Kept lines s' := by
  obtain ⟨left, hlines, hleft, heq⟩ := h
  refine ⟨left, hlines, hstdout.trans hleft, ?_⟩
  have hall : s'.lines = s.lines ++ s.held := by
    rw [ReadState.lines, hresults, filterMap_append, ← hr]
    cases hdata : r.data <;> simp [ReadState.lines, hdata]
  rw [heq, hcall, hall, append_assoc]
  rfl

theorem read (h : Kept lines s) (hcall : s.call = some .reading) :
    Kept lines { s with call := some (.sent (readJSONLine s.stdout).1), stdout := (readJSONLine s.stdout).2 } := by
  obtain ⟨left, hlines, hleft, heq⟩ := h
  rw [show s.held = [] by rw [ReadState.held, hcall]] at heq
  cases left with
  | nil =>
    rw [hleft]
    exact ⟨[], nofun, rfl, heq⟩
  | cons l left =>
    rw [hleft, flatten_cons, readJSONLine_cons (hlines l mem_cons_self)]
    exact ⟨left, fun l' hl' => hlines l' (mem_cons_of_mem l hl'), rfl, heq⟩

/-- A stream with no newline left is at its end. -/
theorem at_end (h : Kept lines s) (hnone : 0x0A ∉ s.stdout) : s.stdout = [] := by
  obtain ⟨left, hlines, hleft, -⟩ := h
  cases left with
  | nil => exact hleft
  | cons l left =>
    obtain ⟨body, -, rfl⟩ := hlines l mem_cons_self
    rw [hleft] at hnone
    simp at hnone

/-- **Every careful step keeps the lines.** -/
theorem step (h : Kept lines s) {a : ReadAction} (hok : Careful s a)
    (hstep : (readMachine lines).step s a = some s') : Kept lines s' := by
  cases a
  all_goals simp only [readMachine] at hstep
  case call cancelled =>
    split at hstep
    · cases hstep
    rename_i hcall
    have hheld : s.held = [] := by rw [ReadState.held, not_not.mp hcall]
    split at hstep <;> cases hstep
    · exact h.returns (r := .cancelled) hheld.symm rfl hheld rfl
    obtain ⟨left, hlines, hleft, heq⟩ := h
    rw [hheld] at heq
    exact ⟨left, hlines, hleft, heq⟩
  case read =>
    split at hstep <;> cases hstep
    rename_i hcall
    exact h.read hcall
  case readAbandoned =>
    split at hstep <;> cases hstep
    have hend := h.at_end hok
    obtain ⟨left, hlines, hleft, heq⟩ := h
    rw [hend]
    exact ⟨left, hlines, by rw [← hleft, hend]; rfl, heq⟩
  case receive =>
    split at hstep <;> cases hstep
    rename_i r hcall
    exact h.returns (r := r) (by rw [ReadState.held, hcall]) rfl rfl rfl
  case cancel =>
    split at hstep <;> cases hstep
    all_goals exact h.returns (r := .cancelled) (Eq.symm hok) rfl rfl rfl

end Kept

/-- **The lines come in order**: what the successful calls return are the first lines of the stream. -/
theorem lines_in_order {lines : List Bytes} (hlines : ∀ l ∈ lines, IsLine l) {as : List ReadAction}
    {s : ReadState} (has : (readMachine lines).Admits Careful (readMachine lines).init as)
    (hrun : (readMachine lines).run as = some s) : s.lines <+: lines := by
  have hinit : Kept lines (readMachine lines).init := ⟨lines, hlines, rfl, rfl⟩
  obtain ⟨left, -, -, heq⟩ :=
    Machine.admits_invariant (I := Kept lines) hinit (fun _ _ _ h hok => h.step hok) has hrun
  exact ⟨s.held ++ left, heq.symm⟩

/-- Two calls read their lines, one is cancelled on entry, and one while it waits at the end of the stream. -/
theorem lines_in_order_cancelled :
    ∃ s, (readMachine [ascii "1\n", ascii "2\n"]).run [.call false, .read, .receive, .call true,
        .call false, .read, .receive, .call false, .cancel, .readAbandoned] = some s ∧
      s.results = [.line (ascii "1\n"), .cancelled, .line (ascii "2\n"), .cancelled] ∧
      s.lines <+: [ascii "1\n", ascii "2\n"] := by
  have hlines : ∀ l ∈ [ascii "1\n", ascii "2\n"], IsLine l :=
    forall_mem_cons.mpr ⟨⟨ascii "1", by decide, rfl⟩,
      forall_mem_cons.mpr ⟨⟨ascii "2", by decide, rfl⟩, nofun⟩⟩
  refine ⟨⟨[], none, 0, _⟩, ?run, rfl, lines_in_order hlines ?_ ?run⟩
  all_goals decide +kernel

/-- The first call is cancelled before its goroutine reads: the goroutine takes the first line, and the next
    call returns the second. -/
theorem line_lost :
    ∃ s, (readMachine [ascii "1\n", ascii "2\n"]).run
        [.call false, .cancel, .readAbandoned, .call false, .read, .receive] = some s ∧
      s.results = [.cancelled, .line (ascii "2\n")] ∧ ¬ s.lines <+: [ascii "1\n", ascii "2\n"] := by
  exact ⟨_, rfl, rfl, by decide⟩

end Pandaemonium.Llm
