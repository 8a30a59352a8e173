import Pandaemonium.Lib.Bytes

/-!
# `Tmux.Output` — the escapes of `%output` (`output.go`)

tmux writes the bytes of a pane with some of them as a backslash and three octal digits. `Encodes v b` says
that `v` is such a writing of `b`, where any byte but the backslash may also stand for itself. The decoder
accepts the writings and nothing else, and what it has decoded when it fails is the longest part of its
input that is one (`output_decoding`).
-/

namespace Pandaemonium.Tmux

open List

/-- The errors of `decodeOutputValuePartial`, with the position each names. -/
inductive OutputError where
  /-- `tmux: incomplete octal escape at byte %d` -/
  | incomplete (at_ : Nat)
  /-- `tmux: invalid octal digit %q at byte %d` -/
  | invalidDigit (digit : UInt8) (at_ : Nat)
  /-- `tmux: octal escape at byte %d is out of range` -/
  | outOfRange (at_ : Nat)
  deriving DecidableEq, Repr

def isOctal (digit : UInt8) : Bool := 0x30 ≤ digit && digit ≤ 0x37

/-- The inner loop: the number of the digits from position `i` on, or the first byte that is none. -/
def octalValue (i v : Nat) : Bytes → Except OutputError Nat
  | [] => .ok v
  | digit :: digits =>
    if isOctal digit = false then .error (.invalidDigit digit i)
    else octalValue (i + 1) (v * 8 + (digit.toNat - 0x30)) digits

/-- The loop from position `i` on, with `out` decoded so far. -/
def decodeOutputFrom (i : Nat) (out : Bytes) : Bytes → Bytes × Option OutputError
  | [] => (out, none)
  | b :: t =>
    if b ≠ 0x5C then decodeOutputFrom (i + 1) (out ++ [b]) t
    else
      match t with
      | d₁ :: d₂ :: d₃ :: rest =>
        match octalValue (i + 1) 0 [d₁, d₂, d₃] with
        | .error e => (out, some e)
        | .ok v =>
          if v > 0xFF then (out, some (.outOfRange i))
          else decodeOutputFrom (i + 4) (out ++ [UInt8.ofNat v]) rest
      | _ => (out, some (.incomplete i))

def decodeOutputValuePartial (value : Bytes) : Bytes × Option OutputError := decodeOutputFrom 0 [] value

def decodeOutputValue (value : Bytes) : Except OutputError Bytes :=
  match decodeOutputValuePartial value with
  | (_, some e) => .error e
  | (out, none) => .ok out

/-! ## The writings of a byte string -/

/-- `d₁`, `d₂`, `d₃` are the octal digits of `x`. -/
def OctalOf (x d₁ d₂ d₃ : UInt8) : Prop :=
  isOctal d₁ = true ∧ isOctal d₂ = true ∧ isOctal d₃ = true ∧
    x.toNat = (d₁.toNat - 0x30) * 64 + (d₂.toNat - 0x30) * 8 + (d₃.toNat - 0x30)

/-- **A writing** of a byte string: each byte as it is, unless it is a backslash, or as an escape. -/
inductive Encodes : Bytes → Bytes → Prop
  | nil : Encodes [] []
  | literal {c : UInt8} {v b : Bytes} : c ≠ 0x5C → Encodes v b → Encodes (c :: v) (c :: b)
  | escape {x d₁ d₂ d₃ : UInt8} {v b : Bytes} : OctalOf x d₁ d₂ d₃ → Encodes v b →
      Encodes (0x5C :: d₁ :: d₂ :: d₃ :: v) (x :: b)

/-! ## One escape -/

theorem octalValue_three {i : Nat} {d₁ d₂ d₃ : UInt8} {v : Nat} (h : octalValue i 0 [d₁, d₂, d₃] = .ok v) :
    isOctal d₁ = true ∧ isOctal d₂ = true ∧ isOctal d₃ = true ∧
      v = (d₁.toNat - 0x30) * 64 + (d₂.toNat - 0x30) * 8 + (d₃.toNat - 0x30) := by
  simp only [octalValue] at h
  split at h
  · cases h
  split at h
  · cases h
  split at h
  · cases h
  rename_i h₁ h₂ h₃
  simp only [Bool.not_eq_false] at h₁ h₂ h₃
  cases h
  exact ⟨h₁, h₂, h₃, by omega⟩

theorem octalValue_of_octal {i : Nat} {x d₁ d₂ d₃ : UInt8} (h : OctalOf x d₁ d₂ d₃) :
    octalValue i 0 [d₁, d₂, d₃] = .ok x.toNat := by
  obtain ⟨h₁, h₂, h₃, hx⟩ := h
  simp only [octalValue, h₁, h₂, h₃, Bool.true_eq_false, if_false]
  rw [hx]
  congr 1
  omega

/-- No escape starts a text. -/
def Stuck (t : Bytes) : Prop :=
  ∀ x d₁ d₂ d₃ rest, t = d₁ :: d₂ :: d₃ :: rest → ¬ OctalOf x d₁ d₂ d₃

/-! ## The loop -/

theorem decodeOutputFrom_literal {c : UInt8} (hc : c ≠ 0x5C) (i : Nat) (out t : Bytes) :
    decodeOutputFrom i out (c :: t) = decodeOutputFrom (i + 1) (out ++ [c]) t := by
  rw [decodeOutputFrom.eq_def]
  simp [hc]

/-- The loop reads a writing in front of any text and goes on behind it. -/
theorem Encodes.decode {v b : Bytes} (h : Encodes v b) (i : Nat) (out rest : Bytes) :
    decodeOutputFrom i out (v ++ rest) = decodeOutputFrom (i + v.length) (out ++ b) rest := by
  induction h generalizing i out with
  | nil => rw [nil_append, append_nil, length_nil, Nat.add_zero]
  | @literal c v b hc hv ih =>
    rw [cons_append, decodeOutputFrom_literal hc, ih, append_assoc, length_cons,
      Nat.add_assoc, Nat.add_comm 1]
    rfl
  | @escape x d₁ d₂ d₃ v b hx hv ih =>
    have hle : ¬ x.toNat > 0xFF := by
      have := x.toNat_lt
      omega
    simp only [cons_append, decodeOutputFrom, ne_eq, not_true_eq_false, if_false,
      octalValue_of_octal hx, if_neg hle, UInt8.ofNat_toNat, ih, append_assoc, length_cons]
    rw [show i + 4 + v.length = i + (v.length + 1 + 1 + 1 + 1) by omega]
    rfl

/-- **What the loop does with a text**: it reads a writing to the end, or up to a backslash that starts no
    escape. -/
theorem decodeOutputFrom_inv (i : Nat) (out v : Bytes) :
    (∃ b, Encodes v b ∧ decodeOutputFrom i out v = (out ++ b, none)) ∨
    (∃ head b t e, v = head ++ 0x5C :: t ∧ Encodes head b ∧ Stuck t ∧
      decodeOutputFrom i out v = (out ++ b, some e)) := by
  fun_induction decodeOutputFrom i out v with
  | case1 i out => exact .inl ⟨[], .nil, by rw [append_nil]⟩
  | case2 i out c t hc ih =>
    simp only [append_assoc, cons_append, nil_append] at ih
    rcases ih with ⟨b, hb, heq⟩ | ⟨head, b, u, e, rfl, hhead, hstuck, heq⟩
    · exact .inl ⟨c :: b, .literal hc hb, heq⟩
    · exact .inr ⟨c :: head, c :: b, u, e, rfl, .literal hc hhead, hstuck, heq⟩
  | case3 i out c hc d₁ d₂ d₃ rest e he =>
    cases not_not.mp hc
    refine .inr ⟨[], [], _, e, rfl, .nil, ?_, by rw [append_nil]⟩
    intro x e₁ e₂ e₃ r heq hoctal
    cases heq
    rw [octalValue_of_octal hoctal] at he
    cases he
  | case4 i out c hc d₁ d₂ d₃ rest v hv hrange =>
    cases not_not.mp hc
    refine .inr ⟨[], [], _, .outOfRange i, rfl, .nil, ?_, by rw [append_nil]⟩
    intro x e₁ e₂ e₃ r heq hoctal
    cases heq
    rw [octalValue_of_octal hoctal] at hv
    cases hv
    have := x.toNat_lt
    omega
  | case5 i out c hc d₁ d₂ d₃ rest v hv hrange ih =>
    cases not_not.mp hc
    obtain ⟨h₁, h₂, h₃, hvalue⟩ := octalValue_three hv
    have hoctal : OctalOf (UInt8.ofNat v) d₁ d₂ d₃ := by
      refine ⟨h₁, h₂, h₃, ?_⟩
      rw [UInt8.toNat_ofNat']
      omega
    simp only [append_assoc, cons_append, nil_append] at ih
    rcases ih with ⟨b, hb, heq⟩ | ⟨head, b, u, e, rfl, hhead, hstuck, heq⟩
    · exact .inl ⟨_, .escape hoctal hb, heq⟩
    · exact .inr ⟨_, _, u, e, rfl, .escape hoctal hhead, hstuck, heq⟩
  | case6 i out c t hc hshort =>
    cases not_not.mp hc
    refine .inr ⟨[], [], t, .incomplete i, rfl, .nil, ?_, by rw [append_nil]⟩
    intro x d₁ d₂ d₃ rest heq _
    exact hshort d₁ d₂ d₃ rest heq

/-- Where a writing stops at a backslash that starts no escape, no longer prefix is a writing. -/
theorem Encodes.longest {head b t p c : Bytes} (hhead : Encodes head b) (hstuck : Stuck t)
    (hp : Encodes p c) (hleads : p <+: head ++ 0x5C :: t) : p.length ≤ head.length := by
  induction hhead generalizing p c with
  | nil =>
    obtain ⟨q, hq⟩ := hleads
    cases hp with
    | nil => exact Nat.le_refl _
    | literal hc hv =>
      cases hq
      exact absurd rfl hc
    | @escape x d₁ d₂ d₃ v b hx hv =>
      cases hq
      exact absurd hx (hstuck x d₁ d₂ d₃ _ rfl)
  | @literal a v b ha hv ih =>
    obtain ⟨q, hq⟩ := hleads
    cases hp with
    | nil => exact Nat.zero_le _
    | @literal a' v' b' ha' hv' =>
      obtain ⟨-, hq⟩ := List.cons.inj hq
      exact Nat.succ_le_succ (ih hv' ⟨q, hq⟩)
    | escape hx hv' =>
      obtain ⟨ha', -⟩ := List.cons.inj hq
      exact absurd ha'.symm ha
  | @escape x d₁ d₂ d₃ v b hx hv ih =>
    obtain ⟨q, hq⟩ := hleads
    cases hp with
    | nil => exact Nat.zero_le _
    | literal ha' hv' =>
      obtain ⟨heq, -⟩ := List.cons.inj hq
      exact absurd heq ha'
    | @escape x' e₁ e₂ e₃ v' b' hx' hv' =>
      simp only [cons_append, List.cons.injEq, true_and] at hq
      have := ih hv' ⟨q, hq.2.2.2⟩
      simp only [length_cons]
      omega

/-- **Output decoding.** Every writing of a byte string decodes to it, nothing else decodes, and a failed
    decoding has got exactly as far as the longest prefix that is a writing, which ends at the backslash
    the failure is about. -/
theorem output_decoding (v : Bytes) :
    (∀ b, Encodes v b → decodeOutputValue v = .ok b) ∧
    ((∃ b, decodeOutputValue v = .ok b) ↔ ∃ b, Encodes v b) ∧
    (∀ out e, decodeOutputValuePartial v = (out, some e) →
      ∃ head t, v = head ++ 0x5C :: t ∧ Encodes head out ∧
        ∀ p b, p <+: v → Encodes p b → p.length ≤ head.length) := by
  have haccept : ∀ b, Encodes v b → decodeOutputValue v = .ok b := by
    intro b hb
    have h := hb.decode 0 [] []
    rw [append_nil] at h
    rw [decodeOutputValue, decodeOutputValuePartial, h]
    rfl
  refine ⟨haccept, ⟨?_, fun ⟨b, hb⟩ => ⟨b, haccept b hb⟩⟩, ?_⟩
  · rintro ⟨b, hb⟩
    rcases decodeOutputFrom_inv 0 [] v with ⟨c, hc, -⟩ | ⟨head, c, t, e, -, -, -, heq⟩
    · exact ⟨c, hc⟩
    · rw [decodeOutputValue, decodeOutputValuePartial, heq] at hb
      cases hb
  · intro out e hfail
    rcases decodeOutputFrom_inv 0 [] v with ⟨c, -, heq⟩ | ⟨head, c, t, e', rfl, hhead, hstuck, heq⟩
    · cases heq.symm.trans hfail
    · cases heq.symm.trans hfail
      exact ⟨head, t, rfl, hhead, fun p b hp hb => hhead.longest hstuck hb hp⟩

theorem output_decoding_newline :
    Encodes (ascii "a\\012") [0x61, 0x0A] ∧ decodeOutputValue (ascii "a\\012") = .ok [0x61, 0x0A] := by
  have hwriting : Encodes (ascii "a\\012") [0x61, 0x0A] :=
    .literal (by decide) (.escape ⟨rfl, rfl, rfl, rfl⟩ .nil)
  exact ⟨hwriting, (output_decoding (ascii "a\\012")).1 _ hwriting⟩

end Pandaemonium.Tmux
