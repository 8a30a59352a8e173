import Mathlib

/-!
# `Lib.Splice` — edits of a text by spans

An edit (`Op`) puts a text in the place of the span `[start, stop)`; an insertion is an edit of an empty
span. `splice` applies a list of edits from left to right and skips an edit that begins before the end of
the last one applied. `applied` is the list of those it does not skip, a matter of their spans alone: an
insertion is among them wherever no earlier edit's span reaches past it (`mem_applied_of_outside`).
-/

namespace Pandaemonium.Splice

open List

variable {α : Type}

structure Op (α : Type) where
  start : Nat
  stop : Nat
  text : List α
  /-- the position in the list of edits, which decides between edits of one span -/
  order : Nat
  deriving DecidableEq, Repr

/-- The edit lies within a text of `len` and not before `cursor`. -/
def Op.fits (len cursor : Nat) (op : Op α) : Bool :=
  cursor ≤ op.start && op.start ≤ op.stop && op.stop ≤ len

/-- The text from `start` to `stop`. -/
def slice (raw : List α) (start stop : Nat) : List α := (raw.drop start).take (stop - start)

/-- **Apply the edits to the text from `cursor` on.** -/
def splice (raw : List α) (cursor : Nat) : List (Op α) → List α
  | [] => raw.drop cursor
  | op :: ops =>
    if op.fits raw.length cursor then
      slice raw cursor op.start ++ op.text ++ splice raw op.stop ops
    else splice raw cursor ops

/-- The edits that `splice` applies. -/
def applied (len cursor : Nat) : List (Op α) → List (Op α)
  | [] => []
  | op :: ops =>
    if op.fits len cursor then op :: applied len op.stop ops else applied len cursor ops

/-! ## What is applied -/

section

variable {len cursor : Nat} {op : Op α} {ops : List (Op α)}

theorem fits_iff : op.fits len cursor = true ↔
    cursor ≤ op.start ∧ op.start ≤ op.stop ∧ op.stop ≤ len := by
  simp [Op.fits, and_assoc]

/-- Spans one after the other, the first not before `cursor`. -/
def Chain (len : Nat) : Nat → List (Op α) → Prop
  | _, [] => True
  | cursor, op :: ops => op.fits len cursor = true ∧ Chain len op.stop ops

theorem chain_applied (len cursor : Nat) (ops : List (Op α)) : Chain len cursor (applied len cursor ops) := by
  induction ops generalizing cursor with
  | nil => trivial
  | cons op ops ih =>
    rw [applied]
    split
    · rename_i hfits
      exact ⟨hfits, ih op.stop⟩
    · exact ih cursor

/-- **An insertion is applied where no earlier edit reaches past it.** -/
theorem mem_applied_of_outside (hmem : op ∈ ops) (hspan : op.start = op.stop) (hlen : op.stop ≤ len)
    (hcursor : cursor ≤ op.start) (hbefore : ∀ l r, ops = l ++ op :: r → ∀ o ∈ l, o.stop ≤ op.start) :
    op ∈ applied len cursor ops := by
  induction ops generalizing cursor with
  | nil => cases hmem
  | cons o ops ih =>
    have hfits : op.fits len cursor = true := fits_iff.mpr ⟨hcursor, by omega, hlen⟩
    rcases mem_cons.mp hmem with rfl | hmem
    · rw [applied, if_pos hfits]
      exact mem_cons_self
    have hrest : ∀ l r, ops = l ++ op :: r → ∀ o ∈ l, o.stop ≤ op.start := by
      intro l r hsplit o' ho'
      exact hbefore (o :: l) r (by rw [hsplit]; rfl) o' (mem_cons_of_mem _ ho')
    obtain ⟨l, r, hsplit⟩ := append_of_mem hmem
    have ho : o.stop ≤ op.start := hbefore (o :: l) r (by rw [hsplit]; rfl) o mem_cons_self
    rw [applied]
    split
    · exact mem_cons_of_mem _ (ih hmem ho hrest)
    · exact ih hmem hcursor hrest

end

/-! ## What the edits make of the text -/

section

variable {raw : List α} {cursor : Nat} {op : Op α} {ops : List (Op α)}

/-- What is skipped plays no part. -/
theorem splice_applied (raw : List α) (cursor : Nat) (ops : List (Op α)) :
    splice raw cursor (applied raw.length cursor ops) = splice raw cursor ops := by
  induction ops generalizing cursor with
  | nil => rfl
  | cons op ops ih =>
    by_cases hfits : op.fits raw.length cursor = true
    · rw [applied, if_pos hfits, splice, if_pos hfits, splice, if_pos hfits, ih]
    · rw [applied, if_neg hfits, splice, if_neg hfits, ih]

end

end Pandaemonium.Splice
