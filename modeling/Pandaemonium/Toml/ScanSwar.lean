import Pandaemonium.Lib.Swar
import Pandaemonium.Toml.Scan

/-!
# `Toml.ScanSwar` — the word-wise scan kernels (`internal/scan/scan_swar.go`)

The kernels behind `Toml.Scan` where no vector instructions are used. Three of them take the index from the lowest
mark of a word and finish byte by byte, `scanBareValueEndSWAR` finishes with the scalar scan, and the two strict
ones look again with the scalar scan at a word with a mark, since their mask also marks tabs.
-/

namespace Pandaemonium.Toml.Scan

open Swar
open List

/-- The lowest bit of every byte. -/
def swarOnes : Word := 0x0101010101010101

/-- The highest bit of every byte. -/
def swarHighs : Word := 0x8080808080808080

/-- Marks the zero bytes of a word; a byte above the lowest of them may be marked too. -/
def hasZero (w : Word) : Word := (w - swarOnes) &&& ~~~w &&& swarHighs

/-- Marks the bytes equal to `c`. -/
def hasByteEq (w : Word) (c : UInt8) : Word := hasZero (w ^^^ (BitVec.ofNat 64 c.toNat * swarOnes))

/-- Marks the bytes below `n`, for ASCII `n`. -/
def hasByteLessThan (w : Word) (n : UInt8) : Word :=
  (w - BitVec.ofNat 64 n.toNat * swarOnes) &&& ~~~w &&& swarHighs

/-- The lowest mark of each word, then byte by byte. -/
def lowestThenBytes (mask : Word → Word) (p : UInt8 → Bool) (missing : Int) (s : Bytes) : Option Int :=
  answer missing do
    let i ← wordsUp (lowestMark mask) s 0
    bytesUp p (fun _ => true) s i

/-- The return behind the loop over words: `i + scalar(s[i:])`. -/
def thenScalar (scalar : Bytes → Nat) (s : Bytes) : Except Stop Nat → Option Int
  | .ok i => some ((i + scalar (s.drop i) : Nat) : Int)
  | .error (.found i) => some i
  | .error .fault => none

/-- A scalar scan of a word with a mark. -/
def confirm (mask : Word → Word) (scalar : Bytes → Nat) (s : Bytes) (i : Nat) (w : Word) :
    Except Stop Unit :=
  if mask w ≠ 0#64 then
    if scalar (window s i) < 8 then throw (.found (i + scalar (window s i))) else pure ()
  else pure ()

/-- First quote or backslash. -/
def scanBasicStringSWAR (s : Bytes) : Option Int :=
  lowestThenBytes (fun w => hasByteEq w 0x22 ||| hasByteEq w 0x5C) (fun b => b == 0x22 || b == 0x5C)
    s.length s

/-- First single quote. -/
def scanLiteralStringSWAR (s : Bytes) : Option Int :=
  lowestThenBytes (fun w => hasByteEq w 0x27) (fun b => b == 0x27) s.length s

/-- First LF, -1 without one. -/
def locateNewlineSWAR (s : Bytes) : Option Int :=
  lowestThenBytes (fun w => hasByteEq w 0x0A) (fun b => b == 0x0A) (-1) s

/-- Marks what ends a bare value. -/
def bareValueMask (w : Word) : Word :=
  hasByteEq w 0x20 ||| hasByteEq w 0x09 ||| hasByteEq w 0x0D ||| hasByteEq w 0x0A ||| hasByteEq w 0x2C |||
    hasByteEq w 0x5D ||| hasByteEq w 0x7D ||| hasByteEq w 0x23 ||| hasByteEq w 0x3D

/-- First byte that ends a bare value. -/
def scanBareValueEndSWAR (s : Bytes) : Option Int :=
  thenScalar scanBareValueEnd s (wordsUp (lowestMark bareValueMask) s 0)

/-- Marks quotes, backslashes and control bytes, tabs among them. -/
def basicStringStrictMask (w : Word) : Word :=
  hasByteEq w 0x22 ||| hasByteEq w 0x5C ||| hasByteEq w 0x7F ||| hasByteLessThan w 0x20

/-- First quote, backslash or forbidden control byte. -/
def scanBasicStringStrictSWAR (s : Bytes) : Option Int :=
  thenScalar scanBasicStringStrict s (wordsUp (confirm basicStringStrictMask scanBasicStringStrict s) s 0)

/-- Marks control bytes, tabs among them. -/
def commentBodyMask (w : Word) : Word := hasByteEq w 0x7F ||| hasByteLessThan w 0x20

/-- First byte that a comment may not hold. -/
def scanCommentBodySWAR (s : Bytes) : Option Int :=
  thenScalar scanCommentBody s (wordsUp (confirm commentBodyMask scanCommentBody s) s 0)

/-! ## The kernels are the scans -/

section

variable {p q : UInt8 → Bool} {mask : Word → Word} {s : Bytes} {i : Nat}

/-- The mask of one byte marks the lowest match. -/
theorem tests_hasByteEq (c : UInt8) : Tests (fun b => b == c) (fun w => hasByteEq w c) :=
  fun _ hlen => marks_eq c hlen

theorem tests_hasByteLessThan {n : UInt8} (hn : n < 0x80) : Tests (fun b => b < n) (fun w => hasByteLessThan w n) :=
  fun _ hlen => marks_below hn hlen

/-- The word loop stops at the first match or has passed over none. -/
theorem wordsUp_lowestMark (hm : Tests p mask) :
    Scans (First p s) (fun j => Clear p s 0 j ∧ j ≤ s.length) (wordsUp (lowestMark mask) s 0) :=
  wordsUp_scans (fun _ hle hc => lowestMark_scans (hm _ (length_window hle)) hc) clear_zero (Nat.zero_le _)

/-- The words and then the rest byte by byte. -/
theorem lowestThenBytes_scans (hm : Tests p mask) :
    Scans (First p s) (fun _ => Clear p s 0 s.length)
      (wordsUp (lowestMark mask) s 0 >>= bytesUp p (fun _ => true) s) :=
  (wordsUp_lowestMark hm).bind fun _ hi =>
    (bytesUp_scans hi.1 hi.2).mono fun _ hj => hj.2.2 rfl ▸ hj.1

/-- A scan goes on behind a part that is clear. -/
theorem findIdx_of_clear (hc : Clear p s 0 i) (hi : i ≤ s.length) : s.findIdx p = i + (s.drop i).findIdx p := by
  have htake : (s.take i).findIdx p = (s.take i).length := by
    refine findIdx_eq_length.mpr fun b hb => Bool.eq_false_iff.mpr fun hp => ?_
    obtain ⟨j, hj⟩ := getElem?_of_mem hb
    have hlt := (List.getElem?_eq_some_iff.mp hj).1
    rw [length_take] at hlt
    rw [getElem?_take_of_lt (by omega)] at hj
    exact hc j (Nat.zero_le j) (by omega) ⟨b, hj, hp⟩
  have hlen : (s.take i).length = i := length_take_of_le hi
  conv_lhs => rw [← take_append_drop i s]
  rw [findIdx_append, htake, if_neg (Nat.lt_irrefl _), hlen, Nat.add_comm]

/-- The scalar scan goes on where the words stop. -/
theorem thenScalar_eq {m : Except Stop Nat} (h : Scans (First p s) (fun j => Clear p s 0 j ∧ j ≤ s.length) m) :
    thenScalar (List.findIdx p) s m = some (s.findIdx p : Int) := by
  cases m with
  | ok j => exact congrArg (fun n : Nat => some (n : Int)) (findIdx_of_clear h.1 h.2).symm
  | error e =>
    cases e with
    | found j => exact congrArg (fun n : Nat => some (n : Int)) (First.findIdx h).symm
    | fault => exact h.elim

/-- A mask for a larger class, with the scalar scan behind it. -/
theorem confirm_scans (hm : Marks q (window s i) (mask (ofBytes (window s i))))
    (hpq : ∀ b, p b = true → q b = true) (hi : i + 8 ≤ s.length) (hc : Clear p s 0 i) :
    Scans (First p s) (fun _ => Clear p s 0 (i + 8))
      (confirm mask (List.findIdx p) s i (ofBytes (window s i))) := by
  have hlen := length_window hi
  unfold confirm
  split
  · split
    · rename_i hlt
      exact (first_findIdx (by rwa [hlen])).of_window hc
    rename_i hge
    have hnone : (window s i).findIdx p = (window s i).length :=
      Nat.le_antisymm findIdx_le_length (by omega)
    refine hc.append (Clear.of_window (fun k _ _ ⟨b, hb, hp⟩ => ?_) (Nat.le_refl 8))
    exact Bool.eq_false_iff.mp (findIdx_eq_length.mp hnone b (mem_of_getElem? hb)) hp
  · rename_i hz
    refine hc.append (Clear.of_window (fun k _ _ ⟨b, hb, hp⟩ => ?_) (Nat.le_refl 8))
    exact hz (hm.ne_zero_iff.mpr ⟨k, b, hb, hpq b hp⟩)

/-- A mask that marks too much is harmless: the scalar scan confirms. -/
theorem thenScalar_confirm (hm : Tests q mask)
    (hpq : ∀ b, p b = true → q b = true) :
    thenScalar (List.findIdx p) s (wordsUp (confirm mask (List.findIdx p) s) s 0) =
      some (s.findIdx p : Int) :=
  thenScalar_eq (wordsUp_scans
    (fun _ hle hc => confirm_scans (hm _ (length_window hle)) hpq hle hc) clear_zero (Nat.zero_le _))

theorem tests_basicString : Tests (fun b => b == 0x22 || b == 0x5C)
    (fun w => hasByteEq w 0x22 ||| hasByteEq w 0x5C) := (tests_hasByteEq 0x22).or (tests_hasByteEq 0x5C)

theorem tests_bareValue : Tests bareValueDelimiter bareValueMask :=
  ((((((((tests_hasByteEq 0x20).or (tests_hasByteEq 0x09)).or (tests_hasByteEq 0x0D)).or
    (tests_hasByteEq 0x0A)).or (tests_hasByteEq 0x2C)).or (tests_hasByteEq 0x5D)).or
    (tests_hasByteEq 0x7D)).or (tests_hasByteEq 0x23)).or (tests_hasByteEq 0x3D)

/-- The mask of the comment scan marks the tab too. -/
theorem tests_commentBody : Tests (fun b => b == 0x7F || decide (b < 0x20)) commentBodyMask :=
  (tests_hasByteEq 0x7F).or (tests_hasByteLessThan (by decide))

theorem tests_basicStringStrict :
    Tests (fun b => b == 0x22 || b == 0x5C || b == 0x7F || decide (b < 0x20)) basicStringStrictMask :=
  (tests_basicString.or (tests_hasByteEq 0x7F)).or (tests_hasByteLessThan (by decide))

end

/-- **The kernels compute the scans**, on every text: no index is changed by a false mark, and no stop byte is
    missed. -/
theorem swar_scanners (s : Bytes) :
    scanBasicStringSWAR s = some (scanBasicString s : Int) ∧
      scanLiteralStringSWAR s = some (scanLiteralString s : Int) ∧
      scanBareValueEndSWAR s = some (scanBareValueEnd s : Int) ∧
      Found First (fun b => b == 0x0A) s (locateNewlineSWAR s) ∧
      scanBasicStringStrictSWAR s = some (scanBasicStringStrict s : Int) ∧
      scanCommentBodySWAR s = some (scanCommentBody s : Int) := by
  refine ⟨?_, ?_, ?_, ?_, ?_, ?_⟩
  · exact (lowestThenBytes_scans tests_basicString).answer_length
  · exact (lowestThenBytes_scans (tests_hasByteEq 0x27)).answer_length
  · exact thenScalar_eq (wordsUp_lowestMark tests_bareValue)
  · exact (lowestThenBytes_scans (tests_hasByteEq 0x0A)).found
  · refine thenScalar_confirm tests_basicStringStrict fun b hb => ?_
    simp only [basicStringStrictStop, Bool.or_eq_true, Bool.and_eq_true] at hb ⊢
    exact hb.imp id And.left
  · refine thenScalar_confirm tests_commentBody fun b hb => ?_
    simp only [commentBodyStop, Bool.or_eq_true, Bool.and_eq_true] at hb ⊢
    exact hb.imp id And.left

end Pandaemonium.Toml.Scan
