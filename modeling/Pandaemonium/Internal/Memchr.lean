import Pandaemonium.Lib.Swar

/-!
# `Internal.Memchr` — the byte search kernels (`internal/memchr`)

`swarMemchr`, `swarMemchr2` and `swarMemchr3` look for the first of one, two or three bytes, the reverse
kernels for the last. All go byte by byte to an address divisible by eight, then word by word, then byte by byte
to the end; a word with a mark is looked at again byte by byte. The address of the slice is a parameter.
-/

namespace Pandaemonium.Internal.Memchr

open Swar

/-- The lowest bit of every byte. -/
def swarLoBits : Word := 0x0101010101010101

/-- The highest bit of every byte. -/
def swarHiBits : Word := 0x8080808080808080

/-- Marks the zero bytes of a word; a byte above the lowest of them may be marked too. -/
def hasZeroByte (x : Word) : Word := (x - swarLoBits) &&& ~~~x &&& swarHiBits

/-- `uint64(needle) * swarLoBits` -/
def bcast (needle : UInt8) : Word := BitVec.ofNat 64 needle.toNat * swarLoBits

/-- `(uintptr(base)+uintptr(i))&7 != 0` -/
def misaligned (base : Word) (i : Nat) : Bool := (base + BitVec.ofNat 64 i) &&& 7#64 != 0#64

/-- A search upwards for the bytes `p`, with the test of a word. -/
def searchUp (p : UInt8 → Bool) (test : Word → Word) (base : Word) (haystack : Bytes) : Option Int :=
  if haystack = [] then some (-1)
  else
    answer (-1) do
      let i ← bytesUp p (misaligned base) haystack 0
      let i ← wordsUp (rescanUp test p haystack) haystack i
      bytesUp p (fun _ => true) haystack i

/-- A search downwards. -/
def searchDown (p : UInt8 → Bool) (test : Word → Word) (base : Word) (haystack : Bytes) : Option Int :=
  if haystack = [] then some (-1)
  else
    answer (-1) do
      let i ← bytesDown p (misaligned base) haystack haystack.length
      let i ← wordsDown (rescanDown test p haystack) haystack i
      bytesDown p (fun _ => true) haystack i

/-- The byte looked for. -/
def isAny1 (n1 c : UInt8) : Bool := c == n1

/-- One of two bytes looked for. -/
def isAny2 (n1 n2 c : UInt8) : Bool := c == n1 || c == n2

/-- One of three bytes looked for. -/
def isAny3 (n1 n2 n3 c : UInt8) : Bool := c == n1 || c == n2 || c == n3

/-- Marks the byte looked for. -/
def test1 (n1 : UInt8) (w : Word) : Word := hasZeroByte (w ^^^ bcast n1)

/-- Marks either of two bytes. -/
def test2 (n1 n2 : UInt8) (w : Word) : Word := hasZeroByte (w ^^^ bcast n1) ||| hasZeroByte (w ^^^ bcast n2)

/-- Marks any of three bytes. -/
def test3 (n1 n2 n3 : UInt8) (w : Word) : Word :=
  hasZeroByte (w ^^^ bcast n1) ||| hasZeroByte (w ^^^ bcast n2) ||| hasZeroByte (w ^^^ bcast n3)

/-- First index of a byte. -/
def swarMemchr (needle : UInt8) := searchUp (isAny1 needle) (test1 needle)

/-- First index of either byte. -/
def swarMemchr2 (n1 n2 : UInt8) := searchUp (isAny2 n1 n2) (test2 n1 n2)

/-- First index of any of three bytes. -/
def swarMemchr3 (n1 n2 n3 : UInt8) := searchUp (isAny3 n1 n2 n3) (test3 n1 n2 n3)

/-- Last index of a byte. -/
def swarMemrchr (needle : UInt8) := searchDown (isAny1 needle) (test1 needle)

/-- Last index of either byte. -/
def swarMemrchr2 (n1 n2 : UInt8) := searchDown (isAny2 n1 n2) (test2 n1 n2)

/-- Last index of any of three bytes. -/
def swarMemrchr3 (n1 n2 n3 : UInt8) := searchDown (isAny3 n1 n2 n3) (test3 n1 n2 n3)

/-! ## The kernels meet their specifications -/

section

variable {p : UInt8 → Bool} {test : Word → Word}

/-- A mark on the lowest match, and none without a match. -/
theorem tests_one (n : UInt8) : Tests (isAny1 n) (test1 n) := fun _ hlen => marks_eq n hlen

theorem tests_two (n1 n2 : UInt8) : Tests (isAny2 n1 n2) (test2 n1 n2) :=
  (tests_one n1).or (tests_one n2)

theorem tests_three (n1 n2 n3 : UInt8) : Tests (isAny3 n1 n2 n3) (test3 n1 n2 n3) :=
  (tests_two n1 n2).or (tests_one n3)

/-- **Upwards the first match is found.** -/
theorem searchUp_found (ht : Tests p test) (base : Word) (s : Bytes) :
    Found First p s (searchUp p test base s) := by
  unfold searchUp
  split
  · rename_i hnil
    exact .inl ⟨rfl, by rw [hnil]; nofun⟩
  refine Scans.found ?_
  refine (bytesUp_scans clear_zero (Nat.zero_le _)).bind fun i hi => ?_
  refine (wordsUp_scans (fun i hle hc => ?_) hi.1 hi.2.1).bind fun i hi => ?_
  · exact rescanUp_scans (ht _ (length_window hle)) hle hc
  · exact (bytesUp_scans hi.1 hi.2).mono fun j hj => hj.2.2 rfl ▸ hj.1

/-- **Downwards the last match is found.** -/
theorem searchDown_found (ht : Tests p test) (base : Word) (s : Bytes) :
    Found Last p s (searchDown p test base s) := by
  unfold searchDown
  split
  · rename_i hnil
    exact .inl ⟨rfl, by rw [hnil]; nofun⟩
  refine Scans.found ?_
  have hend : Clear p s s.length s.length := fun j hj hj' => absurd hj' (Nat.not_lt.mpr hj)
  refine (bytesDown_scans hend (Nat.le_refl _)).bind fun i hi => ?_
  refine (wordsDown_scans (fun i hle hc => ?_) hi.1 hi.2.1).bind fun i hi => ?_
  · exact rescanDown_scans (ht _ (length_window hle)) hle hc
  · exact (bytesDown_scans hi.1 hi.2).mono fun j hj => hj.2.2 rfl ▸ hj.1

/-- The test for a zero byte is exact. -/
theorem hasZeroByte_ne_zero_iff (x : Word) : hasZeroByte x ≠ 0#64 ↔ ∃ j < 8, x.extractLsb' (8 * j) 8 = 0#8 := by
  have hm : Marks (fun b => b < 1) (bytesOf x) (hasZeroByte (ofBytes (bytesOf x))) :=
    marks_below (by decide) (by simp [bytesOf])
  rw [ofBytes_bytesOf] at hm
  rw [hm.ne_zero_iff]
  have hlane : ∀ j b, (bytesOf x)[j]? = some b ↔
      j < 8 ∧ UInt8.ofBitVec (x.extractLsb' (8 * j) 8) = b := by
    intro j b
    simp [bytesOf, List.getElem?_eq_some_iff]
  constructor
  · rintro ⟨j, b, hb, hz⟩
    obtain ⟨hj, rfl⟩ := (hlane j b).mp hb
    exact ⟨j, hj, congrArg UInt8.toBitVec (UInt8.lt_one_iff.mp (of_decide_eq_true hz))⟩
  · rintro ⟨j, hj, hz⟩
    refine ⟨j, _, (hlane j _).mpr ⟨hj, rfl⟩, decide_eq_true (UInt8.lt_one_iff.mpr ?_)⟩
    exact congrArg UInt8.ofBitVec hz

end

/-- **The kernels are exact for every slice at every address.** A kernel answers the least, or the greatest, index
    that holds a byte searched for, -1 where there is none, and no word it loads reaches outside the slice. -/
theorem swar_kernels (n1 n2 n3 : UInt8) (base : Word) (haystack : Bytes) :
    Found First (isAny1 n1) haystack (swarMemchr n1 base haystack) ∧
      Found First (isAny2 n1 n2) haystack (swarMemchr2 n1 n2 base haystack) ∧
      Found First (isAny3 n1 n2 n3) haystack (swarMemchr3 n1 n2 n3 base haystack) ∧
      Found Last (isAny1 n1) haystack (swarMemrchr n1 base haystack) ∧
      Found Last (isAny2 n1 n2) haystack (swarMemrchr2 n1 n2 base haystack) ∧
      Found Last (isAny3 n1 n2 n3) haystack (swarMemrchr3 n1 n2 n3 base haystack) ∧
      ∀ x, hasZeroByte x ≠ 0#64 ↔ ∃ j < 8, x.extractLsb' (8 * j) 8 = 0#8 :=
  ⟨searchUp_found (tests_one n1) base haystack, searchUp_found (tests_two n1 n2) base haystack,
    searchUp_found (tests_three n1 n2 n3) base haystack, searchDown_found (tests_one n1) base haystack,
    searchDown_found (tests_two n1 n2) base haystack, searchDown_found (tests_three n1 n2 n3) base haystack,
    hasZeroByte_ne_zero_iff⟩

end Pandaemonium.Internal.Memchr
