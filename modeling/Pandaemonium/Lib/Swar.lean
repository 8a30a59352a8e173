import Pandaemonium.Lib.Bytes

/-!
# `Lib.Swar` — scans that look at eight bytes at a time

A word holds eight bytes, its lanes. Subtracting a byte from every lane at once and looking at bit 7 finds the
lanes below that byte, except that a lane which borrows disturbs the lane above it. A word is taken here as the
list of its lanes, and the borrow is followed from lane to lane (`subLanes`).

* `Marks` — what such a mask is worth: every byte of the class is marked, and a mark on another byte stands
  above one in the class. `marks_below` and `marks_eq` say so of the two tests, `Marks.or` of their union;
* `Marks.first` — so the lowest mark is a true one, and a mask is zero exactly when the class has no byte
  (`Marks.ne_zero_iff`).

The second half has the loops of such scans, upwards and downwards, by bytes and by words. A read is checked
against the slice; `Scans` is the rule of the loops: no read is outside, an index returned is right, and what the
loop has passed over is clear.
-/

namespace Pandaemonium.Swar

open List

/-- A 64-bit word. -/
abbrev Word := BitVec 64

/-- The number whose little-endian bytes are `bs`. -/
def lanes : Bytes → Nat
  | [] => 0
  | b :: bs => b.toNat + 256 * lanes bs

/-- The word at eight bytes, in little-endian order. -/
def ofBytes (bs : Bytes) : Word := BitVec.ofNat 64 (lanes bs)

def ones : Word := 0x0101010101010101

def highs : Word := 0x8080808080808080

/-- The byte `c` in every lane. -/
def broadcast (c : UInt8) : Word := BitVec.ofNat 64 c.toNat * ones

/-- Bit 7 of the lanes below `n`, and of some lanes above such a lane. -/
def below (n : UInt8) (w : Word) : Word := (w - broadcast n) &&& ~~~w &&& highs

/-- `bits.TrailingZeros64` -/
def trailingZeros (m : Word) : Nat := (List.range 64).findIdx (fun i => m.getLsbD i)

section

variable {b n c : UInt8} {bs : Bytes} {i j : Nat}

theorem lanes_lt (bs : Bytes) : lanes bs < 256 ^ bs.length := by
  induction bs with
  | nil => simp [lanes]
  | cons b bs ih =>
    have := b.toNat_lt
    rw [lanes, length_cons, Nat.pow_succ]
    omega

theorem testBit_lanes_cons : (lanes (b :: bs)).testBit i =
    if i < 8 then b.toNat.testBit i else (lanes bs).testBit (i - 8) := by
  rw [lanes, Nat.add_comm]
  exact Nat.testBit_two_pow_mul_add (lanes bs) b.toNat_lt i

/-- Bit 7 of lane `j`. -/
theorem testBit_lanes (h : bs[j]? = some b) (hi : i < 8) :
    (lanes bs).testBit (8 * j + i) = b.toNat.testBit i := by
  induction bs generalizing j with
  | nil => cases h
  | cons b' bs ih =>
    rw [testBit_lanes_cons]
    cases j with
    | zero =>
      cases h
      rw [if_pos (by omega)]
      simp
    | succ j =>
      rw [if_neg (by omega), ← ih h]
      congr 1
      omega

theorem lanes_xor : lanes bs ^^^ lanes (List.replicate bs.length c) = lanes (bs.map (· ^^^ c)) := by
  induction bs with
  | nil => simp [lanes]
  | cons b bs ih =>
    refine Nat.eq_of_testBit_eq fun i => ?_
    rw [Nat.testBit_xor, length_cons, replicate_succ, map_cons, testBit_lanes_cons,
      testBit_lanes_cons, testBit_lanes_cons, ← ih]
    split
    · rw [UInt8.toNat_xor, Nat.testBit_xor]
    · rw [Nat.testBit_xor]

theorem testBit_seven (b : UInt8) : b.toNat.testBit 7 = decide (0x80 ≤ b) := by
  have := b.toNat_lt
  rw [Nat.testBit_eq_decide_div_mod_eq, decide_eq_decide, UInt8.le_iff_toNat_le]
  show b.toNat / 128 % 2 = 1 ↔ 128 ≤ b.toNat
  omega

/-! ## Subtraction lane by lane -/

/-- The lanes of `bs` less `n` each, with a borrow `c` into the lowest. -/
def subLanes (n c : UInt8) : Bytes → Bytes
  | [] => []
  | b :: bs => (b - n - c) :: subLanes n (if b.toNat < n.toNat + c.toNat then 1 else 0) bs

/-- Subtraction of numbers is subtraction of lanes, the borrow carried upwards. -/
theorem lanes_subLanes (hn : n < 0x80) (hc : c ≤ 1) : lanes (subLanes n c bs) =
    (256 ^ bs.length + lanes bs - (c.toNat + lanes (List.replicate bs.length n))) %
      256 ^ bs.length := by
  induction bs generalizing c with
  | nil => simp [subLanes, lanes, Nat.mod_one]
  | cons b bs ih =>
    have hn' : n.toNat < 128 := UInt8.lt_iff_toNat_lt.mp hn
    have hc' : c.toNat ≤ 1 := UInt8.le_iff_toNat_le.mp hc
    have hb := b.toNat_lt
    have hbound := lanes_lt (List.replicate bs.length n)
    rw [length_replicate] at hbound
    rw [subLanes, lanes, length_cons, replicate_succ, lanes, lanes, Nat.pow_succ',
      Nat.mod_mul, UInt8.toNat_sub, UInt8.toNat_sub]
    -- the borrow out of the lowest lane is what the division by 256 rounds away
    have hdiv : (256 * 256 ^ bs.length + (b.toNat + 256 * lanes bs) -
        (c.toNat + (n.toNat + 256 * lanes (List.replicate bs.length n)))) / 256 =
        256 ^ bs.length + lanes bs - ((if b.toNat < n.toNat + c.toNat then 1 else 0 : UInt8).toNat +
          lanes (List.replicate bs.length n)) := by
      split
      · show _ = _ - (1 + _)
        omega
      · show _ = _ - (0 + _)
        omega
    rw [hdiv, ih (by split <;> decide)]
    congr 1
    omega

/-- A lane after the subtraction, and where a borrow out of the lanes under it comes from. -/
theorem getElem?_subLanes (hc : c ≤ 1) (hb : bs[j]? = some b) :
    ∃ c' ≤ 1, (subLanes n c bs)[j]? = some (b - n - c') ∧
      (c' = 1 → c = 1 ∨ ∃ k < j, ∃ a, bs[k]? = some a ∧ a < n) := by
  induction bs generalizing c j with
  | nil => cases hb
  | cons b' bs ih =>
    cases j with
    | zero =>
      cases hb
      exact ⟨c, hc, rfl, .inl⟩
    | succ j =>
      obtain ⟨c', hc', hd, hborrow⟩ := ih (c := if b'.toNat < n.toNat + c.toNat then 1 else 0)
        (by split <;> decide) hb
      refine ⟨c', hc', hd, fun h1 => ?_⟩
      rcases hborrow h1 with h | ⟨k, hk, a, ha, hlt⟩
      · split at h
        · rename_i hlt
          have hhead : c = 1 ∨ b' < n := by
            rw [UInt8.lt_iff_toNat_lt, ← UInt8.toNat_inj]
            have := UInt8.le_iff_toNat_le.mp hc
            simp only [UInt8.reduceToNat] at *
            omega
          exact hhead.imp id fun h => ⟨0, Nat.succ_pos j, b', rfl, h⟩
        · cases h
      · exact .inr ⟨k + 1, Nat.succ_lt_succ hk, a, ha, hlt⟩

/-- Bit 7 after the subtraction, of a lane that had it clear. -/
theorem high_iff (hn : n < 0x80) (hc : c ≤ 1) (hb : b < 0x80) : 0x80 ≤ b - n - c ↔ b < n ∨ b = n ∧ c = 1 := by
  simp only [UInt8.lt_iff_toNat_lt, UInt8.le_iff_toNat_le, UInt8.toNat_sub, ← UInt8.toNat_inj] at *
  simp only [UInt8.reduceToNat] at *
  omega

end

/-! ## Indices of a class -/

section

variable {p : UInt8 → Bool} {s : Bytes} {i k : Nat}

/-- The byte at `i` is in the class. -/
def Hit (p : UInt8 → Bool) (s : Bytes) (i : Nat) : Prop := ∃ b, s[i]? = some b ∧ p b = true

/-- No byte from `a` on and before `b` is. -/
def Clear (p : UInt8 → Bool) (s : Bytes) (a b : Nat) : Prop := ∀ j, a ≤ j → j < b → ¬ Hit p s j

/-- The first index of the class. -/
def First (p : UInt8 → Bool) (s : Bytes) (i : Nat) : Prop := Hit p s i ∧ Clear p s 0 i

/-- The last one. -/
def Last (p : UInt8 → Bool) (s : Bytes) (i : Nat) : Prop := Hit p s i ∧ Clear p s (i + 1) s.length

theorem hit_or {q : UInt8 → Bool} : Hit (fun b => p b || q b) s i ↔ Hit p s i ∨ Hit q s i := by
  simp only [Hit, Bool.or_eq_true, and_or_left, exists_or]

theorem clear_zero : Clear p s 0 0 := fun j _ hj => absurd hj (Nat.not_lt_zero j)

theorem Clear.single (hi : ¬ Hit p s i) : Clear p s i (i + 1) :=
  fun _ hij hj => Nat.le_antisymm hij (Nat.le_of_lt_succ hj) ▸ hi

theorem Clear.append {a b c : Nat} (h : Clear p s a b) (h' : Clear p s b c) : Clear p s a c := by
  intro j haj hjc
  by_cases hjb : j < b
  · exact h j haj hjb
  · exact h' j (by omega) hjc

theorem Clear.forall_mem (h : Clear p s 0 s.length) : ∀ b ∈ s, p b = false := by
  intro b hb
  refine Bool.eq_false_iff.mpr fun hp => ?_
  obtain ⟨j, hj⟩ := getElem?_of_mem hb
  exact h j (Nat.zero_le j) (List.getElem?_eq_some_iff.mp hj).1 ⟨b, hj, hp⟩

/-- The eight bytes from `i` on. -/
def window (s : Bytes) (i : Nat) : Bytes := (s.drop i).take 8

theorem length_window (hi : i + 8 ≤ s.length) : (window s i).length = 8 := by
  rw [window, length_take, length_drop]
  omega

theorem getElem?_window (hk : k < 8) : (window s i)[k]? = s[i + k]? := by
  rw [window, getElem?_take_of_lt hk, getElem?_drop]

/-- Nothing of the class at the front of the window. -/
theorem Clear.of_window (h : Clear p (window s i) 0 k) (hk : k ≤ 8) : Clear p s i (i + k) := by
  rintro j hij hj ⟨b, hb, hp⟩
  refine h (j - i) (Nat.zero_le _) (by omega) ⟨b, ?_, hp⟩
  rw [getElem?_window (by omega), ← hb]
  congr 1
  omega

/-- Its first byte of the class is the first of all where none stands before it. -/
theorem First.of_window (h : First p (window s i) k) (hc : Clear p s 0 i) : First p s (i + k) := by
  obtain ⟨⟨b, hb, hp⟩, hbefore⟩ := h
  have hk := (List.getElem?_eq_some_iff.mp hb).1
  rw [window, length_take] at hk
  rw [getElem?_window (by omega)] at hb
  exact ⟨⟨b, hb, hp⟩, hc.append (hbefore.of_window (by omega))⟩

end

/-! ## Masks -/

section

variable {p q : UInt8 → Bool} {bs : Bytes} {m m' : Word} {c n : UInt8}

theorem toNat_ofBytes (hlen : bs.length = 8) : (ofBytes bs).toNat = lanes bs := by
  have h := lanes_lt bs
  rw [hlen] at h
  exact Nat.mod_eq_of_lt h

theorem toNat_broadcast (c : UInt8) : (broadcast c).toNat = lanes (List.replicate 8 c) := by
  have hc := c.toNat_lt
  rw [broadcast, BitVec.toNat_mul, BitVec.toNat_ofNat, ones]
  simp only [List.replicate, lanes, BitVec.reduceToNat]
  omega

/-- The word of the lanes, each with the byte `c` taken off by exclusive or. -/
theorem ofBytes_xor_broadcast (hlen : bs.length = 8) :
    ofBytes bs ^^^ broadcast c = ofBytes (bs.map (· ^^^ c)) := by
  refine BitVec.eq_of_toNat_eq ?_
  rw [BitVec.toNat_xor, toNat_ofBytes hlen, toNat_broadcast, toNat_ofBytes (by simpa using hlen),
    ← lanes_xor, hlen]

/-- `m` marks the bytes of `bs` in the class `p`, at bit 7 of their lanes; it may also mark a byte outside the
    class, but only above one inside. -/
structure Marks (p : UInt8 → Bool) (bs : Bytes) (m : Word) : Prop where
  place : ∀ i, m.getLsbD i = true → i % 8 = 7
  sound : ∀ j, m.getLsbD (8 * j + 7) = true → ∃ k ≤ j, Hit p bs k
  complete : ∀ j, Hit p bs j → m.getLsbD (8 * j + 7) = true

theorem Marks.or (h : Marks p bs m) (h' : Marks q bs m') : Marks (fun b => p b || q b) bs (m ||| m') where
  place := by
    intro i hi
    rw [BitVec.getLsbD_or, Bool.or_eq_true] at hi
    exact hi.elim (h.place i) (h'.place i)
  sound := by
    intro j hj
    rw [BitVec.getLsbD_or, Bool.or_eq_true] at hj
    rcases hj with hj | hj
    · obtain ⟨k, hk, hp⟩ := h.sound j hj
      exact ⟨k, hk, hit_or.mpr (.inl hp)⟩
    · obtain ⟨k, hk, hq⟩ := h'.sound j hj
      exact ⟨k, hk, hit_or.mpr (.inr hq)⟩
  complete := by
    intro j hj
    rw [BitVec.getLsbD_or, Bool.or_eq_true]
    exact (hit_or.mp hj).imp (h.complete j) (h'.complete j)

/-- The test of a word marks the bytes of the class. -/
def Tests (p : UInt8 → Bool) (test : Word → Word) : Prop :=
  ∀ bs : Bytes, bs.length = 8 → Marks p bs (test (ofBytes bs))

theorem Tests.or {t t' : Word → Word} (h : Tests p t) (h' : Tests q t') :
    Tests (fun b => p b || q b) (fun w => t w ||| t' w) := fun bs hlen => (h bs hlen).or (h' bs hlen)

theorem exists_getLsbD (hne : m ≠ 0#64) : ∃ i, m.getLsbD i = true := by
  by_contra hall
  refine hne (BitVec.eq_of_getLsbD_eq fun i _ => ?_)
  rw [BitVec.getLsbD_zero]
  exact Bool.eq_false_iff.mpr fun hi => hall ⟨i, hi⟩

/-- A mask is zero exactly when no byte is in the class. -/
theorem Marks.ne_zero_iff (h : Marks p bs m) : m ≠ 0#64 ↔ ∃ k, Hit p bs k := by
  constructor
  · intro hne
    obtain ⟨i, hi⟩ := exists_getLsbD hne
    have hplace := h.place i hi
    obtain ⟨k, -, hk⟩ := h.sound (i / 8) (by rwa [show 8 * (i / 8) + 7 = i by omega])
    exact ⟨k, hk⟩
  · rintro ⟨k, hk⟩ rfl
    have := h.complete k hk
    rw [BitVec.getLsbD_zero] at this
    cases this

theorem trailingZeros_spec (hne : m ≠ 0#64) :
    m.getLsbD (trailingZeros m) = true ∧ ∀ i < trailingZeros m, m.getLsbD i = false := by
  unfold trailingZeros
  have hlt : (List.range 64).findIdx (fun i => m.getLsbD i) < (List.range 64).length := by
    refine findIdx_lt_length.mpr ?_
    obtain ⟨i, hi⟩ := exists_getLsbD hne
    exact ⟨i, mem_range.mpr (BitVec.lt_of_getLsbD hi), hi⟩
  constructor
  · have := findIdx_getElem (w := hlt)
    rwa [getElem_range] at this
  intro i hi
  have := not_of_lt_findIdx hi
  rwa [getElem_range] at this

/-- **The lowest mark is a true one**: it stands in the lane of the first byte in the class. -/
theorem Marks.first (h : Marks p bs m) (hne : m ≠ 0#64) : First p bs (trailingZeros m / 8) := by
  obtain ⟨hset, hclear⟩ := trailingZeros_spec hne
  have hplace := h.place _ hset
  -- a byte in the class has its mark at or above the lowest
  have hle : ∀ k, Hit p bs k → trailingZeros m / 8 ≤ k := by
    intro k hk
    by_contra hlt
    have := hclear (8 * k + 7) (by omega)
    rw [h.complete k hk] at this
    cases this
  obtain ⟨k, hk, hhit⟩ := h.sound (trailingZeros m / 8)
    (by rwa [show 8 * (trailingZeros m / 8) + 7 = trailingZeros m by omega])
  refine ⟨Nat.le_antisymm hk (hle k hhit) ▸ hhit, fun j _ hj hj' => ?_⟩
  have := hle j hj'
  omega

theorem high_seven : ∀ j < 8, highs.getLsbD (8 * j + 7) = true := by decide

theorem high_place : ∀ i < 64, highs.getLsbD i = true → i % 8 = 7 := by decide

/-- **The subtract-and-mask test for the bytes below `n`.** -/
theorem marks_below (hn : n < 0x80) (hlen : bs.length = 8) :
    Marks (fun b => b < n) bs (below n (ofBytes bs)) := by
  have hdiff : (ofBytes bs - broadcast n).toNat = lanes (subLanes n 0 bs) := by
    rw [BitVec.toNat_sub, toNat_ofBytes hlen, toNat_broadcast, lanes_subLanes hn (by decide), hlen]
    have := lanes_lt (List.replicate 8 n)
    simp only [length_replicate, UInt8.reduceToNat] at this ⊢
    omega
  -- the mask at bit 7 of lane `j`
  have hbit : ∀ j b, bs[j]? = some b → ∃ c ≤ 1, (below n (ofBytes bs)).getLsbD (8 * j + 7) =
      (decide (0x80 ≤ b - n - c) && decide (b < 0x80)) ∧ (c = 1 → ∃ k < j, ∃ a, bs[k]? = some a ∧ a < n) := by
    intro j b hb
    obtain ⟨c, hc, hd, hborrow⟩ := getElem?_subLanes (n := n) (c := 0) (by decide) hb
    have hi : 8 * j + 7 < 64 := by
      have := (List.getElem?_eq_some_iff.mp hb).1
      omega
    refine ⟨c, hc, ?_, fun h => (hborrow h).resolve_left (by decide)⟩
    rw [below, BitVec.getLsbD_and, BitVec.getLsbD_and, BitVec.getLsbD_not, high_seven j (by omega),
      Bool.and_true, decide_eq_true hi, Bool.true_and, ← BitVec.testBit_toNat, ← BitVec.testBit_toNat, hdiff,
      toNat_ofBytes hlen, testBit_lanes hb (by decide), testBit_lanes hd (by decide), testBit_seven,
      testBit_seven, ← decide_not]
    simp only [UInt8.not_le]
  refine ⟨?_, ?_, ?_⟩
  · intro i hi
    rw [below, BitVec.getLsbD_and, Bool.and_eq_true] at hi
    exact high_place i (BitVec.lt_of_getLsbD hi.2) hi.2
  · intro j hj
    have hlt : j < bs.length := by
      have := BitVec.lt_of_getLsbD hj
      omega
    have hb := getElem?_eq_getElem hlt
    obtain ⟨c, hc, heq, hborrow⟩ := hbit j _ hb
    rw [heq, Bool.and_eq_true, decide_eq_true_iff, decide_eq_true_iff] at hj
    rcases (high_iff hn hc hj.2).mp hj.1 with hlow | ⟨-, h1⟩
    · exact ⟨j, Nat.le_refl j, _, hb, decide_eq_true hlow⟩
    · obtain ⟨k, hk, a, ha, hlow⟩ := hborrow h1
      exact ⟨k, Nat.le_of_lt hk, a, ha, decide_eq_true hlow⟩
  · rintro j ⟨b, hb, hlt⟩
    have hlow := UInt8.lt_trans (of_decide_eq_true hlt) hn
    obtain ⟨c, hc, heq, -⟩ := hbit j b hb
    rw [heq, decide_eq_true ((high_iff hn hc hlow).mpr (.inl (of_decide_eq_true hlt))), decide_eq_true hlow]
    rfl

theorem Marks.of_map {f : UInt8 → UInt8} (h : Marks p (bs.map f) m) : Marks (fun b => p (f b)) bs m where
  place := h.place
  sound := by
    intro j hj
    obtain ⟨k, hk, b, hb, hp⟩ := h.sound j hj
    rw [getElem?_map, Option.map_eq_some_iff] at hb
    obtain ⟨a, ha, rfl⟩ := hb
    exact ⟨k, hk, a, ha, hp⟩
  complete := fun j ⟨b, hb, hp⟩ => h.complete j ⟨f b, by rw [getElem?_map, hb]; rfl, hp⟩

/-- **The same test for the bytes equal to `c`.** -/
theorem marks_eq (c : UInt8) (hlen : bs.length = 8) :
    Marks (fun b => b == c) bs (below 1 (ofBytes bs ^^^ broadcast c)) := by
  rw [ofBytes_xor_broadcast hlen]
  have h : Marks (fun b => decide (b ^^^ c < 1)) bs _ :=
    (marks_below (n := 1) (by decide) (by simpa using hlen)).of_map
  have hclass : (fun b : UInt8 => decide (b ^^^ c < 1)) = (fun b => b == c) := by
    funext b
    rw [Bool.eq_iff_iff, decide_eq_true_iff, beq_iff_eq, UInt8.lt_one_iff, UInt8.xor_eq_zero_iff]
  rwa [hclass] at h

/-- The lanes of a word. -/
def bytesOf (x : Word) : Bytes := (List.range 8).map fun j => UInt8.ofBitVec (x.extractLsb' (8 * j) 8)

theorem ofBytes_bytesOf (x : Word) : ofBytes (bytesOf x) = x := by
  refine BitVec.eq_of_getLsbD_eq fun i hi => ?_
  have hb : (bytesOf x)[i / 8]? = some (UInt8.ofBitVec (x.extractLsb' (8 * (i / 8)) 8)) := by
    rw [bytesOf, getElem?_map, getElem?_range (by omega)]
    rfl
  have hbit := testBit_lanes (i := i % 8) hb (by omega)
  rw [Nat.div_add_mod] at hbit
  rw [← BitVec.testBit_toNat, toNat_ofBytes (by simp [bytesOf]), hbit]
  show (x.extractLsb' (8 * (i / 8)) 8).getLsbD (i % 8) = _
  rw [BitVec.getLsbD_extractLsb', decide_eq_true (by omega), Bool.true_and, Nat.div_add_mod]

end

/-! ## Scans over bytes and words -/

/-- What ends a scan early: the index to return, or an access outside the slice. -/
inductive Stop where
  | found (i : Nat)
  | fault
deriving DecidableEq, Repr

def readByte (s : Bytes) (i : Nat) : Except Stop UInt8 :=
  match s[i]? with
  | some b => .ok b
  | none => .error .fault

/-- A window as a word. -/
def loadWord (s : Bytes) (i : Nat) : Except Stop Word :=
  if i + 8 ≤ s.length then .ok (ofBytes (window s i)) else .error .fault

/-- Stop at index `i` if its byte is in the class `p`. -/
def testByte (p : UInt8 → Bool) (s : Bytes) (i : Nat) : Except Stop Unit := do
  let b ← readByte s i
  if p b then throw (.found i)

/-- Byte by byte upwards while `go` holds; the answer is where the loop ends. -/
def bytesUp (p : UInt8 → Bool) (go : Nat → Bool) (s : Bytes) (i : Nat) : Except Stop Nat :=
  if i < s.length ∧ go i = true then do
    testByte p s i
    bytesUp p go s (i + 1)
  else pure i
termination_by s.length - i

/-- Word by word upwards while a whole word is left. -/
def wordsUp (visit : Nat → Word → Except Stop Unit) (s : Bytes) (i : Nat) : Except Stop Nat :=
  if i + 8 ≤ s.length then do
    visit i (← loadWord s i)
    wordsUp visit s (i + 8)
  else pure i
termination_by s.length - i

/-- Byte by byte downwards from the byte under `i` while `go` holds. -/
def bytesDown (p : UInt8 → Bool) (go : Nat → Bool) (s : Bytes) : Nat → Except Stop Nat
  | 0 => pure 0
  | i + 1 =>
    if go (i + 1) then do
      testByte p s i
      bytesDown p go s i
    else pure (i + 1)

/-- Word by word downwards. -/
def wordsDown (visit : Nat → Word → Except Stop Unit) (s : Bytes) (i : Nat) : Except Stop Nat :=
  if 8 ≤ i then do
    visit (i - 8) (← loadWord s (i - 8))
    wordsDown visit s (i - 8)
  else pure i
termination_by i

/-- What the caller gets, `missing` where nothing was found; `none` for an access outside the slice. -/
def answer (missing : Int) : Except Stop Nat → Option Int
  | .ok _ => some missing
  | .error (.found i) => some i
  | .error .fault => none

/-- No access is outside the slice, an index returned satisfies `R`, and where the scan goes on `Q` holds. -/
def Scans {α : Type} (R : Nat → Prop) (Q : α → Prop) : Except Stop α → Prop
  | .ok a => Q a
  | .error (.found i) => R i
  | .error .fault => False

section

variable {α β : Type} {R : Nat → Prop} {Q Q' : α → Prop} {m : Except Stop α}

theorem Scans.mono (h : Scans R Q m) (hq : ∀ a, Q a → Q' a) : Scans R Q' m := by
  cases m with
  | ok a => exact hq a h
  | error e => cases e <;> exact h

theorem Scans.bind {P : β → Prop} {f : α → Except Stop β} (h : Scans R Q m)
    (hf : ∀ a, Q a → Scans R P (f a)) : Scans R P (m >>= f) := by
  cases m with
  | ok a => exact hf a h
  | error e => cases e <;> exact h

end

section

variable {p : UInt8 → Bool} {go : Nat → Bool} {s : Bytes} {i : Nat}
  {visit : Nat → Word → Except Stop Unit}

theorem testByte_scans {R : Nat → Prop} (hi : i < s.length) (hr : Hit p s i → R i) :
    Scans R (fun _ => ¬ Hit p s i) (testByte p s i) := by
  have hb := getElem?_eq_getElem hi
  unfold testByte readByte
  rw [hb]
  show Scans R _ (if p s[i] = true then Except.error (Stop.found i) else .ok ())
  split
  · rename_i h
    exact hr ⟨_, hb, h⟩
  rename_i h
  rintro ⟨b, hb', hp⟩
  cases hb.symm.trans hb'
  exact h hp

/-- **Upwards byte by byte**: the loop returns the first index of the class, or passes over none. -/
theorem bytesUp_scans {i : Nat} (hc : Clear p s 0 i) (hi : i ≤ s.length) :
    Scans (First p s) (fun j => Clear p s 0 j ∧ j ≤ s.length ∧ (go j = true → j = s.length))
      (bytesUp p go s i) := by
  rw [bytesUp]
  split
  · rename_i h
    refine (testByte_scans h.1 fun hit => ⟨hit, hc⟩).bind fun _ hmiss => ?_
    exact bytesUp_scans (hc.append (.single hmiss)) h.1
  · rename_i h
    refine ⟨hc, hi, fun hgo => ?_⟩
    by_contra hne
    exact h ⟨by omega, hgo⟩
termination_by s.length - i

/-- **Upwards word by word**: so does this one where every visit of a word does. -/
theorem wordsUp_scans (hvisit : ∀ i, i + 8 ≤ s.length → Clear p s 0 i →
      Scans (First p s) (fun _ => Clear p s 0 (i + 8)) (visit i (ofBytes (window s i))))
    {i : Nat} (hc : Clear p s 0 i) (hi : i ≤ s.length) :
    Scans (First p s) (fun j => Clear p s 0 j ∧ j ≤ s.length) (wordsUp visit s i) := by
  rw [wordsUp]
  split
  · rename_i h
    rw [loadWord, if_pos h]
    exact (hvisit i h hc).bind fun _ hc' => wordsUp_scans hvisit hc' h
  · exact ⟨hc, hi⟩
termination_by s.length - i

/-- **Downwards byte by byte.** -/
theorem bytesDown_scans {i : Nat} (hc : Clear p s i s.length) (hi : i ≤ s.length) :
    Scans (Last p s) (fun j => Clear p s j s.length ∧ j ≤ i ∧ (go j = true → j = 0))
      (bytesDown p go s i) := by
  induction i with
  | zero => exact ⟨hc, Nat.le_refl 0, fun _ => rfl⟩
  | succ i ih =>
    rw [bytesDown]
    split
    · refine (testByte_scans hi fun hit => ⟨hit, hc⟩).bind fun _ hmiss => ?_
      exact (ih ((Clear.single hmiss).append hc) (by omega)).mono fun j hj => ⟨hj.1, by omega, hj.2.2⟩
    · rename_i hgo
      exact ⟨hc, Nat.le_refl _, fun h => absurd h hgo⟩

/-- **Downwards word by word.** -/
theorem wordsDown_scans (hvisit : ∀ i, i + 8 ≤ s.length → Clear p s (i + 8) s.length →
      Scans (Last p s) (fun _ => Clear p s i s.length) (visit i (ofBytes (window s i))))
    {i : Nat} (hc : Clear p s i s.length) (hi : i ≤ s.length) :
    Scans (Last p s) (fun j => Clear p s j s.length ∧ j ≤ s.length) (wordsDown visit s i) := by
  rw [wordsDown]
  split
  · rename_i h
    have h8 : i - 8 + 8 = i := by omega
    rw [loadWord, if_pos (by omega)]
    refine (hvisit (i - 8) (by omega) (by rwa [h8])).bind fun _ hc' => ?_
    exact wordsDown_scans hvisit hc' (by omega)
  · exact ⟨hc, hi⟩
termination_by i

/-! ### Visits of a word -/

/-- Return the lane of the lowest mark. -/
def lowestMark (mask : Word → Word) (i : Nat) (w : Word) : Except Stop Unit :=
  if mask w ≠ 0#64 then throw (.found (i + trailingZeros (mask w) / 8)) else pure ()

/-- Look again, byte by byte, at a word with marks. -/
def rescanUp (mask : Word → Word) (p : UInt8 → Bool) (s : Bytes) (i : Nat) (w : Word) :
    Except Stop Unit :=
  if mask w ≠ 0#64 then discard (bytesUp p (fun k => k < i + 8) s i) else pure ()

def rescanDown (mask : Word → Word) (p : UInt8 → Bool) (s : Bytes) (i : Nat) (w : Word) :
    Except Stop Unit :=
  if mask w ≠ 0#64 then discard (bytesDown p (fun k => i < k) s (i + 8)) else pure ()

section

variable {mask : Word → Word}

theorem Marks.clear {m : Word} (h : Marks p (window s i) m) (hm : ¬ m ≠ 0#64) : Clear p s i (i + 8) :=
  Clear.of_window (fun k _ _ hk => hm (h.ne_zero_iff.mpr ⟨k, hk⟩)) (Nat.le_refl 8)

section

variable (hm : Marks p (window s i) (mask (ofBytes (window s i))))
include hm

theorem lowestMark_scans (hc : Clear p s 0 i) :
    Scans (First p s) (fun _ => Clear p s 0 (i + 8))
      (lowestMark mask i (ofBytes (window s i))) := by
  unfold lowestMark
  split
  · rename_i hne
    exact (hm.first hne).of_window hc
  · rename_i hz
    exact hc.append (hm.clear hz)

theorem rescanUp_scans (hi : i + 8 ≤ s.length) (hc : Clear p s 0 i) :
    Scans (First p s) (fun _ => Clear p s 0 (i + 8))
      (rescanUp mask p s i (ofBytes (window s i))) := by
  unfold rescanUp
  split
  · refine (bytesUp_scans hc (by omega)).bind fun j hj k hk hk' => ?_
    refine hj.1 k hk ?_
    by_contra hge
    have := hj.2.2 (decide_eq_true (by omega))
    omega
  · rename_i hz
    exact hc.append (hm.clear hz)

theorem rescanDown_scans (hi : i + 8 ≤ s.length) (hc : Clear p s (i + 8) s.length) :
    Scans (Last p s) (fun _ => Clear p s i s.length)
      (rescanDown mask p s i (ofBytes (window s i))) := by
  unfold rescanDown
  split
  · refine (bytesDown_scans hc hi).bind fun j hj k hk hk' => ?_
    refine hj.1 k ?_ hk'
    by_contra hlt
    have := hj.2.2 (decide_eq_true (by omega))
    omega
  · rename_i hz
    exact (hm.clear hz).append hc

end

end

/-! ### Answers -/

section

variable {m : Except Stop Nat} {missing : Int}

theorem First.findIdx (h : First p s i) : s.findIdx p = i := by
  obtain ⟨⟨b, hb, hp⟩, hc⟩ := h
  obtain ⟨hi, rfl⟩ := List.getElem?_eq_some_iff.mp hb
  refine (findIdx_eq hi).mpr ⟨hp, fun j hj => Bool.eq_false_iff.mpr fun hpj => ?_⟩
  exact hc j (Nat.zero_le j) hj ⟨_, getElem?_eq_getElem _, hpj⟩

theorem first_findIdx (h : s.findIdx p < s.length) : First p s (s.findIdx p) := by
  refine ⟨⟨_, getElem?_eq_getElem h, findIdx_getElem⟩, ?_⟩
  rintro j - hj ⟨b, hb, hp⟩
  obtain ⟨hj', rfl⟩ := List.getElem?_eq_some_iff.mp hb
  exact absurd hp (Bool.eq_false_iff.mp (not_of_lt_findIdx hj))

theorem Clear.findIdx (h : Clear p s 0 s.length) : s.findIdx p = s.length :=
  findIdx_eq_length.mpr h.forall_mem

/-- A scan that answers the length where nothing is found is a first-match scan. -/
theorem Scans.answer_length (h : Scans (First p s) (fun _ => Clear p s 0 s.length) m) :
    answer s.length m = some (s.findIdx p : Int) := by
  cases m with
  | ok j => exact congrArg (fun n : Nat => some (n : Int)) (Clear.findIdx h).symm
  | error e =>
    cases e with
    | found j => exact congrArg (fun n : Nat => some (n : Int)) (First.findIdx h).symm
    | fault => exact h.elim

/-- The answer is an index of the class with `R`, or -1 where the class has none. -/
def Found (R : (UInt8 → Bool) → Bytes → Nat → Prop) (p : UInt8 → Bool) (s : Bytes) (r : Option Int) : Prop :=
  (r = some (-1) ∧ ∀ b ∈ s, p b = false) ∨ ∃ i : Nat, r = some (i : Int) ∧ R p s i

theorem Scans.found {R : (UInt8 → Bool) → Bytes → Nat → Prop}
    (h : Scans (R p s) (fun _ => Clear p s 0 s.length) m) : Found R p s (answer (-1) m) := by
  cases m with
  | ok j => exact .inl ⟨rfl, Clear.forall_mem h⟩
  | error e =>
    cases e with
    | found j => exact .inr ⟨j, rfl, h⟩
    | fault => exact h.elim

end

end

end Pandaemonium.Swar
