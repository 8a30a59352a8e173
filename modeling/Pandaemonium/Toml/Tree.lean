import Pandaemonium.Toml.Paths

/-!
# `Toml.Tree` — writing into a document tree

A statement writes at one place of the tree. `Writes grown loc w t t'` says all there is to say about the
step from `t` to `t'`: what stood in `t` still stands there, only tables and arrays may have been added
to; off the way to `loc` nothing has changed; and `w` stands at `loc`. It is proved once for each of the
writers of the parser (`ensureTableRaw_writes`, `appendArrayTableRaw_writes`, `assignUniqueRaw_writes`),
from one lemma for each way of changing a part of a value. `locate` is what a header path is meant to
denote: the table the path leads to, through the last element of every array on the way.
-/

namespace Pandaemonium.Toml

open SortedMap (get?)
open List

/-! ## Reading -/

theorem Val.at?_cons (v : Val) (s : Step) (l : Loc) : v.at? (s :: l) = (v.child? s).bind fun w => w.at? l := rfl

theorem Val.at?_append (v : Val) (l l' : Loc) : v.at? (l ++ l') = (v.at? l).bind fun w => w.at? l' := by
  induction l generalizing v with
  | nil => rfl
  | cons s l ih =>
    rw [cons_append, Val.at?_cons, Val.at?_cons]
    cases v.child? s with
    | none => rfl
    | some w => exact ih w

theorem Val.at?_empty {l : Loc} (h : l ≠ []) : (Val.tbl []).at? l = none := by
  cases l with
  | nil => exact absurd rfl h
  | cons s l => cases s <;> rfl

variable {x : Val}

/-- What stands above a place that exists, exists. -/
theorem Val.at?_before {v : Val} {l l' : Loc} (h : v.at? (l ++ l') = some x) :
    ∃ w, v.at? l = some w ∧ w.at? l' = some x := by
  rw [Val.at?_append] at h
  cases hl : v.at? l with
  | none => rw [hl] at h; cases h
  | some w => rw [hl] at h; exact ⟨w, rfl, h⟩

theorem child?_key (es : Table) (k : Bytes) : (Val.tbl es).child? (.key k) = get? es k := rfl

theorem child?_insert (es : Table) (k : Bytes) (u : Val) (s : Step) :
    (Val.tbl (SortedMap.insert es k u)).child? s =
      if s = .key k then some u else (Val.tbl es).child? s := by
  cases s with
  | elem i => rfl
  | key k' =>
    show get? (SortedMap.insert es k u) k' = _
    rw [SortedMap.get?_insert]
    by_cases h : k = k'
    · subst h; rw [if_pos rfl, if_pos rfl]
    · rw [if_neg h, if_neg (fun he => h (Step.key.inj he).symm)]
      rfl

/-! ## Growing -/

/-- `y` is what `x` may become: tables are filled, an array keeps its length unless it may get `longer`,
    anything else stays. -/
inductive Val.Grows (longer : Prop) : Val → Val → Prop
  | refl (v : Val) : Grows longer v v
  | tbl (es es' : Table) : Grows longer (.tbl es) (.tbl es')
  | arr {xs ys : List Val} : ys.length = xs.length → Grows longer (.arr xs) (.arr ys)
  | longer {xs ys : List Val} : longer → xs.length ≤ ys.length → Grows longer (.arr xs) (.arr ys)

/-- Everything in `t` is still in `t'`; the arrays at `grown` may have got longer. -/
def Extends (grown : Loc → Prop) (t t' : Val) : Prop :=
  ∀ l x, t.at? l = some x → ∃ x', t'.at? l = some x' ∧ x.Grows (grown l) x'

/-- **One write**: `w` is put at `loc`, nothing is lost, and nothing off the way is touched. -/
structure Writes (grown : Loc → Prop) (loc : Loc) (w t t' : Val) : Prop where
  keeps : Extends grown t t'
  off : ∀ l, ¬ l <+: loc → ¬ loc <+: l → t'.at? l = t.at? l
  put : ∀ r, t'.at? (loc ++ r) = w.at? r

/-- The arrays of `grown` seen from the top of a way to them. -/
def below (way : Loc) (grown : Loc → Prop) (l : Loc) : Prop := ∃ r, l = way ++ r ∧ grown r

theorem Val.Grows.mono {longer longer' : Prop} {y : Val} (h : x.Grows longer y) (himp : longer → longer') :
    x.Grows longer' y := by
  cases h with
  | refl => exact .refl _
  | tbl => exact .tbl _ _
  | arr hl => exact .arr hl
  | longer hg hl => exact .longer (himp hg) hl

theorem writes_refl (t : Val) : Writes (fun _ => False) [] t t t where
  keeps := fun _ x h => ⟨x, h, .refl x⟩
  off := fun _ _ h => absurd nil_prefix h
  put := fun _ => rfl

variable {t : Val}

variable {grown : Loc → Prop} {loc : Loc}

/-- Changing one child. -/
theorem Writes.child {w t' u u' : Val} {s : Step} (h : Writes grown loc w u u')
    (hu : t.child? s = some u) (hu' : ∀ s', t'.child? s' = if s' = s then some u' else t.child? s')
    (hgrow : t.Grows False t') : Writes (below [s] grown) (s :: loc) w t t' where
  keeps := by
    intro l x hx
    cases l with
    | nil =>
      cases hx
      exact ⟨t', rfl, hgrow.mono False.elim⟩
    | cons s' l =>
      rw [Val.at?_cons] at hx ⊢
      rw [hu']
      by_cases hs : s' = s
      · subst hs
        rw [if_pos rfl]
        rw [hu] at hx
        obtain ⟨x', hx', hg⟩ := h.keeps l x hx
        exact ⟨x', hx', hg.mono fun h => ⟨l, rfl, h⟩⟩
      · rw [if_neg hs]
        exact ⟨x, hx, .refl x⟩
  off := by
    intro l h₁ h₂
    cases l with
    | nil => exact absurd nil_prefix h₁
    | cons s' l =>
      rw [Val.at?_cons, Val.at?_cons, hu']
      by_cases hs : s' = s
      · subst hs
        rw [if_pos rfl, hu]
        refine h.off l ?_ ?_
        · intro hp; exact h₁ (cons_prefix_cons.mpr ⟨rfl, hp⟩)
        · intro hp; exact h₂ (cons_prefix_cons.mpr ⟨rfl, hp⟩)
      · rw [if_neg hs]
  put := by
    intro r
    rw [cons_append, Val.at?_cons, hu', if_pos rfl]
    exact h.put r

/-- Adding a child where there was none: `u'` holds `w` at `loc` and nothing off the way. -/
theorem writes_new_child {w t' u' : Val} {s : Step} (hu : t.child? s = none)
    (hu' : ∀ s', t'.child? s' = if s' = s then some u' else t.child? s')
    (hgrow : t.Grows (grown []) t') (hoff : ∀ l, ¬ l <+: loc → ¬ loc <+: l → u'.at? l = none)
    (hput : ∀ r, u'.at? (loc ++ r) = w.at? r) : Writes grown (s :: loc) w t t' where
  keeps := by
    intro l x hx
    cases l with
    | nil =>
      cases hx
      exact ⟨t', rfl, hgrow⟩
    | cons s' l =>
      rw [Val.at?_cons] at hx ⊢
      by_cases hs : s' = s
      · subst hs
        rw [hu] at hx
        cases hx
      · rw [hu', if_neg hs]
        exact ⟨x, hx, .refl x⟩
  off := by
    intro l h₁ h₂
    cases l with
    | nil => exact absurd nil_prefix h₁
    | cons s' l =>
      rw [Val.at?_cons, Val.at?_cons, hu']
      by_cases hs : s' = s
      · subst hs
        rw [if_pos rfl, hu]
        refine hoff l ?_ ?_
        · intro hp; exact h₁ (cons_prefix_cons.mpr ⟨rfl, hp⟩)
        · intro hp; exact h₂ (cons_prefix_cons.mpr ⟨rfl, hp⟩)
      · rw [if_neg hs]
  put := by
    intro r
    rw [cons_append, Val.at?_cons, hu', if_pos rfl]
    exact hput r

theorem Writes.weaken {grown' : Loc → Prop} {w t' : Val} (h : Writes grown loc w t t')
    (himp : ∀ l, grown l → grown' l) : Writes grown' loc w t t' where
  keeps := by
    intro l x hx
    obtain ⟨x', hx', hg⟩ := h.keeps l x hx
    exact ⟨x', hx', hg.mono (himp l)⟩
  off := h.off
  put := h.put

/-! ## One step of the writers -/

section

variable {grown : Loc → Prop} {loc : Loc} {w u u' : Val} {es : Table} {xs : List Val} {k : Bytes}

/-- Into the value of a key. -/
theorem Writes.key (h : Writes grown loc w u u') (hu : get? es k = some u) :
    Writes (below [.key k] grown) (.key k :: loc) w (.tbl es) (.tbl (SortedMap.insert es k u')) :=
  h.child hu (child?_insert es k u') (.tbl _ _)

/-- A new key. -/
theorem writes_new_key (hu : get? es k = none) (hoff : ∀ l, ¬ l <+: loc → ¬ loc <+: l → u'.at? l = none)
    (hput : ∀ r, u'.at? (loc ++ r) = w.at? r) :
    Writes (fun _ => False) (.key k :: loc) w (.tbl es) (.tbl (SortedMap.insert es k u')) :=
  writes_new_child (show (Val.tbl es).child? (.key k) = none from hu) (child?_insert es k u')
    (.tbl _ _) hoff hput

/-- A new key whose value grows out of an empty table. -/
theorem Writes.new_key (h : Writes grown loc w (.tbl []) u') (hu : get? es k = none) :
    Writes (fun _ => False) (.key k :: loc) w (.tbl es) (.tbl (SortedMap.insert es k u')) := by
  refine writes_new_key hu ?_ h.put
  intro l h₁ h₂
  rw [h.off l h₁ h₂]
  apply Val.at?_empty
  rintro rfl
  exact h₁ nil_prefix

/-- Into the last element of an array. -/
theorem Writes.last (h : Writes grown loc w u u') (hu : xs.getLast? = some u) :
    Writes (below [.elem (xs.length - 1)] grown) (.elem (xs.length - 1) :: loc) w (.arr xs)
      (.arr (xs.dropLast ++ [u'])) := by
  have hne : xs ≠ [] := by
    rintro rfl
    cases hu
  have hpos : 0 < xs.length := length_pos_iff.mpr hne
  refine h.child ?_ ?_ ?_
  · show xs[xs.length - 1]? = some u
    rw [← getLast?_eq_getElem?, hu]
  · intro s
    cases s with
    | key k => rfl
    | elem i =>
      show (xs.dropLast ++ [u'])[i]? = if Step.elem i = .elem (xs.length - 1) then some u' else xs[i]?
      rcases Nat.lt_trichotomy i (xs.length - 1) with hlt | heq | hgt
      · rw [getElem?_append_left (by rw [length_dropLast]; exact hlt),
          if_neg (fun he => by have := Step.elem.inj he; omega), getElem?_dropLast, if_pos hlt]
      · rw [if_pos (by rw [heq]), getElem?_append_right (by rw [length_dropLast]; omega),
          length_dropLast, heq, Nat.sub_self]
        rfl
      · rw [if_neg (fun he => by have := Step.elem.inj he; omega)]
        rw [getElem?_eq_none (by simp; omega), getElem?_eq_none (by omega)]
  · refine .arr ?_
    rw [length_append, length_dropLast, length_singleton]
    omega

/-- A new element at the end of an array. -/
theorem writes_push (xs : List Val) (w : Val) :
    Writes (· = []) [.elem xs.length] w (.arr xs) (.arr (xs ++ [w])) := by
  have hnone : (Val.arr xs).child? (.elem xs.length) = none := getElem?_eq_none (Nat.le_refl _)
  have hchild : ∀ s, (Val.arr (xs ++ [w])).child? s =
      if s = .elem xs.length then some w else (Val.arr xs).child? s := by
    intro s
    cases s with
    | key k => rfl
    | elem i =>
      show (xs ++ [w])[i]? = if Step.elem i = .elem xs.length then some w else xs[i]?
      rcases Nat.lt_trichotomy i xs.length with hlt | heq | hgt
      · rw [getElem?_append_left hlt, if_neg (fun he => by have := Step.elem.inj he; omega)]
      · rw [if_pos (by rw [heq]), getElem?_append_right (by omega), heq, Nat.sub_self]
        rfl
      · rw [if_neg (fun he => by have := Step.elem.inj he; omega)]
        rw [getElem?_eq_none (by simp; omega), getElem?_eq_none (by omega)]
  refine writes_new_child hnone hchild (.longer rfl (by simp)) ?_ ?_
  · intro l _ h
    exact absurd nil_prefix h
  · intro r; rfl

/-- A child of a value after one child is replaced. -/
theorem child?_setChild {v : Val} {s : Step} (h : v.child? s = some x) (y : Val) (s' : Step) :
    (v.setChild s y).child? s' = if s' = s then some y else v.child? s' := by
  cases v with
  | tbl es =>
    cases s with
    | key k => exact child?_insert es k y s'
    | elem i => cases h
  | arr xs =>
    cases s with
    | key k => cases h
    | elem i =>
      have hi : i < xs.length := by
        have h' : xs[i]? = some x := h
        exact (List.getElem?_eq_some_iff.mp h').1
      cases s' with
      | key k => rfl
      | elem j =>
        show (xs.set i y)[j]? = if Step.elem j = .elem i then some y else xs[j]?
        rw [getElem?_set]
        by_cases hij : i = j
        · subst hij; rw [if_pos rfl, if_pos hi, if_pos rfl]
        · rw [if_neg hij, if_neg (fun he => hij (Step.elem.inj he).symm)]
  | str | int | float | bool | dateTime => cases s <;> cases h

theorem grows_setChild (v : Val) (s : Step) (y : Val) : v.Grows False (v.setChild s y) := by
  cases v with
  | tbl es =>
    cases s with
    | key k => exact .tbl _ _
    | elem i => exact .refl _
  | arr xs =>
    cases s with
    | key k => exact .refl _
    | elem i => exact .arr length_set
  | str | int | float | bool | dateTime => cases s <;> exact .refl _

/-- Into the part at `way`. -/
theorem Writes.setAt {way : Loc} {v : Val} (h : Writes grown loc w u u') (hu : v.at? way = some u) :
    Writes (below way grown) (way ++ loc) w v (v.setAt way u') := by
  induction way generalizing v with
  | nil =>
    cases hu
    exact h.weaken fun l hl => ⟨l, rfl, hl⟩
  | cons s way ih =>
    rw [Val.at?_cons] at hu
    cases hs : v.child? s with
    | none => rw [hs] at hu; cases hu
    | some x =>
      rw [hs] at hu
      have hset : v.setAt (s :: way) u' = v.setChild s (x.setAt way u') := by
        rw [Val.setAt, hs]
      rw [hset]
      refine ((ih hu).child hs (child?_setChild hs _) (grows_setChild v s _)).weaken ?_
      rintro l ⟨r, rfl, r', rfl, hr⟩
      exact ⟨r', rfl, hr⟩

end

/-! ## What a path denotes -/

/-- **The place of the table that `path` denotes**, through the last element of each array on the way. -/
def locate (cur : Table) : Path → Option Loc
  | [] => some []
  | p :: ps =>
    match get? cur p with
    | some (.tbl next) => (locate next ps).map (.key p :: ·)
    | some (.arr xs) =>
      match xs.getLast? with
      | some (.tbl next) => (locate next ps).map (.key p :: .elem (xs.length - 1) :: ·)
      | _ => none
    | _ => none

/-- The keys on a way. -/
def Loc.keys : Loc → Path
  | [] => []
  | .key k :: l => k :: Loc.keys l
  | .elem _ :: l => Loc.keys l

/-- How a path is followed by one segment. -/
inductive Leads (cur : Table) (p : Bytes) : Table → Loc → Prop
  | table {next : Table} : get? cur p = some (.tbl next) → Leads cur p next [.key p]
  | element {xs : List Val} {next : Table} : get? cur p = some (.arr xs) →
      xs.getLast? = some (.tbl next) → Leads cur p next [.key p, .elem (xs.length - 1)]

section

variable {cur cur' next : Table} {p : Bytes} {ps path : Path} {loc way : Loc}

theorem Leads.at? (h : Leads cur p next way) : (Val.tbl cur).at? way = some (.tbl next) := by
  cases h with
  | table hg => rw [Val.at?_cons, child?_key, hg]; rfl
  | @element xs next hg hl =>
    rw [Val.at?_cons, child?_key, hg]
    show (xs[xs.length - 1]?).bind _ = _
    rw [← getLast?_eq_getElem?, hl]
    rfl

theorem Leads.keys (h : Leads cur p next way) : Loc.keys way = [p] := by
  cases h <;> rfl

theorem locate_cons_iff :
    locate cur (p :: ps) = some loc ↔
      ∃ next way loc', Leads cur p next way ∧ locate next ps = some loc' ∧ loc = way ++ loc' := by
  constructor
  · intro h
    unfold locate at h
    split at h
    · rename_i next hg
      obtain ⟨loc', hl, rfl⟩ := Option.map_eq_some_iff.mp h
      exact ⟨next, _, loc', .table hg, hl, rfl⟩
    · rename_i xs hg
      split at h
      · rename_i next hlast
        obtain ⟨loc', hl, rfl⟩ := Option.map_eq_some_iff.mp h
        exact ⟨next, _, loc', .element hg hlast, hl, rfl⟩
      · cases h
    · cases h
  · rintro ⟨next, way, loc', hlead, hl, rfl⟩
    unfold locate
    cases hlead with
    | table hg => rw [hg]; dsimp only; rw [hl]; rfl
    | element hg hlast => rw [hg]; dsimp only; rw [hlast]; dsimp only; rw [hl]; rfl

/-- A path leads to a table. -/
theorem locate_at? (h : locate cur path = some loc) : ∃ es, (Val.tbl cur).at? loc = some (.tbl es) := by
  induction path generalizing cur loc with
  | nil => cases h; exact ⟨cur, rfl⟩
  | cons p ps ih =>
    obtain ⟨next, way, loc', hlead, hl, rfl⟩ := locate_cons_iff.mp h
    obtain ⟨es, hes⟩ := ih hl
    refine ⟨es, ?_⟩
    rw [Val.at?_append, hlead.at?]
    exact hes

theorem Loc.keys_append (l l' : Loc) : Loc.keys (l ++ l') = Loc.keys l ++ Loc.keys l' := by
  induction l with
  | nil => rfl
  | cons s l ih =>
    cases s with
    | key k => exact congrArg (k :: ·) ih
    | elem i => exact ih

/-- The keys on the way are the path. -/
theorem locate_keys (h : locate cur path = some loc) : Loc.keys loc = path := by
  induction path generalizing cur loc with
  | nil => cases h; rfl
  | cons p ps ih =>
    obtain ⟨next, way, loc', hlead, hl, rfl⟩ := locate_cons_iff.mp h
    rw [Loc.keys_append, hlead.keys, ih hl]
    rfl

/-- A longer path leads on from where the shorter one leads to. -/
theorem locate_append_iff {path' : Path} :
    locate cur (path ++ path') = some loc ↔
      ∃ loc₁ es loc₂, locate cur path = some loc₁ ∧ (Val.tbl cur).at? loc₁ = some (.tbl es) ∧
        locate es path' = some loc₂ ∧ loc = loc₁ ++ loc₂ := by
  induction path generalizing cur loc with
  | nil =>
    constructor
    · intro h; exact ⟨[], cur, loc, rfl, rfl, h, rfl⟩
    rintro ⟨loc₁, es, loc₂, h₁, hes, h₂, rfl⟩
    cases h₁; cases hes
    exact h₂
  | cons p ps ih =>
    rw [cons_append, locate_cons_iff]
    constructor
    · rintro ⟨next, way, loc', hlead, hl, rfl⟩
      obtain ⟨loc₁, es, loc₂, h₁, hes, h₂, rfl⟩ := ih.mp hl
      refine ⟨way ++ loc₁, es, loc₂, ?_, ?_, h₂, by rw [append_assoc]⟩
      · exact locate_cons_iff.mpr ⟨next, way, loc₁, hlead, h₁, rfl⟩
      · rw [Val.at?_append, hlead.at?]; exact hes
    · rintro ⟨loc₁, es, loc₂, h₁, hes, h₂, rfl⟩
      obtain ⟨next, way, loc', hlead, hl, rfl⟩ := locate_cons_iff.mp h₁
      rw [Val.at?_append, hlead.at?] at hes
      exact ⟨next, way, loc' ++ loc₂, hlead, ih.mpr ⟨loc', es, loc₂, hl, hes, h₂, rfl⟩, by
        rw [append_assoc]⟩

theorem prefix_append_cases {l a b : Loc} (h : l <+: a ++ b) : l <+: a ∨ ∃ l', l = a ++ l' ∧ l' <+: b := by
  obtain ⟨r, hr⟩ := h
  rcases append_eq_append_iff.mp hr with ⟨c, rfl, rfl⟩ | ⟨c, rfl, rfl⟩
  · exact .inl ⟨c, rfl⟩
  · exact .inr ⟨c, rfl, ⟨r, rfl⟩⟩

/-- On the way there are only tables, and arrays that are values of keys. -/
theorem locate_way (h : locate cur path = some loc) {l : Loc} (hl : l <+: loc) :
    (∃ es, (Val.tbl cur).at? l = some (.tbl es)) ∨
      ∃ l' k xs, l = l' ++ [.key k] ∧ (Val.tbl cur).at? l = some (.arr xs) ∧ xs ≠ [] := by
  induction path generalizing cur loc l with
  | nil =>
    cases h
    rw [prefix_nil] at hl
    subst hl
    exact .inl ⟨cur, rfl⟩
  | cons p ps ih =>
    obtain ⟨next, way, loc', hlead, hloc, rfl⟩ := locate_cons_iff.mp h
    rcases prefix_append_cases hl with hfirst | ⟨l', rfl, hrest⟩
    · cases hlead with
      | table hg =>
        rcases prefix_cons_iff.mp hfirst with rfl | ⟨t, rfl, ht⟩
        · exact .inl ⟨cur, rfl⟩
        rw [prefix_nil] at ht
        subst ht
        exact .inl ⟨next, (Leads.table hg).at?⟩
      | @element xs next hg hlast =>
        rcases prefix_cons_iff.mp hfirst with rfl | ⟨t, rfl, ht⟩
        · exact .inl ⟨cur, rfl⟩
        rcases prefix_cons_iff.mp ht with rfl | ⟨t', rfl, ht'⟩
        · refine .inr ⟨[], p, xs, rfl, ?_, ?_⟩
          · rw [Val.at?_cons, child?_key, hg]; rfl
          · rintro rfl; cases hlast
        · rw [prefix_nil] at ht'
          subst ht'
          exact .inl ⟨next, (Leads.element hg hlast).at?⟩
    · -- beyond the first segment the way is that of the rest of the path
      rw [Val.at?_append, hlead.at?]
      rcases ih hloc hrest with ⟨es, hes⟩ | ⟨l'', k, xs, rfl, hxs, hne⟩
      · exact .inl ⟨es, hes⟩
      · exact .inr ⟨way ++ l'', k, xs, by rw [append_assoc], hxs, hne⟩

/-- A key on the way is a segment of the path. -/
theorem locate_key (h : locate cur path = some loc) {c : Loc} {k : Bytes}
    (hc : c ++ [.key k] <+: loc) : ∃ before, before ++ [k] <+: path ∧ locate cur before = some c := by
  induction path generalizing cur loc c with
  | nil =>
    cases h
    rw [prefix_nil] at hc
    exact absurd hc (by simp)
  | cons p ps ih =>
    obtain ⟨next, way, loc', hlead, hloc, rfl⟩ := locate_cons_iff.mp h
    -- either the key is the first segment, or it lies further on
    have hfirst : c ++ [.key k] <+: way → c = [] ∧ k = p := by
      intro hp
      cases hlead with
      | table =>
        rcases prefix_cons_iff.mp hp with h | ⟨t, ht, hn⟩
        · exact absurd h (by simp)
        rw [prefix_nil] at hn
        subst hn
        cases c with
        | nil => exact ⟨rfl, by simpa using ht⟩
        | cons s c => simp at ht
      | @element xs next hg hlast =>
        rcases prefix_cons_iff.mp hp with h | ⟨t, ht, hn⟩
        · exact absurd h (by simp)
        cases c with
        | nil => exact ⟨rfl, by simpa using congrArg List.head? ht⟩
        | cons s c =>
          exfalso
          rw [cons_append, List.cons.injEq] at ht
          obtain ⟨-, rfl⟩ := ht
          rcases prefix_cons_iff.mp hn with h | ⟨t, ht, hn'⟩
          · exact absurd h (by simp)
          rw [prefix_nil] at hn'
          subst hn'
          cases c with
          | nil | cons s c => simp at ht
    by_cases hp : c ++ [.key k] <+: way
    · obtain ⟨rfl, rfl⟩ := hfirst hp
      exact ⟨[], by simp, rfl⟩
    rcases prefix_append_cases hc with hp' | ⟨l', heq, hl⟩
    · exact absurd hp' hp
    have hne : l' ≠ [] := by
      rintro rfl
      rw [append_nil] at heq
      exact hp ⟨[], by rw [heq, append_nil]⟩
    obtain ⟨c', s, rfl⟩ : ∃ c' s, l' = c' ++ [s] :=
      ⟨l'.dropLast, l'.getLast hne, (dropLast_concat_getLast hne).symm⟩
    rw [← append_assoc] at heq
    obtain ⟨rfl, hs⟩ := append_inj' heq rfl
    cases hs
    obtain ⟨before, hb, hlb⟩ := ih hloc hl
    refine ⟨p :: before, ?_, locate_cons_iff.mpr ⟨next, way, c', hlead, hlb, rfl⟩⟩
    rw [cons_append, cons_prefix_cons]
    exact ⟨rfl, hb⟩

/-! ## Growing trees -/

variable {grown : Loc → Prop}

theorem Extends.child {t' u u' : Val} {s : Step} (h : Extends grown t t') (hu : t.child? s = some u)
    (hu' : t'.child? s = some u') : Extends (fun l => grown (s :: l)) u u' := by
  intro l x hx
  have hx' : t.at? (s :: l) = some x := by rw [Val.at?_cons, hu]; exact hx
  obtain ⟨y, hy, hg⟩ := h (s :: l) x hx'
  rw [Val.at?_cons, hu'] at hy
  exact ⟨y, hy, hg⟩

theorem Extends.child? {t' u : Val} {s : Step} (h : Extends grown t t') (hu : t.child? s = some u) :
    ∃ u', t'.child? s = some u' ∧ u.Grows (grown [s]) u' := by
  have hx : t.at? [s] = some u := by rw [Val.at?_cons, hu]; rfl
  obtain ⟨u', hu', hg⟩ := h [s] u hx
  refine ⟨u', ?_, hg⟩
  rw [Val.at?_cons] at hu'
  cases hc : t'.child? s with
  | none => rw [hc] at hu'; cases hu'
  | some v => rw [hc] at hu'; exact hu'

theorem Val.Grows.to_tbl {longer : Prop} {es : Table} (h : x.Grows longer (.tbl es)) : ∃ es', x = .tbl es' := by
  cases h with
  | refl => exact ⟨es, rfl⟩
  | tbl es' => exact ⟨es', rfl⟩

theorem Val.Grows.to_arr {longer : Prop} {ys : List Val} (h : x.Grows longer (.arr ys)) :
    ∃ xs, x = .arr xs ∧ xs.length ≤ ys.length := by
  cases h with
  | refl => exact ⟨ys, rfl, Nat.le_refl _⟩
  | arr hl => exact ⟨_, rfl, Nat.le_of_eq hl.symm⟩
  | longer _ hl => exact ⟨_, rfl, hl⟩

/-- **A path that leads to an old place in the grown tree led there before.** -/
theorem Extends.locate_old (h : Extends grown (.tbl cur) (.tbl cur')) (hl : locate cur' path = some loc)
    (hold : (Val.tbl cur).at? loc ≠ none) : locate cur path = some loc := by
  induction path generalizing grown cur cur' loc with
  | nil => exact hl
  | cons p ps ih =>
    obtain ⟨next', way, loc', hlead, hloc, rfl⟩ := locate_cons_iff.mp hl
    -- the first key was there before
    obtain ⟨u, hu⟩ : ∃ u, (Val.tbl cur).child? (.key p) = some u := by
      cases hc : (Val.tbl cur).child? (.key p) with
      | some u => exact ⟨u, rfl⟩
      | none =>
        exfalso
        apply hold
        cases hlead <;> rw [cons_append, Val.at?_cons, hc] <;> rfl
    obtain ⟨u', hu', hg⟩ := h.child? hu
    cases hlead with
    | table hget =>
      rw [child?_key, hget] at hu'
      cases hu'
      obtain ⟨next, rfl⟩ := hg.to_tbl
      rw [cons_append, Val.at?_cons, hu] at hold
      have hnext := ih (h.child hu hget) hloc hold
      exact locate_cons_iff.mpr ⟨next, _, loc', .table hu, hnext, rfl⟩
    | @element ys next' hget hlast =>
      rw [child?_key, hget] at hu'
      cases hu'
      obtain ⟨xs, rfl, hle⟩ := hg.to_arr
      rw [cons_append, Val.at?_cons, hu] at hold
      change ((Val.arr xs).at? (.elem (ys.length - 1) :: loc')) ≠ none at hold
      rw [Val.at?_cons] at hold
      -- the element was there before, so it was the last one before
      obtain ⟨x, hx⟩ : ∃ x, (Val.arr xs).child? (.elem (ys.length - 1)) = some x := by
        cases hc : (Val.arr xs).child? (.elem (ys.length - 1)) with
        | some x => exact ⟨x, rfl⟩
        | none => rw [hc] at hold; exact absurd rfl hold
      rw [hx] at hold
      have hxs : xs[ys.length - 1]? = some x := hx
      have hlt := (List.getElem?_eq_some_iff.mp hxs).1
      have hpos : 0 < ys.length := by
        cases ys with
        | nil => cases hlast
        | cons y ys => simp
      have hlen : xs.length = ys.length := by omega
      have hsub := h.child hu hget
      have hy : (Val.arr ys).child? (.elem (ys.length - 1)) = some (.tbl next') := by
        show ys[ys.length - 1]? = _
        rw [← getLast?_eq_getElem?, hlast]
      obtain ⟨y, hy', hgy⟩ := hsub.child? hx
      rw [hy] at hy'
      cases hy'
      obtain ⟨next, rfl⟩ := hgy.to_tbl
      have hnext := ih (hsub.child hx hy) hloc hold
      rw [← hlen] at hxs ⊢
      rw [← getLast?_eq_getElem?] at hxs
      exact locate_cons_iff.mpr ⟨next, _, loc', .element hu hxs, hnext, rfl⟩

/-- **A path leads where it led before**, unless an array on the way got longer. -/
theorem Extends.locate_mono (h : Extends grown (.tbl cur) (.tbl cur')) (hl : locate cur path = some loc)
    (hway : ∀ l, l <+: loc → ¬ grown l) : locate cur' path = some loc := by
  induction path generalizing grown cur cur' loc with
  | nil => exact hl
  | cons p ps ih =>
    obtain ⟨next, way, loc', hlead, hloc, rfl⟩ := locate_cons_iff.mp hl
    cases hlead with
    | table hget =>
      have hu : (Val.tbl cur).child? (.key p) = some (.tbl next) := hget
      obtain ⟨u', hu', hg⟩ := h.child? hu
      obtain ⟨next', rfl⟩ : ∃ next', u' = .tbl next' := by
        cases hg with
        | refl => exact ⟨next, rfl⟩
        | tbl _ es' => exact ⟨es', rfl⟩
      have hnext := ih (h.child hu hu') hloc (fun l hl => hway _ (by
        rw [cons_append, cons_prefix_cons]; exact ⟨rfl, hl⟩))
      exact locate_cons_iff.mpr ⟨next', _, loc', .table hu', hnext, rfl⟩
    | @element xs next hget hlast =>
      have hu : (Val.tbl cur).child? (.key p) = some (.arr xs) := hget
      obtain ⟨u', hu', hg⟩ := h.child? hu
      have hng : ¬ grown [.key p] := by
        apply hway
        rw [cons_append, cons_prefix_cons]
        exact ⟨rfl, nil_prefix⟩
      obtain ⟨ys, rfl, hlen⟩ : ∃ ys, u' = .arr ys ∧ ys.length = xs.length := by
        cases hg with
        | refl => exact ⟨xs, rfl, rfl⟩
        | arr hl => exact ⟨_, rfl, hl⟩
        | longer hgr _ => exact absurd hgr hng
      have hsub := h.child hu hu'
      have hx : (Val.arr xs).child? (.elem (xs.length - 1)) = some (.tbl next) := by
        show xs[xs.length - 1]? = _
        rw [← getLast?_eq_getElem?, hlast]
      obtain ⟨y, hy, hgy⟩ := hsub.child? hx
      obtain ⟨next', rfl⟩ : ∃ next', y = .tbl next' := by
        cases hgy with
        | refl => exact ⟨next, rfl⟩
        | tbl _ es' => exact ⟨es', rfl⟩
      have hnext := ih (hsub.child hx hy) hloc (fun l hl => hway _ (by
        rw [cons_append, cons_prefix_cons]
        exact ⟨rfl, cons_prefix_cons.mpr ⟨rfl, hl⟩⟩))
      have hlast' : ys.getLast? = some (.tbl next') := by
        rw [getLast?_eq_getElem?, hlen]
        exact hy
      rw [← hlen]
      exact locate_cons_iff.mpr ⟨next', _, loc', .element hu' hlast', hnext, rfl⟩

end

/-! ## The writers of the parser -/

theorem Val.Grows.trans {a b : Prop} {y z : Val} (h : x.Grows a y) (h' : y.Grows b z) : x.Grows (a ∨ b) z := by
  cases h with
  | refl => exact h'.mono .inr
  | tbl es es' =>
    cases h' with
    | refl | tbl => exact .tbl _ _
  | arr hl =>
    cases h' with
    | refl => exact .arr hl
    | arr hl' => exact .arr (hl'.trans hl)
    | longer hb hl' => exact .longer (.inr hb) (by omega)
  | longer ha hl =>
    cases h' with
    | refl => exact .longer (.inl ha) hl
    | arr hl' => exact .longer (.inl ha) (by omega)
    | longer hb hl' => exact .longer (.inr hb) (by omega)

/-- `u` stands at `way` in `t`, or nothing does and `u` is an empty table. -/
def StoodAt (t : Val) (way : Loc) (u : Val) : Prop :=
  t.at? way = some u ∨ (t.at? way = none ∧ u = .tbl [])

/-- **One write after another**, the second below the first. -/
theorem Writes.andThen {g₁ g₂ : Loc → Prop} {way r : Loc} {t₁ u u' w : Val} (h₁ : Writes g₁ way u t t₁)
    (hwas : StoodAt t way u) (h₂ : Writes g₂ r w u u') :
    Writes (fun l => g₁ l ∨ below way g₂ l) (way ++ r) w t (t₁.setAt way u') := by
  have hu : t₁.at? way = some u := by
    have := h₁.put []
    rwa [append_nil] at this
  have h₃ := h₂.setAt hu
  refine ⟨?_, ?_, h₃.put⟩
  · intro l x hx
    obtain ⟨x₁, hx₁, hg₁⟩ := h₁.keeps l x hx
    obtain ⟨x₂, hx₂, hg₂⟩ := h₃.keeps l x₁ hx₁
    exact ⟨x₂, hx₂, hg₁.trans hg₂⟩
  · intro l hl₁ hl₂
    rw [h₃.off l hl₁ hl₂]
    by_cases hway : way <+: l
    · -- below `way` the first write has put `u`
      obtain ⟨l', rfl⟩ := hway
      rw [h₁.put l', Val.at?_append]
      rcases hwas with hs | ⟨hn, rfl⟩
      · rw [hs]; rfl
      rw [hn]
      apply Val.at?_empty
      rintro rfl
      exact hl₁ (by rw [append_nil]; exact ⟨r, rfl⟩)
    · refine h₁.off l (fun hp => hl₁ (hp.trans ⟨r, rfl⟩)) hway

/-- `ensureTableRaw` puts nothing but the empty tables that are missing on the way. -/
theorem ensureTableRaw_writes {cur cur' : Table} {path : Path}
    (h : ensureTableRaw cur path = .ok (cur', loc)) :
    ∃ es, Writes (fun _ => False) loc (.tbl es) (.tbl cur) (.tbl cur') ∧
      locate cur' path = some loc ∧ StoodAt (.tbl cur) loc (.tbl es) := by
  induction path generalizing cur cur' loc with
  | nil =>
    cases h
    exact ⟨cur, writes_refl _, rfl, .inl rfl⟩
  | cons p ps ih =>
    unfold ensureTableRaw at h
    split at h
    · -- an existing table
      rename_i next hget
      cases hn : ensureTableRaw next ps with
      | error msg => rw [hn] at h; cases h
      | ok r =>
        obtain ⟨next', loc'⟩ := r
        rw [hn] at h
        cases h
        obtain ⟨es, hw, hloc, hwas⟩ := ih hn
        refine ⟨es, (hw.key hget).weaken (by rintro l ⟨r, -, hf⟩; exact hf), ?_, ?_⟩
        · exact locate_cons_iff.mpr ⟨next', _, loc', .table SortedMap.get?_insert_self, hloc, rfl⟩
        unfold StoodAt
        rw [Val.at?_cons, child?_key, hget]
        exact hwas
    · -- the last element of an array
      rename_i xs hget
      split at h
      · rename_i next hlast
        cases hn : ensureTableRaw next ps with
        | error msg => rw [hn] at h; cases h
        | ok r =>
          obtain ⟨next', loc'⟩ := r
          rw [hn] at h
          cases h
          obtain ⟨es, hw, hloc, hwas⟩ := ih hn
          refine ⟨es, ((hw.last hlast).key hget).weaken ?_, ?_, ?_⟩
          · rintro l ⟨r, -, r', -, hf⟩
            exact hf
          · have hlen : (xs.dropLast ++ [Val.tbl next']).length - 1 = xs.length - 1 := by
              rw [length_append, length_dropLast, length_singleton]
              omega
            have hlead : Leads (SortedMap.insert cur p (.arr (xs.dropLast ++ [.tbl next']))) p next'
                [.key p, .elem ((xs.dropLast ++ [Val.tbl next']).length - 1)] :=
              .element SortedMap.get?_insert_self getLast?_concat
            rw [hlen] at hlead
            exact locate_cons_iff.mpr ⟨next', _, loc', hlead, hloc, rfl⟩
          · unfold StoodAt
            rw [Val.at?_cons, child?_key, hget]
            show ((Val.arr xs).at? (.elem (xs.length - 1) :: loc') = _) ∨
              ((Val.arr xs).at? (.elem (xs.length - 1) :: loc') = none ∧ _)
            have hx : (Val.arr xs).child? (.elem (xs.length - 1)) = some (.tbl next) := by
              show xs[xs.length - 1]? = _
              rw [← getLast?_eq_getElem?, hlast]
            rw [Val.at?_cons, hx]
            exact hwas
      · cases h
    · cases h
    · -- a new table
      rename_i hget
      cases hn : ensureTableRaw [] ps with
      | error msg => rw [hn] at h; cases h
      | ok r =>
        obtain ⟨next', loc'⟩ := r
        rw [hn] at h
        cases h
        obtain ⟨es, hw, hloc, hwas⟩ := ih hn
        refine ⟨es, hw.new_key hget, ?_, .inr ⟨?_, ?_⟩⟩
        · exact locate_cons_iff.mpr ⟨next', _, loc', .table SortedMap.get?_insert_self, hloc, rfl⟩
        · rw [Val.at?_cons, child?_key, hget]
          rfl
        rcases hwas with hs | ⟨-, hes⟩
        · cases loc' with
          | nil => cases hs; rfl
          | cons s l => rw [Val.at?_empty (by simp)] at hs; cases hs
        · exact hes

/-- A table stays a table when a part of it is replaced by a table. -/
theorem setAt_tbl (t : Table) (way : Loc) (es : Table) :
    (Val.tbl t).setAt way (.tbl es) = .tbl (((Val.tbl t).setAt way (.tbl es)).tableAt []) := by
  cases way with
  | nil => rfl
  | cons s way =>
    rw [Val.setAt]
    cases hs : (Val.tbl t).child? s with
    | none => rfl
    | some u =>
      cases s with
      | key k => rfl
      | elem i => cases hs

theorem at?_setAt {v u : Val} {way : Loc} (h : v.at? way = some u) (u' : Val) :
    (v.setAt way u').at? way = some u' := by
  induction way generalizing v with
  | nil => rfl
  | cons s way ih =>
    rw [Val.at?_cons] at h
    cases hs : v.child? s with
    | none => rw [hs] at h; cases h
    | some x =>
      rw [hs] at h
      rw [Val.setAt, hs]
      show (v.setChild s (x.setAt way u')).at? (s :: way) = some u'
      rw [Val.at?_cons, child?_setChild hs, if_pos rfl]
      exact ih h

theorem tableAt_of_at? {v : Val} {way : Loc} {es : Table} (h : v.at? way = some (.tbl es)) :
    v.tableAt way = es := by
  unfold Val.tableAt
  rw [h]

theorem appendArrayTableKeyRaw_writes {parent parent' : Table} {name : Bytes} {last : Loc}
    (h : appendArrayTableKeyRaw parent name = .ok (parent', last)) :
    ∃ i, last = [.key name, .elem i] ∧ (Val.tbl parent).at? last = none ∧
      Writes (· = [.key name]) last (.tbl []) (.tbl parent) (.tbl parent') ∧
      locate parent' [name] = some last := by
  unfold appendArrayTableKeyRaw at h
  split at h
  · rename_i xs hget
    cases h
    refine ⟨xs.length, rfl, ?_, ?_, ?_⟩
    · rw [Val.at?_cons, child?_key, hget]
      show (xs[xs.length]?).bind _ = none
      rw [getElem?_eq_none (Nat.le_refl _)]
      rfl
    · refine ((writes_push xs (.tbl [])).key hget).weaken ?_
      rintro l ⟨r, rfl, rfl⟩
      rfl
    · have hlead : Leads (SortedMap.insert parent name (.arr (xs ++ [.tbl []]))) name []
          [.key name, .elem ((xs ++ [Val.tbl []]).length - 1)] :=
        .element SortedMap.get?_insert_self getLast?_concat
      rw [length_append, length_singleton, Nat.add_sub_cancel] at hlead
      exact locate_cons_iff.mpr ⟨_, _, [], hlead, rfl, rfl⟩
  · cases h
  · rename_i hget
    cases h
    refine ⟨0, rfl, ?_, ?_, ?_⟩
    · rw [Val.at?_cons, child?_key, hget]
      rfl
    · refine (writes_new_key hget ?_ (fun r => rfl)).weaken (fun _ => False.elim)
      -- the new array has one element, and `[elem 0]` is the way to it
      intro l hl₁ hl₂
      cases l with
      | nil => exact absurd nil_prefix hl₁
      | cons s l =>
        cases s with
        | key k => rfl
        | elem j =>
          cases j with
          | zero => exact absurd (cons_prefix_cons.mpr ⟨rfl, nil_prefix⟩) hl₂
          | succ j => rfl
    · exact locate_cons_iff.mpr ⟨_, _, [], .element SortedMap.get?_insert_self rfl, rfl, rfl⟩

/-- `appendArrayTableRaw` puts one empty table at the end of the array at `path`. -/
theorem appendArrayTableRaw_writes {root root' : Table} {path : Path} (hne : path ≠ [])
    (h : appendArrayTableRaw root path = .ok (root', loc)) :
    ∃ way name i, path = path.dropLast ++ [name] ∧ loc = way ++ [.key name, .elem i] ∧
      (Val.tbl root).at? loc = none ∧
      Writes (· = way ++ [.key name]) loc (.tbl []) (.tbl root) (.tbl root') ∧
      locate root' path = some loc ∧ locate root' path.dropLast = some way := by
  obtain ⟨name, hname⟩ : ∃ name, path.getLast? = some name := ⟨path.getLast hne, getLast?_eq_some_getLast hne⟩
  have hpath : path = path.dropLast ++ [name] := by
    rw [getLast?_eq_some_getLast hne] at hname
    cases hname
    exact (dropLast_concat_getLast hne).symm
  unfold appendArrayTableRaw at h
  rw [hname] at h
  dsimp only at h
  split at h
  · cases h
  rename_i root₁ way hens
  split at h
  · cases h
  rename_i parent last happ
  cases h
  obtain ⟨es, hw, hloc, hwas⟩ := ensureTableRaw_writes hens
  have hes : (Val.tbl root₁).at? way = some (.tbl es) := by
    have := hw.put []
    rwa [append_nil] at this
  rw [tableAt_of_at? hes] at happ
  obtain ⟨i, rfl, hnone, hw', hlast⟩ := appendArrayTableKeyRaw_writes happ
  have hboth := hw.andThen hwas hw'
  rw [setAt_tbl] at hboth
  have hfinal : Writes (· = way ++ [.key name]) (way ++ [.key name, .elem i]) (.tbl []) (.tbl root)
      (.tbl (((Val.tbl root₁).setAt way (.tbl parent)).tableAt [])) := by
    refine hboth.weaken ?_
    rintro l (hf | ⟨r, rfl, rfl⟩)
    · exact hf.elim
    · rfl
  -- the parent is still where it was
  have hway : locate (((Val.tbl root₁).setAt way (.tbl parent)).tableAt []) path.dropLast = some way := by
    have hext := (hw'.setAt hes).keeps
    rw [setAt_tbl] at hext
    refine hext.locate_mono hloc ?_
    rintro l hl ⟨r, rfl, rfl⟩
    have hlen := hl.length_le
    rw [length_append, length_singleton] at hlen
    omega
  have hparent : (Val.tbl (((Val.tbl root₁).setAt way (.tbl parent)).tableAt [])).at? way =
      some (.tbl parent) := by
    rw [← setAt_tbl]
    exact at?_setAt hes _
  refine ⟨way, name, i, hpath, rfl, ?_, hfinal, ?_, hway⟩
  · rw [Val.at?_append]
    rcases hwas with hs | ⟨hn, -⟩
    · rw [hs]; exact hnone
    · rw [hn]; rfl
  · rw [hpath]
    exact locate_append_iff.mpr ⟨way, parent, _, hway, hparent, hlast, rfl⟩

theorem locate_take_cons {cur next : Table} {p : Bytes} {ps : Path} (hget : get? cur p = some (.tbl next))
    (h : ∀ j < ps.length, locate next (ps.take j) = some ((ps.take j).map .key)) :
    ∀ j < (p :: ps).length, locate cur ((p :: ps).take j) = some (((p :: ps).take j).map .key) := by
  intro j hj
  cases j with
  | zero => rfl
  | succ j =>
    rw [length_cons] at hj
    exact locate_cons_iff.mpr ⟨next, _, _, .table hget, h j (by omega), rfl⟩

/-- `assignUniqueRaw` puts the value where there was nothing. -/
theorem assignUniqueRaw_writes {cur cur' : Table} {path : Path} {value : Val} (hne : path ≠ [])
    (h : assignUniqueRaw cur path value = .ok cur') :
    Writes (fun _ => False) (path.map .key) value (.tbl cur) (.tbl cur') ∧
      (Val.tbl cur).at? (path.map .key) = none ∧
      ∀ j < path.length, locate cur' (path.take j) = some ((path.take j).map .key) := by
  induction path generalizing cur cur' with
  | nil => exact absurd rfl hne
  | cons p ps ih =>
    cases ps with
    | nil =>
      unfold assignUniqueRaw at h
      split at h
      · cases h
      rename_i hget
      rw [Option.not_isSome_iff_eq_none] at hget
      cases h
      refine ⟨writes_new_key hget ?_ (fun r => rfl), ?_, ?_⟩
      · intro l _ hl
        exact absurd nil_prefix hl
      · rw [map_cons, Val.at?_cons, child?_key, hget]
        rfl
      intro j hj
      rw [length_singleton, Nat.lt_one_iff] at hj
      subst hj
      rfl
    | cons q ps =>
      unfold assignUniqueRaw at h
      split at h
      · rename_i next hget
        cases hn : assignUniqueRaw next (q :: ps) value with
        | error msg => rw [hn] at h; cases h
        | ok next' =>
          rw [hn] at h
          cases h
          obtain ⟨hw, hnone, hloc⟩ := ih (by simp) hn
          refine ⟨(hw.key hget).weaken (by rintro l ⟨r, -, hf⟩; exact hf), ?_, ?_⟩
          · rw [map_cons, Val.at?_cons, child?_key, hget]
            exact hnone
          · exact locate_take_cons SortedMap.get?_insert_self hloc
      · cases h
      · rename_i hget
        cases hn : assignUniqueRaw [] (q :: ps) value with
        | error msg => rw [hn] at h; cases h
        | ok next' =>
          rw [hn] at h
          cases h
          obtain ⟨hw, -, hloc⟩ := ih (by simp) hn
          refine ⟨hw.new_key hget, ?_, ?_⟩
          · rw [map_cons, Val.at?_cons, child?_key, hget]
            rfl
          · exact locate_take_cons SortedMap.get?_insert_self hloc

end Pandaemonium.Toml
