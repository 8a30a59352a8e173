import Pandaemonium.Codex.ScanText

/-!
# `Codex.NotificationIds` — the scanner agrees with the decoder

What `scanNotificationTurnID` and `scanNotificationLoginID` answer on a well-formed text is a fold over
the members of its tree (`scanNotificationTurnID_text`, `scanNotificationLoginID_text`). Where no two
members have one name, a fold that writes a field from the members of one name leaves in it what decoding
finds under that name (`foldMembers_field`), and so the ids agree (`notificationScan_agrees`).
-/

namespace Pandaemonium.Codex

open List
open Json (Value Member Str)

/-! ## What the scanners read off a tree -/

/-- A string right behind the colon, without escapes. -/
def simpleString (m : Member Value) : Option Bytes :=
  match m.afterColon, m.value with
  | [], .string s => if Str.escaped s then none else some (Str.text s)
  | _, _ => none

variable {v : Value}

/-- The first byte of a value that is no string is no quote. -/
theorem readString_text_ne (h : v.wellFormed = true) (hv : ∀ s, v ≠ .string s) (t : Bytes) :
    readString (v.text ++ t) = none := by
  cases v with
  | null | array pad es | object pad ms => exact readString_ne (by decide) _
  | bool b => cases b <;> exact readString_ne (by decide) _
  | number n =>
    obtain ⟨c, u, hcu, hc⟩ := Number.text_head h
    show readString (n.text ++ t) = none
    rw [hcu]
    exact readString_ne (isSpace_digit hc).2.1 _
  | string s => exact absurd rfl (hv s)

variable {m : Member Value}

theorem readSimpleString_text (h : MemberWF m) (t : Bytes) :
    readSimpleString (m.afterColon ++ (m.value.text ++ t)) =
      (simpleString m).map (fun s => (s, t)) := by
  obtain ⟨before, name, beforeColon, afterColon, v, after⟩ := m
  unfold readSimpleString simpleString
  cases afterColon with
  | cons c pad =>
    -- the source does not pass over blanks here
    have hc : Json.isSpace c = true := by
      have := h.afterColon
      simp only [all_cons, Bool.and_eq_true] at this
      exact this.1
    have hne : c ≠ 0x22 := by rintro rfl; exact absurd hc (by decide)
    simp only [cons_append, readString_ne hne, Option.map_none]
  | nil =>
    cases v with
    | string s =>
      have hread := readString_quoted (s := s) h.value t
      simp only [nil_append, Value.text, hread]
      cases Str.escaped s <;> simp
    | null | array pad es | object pad ms => rfl
    | bool b => cases b <;> rfl
    | number n =>
      have hread := readString_text_ne h.value (by intro s hs; cases hs) t
      simp only [nil_append] at hread ⊢
      rw [hread]
      rfl

/-- A scan of `null` or of an object. -/
def scanned {α : Type} (sem : Member Value → α → Option α) (a : α) : Value → Option α
  | .null => some a
  | .object _ ms => foldMembers true sem ms a
  | _ => none

/-- What the scanners do with a member of `turn`. -/
def turnMember (m : Member Value) (turn : ScannedTurn) : Option ScannedTurn :=
  if Str.text m.name = ascii "id" then (simpleString m).map (fun s => { turn with id := s })
  else if Str.text m.name = ascii "turnId" then
    (simpleString m).map (fun s => { turn with turnID := s })
  else if Str.text m.name = ascii "turn_id" then
    (simpleString m).map (fun s => { turn with turnID2 := s })
  else some turn

/-- And with a member of the params. -/
def paramsMember (m : Member Value) (p : ScannedParams) : Option ScannedParams :=
  if Str.text m.name = ascii "turnId" then (simpleString m).map (fun s => { p with turnID := s })
  else if Str.text m.name = ascii "turn_id" then
    (simpleString m).map (fun s => { p with turnID2 := s })
  else if Str.text m.name = ascii "turn" then
    (scanned turnMember .empty m.value).map (fun turn => { p with turn := turn })
  else some p

def loginMember (m : Member Value) (loginID : Bytes) : Option Bytes :=
  if Str.text m.name = ascii "loginId" then simpleString m else some loginID

variable {α : Type}

section

variable {n : Nat} {m : Member Value}

/-- A member whose value the bound covers is passed over. -/
theorem skipField_text (hwf : MemberWF m) (hn : m.value.text.length ≤ n) (a : α) {t : Bytes} (ht : Ends t) :
    skipField (skipValue n) a (m.afterColon ++ (m.value.text ++ t)) = some (a, t) :=
  skipField_does (skipValue_pad n hwf.afterColon) (skipValue_text n hwf.value hn) a t ht

theorem turnField_does (hwf : MemberWF m) (hn : m.value.text.length ≤ n) :
    Does (turnField (skipValue n)) turnMember m := by
  intro turn t ht
  unfold turnField turnMember
  split
  · rw [readSimpleString_text hwf, Option.map_map, Option.map_map]; rfl
  split
  · rw [readSimpleString_text hwf, Option.map_map, Option.map_map]; rfl
  split
  · rw [readSimpleString_text hwf, Option.map_map, Option.map_map]; rfl
  · exact skipField_text hwf hn turn ht

/-- `null` or an object: what the literal and the brace in front of it are taken for. -/
theorem scanned_cases (hwf : v.wellFormed = true) {sem : Member Value → α → Option α}
    {field : Bytes → α → Bytes → Option (α × Bytes)}
    (hdoes : ∀ pad ms, v = .object pad ms → ∀ m ∈ ms, Does field sem m) (a : α) (t : Bytes) :
    (match consumeLiteral (ascii "null") (v.text ++ t) with
      | some t => some (a, t)
      | none =>
        match consumeByte 0x7B (v.text ++ t) with
        | none => none
        | some t => scanMembers true field a t) =
      (scanned sem a v).map (fun a => (a, t)) := by
  have hother : ∀ c u, v.text ++ t = c :: u → c ≠ 0x6E → c ≠ 0x7B →
      (match consumeLiteral (ascii "null") (v.text ++ t) with
        | some t => some (a, t)
        | none =>
          match consumeByte 0x7B (v.text ++ t) with
          | none => none
          | some t => scanMembers true field a t) = none := by
    intro c u hcu hn hb
    have hlit : consumeLiteral (ascii "null") (c :: u) = none := consumeLiteral_ne hn _ _
    rw [hcu, hlit, consumeByte_ne hb]
  cases v with
  | null =>
    have hlit : consumeLiteral (ascii "null") (Value.null.text ++ t) = some t := consumeLiteral_self _ t
    rw [hlit]
    rfl
  | bool b =>
    cases b with
    | true => exact hother 0x74 _ rfl (by decide) (by decide)
    | false => exact hother 0x66 _ rfl (by decide) (by decide)
  | number k =>
    obtain ⟨c, u, hcu, hc⟩ := Number.text_head hwf
    have hc' := isSpace_digit hc
    refine hother c (u ++ t) ?_ hc'.2.2.2.2.2.2.2 hc'.2.2.1
    show k.text ++ t = _
    rw [hcu, cons_append]
  | string s => exact hother 0x22 _ rfl (by decide) (by decide)
  | array pad es => exact hother 0x5B _ rfl (by decide) (by decide)
  | object pad ms =>
    simp only [Value.wellFormed, Bool.and_eq_true] at hwf
    have htext : (Value.object pad ms).text ++ t =
        0x7B :: (pad ++ (Value.textMembers ms ++ 0x7D :: t)) := by
      simp [Value.text]
    have hlit : consumeLiteral (ascii "null") (0x7B :: (pad ++ (Value.textMembers ms ++ 0x7D :: t))) =
        none := consumeLiteral_ne (by decide) _ _
    rw [htext, hlit, consumeByte_self]
    exact scanMembers_text (wellFormedMembers_iff.mp hwf.2) (hdoes pad ms rfl) hwf.1 a t

theorem readTurnObject_text (hwf : MemberWF m) (hn : m.value.text.length ≤ n) (t : Bytes) :
    readTurnObject (skipValue n) (m.afterColon ++ (m.value.text ++ t)) =
      (scanned turnMember .empty m.value).map (fun turn => (turn, t)) := by
  unfold readTurnObject
  rw [skipSpace_text hwf.value hwf.afterColon]
  apply scanned_cases hwf.value
  intro pad ms hv m' hm'
  have hwf' := hwf.value
  rw [hv, Value.wellFormed, Bool.and_eq_true] at hwf'
  have hlen := (length_member hm').1
  rw [hv, Value.text, length_cons, length_append, length_append] at hn
  exact turnField_does (wellFormedMembers_iff.mp hwf'.2 m' hm') (by omega)

theorem paramsField_does (hwf : MemberWF m) (hn : m.value.text.length ≤ n) :
    Does (paramsField (skipValue n)) paramsMember m := by
  intro p t ht
  unfold paramsField paramsMember
  split
  · rw [readSimpleString_text hwf, Option.map_map, Option.map_map]; rfl
  split
  · rw [readSimpleString_text hwf, Option.map_map, Option.map_map]; rfl
  split
  · rw [readTurnObject_text hwf hn, Option.map_map, Option.map_map]; rfl
  · exact skipField_text hwf hn p ht

theorem loginField_does (hwf : MemberWF m) (hn : m.value.text.length ≤ n) :
    Does (loginField (skipValue n)) loginMember m := by
  intro loginID t ht
  unfold loginField loginMember
  split
  · exact readSimpleString_text hwf t
  · exact skipField_text hwf hn loginID ht

end

variable {sem : Member Value → α → Option α}

/-- **A scan of a whole text.** -/
theorem scanParams_text (params : Json.Text) {field : Bytes → α → Bytes → Option (α × Bytes)}
    (hdoes : ∀ m, MemberWF m → m.value.text.length ≤ params.bytes.length → Does field sem m) (a : α) :
    scanParams field a params.bytes = scanned sem a params.value := by
  obtain ⟨before, v, after, hbefore, hafter, hwf⟩ := params
  have hdone : skipSpace after = [] := by
    have h := skipSpace_pad hafter []
    rwa [append_nil] at h
  have hmembers : ∀ pad ms, v = .object pad ms → ∀ m ∈ ms, Does field sem m := by
    intro pad ms hv m hm
    have hwf' := hwf
    rw [hv, Value.wellFormed, Bool.and_eq_true] at hwf'
    refine hdoes m (wellFormedMembers_iff.mp hwf'.2 m hm) ?_
    have hlen := (length_member hm).1
    simp only [Json.Text.bytes, hv, Value.text, length_append, length_cons]
    omega
  have hcases := scanned_cases hwf hmembers a after
  show scanParams field a (before ++ (v.text ++ after)) = _
  unfold scanParams
  rw [skipSpace_text hwf hbefore]
  cases hlit : consumeLiteral (ascii "null") (v.text ++ after) with
  | some t =>
    rw [hlit] at hcases
    cases hs : scanned sem a v with
    | none => rw [hs] at hcases; cases hcases
    | some a' =>
      rw [hs] at hcases
      cases hcases
      simp [hdone]
  | none =>
    rw [hlit] at hcases
    simp only at hcases ⊢
    cases hbrace : consumeByte 0x7B (v.text ++ after) with
    | none =>
      rw [hbrace] at hcases
      cases hs : scanned sem a v with
      | none => rfl
      | some a' => rw [hs] at hcases; cases hcases
    | some t =>
      rw [hbrace] at hcases
      simp only at hcases ⊢
      rw [hcases]
      cases hs : scanned sem a v with
      | none => rfl
      | some a' => simp [hdone]

theorem scanNotificationTurnID_text (params : Json.Text) :
    scanNotificationTurnID params.bytes =
      (scanned paramsMember .empty params.value).map ScannedParams.id := by
  unfold scanNotificationTurnID
  rw [scanParams_text params (fun _ hm hn => paramsField_does hm hn)]

theorem scanNotificationLoginID_text (params : Json.Text) :
    scanNotificationLoginID params.bytes = scanned loginMember [] params.value :=
  scanParams_text params (fun _ hm hn => loginField_does hm hn) []

/-! ## Fields and names -/

theorem member?_cons (m : Member Value) (ms : List (Member Value)) (k : Bytes) :
    Value.member? (m :: ms) k =
      if Str.value m.name = k then some m.value else Value.member? ms k := by
  unfold Value.member?
  by_cases h : Str.value m.name = k
  all_goals simp [h]

variable {ms : List (Member Value)}

theorem member?_eq_none {k : Bytes} (h : ∀ m ∈ ms, Str.value m.name ≠ k) : Value.member? ms k = none := by
  induction ms with
  | nil => rfl
  | cons m ms ih =>
    rw [member?_cons, if_neg (h m mem_cons_self)]
    exact ih (fun n hn => h n (mem_cons_of_mem m hn))

/-- A fold that goes through has refused no name and no member. -/
theorem foldMembers_cons {a p : α} (h : foldMembers true sem (m :: ms) a = some p) :
    Str.escaped m.name = false ∧ ∃ b, sem m a = some b ∧ foldMembers true sem ms b = some p := by
  rw [foldMembers] at h
  split at h
  · cases h
  rename_i hesc
  refine ⟨by simpa using hesc, ?_⟩
  exact Option.bind_eq_some_iff.mp h

/-- **A field that the members called `k` write**, and no others: it ends up related to the value of that
    member, or as it was. -/
theorem foldMembers_field {β : Type} {get : α → β} {R : Value → β → Prop} {k : Bytes}
    (hset : ∀ m a b, Str.value m.name = k → Str.escaped m.name = false → sem m a = some b → R m.value (get b))
    (hkeep : ∀ m a b, Str.value m.name ≠ k → Str.escaped m.name = false → sem m a = some b → get b = get a)
    (hd : Value.distinctMembers ms = true) {a p : α} (h : foldMembers true sem ms a = some p) :
    (Value.member? ms k = none → get p = get a) ∧
      ∀ v, Value.member? ms k = some v → R v (get p) := by
  rw [Value.distinctMembers, decide_eq_true_iff] at hd
  induction ms generalizing a with
  | nil =>
    cases h
    exact ⟨fun _ => rfl, fun v hv => by cases hv⟩
  | cons m ms ih =>
    obtain ⟨hesc, b, hsem, hrest⟩ := foldMembers_cons h
    rw [pairwise_cons] at hd
    obtain ⟨hnone, hsome⟩ := ih hd.2 hrest
    rw [member?_cons]
    by_cases hk : Str.value m.name = k
    · -- no later member has the name
      have hlater : Value.member? ms k = none :=
        member?_eq_none (fun n hn hnk => hd.1 n hn (hk.trans hnk.symm))
      rw [if_pos hk, hnone hlater]
      refine ⟨(fun hc => by cases hc), ?_⟩
      intro v hv
      cases hv
      exact hset m a b hk hesc hsem
    · rw [if_neg hk]
      refine ⟨fun hn => (hnone hn).trans (hkeep m a b hk hesc hsem), hsome⟩

theorem simpleString_unmarshal {s : Bytes} (h : simpleString m = some s) :
    unmarshalString (some m.value) = some s := by
  unfold simpleString at h
  split at h
  · rename_i u _ hv
    split at h
    · cases h
    rename_i hesc
    cases h
    rw [hv, unmarshalString, Json.Str.value_eq_text (by simpa using hesc)]
  · cases h

/-- The members called `k`, and no others, write the string field `get`. -/
def Writes {α : Type} (sem : Member Value → α → Option α) (get : α → Bytes) (k : Bytes) : Prop :=
  ∀ m a b, Str.escaped m.name = false → sem m a = some b →
    if Str.value m.name = k then simpleString m = some (get b) else get b = get a

/-- **A string field** that starts empty ends up as decoding finds it. -/
theorem Writes.agrees {get : α → Bytes} {k : Bytes} (hw : Writes sem get k)
    (hd : Value.distinctMembers ms = true) {a p : α} (ha : get a = []) (h : foldMembers true sem ms a = some p) :
    unmarshalString (Value.member? ms k) = some (get p) := by
  have hset : ∀ m a b, Str.value m.name = k → Str.escaped m.name = false → sem m a = some b →
      unmarshalString (some m.value) = some (get b) := by
    intro m a b hk hesc hsem
    have := hw m a b hesc hsem
    rw [if_pos hk] at this
    exact simpleString_unmarshal this
  have hkeep : ∀ m a b, Str.value m.name ≠ k → Str.escaped m.name = false → sem m a = some b →
      get b = get a := by
    intro m a b hk hesc hsem
    have := hw m a b hesc hsem
    rwa [if_neg hk] at this
  obtain ⟨hnone, hsome⟩ := foldMembers_field
    (R := fun v s => unmarshalString (some v) = some s) hset hkeep hd h
  cases hm : Value.member? ms k with
  | none => rw [hnone hm, ha]; rfl
  | some v => exact hsome v hm

/-! ## The fields of a turn and of the params -/

theorem turnMember_writes :
    Writes turnMember ScannedTurn.id (ascii "id") ∧
      Writes turnMember ScannedTurn.turnID (ascii "turnId") ∧
      Writes turnMember ScannedTurn.turnID2 (ascii "turn_id") := by
  have h1 : ascii "id" ≠ ascii "turnId" := by decide
  have h2 : ascii "id" ≠ ascii "turn_id" := by decide
  have h3 : ascii "turnId" ≠ ascii "turn_id" := by decide
  refine ⟨?_, ?_, ?_⟩
  all_goals
    intro m a b hesc hsem
    unfold turnMember at hsem
    rw [← Json.Str.value_eq_text hesc] at hsem
    cases hs : simpleString m with
    | none | some s => rw [hs] at hsem; grind

/-- The three fields of a scanned `turn` are those of the decoded one. -/
theorem scannedTurn_agrees (hd : v.distinctNames = true) {turn : ScannedTurn}
    (h : scanned turnMember .empty v = some turn) :
    (unmarshalTurn (some v) = some none ∧ turn = .empty) ∨
      unmarshalTurn (some v) = some (some turn) := by
  obtain ⟨hid, hturnID, hturnID2⟩ := turnMember_writes
  cases v with
  | null => cases h; exact .inl ⟨rfl, rfl⟩
  | object pad ms =>
    right
    rw [Value.distinctNames, Bool.and_eq_true] at hd
    simp only [unmarshalTurn, hid.agrees hd.1 rfl h, hturnID.agrees hd.1 rfl h,
      hturnID2.agrees hd.1 rfl h, Option.bind_some, Option.map_some]
  | bool b | number n | string s | array pad es => cases h

theorem paramsMember_writes :
    Writes paramsMember ScannedParams.turnID (ascii "turnId") ∧
      Writes paramsMember ScannedParams.turnID2 (ascii "turn_id") := by
  have h1 : ascii "turnId" ≠ ascii "turn_id" := by decide
  have h2 : ascii "turnId" ≠ ascii "turn" := by decide
  have h3 : ascii "turn_id" ≠ ascii "turn" := by decide
  refine ⟨?_, ?_⟩
  all_goals
    intro m a b hesc hsem
    unfold paramsMember at hsem
    rw [← Json.Str.value_eq_text hesc] at hsem
    cases hs : simpleString m with
    | none | some s => rw [hs] at hsem; cases ht : scanned turnMember .empty m.value <;> grind

theorem loginMember_writes : Writes loginMember id (ascii "loginId") := by
  intro m a b hesc hsem
  unfold loginMember at hsem
  rw [← Json.Str.value_eq_text hesc] at hsem
  split
  · rename_i hk; rw [if_pos hk] at hsem; exact hsem
  · rename_i hk; rw [if_neg hk] at hsem; cases hsem; rfl

/-- The `turn` of scanned params is the scan of the member of that name. -/
theorem paramsMember_turn (hd : Value.distinctMembers ms = true) {p : ScannedParams}
    (h : foldMembers true paramsMember ms .empty = some p) :
    (Value.member? ms (ascii "turn") = none → p.turn = .empty) ∧
      ∀ v, Value.member? ms (ascii "turn") = some v → scanned turnMember .empty v = some p.turn := by
  have h1 : ascii "turnId" ≠ ascii "turn" := by decide
  have h2 : ascii "turn_id" ≠ ascii "turn" := by decide
  refine foldMembers_field (R := fun v turn => scanned turnMember .empty v = some turn) ?_ ?_ hd h
  · intro m a b hk hesc hsem
    unfold paramsMember at hsem
    rw [← Json.Str.value_eq_text hesc, hk, if_neg h1.symm, if_neg h2.symm, if_pos rfl] at hsem
    obtain ⟨turn, hturn, rfl⟩ := Option.map_eq_some_iff.mp hsem
    exact hturn
  · intro m a b hk hesc hsem
    unfold paramsMember at hsem
    rw [← Json.Str.value_eq_text hesc, if_neg hk] at hsem
    cases hs : simpleString m with
    | none | some s => rw [hs] at hsem; grind

theorem distinctNames_member (h : Value.distinctNamesMembers ms = true) {k : Bytes}
    (hv : Value.member? ms k = some v) : v.distinctNames = true := by
  induction ms with
  | nil => cases hv
  | cons m ms ih =>
    rw [Value.distinctNamesMembers, Bool.and_eq_true] at h
    rw [member?_cons] at hv
    split at hv
    · cases hv; exact h.1
    · exact ih h.2 hv

/-! ## Agreement -/

/-- What the scanner answers on a text, decoding gives. -/
theorem scanTurn_decode (params : Json.Text) (hd : params.value.distinctNames = true) {t : Bytes}
    (h : scanNotificationTurnID params.bytes = some t) : decodeNotificationTurnID params.value = t := by
  rw [scanNotificationTurnID_text] at h
  obtain ⟨p, hp, rfl⟩ := Option.map_eq_some_iff.mp h
  obtain ⟨hturnID, hturnID2⟩ := paramsMember_writes
  unfold decodeNotificationTurnID
  cases hv : params.value with
  | null => rw [hv] at hp; cases hp; rfl
  | object pad ms =>
    rw [hv] at hp hd
    rw [Value.distinctNames, Bool.and_eq_true] at hd
    have hID := hturnID.agrees hd.1 rfl hp
    have hID2 := hturnID2.agrees hd.1 rfl hp
    obtain ⟨hnone, hsome⟩ := paramsMember_turn hd.1 hp
    -- decoding finds the same `turn`, or none where the scanned one is empty
    have hturn : (unmarshalTurn (Value.member? ms (ascii "turn")) = some none ∧ p.turn = .empty) ∨
        unmarshalTurn (Value.member? ms (ascii "turn")) = some (some p.turn) := by
      cases hm : Value.member? ms (ascii "turn") with
      | none => exact .inl ⟨rfl, hnone hm⟩
      | some v => exact scannedTurn_agrees (distinctNames_member hd.2 hm) (hsome v hm)
    unfold ScannedParams.id
    rcases hturn with ⟨hnil, hempty⟩ | hturn
    · simp only [unmarshalEnvelope, hID, hID2, hnil, Option.bind_some, Option.map_some, hempty]
      rfl
    · simp only [unmarshalEnvelope, hID, hID2, hturn, Option.bind_some, Option.map_some]
  | bool b | number n | string s | array pad es => rw [hv] at hp; cases hp

theorem scanLogin_decode (params : Json.Text) (hd : params.value.distinctNames = true) {l : Bytes}
    (h : scanNotificationLoginID params.bytes = some l) : decodeNotificationLoginID params.value = l := by
  rw [scanNotificationLoginID_text] at h
  unfold decodeNotificationLoginID
  cases hv : params.value with
  | null => rw [hv] at h; cases h; rfl
  | object pad ms =>
    rw [hv] at h hd
    rw [Value.distinctNames, Bool.and_eq_true] at hd
    have hID := loginMember_writes.agrees hd.1 rfl h
    rw [unmarshalLoginID, hID]
    rfl
  | bool b | number n | string s | array pad es => rw [hv] at h; cases h

/-- No name has an escape, and every member called one of `ids` is a string without escapes, written
    right behind its colon. -/
structure PlainMembers (ids : List Bytes) (ms : List (Member Value)) : Prop where
  names : ∀ m ∈ ms, Str.escaped m.name = false
  strings : ∀ m ∈ ms, Str.value m.name ∈ ids →
    m.afterColon = [] ∧ ∃ s, m.value = .string s ∧ Str.escaped s = false

/-- `null`, or an object with plain ids. -/
def PlainObject (ids : List Bytes) (v : Value) : Prop :=
  v = .null ∨ ∃ pad ms, v = .object pad ms ∧ PlainMembers ids ms

/-- **Params with plain ids**: `null` or an object whose ids are plain, and so are those of its `turn`,
    which is an object or `null` too. -/
def PlainParams (v : Value) : Prop :=
  PlainObject [ascii "turnId", ascii "turn_id", ascii "loginId"] v ∧
    ∀ pad ms, v = .object pad ms → ∀ m ∈ ms, Str.value m.name = ascii "turn" →
      PlainObject [ascii "id", ascii "turnId", ascii "turn_id"] m.value

theorem PlainMembers.simpleString {ids : List Bytes} (h : PlainMembers ids ms) (hm : m ∈ ms)
    (hid : Str.value m.name ∈ ids) : ∃ s, simpleString m = some s := by
  obtain ⟨hcolon, s, hs, hesc⟩ := h.strings m hm hid
  refine ⟨Str.text s, ?_⟩
  unfold Codex.simpleString
  simp [hcolon, hs, hesc]

/-- A scan that refuses no member goes through. -/
theorem foldMembers_isSome (hnames : ∀ m ∈ ms, Str.escaped m.name = false)
    (hsem : ∀ m ∈ ms, ∀ a, ∃ b, sem m a = some b) (a : α) : ∃ p, foldMembers true sem ms a = some p := by
  induction ms generalizing a with
  | nil => exact ⟨a, rfl⟩
  | cons m ms ih =>
    obtain ⟨b, hb⟩ := hsem m mem_cons_self a
    obtain ⟨p, hp⟩ := ih (fun n hn => hnames n (mem_cons_of_mem m hn))
      (fun n hn => hsem n (mem_cons_of_mem m hn)) b
    refine ⟨p, ?_⟩
    rw [foldMembers, hnames m mem_cons_self, hb]
    exact hp

theorem PlainObject.scanned {ids : List Bytes} (h : PlainObject ids v)
    (hsem : ∀ pad ms, v = .object pad ms → PlainMembers ids ms → ∀ m ∈ ms, ∀ a, ∃ b, sem m a = some b) (a : α) :
    ∃ p, scanned sem a v = some p := by
  rcases h with rfl | ⟨pad, ms, rfl, hms⟩
  · exact ⟨a, rfl⟩
  · exact foldMembers_isSome hms.names (hsem pad ms rfl hms) a

theorem turnMember_isSome (h : PlainMembers [ascii "id", ascii "turnId", ascii "turn_id"] ms)
    (hm : m ∈ ms) (turn : ScannedTurn) : ∃ b, turnMember m turn = some b := by
  have hstring := fun hid => h.simpleString hm hid
  unfold turnMember
  rw [← Json.Str.value_eq_text (h.names m hm)]
  split
  · rename_i hk; obtain ⟨s, hs⟩ := hstring (by simp [hk]); rw [hs]; exact ⟨_, rfl⟩
  split
  · rename_i _ hk; obtain ⟨s, hs⟩ := hstring (by simp [hk]); rw [hs]; exact ⟨_, rfl⟩
  split
  · rename_i _ _ hk; obtain ⟨s, hs⟩ := hstring (by simp [hk]); rw [hs]; exact ⟨_, rfl⟩
  · exact ⟨_, rfl⟩

theorem PlainParams.turn (h : PlainParams v) : ∃ p, scanned paramsMember .empty v = some p := by
  refine h.1.scanned ?_ _
  intro pad ms hv hms m hm a
  have hstring := fun hid => hms.simpleString hm hid
  unfold paramsMember
  rw [← Json.Str.value_eq_text (hms.names m hm)]
  split
  · rename_i hk; obtain ⟨s, hs⟩ := hstring (by simp [hk]); rw [hs]; exact ⟨_, rfl⟩
  split
  · rename_i _ hk; obtain ⟨s, hs⟩ := hstring (by simp [hk]); rw [hs]; exact ⟨_, rfl⟩
  split
  · rename_i _ _ hk
    obtain ⟨turn, hturn⟩ := (h.2 pad ms hv m hm hk).scanned
      (fun _ _ _ hplain n hn a => turnMember_isSome hplain hn a) ScannedTurn.empty
    rw [hturn]
    exact ⟨_, rfl⟩
  · exact ⟨_, rfl⟩

theorem PlainParams.login (h : PlainParams v) : ∃ p, scanned loginMember [] v = some p := by
  refine h.1.scanned ?_ _
  intro pad ms hv hms m hm a
  have hstring := fun hid => hms.simpleString hm hid
  unfold loginMember
  rw [← Json.Str.value_eq_text (hms.names m hm)]
  split
  · rename_i hk; exact hstring (by simp [hk])
  · exact ⟨_, rfl⟩

/-- **The scanners agree with the decoder.** On every well-formed text without duplicate names, an id a
    scanner answers is the id decoding gives; and on params with plain ids both scanners answer. -/
theorem notificationScan_agrees (params : Json.Text) (hd : params.value.distinctNames = true) :
    (∀ t, scanNotificationTurnID params.bytes = some t → decodeNotificationTurnID params.value = t) ∧
    (∀ l, scanNotificationLoginID params.bytes = some l →
      decodeNotificationLoginID params.value = l) ∧
    (PlainParams params.value →
      (∃ t, scanNotificationTurnID params.bytes = some t) ∧
        ∃ l, scanNotificationLoginID params.bytes = some l) := by
  refine ⟨fun t => scanTurn_decode params hd, fun l => scanLogin_decode params hd, ?_⟩
  intro hplain
  rw [scanNotificationTurnID_text, scanNotificationLoginID_text]
  obtain ⟨p, hp⟩ := hplain.turn
  exact ⟨⟨p.id, by rw [hp]; rfl⟩, hplain.login⟩

/-- A string that is written as it is. -/
def plainStr (s : String) : Str := s.toList.map (fun c => .plain c.toNat)

/-- The id of a nested `turn`, behind a member with an escape in its value. -/
def nestedTurn : Json.Text where
  before := ascii " "
  value := .object []
    [⟨[], plainStr "thread", [], ascii " ", .string [.unicode 0x30 0x30 0x65 0x39], []⟩,
      ⟨ascii " ", plainStr "turn", [], ascii " ",
        .object [] [⟨[], plainStr "id", [], [], .string (plainStr "turn-1"), []⟩], []⟩]
  after := []
  before_space := by decide
  after_space := by decide
  wellFormed := by decide

theorem notificationScan_agrees_nested :
    nestedTurn.bytes = ascii " \x7b\"thread\": \"\\u00e9\", \"turn\": \x7b\"id\":\"turn-1\"\x7d\x7d" ∧
      decodeNotificationTurnID nestedTurn.value = ascii "turn-1" :=
  ⟨by decide, (notificationScan_agrees nestedTurn (by decide)).1 _ (by decide +kernel)⟩

end Pandaemonium.Codex
