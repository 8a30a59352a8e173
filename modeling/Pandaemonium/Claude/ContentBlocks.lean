import Pandaemonium.Lib.JsonData

/-!
# `Claude.ContentBlocks` — content blocks and their encoding (`message_parser.go`, `raw_json.go`)

A content block of a message is decoded by its `type`. The members a block knows become fields, the rest is kept
in `Raw` and merged back when the block is encoded. The content of a `tool_result` is decoded in the same way, to
any depth. Blocks of types that are not known are kept as they are (`rawContentBlock`).

Blocks of the types `text`, `tool_use` and `tool_result` have methods of their own for both directions. `thinking`
and the server tool blocks are left to the encoder: their exported fields are written unless they are zero, and
then the members of `Raw`. A `rawContentBlock` has no method and no exported field either; such a value is written
as an empty object, or refused, and which of the two is a parameter here (`refuses`).

Objects are compared up to the order of their members, so the order in which a map is written is left out. The
errors carry the line; the offset comes from the decoder and is left out too.
-/

namespace Pandaemonium.Claude

open Json

structure CLIJSONDecodeError where
  line : Bytes
deriving DecidableEq, Repr

/-- `ContentBlock`. A `jsontext.Value` that may be `nil` is an `Option`; `Raw` is given by its members, with none
    when it is `nil`. -/
inductive ContentBlock where
  | text (text : Bytes) (raw : List (Bytes × Data))
  | toolUse (id name : Bytes) (input : Option Data) (raw : List (Bytes × Data))
  | toolResult (toolUseID : Bytes) (content : List ContentBlock) (isError : Bool)
      (raw : List (Bytes × Data))
  | thinking (thinking signature : Bytes) (raw : List (Bytes × Data))
  | serverToolUse (id name : Bytes) (input : Option Data) (raw : List (Bytes × Data))
  | serverToolResult (toolUseID : Bytes) (content : Option Data) (raw : List (Bytes × Data))
  /-- `rawContentBlock` -/
  | raw (raw : Data)

/-- The cases of `parseContentBlock`. -/
inductive BlockKind where
  | text
  | toolUse
  | toolResult
  | thinking
  | serverToolUse
  | serverToolResult
  | unknown
deriving DecidableEq, Repr

def serverToolResultTypes : List Bytes :=
  [ascii "advisor_tool_result", ascii "server_tool_result", ascii "web_search_tool_result",
    ascii "web_fetch_tool_result", ascii "bash_code_execution_tool_result",
    ascii "text_editor_code_execution_tool_result"]

def blockKind (type : Bytes) : BlockKind :=
  if type = ascii "text" then .text
  else if type = ascii "tool_use" then .toolUse
  else if type = ascii "tool_result" then .toolResult
  else if type = ascii "thinking" then .thinking
  else if type = ascii "server_tool_use" then .serverToolUse
  else if type ∈ serverToolResultTypes then .serverToolResult
  else .unknown

/-- The members that become fields. -/
def typedNames : BlockKind → List Bytes
  | .text => [ascii "text"]
  | .toolUse | .serverToolUse => [ascii "id", ascii "name", ascii "input"]
  | .toolResult => [ascii "tool_use_id", ascii "content", ascii "is_error"]
  | .thinking => [ascii "thinking", ascii "signature"]
  | .serverToolResult => [ascii "tool_use_id", ascii "content"]
  | .unknown => []

/-! ## Decoding into a struct -/

/-- The members that are decoded into the fields of a struct: `null` leaves it as it is, and nothing but an
    object is accepted otherwise. -/
def structMembers : Data → Option (List (Bytes × Data))
  | .object ms => some ms
  | .null => some []
  | _ => none

/-- A field of type `string`. -/
def stringField (ms : List (Bytes × Data)) (name : Bytes) : Option Bytes :=
  match member ms name with
  | none | some .null => some []
  | some (.string s) => some s
  | _ => none

/-- A field of type `bool`. -/
def boolField (ms : List (Bytes × Data)) (name : Bytes) : Option Bool :=
  match member ms name with
  | none | some .null => some false
  | some (.bool b) => some b
  | _ => none

/-- A field of type `[]jsontext.Value`. -/
def arrayField (ms : List (Bytes × Data)) (name : Bytes) : Option (List Data) :=
  match member ms name with
  | none | some .null => some []
  | some (.array xs) => some xs
  | _ => none

variable {ms : List (Bytes × Data)} {v : Data}

/-- The content of a block is not larger than the block. -/
theorem sizeOf_arrayField {name : Bytes} {xs : List Data}
    (hms : structMembers v = some ms) (h : arrayField ms name = some xs) : sizeOf xs ≤ sizeOf v := by
  have hnil : sizeOf ([] : List Data) ≤ sizeOf v := by
    cases v <;> simp
  unfold arrayField at h
  split at h
  · cases h
    exact hnil
  · cases h
    exact hnil
  · rename_i hm
    cases h
    unfold structMembers at hms
    split at hms
    · cases hms
      have hlt := sizeOf_member hm
      simp only [Data.array.sizeOf_spec] at hlt
      omega
    · cases hms
      cases hm
    · cases hms
  · cases h

/-! ## Parsing -/

/-- `TextBlock.UnmarshalJSONFrom`. -/
def unmarshalTextBlock (ms : List (Bytes × Data)) : Option ContentBlock :=
  (stringField ms (ascii "text")).map (fun text => .text text (without ms (typedNames .text)))

/-- `ToolUseBlock.UnmarshalJSONFrom`. -/
def unmarshalToolUseBlock (ms : List (Bytes × Data)) : Option ContentBlock :=
  match stringField ms (ascii "id"), stringField ms (ascii "name") with
  | some id, some name =>
    some (.toolUse id name (member ms (ascii "input")) (without ms (typedNames .toolUse)))
  | _, _ => none

/-- A `ThinkingBlock`, by the decoder. -/
def unmarshalThinkingBlock (ms : List (Bytes × Data)) : Option ContentBlock :=
  match stringField ms (ascii "thinking"), stringField ms (ascii "signature") with
  | some thinking, some signature => some (.thinking thinking signature (without ms (typedNames .thinking)))
  | _, _ => none

/-- A `ServerToolUseBlock`, by the decoder. -/
def unmarshalServerToolUseBlock (ms : List (Bytes × Data)) : Option ContentBlock :=
  match stringField ms (ascii "id"), stringField ms (ascii "name") with
  | some id, some name =>
    some (.serverToolUse id name (member ms (ascii "input")) (without ms (typedNames .serverToolUse)))
  | _, _ => none

/-- A `ServerToolResultBlock`, by the decoder. -/
def unmarshalServerToolResultBlock (ms : List (Bytes × Data)) : Option ContentBlock :=
  (stringField ms (ascii "tool_use_id")).map (fun toolUseID =>
    .serverToolResult toolUseID (member ms (ascii "content")) (without ms (typedNames .serverToolResult)))

/-- The error of a block that does not decode. -/
def decoded (line : Bytes) : Option ContentBlock → Except CLIJSONDecodeError ContentBlock
  | some b => .ok b
  | none => .error ⟨line⟩

mutual

def parseContentBlock (line : Bytes) (v : Data) : Except CLIJSONDecodeError ContentBlock :=
  match structMembers v with
  | none => .error ⟨line⟩
  | some ms =>
    match stringField ms (ascii "type") with
    | none => .error ⟨line⟩
    | some type =>
      match blockKind type with
      | .text => decoded line (unmarshalTextBlock ms)
      | .toolUse => decoded line (unmarshalToolUseBlock ms)
      | .toolResult => parseToolResultBlock line v
      | .thinking => decoded line (unmarshalThinkingBlock ms)
      | .serverToolUse => decoded line (unmarshalServerToolUseBlock ms)
      | .serverToolResult => decoded line (unmarshalServerToolResultBlock ms)
      | .unknown => .ok (.raw v)
termination_by 3 * sizeOf v + 2

def parseToolResultBlock (line : Bytes) (v : Data) : Except CLIJSONDecodeError ContentBlock :=
  match hms : structMembers v with
  | none => .error ⟨line⟩
  | some ms =>
    match stringField ms (ascii "tool_use_id"), hxs : arrayField ms (ascii "content"),
        boolField ms (ascii "is_error") with
    | some toolUseID, some xs, some isError =>
      have : sizeOf xs ≤ sizeOf v := sizeOf_arrayField hms hxs
      match parseContentBlocks line xs with
      | .ok blocks => .ok (.toolResult toolUseID blocks isError (without ms (typedNames .toolResult)))
      | .error e => .error e
    | _, _, _ => .error ⟨line⟩
termination_by 3 * sizeOf v + 1

def parseContentBlocks (line : Bytes) (vs : List Data) : Except CLIJSONDecodeError (List ContentBlock) :=
  match vs with
  | [] => .ok []
  | v :: vs =>
    match parseContentBlock line v with
    | .ok b =>
      match parseContentBlocks line vs with
      | .ok bs => .ok (b :: bs)
      | .error e => .error e
    | .error e => .error e
termination_by 3 * sizeOf vs

end

/-! ## Encoding -/

/-- A struct value without exported fields. -/
def marshalFieldless (refuses : Bool) : Option Data := if refuses then none else some (.object [])

def setStringJSONField (name value : Bytes) : List (Bytes × Data) :=
  if value = [] then [] else [(name, .string value)]

def setBoolJSONField (name : Bytes) (value : Bool) : List (Bytes × Data) :=
  if value then [(name, .bool true)] else []

def setRawJSONField (name : Bytes) : Option Data → List (Bytes × Data)
  | none | some .null => []
  | some d => [(name, d)]

/-- A field of type `jsontext.Value` with the option `omitzero`, by the encoder. -/
def rawField (name : Bytes) : Option Data → List (Bytes × Data)
  | none => []
  | some d => [(name, d)]

def isNull : Data → Bool
  | .null => true
  | _ => false

def mergeRawObject (raw fields : List (Bytes × Data)) : List (Bytes × Data) :=
  overriding raw (fields.filter (fun m => !isNull m.2))

section

variable (refuses : Bool)

mutual

/-- `json.Marshal` of a block; `none` when the encoder refuses it. -/
def marshal : ContentBlock → Option Data
  | .text text raw => some (.object (mergeRawObject raw (setStringJSONField (ascii "text") text)))
  | .toolUse id name input raw =>
    some (.object (mergeRawObject raw (setStringJSONField (ascii "id") id ++
      setStringJSONField (ascii "name") name ++ setRawJSONField (ascii "input") input)))
  | .toolResult toolUseID content isError raw =>
    match content with
    | [] =>
      some (.object (mergeRawObject raw (setStringJSONField (ascii "tool_use_id") toolUseID ++
        setBoolJSONField (ascii "is_error") isError)))
    | b :: bs =>
      (marshalAll (b :: bs)).map (fun xs =>
        .object (mergeRawObject raw (setStringJSONField (ascii "tool_use_id") toolUseID ++
          [(ascii "content", .array xs)] ++ setBoolJSONField (ascii "is_error") isError)))
  | .thinking thinking signature raw =>
    some (.object (setStringJSONField (ascii "thinking") thinking ++
      setStringJSONField (ascii "signature") signature ++ raw))
  | .serverToolUse id name input raw =>
    some (.object (setStringJSONField (ascii "id") id ++ setStringJSONField (ascii "name") name ++
      rawField (ascii "input") input ++ raw))
  | .serverToolResult toolUseID content raw =>
    some (.object (setStringJSONField (ascii "tool_use_id") toolUseID ++
      rawField (ascii "content") content ++ raw))
  | .raw _ => marshalFieldless refuses

def marshalAll : List ContentBlock → Option (List Data)
  | [] => some []
  | b :: bs =>
    match marshal b, marshalAll bs with
    | some x, some xs => some (x :: xs)
    | _, _ => none

end

end

/-! ## What was accepted -/

/-- The case `parseContentBlock` takes. -/
def kindOf (v : Data) : BlockKind :=
  match structMembers v with
  | none => .unknown
  | some ms =>
    match stringField ms (ascii "type") with
    | none => .unknown
    | some type => blockKind type

/-- The cases of an accepted block. -/
inductive Parsed (line : Bytes) : Data → ContentBlock → Prop where
  | text {ms text} : kindOf (.object ms) = .text → stringField ms (ascii "text") = some text →
      Parsed line (.object ms) (.text text (without ms (typedNames .text)))
  | toolUse {ms id name} : kindOf (.object ms) = .toolUse → stringField ms (ascii "id") = some id →
      stringField ms (ascii "name") = some name →
      Parsed line (.object ms)
        (.toolUse id name (member ms (ascii "input")) (without ms (typedNames .toolUse)))
  | toolResult {ms toolUseID xs isError blocks} : kindOf (.object ms) = .toolResult →
      stringField ms (ascii "tool_use_id") = some toolUseID → arrayField ms (ascii "content") = some xs →
      boolField ms (ascii "is_error") = some isError → parseContentBlocks line xs = .ok blocks →
      Parsed line (.object ms) (.toolResult toolUseID blocks isError (without ms (typedNames .toolResult)))
  | thinking {ms thinking signature} : kindOf (.object ms) = .thinking →
      stringField ms (ascii "thinking") = some thinking → stringField ms (ascii "signature") = some signature →
      Parsed line (.object ms) (.thinking thinking signature (without ms (typedNames .thinking)))
  | serverToolUse {ms id name} : kindOf (.object ms) = .serverToolUse →
      stringField ms (ascii "id") = some id → stringField ms (ascii "name") = some name →
      Parsed line (.object ms)
        (.serverToolUse id name (member ms (ascii "input")) (without ms (typedNames .serverToolUse)))
  | serverToolResult {ms toolUseID} : kindOf (.object ms) = .serverToolResult →
      stringField ms (ascii "tool_use_id") = some toolUseID →
      Parsed line (.object ms)
        (.serverToolResult toolUseID (member ms (ascii "content"))
          (without ms (typedNames .serverToolResult)))
  | unknown {v ms type} : structMembers v = some ms → stringField ms (ascii "type") = some type →
      blockKind type = .unknown → Parsed line v (.raw v)

theorem kindOf_eq {type : Bytes} (hms : structMembers v = some ms)
    (htype : stringField ms (ascii "type") = some type) : kindOf v = blockKind type := by
  rw [kindOf, hms]
  show (match stringField ms (ascii "type") with
    | none => BlockKind.unknown
    | some type => blockKind type) = _
  rw [htype]

/-- A block of a known type is an object. -/
theorem eq_object (hms : structMembers v = some ms) (hkind : kindOf v ≠ .unknown) : v = .object ms := by
  unfold structMembers at hms
  split at hms
  · cases hms
    rfl
  · exact absurd (by decide) hkind
  · cases hms

variable {b : ContentBlock} {line : Bytes}

theorem of_decoded {o : Option ContentBlock} (h : decoded line o = .ok b) : o = some b := by
  unfold decoded at h
  split at h
  · cases h
    rfl
  · cases h

theorem parsed_of_ok (h : parseContentBlock line v = .ok b) : Parsed line v b := by
  rw [parseContentBlock] at h
  split at h
  · cases h
  next ms hms =>
    split at h
    · cases h
    next type htype =>
      have hkind := kindOf_eq hms htype
      split at h
      · rename_i hk
        rw [hk] at hkind
        cases eq_object hms (by rw [hkind]; nofun)
        obtain ⟨text, htext, rfl⟩ := Option.map_eq_some_iff.mp (of_decoded h)
        exact .text hkind htext
      · rename_i hk
        rw [hk] at hkind
        cases eq_object hms (by rw [hkind]; nofun)
        have hb := of_decoded h
        unfold unmarshalToolUseBlock at hb
        split at hb
        · rename_i id name hid hname
          cases hb
          exact .toolUse hkind hid hname
        · cases hb
      · rename_i hk
        rw [hk] at hkind
        cases eq_object hms (by rw [hkind]; nofun)
        rw [parseToolResultBlock] at h
        split at h
        · cases h
        next ms' hms' =>
          cases hms.symm.trans hms'
          split at h
          · rename_i toolUseID xs isError hid hxs herr
            dsimp only at h
            split at h
            · rename_i blocks hblocks
              cases h
              exact .toolResult hkind hid hxs herr hblocks
            · cases h
          · cases h
      · rename_i hk
        rw [hk] at hkind
        cases eq_object hms (by rw [hkind]; nofun)
        have hb := of_decoded h
        unfold unmarshalThinkingBlock at hb
        split at hb
        · rename_i thinking signature hthinking hsignature
          cases hb
          exact .thinking hkind hthinking hsignature
        · cases hb
      · rename_i hk
        rw [hk] at hkind
        cases eq_object hms (by rw [hkind]; nofun)
        have hb := of_decoded h
        unfold unmarshalServerToolUseBlock at hb
        split at hb
        · rename_i id name hid hname
          cases hb
          exact .serverToolUse hkind hid hname
        · cases hb
      · rename_i hk
        rw [hk] at hkind
        cases eq_object hms (by rw [hkind]; nofun)
        obtain ⟨toolUseID, hid, rfl⟩ := Option.map_eq_some_iff.mp (of_decoded h)
        exact .serverToolResult hkind hid
      · rename_i hk
        cases h
        exact .unknown hms htype hk

/-- The type of a block of a known type has been read. -/
theorem type_of_kind {k : BlockKind} (hkind : kindOf (.object ms) = k)
    (hk : k ≠ .unknown) : ∃ type, stringField ms (ascii "type") = some type ∧ blockKind type = k := by
  cases htype : stringField ms (ascii "type") with
  | none =>
    rw [kindOf] at hkind
    simp only [structMembers, htype] at hkind
    exact absurd hkind.symm hk
  | some type => exact ⟨type, rfl, (kindOf_eq rfl htype).symm.trans hkind⟩

theorem ok_of_parsed (h : Parsed line v b) : parseContentBlock line v = .ok b := by
  rw [parseContentBlock]
  cases h with
  | text hkind htext =>
    obtain ⟨type, htype, hk⟩ := type_of_kind hkind nofun
    simp [structMembers, htype, hk, unmarshalTextBlock, htext, decoded]
  | toolUse hkind hid hname =>
    obtain ⟨type, htype, hk⟩ := type_of_kind hkind nofun
    simp [structMembers, htype, hk, unmarshalToolUseBlock, hid, hname, decoded]
  | toolResult hkind hid hxs herr hblocks =>
    obtain ⟨type, htype, hk⟩ := type_of_kind hkind nofun
    simp only [structMembers, htype, hk]
    rw [parseToolResultBlock]
    split
    · next hnone => cases hnone
    next ms' hms' =>
      cases hms'
      split
      · rename_i hid' hxs' herr'
        cases hid.symm.trans hid'
        cases hxs.symm.trans hxs'
        cases herr.symm.trans herr'
        dsimp only
        rw [hblocks]
      · next hnot => exact (hnot _ _ _ hid hxs herr).elim
  | thinking hkind hthinking hsignature =>
    obtain ⟨type, htype, hk⟩ := type_of_kind hkind nofun
    simp [structMembers, htype, hk, unmarshalThinkingBlock, hthinking, hsignature, decoded]
  | serverToolUse hkind hid hname =>
    obtain ⟨type, htype, hk⟩ := type_of_kind hkind nofun
    simp [structMembers, htype, hk, unmarshalServerToolUseBlock, hid, hname, decoded]
  | serverToolResult hkind hid =>
    obtain ⟨type, htype, hk⟩ := type_of_kind hkind nofun
    simp [structMembers, htype, hk, unmarshalServerToolResultBlock, hid, decoded]
  | unknown hms htype hk =>
    rw [hms]
    dsimp only
    rw [htype]
    dsimp only
    rw [hk]

/-- **What `parseContentBlock` accepts, and as what.** -/
theorem parseContentBlock_ok_iff :
    parseContentBlock line v = .ok b ↔ Parsed line v b := ⟨parsed_of_ok, ok_of_parsed⟩

end Pandaemonium.Claude
