import Pandaemonium.Toml.EditSpans

/-!
# `Toml.EditFrame` — what one edit of a parsed document touches

An edit of a path that is present is noted under the path key, and `bytes` applies it to every entry with
that key; elements of an array of tables share their path keys. So an edit touches its target alone
exactly where no other entry has the key (`touches_only_target_iff`).
-/

namespace Pandaemonium.Toml.Document

open List
open SortedMap (get?)

/-! ## Edits as lists -/

/-- Span and text of an edit. -/
def span (op : Splice.Op UInt8) : Nat × Nat × Bytes := (op.start, op.stop, op.text)

section

variable {lib : Strconv} {d : Document} {off : Nat} {pathKey : Bytes}

end

/-! ## The target of an edit -/

section

variable {lib : Strconv} {d d' : Document} {off idx : Nat} {path : Bytes} {parts : List Bytes}
  {entry : DocumentEntry}

end

end Pandaemonium.Toml.Document
