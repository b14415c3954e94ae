import ContractForge.Java.Literal
import Mathlib.Algebra.Group.Nat.Defs
import Mathlib.Tactic.SplitIfs

/-!
# Reading string literals

The other side of `Java.literal`: a reader of string literals in source text.

* `readBody?` : the characters up to the closing quote of a literal, and the text after the quote. A
  unicode escape is four hex digits, in either case; one that would stand for a quote, a backslash or
  a line end takes part in the text around it as that character does, and is not read here.
* `readLiteral?` : a literal at the start of a text.

`readLiteral?_literal` : the literal of a text is read back as that text, whatever follows it.
-/

namespace ContractForge.Java

/-- The number that hex digits of either case denote. -/
def hexNumber? (digits : List Char) : Option Nat :=
  digits.foldlM (fun n c => (Text.hexValue? c).map (16 * n + ·)) 0

/-- The character that the letter of an escape sequence stands for. -/
def escapeSequence? (c : Char) : Option Char :=
  if c = 'b' then some '\x08'
  else if c = 't' then some '\t'
  else if c = 'n' then some '\n'
  else if c = 'f' then some '\x0c'
  else if c = 'r' then some '\r'
  else if c = '"' || c = '\x27' || c = '\\' then some c
  else none

/-- The character has a meaning of its own inside a literal, or ends the line that it is on. -/
def isDelimiter (c : Char) : Bool :=
  c = '"' || c = '\\' || c = '\n' || c = '\r'

/-- The character that a unicode escape of four digits stands for inside a literal. -/
def unicodeEscape? (digits : List Char) : Option Char := do
  let code ← hexNumber? digits
  if code.isValidChar && !isDelimiter (Char.ofNat code) then some (Char.ofNat code) else none

/-- A character in front of what is read so far. -/
def prepend (c : Char) (read : List Char × List Char) : List Char × List Char :=
  (c :: read.1, read.2)

/-- The text of a literal whose opening quote has been read, and what follows its closing quote. -/
def readBody? : List Char → Option (List Char × List Char)
  | [] => none
  | '"' :: rest => some ([], rest)
  | '\\' :: 'u' :: a :: b :: c :: d :: rest => do
    let ch ← unicodeEscape? [a, b, c, d]
    (readBody? rest).map (prepend ch)
  | '\\' :: c :: rest => do
    let ch ← escapeSequence? c
    (readBody? rest).map (prepend ch)
  | c :: rest => if isDelimiter c then none else (readBody? rest).map (prepend c)

/-- The text of the literal that a source text begins with, and what follows the literal. -/
def readLiteral? : List Char → Option (List Char × List Char)
  | '"' :: rest => readBody? rest
  | _ => none

/-! ### Hex digits -/

theorem hexNumber?_append (digits : List Char) (c : Char) :
    hexNumber? (digits ++ [c]) =
      (hexNumber? digits).bind fun n => (Text.hexValue? c).map (16 * n + ·) := by
  simp [hexNumber?, List.foldlM_append, bind]

theorem hexNumber?_hexFixed (width n : Nat) :
    hexNumber? (Text.hexFixed width n) = some (n % 16 ^ width) := by
  induction width generalizing n with
  | zero => simp [Text.hexFixed, hexNumber?, Nat.mod_one]
  | succ width ih =>
    rw [Text.hexFixed, hexNumber?_append, ih, Text.hexValue?_hexDigit (Nat.mod_lt n (by decide))]
    simp only [Option.bind_some, Option.map_some, Option.some.injEq]
    rw [Nat.pow_succ, Nat.mul_comm (16 ^ width) 16, Nat.mod_mul]
    omega

/-- Control characters are among the first of all characters, so four digits are enough. -/
theorem unicodeEscape?_hexFixed {c : Char} (hcontrol : isControl c = true)
    (hplain : isDelimiter c = false) : unicodeEscape? (Text.hexFixed 4 c.toNat) = some c := by
  have hlow : c.toNat < 0xa0 := by
    simp only [isControl, Bool.or_eq_true, Bool.and_eq_true, decide_eq_true_eq] at hcontrol
    omega
  have hcode : c.toNat % 16 ^ 4 = c.toNat := Nat.mod_eq_of_lt (by omega)
  have hvalid : c.toNat.isValidChar := by
    unfold Nat.isValidChar
    omega
  rw [unicodeEscape?, hexNumber?_hexFixed, hcode]
  simp only [Option.bind_eq_bind, Option.bind_some, Char.ofNat_toNat, hvalid, decide_true, hplain,
    Bool.not_false, Bool.and_self, if_true]

/-! ### Escaped text -/

theorem readBody?_sequence {letter c : Char} (h : escapeSequence? letter = some c)
    (rest : List Char) : readBody? ('\\' :: letter :: rest) = (readBody? rest).map (prepend c) := by
  have hletter : letter ≠ 'u' := by
    rintro rfl
    simp [escapeSequence?] at h
  rw [readBody?]
  · rw [h]
    rfl
  · rintro a b c d rest rfl
    exact absurd rfl hletter

theorem readBody?_unicode {digits : List Char} {c : Char} (hlength : digits.length = 4)
    (h : unicodeEscape? digits = some c) (rest : List Char) :
    readBody? ('\\' :: 'u' :: (digits ++ rest)) = (readBody? rest).map (prepend c) := by
  match digits, hlength with
  | [a, b, x, d], _ =>
    simp only [List.cons_append, List.nil_append, readBody?, h]
    rfl

theorem readBody?_plain {c : Char} (h : isDelimiter c = false) (rest : List Char) :
    readBody? (c :: rest) = (readBody? rest).map (prepend c) := by
  simp only [isDelimiter, Bool.or_eq_false_iff, decide_eq_false_iff_not] at h
  obtain ⟨⟨⟨hquote, hbackslash⟩, hline⟩, hreturn⟩ := h
  rw [readBody?]
  · simp [isDelimiter, hquote, hbackslash, hline, hreturn]
  · exact hquote
  · rintro a b c d rest rfl
    exact absurd rfl hbackslash
  · rintro a rest rfl
    exact absurd rfl hbackslash

/-- An escaped character is read as that character. -/
theorem readBody?_escapeChar (c : Char) (rest : List Char) :
    readBody? (escapeChar c ++ rest) = (readBody? rest).map (prepend c) := by
  unfold escapeChar
  split_ifs with hquote hbackslash hline hreturn htab hback hfeed hcontrol
  · exact readBody?_sequence (by simp [escapeSequence?, hquote]) rest
  · exact readBody?_sequence (by simp [escapeSequence?, hbackslash]) rest
  · exact readBody?_sequence (by simp [escapeSequence?, hline]) rest
  · exact readBody?_sequence (by simp [escapeSequence?, hreturn]) rest
  · exact readBody?_sequence (by simp [escapeSequence?, htab]) rest
  · exact readBody?_sequence (by simp [escapeSequence?, hback]) rest
  · exact readBody?_sequence (by simp [escapeSequence?, hfeed]) rest
  · have hplain : isDelimiter c = false := by
      simp [isDelimiter, hquote, hbackslash, hline, hreturn]
    exact readBody?_unicode (Text.length_hexFixed 4 _) (unicodeEscape?_hexFixed hcontrol hplain) rest
  · have hplain : isDelimiter c = false := by
      simp [isDelimiter, hquote, hbackslash, hline, hreturn]
    exact readBody?_plain hplain rest

theorem readBody?_escapeChars (s rest : List Char) :
    readBody? (escapeChars s ++ '"' :: rest) = some (s, rest) := by
  induction s with
  | nil => rfl
  | cons c s ih =>
    have hsplit : escapeChars (c :: s) ++ '"' :: rest =
        escapeChar c ++ (escapeChars s ++ '"' :: rest) := by
      simp [escapeChars]
    rw [hsplit, readBody?_escapeChar, ih]
    rfl

/-- The source text of a literal. -/
theorem toList_literal (s : String) : (literal s).toList = '"' :: escapeChars s.toList ++ ['"'] := by
  simp [literal, escape]

/-- The literal of a text is read back as that text, whatever follows it. -/
theorem readLiteral?_literal (s : String) (rest : List Char) :
    readLiteral? ((literal s).toList ++ rest) = some (s.toList, rest) := by
  rw [toList_literal]
  simp only [List.cons_append, List.append_assoc, List.nil_append]
  exact readBody?_escapeChars s.toList rest

/-! ### The reader makes progress -/

theorem rest_of_map_prepend {read : Option (List Char × List Char)} {c : Char}
    {text rest : List Char} (h : read.map (prepend c) = some (text, rest)) :
    ∃ further, read = some (further, rest) := by
  obtain ⟨⟨further, more⟩, hread, hpair⟩ := Option.map_eq_some_iff.mp h
  obtain ⟨-, rfl⟩ := Prod.mk.inj hpair
  exact ⟨further, hread⟩

theorem length_of_readBody? {s text rest : List Char} (h : readBody? s = some (text, rest)) :
    rest.length < s.length := by
  fun_induction readBody? s generalizing text with
  | case1 => simp at h
  | case2 more =>
    obtain ⟨-, rfl⟩ := Prod.mk.inj (Option.some.inj h)
    simp
  | case3 a b c d more ih =>
    obtain ⟨ch, -, hrest⟩ := Option.bind_eq_some_iff.mp h
    obtain ⟨further, hread⟩ := rest_of_map_prepend hrest
    have := ih hread
    simp only [List.length_cons]
    omega
  | case4 c more _ ih =>
    obtain ⟨ch, -, hrest⟩ := Option.bind_eq_some_iff.mp h
    obtain ⟨further, hread⟩ := rest_of_map_prepend hrest
    have := ih hread
    simp only [List.length_cons]
    omega
  | case5 => simp at h
  | case6 c more _ _ _ _ ih =>
    obtain ⟨further, hread⟩ := rest_of_map_prepend h
    have := ih hread
    simp only [List.length_cons]
    omega

end ContractForge.Java
