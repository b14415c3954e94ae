import ContractForge.Proofs.Java.StringLiteral
import ContractForge.Proofs.Message.Escapes
import Mathlib.Data.List.Induction
import Mathlib.Data.Nat.Digits.Lemmas

/-!
# Unicode escapes

* `Whole` : a text made of characters and whole escapes. A backslash behind such a text is escaped by
  nothing before it.
* `FourDigits` : what a unicode escape is followed by, four hex digits.
* `Loose` : fewer hex digits than four, perhaps after a plus sign. They are read as a number too.
* `ReadsEscape taken read` : what is read for an escape, by the four characters after it.

`entry_unicodeEscape` : every unicode escape in the key or the value of an entry is read in this way. So
it is decoded without being one exactly where the digits are loose (`looseDigits_decoded`).
-/

namespace ContractForge.Properties

/-- The text is a sequence of characters, of escapes, and of unicode escapes with the four characters
after them. -/
inductive Whole : List Char → Prop
  | nil : Whole []
  | plain {c : Char} {raw : List Char} (hc : c ≠ '\\') (h : Whole raw) : Whole (c :: raw)
  | pair {c : Char} {raw : List Char} (hu : c ≠ 'u') (h : Whole raw) : Whole ('\\' :: c :: raw)
  | unicode {taken raw : List Char} (hlength : taken.length = 4) (h : Whole raw) :
      Whole ('\\' :: 'u' :: (taken ++ raw))

def IsHexDigit (d : Char) : Prop :=
  ('0' ≤ d ∧ d ≤ '9') ∨ ('a' ≤ d ∧ d ≤ 'f') ∨ ('A' ≤ d ∧ d ≤ 'F')

instance (d : Char) : Decidable (IsHexDigit d) :=
  inferInstanceAs (Decidable (_ ∨ _))

/-- The number that hex digits denote, the first digit counting most. -/
def hexCode (digits : List Char) : Nat :=
  Nat.ofDigits 16 (digits.reverse.map fun d => (Text.hexValue? d).getD 0)

/-- The characters are four hex digits. -/
def FourDigits (taken : List Char) : Prop :=
  taken.length = 4 ∧ ∀ d ∈ taken, IsHexDigit d

/-- The characters are the given hex digits, at least one and fewer than four, or a plus sign and these
digits. -/
def LooseFor (taken digits : List Char) : Prop :=
  (taken = digits ∨ taken = '+' :: digits) ∧ digits ≠ [] ∧ digits.length < 4 ∧
    ∀ d ∈ digits, IsHexDigit d

/-- The characters are not four hex digits but can be read as a number all the same. -/
def Loose (taken : List Char) : Prop :=
  ∃ digits, LooseFor taken digits

/-- What is read for an escape before up to four characters. -/
structure ReadsEscape (taken read : List Char) : Prop where
  /-- Four digits of a character are decoded. -/
  decoded : FourDigits taken → (hexCode taken).isValidChar → read = [Char.ofNat (hexCode taken)]
  /-- Four digits that denote no character, and whatever is no number, are kept. -/
  kept : (FourDigits taken → ¬(hexCode taken).isValidChar) → ¬Loose taken → read = 'u' :: taken
  /-- Loose digits are decoded too. -/
  loose : ∀ digits, LooseFor taken digits → read = [Char.ofNat (hexCode digits)]

/-! ### Hex digits as numbers -/

theorem isSome_hexValue?_iff {d : Char} : (Text.hexValue? d).isSome = true ↔ IsHexDigit d := by
  unfold Text.hexValue? IsHexDigit
  split_ifs with hdigit hlower hupper <;> simp_all

theorem hexNumber?_concat (digits : List Char) (d : Char) :
    hexNumber? (digits ++ [d]) =
      (hexNumber? digits).bind fun n => (Text.hexValue? d).map (16 * n + ·) :=
  Java.hexNumber?_append digits d

theorem hexCode_concat (digits : List Char) (d : Char) :
    hexCode (digits ++ [d]) = 16 * hexCode digits + (Text.hexValue? d).getD 0 := by
  rw [hexCode, List.reverse_append, List.reverse_singleton, List.singleton_append, List.map_cons,
    Nat.ofDigits_cons, ← hexCode, Nat.add_comm]

theorem hexNumber?_of_digits {digits : List Char} (h : ∀ d ∈ digits, IsHexDigit d) :
    hexNumber? digits = some (hexCode digits) := by
  induction digits using List.reverseRecOn with
  | nil => rfl
  | append_singleton digits d ih =>
    obtain ⟨n, hn⟩ := Option.isSome_iff_exists.mp (isSome_hexValue?_iff.mpr (h d (by simp)))
    rw [hexNumber?_concat, ih fun e he => h e (by simp [he]), hexCode_concat, hn]
    rfl

theorem isHexDigit_of_hexNumber? {digits : List Char} {n : Nat} (h : hexNumber? digits = some n) :
    ∀ d ∈ digits, IsHexDigit d := by
  induction digits using List.reverseRecOn generalizing n with
  | nil => exact List.forall_mem_nil _
  | append_singleton digits d ih =>
    rw [hexNumber?_concat] at h
    obtain ⟨front, hfront, hd⟩ := Option.bind_eq_some_iff.mp h
    obtain ⟨value, hvalue, -⟩ := Option.map_eq_some_iff.mp hd
    intro e he
    rcases List.mem_append.mp he with he | he
    · exact ih hfront e he
    · rw [List.mem_singleton.mp he]
      exact isSome_hexValue?_iff.mp (by rw [hvalue]; rfl)

theorem hexValue?_lt {d : Char} {n : Nat} (h : Text.hexValue? d = some n) : n < 16 := by
  unfold Text.hexValue? at h
  split_ifs at h with hdigit hlower hupper
  · have hd := UInt32.le_iff_toNat_le.mp hdigit.2
    obtain rfl := Option.some.inj h
    change d.toNat ≤ 57 at hd
    change d.toNat - 48 < 16
    omega
  · have hd := UInt32.le_iff_toNat_le.mp hlower.2
    obtain rfl := Option.some.inj h
    change d.toNat ≤ 102 at hd
    change d.toNat - 97 + 10 < 16
    omega
  · have hd := UInt32.le_iff_toNat_le.mp hupper.2
    obtain rfl := Option.some.inj h
    change d.toNat ≤ 70 at hd
    change d.toNat - 65 + 10 < 16
    omega

theorem hexCode_lt (digits : List Char) : hexCode digits < 16 ^ digits.length := by
  have hvalues : ∀ n ∈ digits.reverse.map fun d => (Text.hexValue? d).getD 0, n < 16 := by
    intro n hn
    obtain ⟨d, -, rfl⟩ := List.mem_map.mp hn
    cases hd : Text.hexValue? d with
    | none => decide
    | some value => exact hexValue?_lt hd
  have hlt := Nat.ofDigits_lt_base_pow_length (b := 16) (by decide) hvalues
  rwa [List.length_map, List.length_reverse] at hlt

/-! ### What an escape is read as -/

theorem charOfHex?_plus (digits : List Char) :
    charOfHex? ('+' :: digits) =
      if digits = [] then none
      else (hexNumber? digits).bind fun n => if n.isValidChar then some (Char.ofNat n) else none := by
  unfold charOfHex?
  cases digits with
  | nil => rfl
  | cons d rest => cases hnumber : hexNumber? (d :: rest) <;> simp [hnumber]

theorem charOfHex?_of_ne {taken : List Char} (h : ∀ digits, taken ≠ '+' :: digits) :
    charOfHex? taken =
      if taken = [] then none
      else (hexNumber? taken).bind fun n => if n.isValidChar then some (Char.ofNat n) else none := by
  unfold charOfHex?
  cases taken with
  | nil => rfl
  | cons d rest =>
    have hd : d ≠ '+' := fun heq => h rest (by rw [heq])
    cases hnumber : hexNumber? (d :: rest) <;> simp_all

/-- Digits with or without a plus sign are read as the character of their number. -/
theorem charOfHex?_of_digits {taken digits : List Char}
    (hform : taken = digits ∨ taken = '+' :: digits) (hne : digits ≠ [])
    (hdigits : ∀ d ∈ digits, IsHexDigit d) :
    charOfHex? taken =
      if (hexCode digits).isValidChar then some (Char.ofNat (hexCode digits)) else none := by
  rcases hform with rfl | rfl
  · have hplus : ∀ rest, taken ≠ '+' :: rest := by
      rintro rest rfl
      have hsign := hdigits '+' List.mem_cons_self
      revert hsign
      decide
    rw [charOfHex?_of_ne hplus, if_neg hne, hexNumber?_of_digits hdigits, Option.bind_some]
  · rw [charOfHex?_plus, if_neg hne, hexNumber?_of_digits hdigits, Option.bind_some]

/-- What is read as a number consists of hex digits, apart from a plus sign in front. -/
theorem exists_digits_of_charOfHex? {taken : List Char} {c : Char} (h : charOfHex? taken = some c) :
    ∃ digits, (taken = digits ∨ taken = '+' :: digits) ∧ digits ≠ [] ∧ ∀ d ∈ digits, IsHexDigit d := by
  have hread : ∀ digits, (if digits = [] then none else (hexNumber? digits).bind fun n =>
      if n.isValidChar then some (Char.ofNat n) else none) = some c →
        digits ≠ [] ∧ ∀ d ∈ digits, IsHexDigit d := by
    intro digits hdigits
    split at hdigits
    next => cases hdigits
    next hne =>
      obtain ⟨n, hn, -⟩ := Option.bind_eq_some_iff.mp hdigits
      exact ⟨hne, isHexDigit_of_hexNumber? hn⟩
  by_cases hplus : ∃ digits, taken = '+' :: digits
  · obtain ⟨digits, rfl⟩ := hplus
    rw [charOfHex?_plus] at h
    exact ⟨digits, .inr rfl, hread digits h⟩
  · rw [charOfHex?_of_ne (not_exists.mp hplus)] at h
    exact ⟨taken, .inl rfl, hread taken h⟩

theorem LooseFor.isValidChar {taken digits : List Char} (h : LooseFor taken digits) :
    (hexCode digits).isValidChar := by
  obtain ⟨-, -, hlength, -⟩ := h
  have hlt : hexCode digits < 16 ^ 3 :=
    (hexCode_lt digits).trans_le (Nat.pow_le_pow_right (by decide) (by omega))
  exact .inl (by omega)

theorem readsEscape_decodeHex {taken : List Char} (hlength : taken.length ≤ 4) :
    ReadsEscape taken (decodeHex taken) := by
  have hread : ∀ {digits : List Char}, (taken = digits ∨ taken = '+' :: digits) → digits ≠ [] →
      (∀ d ∈ digits, IsHexDigit d) → (hexCode digits).isValidChar →
      decodeHex taken = [Char.ofNat (hexCode digits)] := by
    intro digits hform hne hdigits hvalid
    rw [decodeHex, charOfHex?_of_digits hform hne hdigits, if_pos hvalid]
  constructor
  case decoded =>
    rintro ⟨hfour, hdigits⟩ hvalid
    exact hread (.inl rfl) (List.ne_nil_of_length_eq_add_one hfour) hdigits hvalid
  case kept =>
    intro hchar hloose
    cases h : charOfHex? taken with
    | none => rw [decodeHex, h]
    | some c =>
      -- the digits would be too many to be loose, and so they would be four and denote a character
      obtain ⟨digits, hform, hne, hdigits⟩ := exists_digits_of_charOfHex? h
      have hmany : ¬digits.length < 4 := fun hfew => hloose ⟨digits, hform, hne, hfew, hdigits⟩
      obtain rfl : taken = digits := hform.resolve_right fun hplus => by
        rw [hplus, List.length_cons] at hlength
        omega
      rw [charOfHex?_of_digits (.inl rfl) hne hdigits, if_neg (hchar ⟨by omega, hdigits⟩)] at h
      cases h
  case loose =>
    intro digits hloose
    exact hread hloose.1 hloose.2.1 hloose.2.2.2 hloose.isValidChar

/-! ### Escapes in a text -/

/-- Whole escapes are decoded apart from what follows them. -/
theorem Whole.unescape_append {raw : List Char} (h : Whole raw) (rest : List Char) :
    unescape (raw ++ rest) = unescape raw ++ unescape rest := by
  induction h with
  | nil => rw [List.nil_append, unescape, List.nil_append]
  | plain hc _ ih =>
    rw [List.cons_append, unescape_cons hc, unescape_cons hc, ih, List.cons_append]
  | pair hu _ ih =>
    rw [List.cons_append, List.cons_append, unescape_pair hu, unescape_pair hu, ih, List.cons_append]
  | @unicode taken raw hlength _ ih =>
    have hsplit : '\\' :: 'u' :: (taken ++ raw) ++ rest = '\\' :: 'u' :: (taken ++ (raw ++ rest)) := by
      simp
    rw [hsplit, unescape_unicode hlength, unescape_unicode hlength, ih, List.append_assoc]

/-- Of what is not four digits, exactly the loose digits are not kept. -/
theorem ReadsEscape.eq_kept_iff {taken read : List Char} (h : ReadsEscape taken read)
    (hfour : ¬FourDigits taken) : read = 'u' :: taken ↔ ¬Loose taken := by
  refine ⟨?_, fun hloose => h.kept (absurd · hfour) hloose⟩
  rintro hkept ⟨digits, hdigits⟩
  have hone := hkept.symm.trans (h.loose digits hdigits)
  obtain rfl : taken = [] := (List.cons.inj hone).2
  obtain ⟨hform, hne, -⟩ := hdigits
  rcases hform with rfl | hplus
  · exact hne rfl
  · cases hplus

/-- **Unicode escapes are read by the four characters after them.** In the key and in the value of every
entry, wherever an escape begins behind a whole text, what is before it and what is behind the four
characters are read apart. Four hex digits of a character become this character. What is not four hex
digits is kept behind a `u`, but for loose digits, which are decoded as well. -/
theorem entry_unicodeEscape {line before rest raw : List Char} {text : String}
    (hpart : (raw, text) = ((splitEntry line).1, (entry line).1) ∨
      (raw, text) = ((splitEntry line).2, (entry line).2))
    (hraw : raw = before ++ '\\' :: 'u' :: rest) (hwhole : Whole before) :
    ∃ read, text.toList = unescape before ++ read ++ unescape (rest.drop 4) ∧
      ReadsEscape (rest.take 4) read ∧
      (¬FourDigits (rest.take 4) → (read = 'u' :: rest.take 4 ↔ ¬Loose (rest.take 4))) := by
  have htext : text.toList = unescape raw := by
    rcases hpart with hkey | hvalue
    · obtain ⟨rfl, rfl⟩ := Prod.mk.inj hkey
      exact String.toList_ofList
    · obtain ⟨rfl, rfl⟩ := Prod.mk.inj hvalue
      exact String.toList_ofList
  have hread : ReadsEscape (rest.take 4) (decodeHex (rest.take 4)) :=
    readsEscape_decodeHex (List.length_take_le 4 rest)
  refine ⟨decodeHex (rest.take 4), ?_, hread, hread.eq_kept_iff⟩
  rw [htext, hraw, hwhole.unescape_append, List.append_assoc]
  congr 1
  rw [unescape]

/-- An escape in capitals, behind an escaped backslash and before a fifth digit. -/
theorem entry_unicodeEscape_capitals :
    Whole "a\\\\".toList ∧ FourDigits ['0', '0', 'E', '9'] ∧
    (entry "k=a\\\\\\u00E9f".toList).2.toList = "a\\éf".toList := by
  have hwhole : Whole "a\\\\".toList := .plain (by decide) (.pair (by decide) .nil)
  have hfour : FourDigits ['0', '0', 'E', '9'] := ⟨rfl, by simp [IsHexDigit]⟩
  have hraw : (splitEntry "k=a\\\\\\u00E9f".toList).2 =
      "a\\\\".toList ++ '\\' :: 'u' :: ['0', '0', 'E', '9', 'f'] := by
    decide +kernel
  obtain ⟨read, htext, hread, -⟩ := entry_unicodeEscape (.inr rfl) hraw hwhole
  refine ⟨hwhole, hfour, ?_⟩
  obtain rfl := hread.decoded hfour (by decide +kernel)
  rw [htext]
  decide +kernel

/-- A plus sign and three digits are decoded as one character, and so are two digits at the end. -/
theorem looseDigits_decoded :
    ¬FourDigits "+041".toList ∧ ¬FourDigits "41".toList ∧
    (parse "k=\\u+041\n").find? "k" = some "A" ∧ (parse "k=\\u+041\n").find? "k" ≠ some "u+041" ∧
    (parse "k=\\u41\n").find? "k" = some "A" ∧ (parse "k=\\u41\n").find? "k" ≠ some "u41" := by
  refine ⟨?_, ?_, by decide +kernel, by decide +kernel, by decide +kernel, by decide +kernel⟩
  · exact fun h => absurd (h.2 '+' (by decide +kernel)) (by decide)
  · exact fun h => absurd h.1 (by decide)

end ContractForge.Properties
