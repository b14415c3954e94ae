import ContractForge.Proofs.Message.Listing
import ContractForge.Proofs.Message.UnicodeEscapes

/-!
# Listings in ASCII

A listing that keeps to ASCII has a unicode escape for every unit of 16 bits of any other character,
so that a character above U+FFFF is written as two escapes.

* `codeUnits` : the units of a character, two surrogates above U+FFFF.
* `asciiEscape` : a text as it is written in such a listing.
* `readBack` : what is read where a text was written.

`parse_asciiListing` : the reader decodes every escape by itself, and a surrogate is no character. So a
listing is read back as what was listed exactly if no character above U+FFFF was listed.
-/

namespace ContractForge.Properties

/-- The units of 16 bits of a character: one, or a pair of surrogates. -/
def codeUnits (c : Char) : List Nat :=
  if c.toNat < 0x10000 then [c.toNat]
  else [0xd800 + (c.toNat - 0x10000) / 0x400, 0xdc00 + (c.toNat - 0x10000) % 0x400]

/-- The four hex digits of a unit, all in lower or all in upper case. -/
def unitDigits (capitals : Bool) (unit : Nat) : List Char :=
  (Text.hexFixed 4 unit).map fun d => if capitals then d.toUpper else d

/-- A character as it is written with ASCII characters only. -/
def asciiChar (capitals : Bool) (c : Char) : List Char :=
  if c = '\t' then ['\\', 't']
  else if c = '\n' then ['\\', 'n']
  else if c = '\r' then ['\\', 'r']
  else if c = '\x0c' then ['\\', 'f']
  else if [' ', '\\', '=', ':', '#', '!'].contains c then ['\\', c]
  else if 0x20 ≤ c.toNat ∧ c.toNat ≤ 0x7e then [c]
  else (codeUnits c).flatMap fun unit => '\\' :: 'u' :: unitDigits capitals unit

/-- A text as it is written with ASCII characters only. -/
def asciiEscape (capitals : Bool) (text : List Char) : List Char :=
  text.flatMap (asciiChar capitals)

/-- A text that lists pairs in order, with ASCII characters only apart from comments. -/
inductive AsciiListing (capitals : Bool) : List (String × String) → List Char → Prop
  | nil : AsciiListing capitals [] []
  | filler {line lineBreak text : List Char} {pairs : List (String × String)} (hline : Filler line)
      (hbreak : lineBreak ∈ lineBreaks) (hrest : AsciiListing capitals pairs text) :
      AsciiListing capitals pairs (line ++ lineBreak ++ text)
  | entry {lineBreak text : List Char} {pairs : List (String × String)} (key value : String)
      (hbreak : lineBreak ∈ lineBreaks) (hrest : AsciiListing capitals pairs text) :
      AsciiListing capitals ((key, value) :: pairs)
        (asciiEscape capitals key.toList ++ '=' :: asciiEscape capitals value.toList ++ lineBreak ++
          text)

/-- Every character is a single unit. -/
def SingleUnits (text : String) : Prop :=
  ∀ c ∈ text.toList, c.toNat < 0x10000

instance (text : String) : Decidable (SingleUnits text) :=
  inferInstanceAs (Decidable (∀ c ∈ text.toList, _))

/-- What is read where a character was written: the character, or each of the two escapes without its
backslash. -/
def readBackChar (capitals : Bool) (c : Char) : List Char :=
  if c.toNat < 0x10000 then [c] else (codeUnits c).flatMap fun unit => 'u' :: unitDigits capitals unit

/-- What is read where a text was written. -/
def readBack (capitals : Bool) (text : String) : String :=
  String.ofList (text.toList.flatMap (readBackChar capitals))

variable {capitals : Bool}

/-! ### Units and their digits -/

theorem toNat_lt (c : Char) : c.toNat < 0x110000 := by
  have h := c.valid
  simp only [UInt32.isValidChar, Nat.isValidChar] at h
  show c.val.toNat < _
  omega

theorem codeUnit_lt {c : Char} {unit : Nat} (h : unit ∈ codeUnits c) : unit < 0x10000 := by
  have hc := toNat_lt c
  unfold codeUnits at h
  split at h
  next hlow =>
    rw [List.mem_singleton.mp h]
    exact hlow
  next =>
    simp only [List.mem_cons, List.not_mem_nil, or_false] at h
    omega

/-- The units of a character above U+FFFF are no characters. -/
theorem not_isValidChar_codeUnit {c : Char} (hhigh : ¬c.toNat < 0x10000) {unit : Nat}
    (h : unit ∈ codeUnits c) : ¬unit.isValidChar := by
  have hc := toNat_lt c
  rw [codeUnits, if_neg hhigh] at h
  simp only [List.mem_cons, List.not_mem_nil, or_false] at h
  unfold Nat.isValidChar
  omega

theorem exists_of_mem_unitDigits {unit : Nat} {d : Char} (h : d ∈ unitDigits capitals unit) :
    ∃ k < 16, d = Text.hexDigit k ∨ d = (Text.hexDigit k).toUpper := by
  obtain ⟨e, he, rfl⟩ := List.mem_map.mp h
  obtain ⟨k, hk, rfl⟩ := Text.exists_of_mem_hexFixed he
  refine ⟨k, hk, ?_⟩
  cases capitals
  · exact .inl rfl
  · exact .inr rfl

theorem isPlain_of_mem_unitDigits {unit : Nat} {d : Char} (h : d ∈ unitDigits capitals unit) :
    isPlain d = true ∧ d ≠ '+' ∧ d.toNat < 0x10000 := by
  have hlower : ∀ k < 16, isPlain (Text.hexDigit k) = true ∧ Text.hexDigit k ≠ '+' ∧
      (Text.hexDigit k).toNat < 0x10000 := by decide
  have hupper : ∀ k < 16, isPlain (Text.hexDigit k).toUpper = true ∧
      (Text.hexDigit k).toUpper ≠ '+' ∧ (Text.hexDigit k).toUpper.toNat < 0x10000 := by decide
  obtain ⟨k, hk, rfl | rfl⟩ := exists_of_mem_unitDigits h
  · exact hlower k hk
  · exact hupper k hk

theorem length_unitDigits (unit : Nat) : (unitDigits capitals unit).length = 4 := by
  rw [unitDigits, List.length_map, Text.length_hexFixed]

theorem hexNumber?_unitDigits {unit : Nat} (h : unit < 0x10000) :
    hexNumber? (unitDigits capitals unit) = some unit := by
  have hvalue : ∀ d : Char, Text.hexValue? (if capitals then d.toUpper else d) = Text.hexValue? d := by
    intro d
    split
    · exact Text.hexValue?_toUpper d
    · rfl
  have hlower : hexNumber? (unitDigits capitals unit) = hexNumber? (Text.hexFixed 4 unit) := by
    unfold hexNumber? unitDigits
    rw [List.foldlM_map]
    simp only [hvalue]
  rw [hlower]
  exact (Java.hexNumber?_hexFixed 4 unit).trans (congrArg some (Nat.mod_eq_of_lt h))

/-- An escape is decoded if its unit is a character, and loses its backslash otherwise. -/
theorem decodeHex_unitDigits {unit : Nat} (h : unit < 0x10000) :
    decodeHex (unitDigits capitals unit) =
      if unit.isValidChar then [Char.ofNat unit] else 'u' :: unitDigits capitals unit := by
  have hnumber : hexNumber? (unitDigits capitals unit) = some unit := hexNumber?_unitDigits h
  have hlength : (unitDigits capitals unit).length = 4 := length_unitDigits unit
  have hsign : ∀ d ∈ unitDigits capitals unit, d ≠ '+' := fun d hd =>
    (isPlain_of_mem_unitDigits hd).2.1
  generalize unitDigits capitals unit = digits at *
  have hplus : ∀ rest, digits ≠ '+' :: rest := by
    rintro rest rfl
    exact hsign '+' List.mem_cons_self rfl
  have hcode : charOfHex? digits = if unit.isValidChar then some (Char.ofNat unit) else none := by
    rw [charOfHex?_of_ne hplus, if_neg (List.ne_nil_of_length_eq_add_one hlength), hnumber,
      Option.bind_some]
  by_cases hvalid : unit.isValidChar
  · rw [decodeHex, hcode, if_pos hvalid, if_pos hvalid]
  · rw [decodeHex, hcode, if_neg hvalid, if_neg hvalid]

/-! ### Escaped characters -/

theorem unescape_units {units : List Nat} (h : ∀ unit ∈ units, unit < 0x10000) (rest : List Char) :
    unescape (units.flatMap (fun unit => '\\' :: 'u' :: unitDigits capitals unit) ++ rest) =
      units.flatMap (fun unit => decodeHex (unitDigits capitals unit)) ++ unescape rest := by
  induction units with
  | nil => rfl
  | cons unit further ih =>
    have hfurther := ih fun other hother => h other (List.mem_cons_of_mem _ hother)
    rw [List.flatMap_cons, List.flatMap_cons, List.append_assoc, List.append_assoc, ← hfurther]
    exact unescape_unicode (length_unitDigits unit) _

/-- What the units of a character are decoded to. -/
theorem flatMap_decodeHex_codeUnits (c : Char) :
    (codeUnits c).flatMap (fun unit => decodeHex (unitDigits capitals unit)) =
      readBackChar capitals c := by
  by_cases hc : c.toNat < 0x10000
  · have hvalid : c.toNat.isValidChar := c.valid
    rw [codeUnits, readBackChar, if_pos hc, if_pos hc, List.flatMap_singleton,
      decodeHex_unitDigits hc, if_pos hvalid, Char.ofNat_toNat]
  · rw [readBackChar, if_neg hc]
    refine List.flatMap_congr fun unit hunit => ?_
    rw [decodeHex_unitDigits (codeUnit_lt hunit), if_neg (not_isValidChar_codeUnit hc hunit)]

theorem unescape_asciiChar (c : Char) (rest : List Char) :
    unescape (asciiChar capitals c ++ rest) = readBackChar capitals c ++ unescape rest := by
  have hlow : c.toNat < 0x80 → readBackChar capitals c = [c] := fun h => if_pos (by omega)
  unfold asciiChar
  split_ifs with ht hn hr hf hsign hplain
  · subst ht
    exact unescape_pair (by decide) rest
  · subst hn
    exact unescape_pair (by decide) rest
  · subst hr
    exact unescape_pair (by decide) rest
  · subst hf
    exact unescape_pair (by decide) rest
  · have hsigns : ∀ d ∈ [' ', '\\', '=', ':', '#', '!'],
        d ≠ 'u' ∧ unescapeChar d = d ∧ d.toNat < 0x80 := by
      simp only [List.forall_mem_cons, List.not_mem_nil, false_implies, implies_true]
      decide
    obtain ⟨hu, hself, hascii⟩ := hsigns c (by simpa using hsign)
    rw [hlow hascii]
    show unescape ('\\' :: c :: rest) = c :: unescape rest
    rw [unescape_pair hu, hself]
  · have hc : c ≠ '\\' := by
      rintro rfl
      simp at hsign
    rw [hlow (by omega)]
    exact unescape_cons hc rest
  · rw [unescape_units fun _ h => codeUnit_lt h, flatMap_decodeHex_codeUnits]

theorem isPlain_of_printable {c : Char} (hsign : c ∉ [' ', '\\', '=', ':', '#', '!'])
    (h : 0x20 ≤ c.toNat ∧ c.toNat ≤ 0x7e) : isPlain c = true := by
  have hall : ∀ n < 0x7f, 0x20 ≤ n → Char.ofNat n ∉ [' ', '\\', '=', ':', '#', '!'] →
      isPlain (Char.ofNat n) = true := by decide
  have hc := hall c.toNat (by omega) h.1
  rw [Char.ofNat_toNat] at hc
  exact hc hsign

theorem shielded_asciiChar (c : Char) : Shielded (asciiChar capitals c) := by
  unfold asciiChar
  split_ifs with ht hn hr hf hsign hplain
  · exact .pair (by decide) (by decide) .nil
  · exact .pair (by decide) (by decide) .nil
  · exact .pair (by decide) (by decide) .nil
  · exact .pair (by decide) (by decide) .nil
  · exact .pair hn hr .nil
  · exact .plain (isPlain_of_printable (by simpa using hsign) hplain) .nil
  · refine shielded_flatMap fun unit _ => .pair (by decide) (by decide) (shielded_of_plain ?_)
    intro d hd
    exact (isPlain_of_mem_unitDigits hd).1

theorem shielded_asciiEscape (text : List Char) : Shielded (asciiEscape capitals text) :=
  shielded_flatMap fun c _ => shielded_asciiChar c

theorem unescape_asciiEscape (text : String) :
    String.ofList (unescape (asciiEscape capitals text.toList)) = readBack capitals text := by
  have hchars : ∀ chars : List Char,
      unescape (asciiEscape capitals chars) = chars.flatMap (readBackChar capitals) := by
    intro chars
    induction chars with
    | nil => rw [asciiEscape, List.flatMap_nil, unescape, List.flatMap_nil]
    | cons c rest ih =>
      rw [asciiEscape, List.flatMap_cons, unescape_asciiChar, ← asciiEscape, ih, List.flatMap_cons]
  rw [hchars, readBack]

/-! ### What is read -/

theorem entries_asciiListing {pairs : List (String × String)} {text : List Char}
    (h : AsciiListing capitals pairs text) :
    entries text = pairs.map fun p => (readBack capitals p.1, readBack capitals p.2) := by
  induction h with
  | nil => rw [entries, lines, logicalLines, List.map_nil, List.map_nil]
  | filler hline hbreak _ ih => rw [entries_filler hline hbreak, ih]
  | entry key value hbreak _ ih =>
    have hkey : Shielded (asciiEscape capitals key.toList) := shielded_asciiEscape key.toList
    have hvalue : Shielded (asciiEscape capitals value.toList) := shielded_asciiEscape value.toList
    rw [entries_entry hkey hvalue hbreak, unescape_asciiEscape, unescape_asciiEscape, ih]
    rfl

theorem readBack_of_singleUnits {text : String} (h : SingleUnits text) :
    readBack capitals text = text := by
  have hchars : text.toList.flatMap (readBackChar capitals) = text.toList.flatMap fun c => [c] :=
    List.flatMap_congr fun c hc => if_pos (h c hc)
  rw [readBack, hchars, List.flatMap_singleton', String.ofList_toList]

/-- Whatever is read has no character above U+FFFF. -/
theorem singleUnits_readBack (text : String) : SingleUnits (readBack capitals text) := by
  intro c hc
  rw [readBack, String.toList_ofList] at hc
  obtain ⟨d, -, hd⟩ := List.mem_flatMap.mp hc
  unfold readBackChar at hd
  split at hd
  next hlow =>
    rw [List.mem_singleton.mp hd]
    exact hlow
  next =>
    obtain ⟨unit, -, hmem⟩ := List.mem_flatMap.mp hd
    rcases List.mem_cons.mp hmem with rfl | hdigit
    · decide
    · exact (isPlain_of_mem_unitDigits hdigit).2.2

theorem LastValue.mem {pairs : List (String × String)} {key value : String}
    (h : LastValue pairs key value) : (key, value) ∈ pairs := by
  obtain ⟨before, after, rfl, -⟩ := h
  simp

/-- Pairs of different keys bind each key to its only value. -/
theorem lastValue_iff_mem {pairs : List (String × String)} (hkeys : (pairs.map (·.1)).Nodup)
    {key value : String} : LastValue pairs key value ↔ (key, value) ∈ pairs := by
  refine ⟨LastValue.mem, fun hmem => ?_⟩
  obtain ⟨before, after, rfl⟩ := List.append_of_mem hmem
  refine ⟨before, after, rfl, ?_⟩
  rw [List.map_append, List.map_cons, List.nodup_append, List.nodup_cons] at hkeys
  exact hkeys.2.1.1

/-- **Listings in ASCII are read back up to U+FFFF.** Whatever pairs of different keys a text lists with
ASCII characters only, the bindings read from it are those pairs exactly if no key and no value has a
character above U+FFFF. Where there are such characters, each is read as the digits of its two escapes
with a `u` before each four, and a key that comes to be listed twice in this way has its last value. -/
theorem parse_asciiListing {pairs : List (String × String)} {text : String}
    (h : AsciiListing capitals pairs text.toList) (hkeys : (pairs.map (·.1)).Nodup) :
    (parse text).Sorted ∧
    ((∀ key value, (parse text).find? key = some value ↔ (key, value) ∈ pairs) ↔
      ∀ p ∈ pairs, SingleUnits p.1 ∧ SingleUnits p.2) ∧
    ∀ key value, (parse text).find? key = some value ↔
      LastValue (pairs.map fun p => (readBack capitals p.1, readBack capitals p.2)) key value := by
  have hfind : ∀ key value, (parse text).find? key = some value ↔
      LastValue (pairs.map fun p => (readBack capitals p.1, readBack capitals p.2)) key value := by
    intro key value
    rw [parse, entries_asciiListing h, find?_foldl_insert]
    simp [find?]
  refine ⟨sorted_parse text, ⟨fun hback p hp => ?_, fun hsingle key value => ?_⟩, hfind⟩
  · -- what is bound was read, so it has no such character
    have hlast := (hfind p.1 p.2).mp ((hback p.1 p.2).mpr hp)
    obtain ⟨q, -, hq⟩ := List.mem_map.mp hlast.mem
    obtain ⟨hkey, hvalue⟩ := Prod.mk.inj hq
    rw [← hkey, ← hvalue]
    exact ⟨singleUnits_readBack q.1, singleUnits_readBack q.2⟩
  · have hsame : (pairs.map fun p => (readBack capitals p.1, readBack capitals p.2)) = pairs := by
      refine (List.map_congr_left fun p hp => ?_).trans (List.map_id pairs)
      rw [readBack_of_singleUnits (hsingle p hp).1, readBack_of_singleUnits (hsingle p hp).2]
      rfl
    rw [hfind, hsame, lastValue_iff_mem hkeys]

/-- A key that looks like a comment, and a value with a smiling face, U+1F600. -/
def facePairs : List (String × String) :=
  [("#ü =", "a\tb 😀"), ("", "\n")]

/-- The pairs after a comment, with digits in lower case. -/
def faceText : String :=
  "# saved\n\\#\\u00fc\\ \\==a\\tb\\ \\ud83d\\ude00\r\n=\\n\n"

theorem parse_asciiListing_face :
    AsciiListing false facePairs faceText.toList ∧ (facePairs.map (·.1)).Nodup ∧
    (parse faceText).Sorted ∧
    ((∀ key value, (parse faceText).find? key = some value ↔ (key, value) ∈ facePairs) ↔
      ∀ p ∈ facePairs, SingleUnits p.1 ∧ SingleUnits p.2) ∧
    ∀ key value, (parse faceText).find? key = some value ↔
      LastValue (facePairs.map fun p => (readBack false p.1, readBack false p.2)) key value := by
  have hlisting : AsciiListing false facePairs
      ([] ++ '#' :: " saved".toList ++ ['\n'] ++
        (asciiEscape false "#ü =".toList ++ '=' :: asciiEscape false "a\tb 😀".toList ++ ['\r', '\n'] ++
          (asciiEscape false "".toList ++ '=' :: asciiEscape false "\n".toList ++ ['\n'] ++ []))) :=
    .filler (.comment (List.forall_mem_nil _) (.inl rfl) (by decide +kernel)) (by decide) <|
      .entry _ _ (by decide) <| .entry _ _ (by decide) .nil
  have htext : AsciiListing false facePairs faceText.toList := by
    convert hlisting using 1
    decide +kernel
  have hkeys : (facePairs.map (·.1)).Nodup := by decide
  exact ⟨htext, hkeys, parse_asciiListing htext hkeys⟩

/-- The two escapes of U+1F600 are not read as that character. -/
theorem surrogatePair_lost :
    AsciiListing true [("k", "😀")] "k=\\uD83D\\uDE00\n".toList ∧
    (parse "k=\\uD83D\\uDE00\n").find? "k" = some "uD83DuDE00" ∧
    (parse "k=\\uD83D\\uDE00\n").find? "k" ≠ some "😀" := by
  have hlisting : AsciiListing true [("k", "😀")]
      (asciiEscape true "k".toList ++ '=' :: asciiEscape true "😀".toList ++ ['\n'] ++ []) :=
    .entry _ _ (by decide) .nil
  have hread : (parse "k=\\uD83D\\uDE00\n").find? "k" = some "uD83DuDE00" := by decide +kernel
  refine ⟨?_, hread, ?_⟩
  · convert hlisting using 1
    decide +kernel
  · rw [hread]
    decide

end ContractForge.Properties
