import ContractForge.Proofs.Java.StringLiteral
import Mathlib.Algebra.Ring.Parity
import Mathlib.Data.List.DropRight

/-!
# Source text read in two phases

A source text is read twice. In the first phase its unicode escapes are replaced by the characters that
they stand for, and only then are literals looked for, with the escape sequences of their own.

* `translate?` : the first phase. A backslash begins a unicode escape if a `u` follows it and an even
  number of backslashes stands directly before it; what an escape gives is not looked at again.
* `quoted?` : the second phase, for a string literal at the start of a text.
* `OpensEscape` : a unicode escape begins at a position of a text.

The reader `readBody?`, which takes both phases in one pass, agrees with them
(`translate?_of_readBody?`). `literal_denotes` says what a written literal is in this reading.
-/

namespace ContractForge.Java

/-! ### The two phases -/

/-- The character that the digits of a unicode escape stand for. Half of a surrogate pair is none. -/
def codeChar? (digits : List Char) : Option Char :=
  (hexNumber? digits).bind fun code => if code.isValidChar then some (Char.ofNat code) else none

/-- What stands directly before a text: an even or an odd number of backslashes, or a backslash that
begins a unicode escape and its first `u`. -/
inductive Before where
  | even
  | odd
  | escape

/-- A text in which unicode escapes are replaced, unless a malformed one is in it. -/
def translateFrom? : Before → List Char → Option (List Char)
  | .even, [] => some []
  | .odd, [] => some []
  | .escape, 'u' :: rest => translateFrom? .escape rest
  | .escape, a :: b :: c :: d :: rest =>
    (codeChar? [a, b, c, d]).bind fun ch => (translateFrom? .even rest).map (ch :: ·)
  | .escape, _ => none
  | .even, '\\' :: 'u' :: rest => translateFrom? .escape rest
  | .even, '\\' :: rest => (translateFrom? .odd rest).map ('\\' :: ·)
  | .odd, '\\' :: rest => (translateFrom? .even rest).map ('\\' :: ·)
  | .even, c :: rest => (translateFrom? .even rest).map (c :: ·)
  | .odd, c :: rest => (translateFrom? .even rest).map (c :: ·)

/-- The first phase: a source text with its unicode escapes replaced. -/
def translate? (source : List Char) : Option (List Char) :=
  translateFrom? .even source

/-- The text of a literal whose opening quote has been read, and what follows its closing quote. Unicode
escapes have been replaced before. -/
def quotedBody? : List Char → Option (List Char × List Char)
  | [] => none
  | '"' :: rest => some ([], rest)
  | '\\' :: c :: rest => (escapeSequence? c).bind fun ch => (quotedBody? rest).map (prepend ch)
  | c :: rest => if isDelimiter c then none else (quotedBody? rest).map (prepend c)

/-- The second phase, for a literal at the start of a text: its text, and what follows it. -/
def quoted? : List Char → Option (List Char × List Char)
  | '"' :: rest => quotedBody? rest
  | _ => none

/-! ### Where unicode escapes begin -/

/-- How many backslashes a text ends in. -/
def backslashes (text : List Char) : Nat :=
  (text.rtakeWhile (· = '\\')).length

/-- The text begins with a backslash, a `u` and four hex digits. -/
def StartsEscape (text : List Char) : Prop :=
  ∃ digits rest, text = '\\' :: 'u' :: (digits ++ rest) ∧ digits.length = 4 ∧
    ∀ d ∈ digits, (Text.hexValue? d).isSome = true

/-- A unicode escape begins at a position of a source text. -/
def OpensEscape (source : List Char) (i : Nat) : Prop :=
  Even (backslashes (source.take i)) ∧ StartsEscape (source.drop i)

theorem backslashes_append_backslash (text : List Char) :
    backslashes (text ++ ['\\']) = backslashes text + 1 := by
  rw [backslashes, List.rtakeWhile_concat_pos _ _ _ (by decide), List.length_append]
  rfl

theorem backslashes_append_of_ne (text : List Char) {c : Char} (h : c ≠ '\\') :
    backslashes (text ++ [c]) = 0 := by
  rw [backslashes, List.rtakeWhile_concat_neg _ _ _ (by simpa using h), List.length_nil]

/-- After a character that is escaped with a backslash the number is even again. -/
theorem even_backslashes_pair {text : List Char} (h : Even (backslashes text)) (c : Char) :
    Even (backslashes (text ++ ['\\', c])) := by
  have hsplit : text ++ ['\\', c] = text ++ ['\\'] ++ [c] := by simp
  rw [hsplit]
  by_cases hc : c = '\\'
  · rw [hc, backslashes_append_backslash, backslashes_append_backslash]
    exact h.add (by decide : Even 2)
  · rw [backslashes_append_of_ne _ hc]
    exact Even.zero

/-! ### The first phase, step by step -/

theorem translateFrom?_pair {c : Char} (h : c ≠ 'u') (rest : List Char) :
    translateFrom? .even ('\\' :: c :: rest) =
      (translateFrom? .even rest).map ('\\' :: c :: ·) := by
  have hodd : translateFrom? .odd (c :: rest) = (translateFrom? .even rest).map (c :: ·) := by
    by_cases hc : c = '\\'
    · rw [hc, translateFrom?]
    · rw [translateFrom?]
      exact hc
  rw [translateFrom?, hodd, Option.map_map]
  · rfl
  · intro more hcons
    exact h (List.cons.inj hcons).1

theorem translateFrom?_plain {c : Char} (h : c ≠ '\\') (rest : List Char) :
    translateFrom? .even (c :: rest) = (translateFrom? .even rest).map (c :: ·) := by
  rw [translateFrom?]
  · exact fun _ hc => absurd hc h
  · exact h

theorem ne_u_of_codeChar? {a ch : Char} {digits : List Char} (h : codeChar? (a :: digits) = some ch) :
    a ≠ 'u' := by
  rintro rfl
  have hnone : hexNumber? ('u' :: digits) = none := by
    rw [hexNumber?, List.foldlM_cons]
    rfl
  rw [codeChar?, hnone] at h
  cases h

theorem translateFrom?_escape {digits : List Char} {ch : Char} (hlength : digits.length = 4)
    (h : codeChar? digits = some ch) (rest : List Char) :
    translateFrom? .even ('\\' :: 'u' :: (digits ++ rest)) =
      (translateFrom? .even rest).map (ch :: ·) := by
  match digits, hlength with
  | [a, b, c, d], _ =>
    rw [translateFrom?]
    show translateFrom? .escape (a :: b :: c :: d :: rest) = _
    rw [translateFrom?, h, Option.bind_some]
    exact ne_u_of_codeChar? h

/-! ### Reading in one pass -/

/-- What stands between quotes: no line end, and no quote without a backslash. -/
inductive Enclosed : List Char → Prop where
  | nil : Enclosed []
  | pair {c ch : Char} {body : List Char} : escapeSequence? c = some ch → Enclosed body →
      Enclosed ('\\' :: c :: body)
  | plain {c : Char} {body : List Char} : isDelimiter c = false → Enclosed body →
      Enclosed (c :: body)

theorem codeChar?_of_unicodeEscape? {digits : List Char} {ch : Char}
    (h : unicodeEscape? digits = some ch) :
    codeChar? digits = some ch ∧ isDelimiter ch = false := by
  obtain ⟨code, hcode, hch⟩ := Option.bind_eq_some_iff.mp h
  split at hch
  next hvalid =>
    obtain rfl := Option.some.inj hch
    obtain ⟨hchar, hplain⟩ := Bool.and_eq_true_iff.mp hvalid
    refine ⟨?_, by simpa using hplain⟩
    rw [codeChar?, hcode, Option.bind_some, if_pos (by simpa using hchar)]
  next => cases hch

theorem exists_of_map_prepend {read : Option (List Char × List Char)} {c : Char}
    {text rest : List Char} (h : read.map (prepend c) = some (text, rest)) :
    ∃ further, text = c :: further ∧ read = some (further, rest) := by
  obtain ⟨⟨further, more⟩, hread, hpair⟩ := Option.map_eq_some_iff.mp h
  obtain ⟨rfl, rfl⟩ := Prod.mk.inj hpair
  exact ⟨further, rfl, hread⟩

theorem quotedBody?_pair {letter c : Char} (h : escapeSequence? letter = some c)
    (rest : List Char) :
    quotedBody? ('\\' :: letter :: rest) = (quotedBody? rest).map (prepend c) := by
  rw [quotedBody?, h, Option.bind_some]

theorem quotedBody?_plain {c : Char} (h : isDelimiter c = false) (rest : List Char) :
    quotedBody? (c :: rest) = (quotedBody? rest).map (prepend c) := by
  rw [quotedBody?, if_neg (by simp [h])]
  · rintro rfl
    cases h
  · rintro letter more rfl
    cases h

/-- What the reader reads in one pass is read in two phases as well. -/
theorem translate?_of_readBody? {source text rest : List Char}
    (h : readBody? source = some (text, rest)) :
    ∃ body, Enclosed body ∧
      translate? source = (translate? rest).map (fun after => body ++ '"' :: after) ∧
      ∀ after, quotedBody? (body ++ '"' :: after) = some (text, after) := by
  unfold translate?
  fun_induction readBody? source generalizing text with
  | case1 => cases h
  | case2 more =>
    obtain ⟨rfl, rfl⟩ := Prod.mk.inj (Option.some.inj h)
    exact ⟨[], .nil, translateFrom?_plain (by decide) more, fun _ => rfl⟩
  | case3 a b c d more ih =>
    obtain ⟨ch, hescape, hmap⟩ := Option.bind_eq_some_iff.mp h
    obtain ⟨further, rfl, hread⟩ := exists_of_map_prepend hmap
    obtain ⟨body, hbody, htranslate, hquoted⟩ := ih hread
    obtain ⟨hcode, hplain⟩ := codeChar?_of_unicodeEscape? hescape
    refine ⟨ch :: body, .plain hplain hbody, ?_, fun after => ?_⟩
    · have hstep := translateFrom?_escape rfl hcode more
      rw [htranslate, Option.map_map] at hstep
      exact hstep
    · rw [List.cons_append, quotedBody?_plain hplain, hquoted]
      rfl
  | case4 c more hnot ih =>
    obtain ⟨ch, hletter, hmap⟩ := Option.bind_eq_some_iff.mp h
    obtain ⟨further, rfl, hread⟩ := exists_of_map_prepend hmap
    obtain ⟨body, hbody, htranslate, hquoted⟩ := ih hread
    have hu : c ≠ 'u' := by
      rintro rfl
      cases hletter
    refine ⟨'\\' :: c :: body, .pair hletter hbody, ?_, fun after => ?_⟩
    · rw [translateFrom?_pair hu, htranslate, Option.map_map]
      rfl
    · rw [List.cons_append, List.cons_append, quotedBody?_pair hletter, hquoted]
      rfl
  | case5 => cases h
  | case6 c more _ _ _ hnot ih =>
    obtain ⟨further, rfl, hread⟩ := exists_of_map_prepend h
    obtain ⟨body, hbody, htranslate, hquoted⟩ := ih hread
    have hplain : isDelimiter c = false := by simpa using hnot
    have hbackslash : c ≠ '\\' := by
      rintro rfl
      cases hplain
    refine ⟨c :: body, .plain hplain hbody, ?_, fun after => ?_⟩
    · rw [translateFrom?_plain hbackslash, htranslate, Option.map_map]
      rfl
    · rw [List.cons_append, quotedBody?_plain hplain, hquoted]
      rfl

/-! ### What stands between the quotes -/

theorem Enclosed.lineEnd_not_mem {body : List Char} (h : Enclosed body) :
    '\n' ∉ body ∧ '\r' ∉ body := by
  induction h with
  | nil => simp
  | @pair c ch body hletter _ ih =>
    have hline : c ≠ '\n' := by
      rintro rfl
      cases hletter
    have hreturn : c ≠ '\r' := by
      rintro rfl
      cases hletter
    simp [hline.symm, hreturn.symm, ih]
  | @plain c body hplain _ ih =>
    have hline : c ≠ '\n' := by
      rintro rfl
      cases hplain
    have hreturn : c ≠ '\r' := by
      rintro rfl
      cases hplain
    simp [hline.symm, hreturn.symm, ih]

/-- Every quote comes after an odd number of backslashes. -/
theorem Enclosed.odd_of_quote {body : List Char} (h : Enclosed body) {front : List Char}
    (hfront : Even (backslashes front)) {i : Nat} (hquote : body[i]? = some '"') :
    Odd (backslashes (front ++ body.take i)) := by
  induction h generalizing front i with
  | nil => simp at hquote
  | @pair c ch body _ _ ih =>
    match i with
    | 0 => simp at hquote
    | 1 =>
      show Odd (backslashes (front ++ ['\\']))
      rw [backslashes_append_backslash]
      exact hfront.add_one
    | i + 2 =>
      have hpair := ih (even_backslashes_pair hfront c) hquote
      rwa [List.append_assoc] at hpair
  | @plain c body hplain _ ih =>
    cases i with
    | zero =>
      obtain rfl := Option.some.inj hquote
      cases hplain
    | succ i =>
      have hbackslash : c ≠ '\\' := by
        rintro rfl
        cases hplain
      have heven : Even (backslashes (front ++ [c])) := by
        rw [backslashes_append_of_ne front hbackslash]
        exact Even.zero
      have hrest := ih heven hquote
      rwa [List.append_assoc] at hrest

/-! ### The unicode escapes of a literal -/

/-- The character is written by its code: it is a control character without an escape sequence. -/
def writtenByCode (c : Char) : Bool :=
  isControl c && !(['\n', '\r', '\t', '\x08', '\x0c'].contains c)

/-- The ways in which a character is written. -/
theorem escapeChar_eq_or (c : Char) :
    writtenByCode c = true ∧ escapeChar c = '\\' :: 'u' :: Text.hexFixed 4 c.toNat ∨
    writtenByCode c = false ∧ (∃ letter, letter ≠ 'u' ∧ escapeChar c = ['\\', letter]) ∨
    writtenByCode c = false ∧ c ≠ '\\' ∧ escapeChar c = [c] := by
  unfold escapeChar
  split_ifs with hquote hbackslash hline hreturn htab hback hfeed hcontrol
  · exact .inr (.inl ⟨by rw [hquote]; decide, '"', by decide, rfl⟩)
  · exact .inr (.inl ⟨by rw [hbackslash]; decide, '\\', by decide, rfl⟩)
  · exact .inr (.inl ⟨by rw [hline]; decide, 'n', by decide, rfl⟩)
  · exact .inr (.inl ⟨by rw [hreturn]; decide, 'r', by decide, rfl⟩)
  · exact .inr (.inl ⟨by rw [htab]; decide, 't', by decide, rfl⟩)
  · exact .inr (.inl ⟨by rw [hback]; decide, 'b', by decide, rfl⟩)
  · exact .inr (.inl ⟨by rw [hfeed]; decide, 'f', by decide, rfl⟩)
  · refine .inl ⟨?_, rfl⟩
    simp [writtenByCode, hcontrol, hline, hreturn, htab, hback, hfeed]
  · refine .inr (.inr ⟨?_, hbackslash, rfl⟩)
    simp [writtenByCode, hcontrol]

theorem hexDigit_ne_backslash {n : Nat} (h : n < 16) : Text.hexDigit n ≠ '\\' := by
  revert n
  decide

theorem even_backslashes_escapeChar {front : List Char} (h : Even (backslashes front)) (c : Char) :
    Even (backslashes (front ++ escapeChar c)) := by
  rcases escapeChar_eq_or c with ⟨-, hcode⟩ | ⟨-, letter, -, hpair⟩ | ⟨-, hplain, hself⟩
  · -- the last digit is no backslash
    have hlast : front ++ escapeChar c =
        front ++ '\\' :: 'u' :: Text.hexFixed 3 (c.toNat / 16) ++ [Text.hexDigit (c.toNat % 16)] := by
      rw [hcode, Text.hexFixed]
      simp
    rw [hlast, backslashes_append_of_ne _ (hexDigit_ne_backslash (Nat.mod_lt _ (by decide)))]
    exact Even.zero
  · rw [hpair]
    exact even_backslashes_pair h letter
  · rw [hself, backslashes_append_of_ne front hplain]
    exact Even.zero

theorem not_startsEscape_of_ne {c : Char} (h : c ≠ '\\') (rest : List Char) :
    ¬StartsEscape (c :: rest) := by
  rintro ⟨digits, more, hcons, -⟩
  exact h (List.cons.inj hcons).1

theorem not_startsEscape_pair {c : Char} (h : c ≠ 'u') (rest : List Char) :
    ¬StartsEscape ('\\' :: c :: rest) := by
  rintro ⟨digits, more, hcons, -⟩
  exact h (List.cons.inj (List.cons.inj hcons).2).1

theorem startsEscape_of_code (c : Char) (rest : List Char) :
    StartsEscape ('\\' :: 'u' :: (Text.hexFixed 4 c.toNat ++ rest)) := by
  refine ⟨_, rest, rfl, Text.length_hexFixed 4 _, fun d hd => ?_⟩
  obtain ⟨k, hk, rfl⟩ := Text.exists_of_mem_hexFixed hd
  rw [Text.hexValue?_hexDigit hk]
  rfl

/-- Inside what is written for a character a unicode escape begins only at the beginning. -/
theorem opensEscape_escapeChar_iff {front : List Char} (hfront : Even (backslashes front)) {c : Char}
    {k : Nat} (hk : k < (escapeChar c).length) (rest : List Char) :
    Even (backslashes (front ++ (escapeChar c).take k)) ∧
        StartsEscape ((escapeChar c).drop k ++ rest) ↔
      writtenByCode c = true ∧ k = 0 := by
  rcases escapeChar_eq_or c with ⟨hwritten, hcode⟩ | ⟨hwritten, letter, hletter, hpair⟩ |
    ⟨hwritten, hplain, hself⟩
  · rw [hcode] at hk ⊢
    cases k with
    | zero => simpa [hwritten, hfront] using startsEscape_of_code c rest
    | succ k =>
      -- neither the marker nor a digit is a backslash
      have hmem : ∀ d ∈ ('u' :: Text.hexFixed 4 c.toNat).drop k, d ≠ '\\' := by
        intro d hd
        rcases List.mem_cons.mp (List.mem_of_mem_drop hd) with rfl | hdigit
        · decide
        · obtain ⟨n, hn, rfl⟩ := Text.exists_of_mem_hexFixed hdigit
          exact hexDigit_ne_backslash hn
      obtain ⟨d, more, hdrop⟩ : ∃ d more, ('u' :: Text.hexFixed 4 c.toNat).drop k = d :: more := by
        apply List.exists_cons_of_ne_nil
        rw [Ne, List.drop_eq_nil_iff]
        simp only [List.length_cons] at hk ⊢
        omega
      have hd : d ≠ '\\' := hmem d (by rw [hdrop]; exact List.mem_cons_self)
      rw [List.drop_succ_cons, hdrop, List.cons_append]
      simp [not_startsEscape_of_ne hd]
  · rw [hpair] at hk ⊢
    rw [hwritten]
    match k with
    | 0 => simp [not_startsEscape_pair hletter]
    | 1 =>
      show Even (backslashes (front ++ ['\\'])) ∧ StartsEscape (letter :: rest) ↔ _
      rw [backslashes_append_backslash]
      have hodd : ¬Even (backslashes front + 1) := Nat.not_even_iff_odd.mpr hfront.add_one
      simp [hodd]
    | k + 2 =>
      simp only [List.length_cons, List.length_nil] at hk
      omega
  · rw [hself] at hk ⊢
    obtain rfl : k = 0 := by
      simp only [List.length_cons, List.length_nil] at hk
      omega
    simp [hwritten, not_startsEscape_of_ne hplain]

theorem escapeChars_cons (c : Char) (s : List Char) :
    escapeChars (c :: s) = escapeChar c ++ escapeChars s := by
  rfl

theorem escapeChar_length_pos (c : Char) : 0 < (escapeChar c).length := by
  rcases escapeChar_eq_or c with ⟨-, h⟩ | ⟨-, letter, -, h⟩ | ⟨-, -, h⟩ <;> simp [h]

/-- The unicode escapes in what is written for a text are those written for characters by their code. -/
theorem opensEscape_escapeChars_iff (s : List Char) {front : List Char}
    (hfront : Even (backslashes front)) (k : Nat) :
    Even (backslashes (front ++ (escapeChars s ++ ['"']).take k)) ∧
        StartsEscape ((escapeChars s ++ ['"']).drop k) ↔
      ∃ before c after, s = before ++ c :: after ∧ writtenByCode c = true ∧
        k = (escapeChars before).length := by
  induction s generalizing front k with
  | nil =>
    have hnone : ¬StartsEscape ((escapeChars [] ++ ['"']).drop k) := by
      cases k with
      | zero => exact not_startsEscape_of_ne (by decide) []
      | succ k =>
        rintro ⟨digits, more, hdrop, -⟩
        simp [escapeChars] at hdrop
    simp [hnone]
  | cons c s ih =>
    rw [escapeChars_cons, List.append_assoc]
    have hpos := escapeChar_length_pos c
    by_cases hk : k < (escapeChar c).length
    · rw [List.take_append_of_le_length (by omega), List.drop_append_of_le_length (by omega),
        opensEscape_escapeChar_iff hfront hk]
      constructor
      · rintro ⟨hwritten, rfl⟩
        exact ⟨[], c, s, rfl, hwritten, rfl⟩
      · rintro ⟨before, d, after, hsplit, hwritten, hlength⟩
        cases before with
        | nil =>
          obtain ⟨rfl, -⟩ := List.cons.inj hsplit
          exact ⟨hwritten, hlength⟩
        | cons b before =>
          obtain ⟨rfl, -⟩ := List.cons.inj hsplit
          rw [escapeChars_cons, List.length_append] at hlength
          omega
    · obtain ⟨j, rfl⟩ := Nat.exists_eq_add_of_le (Nat.le_of_not_lt hk)
      have hnext := ih (even_backslashes_escapeChar hfront c) j
      rw [List.append_assoc] at hnext
      rw [List.take_length_add_append, List.drop_length_add_append, hnext]
      constructor
      · rintro ⟨before, d, after, rfl, hwritten, rfl⟩
        exact ⟨c :: before, d, after, rfl, hwritten, by rw [escapeChars_cons, List.length_append]⟩
      · rintro ⟨before, d, after, hsplit, hwritten, hlength⟩
        cases before with
        | nil =>
          simp only [escapeChars, List.flatMap_nil, List.length_nil] at hlength
          omega
        | cons b before =>
          obtain ⟨rfl, rfl⟩ := List.cons.inj hsplit
          rw [escapeChars_cons, List.length_append] at hlength
          exact ⟨before, d, after, rfl, hwritten, by omega⟩

/-! ### Literals -/

/-- The first phase of a literal in front of other source text. -/
theorem exists_translate?_literal (s : String) (rest : List Char) :
    ∃ body, Enclosed body ∧
      translate? ((literal s).toList ++ rest) =
        (translate? rest).map (fun after => '"' :: body ++ '"' :: after) ∧
      ∀ after, quoted? ('"' :: body ++ '"' :: after) = some (s.toList, after) := by
  obtain ⟨body, hbody, htranslate, hquoted⟩ :=
    translate?_of_readBody? (readBody?_escapeChars s.toList rest)
  refine ⟨body, hbody, ?_, hquoted⟩
  have hsource : (literal s).toList ++ rest = '"' :: (escapeChars s.toList ++ '"' :: rest) := by
    rw [toList_literal]
    simp
  rw [hsource, translate?, translateFrom?_plain (by decide)]
  rw [translate?] at htranslate
  rw [htranslate, Option.map_map]
  rfl

/-- In two phases a literal is read as its text, whatever follows it. -/
theorem quoted?_translate?_literal (s : String) (rest : List Char) :
    (translate? ((literal s).toList ++ rest)).bind quoted? =
      (translate? rest).map fun after => (s.toList, after) := by
  obtain ⟨body, -, htranslate, hquoted⟩ := exists_translate?_literal s rest
  rw [htranslate]
  cases translate? rest with
  | none => rfl
  | some after => exact hquoted after

theorem opensEscape_literal_iff (s : String) (i : Nat) :
    OpensEscape (literal s).toList i ↔
      ∃ before c after, s.toList = before ++ c :: after ∧ writtenByCode c = true ∧
        i = (escapeChars before).length + 1 := by
  have hsource : (literal s).toList = '"' :: (escapeChars s.toList ++ ['"']) := toList_literal s
  rw [OpensEscape, hsource]
  cases i with
  | zero =>
    have hquote : ¬StartsEscape (('"' :: (escapeChars s.toList ++ ['"'])).drop 0) :=
      not_startsEscape_of_ne (by decide) _
    apply iff_of_false
    · exact fun hopens => hquote hopens.2
    · rintro ⟨before, c, after, -, -, hlength⟩
      omega
  | succ k =>
    have hfront : Even (backslashes ['"']) := by
      decide
    have hbody := opensEscape_escapeChars_iff s.toList hfront k
    simpa using hbody

/-- **A literal denotes its text.** The first phase leaves a text between two quotes in which no line
ends and every quote comes after an odd number of backslashes. The second phase reads it as the text
that it was written for, and goes on with what follows the literal. The unicode escapes of the literal
are those written for control characters, so none comes of the backslashes of the text. Different texts
have different literals. -/
theorem literal_denotes (s : String) :
    (∃ body, translate? (literal s).toList = some ('"' :: body ++ ['"']) ∧
      '\n' ∉ body ∧ '\r' ∉ body ∧
      ∀ i, body[i]? = some '"' → Odd (backslashes (body.take i))) ∧
    (∀ rest, (translate? ((literal s).toList ++ rest)).bind quoted? =
      (translate? rest).map fun after => (s.toList, after)) ∧
    (∀ i, OpensEscape (literal s).toList i ↔
      ∃ before c after, s.toList = before ++ c :: after ∧ writtenByCode c = true ∧
        i = (escapeChars before).length + 1) ∧
    ∀ s', literal s = literal s' ↔ s = s' := by
  refine ⟨?_, quoted?_translate?_literal s, opensEscape_literal_iff s, fun s' => ⟨fun h => ?_, ?_⟩⟩
  · obtain ⟨body, hbody, htranslate, -⟩ := exists_translate?_literal s []
    rw [List.append_nil] at htranslate
    obtain ⟨hline, hreturn⟩ := hbody.lineEnd_not_mem
    refine ⟨body, htranslate, hline, hreturn, fun i hquote => ?_⟩
    have hempty : Even (backslashes []) := by
      decide
    exact hbody.odd_of_quote hempty hquote
  · have hread := quoted?_translate?_literal s []
    rw [h, quoted?_translate?_literal s' []] at hread
    have hsame : s'.toList = s.toList := congrArg Prod.fst (Option.some.inj hread)
    exact (String.toList_inj.mp hsame).symm
  · rintro rfl
    rfl

/-- A backslash, a `u` and hex digits stay what they are, and a control character after them is still
written by its code. -/
example : (literal "\\u0041\x01").toList = "\"\\\\u0041\\u0001\"".toList ∧
    (translate? (literal "\\u0041\x01").toList).bind quoted? = some ("\\u0041\x01".toList, []) := by
  decide

end ContractForge.Java
