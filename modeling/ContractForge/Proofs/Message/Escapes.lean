import ContractForge.Message.Properties

/-!
# Texts written with escapes

`Properties.Shielded raw` says that `raw` is made of plain characters and of others after a backslash.
The passes of the reader go over the same characters one after another, and leave such a text whole:
the lines are not cut inside it, it has no separator, and its last line does not continue.

`Properties.Escapes raw text` says that such a `raw` is a way to write `text`: it is decoded to `text`.
`Properties.escape` is the way that escapes no more than it must.
-/

namespace ContractForge.Properties

/-- The character stands for itself wherever it stands. -/
def isPlain (c : Char) : Bool :=
  !(Text.isBlank c || ['\\', '=', ':', '#', '!'].contains c)

/-- A text in which a backslash stands before every character that is not plain. -/
inductive Shielded : List Char → Prop
  | nil : Shielded []
  | plain {c : Char} {raw : List Char} (hplain : isPlain c = true) (h : Shielded raw) :
      Shielded (c :: raw)
  | pair {c : Char} {raw : List Char} (hlf : c ≠ '\n') (hcr : c ≠ '\r') (h : Shielded raw) :
      Shielded ('\\' :: c :: raw)

/-- An escaped text and the text it stands for. -/
inductive Escapes : List Char → List Char → Prop
  | nil : Escapes [] []
  | plain {c : Char} {raw text : List Char} (hplain : isPlain c = true) (h : Escapes raw text) :
      Escapes (c :: raw) (c :: text)
  | pair {c : Char} {raw text : List Char} (hu : c ≠ 'u') (hlf : c ≠ '\n') (hcr : c ≠ '\r')
      (h : Escapes raw text) : Escapes ('\\' :: c :: raw) (unescapeChar c :: text)

/-- A character as it is written in a key or a value. -/
def escapeChar (c : Char) : List Char :=
  if c = '\t' then ['\\', 't']
  else if c = '\n' then ['\\', 'n']
  else if c = '\r' then ['\\', 'r']
  else if c = '\x0c' then ['\\', 'f']
  else if Text.isBlank c || ['\\', '=', ':', '#', '!'].contains c then ['\\', c]
  else [c]

/-- A text as it is written in a key or a value. -/
def escape (text : List Char) : List Char :=
  text.flatMap escapeChar

theorem isPlain_iff {c : Char} :
    isPlain c = true ↔ Text.isBlank c = false ∧ c ≠ '\\' ∧ c ≠ '=' ∧ c ≠ ':' ∧ c ≠ '#' ∧ c ≠ '!' := by
  simp [isPlain]

theorem unescapeChar_of_ne {c : Char} (ht : c ≠ 't') (hn : c ≠ 'n') (hr : c ≠ 'r') (hf : c ≠ 'f') :
    unescapeChar c = c := by
  unfold unescapeChar
  rw [if_neg ht, if_neg hn, if_neg hr, if_neg hf]

/-- Whatever is to be written, `escape` is a way to write it. -/
theorem escapes_escape (text : List Char) : Escapes (escape text) text := by
  induction text with
  | nil => exact .nil
  | cons c text ih =>
    show Escapes (escapeChar c ++ escape text) (c :: text)
    unfold escapeChar
    by_cases ht : c = '\t'
    · subst ht
      exact .pair (by decide) (by decide) (by decide) ih
    by_cases hn : c = '\n'
    · subst hn
      exact .pair (c := 'n') (by decide) (by decide) (by decide) ih
    by_cases hr : c = '\r'
    · subst hr
      exact .pair (c := 'r') (by decide) (by decide) (by decide) ih
    by_cases hf : c = '\x0c'
    · subst hf
      exact .pair (c := 'f') (by decide) (by decide) (by decide) ih
    rw [if_neg ht, if_neg hn, if_neg hr, if_neg hf]
    by_cases hsign : (Text.isBlank c || ['\\', '=', ':', '#', '!'].contains c) = true
    · rw [if_pos hsign]
      -- no letter is escaped, so the character after the backslash stands for itself
      have hletter : ∀ d : Char, isPlain d = true → c ≠ d := by
        rintro d hd rfl
        simp_all [isPlain]
      have hself : unescapeChar c = c :=
        unescapeChar_of_ne (hletter 't' (by decide)) (hletter 'n' (by decide))
          (hletter 'r' (by decide)) (hletter 'f' (by decide))
      have h := Escapes.pair (hletter 'u' (by decide)) hn hr ih
      rwa [hself] at h
    · rw [if_neg hsign]
      refine .plain ?_ ih
      simpa [isPlain] using hsign

theorem Escapes.shielded {raw text : List Char} (h : Escapes raw text) : Shielded raw := by
  induction h with
  | nil => exact .nil
  | plain hplain _ ih => exact .plain hplain ih
  | pair _ hlf hcr _ ih => exact .pair hlf hcr ih

theorem Shielded.append {raw more : List Char} (h : Shielded raw) (hmore : Shielded more) :
    Shielded (raw ++ more) := by
  induction h with
  | nil => exact hmore
  | plain hplain _ ih => exact .plain hplain ih
  | pair hlf hcr _ ih => exact .pair hlf hcr ih

theorem shielded_of_plain {raw : List Char} (h : ∀ c ∈ raw, isPlain c = true) : Shielded raw := by
  induction raw with
  | nil => exact .nil
  | cons c rest ih =>
    exact .plain (h c List.mem_cons_self) (ih fun d hd => h d (List.mem_cons_of_mem _ hd))

theorem shielded_flatMap {α : Type} {xs : List α} {f : α → List Char}
    (h : ∀ x ∈ xs, Shielded (f x)) : Shielded (xs.flatMap f) := by
  induction xs with
  | nil => exact .nil
  | cons x rest ih =>
    rw [List.flatMap_cons]
    exact (h x List.mem_cons_self).append (ih fun y hy => h y (List.mem_cons_of_mem _ hy))

/-! ### Decoding -/

theorem unescape_cons {c : Char} (hc : c ≠ '\\') (rest : List Char) :
    unescape (c :: rest) = c :: unescape rest := by
  rw [unescape]
  all_goals simp_all

theorem unescape_pair {c : Char} (hu : c ≠ 'u') (rest : List Char) :
    unescape ('\\' :: c :: rest) = unescapeChar c :: unescape rest := by
  rw [unescape]
  simpa using hu

/-- A unicode escape takes the next four characters. -/
theorem unescape_unicode {digits : List Char} (hlength : digits.length = 4) (rest : List Char) :
    unescape ('\\' :: 'u' :: (digits ++ rest)) = decodeHex digits ++ unescape rest := by
  rw [unescape, List.take_left' hlength, List.drop_left' hlength]

/-- An escaped text is decoded to the text it stands for. -/
theorem Escapes.unescape_eq {raw text : List Char} (h : Escapes raw text) : unescape raw = text := by
  induction h with
  | nil => rw [unescape]
  | plain hplain _ ih => rw [unescape_cons (isPlain_iff.mp hplain).2.1, ih]
  | pair hu _ _ _ ih => rw [unescape_pair hu, ih]

/-! ### The end of the key -/

theorem splitKey_separator {c : Char} (hc : c ≠ '\\')
    (hsep : (c = '=' || c = ':' || Text.isBlank c) = true) (rest : List Char) :
    splitKey (c :: rest) = ([], c :: rest) := by
  rw [splitKey, if_pos hsep]
  all_goals simp_all

theorem splitKey_cons {c : Char} (hc : isPlain c = true) (rest : List Char) :
    splitKey (c :: rest) = (c :: (splitKey rest).1, (splitKey rest).2) := by
  obtain ⟨hblank, hslash, heq, hcolon, -, -⟩ := isPlain_iff.mp hc
  rw [splitKey, if_neg (by simp [hblank, heq, hcolon])]
  all_goals simp_all

/-- The separator after a shielded key is the first one. -/
theorem Shielded.splitKey_append {raw : List Char} (h : Shielded raw) (rest : List Char) :
    splitKey (raw ++ '=' :: rest) = (raw, '=' :: rest) := by
  induction h with
  | nil => exact splitKey_separator (by decide) (by decide) rest
  | plain hplain _ ih => rw [List.cons_append, splitKey_cons hplain, ih]
  | pair _ _ _ ih => rw [List.cons_append, List.cons_append, splitKey, ih]

/-! ### The end of the line -/

/-- An even number of backslashes before a text makes no difference to it. -/
theorem continues_append {front : List Char} (h : continues front = false) (back : List Char) :
    continues (front ++ back) = continues back := by
  unfold continues at h ⊢
  rw [List.reverse_append, List.takeWhile_append]
  split
  next hall =>
    rw [List.length_append, hall]
    simp only [decide_eq_false_iff_not] at h
    exact decide_eq_decide.mpr (by omega)
  next => rfl

theorem continues_append_cons {c : Char} (hc : c ≠ '\\') (before after : List Char) :
    continues (before ++ c :: after) = continues after := by
  have hend : continues (before ++ [c]) = false := by
    unfold continues
    rw [List.reverse_append, List.reverse_singleton, List.singleton_append,
      List.takeWhile_cons_of_neg (by simpa using hc)]
    rfl
  rw [← continues_append hend after, List.append_assoc, List.singleton_append]

/-- The backslashes at the end of a shielded text come in pairs. -/
theorem Shielded.continues_eq {raw : List Char} (h : Shielded raw) : continues raw = false := by
  induction h with
  | nil => rfl
  | plain hplain _ ih =>
    exact (continues_append_cons (isPlain_iff.mp hplain).2.1 [] _).trans ih
  | @pair c raw _ _ _ ih =>
    by_cases hc : c = '\\'
    · subst hc
      have hpair : continues ['\\', '\\'] = false := by decide
      exact (continues_append hpair raw).trans ih
    · exact (continues_append_cons hc ['\\'] raw).trans ih

/-- A shielded text stays within its line. -/
theorem Shielded.break_not_mem {raw : List Char} (h : Shielded raw) : '\n' ∉ raw ∧ '\r' ∉ raw := by
  induction h with
  | nil => simp
  | @plain c raw hplain _ ih =>
    have hbreak : ∀ d : Char, Text.isBlank d = true → d ≠ c := by
      rintro d hd rfl
      exact absurd hd (by rw [(isPlain_iff.mp hplain).1]; decide)
    rw [List.mem_cons, List.mem_cons, not_or, not_or]
    exact ⟨⟨hbreak '\n' (by decide), ih.1⟩, ⟨hbreak '\r' (by decide), ih.2⟩⟩
  | pair hlf hcr _ ih => simp [hlf.symm, hcr.symm, ih.1, ih.2]

/-! ### The beginning of the line -/

theorem trimStart_cons {c : Char} (hc : Text.isBlank c = false) (rest : List Char) :
    Text.trimStart (c :: rest) = c :: rest := by
  simp [Text.trimStart, hc]

/-- A shielded text begins with a backslash or a plain character. -/
theorem Shielded.head {raw : List Char} (h : Shielded raw) :
    raw = [] ∨ ∃ c rest, raw = c :: rest ∧ Text.isBlank c = false ∧ c ≠ '#' ∧ c ≠ '!' := by
  cases h with
  | nil => exact .inl rfl
  | plain hplain _ =>
    obtain ⟨hblank, -, -, -, hhash, hbang⟩ := isPlain_iff.mp hplain
    exact .inr ⟨_, _, rfl, hblank, hhash, hbang⟩
  | pair => exact .inr ⟨_, _, rfl, by decide, by decide, by decide⟩

theorem Shielded.trimStart_eq {raw : List Char} (h : Shielded raw) : Text.trimStart raw = raw := by
  obtain rfl | ⟨c, rest, rfl, hblank, -, -⟩ := h.head
  · rfl
  · exact trimStart_cons hblank rest

end ContractForge.Properties
