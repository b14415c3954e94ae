import ContractForge.Proofs.Message.Escapes
import Mathlib.Data.String.Basic

/-!
# Listings of entries

* `Properties.Listing pairs text` : the text lists the pairs, one `key=value` on a line, with blank
  and comment lines anywhere between them.
* `Properties.LastValue` : what a list of pairs binds to a key.

`parse_listing` : reading a listing gives what was listed, and nothing else.
-/

namespace ContractForge.Properties

/-- What a line may end with. -/
def lineBreaks : List (List Char) :=
  [['\n'], ['\r', '\n']]

/-- A line without an entry. A comment may hold any text, a backslash at its end included. -/
inductive Filler : List Char → Prop
  | blank {blanks : List Char} (hblanks : ∀ c ∈ blanks, Text.isBlank c = true)
      (hline : '\n' ∉ blanks) : Filler blanks
  | comment {blanks text : List Char} {sign : Char} (hblanks : ∀ c ∈ blanks, Text.isBlank c = true)
      (hsign : sign = '#' ∨ sign = '!') (hline : '\n' ∉ blanks ++ sign :: text) :
      Filler (blanks ++ sign :: text)

/-- A text that lists pairs in order. -/
inductive Listing : List (String × String) → List Char → Prop
  | nil : Listing [] []
  | filler {line lineBreak text : List Char} {pairs : List (String × String)} (hline : Filler line)
      (hbreak : lineBreak ∈ lineBreaks) (hrest : Listing pairs text) :
      Listing pairs (line ++ lineBreak ++ text)
  | entry {lineBreak text : List Char} {pairs : List (String × String)} (key value : String)
      (hbreak : lineBreak ∈ lineBreaks) (hrest : Listing pairs text) :
      Listing ((key, value) :: pairs)
        (escape key.toList ++ '=' :: escape value.toList ++ lineBreak ++ text)

/-- The last pair of the key has the value. -/
def LastValue (pairs : List (String × String)) (key value : String) : Prop :=
  ∃ before after, pairs = before ++ (key, value) :: after ∧ key ∉ after.map (·.1)

/-! ### Lines -/

theorem lines_cons {c : Char} {text line : List Char} {further : List (List Char)}
    (hc : c ≠ '\n') (hcr : c = '\r' → text.head? ≠ some '\n') (h : lines text = line :: further) :
    lines (c :: text) = (c :: line) :: further := by
  rw [lines, h]
  · exact hc
  · rintro rest rfl rfl
    exact hcr rfl rfl

theorem lines_append_crlf {line : List Char} (hline : '\n' ∉ line) (rest : List Char) :
    lines (line ++ '\r' :: '\n' :: rest) = line :: lines rest := by
  induction line with
  | nil => rw [List.nil_append, lines]
  | cons c line ih =>
    obtain ⟨hc, hline⟩ := not_or.mp (mt List.mem_cons.mpr hline)
    refine lines_cons (Ne.symm hc) (fun _ hhead => ?_) (ih hline)
    cases line with
    | nil => cases hhead
    | cons d line =>
      cases hhead
      exact hline List.mem_cons_self

theorem lines_append_lf {line : List Char} (hline : '\n' ∉ line) (hcr : line.getLast? ≠ some '\r')
    (rest : List Char) : lines (line ++ '\n' :: rest) = line :: lines rest := by
  induction line with
  | nil => rw [List.nil_append, lines]
  | cons c line ih =>
    obtain ⟨hc, hline⟩ := not_or.mp (mt List.mem_cons.mpr hline)
    cases line with
    | nil =>
      refine lines_cons (Ne.symm hc) ?_ (ih hline (by simp))
      rintro rfl
      exact absurd rfl hcr
    | cons d line =>
      rw [List.getLast?_cons_cons] at hcr
      refine lines_cons (Ne.symm hc) (fun _ hhead => ?_) (ih hline hcr)
      cases hhead
      exact hline List.mem_cons_self

/-- A line without breaks in it is read as it is written. -/
theorem lines_append_break {line lineBreak : List Char} (hlf : '\n' ∉ line) (hcr : '\r' ∉ line)
    (hbreak : lineBreak ∈ lineBreaks) (rest : List Char) :
    lines (line ++ lineBreak ++ rest) = line :: lines rest := by
  rw [List.append_assoc]
  rcases List.mem_cons.mp hbreak with rfl | hbreak
  · exact lines_append_lf hlf (fun hlast => hcr (List.mem_of_getLast? hlast)) rest
  · obtain rfl := List.mem_singleton.mp hbreak
    exact lines_append_crlf hlf rest

/-! ### Lines without entries -/

theorem trimStart_blanks {blanks : List Char} (h : ∀ c ∈ blanks, Text.isBlank c = true)
    (rest : List Char) : Text.trimStart (blanks ++ rest) = Text.trimStart rest :=
  List.dropWhile_append_of_pos h

theorem Filler.isIgnored {line : List Char} (h : Filler line) : isIgnored line = true := by
  cases h with
  | blank hblanks =>
    have htrim := trimStart_blanks hblanks []
    rw [List.append_nil] at htrim
    rw [Properties.isIgnored, htrim]
    rfl
  | @comment blanks text sign hblanks hsign =>
    have hblank : Text.isBlank sign = false := by
      rcases hsign with rfl | rfl <;> decide
    rw [Properties.isIgnored, trimStart_blanks hblanks, trimStart_cons hblank]
    simpa using hsign

theorem Filler.newline_not_mem {line : List Char} (h : Filler line) : '\n' ∉ line := by
  cases h with
  | blank _ hline => exact hline
  | comment _ _ hline => exact hline

/-- A carriage return at the end of a line does not tell whether it holds an entry. -/
theorem isIgnored_append_cr (line : List Char) : isIgnored (line ++ ['\r']) = isIgnored line := by
  have htrim : Text.trimStart (line ++ ['\r']) =
      if (Text.trimStart line).isEmpty then [] else Text.trimStart line ++ ['\r'] :=
    List.dropWhile_append
  unfold isIgnored
  rw [htrim]
  cases Text.trimStart line with
  | nil => rfl
  | cons c rest => rfl

/-- A filler is read as one line, which is ignored. -/
theorem Filler.lines_append {line lineBreak : List Char} (h : Filler line)
    (hbreak : lineBreak ∈ lineBreaks) (rest : List Char) :
    ∃ read, lines (line ++ lineBreak ++ rest) = read :: lines rest ∧
      Properties.isIgnored read = true := by
  have hlf := h.newline_not_mem
  rw [List.append_assoc]
  rcases List.mem_cons.mp hbreak with rfl | hbreak
  · by_cases hcr : line.getLast? = some '\r'
    · -- the carriage return that ends the filler is taken for a part of the line break
      obtain ⟨shorter, rfl⟩ := List.getLast?_eq_some_iff.mp hcr
      have hshorter : '\n' ∉ shorter := fun hmem => hlf (List.mem_append_left _ hmem)
      refine ⟨shorter, ?_, ?_⟩
      · rw [List.append_assoc]
        exact lines_append_crlf hshorter rest
      · rw [← isIgnored_append_cr]
        exact h.isIgnored
    · exact ⟨line, lines_append_lf hlf hcr rest, h.isIgnored⟩
  · obtain rfl := List.mem_singleton.mp hbreak
    exact ⟨line, lines_append_crlf hlf rest, h.isIgnored⟩

/-! ### Lines with entries -/

theorem joinContinued_of_complete {line : List Char} (h : continues line = false)
    (rest : List (List Char)) : joinContinued line rest = (line, rest) := by
  cases rest <;> simp [joinContinued, h]

theorem logicalLines_ignored {line : List Char} (h : isIgnored line = true)
    (rest : List (List Char)) : logicalLines (line :: rest) = logicalLines rest := by
  rw [logicalLines, if_pos h]

theorem logicalLines_complete {line : List Char} (hentry : isIgnored line = false)
    (htrim : Text.trimStart line = line) (hcomplete : continues line = false)
    (rest : List (List Char)) : logicalLines (line :: rest) = line :: logicalLines rest := by
  rw [logicalLines, if_neg (by simp [hentry]), htrim, joinContinued_of_complete hcomplete]

/-- What follows the key is the separator and a value that begins without a blank. -/
theorem splitEntry_shielded {rawKey rawValue : List Char} (hkey : Shielded rawKey)
    (hvalue : Shielded rawValue) :
    splitEntry (rawKey ++ '=' :: rawValue) = (rawKey, rawValue) := by
  have hdrop : dropSeparator ('=' :: rawValue) = rawValue := by
    rw [dropSeparator, trimStart_cons (by decide)]
    exact hvalue.trimStart_eq
  rw [splitEntry, hkey.splitKey_append, hdrop]

/-- A line made of a shielded key and a shielded value is one entry. -/
theorem logicalLines_entry {rawKey rawValue : List Char} (hkey : Shielded rawKey)
    (hvalue : Shielded rawValue) (rest : List (List Char)) :
    logicalLines ((rawKey ++ '=' :: rawValue) :: rest) =
      (rawKey ++ '=' :: rawValue) :: logicalLines rest := by
  have hcomplete : continues (rawKey ++ '=' :: rawValue) = false := by
    rw [continues_append_cons (by decide), hvalue.continues_eq]
  -- the line begins with the key, or with the separator where the key is empty
  obtain ⟨c, tail, hline, hblank, hhash, hbang⟩ : ∃ c tail, rawKey ++ '=' :: rawValue = c :: tail ∧
      Text.isBlank c = false ∧ c ≠ '#' ∧ c ≠ '!' := by
    obtain rfl | ⟨c, tail, rfl, hblank, hhash, hbang⟩ := hkey.head
    · exact ⟨'=', rawValue, rfl, by decide, by decide, by decide⟩
    · exact ⟨c, tail ++ '=' :: rawValue, rfl, hblank, hhash, hbang⟩
  have htrim := trimStart_cons hblank tail
  have hentry : isIgnored (c :: tail) = false := by
    simp [isIgnored, htrim, hhash, hbang]
  rw [hline] at hcomplete ⊢
  exact logicalLines_complete hentry htrim hcomplete rest

/-- A filler has no entry. -/
theorem entries_filler {line lineBreak : List Char} (hline : Filler line)
    (hbreak : lineBreak ∈ lineBreaks) (text : List Char) :
    entries (line ++ lineBreak ++ text) = entries text := by
  obtain ⟨read, hread, hignored⟩ := hline.lines_append hbreak text
  rw [entries, hread, logicalLines_ignored hignored]
  rfl

/-- A line made of a shielded key and a shielded value is read as the texts these are decoded to. -/
theorem entries_entry {rawKey rawValue lineBreak : List Char} (hkey : Shielded rawKey)
    (hvalue : Shielded rawValue) (hbreak : lineBreak ∈ lineBreaks) (text : List Char) :
    entries (rawKey ++ '=' :: rawValue ++ lineBreak ++ text) =
      (String.ofList (unescape rawKey), String.ofList (unescape rawValue)) :: entries text := by
  have hbreaks : ∀ c, c = '\n' ∨ c = '\r' → c ∉ rawKey ++ '=' :: rawValue := by
    have hkeyBreak := hkey.break_not_mem
    have hvalueBreak := hvalue.break_not_mem
    rintro c (rfl | rfl)
    · simp [hkeyBreak.1, hvalueBreak.1]
    · simp [hkeyBreak.2, hvalueBreak.2]
  have hlines := lines_append_break (hbreaks '\n' (.inl rfl)) (hbreaks '\r' (.inr rfl)) hbreak text
  rw [entries, hlines, logicalLines_entry hkey hvalue, List.map_cons, entry,
    splitEntry_shielded hkey hvalue]
  rfl

/-- The entries of a listing are the pairs listed. -/
theorem entries_listing {pairs : List (String × String)} {text : List Char}
    (h : Listing pairs text) : entries text = pairs := by
  induction h with
  | nil => rw [entries, lines, logicalLines, List.map_nil]
  | filler hline hbreak _ ih => rw [entries_filler hline hbreak, ih]
  | entry key value hbreak _ ih =>
    have hkey := escapes_escape key.toList
    have hvalue := escapes_escape value.toList
    rw [entries_entry hkey.shielded hvalue.shielded hbreak, hkey.unescape_eq, hvalue.unescape_eq,
      String.ofList_toList, String.ofList_toList, ih]

/-! ### Bindings -/

/-- The keys are in increasing order, so that each is bound once. -/
def Sorted (p : Properties) : Prop :=
  (p.bindings.map (·.1)).Pairwise (· < ·)

theorem mem_insertBinding {key value : String} {bindings : List (String × String)}
    {x : String × String} (h : x ∈ insertBinding key value bindings) :
    x = (key, value) ∨ x ∈ bindings := by
  induction bindings with
  | nil => simpa [insertBinding] using h
  | cons y rest ih =>
    rw [insertBinding] at h
    split at h
    next =>
      rcases List.mem_cons.mp h with rfl | hrest
      · exact .inl rfl
      · exact .inr (List.mem_cons_of_mem _ hrest)
    next =>
      split at h
      next => simpa using h
      next =>
        rcases List.mem_cons.mp h with rfl | hrest
        · exact .inr List.mem_cons_self
        · exact (ih hrest).imp_right (List.mem_cons_of_mem _)

theorem Sorted.insert {p : Properties} (h : p.Sorted) (key value : String) :
    (p.insert key value).Sorted := by
  obtain ⟨bindings⟩ := p
  show ((insertBinding key value bindings).map (·.1)).Pairwise (· < ·)
  change (bindings.map (·.1)).Pairwise (· < ·) at h
  induction bindings with
  | nil => simp [insertBinding]
  | cons x rest ih =>
    obtain ⟨hx, hrest⟩ := List.pairwise_cons.mp h
    rw [insertBinding]
    split
    next heq =>
      subst heq
      exact List.pairwise_cons.mpr ⟨hx, hrest⟩
    next hne =>
      split
      next hlt =>
        refine List.pairwise_cons.mpr ⟨fun other hother => ?_, h⟩
        rcases List.mem_cons.mp hother with rfl | hother
        · exact hlt
        · exact lt_trans hlt (hx other hother)
      next hge =>
        refine List.pairwise_cons.mpr ⟨fun other hother => ?_, ih hrest⟩
        obtain ⟨y, hy, rfl⟩ := List.mem_map.mp hother
        rcases mem_insertBinding hy with rfl | hold
        · exact lt_of_le_of_ne (not_lt.mp hge) (Ne.symm hne)
        · exact hx _ (List.mem_map_of_mem hold)

theorem Sorted.foldl {p : Properties} (h : p.Sorted) (pairs : List (String × String)) :
    (pairs.foldl (fun p e => p.insert e.1 e.2) p).Sorted := by
  induction pairs generalizing p with
  | nil => exact h
  | cons e rest ih => exact ih (h.insert e.1 e.2)

theorem Sorted.mem_bindings_iff {p : Properties} (h : p.Sorted) {key value : String} :
    (key, value) ∈ p.bindings ↔ p.find? key = some value := by
  obtain ⟨bindings⟩ := p
  change (bindings.map (·.1)).Pairwise (· < ·) at h
  show (key, value) ∈ bindings ↔ (bindings.find? (·.1 == key)).map (·.2) = some value
  induction bindings with
  | nil => simp
  | cons x rest ih =>
    obtain ⟨hx, hrest⟩ := List.pairwise_cons.mp h
    rw [List.find?_cons, List.mem_cons]
    split
    next hkey =>
      obtain rfl : x.1 = key := by simpa using hkey
      have hnew : (x.1, value) ∉ rest := fun hmem =>
        lt_irrefl _ (hx _ (List.mem_map.mpr ⟨_, hmem, rfl⟩))
      rw [or_iff_left hnew, Prod.ext_iff]
      simp [eq_comm]
    next hkey =>
      have hne : (key, value) ≠ x := by
        rintro rfl
        simp at hkey
      rw [or_iff_right hne, ih hrest]

/-- A later pair of a key hides an earlier one, and what is not listed stays as it was. -/
theorem find?_foldl_insert (pairs : List (String × String)) (p : Properties) (key value : String) :
    (pairs.foldl (fun p e => p.insert e.1 e.2) p).find? key = some value ↔
      LastValue pairs key value ∨ key ∉ pairs.map (·.1) ∧ p.find? key = some value := by
  induction pairs generalizing p with
  | nil => simp [LastValue]
  | cons e rest ih =>
    obtain ⟨key', value'⟩ := e
    rw [List.foldl_cons, ih, find?_insert]
    have hlast : LastValue ((key', value') :: rest) key value ↔
        LastValue rest key value ∨ key ∉ rest.map (·.1) ∧ key = key' ∧ value = value' := by
      constructor
      · rintro ⟨before, after, hsplit, hnew⟩
        cases before with
        | nil =>
          obtain ⟨heq, rfl⟩ := List.cons.inj hsplit
          obtain ⟨rfl, rfl⟩ := Prod.mk.inj heq
          exact .inr ⟨hnew, rfl, rfl⟩
        | cons x before =>
          obtain ⟨-, rfl⟩ := List.cons.inj hsplit
          exact .inl ⟨before, after, rfl, hnew⟩
      · rintro (⟨before, after, rfl, hnew⟩ | ⟨hnew, rfl, rfl⟩)
        · exact ⟨(key', value') :: before, after, rfl, hnew⟩
        · exact ⟨[], rest, rfl, hnew⟩
    rw [hlast, List.map_cons, List.mem_cons]
    by_cases hkey : key = key'
    · simp [hkey, eq_comm]
    · simp [hkey]

theorem sorted_parse (text : String) : (parse text).Sorted :=
  Sorted.foldl (p := {}) List.Pairwise.nil _

/-- **Reading a properties file undoes writing it.** Whatever pairs a text lists, keys and values of
any characters, the bindings read from it are those of each key to its last value. -/
theorem parse_listing {pairs : List (String × String)} {text : String}
    (h : Listing pairs text.toList) :
    (parse text).Sorted ∧ ∀ key value,
      ((key, value) ∈ (parse text).bindings ↔ LastValue pairs key value) ∧
      ((parse text).find? key = some value ↔ LastValue pairs key value) := by
  have hfind : ∀ key value, (parse text).find? key = some value ↔ LastValue pairs key value := by
    intro key value
    rw [parse, entries_listing h, find?_foldl_insert]
    simp [find?]
  refine ⟨sorted_parse text, fun key value => ⟨?_, hfind key value⟩⟩
  rw [(sorted_parse text).mem_bindings_iff, hfind]

/-- A key that looks like a comment, listed twice, and an empty key with a line feed for a value. -/
def tangledPairs : List (String × String) :=
  [("#k =", "v\\"), ("", "\n"), ("#k =", " again")]

/-- The pairs between a comment that ends in a backslash and a blank line. -/
def tangledText : String :=
  "# no continuation \\\n\\#k\\ \\==v\\\\\r\n \t\r\n=\\n\n\\#k\\ \\==\\ again\n"

theorem parse_listing_tangled :
    Listing tangledPairs tangledText.toList ∧ (parse tangledText).Sorted ∧ ∀ key value,
      ((key, value) ∈ (parse tangledText).bindings ↔ LastValue tangledPairs key value) ∧
      ((parse tangledText).find? key = some value ↔ LastValue tangledPairs key value) := by
  have hblanks : ∀ c ∈ [' ', '\t'], Text.isBlank c = true :=
    List.forall_mem_cons.mpr ⟨by decide, List.forall_mem_singleton.mpr (by decide)⟩
  have hlisting : Listing tangledPairs
      ([] ++ '#' :: " no continuation \\".toList ++ ['\n'] ++
        (escape "#k =".toList ++ '=' :: escape "v\\".toList ++ ['\r', '\n'] ++
          ([' ', '\t'] ++ ['\r', '\n'] ++
            (escape "".toList ++ '=' :: escape "\n".toList ++ ['\n'] ++
              (escape "#k =".toList ++ '=' :: escape " again".toList ++ ['\n'] ++ []))))) :=
    .filler (.comment (List.forall_mem_nil _) (.inl rfl) (by decide +kernel)) (by decide) <|
      .entry _ _ (by decide) <| .filler (.blank hblanks (by decide)) (by decide) <|
        .entry _ _ (by decide) <| .entry _ _ (by decide) .nil
  have htext : Listing tangledPairs tangledText.toList := by
    convert hlisting using 1
    decide +kernel
  exact ⟨htext, parse_listing htext⟩

end ContractForge.Properties
