import ContractForge.Proofs.Message.Escapes
import Mathlib.Data.List.Basic

/-!
# Cutting entries at byte positions

Where the key of an entry ends is found as a position in bytes, and a text cannot be cut in the middle
of a character.

* `cutAt?` : the text before and after a position, if the position is between two characters.
* `keyEnd` : the position where the key ends, and whether a sign stands there.
* `parseAt?` : the bindings of a text whose entries are cut at these positions.

`parseAt?_eq` : no cut ever fails, and the parts are those of `splitEntry`.
-/

namespace ContractForge.Properties

/-- The text before and after a position in bytes. There is none inside of a character or behind the
end. -/
def cutAt? : Nat → List Char → Option (List Char × List Char)
  | 0, s => some ([], s)
  | _ + 1, [] => none
  | n + 1, c :: cs =>
    if c.utf8Size ≤ n + 1 then (cutAt? (n + 1 - c.utf8Size) cs).map fun p => (c :: p.1, p.2) else none

/-- How many bytes away the key ends, and whether it ends at a sign `=` or `:`. After a backslash the
next character is passed over. -/
def keyEnd : Bool → List Char → Nat × Bool
  | _, [] => (0, false)
  | true, c :: rest => ((keyEnd false rest).1 + c.utf8Size, (keyEnd false rest).2)
  | false, c :: rest =>
    if c = '\\' then ((keyEnd true rest).1 + c.utf8Size, (keyEnd true rest).2)
    else if c = '=' || c = ':' then (0, true)
    else if Text.isBlank c then (0, false)
    else ((keyEnd false rest).1 + c.utf8Size, (keyEnd false rest).2)

/-- Key and value of an entry, still escaped. The value is what follows the sign, or else what follows
a separator. -/
def splitEntryAt? (line : List Char) : Option (List Char × List Char) := do
  let (position, isSign) := keyEnd false line
  let (key, rest) ← cutAt? position line
  if isSign then
    let (_, value) ← cutAt? (position + 1) line
    return (key, Text.trimStart value)
  else
    return (key, dropSeparator rest)

/-- The bindings of a text, if no cut fails. -/
def parseAt? (text : String) : Option Properties := do
  let parts ← (logicalLines (lines text.toList)).mapM splitEntryAt?
  return parts.foldl
    (fun p e => p.insert (String.ofList (unescape e.1)) (String.ofList (unescape e.2))) {}

/-- A position behind a first character. -/
theorem cutAt?_cons (n : Nat) (c : Char) (cs : List Char) :
    cutAt? (n + c.utf8Size) (c :: cs) = (cutAt? n cs).map fun p => (c :: p.1, p.2) := by
  obtain ⟨m, hm⟩ : ∃ m, n + c.utf8Size = m + 1 :=
    Nat.exists_eq_add_one.mpr (by have := c.utf8Size_pos; omega)
  rw [hm, cutAt?, if_pos (by omega), ← hm, Nat.add_sub_cancel]

/-- A line is cut at a position, with or without a sign there. -/
structure CutsAt (line key rest : List Char) (position : Nat) (isSign : Bool) : Prop where
  cut : cutAt? position line = some (key, rest)
  /-- A sign takes one byte, so that the line can be cut behind it too. -/
  sign : isSign = true → ∃ c front value, (c = '=' ∨ c = ':') ∧ rest = c :: value ∧
    cutAt? (position + 1) line = some (front, value)

/-- One more character in front moves the position by its bytes. -/
theorem CutsAt.cons {line key rest : List Char} {position : Nat} {isSign : Bool}
    (h : CutsAt line key rest position isSign) (c : Char) :
    CutsAt (c :: line) (c :: key) rest (position + c.utf8Size) isSign := by
  constructor
  case cut => rw [cutAt?_cons, h.cut, Option.map_some]
  case sign =>
    intro hsign
    obtain ⟨sign, front, value, hchar, hrest, hcut⟩ := h.sign hsign
    refine ⟨sign, c :: front, value, hchar, hrest, ?_⟩
    rw [Nat.add_right_comm, cutAt?_cons, hcut, Option.map_some]

theorem ne_backslash {c : Char} {rest : List Char} (hlone : c = '\\' → rest = [] → False)
    (hpair : ∀ d tail, c = '\\' → rest = d :: tail → False) : c ≠ '\\' := by
  intro hc
  cases rest with
  | nil => exact hlone hc rfl
  | cons d tail => exact hpair d tail hc rfl

/-- The scan for the end of the key finds where the key is cut off. -/
theorem cutsAt_keyEnd (line : List Char) :
    CutsAt line (splitKey line).1 (splitKey line).2 (keyEnd false line).1 (keyEnd false line).2 := by
  induction line using splitKey.induct with
  | case1 => exact ⟨rfl, fun h => by cases h⟩
  | case2 => exact ⟨by decide, fun h => by cases h⟩
  | case3 c rest ih => exact (ih.cons c).cons '\\'
  | case4 c rest hlone hpair hstop =>
    have hc : c ≠ '\\' := ne_backslash hlone hpair
    have hsplit : splitKey (c :: rest) = ([], c :: rest) := splitKey_separator hc hstop rest
    by_cases hsign : c = '=' ∨ c = ':'
    · have hend : keyEnd false (c :: rest) = (0, true) := by simp [keyEnd, hc, hsign]
      have hsize : c.utf8Size = 1 := by
        rcases hsign with rfl | rfl <;> decide
      rw [hsplit, hend]
      refine ⟨rfl, fun _ => ⟨c, [c], rest, hsign, rfl, ?_⟩⟩
      have hcut := cutAt?_cons 0 c rest
      rw [hsize, cutAt?, Option.map_some] at hcut
      exact hcut
    · have hend : keyEnd false (c :: rest) = (0, false) := by
        have hblank : Text.isBlank c = true := by
          simpa [not_or.mp hsign] using hstop
        simp [keyEnd, hc, hsign, hblank]
      rw [hsplit, hend]
      exact ⟨rfl, fun h => by cases h⟩
  | case5 c rest hlone hpair hgoes ih =>
    have hc : c ≠ '\\' := ne_backslash hlone hpair
    have hsplit : splitKey (c :: rest) = (c :: (splitKey rest).1, (splitKey rest).2) := by
      rw [splitKey, if_neg hgoes]
      · exact hlone
      · exact hpair
    have hend : keyEnd false (c :: rest) =
        ((keyEnd false rest).1 + c.utf8Size, (keyEnd false rest).2) := by
      simp only [Bool.or_eq_true, decide_eq_true_eq, not_or] at hgoes
      simp [keyEnd, hc, hgoes]
    rw [hsplit, hend]
    exact ih.cons c

/-- No cut of an entry fails. -/
theorem splitEntryAt?_eq (line : List Char) : splitEntryAt? line = some (splitEntry line) := by
  obtain ⟨hcut, hsign⟩ := cutsAt_keyEnd line
  rw [splitEntryAt?, splitEntry]
  generalize keyEnd false line = found at hcut hsign
  obtain ⟨position, isSign⟩ := found
  cases isSign with
  | false => simp [hcut]
  | true =>
    obtain ⟨sign, front, value, hchar, hrest, hbehind⟩ := hsign rfl
    have hdrop : dropSeparator (splitKey line).2 = Text.trimStart value := by
      rw [hrest, dropSeparator]
      rcases hchar with rfl | rfl
      · rw [trimStart_cons (by decide)]
        rfl
      · rw [trimStart_cons (by decide)]
        rfl
    simp [hcut, hbehind, hdrop]

/-- **Reading never fails.** Every text can be cut at the positions that are found in it. -/
theorem parseAt?_eq (text : String) : parseAt? text = some (parse text) := by
  have hcuts : splitEntryAt? = fun line => some (splitEntry line) := funext splitEntryAt?_eq
  have hparts : (logicalLines (lines text.toList)).mapM splitEntryAt? =
      some ((logicalLines (lines text.toList)).map splitEntry) := by
    rw [hcuts]
    exact List.mapM_pure
  rw [parseAt?, hparts, parse, entries, Option.bind_eq_bind, Option.bind_some, List.foldl_map,
    List.foldl_map]
  rfl

end ContractForge.Properties
