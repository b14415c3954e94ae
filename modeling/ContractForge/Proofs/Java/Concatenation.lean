import ContractForge.Proofs.Java.StringLiteral

/-!
# Concatenations

Expressions of string literals and names joined by `+`, as source text and as values.

* `readOperands?` : the operands of such an expression, read from its source text.
* `Value`, `Value.plus` : strings and integers, and what `+` makes of two of them.
* `evaluate` : the value of an expression, from left to right.

`readOperands?_intercalate` : operands joined by ` + ` are read back. `evaluate_of_isAnchored` : where
one of the first two operands is a string, the value is the text of all operands.
-/

namespace ContractForge.Java

/-- An operand of a concatenation. -/
inductive Operand where
  | literal (text : List Char)
  | name (name : String)
  deriving DecidableEq

/-- The character may stand in a name. Beyond ASCII every character is let through, whatever its
class, so that no name of a program is left out. -/
def isNameChar (c : Char) : Bool :=
  c.isAlphanum || c = '_' || c = '$' || 0x80 ≤ c.toNat

/-- The character may begin a name. -/
def isNameStart (c : Char) : Bool :=
  isNameChar c && !c.isDigit

/-- The text is a name. -/
def isIdentifier (name : String) : Bool :=
  match name.toList with
  | [] => false
  | c :: cs => isNameStart c && cs.all isNameChar

/-- The operand that a source text begins with, and what follows it. -/
def readOperand? : List Char → Option (Operand × List Char)
  | [] => none
  | c :: rest =>
    if c = '"' then (readBody? rest).map fun read => (.literal read.1, read.2)
    else if isNameStart c then
      some (.name (String.ofList (c :: rest.takeWhile isNameChar)), rest.dropWhile isNameChar)
    else none

theorem length_of_readOperand? {s rest : List Char} {o : Operand}
    (h : readOperand? s = some (o, rest)) : rest.length < s.length := by
  cases s with
  | nil => simp [readOperand?] at h
  | cons c cs =>
    rw [readOperand?] at h
    split_ifs at h with hquote hstart
    · obtain ⟨⟨text, more⟩, hread, hpair⟩ := Option.map_eq_some_iff.mp h
      obtain ⟨-, rfl⟩ := Prod.mk.inj hpair
      have := length_of_readBody? hread
      simp only [List.length_cons]
      omega
    · obtain ⟨-, rfl⟩ := Prod.mk.inj (Option.some.inj h)
      have := (List.dropWhile_suffix isNameChar (l := cs)).length_le
      simp only [List.length_cons]
      omega

/-- The operands of a concatenation, read from its source text. -/
def readOperands? (s : List Char) : Option (List Operand) :=
  match _h : readOperand? s with
  | none => none
  | some (o, []) => some [o]
  | some (o, ' ' :: '+' :: ' ' :: rest) => (readOperands? rest).map (o :: ·)
  | some _ => none
termination_by s.length
decreasing_by
  have := length_of_readOperand? _h
  simp only [List.length_cons] at this
  omega

/-! ### Values -/

/-- What a name of an expression may stand for. -/
inductive Value where
  | text (s : List Char)
  | integer (n : Int)
  deriving DecidableEq

namespace Value

/-- The text that a value has in a concatenation. -/
def chars : Value → List Char
  | text s => s
  | integer n => (toString n).toList

/-- The sum of two values: of two integers the integer sum, and their texts joined as soon as one
of them is a string. -/
def plus : Value → Value → Value
  | integer m, integer n => integer (m + n)
  | v, w => text (v.chars ++ w.chars)

@[simp] theorem chars_text (s : List Char) : (text s).chars = s := rfl

@[simp] theorem plus_text (v : Value) (s : List Char) : v.plus (text s) = text (v.chars ++ s) := by
  cases v <;> rfl

@[simp] theorem text_plus (s : List Char) (v : Value) : (text s).plus v = text (s ++ v.chars) := by
  cases v <;> rfl

end Value

/-- The value of an operand where names have values. -/
def Operand.value (env : String → Value) : Operand → Value
  | literal s => .text s
  | name n => env n

@[simp] theorem Operand.value_literal (env : String → Value) (s : List Char) :
    (literal s).value env = .text s := rfl

/-- The value of a concatenation, from left to right. -/
def evaluate (env : String → Value) : List Operand → Option Value
  | [] => none
  | first :: rest => some (rest.foldl (fun v o => v.plus (o.value env)) (first.value env))

variable (env : String → Value)

/-- Once a sum is a string it stays one, and takes up the text of every further operand. -/
theorem foldl_plus_text (operands : List Operand) (s : List Char) :
    operands.foldl (fun v o => v.plus (o.value env)) (Value.text s) =
      Value.text (s ++ operands.flatMap fun o => (o.value env).chars) := by
  induction operands generalizing s with
  | nil => simp
  | cons o rest ih =>
    rw [List.foldl_cons, Value.text_plus, ih]
    simp

/-- The sum of the first two operands is a string, or there is a string alone. -/
def isAnchored : List Operand → Bool
  | .literal _ :: _ => true
  | _ :: .literal _ :: _ => true
  | _ => false

theorem evaluate_of_isAnchored {operands : List Operand} (h : isAnchored operands = true) :
    evaluate env operands = some (.text (operands.flatMap fun o => (o.value env).chars)) := by
  unfold isAnchored at h
  split at h
  next s rest =>
    rw [evaluate, Operand.value_literal, foldl_plus_text, List.flatMap_cons, Operand.value_literal,
      Value.chars_text]
  next first s rest _ =>
    rw [evaluate, List.foldl_cons, Operand.value_literal, Value.plus_text, foldl_plus_text,
      List.flatMap_cons, List.flatMap_cons, Operand.value_literal, Value.chars_text,
      List.append_assoc]
  next => simp at h

/-- No sum of two operands or more is a sum of integers. -/
theorem isAnchored_take {operands : List Operand} (h : isAnchored operands = true) {k : Nat}
    (hk : 2 ≤ k) : isAnchored (operands.take k) = true := by
  obtain ⟨k, rfl⟩ : ∃ n, k = n + 2 := ⟨k - 2, by omega⟩
  unfold isAnchored at h
  split at h
  next => rw [List.take_succ_cons, isAnchored]
  next first s rest hfirst =>
    rw [List.take_succ_cons, List.take_succ_cons, isAnchored]
    exact hfirst
  next => simp at h

/-! ### Source text -/

/-- The source text of an operand. -/
def Operand.source : Operand → List Char
  | literal s => '"' :: escapeChars s ++ ['"']
  | name n => n.toList

/-- The names among the operands can be told from literals and signs. -/
def Operand.Named : Operand → Prop
  | literal _ => True
  | name n => isIdentifier n = true

theorem isNameChar_of_start {c : Char} (h : isNameStart c = true) : c ≠ '"' := by
  rintro rfl
  exact absurd h (by decide)

/-- An operand is read back where no name goes on after it. -/
theorem readOperand?_source {o : Operand} (hnamed : o.Named) {rest : List Char}
    (hrest : ∀ c cs, rest = c :: cs → isNameChar c = false) :
    readOperand? (o.source ++ rest) = some (o, rest) := by
  cases o with
  | literal s =>
    simp only [Operand.source, List.cons_append, List.append_assoc, List.nil_append, readOperand?,
      if_pos, readBody?_escapeChars, Option.map_some]
  | name n =>
    change isIdentifier n = true at hnamed
    unfold isIdentifier at hnamed
    split at hnamed
    next => simp at hnamed
    next c cs hn =>
      rw [Bool.and_eq_true, List.all_eq_true] at hnamed
      obtain ⟨hstart, hpart⟩ := hnamed
      have hstop : rest.takeWhile isNameChar = [] ∧ rest.dropWhile isNameChar = rest := by
        cases rest with
        | nil => exact ⟨rfl, rfl⟩
        | cons d ds => simp [hrest d ds rfl]
      have htake : (cs ++ rest).takeWhile isNameChar = cs := by
        rw [List.takeWhile_append_of_pos hpart, hstop.1, List.append_nil]
      have hdrop : (cs ++ rest).dropWhile isNameChar = rest := by
        rw [List.dropWhile_append_of_pos hpart, hstop.2]
      have hquote := isNameChar_of_start hstart
      rw [Operand.source, hn, List.cons_append, readOperand?, if_neg hquote, if_pos hstart, htake,
        hdrop, ← hn, String.ofList_toList]

/-- The sign between operands. -/
def plusSign : List Char := [' ', '+', ' ']

/-- Operands joined by the sign are read back. -/
theorem readOperands?_intercalate {operands : List Operand} (hne : operands ≠ [])
    (hnamed : ∀ o ∈ operands, o.Named) :
    readOperands? (plusSign.intercalate (operands.map Operand.source)) = some operands := by
  induction operands with
  | nil => exact absurd rfl hne
  | cons o rest ih =>
    have ho := hnamed o List.mem_cons_self
    cases rest with
    | nil =>
      have hread : readOperand? (o.source ++ []) = some (o, []) :=
        readOperand?_source ho (by simp)
      rw [List.append_nil] at hread
      rw [List.map_singleton, List.intercalate_singleton, readOperands?, hread]
    | cons o' rest =>
      have hmore := ih (by simp) fun x hx => hnamed x (List.mem_cons_of_mem _ hx)
      rw [List.map_cons, List.map_cons, List.intercalate_cons_cons, ← List.map_cons]
      generalize plusSign.intercalate ((o' :: rest).map Operand.source) = more at hmore ⊢
      have hread : readOperand? (o.source ++ (plusSign ++ more)) = some (o, plusSign ++ more) :=
        readOperand?_source ho (by
          rintro c cs h
          obtain ⟨rfl, -⟩ := List.cons.inj h
          decide)
      rw [List.append_assoc, readOperands?, hread]
      simp only [plusSign, List.cons_append, List.nil_append, hmore, Option.map_some]

end ContractForge.Java
