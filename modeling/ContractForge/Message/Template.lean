import ContractForge.Java.Literal

/-!
# Message templates

A template is a text with placeholders: a `{`, at least one character that is no brace, and a `}`. A
placeholder whose token is the number of a parameter stands for the argument; any other shows its
token between question marks.

* `Template.pieces` : the characters and placeholders of a template, in order.
* `Template.parts` : the literals and arguments it comes to, with neighbouring literals joined.
* `Template.expression` : the concatenation that computes the message. It begins with an empty
  literal wherever it would not be a string otherwise.
-/

namespace ContractForge.Template

/-- A character outside placeholders, or a placeholder with its token. -/
inductive Piece where
  | char (c : Char)
  | placeholder (token : List Char)
  deriving DecidableEq

/-- The character is no brace. -/
def isPlain (c : Char) : Bool :=
  c ≠ '{' && c ≠ '}'

/-- The token of a placeholder whose opening brace has been read, and the text after it. -/
def token? (s : List Char) : Option (List Char × List Char) :=
  match s.takeWhile isPlain, s.dropWhile isPlain with
  | t :: ts, '}' :: rest => some (t :: ts, rest)
  | _, _ => none

/-- A token is some plain characters up to a closing brace. -/
theorem token?_eq_some_iff {s token rest : List Char} :
    token? s = some (token, rest) ↔
      s = token ++ '}' :: rest ∧ token ≠ [] ∧ ∀ c ∈ token, isPlain c = true := by
  constructor
  · intro h
    unfold token? at h
    split at h
    next t ts r htake hdrop =>
      obtain ⟨rfl, rfl⟩ := Prod.mk.inj (Option.some.inj h)
      refine ⟨?_, by simp, ?_⟩
      · rw [← htake, ← hdrop, List.takeWhile_append_dropWhile]
      · rw [← htake]
        exact List.all_eq_true.1 List.all_takeWhile
    next => simp at h
  · rintro ⟨rfl, hne, hplain⟩
    have hbrace : isPlain '}' = false := rfl
    obtain ⟨t, ts, rfl⟩ := List.exists_cons_of_ne_nil hne
    have htake : (t :: ts ++ '}' :: rest).takeWhile isPlain = t :: ts := by
      rw [List.takeWhile_append_of_pos hplain]
      simp [hbrace]
    have hdrop : (t :: ts ++ '}' :: rest).dropWhile isPlain = '}' :: rest := by
      rw [List.dropWhile_append_of_pos hplain]
      simp [hbrace]
    simp only [token?, htake, hdrop]

theorem length_of_token? {s token rest : List Char} (h : token? s = some (token, rest)) :
    rest.length < s.length := by
  rw [(token?_eq_some_iff.1 h).1]
  simp only [List.length_append, List.length_cons]
  omega

/-- The characters and placeholders of a template, in order. -/
def pieces : List Char → List Piece
  | [] => []
  | c :: cs =>
    if c = '{' then
      match _h : token? cs with
      | some (token, rest) => .placeholder token :: pieces rest
      | none => .char c :: pieces cs
    else .char c :: pieces cs
termination_by s => s.length
decreasing_by
  · have := length_of_token? _h
    simp only [List.length_cons]
    omega
  · simp
  · simp

/-- The number that a token stands for: ASCII digits, perhaps after a plus sign. -/
def index? (token : List Char) : Option Nat :=
  let digits :=
    match token with
    | '+' :: rest => rest
    | _ => token
  if !digits.isEmpty && digits.all Char.isDigit then
    some (digits.foldl (fun n c => 10 * n + (c.toNat - '0'.toNat)) 0)
  else none

/-- The parameter that a token stands for. -/
def argument? (params : List String) (token : List Char) : Option String := do
  params[← index? token]?

/-- What is shown of a placeholder that stands for no parameter. -/
def unresolved (token : List Char) : List Char :=
  "???".toList ++ token ++ "???".toList

/-- An operand of the concatenation. -/
inductive Part where
  | literal (text : List Char)
  | argument (name : String)
  deriving DecidableEq

/-- Parts with a text before them, joined to the literal they begin with. -/
def addText (text : List Char) : List Part → List Part
  | .literal t :: rest => .literal (text ++ t) :: rest
  | parts => .literal text :: parts

/-- Parts with a piece before them. -/
def addPiece (params : List String) (piece : Piece) (parts : List Part) : List Part :=
  match piece with
  | .char c => addText [c] parts
  | .placeholder token =>
    match argument? params token with
    | some name => .argument name :: parts
    | none => addText (unresolved token) parts

/-- The literals and arguments of a template. -/
def parts (params : List String) (template : List Char) : List Part :=
  (pieces template).foldr (addPiece params) []

/-- The source text of a part. -/
def Part.source : Part → String
  | literal text => Java.literal (String.ofList text)
  | argument name => name

/-- Without an empty literal in front, the concatenation would not be a string from its start. -/
def needsLiteral : List Part → Bool
  | [] | [.argument _] | .argument _ :: .argument _ :: _ => true
  | _ => false

/-- The expression that computes the message of a template. -/
def expression (params : List String) (template : String) : String :=
  let parts := parts params template.toList
  " + ".intercalate
    ((if needsLiteral parts then [Java.literal ""] else []) ++ parts.map Part.source)

end ContractForge.Template
