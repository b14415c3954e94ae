import ContractForge.Message.Template
import ContractForge.Proofs.Java.Concatenation

/-!
# The meaning of a message expression

* `Opens`, `IsNumber`, `StandsFor` : what a placeholder is, what number its token is, and which
  parameter that number picks.
* `Means` : the text that a template comes to when every parameter has a text.

`expression_means` : whatever strings and integers the parameters stand for, the value of the
expression of a template is a string, and it is the text that the template means. The proof goes
through `parts`, whose text is the meaning of the template (`means_iff`) and whose operands begin
with a string where a sum of integers could arise (`isAnchored_operands`).
-/

namespace ContractForge.Template

open Java (Operand Value evaluate readOperands? plusSign isIdentifier isAnchored)

/-! ### What a template means -/

/-- A text begins with a placeholder: the next brace after its opening one closes it, and the token
between them is not empty. -/
def Opens (s token rest : List Char) : Prop :=
  s = '{' :: token ++ '}' :: rest ∧ token ≠ [] ∧ '{' ∉ token ∧ '}' ∉ token

/-- A token is a number: ASCII digits, perhaps after a plus sign. -/
def IsNumber (token : List Char) (n : Nat) : Prop :=
  ∃ digits, (token = digits ∨ token = '+' :: digits) ∧ digits ≠ [] ∧
    (∀ c ∈ digits, c.isDigit = true) ∧ Nat.ofDigitChars 10 digits 0 = n

/-- A token is the number of a parameter. -/
def StandsFor (params : List String) (token : List Char) (name : String) : Prop :=
  ∃ n, IsNumber token n ∧ params[n]? = some name

/-- The text of a template: an argument for every placeholder that stands for a parameter, the token
between question marks for every other one, and all else as it is. -/
inductive Means (params : List String) (argument : String → List Char) :
    List Char → List Char → Prop
  | nil : Means params argument [] []
  | argument {s token rest text : List Char} {name : String} (hopens : Opens s token rest)
      (hstands : StandsFor params token name) (hrest : Means params argument rest text) :
      Means params argument s (argument name ++ text)
  | unresolved {s token rest text : List Char} (hopens : Opens s token rest)
      (hnone : ∀ name, ¬ StandsFor params token name) (hrest : Means params argument rest text) :
      Means params argument s ("???".toList ++ token ++ "???".toList ++ text)
  | char {c : Char} {s text : List Char} (hplain : ∀ token rest, ¬ Opens (c :: s) token rest)
      (hrest : Means params argument s text) : Means params argument (c :: s) (c :: text)

/-! ### Placeholders and tokens -/

theorem isPlain_iff {c : Char} : isPlain c = true ↔ c ≠ '{' ∧ c ≠ '}' := by
  simp [isPlain]

theorem token?_eq_some_iff_opens {s token rest : List Char} :
    token? s = some (token, rest) ↔ Opens ('{' :: s) token rest := by
  rw [token?_eq_some_iff]
  constructor
  · rintro ⟨rfl, hne, hplain⟩
    exact ⟨rfl, hne, fun hmem => (isPlain_iff.mp (hplain _ hmem)).1 rfl,
      fun hmem => (isPlain_iff.mp (hplain _ hmem)).2 rfl⟩
  · rintro ⟨hs, hne, hopen, hclose⟩
    refine ⟨(List.cons.inj hs).2, hne, fun c hmem => isPlain_iff.mpr ⟨?_, ?_⟩⟩
    · rintro rfl
      exact hopen hmem
    · rintro rfl
      exact hclose hmem

/-- A text that begins with no opening brace begins with no placeholder. -/
theorem not_opens_of_ne {c : Char} (h : c ≠ '{') (s token rest : List Char) :
    ¬ Opens (c :: s) token rest := by
  rintro ⟨hs, -⟩
  exact h (List.cons.inj hs).1

theorem index?_eq_some_iff {token : List Char} {n : Nat} :
    index? token = some n ↔ IsNumber token n := by
  have hdigits : ∀ digits : List Char,
      (if !digits.isEmpty && digits.all Char.isDigit then
        some (digits.foldl (fun n c => 10 * n + (c.toNat - '0'.toNat)) 0) else none) = some n ↔
      digits ≠ [] ∧ (∀ c ∈ digits, c.isDigit = true) ∧ Nat.ofDigitChars 10 digits 0 = n := by
    intro digits
    simp only [Nat.ofDigitChars_eq_foldl, Option.ite_none_right_eq_some, Bool.and_eq_true,
      Bool.not_eq_true', List.isEmpty_eq_false_iff, List.all_eq_true, Option.some.injEq, and_assoc]
  unfold index?
  split
  next rest =>
    dsimp only
    rw [hdigits]
    constructor
    · rintro h
      exact ⟨rest, .inr rfl, h⟩
    · rintro ⟨digits, heq | heq, hne, hall, hvalue⟩
      · exact absurd (hall '+' (heq ▸ List.mem_cons_self)) (by decide)
      · obtain ⟨-, rfl⟩ := List.cons.inj heq
        exact ⟨hne, hall, hvalue⟩
  next hplus =>
    dsimp only
    rw [hdigits]
    constructor
    · rintro h
      exact ⟨token, .inl rfl, h⟩
    · rintro ⟨digits, heq | heq, h⟩
      · exact heq ▸ h
      · exact absurd heq (hplus digits)

theorem argument?_eq_some_iff {params : List String} {token : List Char} {name : String} :
    argument? params token = some name ↔ StandsFor params token name := by
  unfold argument? StandsFor
  simp only [Option.bind_eq_bind, Option.bind_eq_some_iff, index?_eq_some_iff]

/-! ### The pieces of a template -/

theorem pieces_of_opens {s token rest : List Char} (h : Opens s token rest) :
    pieces s = .placeholder token :: pieces rest := by
  obtain ⟨tail, rfl⟩ : ∃ tail, s = '{' :: tail := ⟨_, h.1⟩
  have htoken := token?_eq_some_iff_opens.mpr h
  rw [pieces, if_pos rfl]
  split
  next token' rest' htoken' =>
    obtain ⟨rfl, rfl⟩ := Prod.mk.inj (Option.some.inj (htoken.symm.trans htoken'))
    rfl
  next hnone => simp [htoken] at hnone

theorem pieces_of_not_opens {c : Char} {s : List Char}
    (h : ∀ token rest, ¬ Opens (c :: s) token rest) : pieces (c :: s) = .char c :: pieces s := by
  rw [pieces]
  split
  next hopen =>
    subst hopen
    split
    next token rest htoken => exact absurd (token?_eq_some_iff_opens.mp htoken) (h token rest)
    next => rfl
  next => rfl

variable {params : List String}

theorem parts_of_argument {s token rest : List Char} {name : String} (hopens : Opens s token rest)
    (hargument : argument? params token = some name) :
    parts params s = .argument name :: parts params rest := by
  rw [parts, pieces_of_opens hopens, List.foldr_cons, addPiece, hargument]
  rfl

theorem parts_of_unresolved {s token rest : List Char} (hopens : Opens s token rest)
    (hargument : argument? params token = none) :
    parts params s = addText (unresolved token) (parts params rest) := by
  rw [parts, pieces_of_opens hopens, List.foldr_cons, addPiece, hargument]
  rfl

theorem parts_of_not_opens {c : Char} {s : List Char}
    (hplain : ∀ token rest, ¬ Opens (c :: s) token rest) :
    parts params (c :: s) = addText [c] (parts params s) := by
  rw [parts, pieces_of_not_opens hplain, List.foldr_cons, addPiece]
  rfl

theorem parts_nil : parts params [] = [] := by
  simp [parts, pieces]

/-! ### The text of parts -/

/-- The text of parts whose arguments have texts. -/
def textOf (argument : String → List Char) (parts : List Part) : List Char :=
  parts.flatMap fun
    | .literal text => text
    | .argument name => argument name

variable {argument : String → List Char}

theorem textOf_addText (text : List Char) (parts : List Part) :
    textOf argument (addText text parts) = text ++ textOf argument parts := by
  unfold addText
  split
  next => simp [textOf]
  next => simp [textOf]

/-- The text of the parts is what the template means. -/
theorem means_textOf (params : List String) (argument : String → List Char) (s : List Char) :
    Means params argument s (textOf argument (parts params s)) := by
  fun_induction pieces s with
  | case1 =>
    rw [parts_nil]
    exact .nil
  | case2 s token rest htoken ih =>
    have hopens := token?_eq_some_iff_opens.mp htoken
    cases hargument : argument? params token with
    | some name =>
      rw [parts_of_argument hopens hargument]
      exact .argument hopens (argument?_eq_some_iff.mp hargument) ih
    | none =>
      rw [parts_of_unresolved hopens hargument, textOf_addText]
      refine .unresolved hopens (fun name h => ?_) ih
      rw [argument?_eq_some_iff.mpr h] at hargument
      simp at hargument
  | case3 s htoken ih =>
    have hplain : ∀ token rest, ¬ Opens ('{' :: s) token rest := by
      intro token rest hopens
      rw [← token?_eq_some_iff_opens, htoken] at hopens
      simp at hopens
    rw [parts_of_not_opens hplain, textOf_addText]
    exact .char hplain ih
  | case4 c s hopen ih =>
    have hplain := not_opens_of_ne hopen s
    rw [parts_of_not_opens hplain, textOf_addText]
    exact .char hplain ih

/-- A template means one text only. -/
theorem eq_textOf_of_means {s text : List Char} (h : Means params argument s text) :
    text = textOf argument (parts params s) := by
  induction h with
  | nil => rw [parts_nil, textOf, List.flatMap_nil]
  | argument hopens hstands _ ih =>
    rw [parts_of_argument hopens (argument?_eq_some_iff.mpr hstands), ih]
    rfl
  | @unresolved s token rest text hopens hnone _ ih =>
    have hargument : argument? params token = none := by
      rw [Option.eq_none_iff_forall_ne_some]
      exact fun name h => hnone name (argument?_eq_some_iff.mp h)
    rw [parts_of_unresolved hopens hargument, textOf_addText, ih]
    rfl
  | char hplain _ ih =>
    rw [parts_of_not_opens hplain, textOf_addText, ih]
    rfl

theorem means_iff {s text : List Char} :
    Means params argument s text ↔ text = textOf argument (parts params s) :=
  ⟨eq_textOf_of_means, fun h => h ▸ means_textOf params argument s⟩

/-! ### The operands of the expression -/

/-- The operand that a part is. -/
def Part.operand : Part → Operand
  | .literal text => .literal text
  | .argument name => .name name

/-- The operands of the expression of a template. -/
def operands (params : List String) (s : List Char) : List Operand :=
  (if needsLiteral (parts params s) then [.literal []] else []) ++
    (parts params s).map Part.operand

theorem toList_source (p : Part) : p.source.toList = p.operand.source := by
  cases p with
  | literal text => simp [Part.source, Part.operand, Operand.source, Java.toList_literal]
  | argument name => rfl

theorem toList_expression (params : List String) (template : String) :
    (expression params template).toList =
      plusSign.intercalate ((operands params template.toList).map Operand.source) := by
  have hparts : ((parts params template.toList).map Part.source).map String.toList =
      ((parts params template.toList).map Part.operand).map Operand.source := by
    simp [toList_source]
  rw [expression, String.toList_intercalate, List.map_append, hparts, operands, List.map_append]
  congr 2
  split_ifs
  · rfl
  · rfl

/-- An expression does not begin with a sum of names: it has an empty literal in front otherwise. -/
theorem isAnchored_operands (params : List String) (s : List Char) :
    isAnchored (operands params s) = true := by
  unfold operands
  cases parts params s with
  | nil => rfl
  | cons first rest =>
    cases first with
    | literal text => rfl
    | argument name =>
      cases rest with
      | nil => rfl
      | cons second rest =>
        cases second with
        | literal text => rfl
        | argument name => rfl

theorem flatMap_operands (env : String → Value) (s : List Char) :
    ((operands params s).flatMap fun o => (o.value env).chars) =
      textOf (fun name => (env name).chars) (parts params s) := by
  have hfront : ((if needsLiteral (parts params s) then [Operand.literal []] else []).flatMap
      fun o => (o.value env).chars) = [] := by
    split_ifs
    · rfl
    · rfl
  rw [operands, List.flatMap_append, hfront, List.nil_append, List.flatMap_map, textOf]
  congr 1
  funext p
  cases p with
  | literal text => rfl
  | argument name => rfl

theorem mem_addText {text : List Char} {ps : List Part} {name : String}
    (h : Part.argument name ∈ addText text ps) : Part.argument name ∈ ps := by
  unfold addText at h
  split at h
  next => simpa using h
  next => simpa using h

/-- Only parameters are named by the parts of a template. -/
theorem mem_params_of_mem_parts {s : List Char} {name : String}
    (h : Part.argument name ∈ parts params s) : name ∈ params := by
  unfold parts at h
  generalize pieces s = ps at h
  induction ps with
  | nil => simp at h
  | cons piece rest ih =>
    rw [List.foldr_cons] at h
    unfold addPiece at h
    split at h
    next c => exact ih (mem_addText h)
    next token =>
      split at h
      next name' hargument =>
        rcases List.mem_cons.mp h with heq | h
        · obtain ⟨n, -, hn⟩ := argument?_eq_some_iff.mp hargument
          obtain rfl := Part.argument.inj heq
          exact List.mem_of_getElem? hn
        · exact ih h
      next => exact ih (mem_addText h)

theorem mem_params_of_mem_operands {s : List Char} {name : String}
    (h : Operand.name name ∈ operands params s) : name ∈ params := by
  rw [operands, List.mem_append] at h
  rcases h with h | h
  · split_ifs at h
    · simp at h
    · simp at h
  · obtain ⟨p, hp, hname⟩ := List.mem_map.mp h
    cases p with
    | literal text => simp [Part.operand] at hname
    | argument name' =>
      obtain rfl := Operand.name.inj hname
      exact mem_params_of_mem_parts hp

theorem operands_ne_nil (params : List String) (s : List Char) : operands params s ≠ [] := by
  intro h
  have := isAnchored_operands params s
  rw [h] at this
  simp [isAnchored] at this

/-- **A message expression means its template.** It is a sum of string literals and parameter names,
and whatever strings and integers the names stand for, its value is the one text that the template
means. No sum of two operands or more is an integer on the way. -/
theorem expression_means (params : List String)
    (hparams : ∀ name ∈ params, isIdentifier name = true) (template : String) :
    ∃ operands, readOperands? (expression params template).toList = some operands ∧
      (∀ name, Operand.name name ∈ operands → name ∈ params) ∧
      ∀ env : String → Value,
        (∃ text, evaluate env operands = some (.text text) ∧
          ∀ text', Means params (fun name => (env name).chars) template.toList text' ↔
            text' = text) ∧
        ∀ k, 2 ≤ k → ∃ text, evaluate env (operands.take k) = some (.text text) := by
  have hnamed : ∀ o ∈ operands params template.toList, o.Named := by
    intro o ho
    cases o with
    | literal text => trivial
    | name name => exact hparams name (mem_params_of_mem_operands ho)
  refine ⟨operands params template.toList, ?_, fun name h => mem_params_of_mem_operands h, ?_⟩
  · rw [toList_expression]
    exact Java.readOperands?_intercalate (operands_ne_nil params _) hnamed
  · intro env
    have hanchored := isAnchored_operands params template.toList
    refine ⟨⟨textOf (fun name => (env name).chars) (parts params template.toList), ?_, ?_⟩, ?_⟩
    · rw [Java.evaluate_of_isAnchored env hanchored, flatMap_operands]
    · exact fun text' => means_iff
    · exact fun k hk => ⟨_, Java.evaluate_of_isAnchored env (Java.isAnchored_take hanchored hk)⟩

/-- Two integers side by side come to their digits, between a token that is no number and a brace that
opens nothing. -/
theorem expression_means_two_integers :
    (∀ name ∈ ["count", "total"], isIdentifier name = true) ∧
      ∃ operands,
        readOperands? (expression ["count", "total"] "{0}{+1} of {all} \x7b").toList =
          some operands ∧
        ∃ text, evaluate (fun name => if name = "count" then .integer 1 else .integer 2) operands =
            some (.text text) ∧
          text = "12 of ???all??? \x7b".toList := by
  have hparams : ∀ name ∈ ["count", "total"], isIdentifier name = true := by decide
  obtain ⟨operands, hread, -, hvalue⟩ :=
    expression_means ["count", "total"] hparams "{0}{+1} of {all} \x7b"
  obtain ⟨⟨text, htext, hmeans⟩, -⟩ :=
    hvalue fun name => if name = "count" then .integer 1 else .integer 2
  refine ⟨hparams, operands, hread, text, htext, ((hmeans _).mp ?_).symm⟩
  rw [means_iff]
  decide +kernel

end ContractForge.Template
