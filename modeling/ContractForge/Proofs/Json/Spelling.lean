import ContractForge.Json.Value
import Mathlib.Tactic.SplitIfs

/-!
# JSON values written as text

The other side of `Json.Value.parse?`.

* `Token.spelling`, `Value.tokens` : how tokens and values are written. In a string only quotes, backslashes
  and control characters are escaped.
* `Spells` : a text is made of given tokens, with white space between them or without.
* `Value.Written` : a text is a value written down, on one line or over several.

What is written is read back (`parse?_of_written`), if it has no numbers and no strings without a text.
-/

namespace ContractForge.Json

/-! ### Strings -/

/-- How a character is written in a string. -/
def stringChar (c : Char) : List Char :=
  if c = '"' then ['\\', '"']
  else if c = '\\' then ['\\', '\\']
  else if c = '\x08' then ['\\', 'b']
  else if c = '\x0c' then ['\\', 'f']
  else if c = '\n' then ['\\', 'n']
  else if c = '\r' then ['\\', 'r']
  else if c = '\t' then ['\\', 't']
  else if c.toNat < 0x20 then '\\' :: 'u' :: Text.hexFixed 4 c.toNat
  else [c]

/-- An item in front of those that are read after it. -/
def prependItem (item : StringItem) (read : List StringItem × List Char) :
    List StringItem × List Char :=
  (item :: read.1, read.2)

theorem stringItems?_short {letter c : Char} (h : shortEscape? letter = some c) (rest : List Char) :
    stringItems? ('\\' :: letter :: rest) = (stringItems? rest).map (prependItem (.char c)) := by
  have hletter : letter ≠ 'u' := by
    rintro rfl
    cases h
  rw [stringItems?, h]
  · cases stringItems? rest <;> rfl
  · intro a b c d more hu
    exact absurd hu hletter

theorem hexFixed_four {n : Nat} (h : n < 0x20) :
    Text.hexFixed 4 n = ['0', '0', Text.hexDigit (n / 16), Text.hexDigit (n % 16)] := by
  revert n
  decide

theorem stringItems?_code {c : Char} (h : c.toNat < 0x20) (rest : List Char) :
    stringItems? ('\\' :: 'u' :: (Text.hexFixed 4 c.toNat ++ rest)) =
      (stringItems? rest).map (prependItem (.char c)) := by
  have hcode : hexCode? '0' '0' (Text.hexDigit (c.toNat / 16)) (Text.hexDigit (c.toNat % 16)) =
      some c.toNat := by
    have hhigh : c.toNat / 16 < 16 := by omega
    have hlow : c.toNat % 16 < 16 := by omega
    have hzero : Text.hexValue? '0' = some 0 := by decide
    simp only [hexCode?, hzero, Text.hexValue?_hexDigit hhigh, Text.hexValue?_hexDigit hlow,
      Option.bind_eq_bind, Option.bind_some, pure, Option.some.injEq]
    omega
  have hitem : StringItem.ofCode c.toNat = .char c := by
    rw [StringItem.ofCode, if_neg (by omega), Char.ofNat_toNat]
  rw [hexFixed_four h]
  show stringItems? ('\\' :: 'u' :: '0' :: '0' :: _ :: _ :: rest) = _
  rw [stringItems?, hcode]
  cases stringItems? rest with
  | none => rfl
  | some read =>
    show some (StringItem.ofCode c.toNat :: read.1, read.2) = _
    rw [hitem]
    rfl

theorem stringItems?_plain {c : Char} (hquote : c ≠ '"') (hbackslash : c ≠ '\\')
    (hlow : ¬c.toNat < 0x20) (rest : List Char) :
    stringItems? (c :: rest) = (stringItems? rest).map (prependItem (.char c)) := by
  rw [stringItems?]
  · rw [if_neg (by simp [hlow, hbackslash])]
    cases stringItems? rest <;> rfl
  · exact hquote
  · intro a b d e more hc
    exact absurd hc hbackslash
  · intro e more hc
    exact absurd hc hbackslash

theorem stringItems?_stringChar (c : Char) (rest : List Char) :
    stringItems? (stringChar c ++ rest) = (stringItems? rest).map (prependItem (.char c)) := by
  unfold stringChar
  split_ifs with hquote hbackslash hback hfeed hline hreturn htab hlow
  · exact stringItems?_short (by rw [hquote]; rfl) rest
  · exact stringItems?_short (by rw [hbackslash]; rfl) rest
  · exact stringItems?_short (by rw [hback]; rfl) rest
  · exact stringItems?_short (by rw [hfeed]; rfl) rest
  · exact stringItems?_short (by rw [hline]; rfl) rest
  · exact stringItems?_short (by rw [hreturn]; rfl) rest
  · exact stringItems?_short (by rw [htab]; rfl) rest
  · exact stringItems?_code hlow rest
  · exact stringItems?_plain hquote hbackslash hlow rest

theorem stringItems?_flatMap (s rest : List Char) :
    stringItems? (s.flatMap stringChar ++ '"' :: rest) = some (s.map .char, rest) := by
  induction s with
  | nil => rfl
  | cons c s ih =>
    rw [List.flatMap_cons, List.append_assoc, stringItems?_stringChar, ih]
    rfl

theorem textOfItems_map (s : List Char) : textOfItems (s.map .char) = some s := by
  induction s with
  | nil => rfl
  | cons c s ih =>
    rw [List.map_cons, textOfItems, ih]
    rfl

/-! ### Tokens -/

namespace Token

/-- How a token is written. -/
def spelling : Token → List Char
  | openArray => ['[']
  | closeArray => [']']
  | openObject => ['{']
  | closeObject => ['}']
  | comma => [',']
  | colon => [':']
  | null => ['n', 'u', 'l', 'l']
  | bool true => ['t', 'r', 'u', 'e']
  | bool false => ['f', 'a', 'l', 's', 'e']
  | number digits => digits
  | string content => '"' :: ((content.getD "").toList.flatMap stringChar ++ ['"'])

/-- The token is told by its spelling, whatever follows it: it is no number, whose digits could go on,
and no string without a text. -/
def Plain : Token → Prop
  | number _ => False
  | string content => content.isSome = true
  | _ => True

theorem next?_spelling {token : Token} (h : token.Plain) (rest : List Char) :
    next? (token.spelling ++ rest) = some (token, rest) := by
  cases token with
  | number digits => cases h
  | string content =>
    obtain ⟨text, rfl⟩ := Option.isSome_iff_exists.mp h
    show next? ('"' :: ((text.toList.flatMap stringChar ++ ['"']) ++ rest)) = _
    rw [next?, List.append_assoc, List.singleton_append, stringItems?_flatMap]
    show some (string ((textOfItems (text.toList.map .char)).map String.ofList), rest) = _
    rw [textOfItems_map, Option.map_some, String.ofList_toList]
  | bool b => cases b <;> rfl
  | _ => rfl

theorem exists_spelling_eq {token : Token} (h : token.Plain) :
    ∃ c more, token.spelling = c :: more ∧ isSpace c = false := by
  cases token with
  | number digits => cases h
  | string content => exact ⟨'"', _, rfl, rfl⟩
  | bool b => cases b <;> exact ⟨_, _, rfl, rfl⟩
  | _ => exact ⟨_, _, rfl, rfl⟩

end Token

/-- A text is made of tokens, with white space before, between and after them or without. -/
inductive Spells : List Token → List Char → Prop where
  | nil {blanks : List Char} : (∀ c ∈ blanks, isSpace c = true) → Spells [] blanks
  | cons {blanks rest : List Char} {token : Token} {tokens : List Token} :
      (∀ c ∈ blanks, isSpace c = true) → Spells tokens rest →
      Spells (token :: tokens) (blanks ++ (token.spelling ++ rest))

theorem dropWhile_isSpace {blanks : List Char} (h : ∀ c ∈ blanks, isSpace c = true)
    (rest : List Char) : (blanks ++ rest).dropWhile isSpace = rest.dropWhile isSpace := by
  induction blanks with
  | nil => rfl
  | cons c blanks ih =>
    rw [List.cons_append, List.dropWhile_cons_of_pos (h c List.mem_cons_self)]
    exact ih fun d hd => h d (List.mem_cons_of_mem _ hd)

/-- The tokens that a text is made of are found in it. -/
theorem scanWith_of_spells {tokens : List Token} {text : List Char} (h : Spells tokens text)
    (hplain : ∀ token ∈ tokens, token.Plain) {fuel : Nat} (hfuel : text.length < fuel) :
    Token.scanWith fuel text = some tokens := by
  induction h generalizing fuel with
  | @nil blanks hblanks =>
    obtain ⟨fuel, rfl⟩ := Nat.exists_eq_add_one_of_ne_zero (Nat.ne_zero_of_lt hfuel)
    have hdrop := dropWhile_isSpace hblanks []
    rw [List.append_nil] at hdrop
    rw [Token.scanWith, hdrop]
    rfl
  | @cons blanks rest token tokens hblanks _ ih =>
    obtain ⟨fuel, rfl⟩ := Nat.exists_eq_add_one_of_ne_zero (Nat.ne_zero_of_lt hfuel)
    have htoken := hplain token List.mem_cons_self
    obtain ⟨c, more, hspelling, hc⟩ := Token.exists_spelling_eq htoken
    have hdrop : (blanks ++ (token.spelling ++ rest)).dropWhile isSpace = token.spelling ++ rest := by
      rw [dropWhile_isSpace hblanks, hspelling, List.cons_append,
        List.dropWhile_cons_of_neg (by simp [hc])]
    have hlength : rest.length < fuel := by
      rw [hspelling] at hfuel
      simp only [List.length_append, List.length_cons] at hfuel
      omega
    have hrest := ih (fun t ht => hplain t (List.mem_cons_of_mem _ ht)) hlength
    have hnext := Token.next?_spelling htoken rest
    rw [Token.scanWith, hdrop]
    rw [hspelling, List.cons_append] at hnext ⊢
    dsimp only
    rw [hnext, Option.bind_eq_bind, Option.bind_some, hrest]
    rfl

/-! ### Values -/

namespace Value

mutual

/-- The tokens of a value. -/
def tokens : Value → List Token
  | null => [.null]
  | bool b => [.bool b]
  | number spelling => [.number spelling.toList]
  | string content => [.string content]
  | array items => .openArray :: itemTokens items
  | object members => .openObject :: memberTokens members

/-- The tokens of the items of an array and of its closing bracket. -/
def itemTokens : List Value → List Token
  | [] => [.closeArray]
  | v :: rest => v.tokens ++ furtherItemTokens rest

/-- The tokens after an item that is already written. -/
def furtherItemTokens : List Value → List Token
  | [] => [.closeArray]
  | v :: rest => .comma :: (v.tokens ++ furtherItemTokens rest)

/-- The tokens of the members of an object and of its closing brace. -/
def memberTokens : List (Option String × Value) → List Token
  | [] => [.closeObject]
  | (key, v) :: rest => .string key :: .colon :: (v.tokens ++ furtherMemberTokens rest)

/-- The tokens after a member that is already written. -/
def furtherMemberTokens : List (Option String × Value) → List Token
  | [] => [.closeObject]
  | (key, v) :: rest => .comma :: .string key :: .colon :: (v.tokens ++ furtherMemberTokens rest)

end

/-- The tokens of a value do not begin with a closing bracket. -/
theorem exists_tokens_eq (v : Value) :
    ∃ first further, v.tokens = first :: further ∧ first ≠ .closeArray := by
  cases v <;> exact ⟨_, _, rfl, by simp⟩

theorem length_tokens_pos (v : Value) : 0 < v.tokens.length := by
  obtain ⟨first, further, hv, -⟩ := v.exists_tokens_eq
  simp [hv]

mutual

/-- A value is read from its tokens, and what follows them is left. -/
theorem take?_tokens (v : Value) (rest : List Token) (fuel : Nat) (h : v.tokens.length ≤ fuel) :
    take? fuel (v.tokens ++ rest) = some (v, rest) := by
  cases fuel with
  | zero => exact absurd h (Nat.not_le_of_lt v.length_tokens_pos)
  | succ fuel =>
    cases v with
    | null => rfl
    | bool b => rfl
    | number spelling =>
      show some (number (String.ofList spelling.toList), rest) = _
      rw [String.ofList_toList]
    | string content => rfl
    | array items =>
      cases items with
      | nil => rfl
      | cons v vs =>
        have hlength : (v.tokens ++ furtherItemTokens vs).length ≤ fuel := by
          simpa [tokens, itemTokens] using h
        have hitems := takeItems?_tokens v vs rest fuel hlength
        -- the bracket is not closed at once
        obtain ⟨first, further, hv, hfirst⟩ := v.exists_tokens_eq
        show take? (fuel + 1) (.openArray :: (v.tokens ++ furtherItemTokens vs ++ rest)) = _
        rw [hv, List.cons_append, List.cons_append] at hitems ⊢
        rw [take?, hitems]
        · rfl
        · intro more hclosed
          exact hfirst (List.cons.inj hclosed).1
    | object members =>
      cases members with
      | nil => rfl
      | cons member members =>
        obtain ⟨key, v⟩ := member
        have hlength : (v.tokens ++ furtherMemberTokens members).length + 2 ≤ fuel := by
          simp only [tokens, memberTokens, List.length_cons] at h
          omega
        have hmembers := takeMembers?_tokens key v members rest fuel hlength
        show take? (fuel + 1) (.openObject :: .string key :: .colon ::
          (v.tokens ++ furtherMemberTokens members ++ rest)) = _
        rw [take?]
        · exact congrArg (Option.map fun read => (object read.1, read.2)) hmembers
        · intro more hclosed
          cases hclosed
termination_by fuel

theorem takeItems?_tokens (v : Value) (vs : List Value) (rest : List Token) (fuel : Nat)
    (h : (v.tokens ++ furtherItemTokens vs).length ≤ fuel) :
    takeItems? fuel (v.tokens ++ furtherItemTokens vs ++ rest) = some (v :: vs, rest) := by
  have hpos := v.length_tokens_pos
  rw [List.length_append] at h
  cases fuel with
  | zero => omega
  | succ fuel =>
    rw [takeItems?, List.append_assoc]
    cases vs with
    | nil =>
      have hlength : v.tokens.length ≤ fuel := by
        simp only [furtherItemTokens, List.length_singleton] at h
        omega
      rw [take?_tokens v _ fuel hlength]
      rfl
    | cons w ws =>
      simp only [furtherItemTokens, List.length_cons] at h
      have hlength : v.tokens.length ≤ fuel := by omega
      have hfurther : (w.tokens ++ furtherItemTokens ws).length ≤ fuel := by omega
      rw [take?_tokens v _ fuel hlength]
      exact congrArg (Option.map fun read => (v :: read.1, read.2))
        (takeItems?_tokens w ws rest fuel hfurther)
termination_by fuel

theorem takeMembers?_tokens (key : Option String) (v : Value)
    (members : List (Option String × Value)) (rest : List Token) (fuel : Nat)
    (h : (v.tokens ++ furtherMemberTokens members).length + 2 ≤ fuel) :
    takeMembers? fuel
        (.string key :: .colon :: (v.tokens ++ furtherMemberTokens members ++ rest)) =
      some ((key, v) :: members, rest) := by
  rw [List.length_append] at h
  cases fuel with
  | zero => omega
  | succ fuel =>
    have hlength : v.tokens.length ≤ fuel := by omega
    rw [takeMembers?, List.append_assoc]
    cases members with
    | nil =>
      rw [take?_tokens v _ fuel hlength]
      rfl
    | cons member members =>
      obtain ⟨key', w⟩ := member
      simp only [furtherMemberTokens, List.length_cons] at h
      have hfurther : (w.tokens ++ furtherMemberTokens members).length + 2 ≤ fuel := by omega
      rw [take?_tokens v _ fuel hlength]
      exact congrArg (Option.map fun read => ((key, v) :: read.1, read.2))
        (takeMembers?_tokens key' w members rest fuel hfurther)
termination_by fuel

end

/-- The text is the value written down, with any white space between the tokens. -/
def Written (v : Value) (text : String) : Prop :=
  Spells v.tokens text.toList

/-- The value is read back from its written form, whatever follows it. -/
def Plain (v : Value) : Prop :=
  ∀ token ∈ v.tokens, token.Plain

theorem parse?_of_written {v : Value} {text : String} (hplain : v.Plain) (h : v.Written text) :
    parse? text = some v := by
  have hscan : Token.scan? text = some v.tokens := by
    apply scanWith_of_spells h hplain
    rw [String.length_toList]
    omega
  have htake := take?_tokens v [] (2 * v.tokens.length + 1) (by omega)
  rw [List.append_nil] at htake
  rw [parse?, hscan, Option.bind_eq_bind, Option.bind_some, ofTokens?, htake]

/-- The value on one line. -/
def print (v : Value) : String :=
  String.ofList (v.tokens.flatMap Token.spelling)

theorem written_print (v : Value) : v.Written v.print := by
  rw [Written, print, String.toList_ofList]
  induction v.tokens with
  | nil => exact .nil fun _ h => absurd h List.not_mem_nil
  | cons token tokens ih => exact .cons (fun _ h => absurd h List.not_mem_nil) ih

/-! ### Values that are plain -/

@[simp] theorem plain_text (s : String) : (text s).Plain := by
  intro token htoken
  obtain rfl := List.mem_singleton.mp htoken
  rfl

@[simp] theorem plain_bool (b : Bool) : (bool b).Plain := by
  intro token htoken
  obtain rfl := List.mem_singleton.mp htoken
  trivial

theorem plain_furtherItemTokens {items : List Value} (h : ∀ v ∈ items, v.Plain) :
    ∀ token ∈ furtherItemTokens items, token.Plain := by
  induction items with
  | nil => simp [furtherItemTokens, Token.Plain]
  | cons v rest ih =>
    obtain ⟨hv, hrest⟩ := List.forall_mem_cons.mp h
    simp only [furtherItemTokens, List.forall_mem_cons, List.forall_mem_append]
    exact ⟨trivial, hv, ih hrest⟩

theorem plain_array {items : List Value} (h : ∀ v ∈ items, v.Plain) : (array items).Plain := by
  cases items with
  | nil => simp [Plain, tokens, itemTokens, Token.Plain]
  | cons v rest =>
    obtain ⟨hv, hrest⟩ := List.forall_mem_cons.mp h
    simp only [Plain, tokens, itemTokens, List.forall_mem_cons, List.forall_mem_append]
    exact ⟨trivial, hv, plain_furtherItemTokens hrest⟩

theorem plain_furtherMemberTokens {members : List (String × Value)} (h : ∀ m ∈ members, m.2.Plain) :
    ∀ token ∈ furtherMemberTokens (members.map fun m => (some m.1, m.2)), token.Plain := by
  induction members with
  | nil => simp [furtherMemberTokens, Token.Plain]
  | cons m rest ih =>
    obtain ⟨hm, hrest⟩ := List.forall_mem_cons.mp h
    simp only [List.map_cons, furtherMemberTokens, List.forall_mem_cons, List.forall_mem_append]
    exact ⟨trivial, rfl, trivial, hm, ih hrest⟩

theorem plain_record {members : List (String × Value)} (h : ∀ m ∈ members, m.2.Plain) :
    (record members).Plain := by
  cases members with
  | nil => simp [Plain, record, tokens, memberTokens, Token.Plain]
  | cons m rest =>
    obtain ⟨hm, hrest⟩ := List.forall_mem_cons.mp h
    simp only [Plain, record, List.map_cons, tokens, memberTokens, List.forall_mem_cons,
      List.forall_mem_append]
    exact ⟨trivial, rfl, trivial, hm, plain_furtherMemberTokens hrest⟩

end Value
end ContractForge.Json
