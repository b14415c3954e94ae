import ContractForge.Java.Class
import ContractForge.Proofs.Java.Concatenation
import ContractForge.Proofs.Java.Initialization
import ContractForge.Text.Split

/-!
# Reading classes that hold data

The members of such a class, read from its source text line by line.

* `readStatement?` : a statement, which assigns a cell or appends a character.
* `readMember?` : a static block or a method, from its head and the lines of its body.
* `readMembers?` : all members after the head of the class. It refuses a class that does not end in
  its closing brace, or that goes on after it.
* `readClass?` : the members of the class of a package and a name.
-/

namespace ContractForge.Java

/-! ### Numbers -/

/-- A number in decimal, without leading zeros. -/
def readNumber? (s : List Char) : Option Nat :=
  if s ≠ [] ∧ s.all Char.isDigit ∧ (s.head? = some '0' → s = ['0']) then
    some (Nat.ofDigitChars 10 s 0)
  else none

/-- An integer in decimal. -/
def readInteger? : List Char → Option Int
  | [] => none
  | c :: cs =>
    if c = '-' then (readNumber? cs).map fun n => -(n : Int)
    else (readNumber? (c :: cs)).map fun n => (n : Int)

theorem isDigit_ne {c d : Char} (hc : c.isDigit = true) (hd : d.isDigit = false) : c ≠ d := by
  rintro rfl
  rw [hc] at hd
  cases hd

/-- No number but zero begins with a zero. -/
theorem head?_toDigits {n : Nat} (hn : 0 < n) : (Nat.toDigits 10 n).head? ≠ some '0' := by
  induction n using Nat.strongRecOn with
  | ind n ih =>
    by_cases hsmall : n < 10
    · have hdigit : ∀ n < 10, 0 < n → some n.digitChar ≠ some '0' := by decide
      rw [Nat.toDigits_of_lt_base hsmall, List.head?_cons]
      exact hdigit n hsmall hn
    · rw [Nat.toDigits_of_base_le (by omega) (by omega),
        List.head?_append_of_ne_nil _ Nat.toDigits_ne_nil]
      exact ih (n / 10) (by omega) (by omega)

theorem readNumber?_toDigits (n : Nat) : readNumber? (Nat.toDigits 10 n) = some n := by
  have hdigits : (Nat.toDigits 10 n).all Char.isDigit = true :=
    List.all_eq_true.mpr fun c hc => Nat.isDigit_of_mem_toDigits (by omega) (by omega) hc
  have hzero : (Nat.toDigits 10 n).head? = some '0' → Nat.toDigits 10 n = ['0'] := by
    intro hhead
    rcases Nat.eq_zero_or_pos n with rfl | hpos
    · rfl
    · exact absurd hhead (head?_toDigits hpos)
  rw [readNumber?, if_pos ⟨Nat.toDigits_ne_nil, hdigits, hzero⟩, Nat.ofDigitChars_ten_toDigits]

def integerChars : Int → List Char
  | .ofNat n => Nat.toDigits 10 n
  | .negSucc n => '-' :: Nat.toDigits 10 (n + 1)

theorem toList_integer (v : Int) : (toString v).toList = integerChars v := by
  cases v with
  | ofNat n => exact Nat.toList_repr
  | negSucc n =>
    show ("-" ++ Nat.repr (n + 1)).toList = _
    rw [String.toList_append, Nat.toList_repr]
    rfl

theorem readInteger?_integerChars (v : Int) : readInteger? (integerChars v) = some v := by
  cases v with
  | ofNat n =>
    obtain ⟨c, cs, hcs⟩ := List.exists_cons_of_ne_nil (Nat.toDigits_ne_nil (b := 10) (n := n))
    have hdigit : c.isDigit = true :=
      Nat.isDigit_of_mem_toDigits (b := 10) (n := n) (by omega) (by omega) (by simp [hcs])
    rw [integerChars, hcs, readInteger?, if_neg (isDigit_ne hdigit rfl), ← hcs,
      readNumber?_toDigits]
    rfl
  | negSucc n =>
    rw [integerChars, readInteger?, if_pos rfl, readNumber?_toDigits]
    rfl

/-! ### Statements -/

/-- The character stands for itself between single quotes. -/
def isBare (c : Char) : Bool :=
  escapeChar c == [c] && c != '\''

def readAssignment? (s : List Char) : Option Statement := do
  let s ← Text.stripStart? "data[".toList s
  let index ← readNumber? (s.takeWhile (· ≠ ']'))
  let s ← Text.stripStart? "] = ".toList (s.dropWhile (· ≠ ']'))
  let value ← readInteger? (← Text.stripEnd? [';'] s)
  return .assign index value

def readAppend? (s : List Char) : Option Statement := do
  match ← Text.stripEnd? "');".toList (← Text.stripStart? "data.append('".toList s) with
  | [c] => if isBare c then return .append c else none
  | _ => none

def readStatement? (s : List Char) : Option Statement :=
  (readAssignment? s).or (readAppend? s)

namespace Statement

def source : Statement → List Char
  | assign i v =>
    "data[".toList ++ (Nat.toDigits 10 i ++ ("] = ".toList ++ (integerChars v ++ [';'])))
  | append c => "data.append('".toList ++ ([c] ++ "');".toList)

theorem source_assign (i : Nat) (v : Int) :
    (assign i v).source =
      "data[".toList ++ (Nat.toDigits 10 i ++ ("] = ".toList ++ (integerChars v ++ [';']))) := rfl

theorem source_append (c : Char) :
    (append c).source = "data.append('".toList ++ ([c] ++ "');".toList) := rfl

/-- The statement can be written without an escape. -/
def Bare : Statement → Prop
  | assign _ _ => True
  | append c => isBare c = true

end Statement

theorem readAssignment?_source (i : Nat) (v : Int) :
    readAssignment? (Statement.assign i v).source = some (.assign i v) := by
  have hdigit : ∀ c ∈ Nat.toDigits 10 i, decide (c ≠ ']') = true := fun c hc =>
    decide_eq_true (isDigit_ne (Nat.isDigit_of_mem_toDigits (by omega) (by omega) hc) rfl)
  have htake : (Nat.toDigits 10 i ++ ("] = ".toList ++ (integerChars v ++ [';']))).takeWhile
      (· ≠ ']') = Nat.toDigits 10 i := by
    rw [List.takeWhile_append_of_pos hdigit]
    exact List.append_nil _
  have hdrop : (Nat.toDigits 10 i ++ ("] = ".toList ++ (integerChars v ++ [';']))).dropWhile
      (· ≠ ']') = "] = ".toList ++ (integerChars v ++ [';']) := by
    rw [List.dropWhile_append_of_pos hdigit]
    rfl
  unfold readAssignment? Statement.source
  rw [Text.stripStart?_append]
  simp only [Option.bind_eq_bind, Option.bind_some, htake, hdrop, readNumber?_toDigits,
    Text.stripStart?_append, Text.stripEnd?_append,
    readInteger?_integerChars]
  rfl

theorem readAppend?_source {c : Char} (hbare : isBare c = true) :
    readAppend? (Statement.append c).source = some (.append c) := by
  unfold readAppend? Statement.source
  rw [Text.stripStart?_append]
  simp only [Option.bind_eq_bind, Option.bind_some, Text.stripEnd?_append, if_pos hbare]
  rfl

theorem readStatement?_source {s : Statement} (hbare : s.Bare) :
    readStatement? s.source = some s := by
  cases s with
  | assign i v => rw [readStatement?, readAssignment?_source, Option.some_or]
  | append c =>
    have hother : readAssignment? (Statement.append c).source = none := rfl
    rw [readStatement?, hother, readAppend?_source hbare]
    rfl

/-! ### Lines without line feeds -/

theorem newline_not_mem_toDigits (n : Nat) : '\n' ∉ Nat.toDigits 10 n := fun h =>
  isDigit_ne (Nat.isDigit_of_mem_toDigits (by omega) (by omega) h) (by decide) rfl

theorem newline_not_mem_integerChars (v : Int) : '\n' ∉ integerChars v := by
  cases v with
  | ofNat n => exact newline_not_mem_toDigits n
  | negSucc n =>
    rw [integerChars, List.mem_cons]
    rintro (h | h)
    · exact absurd h (by decide)
    · exact newline_not_mem_toDigits _ h

theorem newline_not_mem_source {s : Statement} (hbare : s.Bare) : '\n' ∉ s.source := by
  cases s with
  | assign i v =>
    simp only [Statement.source_assign, List.mem_append, not_or]
    exact ⟨by decide, newline_not_mem_toDigits i, by decide, newline_not_mem_integerChars v,
      by decide⟩
  | append c =>
    simp only [Statement.source_append, List.mem_append, List.mem_singleton, not_or]
    refine ⟨by decide, ?_, by decide⟩
    rintro rfl
    exact absurd (show isBare '\n' = true from hbare) (by decide)

theorem newline_not_mem_identifier {name : String} (hname : isIdentifier name = true) :
    '\n' ∉ name.toList := by
  unfold isIdentifier at hname
  split at hname
  next => cases hname
  next c cs hchars =>
    rw [Bool.and_eq_true, isNameStart, Bool.and_eq_true, List.all_eq_true] at hname
    rw [hchars, List.mem_cons]
    rintro (rfl | h)
    · exact absurd hname.1.1 (by decide)
    · exact absurd (hname.2 _ h) (by decide)

/-- The text, if it is a name. -/
def readName? (s : List Char) : Option String :=
  if isIdentifier (String.ofList s) then some (String.ofList s) else none

def readInvocation? (s : List Char) : Option String := do
  readName? (← Text.stripEnd? "();".toList s)

theorem readName?_toList {name : String} (hname : isIdentifier name = true) :
    readName? name.toList = some name := by
  rw [readName?, String.ofList_toList, if_pos hname]

theorem readInvocation?_toList {name : String} (hname : isIdentifier name = true) :
    readInvocation? (name ++ "();").toList = some name := by
  rw [readInvocation?, String.toList_append, Text.stripEnd?_append]
  exact readName?_toList hname

/-! ### Members -/

/-- The field of a declaration that lacks its semicolon, with its initial value. -/
def readField? (s : List Char) : Option Member := do
  let s ← Text.stripStart? "public static final ".toList s
  if s = "StringBuilder data = new StringBuilder()".toList then
    return .field (.builder [])
  else
    let s ← Text.stripStart? "byte[] data = new byte[".toList s
    let size ← readNumber? (← Text.stripEnd? [']'] s)
    return .field (.array (List.replicate size 0))

/-- The static block or the method of a head and the lines of its body. -/
def readMember? (head : List Char) (body : List (List Char)) : Option Member :=
  if head = "static".toList then (body.mapM readInvocation?).map .initializer
  else do
    let s ← Text.stripStart? "private static void ".toList head
    let name ← readName? (← Text.stripEnd? "()".toList s)
    return .method name (← body.mapM readStatement?)

theorem readMember?_static {calls : List String}
    (hcalls : ∀ name ∈ calls, isIdentifier name = true) :
    readMember? "static".toList (calls.map fun name => (name ++ "();").toList) =
      some (.initializer calls) := by
  have hread : (calls.mapM fun name => readInvocation? (name ++ "();").toList) = some calls := by
    rw [mapM_eq_some fun name hname => readInvocation?_toList (hcalls name hname), List.map_id']
  rw [readMember?, if_pos rfl, List.mapM_map]
  exact congrArg (Option.map Member.initializer) hread

theorem readMember?_method {name : String} (hname : isIdentifier name = true) {body : List Statement}
    (hbody : ∀ s ∈ body, s.Bare) :
    readMember? ("private static void ".toList ++ (name.toList ++ "()".toList))
        (body.map Statement.source) = some (.method name body) := by
  have hread : (body.mapM fun s => readStatement? s.source) = some body := by
    rw [mapM_eq_some fun s hs => readStatement?_source (hbody s hs), List.map_id']
  have hhead : "private static void ".toList ++ (name.toList ++ "()".toList) ≠ "static".toList :=
    fun h => absurd (List.cons.inj h).1 (by decide)
  rw [readMember?, if_neg hhead, Text.stripStart?_append]
  simp only [Option.bind_eq_bind, Option.bind_some, Text.stripEnd?_append,
    readName?_toList hname, List.mapM_map, Function.comp_def, hread]
  rfl

theorem readField?_array (size : Nat) :
    readField? ("public static final ".toList ++
        ("byte[] data = new byte[".toList ++ (Nat.toDigits 10 size ++ [']']))) =
      some (.field (.array (List.replicate size 0))) := by
  have hother : "byte[] data = new byte[".toList ++ (Nat.toDigits 10 size ++ [']']) ≠
      "StringBuilder data = new StringBuilder()".toList :=
    fun h => absurd (List.cons.inj h).1 (by decide)
  rw [readField?, Text.stripStart?_append]
  simp only [Option.bind_eq_bind, Option.bind_some, if_neg hother,
    Text.stripStart?_append, Text.stripEnd?_append,
    readNumber?_toDigits]
  rfl

theorem readField?_builder :
    readField? "public static final StringBuilder data = new StringBuilder()".toList =
      some (.field (.builder [])) := by
  decide

/-! ### Lines -/

/-- What a line is set in by. -/
def inset : List Char := [' ', ' ', ' ', ' ']

/-- The members from a line on. Where the line is inside a member, `inside` holds the head of the
member and the lines of its body so far. -/
def readMembers? (inside : Option (List Char × List (List Char))) :
    List (List Char) → Option (List Member)
  | [] => none
  | line :: rest =>
    match inside with
    | some (head, body) =>
      if line = inset ++ ['}'] then do
        let member ← readMember? head body
        return member :: (← readMembers? none rest)
      else do
        let line ← Text.stripStart? (inset ++ inset) line
        readMembers? (some (head, body ++ [line])) rest
    | none =>
      if line = [] then readMembers? none rest
      else if line = ['}'] then if rest = [[]] then some [] else none
      else do
        let line ← Text.stripStart? inset line
        match Text.stripEnd? [' ', '{'] line with
        | some head => readMembers? (some (head, [])) rest
        | none =>
          let member ← readField? (← Text.stripEnd? [';'] line)
          return member :: (← readMembers? none rest)

/-- The lines of a member with a body in braces. -/
def blockLines (head : List Char) (body : List (List Char)) : List (List Char) :=
  (inset ++ (head ++ [' ', '{'])) :: (body.map fun line => inset ++ inset ++ line) ++ [inset ++ ['}']]

theorem newline_not_mem_blockLines {head : List Char} {body : List (List Char)}
    (hhead : '\n' ∉ head) (hbody : ∀ line ∈ body, '\n' ∉ line) :
    ∀ line ∈ blockLines head body, '\n' ∉ line := by
  intro line hline
  rw [blockLines, List.mem_append, List.mem_cons, List.mem_map, List.mem_singleton] at hline
  rcases hline with (rfl | ⟨inner, hinner, rfl⟩) | rfl
  · simp [inset, hhead]
  · simp [inset, hbody inner hinner]
  · decide

/-- The lines up to the closing brace are the rest of the body. -/
theorem readMembers?_body (head : List Char) (before body rest : List (List Char)) :
    readMembers? (some (head, before))
        ((body.map fun line => inset ++ inset ++ line) ++ (inset ++ ['}']) :: rest) =
      (readMember? head (before ++ body)).bind fun member =>
        (readMembers? none rest).map (member :: ·) := by
  induction body generalizing before with
  | nil =>
    rw [List.map_nil, List.nil_append, readMembers?.eq_def, List.append_nil]
    simp only [if_pos, Option.bind_eq_bind, Option.pure_def, Option.map_eq_bind]
    rfl
  | cons line body ih =>
    have hopen : inset ++ inset ++ line ≠ inset ++ ['}'] := by
      intro h
      rw [List.append_assoc] at h
      exact absurd (List.cons.inj (List.append_cancel_left h)).1 (by decide)
    rw [List.map_cons, List.cons_append, readMembers?.eq_def]
    simp only [if_neg hopen, Text.stripStart?_append, Option.bind_eq_bind,
      Option.bind_some]
    rw [ih, List.append_assoc, List.singleton_append]

/-- A member after an empty line is read back. -/
theorem readMembers?_block {head : List Char} {body rest : List (List Char)} {member : Member}
    (hread : readMember? head body = some member) :
    readMembers? none ([] :: (blockLines head body ++ rest)) =
      (readMembers? none rest).map (member :: ·) := by
  have hline : inset ++ (head ++ [' ', '{']) ≠ ['}'] := fun h =>
    absurd (List.cons.inj h).1 (by decide)
  rw [readMembers?.eq_def]
  simp only [if_pos]
  rw [blockLines, List.cons_append, List.cons_append, readMembers?.eq_def]
  simp only [if_neg hline, Text.stripStart?_append, Text.stripEnd?_append,
    Option.bind_eq_bind, Option.bind_some]
  rw [List.append_assoc, List.singleton_append, readMembers?_body, List.nil_append, hread,
    Option.bind_some, if_neg (by simp [inset])]

/-- A field on the next line is read back. -/
theorem readMembers?_field {declaration : List Char} {member : Member}
    (hread : readField? declaration = some member) (rest : List (List Char)) :
    readMembers? none ((inset ++ (declaration ++ [';'])) :: rest) =
      (readMembers? none rest).map (member :: ·) := by
  have hline : inset ++ (declaration ++ [';']) ≠ ['}'] := fun h =>
    absurd (List.cons.inj h).1 (by decide)
  have hopen : Text.stripEnd? [' ', '{'] (declaration ++ [';']) = none := by
    cases h : Text.stripEnd? [' ', '{'] (declaration ++ [';']) with
    | none => rfl
    | some before =>
      have hlast := congrArg List.getLast? (Text.stripEnd?_eq_some_iff.mp h)
      simp at hlast
  rw [readMembers?.eq_def]
  simp only [if_neg hline, Text.stripStart?_append, hopen,
    Text.stripEnd?_append, Option.bind_eq_bind, Option.bind_some, hread]
  rw [if_neg (by simp [inset])]
  simp only [Option.pure_def, Option.map_eq_bind]
  rfl

theorem readMembers?_end : readMembers? none [['}'], []] = some [] := rfl

/-- The text of a class up to its first member. -/
def header (space name : String) : List Char :=
  (if space = "" then [] else "package ".toList ++ space.toList ++ ";\n\n".toList) ++
    "// Generated by contractgen. Do not edit.\npublic class ".toList ++ name.toList ++
    " \x7b\n".toList

/-- The members of the class of a package and a name. -/
def readClass? (space name content : String) : Option (List Member) := do
  let text ← Text.stripStart? (header space name) content.toList
  readMembers? none (Text.segments '\n' text)

theorem segments_line {line : List Char} (hline : '\n' ∉ line) (rest : List Char) :
    Text.segments '\n' (line ++ '\n' :: rest) = line :: Text.segments '\n' rest := by
  induction line with
  | nil => rw [List.nil_append, Text.segments, if_pos rfl]
  | cons c cs ih =>
    have hc : c ≠ '\n' := fun h => hline (h ▸ List.mem_cons_self)
    rw [List.cons_append, Text.segments, if_neg hc, ih fun h => hline (List.mem_cons_of_mem _ h)]

theorem segments_lines {lines : List (List Char)} (hlines : ∀ line ∈ lines, '\n' ∉ line) :
    Text.segments '\n' (lines.flatMap fun line => line ++ ['\n']) = lines ++ [[]] := by
  induction lines with
  | nil => rfl
  | cons line rest ih =>
    rw [List.flatMap_cons, List.append_assoc, List.singleton_append,
      segments_line (hlines line List.mem_cons_self),
      ih fun l hl => hlines l (List.mem_cons_of_mem _ hl), List.cons_append]

/-- A class of whole lines is read by reading its lines. -/
theorem readClass?_lines {space name content : String} {lines : List (List Char)}
    (hcontent : content.toList = header space name ++ lines.flatMap fun line => line ++ ['\n'])
    (hlines : ∀ line ∈ lines, '\n' ∉ line) :
    readClass? space name content = readMembers? none (lines ++ [[]]) := by
  rw [readClass?, Text.stripStart?_eq_some_iff.mpr hcontent]
  simp only [Option.bind_eq_bind, Option.bind_some, segments_lines hlines]

/-! ### Classes as they are laid out -/

theorem toList_indent (line : String) : (indent line).toList = inset ++ line.toList := by
  rw [indent, String.toList_append]
  rfl

namespace Class

/-- The lines after the head of a class. -/
def memberLines (c : Class) : List String :=
  (c.fields.flatMap (·.lines)).map indent ++ c.members.flatMap (fun m => "" :: m.map memberLine) ++
    ["\x7d"]

theorem toList_headLines {c : Class} (himplements : c.implements = []) :
    (c.headLines.flatMap fun line => line.toList ++ ['\n']) = header c.package c.name := by
  unfold headLines header
  rw [himplements]
  by_cases hspace : c.package = ""
  · simp [hspace]
  · simp [hspace]

theorem toList_render_lines (c : Class) :
    c.render.toList = (c.lines.map String.toList).flatMap fun line => line ++ ['\n'] := by
  simp [render, String.toList_join, List.flatMap_map]

/-- The text of a class without interfaces is its head and the lines after it. -/
theorem toList_render {c : Class} (himplements : c.implements = []) :
    c.render.toList = header c.package c.name ++
      (c.memberLines.map String.toList).flatMap fun line => line ++ ['\n'] := by
  have hlines : c.lines = c.headLines ++ c.memberLines := by
    simp only [lines, memberLines, List.append_assoc]
  rw [toList_render_lines, hlines, List.map_append, List.flatMap_append,
    ← toList_headLines himplements, List.flatMap_map]

theorem toList_memberLine {line : String} (hline : line ≠ "") :
    (memberLine line).toList = inset ++ line.toList := by
  rw [memberLine, if_neg (by simpa using hline), toList_indent]

theorem map_memberLine_block (head : String) (body : List String) :
    ((block head body).map memberLine).map String.toList =
      blockLines head.toList (body.map String.toList) := by
  have hbody : ∀ line : String, (memberLine (indent line)).toList = inset ++ inset ++ line.toList := by
    intro line
    rw [toList_memberLine (by simp [indent]), toList_indent, List.append_assoc]
  simp only [block, blockLines, List.map_append, List.map_cons, List.map_map, List.map_nil,
    Function.comp_def, hbody, toList_memberLine (show head ++ " \x7b" ≠ "" by simp),
    toList_memberLine (show "\x7d" ≠ "" by simp), String.toList_append]
  rfl

end Class
end ContractForge.Java
