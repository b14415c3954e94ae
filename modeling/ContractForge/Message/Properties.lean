import ContractForge.Text.Blank
import ContractForge.Text.Hex

/-!
# Properties files

Keys and values of a message file, one entry a line.

* `Properties` : the values bound to keys. A later binding of a key replaces an earlier one.
* `Properties.lines` : the lines of a text, each ended by a line feed with or without a carriage
  return before it.
* `Properties.logicalLines` : the lines of entries, without blank and comment lines, and with each
  line that ends in an odd number of backslashes joined to the next.
* `Properties.splitEntry` : key and value of an entry, still escaped, cut at the first unescaped
  `=`, `:` or blank.
* `Properties.unescape` : a text with its escapes decoded.
* `Properties.parse` : all of it. Every text can be read.
-/

namespace ContractForge

/-- Keys in increasing order, each with its value. -/
structure Properties where
  bindings : List (String × String) := []

namespace Properties

/-- The value bound to a key. -/
def find? (p : Properties) (key : String) : Option String :=
  (p.bindings.find? (·.1 == key)).map (·.2)

/-- Bindings with one more, in place of the binding of the same key. -/
def insertBinding (key value : String) : List (String × String) → List (String × String)
  | [] => [(key, value)]
  | x :: xs =>
    if key = x.1 then (key, value) :: xs
    else if key < x.1 then (key, value) :: x :: xs
    else x :: insertBinding key value xs

/-- Binds a key to a value. -/
def insert (p : Properties) (key value : String) : Properties :=
  ⟨insertBinding key value p.bindings⟩

theorem find?_insert (p : Properties) (key value key' : String) :
    (p.insert key value).find? key' = if key' = key then some value else p.find? key' := by
  obtain ⟨bs⟩ := p
  simp only [find?, insert]
  induction bs with
  | nil => grind [insertBinding]
  | cons x xs ih => grind [insertBinding]

/-- The lines of a text. A line feed ends a line, together with one carriage return before it; what
follows the last line feed is a line unless it is empty. -/
def lines : List Char → List (List Char)
  | [] => []
  | '\n' :: rest => [] :: lines rest
  | '\r' :: '\n' :: rest => [] :: lines rest
  | c :: rest =>
    match lines rest with
    | [] => [[c]]
    | line :: further => (c :: line) :: further

/-- The line goes on in the next one: it ends in an odd number of backslashes. -/
def continues (line : List Char) : Bool :=
  (line.reverse.takeWhile (· = '\\')).length % 2 = 1

/-- A line with the lines that continue it, and the lines that are left. A backslash at the end of
the last line is dropped. -/
def joinContinued (line : List Char) : List (List Char) → List Char × List (List Char)
  | [] => (if continues line then line.dropLast else line, [])
  | next :: rest =>
    if continues line then joinContinued (line.dropLast ++ Text.trimStart next) rest
    else (line, next :: rest)

theorem length_joinContinued (line : List Char) (rest : List (List Char)) :
    (joinContinued line rest).2.length ≤ rest.length := by
  induction rest generalizing line with
  | nil => simp [joinContinued]
  | cons next rest ih => grind [joinContinued]

/-- The line holds no entry: it is blank or a comment. -/
def isIgnored (line : List Char) : Bool :=
  match Text.trimStart line with
  | [] => true
  | c :: _ => c = '#' || c = '!'

/-- The lines of entries, each with its continuations and without the blanks it begins with. -/
def logicalLines : List (List Char) → List (List Char)
  | [] => []
  | line :: rest =>
    if isIgnored line then logicalLines rest
    else
      (joinContinued (Text.trimStart line) rest).1 ::
        logicalLines (joinContinued (Text.trimStart line) rest).2
termination_by ls => ls.length
decreasing_by
  · simp
  · have := length_joinContinued (Text.trimStart line) rest
    simp only [List.length_cons]
    omega

/-- The text before the first unescaped `=`, `:` or blank, and the text from there on. -/
def splitKey : List Char → List Char × List Char
  | [] => ([], [])
  | ['\\'] => (['\\'], [])
  | '\\' :: c :: rest => ('\\' :: c :: (splitKey rest).1, (splitKey rest).2)
  | c :: rest =>
    if c = '=' || c = ':' || Text.isBlank c then ([], c :: rest)
    else (c :: (splitKey rest).1, (splitKey rest).2)

/-- What follows a separator: blanks, at most one `=` or `:`, and blanks again. -/
def dropSeparator (rest : List Char) : List Char :=
  match Text.trimStart rest with
  | '=' :: value => Text.trimStart value
  | ':' :: value => Text.trimStart value
  | value => value

/-- Key and value of an entry, still escaped. -/
def splitEntry (line : List Char) : List Char × List Char :=
  ((splitKey line).1, dropSeparator (splitKey line).2)

/-- The value of hex digits. -/
def hexNumber? (digits : List Char) : Option Nat :=
  digits.foldlM (fun n c => (Text.hexValue? c).map (16 * n + ·)) 0

/-- The character with a code written in hex, perhaps after a plus sign. -/
def charOfHex? (digits : List Char) : Option Char :=
  let digits :=
    match digits with
    | '+' :: rest => rest
    | _ => digits
  match digits, hexNumber? digits with
  | _ :: _, some n => if n.isValidChar then some (Char.ofNat n) else none
  | _, _ => none

/-- What a unicode escape with these digits stands for. -/
def decodeHex (digits : List Char) : List Char :=
  match charOfHex? digits with
  | some c => [c]
  | none => 'u' :: digits

/-- What a backslash before a character other than `u` stands for. -/
def unescapeChar (c : Char) : Char :=
  if c = 't' then '\t'
  else if c = 'n' then '\n'
  else if c = 'r' then '\r'
  else if c = 'f' then '\x0c'
  else c

/-- A text with its escapes decoded. A unicode escape takes the next four characters, or as many as
there are; a backslash at the end is dropped. -/
def unescape : List Char → List Char
  | [] => []
  | ['\\'] => []
  | '\\' :: 'u' :: rest => decodeHex (rest.take 4) ++ unescape (rest.drop 4)
  | '\\' :: c :: rest => unescapeChar c :: unescape rest
  | c :: rest => c :: unescape rest
termination_by s => s.length
decreasing_by all_goals grind

/-- Key and value of an entry. -/
def entry (line : List Char) : String × String :=
  (String.ofList (unescape (splitEntry line).1), String.ofList (unescape (splitEntry line).2))

/-- The entries of a text, in order. -/
def entries (text : List Char) : List (String × String) :=
  (logicalLines (lines text)).map entry

/-- The bindings of a text. -/
def parse (text : String) : Properties :=
  (entries text.toList).foldl (fun p e => p.insert e.1 e.2) {}

/-- The text of a file: its bytes as UTF-8, or else each byte as the character of its code. -/
def decode (bytes : ByteArray) : String :=
  match String.fromUTF8? bytes with
  | some text => text
  | none => String.ofList (bytes.data.toList.map fun b => Char.ofNat b.toNat)

end Properties
end ContractForge
