/-
The syntax tree of a JSON text: numbers as numerals, the members of an object in the order of the
text with repeats kept. Trees are read from a text and written compactly or indented.
-/
import Newsletter.Decimal.Numeral
import Newsletter.Json.Quoted

namespace Newsletter.Json

/-- The syntax tree of a JSON text. A text that stands for no character sequence, because it holds
the escape of a lone surrogate, is `none`. -/
inductive Tree where
  | null
  | bool (b : Bool)
  | number (n : Numeral)
  | string (text : Option String)
  | array (items : List Tree)
  | object (members : List (Option String × Tree))
  deriving Repr

namespace Tree

/-- A text. -/
def text (s : String) : Tree := .string (some s)

/-- A natural number. -/
def nat (n : Nat) : Tree :=
  .number { negative := false, whole := n, fraction := [], exponent := none }

/-- An object with the given members. -/
def record (members : List (String × Tree)) : Tree :=
  .object (members.map fun (key, value) => (some key, value))

/-! ## Writing -/

/-- A text or key in quotes. -/
def quoteChars : Option String → List Char
  | some s => quote s
  | none => ['"', '\\', 'u', 'd', '8', '0', '0', '"']

/-- The characters of a constant. -/
def boolChars (b : Bool) : List Char := if b then "true".toList else "false".toList

mutual

/-- The text of a tree without any blanks. -/
def compactChars : Tree → List Char
  | .null => "null".toList
  | .bool b => boolChars b
  | .number n => n.chars
  | .string s => quoteChars s
  | .array [] => ['[', ']']
  | .array (item :: items) => '[' :: (compactChars item ++ compactItems items)
  | .object [] => ['{', '}']
  | .object ((key, value) :: members) =>
    '{' :: (quoteChars key ++ ':' :: (compactChars value ++ compactMembers members))
termination_by structural tree => tree

/-- The items after the first, up to the closing bracket. -/
def compactItems : List Tree → List Char
  | [] => [']']
  | item :: items => ',' :: (compactChars item ++ compactItems items)
termination_by structural items => items

/-- The members after the first, up to the closing brace. -/
def compactMembers : List (Option String × Tree) → List Char
  | [] => ['}']
  | (key, value) :: members =>
    ',' :: (quoteChars key ++ ':' :: (compactChars value ++ compactMembers members))
termination_by structural members => members

end

/-- A new line at a depth; each level is indented by two blanks. -/
def newline (depth : Nat) : List Char := '\n' :: List.replicate (2 * depth) ' '

mutual

/-- The text of a tree with one item or member a line, at a depth. -/
def prettyChars (depth : Nat) : Tree → List Char
  | .null => "null".toList
  | .bool b => boolChars b
  | .number n => n.chars
  | .string s => quoteChars s
  | .array [] => ['[', ']']
  | .array (item :: items) =>
    '[' :: (newline (depth + 1) ++ prettyChars (depth + 1) item ++ prettyItems depth items)
  | .object [] => ['{', '}']
  | .object ((key, value) :: members) =>
    '{' :: (newline (depth + 1) ++ quoteChars key ++ ':' :: ' ' ::
      (prettyChars (depth + 1) value ++ prettyMembers depth members))
termination_by structural tree => tree

/-- The items after the first, up to the closing bracket. -/
def prettyItems (depth : Nat) : List Tree → List Char
  | [] => newline depth ++ [']']
  | item :: items =>
    ',' :: (newline (depth + 1) ++ prettyChars (depth + 1) item ++ prettyItems depth items)
termination_by structural items => items

/-- The members after the first, up to the closing brace. -/
def prettyMembers (depth : Nat) : List (Option String × Tree) → List Char
  | [] => newline depth ++ ['}']
  | (key, value) :: members =>
    ',' :: (newline (depth + 1) ++ quoteChars key ++ ':' :: ' ' ::
      (prettyChars (depth + 1) value ++ prettyMembers depth members))
termination_by structural members => members

end

/-- The text of a tree without any blanks. -/
def compact (t : Tree) : String := String.ofList t.compactChars

/-- The text of a tree with one item or member a line. -/
def pretty (t : Tree) : String := String.ofList (t.prettyChars 0)

/-! ## Reading -/

/-- A blank between the tokens of a JSON text. -/
def isBlank (c : Char) : Bool := c = ' ' || c = '\t' || c = '\n' || c = '\r'

/-- What follows the blanks in front. -/
def skipBlanks (cs : List Char) : List Char := cs.dropWhile isBlank

mutual

/-- The value at the front of a text, and what follows it. Each step into a value, an item or a
member uses up one unit of `fuel`. -/
def readValue? : Nat → List Char → Option (Tree × List Char)
  | 0, _ => none
  | fuel + 1, cs =>
    match skipBlanks cs with
    | 'n' :: 'u' :: 'l' :: 'l' :: rest => some (.null, rest)
    | 't' :: 'r' :: 'u' :: 'e' :: rest => some (.bool true, rest)
    | 'f' :: 'a' :: 'l' :: 's' :: 'e' :: rest => some (.bool false, rest)
    | '"' :: rest => (readQuoted? rest).map fun (s, rest) => (.string s, rest)
    | '[' :: rest =>
      match skipBlanks rest with
      | ']' :: rest => some (.array [], rest)
      | rest => (readItems? fuel rest).map fun (items, rest) => (.array items, rest)
    | '{' :: rest =>
      match skipBlanks rest with
      | '}' :: rest => some (.object [], rest)
      | rest => (readMembers? fuel rest).map fun (members, rest) => (.object members, rest)
    | rest => (Numeral.read? rest).map fun (n, rest) => (.number n, rest)

/-- The items up to the closing bracket, of which there is at least one. -/
def readItems? : Nat → List Char → Option (List Tree × List Char)
  | 0, _ => none
  | fuel + 1, cs =>
    match readValue? fuel cs with
    | none => none
    | some (item, rest) =>
      match skipBlanks rest with
      | ']' :: rest => some ([item], rest)
      | ',' :: rest => (readItems? fuel rest).map fun (items, rest) => (item :: items, rest)
      | _ => none

/-- The members up to the closing brace, of which there is at least one. -/
def readMembers? : Nat → List Char → Option (List (Option String × Tree) × List Char)
  | 0, _ => none
  | fuel + 1, cs =>
    match skipBlanks cs with
    | '"' :: rest =>
      match readQuoted? rest with
      | none => none
      | some (key, rest) =>
        match skipBlanks rest with
        | ':' :: rest =>
          match readValue? fuel rest with
          | none => none
          | some (value, rest) =>
            match skipBlanks rest with
            | '}' :: rest => some ([(key, value)], rest)
            | ',' :: rest =>
              (readMembers? fuel rest).map fun (members, rest) => ((key, value) :: members, rest)
            | _ => none
        | _ => none
    | _ => none

end

/-- The tree of a JSON text: one value with nothing but blanks around it. Every step consumes a
character or is followed by one that does, so twice the length is fuel enough. -/
def read? (text : String) : Option Tree :=
  let cs := text.toList
  match readValue? (2 * cs.length + 2) cs with
  | some (tree, rest) => if skipBlanks rest = [] then some tree else none
  | none => none

end Tree

end Newsletter.Json
