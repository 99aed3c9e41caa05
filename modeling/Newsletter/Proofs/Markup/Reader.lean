/-
A reader of markup: start tags with blank-separated attributes in double quotes, matching end tags,
tags that close themselves, character data, and the five predefined entities. It refuses all else,
a name that stands twice in one tag included, and it knows nothing of how markup is written.
-/
import Newsletter.Markup.Basic

namespace Newsletter.Markup

/-! ## Free text -/

/-- The text that written characters stand for; a bare `&` or `<` stands for nothing. -/
def unescape? : List Char → Option (List Char)
  | [] => some []
  | '&' :: 'a' :: 'm' :: 'p' :: ';' :: rest => (unescape? rest).map ('&' :: ·)
  | '&' :: 'l' :: 't' :: ';' :: rest => (unescape? rest).map ('<' :: ·)
  | '&' :: 'g' :: 't' :: ';' :: rest => (unescape? rest).map ('>' :: ·)
  | '&' :: 'q' :: 'u' :: 'o' :: 't' :: ';' :: rest => (unescape? rest).map ('"' :: ·)
  | '&' :: 'a' :: 'p' :: 'o' :: 's' :: ';' :: rest => (unescape? rest).map ('\'' :: ·)
  | '&' :: _ => none
  | '<' :: _ => none
  | c :: rest => (unescape? rest).map (c :: ·)

/-! ## Tags -/

def isNameChar (c : Char) : Bool := c.isAlphanum || c = '-' || c = '_' || c = ':' || c = '.'

def isBlank (c : Char) : Bool := c = ' ' || c = '\t' || c = '\n' || c = '\r'

/-- The name in front, and what follows it. -/
def readName? (cs : List Char) : Option (String × List Char) :=
  match cs.takeWhile isNameChar with
  | [] => none
  | name => some (String.ofList name, cs.dropWhile isNameChar)

/-- The value in double quotes in front, and what follows it. -/
def readValue? : List Char → Option (String × List Char)
  | '"' :: cs =>
    match unescape? (cs.takeWhile (· ≠ '"')), cs.dropWhile (· ≠ '"') with
    | some value, '"' :: rest => some (String.ofList value, rest)
    | _, _ => none
  | _ => none

/-- The attribute in front, and what follows it. -/
def readAttribute? (cs : List Char) : Option ((String × String) × List Char) :=
  match readName? cs with
  | some (name, '=' :: rest) => (readValue? rest).map fun (value, rest) => ((name, value), rest)
  | _ => none

/-- The attributes of a tag up to its end, each after a blank, whether the tag closes itself, and
what follows it. Each attribute uses up one unit of `fuel`. -/
def readAttributes? : Nat → List Char → Option (List (String × String) × Bool × List Char)
  | 0, _ => none
  | fuel + 1, cs =>
    match cs.dropWhile isBlank with
    | '>' :: rest => some ([], false, rest)
    | '/' :: '>' :: rest => some ([], true, rest)
    | next =>
      if cs.head?.any isBlank then
        match readAttribute? next with
        | none => none
        | some (first, rest) =>
          match readAttributes? fuel rest with
          | none => none
          | some (others, closed, rest) =>
            if first.1 ∈ others.map Prod.fst then none else some (first :: others, closed, rest)
      else none

/-- The name and the attributes of a tag, whether it closes itself, and what follows it. -/
def readStart? (cs : List Char) :
    Option (String × List (String × String) × Bool × List Char) :=
  match readName? cs with
  | none => none
  | some (name, rest) => (readAttributes? (rest.length + 1) rest).map (name, ·)

/-- What follows the end tag of an element. -/
def readEnd? (name : String) : List Char → Option (List Char)
  | '<' :: '/' :: cs =>
    match readName? cs with
    | none => none
    | some (found, rest) =>
      match rest.dropWhile isBlank with
      | '>' :: rest => if found = name then some rest else none
      | _ => none
  | _ => none

/-! ## Forests -/

/-- The pieces up to an end tag or the end of the text, and what follows them. Each piece uses up
one unit of `fuel`. -/
def readForest? : Nat → List Char → Option (List Markup × List Char)
  | 0, _ => none
  | _ + 1, [] => some ([], [])
  | _ + 1, '<' :: '/' :: rest => some ([], '<' :: '/' :: rest)
  | fuel + 1, '<' :: cs => do
    let (name, attributes, closed, rest) ← readStart? cs
    if closed then
      let (pieces, rest) ← readForest? fuel rest
      return (.void name attributes :: pieces, rest)
    else
      let (children, rest) ← readForest? fuel rest
      let rest ← readEnd? name rest
      let (pieces, rest) ← readForest? fuel rest
      return (.element name attributes children :: pieces, rest)
  | fuel + 1, cs => do
    let content ← unescape? (cs.takeWhile (· ≠ '<'))
    let (pieces, rest) ← readForest? fuel (cs.dropWhile (· ≠ '<'))
    return (.text (String.ofList content) :: pieces, rest)

/-- The pieces of a text that is markup from its first to its last character. -/
def read? (text : String) : Option (List Markup) :=
  match readForest? (text.toList.length + 1) text.toList with
  | some (pieces, []) => some pieces
  | _ => none

end Newsletter.Markup
