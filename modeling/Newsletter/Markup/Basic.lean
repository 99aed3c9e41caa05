/-
Markup: a text form of nested elements with attributes. The five characters that could be taken for
markup are escaped wherever free text is written.
-/

namespace Newsletter

/-- A piece of markup. -/
inductive Markup where
  /-- Character data. -/
  | text (content : String)
  /-- An element between a start tag and an end tag. -/
  | element (name : String) (attributes : List (String × String)) (children : List Markup)
  /-- An element that is closed at once. -/
  | void (name : String) (attributes : List (String × String))
  deriving Repr

namespace Markup

/-- A character of free text as it is written. -/
def escapeChar (c : Char) : List Char :=
  if c = '&' then "&amp;".toList
  else if c = '<' then "&lt;".toList
  else if c = '>' then "&gt;".toList
  else if c = '"' then "&quot;".toList
  else if c = '\'' then "&apos;".toList
  else [c]

/-- Free text as it is written. -/
def escape (text : String) : String := String.ofList (text.toList.flatMap escapeChar)

/-- The attributes of an element, each after a blank. -/
def renderAttributes : List (String × String) → String
  | [] => ""
  | (name, value) :: rest => " " ++ name ++ "=\"" ++ escape value ++ "\"" ++ renderAttributes rest

mutual

/-- The text of a piece of markup. -/
def render : Markup → String
  | .text content => escape content
  | .element name attributes children =>
    "<" ++ name ++ renderAttributes attributes ++ ">" ++ renderList children ++
      "</" ++ name ++ ">"
  | .void name attributes => "<" ++ name ++ renderAttributes attributes ++ " />"
termination_by structural markup => markup

/-- The text of pieces of markup one after the other. -/
def renderList : List Markup → String
  | [] => ""
  | piece :: pieces => render piece ++ renderList pieces
termination_by structural pieces => pieces

end

/-- Character data, unless it is empty. -/
def ofText (content : String) : List Markup := if content = "" then [] else [.text content]

end Markup

end Newsletter
