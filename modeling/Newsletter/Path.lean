/-
Paths: names separated by slashes. Empty segments and segments `.` mean nothing, except that a
relative path may start with `.`.
-/

namespace Newsletter

/-! ## Segments -/

namespace Path

/-- The texts between the slashes. -/
def splitSlashes : List Char → List (List Char)
  | [] => [[]]
  | c :: cs =>
    match splitSlashes cs with
    | [] => [[c]]
    | segment :: segments => if c = '/' then [] :: segment :: segments else (c :: segment) :: segments

/-- The segments of a path, the empty ones included. -/
def segments (path : String) : List String := (splitSlashes path.toList).map String.ofList

def isAbsolute (path : String) : Bool := path.toList.head? = some '/'

/-! ## Parts -/

/-- A part of a path. -/
inductive Part where
  | root
  | current
  | parent
  | name (text : String)
  deriving DecidableEq, Repr

def Part.isName : Part → Bool
  | .name _ => true
  | _ => false

/-- The text of a part; that of the root is empty, as nothing stands before the first slash. -/
def Part.text : Part → String
  | .root => ""
  | .current => "."
  | .parent => ".."
  | .name text => text

/-- The part that a segment stands for, if it stands for one. -/
def Part.ofSegment? (segment : String) : Option Part :=
  if segment = "" ∨ segment = "." then none
  else if segment = ".." then some .parent
  else some (.name segment)

/-- The parts of a path. -/
def parts (path : String) : List Part :=
  let segments := segments path
  let start : List Part :=
    if isAbsolute path then [.root]
    else if segments.head? = some "." then [.current]
    else []
  start ++ segments.filterMap Part.ofSegment?

/-- The text of parts. -/
def ofParts : List Part → String
  | [] => ""
  | .root :: rest => "/" ++ String.intercalate "/" (rest.map Part.text)
  | parts => String.intercalate "/" (parts.map Part.text)

/-- The path without its last part, then without its last two parts and so on. -/
def ancestors (path : String) : List String :=
  let parts := parts path
  (List.range parts.length).reverse.map fun n => ofParts (parts.take n)

/-- A path below a directory; an absolute path stays what it is. -/
def join (directory path : String) : String :=
  if isAbsolute path then path
  else if directory = "" ∨ directory.toList.getLast? = some '/' then directory ++ path
  else directory ++ "/" ++ path

end Path

end Newsletter
