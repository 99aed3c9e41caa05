/-
Command lines. Options stand before or after the name of the action they belong to, as `--name
value`, `--name=value`, `-n value`, `-nvalue` or `-n=value`; none may be repeated, and a separate
value may not look like an option.
-/

namespace Newsletter.Command

/-! ## Options -/

/-- An option that can be given. -/
structure Flag where
  long : String
  short : Option Char := none
  /-- Whether the option has a value. -/
  hasValue : Bool := true
  /-- Whether the value may be empty. -/
  allowsEmpty : Bool := false
  deriving DecidableEq, Repr

/-- Why a command line gives no invocation. -/
inductive Stop where
  /-- The help text was asked for. -/
  | help
  /-- The command line is not well-formed. -/
  | misuse
  deriving DecidableEq, Repr

/-- The options found, by their long names. -/
abbrev Found := List (String × String)

/-- Whether a word looks like an option; a single dash does not. -/
def looksLikeOption (word : String) : Bool :=
  word.toList.head? = some '-' && word != "-"

/-- A text up to its first `=`, and what follows it. -/
def splitEquals (cs : List Char) : List Char × Option (List Char) :=
  match cs.dropWhile (· ≠ '=') with
  | [] => (cs, none)
  | _ :: value => (cs.takeWhile (· ≠ '='), some value)

/-- What a word means. -/
inductive Word where
  /-- An option that is complete. -/
  | option (flag : Flag) (value : String)
  /-- An option whose value is the next word. -/
  | needsValue (flag : Flag)
  | stop (why : Stop)
  /-- The mark after which there are no options. -/
  | endOfOptions
  /-- A word that is no option. -/
  | plain

/-- What an option means, given the value attached to it. -/
def Word.ofFlag (flag : Option Flag) (isHelp : Bool) (attached : Option (List Char)) : Word :=
  match flag, attached with
  | none, none => .stop (if isHelp then .help else .misuse)
  | none, some _ => .stop .misuse
  | some flag, none => if flag.hasValue then .needsValue flag else .option flag ""
  | some flag, some value =>
    if flag.hasValue then .option flag (String.ofList value) else .stop .misuse

/-- What a word means where the given options are known. -/
def Word.of (flags : List Flag) (word : String) : Word :=
  match word.toList with
  | ['-', '-'] => .endOfOptions
  | '-' :: '-' :: cs =>
    let (name, value) := splitEquals cs
    Word.ofFlag (flags.find? (·.long.toList = name)) (name = "help".toList) value
  | '-' :: 'h' :: _ => .stop .help
  | ['-', c] => Word.ofFlag (flags.find? (·.short = some c)) false none
  | '-' :: c :: '=' :: value => Word.ofFlag (flags.find? (·.short = some c)) false (some value)
  | '-' :: c :: value => Word.ofFlag (flags.find? (·.short = some c)) false (some value)
  | _ => .plain

/-- Adds an option to those found before it. -/
def add (flag : Flag) (value : String) (found : Found) : Except Stop Found :=
  if (found.lookup flag.long).isSome then .error .misuse
  else if value = "" && flag.hasValue && !flag.allowsEmpty then .error .misuse
  else .ok ((flag.long, value) :: found)

/-- The options of the words read so far. One whose value is a word of its own is added only when
another option follows or the command line ends. -/
structure Reading where
  found : Found := []
  pending : Option (Flag × String) := none

/-- All options, the pending one included. -/
def Reading.settle (reading : Reading) : Except Stop Found :=
  match reading.pending with
  | none => .ok reading.found
  | some (flag, value) => add flag value reading.found

/-- The options at the front of a command line, and what follows them. A request for help comes into
effect only if nothing before it is wrong. -/
def readOptions (flags : List Flag) (reading : Reading) :
    List String → Except Stop (Reading × List String)
  | [] => .ok (reading, [])
  | word :: words =>
    match Word.of flags word with
    | .stop why => do
      let _ ← reading.settle
      .error why
    | .endOfOptions => if words = [] then .ok (reading, []) else .error .misuse
    | .plain => .ok (reading, word :: words)
    | .option flag value => do
      let found ← add flag value (← reading.settle)
      readOptions flags { found } words
    | .needsValue flag =>
      match words with
      | [] => .error .misuse
      | value :: words =>
        if looksLikeOption value then .error .misuse
        else do
          let found ← reading.settle
          readOptions flags { found, pending := some (flag, value) } words

/-! ## Invocations -/

/-- What the program is asked to do. -/
inductive Action where
  /-- Compile a design tree and write the package. -/
  | compile (input out : String) (denyWarnings : Bool)
  /-- Render a block. -/
  | render (input : String)
  /-- Apply a message to a design document, and save the document if asked to. -/
  | handle (document message : String) (save : Bool)
  deriving DecidableEq, Repr

/-- An action and the file of the settings. -/
structure Invocation where
  settings : String
  action : Action
  deriving DecidableEq, Repr

/-- The file of the settings unless another one is named. -/
def defaultSettingsFile : String := "newsletterify.json"

def commonFlags : List Flag :=
  [{ long := "config", short := some 'c' }, { long := "log-level", allowsEmpty := true }]

def compileFlags : List Flag :=
  [{ long := "input", short := some 'i' }, { long := "out", short := some 'o' },
    { long := "deny-warnings", hasValue := false }]

def renderFlags : List Flag := [{ long := "input", short := some 'i' }]

def handleFlags : List Flag :=
  [{ long := "document", short := some 'd' },
    { long := "request", short := some 'r', allowsEmpty := true },
    { long := "write", hasValue := false }]

/-- The options of an action, with nothing behind them. -/
def readAll (flags : List Flag) (words : List String) : Except Stop Found := do
  let (reading, rest) ← readOptions flags {} words
  if rest = [] then reading.settle else .error .misuse

/-- An option that must be given. -/
def required (found : Found) (name : String) : Except Stop String :=
  match found.lookup name with
  | some value => .ok value
  | none => .error .misuse

/-- What there is help for. -/
def helpTopics : List String := ["compile", "render", "handle", "help"]

/-- The action of a name and its options. -/
def readAction (name : String) (words : List String) : Except Stop Action :=
  if name = "compile" then do
    let found ← readAll compileFlags words
    let input ← required found "input"
    let out ← required found "out"
    return .compile input out (found.lookup "deny-warnings").isSome
  else if name = "render" then do
    let found ← readAll renderFlags words
    return .render (← required found "input")
  else if name = "handle" then do
    let found ← readAll handleFlags words
    let document ← required found "document"
    let message ← required found "request"
    return .handle document message (found.lookup "write").isSome
  else if name = "help" then
    .error (if words = [] ∨ words ∈ helpTopics.map ([·]) then .help else .misuse)
  else .error .misuse

/-- The invocation of a command line. -/
def Invocation.ofWords (words : List String) : Except Stop Invocation := do
  let (reading, rest) ← readOptions commonFlags {} words
  match rest with
  | [] => .error .misuse
  | name :: words =>
    let action ← readAction name words
    let found ← reading.settle
    return { settings := (found.lookup "config").getD defaultSettingsFile, action }

end Newsletter.Command
