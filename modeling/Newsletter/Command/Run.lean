/-
The program: one action on a file system, and what it prints. Settings are loaded before anything
else. A failure is printed as a JSON object with the reason.
-/
import Newsletter.Command.Arguments
import Newsletter.Package
import Newsletter.Session.Handle

namespace Newsletter.Command

open Json

/-! ## Failures -/

/-- Why an action was not carried out. -/
inductive Failure where
  | settings (error : Settings.LoadError)
  | unreadable (path : String) (error : FileError)
  /-- The file does not hold JSON of the form expected. -/
  | malformed (path : String)
  /-- The message is not JSON. -/
  | malformedMessage
  | compile (error : CompileError)
  | package (error : PackageError)
  | unsaved (error : FileError)
  deriving DecidableEq, Repr

/-- The wording of a failure to load settings, given that of faults in JSON. -/
def settingsMessage (jsonFault : String) : Settings.LoadError → String
  | .unreadable reason => "Failed to read config: " ++ reason
  | .malformed => "Invalid config: " ++ jsonFault
  | .invalid fault => "Invalid config: " ++ fault.message

/-- The wording of a failure, given that of faults in JSON. -/
def Failure.message (jsonFault : String) : Failure → String
  | .settings error => "Failed to load config: " ++ settingsMessage jsonFault error
  | .unreadable path error => "Failed to read " ++ path ++ ": " ++ error.message
  | .malformed path => "Invalid JSON in " ++ path ++ ": " ++ jsonFault
  | .malformedMessage => "Invalid request: " ++ jsonFault
  | .compile error => error.message
  | .package error => error.message
  | .unsaved error => "Failed to save document: " ++ error.message

/-! ## Results -/

/-- What an action gives. -/
inductive Result where
  | packaged (report : PackageReport) (warnings : List String) (denied : Bool)
  | rendered (markup : String)
  | handled (responses : List Response)

/-- What is printed, and the exit status. -/
structure Outcome where
  exit : UInt8
  stdout : String
  deriving DecidableEq, Repr

/-- A tree as it is printed. -/
def printed (tree : Tree) : String := tree.pretty ++ "\n"

/-- The report on a package, with its fields in the order of their names. -/
def packagedTree (report : PackageReport) (warnings : List String) : Tree :=
  .record [("files", .array (report.files.map .text)),
    ("manifestHash", (report.manifestHash.map Tree.text).getD .null),
    ("success", .bool true), ("warnings", .array (warnings.map .text))]

/-- What a result prints. Warnings that are denied give the exit status two. -/
def Result.outcome : Result → Outcome
  | .packaged report warnings denied =>
    { exit := if denied && !warnings.isEmpty then 2 else 0,
      stdout := printed (packagedTree report warnings) }
  | .rendered markup => { exit := 0, stdout := markup ++ "\n" }
  | .handled responses =>
    { exit := 0, stdout := printed (.array (responses.map Response.toTree)) }

/-- What a failure prints. -/
def Failure.outcome (jsonFault : String) (failure : Failure) : Outcome :=
  { exit := 1,
    stdout := printed (.record [("error", .text (failure.message jsonFault)),
      ("success", .bool false)]) }

/-! ## Actions -/

/-- The system an action works on. -/
structure Environment (m : Type → Type) where
  system : System m
  /-- The identity of a new package. -/
  stamp : m Manifest.Stamp

variable {m : Type → Type} [Monad m]

/-- The settings of a file. -/
def loadSettings (system : System m) (path : String) : m (Except Settings.LoadError Settings) := do
  if ← system.isPresent path then
    match ← system.readText path with
    | .error error => return .error (.unreadable error.message)
    | .ok text => return Settings.load (some text)
  else return Settings.load none

/-- Reads a typed value from a file. -/
def readFile {α : Type} (system : System m) (d : Decoder α) (path : String) :
    m (Except Failure α) := do
  match ← system.readText path with
  | .error error => return .error (.unreadable path error)
  | .ok text =>
    match d.read? text with
    | none => return .error (.malformed path)
    | some a => return .ok a

/-- Compiles a design tree and writes the package. -/
def compile (env : Environment m) (settings : Settings) (input out : String) (deny : Bool) :
    m (Except Failure Result) := do
  match ← readFile env.system Shape.decoder input with
  | .error failure => return .error failure
  | .ok root =>
    match Edition.compile settings root.toNode with
    | .error error => return .error (.compile error)
    | .ok edition =>
      let stamp ← env.stamp
      match ← Package.write env.system { settings, edition, stamp } out with
      | .error error => return .error (.package error)
      | .ok report => return .ok (.packaged report edition.warnings deny)

/-- Renders a block. -/
def render (env : Environment m) (input : String) : m (Except Failure Result) := do
  match ← readFile env.system Block.decoder input with
  | .error failure => return .error failure
  | .ok block => return .ok (.rendered block.render)

/-- The design document of a file; a file that does not exist stands for an empty document. -/
def openDocument (system : System m) (path : String) : m (Except Failure Document) := do
  if ← system.isPresent path then readFile system Document.decoder path
  else return .ok Document.empty

/-- The text of a design document as a file. -/
def documentText (doc : Document) : String := doc.toTree.pretty

/-- Applies a message to a design document, and saves the document if asked to. -/
def handle (env : Environment m) (settings : Settings) (path message : String) (save : Bool) :
    m (Except Failure Result) := do
  match ← openDocument env.system path with
  | .error failure => return .error failure
  | .ok doc =>
    match Decoder.value.read? message with
    | none => return .error .malformedMessage
    | some message =>
      let (responses, doc) := Session.receive Document.surface settings message doc
      if save then
        match ← env.system.write path (Bytes.ofText (documentText doc)) with
        | .error error => return .error (.unsaved error)
        | .ok () => return .ok (.handled responses)
      else return .ok (.handled responses)

/-- Carries out an invocation. -/
def Invocation.execute (env : Environment m) (invocation : Invocation) :
    m (Except Failure Result) := do
  match ← loadSettings env.system invocation.settings with
  | .error error => return .error (.settings error)
  | .ok settings =>
    match invocation.action with
    | .compile input out deny => compile env settings input out deny
    | .render input => render env input
    | .handle document message save => handle env settings document message save

/-- Runs a command line, given the wording of faults in JSON. A command line that is not well-formed
prints nothing and gives the exit status two. -/
def run (env : Environment m) (jsonFault : String) (words : List String) : m Outcome := do
  match Invocation.ofWords words with
  | .error .misuse => return { exit := 2, stdout := "" }
  | .error .help => return { exit := 0, stdout := "" }
  | .ok invocation =>
    match ← invocation.execute env with
    | .ok result => return result.outcome
    | .error failure => return failure.outcome jsonFault

end Newsletter.Command
