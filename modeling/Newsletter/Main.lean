/-
The command line: the file system of the machine, the identity of a new package, and the program
run on the words that were given.
-/
import Newsletter.Command.Run
import Newsletter.Identifier
import Std.Time.DateTime

namespace Newsletter.Machine

/-! ## The file system -/

/-- The number of the system for a failure, and its wording. -/
def numbered : IO.Error → Option (UInt32 × String)
  | .alreadyExists _ number wording | .invalidArgument _ number wording
  | .permissionDenied _ number wording | .resourceExhausted _ number wording
  | .inappropriateType _ number wording | .noSuchThing _ number wording
  | .interrupted _ number wording | .noFileOrDirectory _ number wording
  | .otherError number wording | .resourceBusy number wording | .resourceVanished number wording
  | .unsupportedOperation number wording | .hardwareFault number wording
  | .unsatisfiedConstraints number wording | .illegalOperation number wording
  | .protocolError number wording | .timeExpired number wording => some (number, wording)
  | .unexpectedEof | .userError _ => none

/-- A number with its sign dropped: the machine also gives the numbers of the system negated. -/
def unsigned (number : UInt32) : Nat := min number.toNat (0 - number).toNat

/-- A failure of the machine. -/
def fileError (error : IO.Error) : FileError :=
  match (numbered error).map fun (number, wording) => (unsigned number, wording) with
  | some (2, _) => .notFound
  | some (17, _) => .alreadyExists
  | some (20, _) => .notADirectory
  | some (21, _) => .isADirectory
  | some (36, _) => .nameTooLong
  | some (number, wording) =>
    .other (wording.capitalize ++ " (os error " ++ toString number ++ ")")
  | none => .other (toString error)

/-- Carries out an operation on a path. -/
def attempt {α : Type} (path : String) (operation : IO α) : IO (Except FileError α) := do
  if '\x00' ∈ path.toList then return .error .invalidPath
  else
    try return .ok (← operation)
    catch error => return .error (fileError error)

/-- Whether an operation on a path succeeds. -/
def succeeds {α : Type} (path : String) (operation : IO α) : IO Bool := do
  match ← attempt path operation with
  | .ok _ => return true
  | .error _ => return false

/-- The files of the machine. -/
def system : System IO where
  isPresent path := succeeds path (IO.FS.realPath path)
  isDirectory path := succeeds path (IO.FS.realPath (path ++ "/."))
  read path := attempt path do return (← IO.FS.readBinFile path).toList
  makeDirectory path := attempt path (IO.FS.createDir path)
  write path bytes := attempt path (IO.FS.writeBinFile path ⟨bytes.toArray⟩)

/-! ## The identity of a package -/

/-- The nanoseconds of a second. -/
def perSecond : Int := 1000000000

/-- The instant some nanoseconds after the beginning of 1970. -/
def timestamp? (nanoseconds : Int) : Option Timestamp := do
  let day := 86400 * perSecond
  let date := Std.Time.PlainDate.ofEpochDay ⟨nanoseconds / day⟩
  let rest := nanoseconds % day
  let date ← Date.ofParts? date.year.toInt date.month.val.toNat date.day.val.toNat
  Timestamp.ofLocal? date (rest / (3600 * perSecond)).toNat (rest / (60 * perSecond) % 60).toNat
    (rest / perSecond % 60).toNat (rest % perSecond).toNat 0

/-- A random identifier and the present time. -/
def stamp : IO Manifest.Stamp := do
  let id := Identifier.ofRandom (← IO.getRandomBytes 16).toList
  let now ← Std.Time.Timestamp.now
  match timestamp? now.toNanosecondsSinceUnixEpoch.val with
  | some time => return { id, time }
  | none => throw (IO.userError "the clock is out of range")

end Newsletter.Machine

/-- Runs the program. The exit status says how it went. -/
def main (words : List String) : IO UInt32 := do
  let outcome ← Newsletter.Command.run
    { system := Newsletter.Machine.system, stamp := Newsletter.Machine.stamp }
    "malformed JSON" words
  IO.print outcome.stdout
  return outcome.exit.toUInt32
