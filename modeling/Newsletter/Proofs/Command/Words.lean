/-
Command lines that give their options values behind equals signs. Main facts: the command line that
applies a message to a document is read as just that, whatever the message says, and so is the one
that renders a block.
-/
import Newsletter.Command.Arguments
import Mathlib.Data.List.Basic

namespace Newsletter.Command

/-! ## Options with values -/

theorem splitEquals_append {name : List Char} (h : '=' ∉ name) (value : List Char) :
    splitEquals (name ++ '=' :: value) = (name, some value) := by
  have hne : ∀ c ∈ name, decide (c ≠ '=') = true := by
    intro c hc
    simp only [ne_eq, decide_not, Bool.not_eq_eq_eq_not, Bool.not_true, decide_eq_false_iff_not]
    rintro rfl
    exact h hc
  unfold splitEquals
  rw [List.dropWhile_append_of_pos hne, List.takeWhile_append_of_pos hne]
  simp

/-- A word that gives an option its value behind an equals sign. -/
def attached (name value : String) : String := "--" ++ name ++ "=" ++ value

theorem word_attached (flags : List Flag) (flag : Flag) (hname : '=' ∉ flag.long.toList)
    (hfind : flags.find? (·.long.toList = flag.long.toList) = some flag)
    (hvalue : flag.hasValue = true) (value : String) :
    Word.of flags (attached flag.long value) = .option flag value := by
  have hword : (attached flag.long value).toList =
      '-' :: '-' :: (flag.long.toList ++ '=' :: value.toList) := by
    unfold attached
    simp
  unfold Word.of
  rw [hword]
  rcases hcs : flag.long.toList ++ '=' :: value.toList with _ | ⟨c, cs⟩
  · simp at hcs
  · have hsplit := splitEquals_append hname value.toList
    rw [hcs] at hsplit
    show Word.ofFlag (flags.find? (·.long.toList = (splitEquals (c :: cs)).1))
      ((splitEquals (c :: cs)).1 = "help".toList) (splitEquals (c :: cs)).2 = _
    rw [hsplit, hfind]
    show (if flag.hasValue then Word.option flag (String.ofList value.toList) else _) = _
    rw [if_pos hvalue, String.ofList_toList]

theorem readOptions_option {flags : List Flag} {flag : Flag} {word value : String}
    (hword : Word.of flags word = .option flag value) {found a : Found}
    (hadd : add flag value found = .ok a) (words : List String) :
    readOptions flags { found } (word :: words) = readOptions flags { found := a } words := by
  rw [readOptions, hword]
  show (add flag value found >>= fun found => readOptions flags { found } words) = _
  rw [hadd]
  rfl

/-- An option with a value that was not given before is added. -/
theorem add_of_lookup {flag : Flag} {value : String} (hvalue : value ≠ "" ∨ flag.allowsEmpty = true)
    {found : Found} (h : found.lookup flag.long = none) :
    add flag value found = .ok ((flag.long, value) :: found) := by
  unfold add
  rw [h, Option.isSome_none, if_neg Bool.false_ne_true]
  refine if_neg ?_
  rcases hvalue with hvalue | hvalue <;> simp [hvalue]

/-- The settings are named in front of the action. -/
theorem ofWords_config {settings name : String} {words : List String} {action : Action}
    (hsettings : settings ≠ "") (hname : Word.of commonFlags name = .plain)
    (haction : readAction name words = .ok action) :
    Invocation.ofWords (attached "config" settings :: name :: words) =
      .ok { settings, action } := by
  have hconfig : Word.of commonFlags (attached "config" settings) =
      .option commonFlags[0] settings :=
    word_attached commonFlags commonFlags[0] (by decide) rfl rfl settings
  unfold Invocation.ofWords
  rw [readOptions_option hconfig (add_of_lookup (Or.inl hsettings) rfl), readOptions, hname]
  show (readAction name words >>= fun action => _) = _
  rw [haction]
  rfl

/-! ## The command line of a message -/

/-- The command line that applies a message to a document and saves it. -/
def handleWords (settings document message : String) : List String :=
  [attached "config" settings, "handle", attached "document" document, attached "request" message,
    "--write"]

theorem readAll_handle {document : String} (hdocument : document ≠ "") (message : String) :
    readAll handleFlags [attached "document" document, attached "request" message, "--write"] =
      .ok [("write", ""), ("request", message), ("document", document)] := by
  have hpath : Word.of handleFlags (attached "document" document) =
      .option handleFlags[0] document :=
    word_attached handleFlags handleFlags[0] (by decide) rfl rfl document
  have hrequest : Word.of handleFlags (attached "request" message) =
      .option handleFlags[1] message :=
    word_attached handleFlags handleFlags[1] (by decide) rfl rfl message
  have hwrite : Word.of handleFlags "--write" = .option handleFlags[2] "" := rfl
  unfold readAll
  rw [readOptions_option hpath (add_of_lookup (Or.inl hdocument) rfl),
    readOptions_option hrequest (add_of_lookup (Or.inr rfl) rfl),
    readOptions_option hwrite (a := [("write", ""), ("request", message), ("document", document)])
      rfl]
  rfl

theorem ofWords_handleWords {settings document : String} (hsettings : settings ≠ "")
    (hdocument : document ≠ "") (message : String) :
    Invocation.ofWords (handleWords settings document message) =
      .ok { settings, action := .handle document message true } := by
  refine ofWords_config hsettings rfl ?_
  show (readAll handleFlags _ >>= fun found => _) = _
  rw [readAll_handle hdocument message]
  rfl

/-! ## The command line of a block -/

/-- The command line that renders the block of a file. -/
def renderWords (settings input : String) : List String :=
  [attached "config" settings, "render", attached "input" input]

theorem ofWords_renderWords {settings input : String} (hsettings : settings ≠ "")
    (hinput : input ≠ "") : Invocation.ofWords (renderWords settings input) =
      .ok { settings, action := .render input } := by
  have hword : Word.of renderFlags (attached "input" input) = .option renderFlags[0] input :=
    word_attached renderFlags renderFlags[0] (by decide) rfl rfl input
  have hread : readAll renderFlags [attached "input" input] = .ok [("input", input)] := by
    unfold readAll
    rw [readOptions_option hword (add_of_lookup (Or.inl hinput) rfl)]
    rfl
  refine ofWords_config hsettings rfl ?_
  show (readAll renderFlags _ >>= fun found => _) = _
  rw [hread]
  rfl

end Newsletter.Command
