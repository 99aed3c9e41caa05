/-
Conversations: one call of the program for each message, with the document in a file between the
calls. Main statement: the calls print what one session on the document in memory answers, and leave
its last document, exactly if no document on the way is nested deeper than a reader goes. It can
be: tagging and inserting nest documents without bound, and the program saves them all.
-/
import Newsletter.Command.Run
import Newsletter.Proofs.Command.Words
import Newsletter.Proofs.Design.Stored
import Newsletter.Proofs.Package.Contents
import Newsletter.Proofs.Storage.Place

namespace Newsletter

open Json

/-! ## Sessions in memory -/

namespace Session

/-- The responses to messages one after another, each with the document after it. -/
def turns (settings : Settings) : List Value → Document → List (List Response × Document)
  | [], _ => []
  | message :: messages, doc =>
    let turn := receive Document.surface settings message doc
    turn :: turns settings messages turn.2

/-- The document after messages one after another. -/
def last (settings : Settings) : List Value → Document → Document
  | [], doc => doc
  | message :: messages, doc =>
    last settings messages (receive Document.surface settings message doc).2

end Session

namespace Command

/-! ## Reading files -/

open FileTree

/-- The text of a file is that of its content. -/
theorem readText_apply (tree : FileTree) (path : String) : system.readText path tree =
    ((tree.read path).bind fun bytes => (bytes.text?).elim (.error .notText) .ok, tree) := by
  unfold System.readText
  have hread : system.read path tree = (tree.read path, tree) := rfl
  rw [bind_apply, hread]
  cases tree.read path with
  | error error => rfl
  | ok bytes =>
    dsimp only [Except.bind]
    cases bytes.text? <;> rfl

theorem isPresent_iff {tree : FileTree} {path : String} :
    tree.isPresent path = true ↔ ∃ entry, tree.stat path = .ok entry := by
  unfold isPresent
  cases tree.stat path <;> simp

theorem loadSettings_apply (tree : FileTree) (path : String) : loadSettings system path tree =
    (if tree.isPresent path then
      match (system.readText path tree).1 with
      | .error error => .error (.unreadable error.message)
      | .ok text => Settings.load (some text)
    else Settings.load none, tree) := by
  unfold loadSettings
  rw [bind_apply]
  show (if tree.isPresent path then _ else _ : StateM FileTree _) tree = _
  cases tree.isPresent path with
  | false => rfl
  | true =>
    rw [if_pos rfl, if_pos rfl, bind_apply, readText_apply]
    dsimp only
    cases (tree.read path).bind fun bytes => bytes.text?.elim (.error FileError.notText) .ok <;> rfl

/-- Settings are loaded from what is found under the path of their file. -/
theorem loadSettings_congr {tree later : FileTree} {path : String}
    (h : ∀ entry, later.stat path = .ok entry ↔ tree.stat path = .ok entry) :
    (loadSettings system path later).1 = (loadSettings system path tree).1 := by
  have hpresent : later.isPresent path = tree.isPresent path := by
    rw [Bool.eq_iff_iff, isPresent_iff, isPresent_iff]
    exact exists_congr h
  rw [loadSettings_apply, loadSettings_apply, hpresent]
  dsimp only
  split
  · rename_i hfound
    obtain ⟨entry, hentry⟩ := isPresent_iff.1 hfound
    have hstat : later.stat path = tree.stat path := ((h entry).2 hentry).trans hentry.symm
    rw [readText_apply, readText_apply, read_congr hstat]
  · rfl

theorem openDocument_apply (tree : FileTree) (path : String) : openDocument system path tree =
    ((openDocument system path tree).1, tree) := by
  refine Prod.ext rfl ?_
  unfold openDocument
  rw [bind_apply]
  show ((if tree.isPresent path then _ else _ : StateM FileTree _) tree).2 = tree
  cases tree.isPresent path with
  | false => rfl
  | true =>
    unfold readFile
    rw [if_pos rfl, bind_apply, readText_apply]
    dsimp only
    cases (tree.read path).bind fun bytes => bytes.text?.elim (.error FileError.notText) .ok with
    | error error => rfl
    | ok text =>
      dsimp only
      cases Document.decoder.read? text <;> rfl

theorem isPresent_of_read {tree : FileTree} {path : String} {bytes : Bytes}
    (h : tree.read path = .ok bytes) : tree.isPresent path = true := by
  rw [isPresent_iff]
  unfold FileTree.read at h
  cases hstat : tree.stat path with
  | error error => rw [hstat] at h; cases h
  | ok entry => exact ⟨entry, rfl⟩

/-- A file that holds a text is read as what a reader makes of the text. -/
theorem readFile_of_read {α : Type} {tree : FileTree} {path text : String}
    (h : tree.read path = .ok (Bytes.ofText text)) (d : Decoder α) : readFile system d path tree =
      ((d.read? text).elim (.error (.malformed path)) .ok, tree) := by
  unfold readFile
  rw [bind_apply, readText_apply, h]
  dsimp only [Except.bind]
  rw [Bytes.text?_ofText]
  dsimp only [Option.elim]
  cases d.read? text <;> rfl

theorem openDocument_of_read {tree : FileTree} {path text : String}
    (h : tree.read path = .ok (Bytes.ofText text)) : openDocument system path tree =
      ((Document.decoder.read? text).elim (.error (.malformed path)) .ok, tree) := by
  unfold openDocument
  rw [bind_apply]
  show (if tree.isPresent path then _ else _ : StateM FileTree _) tree = _
  rw [isPresent_of_read h, if_pos rfl, readFile_of_read h]

theorem openDocument_of_write {tree after : FileTree} {path : String} {doc : Document}
    (h : tree.write path (Bytes.ofText (documentText doc)) = .ok after) :
    openDocument system path after =
      (if doc.Storable then .ok doc else .error (.malformed path), after) := by
  rw [openDocument_of_read (read_of_write h), documentText, Document.read?_pretty]
  split <;> rfl

/-! ## Calls -/

theorem exists_of_mapM_cons {α β : Type} {f : α → Option β} {a : α} {l : List α} {found : List β}
    (h : (a :: l).mapM f = some found) :
    ∃ b rest, f a = some b ∧ l.mapM f = some rest ∧ found = b :: rest := by
  rw [List.mapM_cons] at h
  obtain ⟨b, hb, h⟩ := Option.bind_eq_some_iff.1 h
  obtain ⟨rest, hrest, h⟩ := Option.bind_eq_some_iff.1 h
  cases h
  exact ⟨b, rest, hb, hrest, rfl⟩

/-- What is printed by one call of the program for each message. -/
def converse {m : Type → Type} [Monad m] (env : Environment m)
    (jsonFault settings document : String) : List String → m (List Outcome)
  | [] => return []
  | message :: messages => do
    let outcome ← run env jsonFault (handleWords settings document message)
    let outcomes ← converse env jsonFault settings document messages
    return outcome :: outcomes

section

variable (stamp : StateM FileTree Manifest.Stamp) (jsonFault : String) {config path : String}
  {settings : Settings} {tree after : FileTree}

theorem run_of_ofWords {words : List String} {invocation : Invocation}
    (h : Invocation.ofWords words = .ok invocation) : run { system, stamp } jsonFault words tree =
      match invocation.execute { system, stamp } tree with
      | (.ok result, after) => (result.outcome, after)
      | (.error failure, after) => (failure.outcome jsonFault, after) := by
  unfold run
  rw [h]
  dsimp only
  rw [bind_apply]
  rcases invocation.execute { system, stamp } tree with ⟨result | failure, after⟩
  · rfl
  · rfl

theorem run_handleWords (hconfig : config ≠ "") (hpath : path ≠ "")
    (hload : (loadSettings system config tree).1 = .ok settings) (text : String) :
    run { system, stamp } jsonFault (handleWords config path text) tree =
      match handle { system, stamp } settings path text true tree with
      | (.ok result, after) => (result.outcome, after)
      | (.error failure, after) => (failure.outcome jsonFault, after) := by
  have hload : loadSettings system config tree = (.ok settings, tree) := by
    rw [loadSettings_apply] at hload ⊢
    exact Prod.ext hload rfl
  rw [run_of_ofWords stamp jsonFault (ofWords_handleWords hconfig hpath text)]
  unfold Invocation.execute
  rw [bind_apply, hload]

theorem handle_of_error {failure : Failure}
    (hopen : openDocument system path tree = (.error failure, tree)) (text : String) :
    handle { system, stamp } settings path text true tree = (.error failure, tree) := by
  unfold handle
  rw [bind_apply, hopen]
  rfl

theorem handle_of_ok {doc : Document} {text : String} {message : Value}
    (hopen : openDocument system path tree = (.ok doc, tree))
    (hmessage : Decoder.value.read? text = some message)
    (hwrite : tree.write path (Bytes.ofText (documentText
      (Session.receive Document.surface settings message doc).2)) = .ok after) :
    handle { system, stamp } settings path text true tree =
      (.ok (.handled (Session.receive Document.surface settings message doc).1), after) := by
  have hattempt : system.write path (Bytes.ofText (documentText
      (Session.receive Document.surface settings message doc).2)) tree = (.ok (), after) := by
    show attempt (·.write path _) tree = _
    unfold attempt
    dsimp only
    rw [hwrite]
  unfold handle
  rw [bind_apply, hopen]
  dsimp only
  rw [hmessage]
  dsimp only
  rw [if_pos rfl, bind_apply, hattempt]
  rfl

end

/-- A tree in which the settings load, and the document can be written to a place of its own. -/
structure Ready (config path : String) (settings : Settings) (tree : FileTree) : Prop where
  settings : (loadSettings system config tree).1 = .ok settings
  writable : ∃ after, tree.write path [] = .ok after
  apart : tree.place config ≠ tree.place path

theorem Ready.of_write {config path : String} {settings : Settings} {tree after : FileTree}
    {content : Bytes} (h : Ready config path settings tree)
    (hwrite : tree.write path content = .ok after) : Ready config path settings after := by
  have hhome := (keeps_of_write hwrite).home
  refine ⟨?_, write_of_write hwrite [], ?_⟩
  · rw [loadSettings_congr fun entry => stat_write_iff hwrite h.apart]
    exact h.settings
  · rw [place_of_home hhome, place_of_home hhome]
    exact h.apart

section

variable (stamp : StateM FileTree Manifest.Stamp) (jsonFault : String) {config path : String}
  {settings : Settings} (hconfig : config ≠ "") (hpath : path ≠ "")
include hconfig hpath

/-- One call answers as the session does, and leaves the document of the session if it can be
stored, or else a file that cannot be read. -/
theorem run_ready {tree : FileTree} (h : Ready config path settings tree) {doc : Document}
    (hopen : openDocument system path tree = (.ok doc, tree)) {text : String} {message : Value}
    (hmessage : Decoder.value.read? text = some message) :
    let turn := Session.receive Document.surface settings message doc
    ∃ after, run { system, stamp } jsonFault (handleWords config path text) tree =
        ((Result.handled turn.1).outcome, after) ∧ Ready config path settings after ∧
      openDocument system path after =
        (if turn.2.Storable then .ok turn.2 else .error (.malformed path), after) := by
  intro turn
  obtain ⟨written, hwritten⟩ := h.writable
  obtain ⟨after, hwrite⟩ := write_of_content hwritten (Bytes.ofText (documentText turn.2))
  refine ⟨after, ?_, h.of_write hwrite, openDocument_of_write hwrite⟩
  rw [run_handleWords stamp jsonFault hconfig hpath h.settings,
    handle_of_ok stamp hopen hmessage hwrite]

/-- A call on a file that is no document fails. -/
theorem run_malformed {tree : FileTree} (h : Ready config path settings tree)
    (hopen : openDocument system path tree = (.error (.malformed path), tree)) (text : String) :
    run { system, stamp } jsonFault (handleWords config path text) tree =
      ((Failure.malformed path).outcome jsonFault, tree) := by
  rw [run_handleWords stamp jsonFault hconfig hpath h.settings, handle_of_error stamp hopen]

omit hconfig hpath in
theorem converse_cons {stamp : StateM FileTree Manifest.Stamp} {jsonFault text : String}
    {tree after : FileTree} {outcome : Outcome}
    (h : run { system, stamp } jsonFault (handleWords config path text) tree = (outcome, after))
    (texts : List String) :
    converse { system, stamp } jsonFault config path (text :: texts) tree =
      (outcome :: (converse { system, stamp } jsonFault config path texts after).1,
        (converse { system, stamp } jsonFault config path texts after).2) := by
  rw [converse, bind_apply, h]
  rfl

/-- Once the file is no document any more, the calls differ from the session: the next one in what
it prints, and if there is none, the file from the last document. -/
theorem converse_malformed {tree : FileTree} (h : Ready config path settings tree)
    (hopen : openDocument system path tree = (.error (.malformed path), tree)) {texts : List String}
    {messages : List Value} (htexts : texts.mapM Decoder.value.read? = some messages)
    (doc : Document) :
    ¬((converse { system, stamp } jsonFault config path texts tree).1 =
          (Session.turns settings messages doc).map (fun turn => (Result.handled turn.1).outcome) ∧
        (openDocument system path
            (converse { system, stamp } jsonFault config path texts tree).2).1 =
          .ok (Session.last settings messages doc)) := by
  rintro ⟨houtcomes, hlast⟩
  cases texts with
  | nil =>
    change (openDocument system path tree).1 = _ at hlast
    rw [hopen] at hlast
    cases hlast
  | cons text texts =>
    have hfailed := run_malformed stamp jsonFault hconfig hpath h hopen text
    obtain ⟨message, rest, -, -, rfl⟩ := exists_of_mapM_cons htexts
    rw [converse_cons hfailed, Session.turns, List.map_cons, List.cons.injEq] at houtcomes
    have hexit := congrArg Outcome.exit houtcomes.1
    exact absurd (show (1 : UInt8) = 0 from hexit) (by decide)

/-- Conversations print what a session in memory answers, and leave its last document, exactly if
all documents after a message can be stored. -/
theorem converse_ready : ∀ {texts : List String} {messages : List Value} {tree : FileTree}
    {doc : Document}, texts.mapM Decoder.value.read? = some messages →
      Ready config path settings tree → openDocument system path tree = (.ok doc, tree) →
      (((converse { system, stamp } jsonFault config path texts tree).1 =
          (Session.turns settings messages doc).map fun turn => (Result.handled turn.1).outcome) ∧
        (openDocument system path
            (converse { system, stamp } jsonFault config path texts tree).2).1 =
          .ok (Session.last settings messages doc) ↔
        ∀ turn ∈ Session.turns settings messages doc, turn.2.Storable)
  | [], messages, tree, doc, htexts, h, hopen => by
    cases htexts
    constructor
    · intro _ turn hturn
      cases hturn
    · intro _
      exact ⟨rfl, congrArg (·.1) hopen⟩
  | text :: texts, messages, tree, doc, htexts, h, hopen => by
    obtain ⟨message, rest, hmessage, hrest, rfl⟩ := exists_of_mapM_cons htexts
    obtain ⟨after, hrun, hready, hopened⟩ := run_ready stamp jsonFault hconfig hpath h hopen hmessage
    have hconverse := converse_cons hrun texts
    rw [hconverse, Session.turns, List.map_cons, List.cons.injEq, List.forall_mem_cons,
      Session.last]
    by_cases hstorable : (Session.receive Document.surface settings message doc).2.Storable
    · rw [if_pos hstorable] at hopened
      rw [← converse_ready hrest hready hopened]
      exact ⟨fun hsame => ⟨hstorable, hsame.1.2, hsame.2⟩, fun hsame => ⟨⟨rfl, hsame.2.1⟩, hsame.2.2⟩⟩
    · rw [if_neg hstorable] at hopened
      constructor
      · rintro ⟨⟨-, houtcomes⟩, hlast⟩
        exact absurd ⟨houtcomes, hlast⟩
          (converse_malformed stamp jsonFault hconfig hpath hready hopened hrest _)
      · exact fun hall => absurd hall.1 hstorable

end

/-- Calls one after another print what a session in memory answers, and leave its last document,
exactly if no document after a message has more arrays and objects inside one another than are read
back. Here the document is in a file or absent, all writes succeed, the settings are not in its
file, and the numbers of identifiers fit a word. -/
theorem converse_eq_turns_iff (stamp : StateM FileTree Manifest.Stamp) (jsonFault : String)
    {config path : String} {settings : Settings} {texts : List String} {messages : List Value}
    {tree : FileTree} {doc : Document} (hconfig : config ≠ "") (hpath : path ≠ "")
    (hready : Ready config path settings tree)
    (hopen : (openDocument system path tree).1 = .ok doc)
    (htexts : texts.mapM Decoder.value.read? = some messages)
    (hword : ∀ turn ∈ Session.turns settings messages doc, turn.2.lastNumber < 0x10000000000000000) :
    ((converse { system, stamp } jsonFault config path texts tree).1 =
        (Session.turns settings messages doc).map fun turn => (Result.handled turn.1).outcome) ∧
      (openDocument system path
          (converse { system, stamp } jsonFault config path texts tree).2).1 =
        .ok (Session.last settings messages doc) ↔
      ∀ turn ∈ Session.turns settings messages doc, turn.2.toTree.levels ≤ maxLevels := by
  have hopen : openDocument system path tree = (.ok doc, tree) := by
    rw [openDocument_apply] at hopen ⊢
    exact Prod.ext hopen rfl
  rw [converse_ready stamp jsonFault hconfig hpath htexts hready hopen]
  exact forall₂_congr fun turn hturn => ⟨fun h => h.levels, fun h => ⟨h, hword turn hturn⟩⟩

/-- The text of a message without a payload. -/
def messageText (type : String) : String := (Tree.record [("type", .text type)]).pretty

theorem read?_messageText (type : String) :
    Decoder.value.read? (messageText type) = some (.object [("type", .string type)]) := by
  unfold Decoder.read? messageText
  rw [Tree.read?_pretty]
  rfl

theorem ready_empty : Ready "newsletterify.json" "doc.json" .standard (FileTree.empty "desk") :=
  ⟨by rfl, ⟨_, rfl⟩, by decide⟩

theorem converse_eq_turns_iff_container : ∃ messages : List Value,
    [messageText "INSERT_CONTAINER", messageText "EXPORT_MJML"].mapM Decoder.value.read? =
        some messages ∧
      let outcomes := converse { system, stamp := pure Package.firstStamp } "malformed"
        "newsletterify.json" "doc.json"
        [messageText "INSERT_CONTAINER", messageText "EXPORT_MJML"] (FileTree.empty "desk")
      outcomes.1 = (Session.turns .standard messages .empty).map (fun turn =>
          (Result.handled turn.1).outcome) ∧
        (openDocument system "doc.json" outcomes.2).1 =
          .ok (Session.last .standard messages .empty) := by
  have htexts : [messageText "INSERT_CONTAINER", messageText "EXPORT_MJML"].mapM
      Decoder.value.read? = some [.object [("type", .string "INSERT_CONTAINER")],
        .object [("type", .string "EXPORT_MJML")]] := by
    rw [List.mapM_cons, List.mapM_cons, read?_messageText, read?_messageText]
    rfl
  refine ⟨_, htexts, ?_⟩
  exact (converse_eq_turns_iff (pure Package.firstStamp) "malformed" (by decide) (by decide)
    ready_empty rfl htexts (by decide +kernel)).2 (by decide +kernel)

/-! ## Documents that are too deep -/

/-- Groups inside one another around an innermost one. -/
def nest : Nat → Shape
  | 0 => .plain "inner" "Column" .group
  | depth + 1 => (Shape.plain "outer" "Section" .group).addChild (nest depth)

/-- A document of nested groups of which the innermost one is selected. -/
def nested (depth : Nat) : Document :=
  { roots := [nest depth], selection := ["inner"], lastNumber := 0 }

/-- The message that tags the selection as a section. -/
def tagText : String :=
  (Tree.record [("type", .text "TAG_SELECTION"),
    ("payload", .record [("nlType", .text "section")])]).pretty

set_option maxRecDepth 2000 in
/-- A request that is accepted can leave a document that the next call cannot read. -/
theorem exists_unreadable : ∃ (tree : FileTree) (messages : List Value),
    Ready "newsletterify.json" "doc.json" .standard tree ∧
      (openDocument system "doc.json" tree).1 = .ok (nested 62) ∧
      [tagText, messageText "PING"].mapM Decoder.value.read? = some messages ∧
      (Session.turns .standard messages (nested 62)).map (·.1) =
        [[.info "Tagged selection as section."], [.pong]] ∧
      ∀ (stamp : StateM FileTree Manifest.Stamp) (jsonFault : String),
        (converse { system, stamp } jsonFault "newsletterify.json" "doc.json"
          [tagText, messageText "PING"] tree).1 =
          [(Result.handled [.info "Tagged selection as section."]).outcome,
            (Failure.malformed "doc.json").outcome jsonFault] := by
  have hstart : (nested 62).Storable := by decide +kernel
  obtain ⟨tree, hwrite⟩ := write_of_content ready_empty.writable.choose_spec
    (Bytes.ofText (documentText (nested 62)))
  have hready := ready_empty.of_write hwrite
  have hopen := openDocument_of_write hwrite
  rw [if_pos hstart] at hopen
  have htag : Decoder.value.read? tagText = some (.object [("payload",
      .object [("nlType", .string "section")]), ("type", .string "TAG_SELECTION")]) := by
    unfold Decoder.read? tagText
    rw [Tree.read?_pretty]
    rfl
  have htexts : [tagText, messageText "PING"].mapM Decoder.value.read? =
      some [.object [("payload", .object [("nlType", .string "section")]),
        ("type", .string "TAG_SELECTION")], .object [("type", .string "PING")]] := by
    rw [List.mapM_cons, List.mapM_cons, htag, read?_messageText]
    rfl
  refine ⟨tree, _, hready, congrArg (·.1) hopen, htexts, rfl, fun stamp jsonFault => ?_⟩
  obtain ⟨after, hrun, hready, hopened⟩ :=
    run_ready stamp jsonFault (by decide) (by decide) hready hopen htag
  rw [if_neg (by decide +kernel)] at hopened
  have hfailed := run_malformed stamp jsonFault (by decide) (by decide) hready hopened
    (messageText "PING")
  rw [converse_cons hrun, converse_cons hfailed]
  rfl

end Command

end Newsletter
