/-
What passes between the program and the interactive layer as text. Main statement: responses and
blocks whose tags are all read from texts come back as they were, from compact and from indented
texts, the members of a response in any order, unless the texts have more nested levels than a reader
opens; and what the program prints for a file with the text of a block is the markup of the block.
-/
import Newsletter.Proofs.Command.Conversation
import Newsletter.Proofs.Session.Sent

namespace Newsletter

open Json FileTree

/-! ## Responses -/

/-- A response comes back from its texts, with its members in any order. -/
structure Response.Survives (response : Response) : Prop where
  written : response.toTree = .record response.members
  read : ∀ found : Fields, found.Perm response.members →
    decoder.RestoresTexts (.record found) response

theorem Response.survives {response : Response} (h : response.TagsRead) : response.Survives :=
  ⟨response.toTree_eq, fun _ hfound => (restores_perm h hfound).texts⟩

/-! ## Blocks -/

namespace Command

/-- What the program prints for a file that holds a text. -/
theorem run_renderWords (stamp : StateM FileTree Manifest.Stamp) (jsonFault : String)
    {config input text : String} {settings : Settings} {tree : FileTree} (hconfig : config ≠ "")
    (hinput : input ≠ "") (hload : (loadSettings system config tree).1 = .ok settings)
    (hread : tree.read input = .ok (Bytes.ofText text)) :
    run { system, stamp } jsonFault (renderWords config input) tree =
      ((Block.decoder.read? text).elim ((Failure.malformed input).outcome jsonFault) fun block =>
        { exit := 0, stdout := block.render ++ "\n" }, tree) := by
  have hload : loadSettings system config tree = (.ok settings, tree) := by
    rw [loadSettings_apply] at hload ⊢
    exact Prod.ext hload rfl
  rw [run_of_ofWords stamp jsonFault (ofWords_renderWords hconfig hinput)]
  unfold Invocation.execute
  rw [bind_apply, hload]
  unfold render
  dsimp only
  rw [bind_apply, readFile_of_read hread]
  cases Block.decoder.read? text <;> rfl

end Command

/-- A block comes back from its texts, and a file with one of them is rendered as the block. -/
structure Block.Survives (block : Block) : Prop where
  read : decoder.RestoresTexts block.toTree block
  rendered : ∀ (stamp : StateM FileTree Manifest.Stamp) (jsonFault : String)
    {config input text : String} {settings : Settings} {tree : FileTree}, config ≠ "" → input ≠ "" →
      (Command.loadSettings system config tree).1 = .ok settings →
      text ∈ [block.toTree.compact, block.toTree.pretty] →
      tree.read input = .ok (Bytes.ofText text) →
        Command.run { system, stamp } jsonFault (Command.renderWords config input) tree =
          (if Tree.nesting text ≤ maxLevels then { exit := 0, stdout := block.render ++ "\n" }
            else (Command.Failure.malformed input).outcome jsonFault, tree)

theorem Block.survives {block : Block} (h : block.TagsRead) : block.Survives := by
  have htexts := (restores_toTree h).texts
  refine ⟨htexts, ?_⟩
  intro stamp jsonFault config input text settings tree hconfig hinput hload htext hread
  rw [Command.run_renderWords stamp jsonFault hconfig hinput hload hread, htexts text htext]
  split <;> rfl

/-! ## Both ways -/

/-- Responses and blocks survive the wire. -/
theorem survives_wire : (∀ response : Response, response.TagsRead → response.Survives) ∧
    ∀ block : Block, block.TagsRead → block.Survives :=
  ⟨fun _ h => Response.survives h, fun _ h => Block.survives h⟩

/-- One and a half. -/
def oneAndHalf : Double :=
  { negative := false, mantissa := 0x18000000000000, exponent := -52, mantissa_lt := by decide,
    lowest_le := by decide, le_highest := by decide, normal := Or.inr (by decide) }

/-- A newsletter with a tag of its own, nested properties, an image and an empty text. -/
def promotion : ExportPayload :=
  let button : Block :=
    { tag := .unrecognized "promo", id := "a", name := "",
      props := .ofMembers [("ratio", .number (.float oneAndHalf)),
        ("list", .array [.null, .object [("\"", .bool true)], .number (.ofNat 41)])],
      text := some "", children := [] }
  { block := { tag := .container, id := "a", name := "é", props := .empty, text := none,
               children := [button, button] }
    assets := [{ name := "image-001.png", bytes := [0, 255], mediaType := "image/png" }]
    warnings := ["", "Row \"1\""] }

/-- The promotion, with its payload in front of its type. -/
def promotionTree : Tree :=
  .record [("payload", promotion.toTree), ("type", .text "EXPORT_RESULT")]

theorem survives_wire_promotion : (Response.exportResult promotion).TagsRead ∧
    promotion.block.TagsRead ∧
    Response.decoder.read? promotionTree.compact = some (.exportResult promotion) ∧
    ∃ tree : FileTree, tree.read "block.json" = .ok (Bytes.ofText promotion.block.toTree.pretty) ∧
      Command.run { system, stamp := pure Package.firstStamp } "malformed"
        (Command.renderWords "newsletterify.json" "block.json") tree =
          ({ exit := 0, stdout := promotion.block.render ++ "\n" }, tree) := by
  have htags : promotion.block.TagsRead := by decide +kernel
  have hnesting : Tree.nesting promotionTree.compact ≤ maxLevels := by
    rw [Tree.nesting_compact]
    decide +kernel
  have hblock : Tree.nesting promotion.block.toTree.pretty ≤ maxLevels := by
    rw [Tree.nesting_pretty]
    decide +kernel
  have hread := (survives_wire.1 (.exportResult promotion) htags).read _ (.swap ..)
    promotionTree.compact List.mem_cons_self
  rw [if_pos hnesting] at hread
  have hready : Command.Ready "newsletterify.json" "block.json" .standard (FileTree.empty "desk") :=
    ⟨by rfl, ⟨_, rfl⟩, by decide⟩
  obtain ⟨written, hwritten⟩ := hready.writable
  obtain ⟨tree, hwrite⟩ := write_of_content hwritten (Bytes.ofText promotion.block.toTree.pretty)
  refine ⟨htags, htags, hread, tree, read_of_write hwrite, ?_⟩
  have hsettings := (hready.of_write hwrite).settings
  rw [(survives_wire.2 promotion.block htags).rendered (pure Package.firstStamp) "malformed"
    (by decide) (by decide) hsettings (List.mem_pair.2 (Or.inr rfl)) (read_of_write hwrite),
    if_pos hblock]

end Newsletter
