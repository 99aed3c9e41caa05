/-
The exports that compiling asks for. The compiler is put as a dialogue that asks a node for one
export at a time and goes on with whatever comes of it; where every node answers for itself, it is
the compiler, with the calls it records. Main statement: whatever is answered, even where an answer
depends on the calls before it, the calls are the same: one to every kept image node that offers an
export and to no other node, in the order of the blocks, each for a PNG at the scale of the settings.
-/
import Newsletter.Proofs.Extraction.Sources

namespace Newsletter

/-! ## Dialogues -/

/-- A computation that asks nodes for exports. -/
inductive Dialogue (α : Type) where
  | done (result : α)
  /-- Asks a node for an export and goes on with what came of it. -/
  | ask (node : Node) (request : ExportRequest) (next : Except ExportError Bytes → Dialogue α)

/-- What comes of an export, given the calls made before it. -/
abbrev Answers := List ExportCall → Node → ExportRequest → Except ExportError Bytes

/-- Every node answers with its own exporter. -/
def Answers.own : Answers := fun _ node request =>
  match node.exporter with
  | some run => run request
  | none => .error .unsupported

namespace Dialogue

variable {α β γ : Type}

def bind : Dialogue α → (α → Dialogue β) → Dialogue β
  | done result, f => f result
  | ask node request next, f => ask node request fun answer => (next answer).bind f

/-- The result of a dialogue, and the calls made before it followed by those made in it. -/
def run (answers : Answers) (made : List ExportCall) : Dialogue α → α × List ExportCall
  | done result => (result, made)
  | ask node request next =>
    let result := answers made node request
    run answers (made ++ [{ node, request, result }]) (next result)

theorem run_bind (answers : Answers) (f : α → Dialogue β) : ∀ (d : Dialogue α)
    (made : List ExportCall), (d.bind f).run answers made =
      (f (d.run answers made).1).run answers (d.run answers made).2
  | done _, _ => rfl
  | ask _ _ next, _ => run_bind answers f (next _) _

/-- Whatever is answered, exactly these exports are asked for, in this order. -/
inductive Asks : Dialogue α → List (Node × ExportRequest) → Prop
  | done (result : α) : Asks (.done result) []
  | ask {node : Node} {request : ExportRequest} {next : Except ExportError Bytes → Dialogue α}
    {questions : List (Node × ExportRequest)} (rest : ∀ answer, Asks (next answer) questions) :
    Asks (.ask node request next) ((node, request) :: questions)

theorem Asks.bind {d : Dialogue α} {f : α → Dialogue β} {first second : List (Node × ExportRequest)}
    (h : d.Asks first) (hf : ∀ result, (f result).Asks second) :
    (d.bind f).Asks (first ++ second) := by
  induction h with
  | done result => exact hf result
  | ask rest ih => exact .ask ih

theorem Asks.run {d : Dialogue α} {questions : List (Node × ExportRequest)} (h : d.Asks questions)
    (answers : Answers) (made : List ExportCall) :
    (d.run answers made).2.map (·.question) = made.map (·.question) ++ questions := by
  induction h generalizing made with
  | done result => rw [List.append_nil]; rfl
  | ask rest ih =>
    rw [Dialogue.run, ih, List.map_append, List.append_assoc]
    rfl

/-! ## Dialogues of extractions -/

/-- Where every node answers for itself the dialogue comes to an extraction and the calls of that,
and whatever is answered it asks for the same. -/
structure Follows (d : Dialogue (Extraction α)) (extraction : Extraction α) : Prop where
  own : ∀ made, d.run .own made = (extraction, made ++ extraction.calls)
  asks : d.Asks (extraction.calls.map (·.question))

/-- A dialogue followed by another one. -/
def andThen (first : Dialogue (Extraction α)) (second : Dialogue (Extraction β))
    (join : α → β → γ) : Dialogue (Extraction γ) :=
  first.bind fun a => second.bind fun b => done (a.andThen b join)

theorem Follows.andThen {first : Dialogue (Extraction α)} {second : Dialogue (Extraction β)}
    {a : Extraction α} {b : Extraction β} (hfirst : first.Follows a) (hsecond : second.Follows b)
    (join : α → β → γ) : (first.andThen second join).Follows (a.andThen b join) := by
  constructor
  · intro made
    unfold Dialogue.andThen
    rw [run_bind, hfirst.own, run_bind, hsecond.own, List.append_assoc]
    rfl
  · have hcalls : (a.andThen b join).calls.map (·.question) =
        a.calls.map (·.question) ++ (b.calls.map (·.question) ++ []) := by
      rw [List.append_nil, ← List.map_append]
      rfl
    rw [hcalls]
    exact hfirst.asks.bind fun _ => hsecond.asks.bind fun _ => .done _

theorem follows_done (value : α) : (done (.done value)).Follows (.done value) :=
  ⟨fun made => congrArg _ (List.append_nil made).symm, .done _⟩

end Dialogue

namespace ExportJob

/-- Asks a node for its image. -/
def askFor (job : ExportJob) (source : Option Node) :
    Dialogue (Except ExportError Bytes × List ExportCall) :=
  match source with
  | none => .done (.error .unsupported, [])
  | some node =>
    match node.exporter with
    | none => .done (.error .unsupported, [])
    | some _ => .ask node job.request fun result =>
      .done (result, [{ node, request := job.request, result }])

/-- What becomes of the image at a position with what came of its export. -/
def settle (job : ExportJob) (position : Nat) (block : Block) :
    Except ExportError Bytes × List ExportCall → Extraction Block
  | (.error _, calls) =>
    { value := block, assets := [], diagnostics := [.notExported block.id block.name], calls }
  | (.ok bytes, calls) =>
    { value := { block with props := job.linked (some bytes) position block.props }
      assets := [job.asset position bytes]
      diagnostics := []
      calls }

theorem extractImage_eq (job : ExportJob) (source : Option Node) (position : Nat) (block : Block) :
    job.extractImage source position block = job.settle position block (job.ask source) := by
  unfold extractImage
  obtain ⟨result, calls⟩ := job.ask source
  cases result <;> rfl

/-- Exports a block, if it is an image, without its children. -/
def extractOneBy (job : ExportJob) (sources : List Node) (images : Nat) (block : Block) :
    Dialogue (Extraction Block) :=
  if block.tag = .image then
    (job.askFor (sourceOf sources block)).bind fun asked =>
      .done (job.settle (images + 1) block asked)
  else .done (.done block)

mutual

/-- Exports the images of a tree. -/
def extractBy (job : ExportJob) (sources : List Node) (images : Nat) :
    Block → Dialogue (Extraction Block)
  | block@{ children, .. } =>
    let own := if block.tag = .image then 1 else 0
    (job.extractOneBy sources images block).andThen
      (job.extractListBy (sources.drop 1) (images + own) children)
      fun block children => { block with children }
termination_by structural block => block

/-- Exports the images of a list of trees, one after the other. -/
def extractListBy (job : ExportJob) (sources : List Node) (images : Nat) :
    List Block → Dialogue (Extraction (List Block))
  | [] => .done (.done [])
  | block :: blocks =>
    (job.extractBy sources images block).andThen
      (job.extractListBy (sources.drop block.size) (images + block.imageCount) blocks) List.cons
termination_by structural blocks => blocks

end

theorem follows_extractOneBy (job : ExportJob) (sources : List Node) (images : Nat)
    (block : Block) :
    (job.extractOneBy sources images block).Follows (job.extractOne sources images block) := by
  unfold extractOneBy extractOne
  split
  · rw [extractImage_eq]
    unfold askFor ask
    cases sourceOf sources block with
    | none => exact ⟨fun made => congrArg _ (List.append_nil made).symm, .done _⟩
    | some node =>
      cases hexporter : node.exporter with
      | none =>
        simp only [hexporter]
        exact ⟨fun made => congrArg _ (List.append_nil made).symm, .done _⟩
      | some run =>
        simp only [hexporter]
        refine ⟨fun made => ?_, ?_⟩
        · show (job.settle _ _ (Answers.own made node job.request, _), _) = _
          have hown : Answers.own made node job.request = run job.request := by
            unfold Answers.own
            rw [hexporter]
          rw [hown]
          cases run job.request <;> rfl
        · cases run job.request <;> exact .ask fun _ => .done _
  · exact Dialogue.follows_done block

mutual

/-- The dialogue follows the extraction. -/
theorem follows_extractBy (job : ExportJob) : ∀ (block : Block) (sources : List Node)
    (images : Nat), (job.extractBy sources images block).Follows (job.extract sources images block)
  | { tag, id, name, props, text, children }, sources, images => by
    rw [extractBy, extract]
    exact (job.follows_extractOneBy sources images _).andThen
      (follows_extractListBy job children _ _) _

theorem follows_extractListBy (job : ExportJob) : ∀ (blocks : List Block) (sources : List Node)
    (images : Nat),
    (job.extractListBy sources images blocks).Follows (job.extractList sources images blocks)
  | [], _, _ => Dialogue.follows_done []
  | block :: blocks, sources, images =>
    (follows_extractBy job block sources images).andThen (follows_extractListBy job blocks _ _) _

end

end ExportJob

/-! ## What is asked for -/

/-- Whether a node is an image that offers an export. -/
def Node.offersImage (node : Node) : Bool :=
  decide (node.tag? = some .image) && node.exporter.isSome

namespace ExportJob

theorem map_question_extractOne (job : ExportJob) {node : Node} {block : Block}
    (h : BuiltFrom node block) (nodes : List Node) (images : Nat) :
    (job.extractOne (node :: nodes) images block).calls.map (·.question) =
      if node.offersImage then [(node, job.request)] else [] := by
  have hnode : node.tag? = some .image ↔ block.tag = .image := by rw [h.tag, Option.some.injEq]
  unfold extractOne Node.offersImage
  by_cases htag : block.tag = .image
  · have hcalls : ∀ position, (job.extractImage (some node) position block).calls =
        (job.ask (some node)).2 := by
      intro position
      rw [extractImage_eq]
      obtain ⟨result, calls⟩ := job.ask (some node)
      cases result <;> rfl
    rw [if_pos htag, sourceOf_own h.id, hcalls, map_question_ask, Option.filter_some,
      decide_eq_true (hnode.2 htag), Bool.true_and]
    split <;> rfl
  · rw [if_neg htag, decide_eq_false (mt hnode.1 htag), Bool.false_and, if_neg nofun]
    rfl

/-- Where the sources are the blocks' own nodes, the image nodes that offer an export are asked. -/
theorem map_question_pass (job : ExportJob) : ∀ {nodes : List Node} {blocks : List Block}
    (images : Nat), List.Forall₂ BuiltFrom nodes blocks →
    ((job.pass nodes images blocks).flatMap (·.calls)).map (·.question) =
      (nodes.filter Node.offersImage).map fun node => (node, job.request)
  | [], _, _, h => by
    rw [List.forall₂_nil_left_iff] at h
    subst h
    rfl
  | node :: nodes, _, images, h => by
    obtain ⟨block, blocks, hown, hothers, rfl⟩ := List.forall₂_cons_left_iff.1 h
    rw [pass, List.flatMap_cons, List.map_append, map_question_extractOne job hown, List.drop_one,
      List.tail_cons, map_question_pass job _ hothers, List.filter_cons]
    split <;> rfl

end ExportJob

/-! ## Places of what is asked for -/

/-- More elements pass a test before a later position, if one that passes it stands between. -/
theorem countP_take_lt {α : Type} {p : α → Bool} {l : List α} {i j : Nat} {a : α}
    (ha : l[i]? = some a) (hp : p a = true) (h : i < j) :
    (l.take i).countP p < (l.take j).countP p := by
  have hsucc : (l.take (i + 1)).countP p = (l.take i).countP p + 1 := by
    rw [List.take_add_one, ha, List.countP_append, Option.toList_some, List.countP_singleton,
      if_pos hp]
  have hle : (l.take (i + 1)).countP p ≤ (l.take j).countP p :=
    (List.take_sublist_take_left h).countP_le
  omega

namespace Node

/-- Kept nodes are sent to places in the same order. -/
theorem target_lt_target : ∀ {node : Node} {p q : TreePlace}, node.keeps p = true →
    node.keeps q = true → p < q → node.target p < node.target q
  | _, _, [], _, _, h => absurd h (List.not_lt_nil _)
  | node, [], j :: q, _, hq, _ => by
    obtain ⟨child, hchild, -⟩ := keeps_cons.1 hq
    rw [target_cons hchild]
    exact List.nil_lt_cons _ _
  | node, i :: p, j :: q, hp, hq, h => by
    obtain ⟨a, ha, hacca, hp⟩ := keeps_cons.1 hp
    obtain ⟨b, hb, haccb, hq⟩ := keeps_cons.1 hq
    rw [target_cons ha, target_cons hb]
    rcases List.cons_lt_cons_iff.1 h with hlt | ⟨rfl, hlt⟩
    · exact List.cons_lt_cons_iff.2 (.inl (countP_take_lt ha hacca hlt))
    · have hab : a = b := Option.some.inj (ha.symm.trans hb)
      subst hab
      exact List.cons_lt_cons_iff.2 (.inr ⟨rfl, target_lt_target hp hq hlt⟩)

end Node

/-- Nodes at places of a tree: those of the kept image nodes that offer an export, each place once
and in the order of their blocks. -/
structure AsksImages (root : Node) (block : Block) (places : List TreePlace) (nodes : List Node) :
    Prop where
  nodes : nodes.map some = places.map root.at?
  kept : ∀ place, place ∈ places ↔ root.keeps place = true ∧
    ∃ node, root.at? place = some node ∧ node.tag? = some .image ∧ node.exporter.isSome
  ascending : places.Pairwise (· < ·)
  targets : (places.map root.target).Pairwise (· < ·)
  images : ∀ place ∈ places, ∃ image, block.at? (root.target place) = some image ∧
    image.tag = .image

/-- Where elements are found one by one, those that pass a test are found where it passes. -/
theorem filter_map_some {α β : Type} {p : β → Bool} {found : α → Option β} {l : List β}
    {m : List α} (h : l.map some = m.map found) :
    (l.filter p).map some = (m.filter fun a => (found a).any p).map found := by
  have hleft : (l.map some).filter (·.any p) = (l.filter p).map some := by
    rw [List.filter_map]
    rfl
  have hright : (m.map found).filter (·.any p) =
      (m.filter fun a => (found a).any p).map found := by
    rw [List.filter_map]
    rfl
  rw [← hleft, h, hright]

theorem Mirrors.exists_asksImages {root : Node} {block : Block} (h : Mirrors root block) :
    ∃ places, AsksImages root block places (root.kept.filter Node.offersImage) := by
  have hmem : ∀ place, place ∈ root.keptPlaces.filter (fun place =>
        (root.at? place).any Node.offersImage) ↔ root.keeps place = true ∧
      ∃ node, root.at? place = some node ∧ node.tag? = some .image ∧ node.exporter.isSome := by
    intro place
    rw [List.mem_filter, Node.mem_keptPlaces, Option.any_eq_true]
    simp [Node.offersImage]
  refine ⟨_, filter_map_some root.map_at?_keptPlaces.symm, hmem,
    root.pairwise_keptPlaces.filter _, ?_, ?_⟩
  · refine List.pairwise_map.2 ((root.pairwise_keptPlaces.filter _).imp_of_mem ?_)
    intro p q hp hq hlt
    exact Node.target_lt_target ((hmem p).1 hp).1 ((hmem q).1 hq).1 hlt
  · intro place hplace
    obtain ⟨hkeeps, node, hnode, htag, -⟩ := (hmem place).1 hplace
    obtain ⟨source, built, hsource, hbuilt, hmirrors⟩ := Node.exists_at?_target place h hkeeps
    rw [hnode, Option.some.injEq] at hsource
    subst hsource
    refine ⟨built, hbuilt, ?_⟩
    rw [hmirrors.builtFrom.tag, Option.some.injEq] at htag
    exact htag

/-! ## Compiling -/

namespace Edition

/-- Compiles the tree below a container. -/
def compileBy (settings : Settings) (root : Node) : Dialogue (Except CompileError Edition) :=
  if root.tag? = some .container then
    let draft := root.draft .container
    ((job settings).extractBy draft.sources 0 draft.value).bind fun extraction =>
      .done (.ok
        { block := extraction.value
          markup := extraction.value.render
          assets := extraction.assets
          diagnostics := draft.diagnostics ++ extraction.diagnostics })
  else .done (.error (.notAContainer root.id))

/-- Where nodes answer for themselves the dialogue is the compiler; and whatever a host answers, it
asks the images that are kept, each once, in the order of the blocks, and nothing else. -/
theorem compile_asksImages (settings : Settings) (root : Node) (h : root.tag? = some .container) :
    ∃ draft places nodes, root.draft? = some draft ∧ AsksImages root draft.value places nodes ∧
      (∀ answers : Answers, ((compileBy settings root).run answers []).2.map (·.question) =
        nodes.map fun node => (node, { format := .png, scale := settings.exportScale })) ∧
      (compileBy settings root).run .own [] =
        (compile settings root, (extraction settings root).calls) := by
  have hmirrors := Node.mirrors_draft root .container h
  have hfollows := (job settings).follows_extractBy (root.draft .container).value
    (root.draft .container).sources 0
  have hquestions : (extraction settings root).calls.map (·.question) =
      (root.kept.filter Node.offersImage).map fun node =>
        (node, { format := .png, scale := settings.exportScale }) := by
    unfold extraction
    rw [((job settings).extract_flattens _ _ 0).calls, Node.sources_draft root .container h,
      (job settings).map_question_pass 0 (hmirrors.preorder.imp fun _ _ => Mirrors.builtFrom)]
    rfl
  obtain ⟨places, hplaces⟩ := hmirrors.exists_asksImages
  refine ⟨root.draft .container, places, root.kept.filter Node.offersImage, ?_, hplaces,
    fun answers => ?_, ?_⟩
  · rw [Node.draft?, h, Option.map_some]
  · have hasks : (compileBy settings root).Asks
        ((extraction settings root).calls.map (·.question)) := by
      unfold compileBy
      rw [if_pos h, ← List.append_nil (List.map _ _)]
      exact hfollows.asks.bind fun _ => .done _
    rw [hasks.run, List.map_nil, List.nil_append, hquestions]
  · unfold compileBy compile
    rw [if_pos h, if_pos h, Dialogue.run_bind, hfollows.own, List.nil_append]
    rfl

theorem compile_asksImages_pictures :
    pictures.tag? = some .container ∧ ∃ draft places nodes, pictures.draft? = some draft ∧
      AsksImages pictures draft.value places nodes ∧
      (∀ answers : Answers, ((compileBy .standard pictures).run answers []).2.map (·.question) =
        nodes.map fun node => (node, { format := .png, scale := Settings.standard.exportScale })) ∧
      (compileBy .standard pictures).run .own [] =
        (compile .standard pictures, (extraction .standard pictures).calls) :=
  ⟨by decide, compile_asksImages .standard pictures (by decide)⟩

end Edition

end Newsletter
