import CharacterSheet.Graph.Evaluate
import CharacterSheet.Graph.Subscribe
import CharacterSheet.Graph.Sweep
import CharacterSheet.Proofs.Calculation.Vocabulary

/-!
Contract: the shape of a graph, which is all of it that says what its nodes calculate.

Owns:
- shapes: the addresses of nodes, pipelines, modifiers, behaviors and links, without
  caches, edges, subscriptions and waiting changes;
- well-formed graphs over a vocabulary, and graphs that keep to a narrower one;
- the operations that leave the shape as it is.
-/

namespace CharacterSheet

/-- What the nodes of a graph are and what their plans depend on. -/
structure Shape where
  address? : NodeId → Option Address
  nextNode : Nat
  pipelines : Table StatId Pipeline
  modifiers : Table ModifierId Modifier
  contributions : Table ModifierId NodeId
  behaviors : Table StatId (List Behavior)
  links : Links

/-- The value in a cache. -/
def Cache.value? : Cache → Option (Option Value)
  | .ready value => some value
  | .stale | .computing => none

@[simp] theorem Cache.value?_invalidate (cache : Cache) : cache.invalidate.value? = none := by
  cases cache <;> rfl

namespace Graph

/-- The address of a node. -/
def addressOf? (graph : Graph) (node : NodeId) : Option Address :=
  (graph.nodes.get? node).map (·.address)

def shape (graph : Graph) : Shape :=
  { address? := graph.addressOf?, nextNode := graph.nextNode, pipelines := graph.pipelines
    modifiers := graph.modifiers, contributions := graph.contributions
    behaviors := graph.behaviors, links := graph.links }

/-- The node that answers a request, if there is one already. -/
def located (graph : Graph) : Query → Option NodeId
  | .node stat stage path => if stat.isResolved then graph.node? stat.id stage path.id else none
  | .contribution modifier => graph.contributions.get? modifier

/-- The cached value of a node. -/
def known (graph : Graph) (node : NodeId) : Option (Option Value) :=
  (graph.nodes.get? node).bind (·.cache.value?)

/-- The transforms in force for a node. -/
def transformsOf (graph : Graph) : Address → List Transform
  | .pipeline stat stage path => graph.transformsFor stat stage path.id
  | .contribution _ => []

end Graph

/-! ### Well-formed graphs -/

/-- A roster stands under its form and path, and its members were entered there. -/
structure Slot.WellFormed (vocabulary : Vocabulary) (modifiers : Table ModifierId Modifier)
    (stat : StatId) (form : Form) (path : PathId) (slot : Slot) : Prop where
  path_id : slot.path.id = path
  place : path.at form.stage = path
  within : slot.path.Within vocabulary
  distinct : slot.roster.members.Nodup
  enrolled : ∀ member ∈ slot.roster.members, ∃ modifier, modifiers.get? member = some modifier ∧
    modifier.form = form ∧ modifier.path.id = path ∧ ∃ named ∈ modifier.stats, named.id = stat

structure Pipeline.WellFormed (vocabulary : Vocabulary) (modifiers : Table ModifierId Modifier)
    (stat : StatId) (pipeline : Pipeline) : Prop where
  keyed : pipeline.stat.id = stat
  resolved : pipeline.stat.isResolved = true
  within : pipeline.stat.HeadWithin vocabulary
  slots : ∀ form path slot, pipeline.slots.get? (form, path) = some slot →
    slot.WellFormed vocabulary modifiers stat form path

structure Link.Within (vocabulary : Vocabulary) (link : Link) : Prop where
  conversion : ∀ stat ∈ link.conversion, stat.Within vocabulary
  gain : ∀ stat ∈ link.gain, stat.Within vocabulary

structure Outlet.WellFormed (vocabulary : Vocabulary) (source : StatId) (outlet : Outlet) :
    Prop where
  keyed : outlet.source.id = source
  within : outlet.source.Within vocabulary
  path : (PathOf.convertedFrom outlet.source : Path).Within vocabulary
  links : ∀ target link, outlet.targets.get? target = some link → link.Within vocabulary

def Links.WellFormed (vocabulary : Vocabulary) (links : Links) : Prop :=
  ∀ source outlet, links.outlets.get? source = some outlet → outlet.WellFormed vocabulary source

/-- Pipelines list exactly the nodes of their stages, each modifier has its node, and
everything that is named is within a vocabulary. -/
structure Graph.WellFormed (vocabulary : Vocabulary) (graph : Graph) : Prop where
  numbered : ∀ node address, graph.addressOf? node = some address → node.number < graph.nextNode
  listed : ∀ stat pipeline stage path node, graph.pipelines.get? stat = some pipeline →
    pipeline.nodes.get? (stage, path) = some node →
      ∃ full : Path, graph.addressOf? node = some (.pipeline stat stage full) ∧
        full.id = path ∧ path.at stage = path
  named : ∀ node stat stage path, graph.addressOf? node = some (.pipeline stat stage path) →
    ∃ pipeline, graph.pipelines.get? stat = some pipeline ∧
      pipeline.nodes.get? (stage, path.id) = some node
  addressed : ∀ node stat stage path, graph.addressOf? node = some (.pipeline stat stage path) →
    path.Within vocabulary
  contributing : ∀ modifier node, graph.contributions.get? modifier = some node →
    graph.addressOf? node = some (.contribution modifier)
  contributed : ∀ node modifier, graph.addressOf? node = some (.contribution modifier) →
    graph.contributions.get? modifier = some node ∧ (graph.modifiers.get? modifier).isSome
  present : ∀ id modifier, graph.modifiers.get? id = some modifier →
    modifier.id = id ∧ modifier.Within vocabulary ∧ (graph.contributions.get? id).isSome
  pipelines : ∀ stat pipeline, graph.pipelines.get? stat = some pipeline →
    pipeline.WellFormed vocabulary graph.modifiers stat
  behaviors : ∀ stat behaviors, graph.behaviors.get? stat = some behaviors →
    ∀ behavior ∈ behaviors, behavior.Within vocabulary
  links : graph.links.WellFormed vocabulary

/-- All stats, paths, modifiers and behaviors that a graph names are within a vocabulary. -/
structure Graph.Within (vocabulary : Vocabulary) (graph : Graph) : Prop where
  nodes : ∀ node stat stage path, graph.addressOf? node = some (.pipeline stat stage path) →
    path.Within vocabulary
  modifiers : ∀ id modifier, graph.modifiers.get? id = some modifier → modifier.Within vocabulary
  pipelines : ∀ stat pipeline, graph.pipelines.get? stat = some pipeline →
    pipeline.stat.HeadWithin vocabulary
  slots : ∀ stat pipeline key slot, graph.pipelines.get? stat = some pipeline →
    pipeline.slots.get? key = some slot → slot.path.Within vocabulary
  behaviors : ∀ stat behaviors, graph.behaviors.get? stat = some behaviors →
    ∀ behavior ∈ behaviors, behavior.Within vocabulary
  links : ∀ source outlet, graph.links.outlets.get? source = some outlet →
    outlet.source.Within vocabulary ∧ (PathOf.convertedFrom outlet.source : Path).Within vocabulary ∧
      ∀ target link, outlet.targets.get? target = some link → link.Within vocabulary

namespace Graph

variable {vocabulary : Vocabulary}

theorem WellFormed.within {graph : Graph} (formed : graph.WellFormed vocabulary) :
    graph.Within vocabulary where
  nodes := formed.addressed
  modifiers id modifier found := (formed.present id modifier found).2.1
  pipelines stat pipeline here := (formed.pipelines stat pipeline here).within
  slots stat pipeline key slot here found :=
    ((formed.pipelines stat pipeline here).slots key.1 key.2 slot found).within
  behaviors := formed.behaviors
  links source outlet found :=
    have formed := formed.links source outlet found
    ⟨formed.within, formed.path, formed.links⟩

/-- A well-formed graph is well-formed within any vocabulary that it keeps to. -/
theorem WellFormed.narrow {graph : Graph} {narrower : Vocabulary}
    (formed : graph.WellFormed vocabulary) (within : graph.Within narrower) :
    graph.WellFormed narrower :=
  { formed with
    addressed := within.nodes
    present := fun id modifier found =>
      ⟨(formed.present id modifier found).1, within.modifiers id modifier found,
        (formed.present id modifier found).2.2⟩
    pipelines := fun stat pipeline here =>
      have before := formed.pipelines stat pipeline here
      { before with
        within := within.pipelines stat pipeline here
        slots := fun form path slot found =>
          { before.slots form path slot found with
            within := within.slots stat pipeline (form, path) slot here found } }
    behaviors := within.behaviors
    links := fun source outlet found =>
      have ⟨own, path, links⟩ := within.links source outlet found
      { formed.links source outlet found with within := own, path, links } }

theorem WellFormed.of_shape {graph other : Graph} (same : other.shape = graph.shape)
    (formed : graph.WellFormed vocabulary) : other.WellFormed vocabulary := by
  simp only [shape, Shape.mk.injEq] at same
  obtain ⟨addresses, next, pipelines, modifiers, contributions, behaviors, links⟩ := same
  constructor
  · simpa only [addresses, next] using formed.numbered
  · simpa only [addresses, pipelines] using formed.listed
  · simpa only [addresses, pipelines] using formed.named
  · simpa only [addresses] using formed.addressed
  · simpa only [addresses, contributions] using formed.contributing
  · simpa only [addresses, contributions, modifiers] using formed.contributed
  · simpa only [modifiers, contributions] using formed.present
  · simpa only [pipelines, modifiers] using formed.pipelines
  · simpa only [behaviors] using formed.behaviors
  · simpa only [links] using formed.links

theorem WellFormed.initial : ({} : Graph).WellFormed vocabulary := by
  constructor
  · intro node address found
    contradiction
  · intro stat pipeline stage path node found
    contradiction
  · intro node stat stage path found
    contradiction
  · intro node stat stage path found
    contradiction
  · intro modifier node found
    contradiction
  · intro node modifier found
    contradiction
  · intro id modifier found
    contradiction
  · intro stat pipeline found
    contradiction
  · intro stat behaviors found
    contradiction
  · intro source outlet found
    contradiction

theorem WellFormed.located_addressed {graph : Graph} (formed : graph.WellFormed vocabulary)
    {query : Query} {node : NodeId} (found : graph.located query = some node) :
    ∃ address, graph.addressOf? node = some address := by
  cases query with
  | node stat stage path =>
      simp only [located] at found
      split at found
      · rw [node?, Option.bind_eq_some_iff] at found
        obtain ⟨pipeline, here, inside⟩ := found
        obtain ⟨full, address, _, _⟩ := formed.listed _ _ _ _ _ here inside
        exact ⟨_, address⟩
      · contradiction
  | contribution modifier => exact ⟨_, formed.contributing _ _ found⟩

/-! ### What leaves the shape as it is -/

/-- The members of a roster are modifiers that belong there. -/
theorem WellFormed.enrolled {graph : Graph} (formed : graph.WellFormed vocabulary) {stat : StatId}
    {form : Form} {path : PathId} {member : ModifierId}
    (inside : member ∈ graph.members stat form path) :
    ∃ modifier, graph.modifiers.get? member = some modifier ∧ modifier.form = form ∧
      modifier.path.id = path ∧ ∃ named ∈ modifier.stats, named.id = stat := by
  unfold members at inside
  split at inside
  · next pipeline here =>
    unfold Pipeline.members at inside
    split at inside
    · next slot filled =>
      exact ((formed.pipelines stat pipeline here).slots form path slot filled).enrolled _ inside
    · contradiction
  · contradiction

theorem contains_of_addressed {graph : Graph} {node : NodeId} {address : Address}
    (found : graph.addressOf? node = some address) : graph.nodes.contains node = true := by
  rw [addressOf?, Option.map_eq_some_iff] at found
  obtain ⟨present, here, _⟩ := found
  rw [Table.contains, here]
  rfl

theorem addressOf?_modifyWhere (graph : Graph) (selects : NodeId → Bool) (change : Node → Node)
    (keeps : ∀ node, (change node).address = node.address) (node : NodeId) :
    ((graph.nodes.modifyWhere selects change).get? node).map (·.address) =
      graph.addressOf? node := by
  rw [Table.get?_modifyWhere, addressOf?]
  split
  · cases graph.nodes.get? node <;> simp [keeps]
  · rfl

@[simp] theorem shape_record (graph : Graph) (record : Record) :
    (graph.record record).shape = graph.shape := rfl

@[simp] theorem shape_modifyPending (graph : Graph) (change : Pending → Pending) :
    (graph.modifyPending change).shape = graph.shape := rfl

@[simp] theorem shape_noteOutdated (graph : Graph) : graph.noteOutdated.shape = graph.shape := rfl

@[simp] theorem shape_rewire (graph : Graph) (node : NodeId) (reads : List NodeId) :
    (graph.rewire node reads).shape = graph.shape := rfl

theorem shape_modifyNode (graph : Graph) (node : NodeId) {change : Node → Node}
    (keeps : ∀ node, (change node).address = node.address) :
    (graph.modifyNode node change).shape = graph.shape := by
  have same : (graph.modifyNode node change).addressOf? = graph.addressOf? := by
    funext other
    exact addressOf?_modifyWhere graph _ change keeps other
  simp only [shape, same]
  rfl

@[simp] theorem shape_setCache (graph : Graph) (node : NodeId) (cache : Cache) :
    (graph.setCache node cache).shape = graph.shape :=
  graph.shape_modifyNode node fun _ => rfl

@[simp] theorem shape_dropCaches (graph : Graph) (nodes : List NodeId) :
    (graph.dropCaches nodes).shape = graph.shape := by
  have same : (graph.dropCaches nodes).addressOf? = graph.addressOf? := by
    funext other
    exact addressOf?_modifyWhere graph _
      (fun node => { node with cache := node.cache.invalidate }) (fun _ => rfl) other
  simp only [shape, same]
  rfl

@[simp] theorem shape_markStale (graph : Graph) (starts : List NodeId) :
    (graph.markStale starts).shape = graph.shape := by
  rw [markStale, shape_dropCaches, shape_noteOutdated]

theorem foldl_submitNode (graph : Graph) (nodes : List NodeId) :
    nodes.foldl (fun marked node => marked.modifyPending (·.submitNode node)) graph =
      { graph with pending := nodes.foldl Pending.submitNode graph.pending } := by
  induction nodes generalizing graph with
  | nil => rfl
  | cons node rest inductionHypothesis =>
      rw [List.foldl_cons, inductionHypothesis]
      rfl

@[simp] theorem shape_invalidate (graph : Graph) (start : NodeId) :
    (graph.invalidate start).shape = graph.shape := by
  rw [invalidate, foldl_submitNode]
  show (graph.noteOutdated.dropCaches _).shape = _
  rw [shape_dropCaches, shape_noteOutdated]

@[simp] theorem shape_invalidateStage (graph : Graph) (stat : StatId) (stage : Stage)
    (path : PathId) : (graph.invalidateStage stat stage path).shape = graph.shape := by
  unfold invalidateStage
  split
  · exact shape_invalidate _ _
  · rfl

theorem shape_foldl {α : Type} {step : Graph → α → Graph}
    (keeps : ∀ graph item, (step graph item).shape = graph.shape) (items : List α)
    (graph : Graph) : (items.foldl step graph).shape = graph.shape := by
  induction items generalizing graph with
  | nil => rfl
  | cons item rest inductionHypothesis =>
      rw [List.foldl_cons, inductionHypothesis, keeps]

@[simp] theorem shape_invalidateTargets (graph : Graph) (behaviors : List Behavior) :
    (graph.invalidateTargets behaviors).shape = graph.shape :=
  shape_foldl (fun graph node => graph.shape_invalidate node) _ _

@[simp] theorem shape_linkChanged (graph : Graph) (source target : StatId) :
    (graph.linkChanged source target).shape = graph.shape := by
  unfold linkChanged
  rw [shape_foldl, shape_invalidateStage]
  intro changed stat
  rw [shape_invalidateStage, shape_invalidateStage]

@[simp] theorem shape_enter (graph : Graph) (node : NodeId) :
    (graph.enter node).shape = graph.shape :=
  graph.shape_setCache node .computing

@[simp] theorem shape_leave (graph : Graph) (node : NodeId) (reads : List NodeId)
    (reply : Reply) : (graph.leave node reads reply).shape = graph.shape := by
  cases reply <;> simp only [leave, shape_setCache, shape_rewire] <;> rfl

@[simp] theorem shape_resetNode (graph : Graph) (node : NodeId) :
    (graph.resetNode node).shape = graph.shape :=
  shape_modifyNode _ node fun _ => rfl

@[simp] theorem shape_relax (graph : Graph) (node : NodeId) :
    (graph.relax node).shape = graph.shape := by
  unfold relax
  split
  · rfl
  · split
    · exact shape_resetNode _ _
    · exact shape_modifyNode _ _ fun _ => rfl

@[simp] theorem shape_newSubscription (graph : Graph) (target : Target) :
    (graph.newSubscription target).2.shape = graph.shape := rfl

/-! ### What depends on the shape alone -/

theorem WellFormed.enter {graph : Graph} (formed : graph.WellFormed vocabulary) (node : NodeId) :
    (graph.enter node).WellFormed vocabulary :=
  formed.of_shape (shape_enter graph node)

theorem WellFormed.leave {graph : Graph} (formed : graph.WellFormed vocabulary) (node : NodeId)
    (reads : List NodeId) (reply : Reply) : (graph.leave node reads reply).WellFormed vocabulary :=
  formed.of_shape (shape_leave graph node reads reply)

theorem addressOf?_of_shape {graph other : Graph} (same : other.shape = graph.shape) :
    other.addressOf? = graph.addressOf? := congrArg Shape.address? same

theorem nameOf?_eq (graph : Graph) (node : NodeId) :
    graph.nameOf? node = (graph.addressOf? node).map Address.name := by
  rw [nameOf?, addressOf?, Option.map_map]
  rfl

theorem name_of_addressOf? {graph : Graph} {node : NodeId} {address : Address}
    (place : graph.addressOf? node = some address) : graph.nameOf? node = some address.name := by
  rw [nameOf?_eq, place, Option.map_some]

theorem addressOf?_of_get? {graph : Graph} {node : NodeId} {present : Node}
    (found : graph.nodes.get? node = some present) : graph.addressOf? node = some present.address := by
  rw [addressOf?, found, Option.map_some]

theorem nameOf?_of_get? {graph : Graph} {node : NodeId} {present : Node}
    (found : graph.nodes.get? node = some present) : graph.nameOf? node = some present.address.name :=
  name_of_addressOf? (addressOf?_of_get? found)

theorem nameOf?_of_shape {graph other : Graph} (same : other.shape = graph.shape) :
    other.nameOf? = graph.nameOf? := by
  funext node
  rw [nameOf?_eq, nameOf?_eq, addressOf?_of_shape same]

theorem node?_of_shape {graph other : Graph} (same : other.shape = graph.shape) :
    other.node? = graph.node? := by
  have pipelines : other.pipelines = graph.pipelines := congrArg Shape.pipelines same
  unfold node?
  rw [pipelines]

theorem located_of_shape {graph other : Graph} (same : other.shape = graph.shape) :
    other.located = graph.located := by
  have contributions : other.contributions = graph.contributions :=
    congrArg Shape.contributions same
  funext query
  cases query with
  | node stat stage path => simp only [located, node?_of_shape same]
  | contribution modifier => simp only [located, contributions]

theorem transformsOf_of_shape {graph other : Graph} (same : other.shape = graph.shape) :
    other.transformsOf = graph.transformsOf := by
  have behaviors : other.behaviors = graph.behaviors := congrArg Shape.behaviors same
  funext address
  cases address with
  | pipeline stat stage path => simp only [transformsOf, transformsFor, behaviors]
  | contribution modifier => rfl

theorem planOf_of_shape {graph other : Graph} (same : other.shape = graph.shape) :
    other.planOf = graph.planOf := by
  have pipelines : other.pipelines = graph.pipelines := congrArg Shape.pipelines same
  have modifiers : other.modifiers = graph.modifiers := congrArg Shape.modifiers same
  have links : other.links = graph.links := congrArg Shape.links same
  cases graph
  cases other
  subst pipelines modifiers links
  rfl

end Graph
end CharacterSheet
