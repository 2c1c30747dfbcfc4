import CharacterSheet.Graph.State

/-!
Contract: how deep calculations of a graph can nest.

Owns:
- the stats and paths that a stat, a formula or a graph mentions, to any depth;
- the number of names that nodes of a graph can have.

A calculation that is going on is never begun again, and a calculation reads only what
is mentioned. So calculations nest at most as deep as there are names for nodes, even
though reads make new nodes.
-/

namespace CharacterSheet

/-- A stat or a path that is mentioned somewhere. -/
inductive Mention where
  | stat (stat : StatId)
  | path (path : PathId)
deriving DecidableEq, Repr

mutual

def Stat.mentions : Stat → List Mention
  | ⟨id, role, minimum, maximum, _, _, behaviors⟩ =>
      .stat id :: (role.mentions ++ boundMentions minimum ++ boundMentions maximum ++
        behaviorMentions behaviors)

def boundMentions : Option Stat → List Mention
  | none => []
  | some stat => stat.mentions

def Role.mentions : Role → List Mention
  | .regular => []
  | .conversion source target => source.mentions ++ target.mentions
  | .gain source target => source.mentions ++ target.mentions

def Behavior.mentions : Behavior → List Mention
  | ⟨_, _, _, transform⟩ => transform.mentions

def behaviorMentions : List Behavior → List Mention
  | [] => []
  | behavior :: rest => behavior.mentions ++ behaviorMentions rest

def Transform.mentions : Transform → List Mention
  | .multiply factor => factor.mentions
  | .plus formula => formula.mentions
  | .add _ | .scale _ | .set _ | .fallback _ | .fail _ => []

def Formula.mentions : Formula → List Mention
  | .reference stat _ ⟨source, conversions⟩ =>
      .path (PathOf.id ⟨source, conversions⟩) :: (stat.mentions ++ statMentions conversions)
  | .perStep stat _ _ => stat.mentions
  | .holds stat => stat.mentions
  | .component inner _ => inner.mentions
  | .probe _ inner => inner.mentions
  | .attempt inner _ => inner.mentions
  | .sum terms => formulaMentions terms
  | .product factors => formulaMentions factors
  | .difference left right => left.mentions ++ right.mentions
  | .quotient left right => left.mentions ++ right.mentions
  | .constant _ => []
  | .fail _ => []

def formulaMentions : List Formula → List Mention
  | [] => []
  | formula :: rest => formula.mentions ++ formulaMentions rest

def statMentions : List Stat → List Mention
  | [] => []
  | stat :: rest => stat.mentions ++ statMentions rest

end

/-- A path and the stats converted into it. -/
def PathOf.mentions (path : Path) : List Mention :=
  .path path.id :: statMentions path.conversions

def Address.mentions : Address → List Mention
  | .pipeline stat _ path => .stat stat :: path.mentions
  | .contribution _ => []

def Modifier.mentions (modifier : Modifier) : List Mention :=
  statMentions modifier.stats ++ modifier.value.mentions ++
    (match modifier.condition with
      | some condition => condition.mentions
      | none => [])

def Pipeline.mentions (pipeline : Pipeline) : List Mention :=
  pipeline.stat.mentions ++ pipeline.slots.values.flatMap fun slot => slot.path.mentions

def Link.mentions (link : Link) : List Mention :=
  boundMentions link.conversion ++ boundMentions link.gain

/-- A source, the path for what comes from it, and the stats of its links. -/
def Outlet.mentions (outlet : Outlet) : List Mention :=
  outlet.source.mentions ++ PathOf.mentions (.convertedFrom outlet.source) ++
    outlet.targets.values.flatMap Link.mentions

namespace Graph

/-- All that a graph mentions, and the main path. -/
def mentions (graph : Graph) : List Mention :=
  .path .main ::
    (graph.nodes.values.flatMap (·.address.mentions) ++
      graph.pipelines.values.flatMap Pipeline.mentions ++
      graph.modifiers.values.flatMap Modifier.mentions ++
      behaviorMentions graph.behaviors.values.flatten ++
      graph.links.outlets.values.flatMap Outlet.mentions)

/-- The names that nodes can have, given what is mentioned: each stage of each stat on
each path, and each modifier. -/
def nameCount (graph : Graph) : Nat :=
  let mentioned := graph.mentions
  let stats := mentioned.countP fun mention => mention matches .stat _
  let paths := mentioned.countP fun mention => mention matches .path _
  stats * Stage.all.length * paths + graph.modifiers.size

/-- The levels of nested reads that a calculation may use: one for each name, and one
for the read that closes a circle or finds a value. -/
def levels (graph : Graph) : Nat := graph.nameCount + 1

end Graph
end CharacterSheet
