import CharacterSheet.Proofs.Calculation.Nesting
import CharacterSheet.Proofs.Calculation.Rereading
import Mathlib.Data.List.Chain

/-!
Contract: a fault that reports a circle tells of a circle that is there.

Owns:
- vocabularies whose formulas and transforms pass on the faults of reads and do not make up circles;
- circles that unwind: those of their nodes that are still being calculated, those that were left with
  the fault, and the edges among the latter;
- the proof that the path of a fault that reaches the outside is a loop of recorded reads, all of
  whose nodes are to be calculated anew.

The path is read off the stack when the circle closes. From then on nothing is read any more, since every
plan passes the fault on at once; so the nodes of the path only leave the stack one by one, innermost
first, and each takes with it the edge from the one that failed it.
-/

namespace CharacterSheet

/-- Whether a fault reports a circle. -/
def Fault.isCycle : Fault → Bool
  | .cycle _ => true
  | _ => false

/-- Vocabularies whose formulas and transforms neither swallow faults nor make up circles. -/
def Vocabulary.Candid (vocabulary : Vocabulary) : Prop :=
  vocabulary.Passing fun fault => fault.isCycle = false

namespace Graph

variable {graph : Graph}

/-! ### Circles that unwind -/

/-- The nodes of a circle, of which the `outer` ones are on top of the stack, and the `inner` ones, each
of which read the next, have failed; the last one read the `first` one of the circle. -/
structure Unwinds (graph : Graph) (path : List NodeName) (first : NodeId)
    (outer inner : List NodeId) : Prop where
  head : (outer ++ inner).head? = some first
  names : (outer ++ inner ++ [first]).map graph.nameOf? = path.map some
  distinct : (outer ++ inner).Nodup
  running : outer.reverse <+: graph.evaluating
  feeds : (inner ++ [first]).IsChain fun reader read => graph.Feeds read reader
  stale : ∀ node ∈ inner, graph.Stale node

/-- When a node is read that is being calculated, a circle closes: it consists of that node and of all
that are on the stack above it. -/
theorem unwinds_circular (stacked : graph.Stacked) {node : NodeId}
    (running : node ∈ graph.evaluating) {path : List NodeName}
    (reports : graph.cycleFault node = .cycle path) :
    ∃ outer, graph.Unwinds path node outer [] := by
  have distinct := stacked.distinct
  obtain ⟨above, below, split⟩ := List.append_of_mem running
  rw [split] at distinct
  have apart : ∀ other ∈ above, other ≠ node := by
    rintro other member rfl
    exact (List.nodup_append.mp distinct).2.2 other member other List.mem_cons_self rfl
  have inner : graph.evaluating.takeWhile (· ≠ node) = above := by
    rw [split, List.takeWhile_append_of_pos fun other member => decide_eq_true (apart other member),
      List.takeWhile_cons_of_neg (by simp), List.append_nil]
  rw [cycleFault, inner] at reports
  cases reports
  refine ⟨node :: above.reverse, rfl, ?_, ?_, ?_, .singleton node,
    fun _ member => absurd member List.not_mem_nil⟩
  · rw [List.append_nil, List.map_filterMap_some_eq_filter_map_isSome, eq_comm, List.filter_eq_self]
    intro name member
    obtain ⟨other, inside, rfl⟩ := List.mem_map.mp member
    apply stacked.named
    rw [split]
    simp only [List.cons_append, List.mem_cons, List.mem_append, List.mem_reverse, List.not_mem_nil,
      or_false] at inside ⊢
    tauto
  · have segment : (above ++ [node]).Nodup :=
      distinct.sublist ((List.singleton_sublist.mpr List.mem_cons_self).append_left above)
    simpa using (List.nodup_reverse.mpr segment)
  · rw [split]
    exact ⟨below, by simp⟩

/-- What every member of a chain but the last is related to stays related. -/
theorem isChain_concat_imp {α : Type} {before after : α → α → Prop} {items : List α} {last : α}
    (chain : (items ++ [last]).IsChain before)
    (keeps : ∀ item ∈ items, ∀ next, before item next → after item next) :
    (items ++ [last]).IsChain after := by
  obtain ⟨first, _, joins⟩ := List.isChain_append.mp chain
  refine List.isChain_append.mpr ⟨first.imp_of_mem_imp fun item next member _ => keeps item member next,
    .singleton last, fun item ends next starts => ?_⟩
  exact keeps item (List.mem_of_getLast? ends) next (joins item ends next starts)

/-- A calculation that fails with the report of a circle takes its node from the stack; a node of the
circle keeps the edge from the one that failed it. -/
theorem Unwinds.leave {path : List NodeName} {first node : NodeId} {outer inner rest : List NodeId}
    (unwinds : graph.Unwinds path first outer inner) (stacked : graph.Stacked)
    (top : graph.evaluating = node :: rest) {reads : List NodeId}
    (failed : outer ≠ [] → ∃ child ∈ reads, (inner ++ [first]).head? = some child) (fault : Fault) :
    ∃ remaining left, (graph.leave node reads (.error fault)).Unwinds path first remaining left ∧
      (remaining ≠ [] → (left ++ [first]).head? = some node) := by
  have idle : node ∉ inner := by
    intro member
    obtain ⟨present, found, stale⟩ := unwinds.stale node member
    exact not_mem_evaluating stacked found stale (top ▸ List.mem_cons_self)
  have names : (graph.leave node reads (.error fault)).nameOf? = graph.nameOf? :=
    nameOf?_of_shape (shape_leave _ _ _ _)
  have ended : (graph.leave node reads (.error fault)).evaluating = rest := by
    rw [leave_eq]
    simp [top]
  have apart {other : NodeId} (member : other ∈ inner) : other ≠ node := by
    rintro rfl
    exact idle member
  have feeds : (inner ++ [first]).IsChain fun reader read =>
      (graph.leave node reads (.error fault)).Feeds read reader := by
    refine isChain_concat_imp unwinds.feeds fun reader member read feeds => ?_
    rw [feeds_leave, if_neg (apart member)]
    exact feeds
  have stale : ∀ other ∈ inner, (graph.leave node reads (.error fault)).Stale other := by
    intro other member
    obtain ⟨present, found, stale⟩ := unwinds.stale other member
    exact ⟨present, by rw [get?_leave, if_neg (apart member), found], stale⟩
  rcases outer.eq_nil_or_concat with rfl | ⟨remaining, last, rfl⟩
  · -- the whole circle has failed before
    exact ⟨[], inner, ⟨unwinds.head, by rw [names]; exact unwinds.names, unwinds.distinct,
      List.nil_prefix, feeds, stale⟩, fun impossible => absurd rfl impossible⟩
  · have running := unwinds.running
    rw [top, List.concat_eq_append, List.reverse_append, List.reverse_singleton, List.singleton_append,
      List.cons_prefix_cons] at running
    obtain ⟨rfl, running⟩ := running
    have same : remaining.concat last ++ inner = remaining ++ last :: inner := by
      rw [List.concat_eq_append, List.append_assoc, List.singleton_append]
    have circle := unwinds.names
    rw [same] at circle
    refine ⟨remaining, last :: inner, ⟨same ▸ unwinds.head, names ▸ circle, same ▸ unwinds.distinct,
      ended ▸ running, List.isChain_cons.mpr ⟨fun child starts => ?_, feeds⟩, fun other member => ?_⟩,
      fun _ => rfl⟩
    · obtain ⟨other, made, begins⟩ := failed (by simp)
      obtain rfl : other = child := Option.some.inj (begins.symm.trans starts)
      have listed : graph.nameOf? other ∈ path.map some := by
        rw [← circle]
        refine List.mem_map_of_mem ?_
        have inside : other ∈ inner ++ [first] := List.mem_of_mem_head? begins
        simp only [List.append_assoc, List.cons_append, List.mem_append, List.mem_cons] at inside ⊢
        exact .inr (.inr inside)
      obtain ⟨name, _, named⟩ := List.mem_map.mp listed
      obtain ⟨present, found, _⟩ := Option.map_eq_some_iff.mp named.symm
      rw [feeds_leave, if_pos rfl]
      exact ⟨made, Table.contains_iff.mpr ⟨present, found⟩⟩
    · rcases List.mem_cons.mp member with rfl | member
      · obtain ⟨present, found, _⟩ := (stacked.computing other).mpr (top ▸ List.mem_cons_self)
        refine ⟨_, by rw [get?_leave, if_pos rfl, found, Option.map_some], rfl⟩
      · exact stale other member

end Graph

open CharacterSheet.Graph

section Induction

variable {vocabulary : Vocabulary}

mutual

/-- A calculation that fails with the report of a circle leaves behind what has unwound of it. -/
theorem Evaluates.unwinds (candid : vocabulary.Candid) {node : NodeId} {graph after : Graph}
    {reply : Reply} {path : List NodeName} :
    Evaluates node graph reply after → graph.WellFormed vocabulary → graph.Stacked →
      reply = .error (.cycle path) →
        ∃ first outer inner, after.Unwinds path first outer inner ∧
          (outer ≠ [] → (inner ++ [first]).head? = some node)
  | .absent _, _, _, fails => nomatch fails
  | .cached _ _, _, _, fails => nomatch fails
  | .circular found computing, formed, stacked, fails => by
      obtain ⟨outer, unwinds⟩ := unwinds_circular stacked
        ((stacked.computing node).mp ⟨_, found, computing⟩) (Except.error.inj fails)
      exact ⟨node, outer, [], unwinds, fun _ => rfl⟩
  | @Evaluates.calculated _ _ present _ frame found stale runs, formed, stacked, fails => by
      have entered := formed.enter node
      have enteredStack := stacked.enter found stale
      have asks := (planOf_asks entered (addressOf?_enter found)).stated entered
      have advances := runs.advances entered enteredStack asks
      obtain ⟨child, read, first, outer, inner, unwinds, failed⟩ := runs.unwinds candid entered
        enteredStack asks (planOf_passes candid entered present.address) fails
      subst fails
      obtain ⟨remaining, left, still, next⟩ := unwinds.leave advances.stacked advances.evaluating
        (fun outside => ⟨child, read, failed outside⟩) (.cycle path)
      exact ⟨first, remaining, left, still, next⟩

/-- A plan that fails with the report of a circle has it from a node that it read. -/
theorem Runs.unwinds (candid : vocabulary.Candid) {plan : Plan (Option Value)} {frame after : Frame}
    {reply : Reply} {path : List NodeName} :
    Runs plan frame reply after → frame.graph.WellFormed vocabulary → frame.graph.Stacked →
      plan.Asks (statedScope vocabulary) →
        plan.Propagates (Transform.Passes fun fault => fault.isCycle = false)
          (fun fault => fault.isLocal = false ∧ fault.isCycle = false) →
          reply = .error (.cycle path) →
            ∃ child ∈ after.reads, ∃ first outer inner, after.graph.Unwinds path first outer inner ∧
              (outer ≠ [] → (inner ++ [first]).head? = some child)
  | .finish, _, _, _, passes, fails => by
      subst fails
      exact nomatch passes.2
  | .note rest, formed, stacked, asks, passes, fails => by
      have noted := Advances.record formed stacked (Record.inward_of_note asks.1)
      exact rest.unwinds candid noted.formed noted.stacked asks.2 passes fails
  | .consult rest, formed, stacked, asks, passes, fails =>
      rest.unwinds candid formed stacked (asks.2 _ formed.transforms_within)
        (passes _ fun _ => formed.passed candid) fails
  | @Runs.answered query resume frame answer graph reply after refused rest, formed, stacked, asks,
      passes, fails => by
      have located := advances_locate formed stacked asks.1
      rw [refused] at located
      have later := fun passes => rest.unwinds candid located.formed located.stacked (asks.2 answer)
        passes fails
      obtain ⟨-, ⟨stat, stage, path, -, -, rfl⟩ | ⟨modifier, -, -, rfl⟩⟩ := refused_locate refused
      · rw [passes.1 (.unresolvedReference stat.id) rfl] at later
        exact later ⟨rfl, rfl⟩
      · exact later (passes.2 none)
  | @Runs.read query resume frame node grown answer graph reply after found evaluates rest, formed,
      stacked, asks, passes, fails => by
      have located := advances_locate formed stacked asks.1
      rw [found] at located
      have evaluated := evaluates.advances located.formed located.stacked
      have inner : answer = .error (.cycle path) → _ :=
        evaluates.unwinds candid located.formed located.stacked
      have later := fun passes => rest.unwinds candid evaluated.formed evaluated.stacked
        (asks.2 answer) passes fails
      cases answer with
      | ok value => exact later (passes.2 value)
      | error fault =>
          -- the fault that was read ends the plan on the spot
          rw [passes.1 fault (evaluates.plain fault rfl)] at rest
          cases rest
          exact ⟨node, (frame.mem_reads_after node node graph).mpr (.inr rfl), inner fails⟩

end

end Induction

/-! ### Reported circles -/

namespace Graph

/-- A report of a circle holds of a graph: the names lead back to the first one, of the others none
occurs twice, each node read the next one when it was last calculated, and all are to be calculated
anew. -/
structure Loops (graph : Graph) (path : List NodeName) : Prop where
  long : 2 ≤ path.length
  closed : path.head? = path.getLast?
  distinct : path.tail.Nodup
  recorded : ∃ nodes : List NodeId, nodes.map graph.nameOf? = path.map some ∧
    (nodes.IsChain fun reader read => graph.Feeds read reader) ∧ ∀ node ∈ nodes, graph.Stale node

variable {vocabulary : Vocabulary} {graph : Graph}

/-- Once no node of a circle is left on the stack, its report holds. -/
theorem Unwinds.loops {path : List NodeName} {first : NodeId} {outer inner : List NodeId}
    (unwinds : graph.Unwinds path first outer inner) (formed : graph.WellFormed vocabulary)
    (idle : graph.evaluating = []) : graph.Loops path := by
  have none : outer = [] := by
    have running := unwinds.running
    rw [idle, List.prefix_nil, List.reverse_eq_nil_iff] at running
    exact running
  subst none
  obtain ⟨head, names, distinct, -, feeds, stale⟩ := unwinds
  rw [List.nil_append] at head names distinct
  obtain ⟨rest, rfl⟩ : ∃ rest, inner = first :: rest := by
    cases inner with
    | nil => contradiction
    | cons start rest => exact ⟨rest, by rw [Option.some.inj head]⟩
  have later : (rest ++ [first]).map graph.nameOf? = path.tail.map some := by
    have tails := congrArg List.tail names
    rwa [List.cons_append, List.map_cons, List.tail_cons, ← List.map_tail] at tails
  constructor
  · have lengths := congrArg List.length names
    simp only [List.length_map, List.length_append, List.length_cons, List.length_nil] at lengths
    omega
  · have starts := congrArg List.head? names
    have ends := congrArg List.getLast? names
    rw [List.map_append, List.map_singleton, List.getLast?_concat, List.getLast?_map] at ends
    rw [List.cons_append, List.map_cons, List.head?_cons, List.head?_map] at starts
    exact Option.map_injective (Option.some_injective NodeName) (starts.symm.trans ends)
  · have others : (rest ++ [first]).Nodup :=
      (List.perm_append_singleton first rest).nodup_iff.mpr distinct
    refine List.Nodup.of_map some (later ▸ others.map_on fun node member other _ same => ?_)
    have listed : graph.nameOf? node ∈ path.tail.map some :=
      later ▸ List.mem_map_of_mem member
    obtain ⟨name, _, named⟩ := List.mem_map.mp listed
    exact formed.named_once named.symm (same ▸ named.symm)
  · refine ⟨_, names, feeds, fun node member => ?_⟩
    rcases List.mem_append.mp member with inside | last
    · exact stale node inside
    · exact stale node (List.mem_singleton.mp last ▸ List.mem_cons_self)

theorem loops_valueOf (candid : vocabulary.Candid) (resting : graph.Resting vocabulary) {node : NodeId}
    {path : List NodeName} (fails : (graph.valueOf node).1 = .error (.cycle path)) :
    (graph.valueOf node).2.Loops path := by
  have evaluates := evaluates_valueOf resting node
  have advances := evaluates.advances resting.formed resting.stacked
  obtain ⟨first, outer, inner, unwinds, _⟩ :=
    evaluates.unwinds candid resting.formed resting.stacked fails
  exact unwinds.loops advances.formed (advances.evaluating.trans resting.idle)

theorem loops_perform (candid : vocabulary.Candid) (resting : graph.Resting vocabulary)
    {plan : Plan (Option Value)} (asks : plan.Asks (statedScope vocabulary))
    (passes : plan.Propagates (Transform.Passes fun fault => fault.isCycle = false)
      fun fault => fault.isLocal = false ∧ fault.isCycle = false)
    {path : List NodeName} (fails : (graph.perform plan).1 = .error (.cycle path)) :
    (graph.perform plan).2.Loops path := by
  obtain ⟨reads, runs⟩ := runs_perform resting asks
  have advances := runs.advances resting.formed resting.stacked asks
  obtain ⟨_, _, first, outer, inner, unwinds, _⟩ :=
    runs.unwinds candid resting.formed resting.stacked asks passes fails
  exact unwinds.loops advances.formed (advances.evaluating.trans resting.idle)

end Graph

/-- The vocabulary in which no formula and no transform swallows a fault or makes up a circle, and
nothing else is bounded. -/
def Vocabulary.candid : Vocabulary :=
  .bounding (Formula.Passes fun fault => fault.isCycle = false)
    (fun behavior => behavior.transform.Passes fun fault => fault.isCycle = false) (fun _ => True)
    trivial

theorem Vocabulary.closed_candid : Vocabulary.candid.Closed :=
  Vocabulary.closed_bounding (fun _ => trivial) fun _ => trivial

theorem Vocabulary.candid_candid : Vocabulary.candid.Candid := ⟨fun _ => id, fun _ => id⟩

/-- Whatever happened before, as long as no formula and no transform on the sheet swallows faults or
makes up circles: if a read of any stage, or one that an operation made on the way, reports a circle, the
graph after the read records this very circle. -/
theorem reported_circles_are_there (settings : Settings) (retention : Retention)
    (operations : List Operation) :
    let graph := (Sheet.run { settings, retention } operations).graph
    (graph.Within .candid → ∀ stat stage path, stat.HeadWithin .candid → path.Within .candid →
      ∀ report, (graph.perform (Plan.read stat stage path)).1 = .error (.cycle report) →
        (graph.perform (Plan.read stat stage path)).2.Loops report) ∧
    ∀ node before, .read node before ∈ Sheet.chronicle { settings, retention } operations →
      before.Within .candid → ∀ report, (before.valueOf node).1 = .error (.cycle report) →
        (before.valueOf node).2.Loops report := by
  intro graph
  have narrow {graph : Graph} (resting : graph.Resting .everything) (within : graph.Within .candid) :
      graph.Resting .candid := { resting with formed := resting.formed.narrow within }
  constructor
  · intro within stat stage path head route report fails
    exact loops_perform Vocabulary.candid_candid
      (narrow (Sheet.resting_run settings retention operations) within)
      (Plan.asks_read ⟨head, route⟩) (Plan.propagates_read stat stage path) fails
  · intro node before member within report fails
    exact loops_valueOf Vocabulary.candid_candid (narrow (Sheet.resting_read member) within) fails

/-- The totals of two stats that increase each other are on one circle, and all of its nodes read the
next one. -/
theorem feedback_reported :
    let graph := (Sheet.run {} feedback).graph
    let read := graph.perform (Plan.read (.named "Might") .total .main)
    ∃ report, read.1 = .error (.cycle report) ∧ report.length = 15 ∧ read.2.Loops report := by
  intro graph read
  have within : ∀ operation ∈ feedback, operation.Within .candid := by
    have swells (id : ModifierId) (name other : String) : Modifier.Within .candid
        { id, stats := [.named name], form := .baseAdd, value := .total (.named other) } :=
      { stats := fun stat member =>
          List.mem_singleton.mp member ▸ (named_within_bounding name).headWithin
        value := ⟨Plan.propagates_read (.named other) .total .main, named_within_bounding other, trivial,
          trivial⟩
        condition := fun _ none => nomatch none }
    simp only [feedback, List.forall_mem_cons]
    exact ⟨swells _ _ _, swells _ _ _, fun _ none => nomatch none⟩
  have confined : graph.Within .candid :=
    ((Sheet.reachable_run (.new {} {}) within).intact Vocabulary.closed_candid).formed.within
  have facts : (match read.1 with
      | .error (.cycle report) => report.length
      | _ => 0) = 15 := by decide +kernel
  have loops := (reported_circles_are_there {} {} feedback).1 confined (.named "Might") .total .main
    (named_within_bounding "Might").headWithin .main
  change ∀ report, read.1 = _ → read.2.Loops report at loops
  generalize read.1 = reply at facts loops
  split at facts
  · next report => exact ⟨report, rfl, facts, loops report rfl⟩
  · contradiction

end CharacterSheet
