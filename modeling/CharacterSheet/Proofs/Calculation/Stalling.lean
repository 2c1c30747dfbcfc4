import CharacterSheet.Proofs.Calculation.Rereading

/-!
Contract: what a calculation that ends in a fault leaves behind.

Owns:
- the making of a node that puts no behavior in force, which changes no other node;
- a calculation that puts no behavior in force frees no stuck node, and if it ends in a fault, then
  its node is stuck;
- so what every node bears outlasts such a calculation, and a stuck node answers a fault.

While calculations are going on, their nodes count as stuck without a reason: a circle runs into
one of them, and the reason is found when its own calculation ends.
-/

namespace CharacterSheet

namespace Graph

variable {vocabulary : Vocabulary} {graph middle other : Graph} {exempt stuck : NodeId → Prop}

/-! ### Making a node without behaviors -/

/-- A pipeline that is made without behaviors is only opened. -/
theorem ensurePipeline_calm {stat : Stat}
    (calm : (graph.ensurePipeline stat).registrations ≤ graph.registrations) :
    graph.ensurePipeline stat = graph ∨
      graph.pipelines.get? stat.id = none ∧ graph.ensurePipeline stat = graph.openPipeline stat := by
  rw [ensurePipeline_eq] at calm ⊢
  split
  · exact Or.inl rfl
  · next absent =>
    have missing : graph.pipelines.get? stat.id = none := by
      simpa [Table.contains] using absent
    rw [if_neg absent] at calm
    split
    · exact Or.inr ⟨missing, rfl⟩
    · next unforced =>
      rw [if_neg unforced, registrations, registrations, enforce, invalidateTargets_eq,
        (fades_invalidateAll _ _).journal] at calm
      simp [record, openPipeline, Record.isRegistration] at calm

/-- Once the pipeline is there, nothing is written into the journal. -/
theorem journal_obtain (graph : Graph) (stat : Stat) (stage : Stage) (path : Path) :
    (graph.obtain stat stage path).2.journal = (graph.ensurePipeline stat).journal := by
  apply obtain_induction (motive := fun grown =>
    grown.journal = (graph.ensurePipeline stat).journal)
  · rfl
  · intro grown other place same _ _ _
    exact same

theorem alters_obtain (formed : graph.WellFormed vocabulary) (stacked : graph.Stacked)
    {stat : Stat} {stage : Stage} {path : Path} (resolved : stat.isResolved)
    (within : stat.HeadWithin vocabulary) (route : path.Within vocabulary)
    (calm : (graph.obtain stat stage path).2.registrations ≤ graph.registrations) :
    graph.Alters (graph.obtain stat stage path).2 Clean Clean := by
  have ready := advances_ensurePipeline formed stacked resolved within
  obtain ⟨pipeline, opened⟩ := graph.pipeline_ensurePipeline stat
  have goal : Advances vocabulary (graph.ensurePipeline stat) (graph.obtain stat stage path).2 ∧
      (graph.ensurePipeline stat).Alters (graph.obtain stat stage path).2 Clean Clean := by
    apply obtain_induction (motive := fun grown =>
      Advances vocabulary (graph.ensurePipeline stat) grown ∧
        (graph.ensurePipeline stat).Alters grown Clean Clean)
    · exact ⟨.refl ready.formed ready.stacked, .of_shape rfl rfl rfl⟩
    · rintro grown other place ⟨advances, alters⟩ either fits missing
      obtain ⟨_, here, _⟩ := advances.grows.pipelines _ _ opened
      have step : Advances vocabulary grown (grown.addStage stat.id other place).2 :=
        (Advances.refl advances.formed advances.stacked).addStage here
          (within_of_route route either) fits missing
      exact ⟨advances.trans step,
        alters.clean_trans (alters_addStage advances.formed step.grows)⟩
  have opens : graph.Alters (graph.ensurePipeline stat) Clean Clean := by
    rw [registrations, journal_obtain] at calm
    rcases ensurePipeline_calm calm with same | ⟨missing, same⟩
    · rw [same]
      exact .of_shape rfl rfl rfl
    · rw [same]
      exact alters_openPipeline formed
        (advances_openPipeline formed stacked missing resolved within).grows
  exact opens.clean_trans goal.2

/-- A request that puts no behavior in force changes no node. -/
theorem alters_locate (formed : graph.WellFormed vocabulary) (stacked : graph.Stacked)
    {query : Query} (asked : (statedScope vocabulary).query query)
    (calm : (graph.locate query).2.registrations ≤ graph.registrations) :
    graph.Alters (graph.locate query).2 Clean Clean := by
  cases query with
  | node stat stage path =>
      rw [locate_node] at calm ⊢
      split
      · next resolved =>
        rw [if_pos resolved] at calm
        exact alters_obtain formed stacked resolved asked.1 asked.2 calm
      · exact .of_shape rfl rfl rfl
  | contribution modifier =>
      rw [locate_contribution]
      split <;> exact .of_shape rfl rfl rfl

/-! ### Stalled nodes outlast small changes -/

theorem Stalled.mono {wider : NodeId → Prop} (stalled : graph.Stalled exempt stuck)
    (spared : ∀ node, stuck node → exempt node → wider node) : graph.Stalled wider stuck :=
  fun node here => ⟨(stalled node here).1, (stalled node here).2.imp_left (spared node here)⟩

/-- A change that affects nothing frees no node. -/
theorem Stalled.keep (stalled : graph.Stalled exempt stuck) (formed : graph.WellFormed vocabulary)
    (alters : graph.Alters other Clean Clean) : other.Stalled exempt stuck := by
  have kept : other.Stalled exempt fun node => stuck node ∧ ¬ Clean node :=
    stalled.alter formed alters fun _ _ _ either => either.resolve_right id
  intro node here
  obtain ⟨unknown, held⟩ := kept node ⟨here, id⟩
  exact ⟨unknown, held.imp_right (·.mono fun _ => And.left)⟩

/-- The nodes that are being calculated, less the innermost one. -/
theorem Stalled.leave (stalled : graph.Stalled (· ∈ graph.evaluating) stuck)
    (formed : graph.WellFormed vocabulary) {node : NodeId} {rest : List NodeId}
    (top : graph.evaluating = node :: rest) (unknown : graph.known node = none)
    (reads : List NodeId) (reply : Reply) {more : NodeId → Prop}
    (wider : ∀ reached, stuck reached → more reached)
    {reached : NodeId} (here : stuck reached) (distinct : reached ≠ node) :
    (graph.leave node reads reply).known reached = none ∧
      (reached ∈ rest ∨ (graph.leave node reads reply).Held more reached) := by
  obtain ⟨missing, either⟩ := stalled reached here
  refine ⟨(known_leave graph node reads reply distinct).trans missing, ?_⟩
  rcases either with running | held
  · rw [top] at running
    exact Or.inl ((List.mem_cons.mp running).resolve_left distinct)
  · exact Or.inr (held.spared formed (spares_leave unknown reads reply distinct) fun producer _ =>
      wider producer)

/-- A calculation that ended in a fault holds its own node back: its plan is doomed by what it read. -/
theorem Stalled.leave_fault (stalled : graph.Stalled (· ∈ graph.evaluating) stuck)
    (formed : graph.WellFormed vocabulary) {node : NodeId} {rest : List NodeId}
    (top : graph.evaluating = node :: rest) (unknown : graph.known node = none) {address : Address}
    (found : graph.addressOf? node = some address) (reads : List NodeId) (fault : Fault)
    (doomed : (graph.planOf address).Doomed graph
      (fun producer => producer ∈ reads ∧ graph.nodes.contains producer) stuck) :
    (graph.leave node reads (.error fault)).Stalled (· ∈ rest)
      fun reached => stuck reached ∨ reached = node := by
  have shape := shape_leave graph node reads (.error fault)
  intro reached here
  by_cases same : reached = node
  · subst same
    refine ⟨?_, Or.inr ⟨address, ?_, Or.inl ?_⟩⟩
    · rw [known, get?_leave, if_pos rfl]
      cases graph.nodes.get? reached <;> rfl
    · rw [addressOf?_of_shape shape]
      exact found
    · rw [planOf_of_shape shape]
      have located : ∀ query producer, (producer ∈ reads ∧ graph.nodes.contains producer = true) →
          graph.located query = some producer →
            (graph.leave reached reads (.error fault)).located query = some producer := by
        intro query producer _ located
        rw [located_of_shape shape]
        exact located
      refine (doomed.transfer formed (planOf_asks formed found) located ?_
        (fun _ _ bars => Or.inl bars) ?_).mono ?_ fun _ bars => bars
      · intro producer cached _ held
        rw [known_leave]
        · exact held
        · rintro rfl
          rw [unknown] at held
          contradiction
      · rw [transformsOf_of_shape shape]
      · intro producer fed
        exact (feeds_leave ..).mpr (by rw [if_pos rfl]; exact fed)
  · exact stalled.leave formed top unknown reads (.error fault) (fun _ => Or.inl)
      (here.resolve_right same) same

/-- A node that is held back by nodes that stay without values yields no value later either. -/
theorem Held.not_yields_later (formed : graph.WellFormed vocabulary) {node : NodeId}
    (held : graph.Held stuck node) (grows : graph.Grows other) (untouched : graph.Untouched other)
    (unknown : ∀ node, stuck node → other.known node = none) {address : Address}
    (found : graph.addressOf? node = some address) {value : Option Value} {reads : List NodeId} :
    ¬ (graph.planOf address).Yields other value reads := by
  obtain ⟨same, here, held⟩ := held
  rw [found] at here
  cases here
  rcases held with doomed | ⟨query, producer, insists, located, _, bars⟩
  · exact (doomed.transfer formed (planOf_asks formed found)
      (fun _ _ _ there => grows.located there) (fun _ _ _ known => untouched.known _ _ known)
      (fun _ _ bars => bars) (untouched.transforms node _ found)).not_yields unknown
  · intro yields
    obtain ⟨answers, cached, there, known⟩ := insists.known yields
    rw [grows.located located] at there
    cases there
    rw [unknown producer bars] at known
    contradiction

/-- What a calculation leaves of some stuck nodes: all of them, and together with what else held it
back its own node, if it ended in a fault. -/
def Stalls (running : List NodeId) (stuck : NodeId → Prop) (node : NodeId) (after : Graph) :
    Reply → Prop
  | .ok _ => after.Stalled (· ∈ running) stuck
  | .error _ => ∃ more, (∀ reached, stuck reached → more reached) ∧
      after.Stalled (· ∈ running) more ∧ more node

end Graph

open CharacterSheet.Graph

/-- What the run of a plan leaves of some stuck nodes: all of them. A value follows from what is
cached in the end, and after a fault the plan is doomed by what it has read. -/
def Frame.Stalls (running : List NodeId) (stuck : NodeId → Prop) (plan : Plan (Option Value))
    (after : Frame) : Reply → Prop
  | .ok value => after.graph.Stalled (· ∈ running) stuck ∧
      ∃ reads, plan.Yields after.graph value reads
  | .error _ => ∃ more, (∀ reached, stuck reached → more reached) ∧
      after.graph.Stalled (· ∈ running) more ∧
        plan.Doomed after.graph
          (fun producer => producer ∈ after.reads ∧ after.graph.nodes.contains producer) more

section Steps

variable {running : List NodeId} {stuck : NodeId → Prop} {after : Frame} {reply : Reply}

theorem Frame.Stalls.note {entry : Record} {next : Plan (Option Value)}
    (stalls : Frame.Stalls running stuck next after reply) :
    Frame.Stalls running stuck (.note entry next) after reply := by
  cases reply with
  | ok value =>
      obtain ⟨kept, reads, yields⟩ := stalls
      exact ⟨kept, reads, .note yields⟩
  | error fault =>
      obtain ⟨more, wider, kept, doomed⟩ := stalls
      exact ⟨more, wider, kept, .note doomed⟩

theorem Frame.Stalls.consult {stat : StatId} {stage : Stage} {path : PathId}
    {resume : List Transform → Plan (Option Value)}
    (stalls : Frame.Stalls running stuck (resume (after.graph.transformsFor stat stage path)) after
      reply) : Frame.Stalls running stuck (.consult stat stage path resume) after reply := by
  cases reply with
  | ok value =>
      obtain ⟨kept, reads, yields⟩ := stalls
      exact ⟨kept, reads, .consult yields⟩
  | error fault =>
      obtain ⟨more, wider, kept, doomed⟩ := stalls
      exact ⟨more, wider, kept, .consult doomed⟩

theorem Frame.Stalls.read {query : Query} {resume : Reply → Plan (Option Value)} {node : NodeId}
    {cached : Option Value} (located : after.graph.located query = some node)
    (fed : node ∈ after.reads ∧ after.graph.nodes.contains node)
    (known : after.graph.known node = some cached)
    (stalls : Frame.Stalls running stuck (resume (.ok cached)) after reply) :
    Frame.Stalls running stuck (.ask query resume) after reply := by
  cases reply with
  | ok value =>
      obtain ⟨kept, reads, yields⟩ := stalls
      exact ⟨kept, node :: reads, .read located known yields⟩
  | error fault =>
      obtain ⟨more, wider, kept, doomed⟩ := stalls
      exact ⟨more, wider, kept, .read located fed known doomed⟩

end Steps

/-! ### Calculations that end in a fault -/

section Induction

variable {vocabulary : Vocabulary}

theorem Runs.reads_mono {plan : Plan (Option Value)} {frame after : Frame} {reply : Reply}
    {node : NodeId} : Runs plan frame reply after → node ∈ frame.reads → node ∈ after.reads
  | .finish, member => member
  | .note rest, member | .consult rest, member | .answered _ rest, member => rest.reads_mono member
  | .read _ _ rest, member =>
      rest.reads_mono ((Frame.mem_reads_after _ _ _ _).mpr (Or.inl member))

mutual

/-- A calculation that puts no behavior in force frees no stuck node, and if it ends in a fault,
then its node is stuck, too. -/
theorem Evaluates.stalls (propagating : vocabulary.Propagating) {node : NodeId}
    {graph after : Graph} {reply : Reply} :
    Evaluates node graph reply after → graph.WellFormed vocabulary → graph.Stacked →
      (∃ address, graph.addressOf? node = some address) →
        after.registrations ≤ graph.registrations → ∀ stuck : NodeId → Prop,
          graph.Stalled (· ∈ graph.evaluating) stuck →
            Graph.Stalls graph.evaluating stuck node after reply
  | .absent missing, _, _, existing, _ => by
      obtain ⟨address, found⟩ := existing
      rw [addressOf?, missing] at found
      contradiction
  | .cached _ _, _, _, _, _ => fun _ stalled => stalled
  | .circular found computing, _, stacked, _, _ => by
      intro stuck stalled
      have running := (stacked.computing node).mp ⟨_, found, computing⟩
      refine ⟨fun reached => stuck reached ∨ reached = node, fun _ => Or.inl,
        stalled.or ?_, Or.inr rfl⟩
      rintro reached rfl
      refine ⟨?_, Or.inl running⟩
      rw [known, found, Option.bind_some, computing]
      rfl
  | @Evaluates.calculated _ _ present reply frame found stale runs, formed, stacked, existing,
      calm => by
      intro stuck stalled
      have entered := formed.enter node
      have enteredStack := stacked.enter found stale
      have address := addressOf?_enter found
      have asks := planOf_asks entered address
      have stalledInside : (graph.enter node).Stalled (· ∈ (graph.enter node).evaluating) stuck :=
        (stalled.keep formed
          (.of_shape (shape_enter graph node) rfl (known_enter found stale))).mono
            fun _ _ => List.mem_cons_of_mem node
      have inside : frame.graph.registrations ≤ (graph.enter node).registrations := by
        rw [leave_eq] at calm
        exact calm
      have inner := runs.stalls propagating entered enteredStack address asks
        (planOf_propagates propagating entered present.address) inside stuck stalledInside
      have advances := runs.advances entered enteredStack (asks.stated entered)
      have logs := runs.logs entered enteredStack (asks.stated entered)
      have top : frame.graph.evaluating = node :: graph.evaluating := advances.evaluating
      have idle := not_mem_evaluating stacked found stale
      have unknown : frame.graph.known node = none := by
        obtain ⟨running, here, computing⟩ := (advances.stacked.computing node).mpr
          (top ▸ List.mem_cons_self)
        rw [known, here, Option.bind_some, computing]
        rfl
      cases reply with
      | ok value =>
          obtain ⟨kept, reads, yields⟩ := inner
          rw [advances.evaluating] at top
          have free : ¬ stuck node := by
            intro here
            have unentered : graph.addressOf? node = some present.address := by
              rw [addressOf?, found]
              rfl
            have untouched := (((logs_enter found stale).trans logs).calm inside).1
            exact ((stalled node here).2.resolve_left idle).not_yields_later formed
              ((grows_enter graph node).trans advances.grows) untouched
              (fun reached held => (kept reached held).1) unentered yields
          intro reached here
          exact Stalled.leave (advances.evaluating ▸ kept) advances.formed advances.evaluating
            unknown frame.reads (.ok value) (fun _ => id) here fun same => free (same ▸ here)
      | error fault =>
          obtain ⟨more, wider, kept, doomed⟩ := inner
          rw [← advances.grows.planOf entered address] at doomed
          refine ⟨fun reached => more reached ∨ reached = node, fun reached here =>
            Or.inl (wider reached here), ?_, Or.inr rfl⟩
          exact Stalled.leave_fault (advances.evaluating ▸ kept) advances.formed
            advances.evaluating unknown (advances.grows.addressed address) frame.reads fault doomed

/-- The run of a plan that puts no behavior in force frees no stuck node, and ends in a fault only
if the plan is doomed. -/
theorem Runs.stalls (propagating : vocabulary.Propagating) {plan : Plan (Option Value)}
    {frame after : Frame} {reply : Reply} {node : NodeId} {address : Address} :
    Runs plan frame reply after → frame.graph.WellFormed vocabulary → frame.graph.Stacked →
      frame.graph.addressOf? node = some address →
        plan.Asks (frame.graph.scopeOf vocabulary address) →
          plan.Propagates Transform.Propagates (fun fault => fault.isLocal = false) →
            after.graph.registrations ≤ frame.graph.registrations → ∀ stuck : NodeId → Prop,
              frame.graph.Stalled (· ∈ frame.graph.evaluating) stuck →
                Frame.Stalls frame.graph.evaluating stuck plan after reply
  | @Runs.finish reply frame, _, _, _, _, _, _ => by
      intro stuck stalled
      cases reply with
      | ok value => exact ⟨stalled, [], .finish⟩
      | error fault => exact ⟨stuck, fun _ => id, stalled, .fault⟩
  | @Runs.note entry next frame reply after rest, formed, stacked, found, asks, propagates,
      calm => by
      intro stuck stalled
      have inward := Record.inward_of_note asks.1
      have noted := Advances.record formed stacked inward
      have logged := (logs_record frame.graph (Record.isFlush_of_inward inward)).registrations_le
      exact (rest.stalls propagating noted.formed noted.stacked found
        (Asks.grow noted.grows asks.2) propagates (Nat.le_trans calm logged) stuck
        (stalled.keep formed (alters_record _ _))).note
  | @Runs.consult stat stage path resume frame reply after rest, formed, stacked, found, asks,
      propagates, calm => by
      intro stuck stalled
      have asksLater := asks.2 (frame.graph.transformsFor stat stage path) formed.transforms_within
      have behaviors := ((rest.logs formed stacked
        (Plan.Asks.stated formed asksLater)).calm calm).1.behaviors
      -- the transforms that the plan was given are those in force in the end
      have inForce : after.graph.transformsFor stat stage path =
          frame.graph.transformsFor stat stage path := by
        rw [transformsFor, transformsFor, behaviors]
      have later := rest.stalls propagating formed stacked found asksLater
        (propagates _ fun transform member => formed.heeded propagating member) calm stuck stalled
      rw [← inForce] at later
      exact later.consult
  | @Runs.answered query resume frame answer grown reply after refused rest, formed, stacked,
      found, asks, propagates, calm => by
      intro stuck stalled
      obtain ⟨rfl, ⟨stat, stage, path, rfl, unresolved, rfl⟩ | ⟨modifier, rfl, missing, rfl⟩⟩ :=
        refused_locate refused
      · have ended := propagates.1 (.unresolvedReference stat.id) rfl
        rw [ended] at rest
        cases rest
        exact ⟨stuck, fun _ => id, stalled, .refused unresolved⟩
      · obtain ⟨located, hosted⟩ := formed.enrolled_contributes asks.1
        rw [missing] at hosted
        contradiction
  | @Runs.read query resume frame located grown answer graph reply after here evaluates rest,
      formed, stacked, found, asks, propagates, calm => by
      intro stuck stalled
      have stated := stated_of_scopeOf formed asks.1
      have read := calmRead_of_runs formed stacked stated here evaluates rest
        (Plan.Asks.stated formed (asks.2 answer)) calm
      have reached := read.making.trans read.evaluated
      have alters := alters_locate formed stacked stated (by rw [here]; exact read.calmMaking)
      rw [here] at alters
      have inner := evaluates.stalls propagating read.making.formed read.making.stacked
        read.addressed read.calmInside stuck (read.making.evaluating ▸ stalled.keep formed alters)
      rw [read.making.evaluating] at inner
      have fed : located ∈ after.reads ∧ after.graph.nodes.contains located = true := by
        obtain ⟨_, there⟩ := read.addressed
        exact ⟨rest.reads_mono ((Frame.mem_reads_after _ _ _ _).mpr (Or.inr rfl)),
          contains_of_addressed (read.rest.grows.addressed (read.evaluated.grows.addressed there))⟩
      have innerPlain := evaluates.plain
      have later := rest.stalls propagating read.evaluated.formed read.evaluated.stacked
        (reached.grows.addressed found) (Asks.grow reached.grows (asks.2 answer))
        (propagates_resume propagates innerPlain) read.calmRest stuck
      rw [show (frame.after located graph).graph.evaluating = _ from reached.evaluating] at later
      cases answer with
      | error fault =>
          -- the plan passes the fault on
          obtain ⟨more, wider, kept, bars⟩ := inner
          have ended := propagates.1 fault (innerPlain fault rfl)
          rw [ended] at rest
          cases rest
          exact ⟨more, wider, kept, .barred read.located fed bars⟩
      | ok cached => exact (later inner).read read.located fed (read.known cached rfl)

end

end Induction

namespace Graph

variable {vocabulary : Vocabulary} {graph other : Graph}

/-! ### What nodes bear -/

/-- What a reply says that a node bears. -/
def borne : Reply → Option (Option Value)
  | .ok value => some value
  | .error _ => none

section Resting

variable (propagating : vocabulary.Propagating) (resting : graph.Resting vocabulary)
  {node : NodeId} {reply : Reply} (evaluates : Evaluates node graph reply other)
  (addressed : ∃ address, graph.addressOf? node = some address)
  (calm : other.registrations ≤ graph.registrations)
include propagating resting evaluates addressed calm

/-- A calculation that puts no behavior in force frees no stuck node. -/
theorem stuck_of_evaluates {reached : NodeId} (stuck : graph.Stuck reached) :
    other.Stuck reached := by
  obtain ⟨held, stalled, here⟩ := stuck
  have left := evaluates.stalls propagating resting.formed resting.stacked addressed calm held
    (stalled.mono fun _ _ none => none.elim)
  rw [resting.idle] at left
  cases reply with
  | ok value => exact ⟨held, left.mono fun _ _ none => absurd none List.not_mem_nil, here⟩
  | error fault =>
      obtain ⟨more, wider, kept, -⟩ := left
      exact ⟨more, kept.mono fun _ _ none => absurd none List.not_mem_nil, wider reached here⟩

/-- What nodes bear outlasts a calculation that puts no behavior in force. -/
theorem Bears.evaluate {reached : NodeId} {outcome : Option (Option Value)}
    (bears : graph.Bears reached outcome) : other.Bears reached outcome := by
  cases outcome with
  | none => exact stuck_of_evaluates propagating resting evaluates addressed calm bears
  | some value =>
      exact ((evaluates.logs resting.formed resting.stacked addressed).calm calm).1.known _ _ bears

/-- After its calculation, a node bears what it answered. -/
theorem bears_of_evaluates : other.Bears node (borne reply) := by
  cases reply with
  | ok value =>
      exact ((evaluates.logs resting.formed resting.stacked addressed).calm calm).2 value rfl
  | error fault =>
      have left := evaluates.stalls propagating resting.formed resting.stacked addressed calm Clean
        fun _ none => none.elim
      obtain ⟨more, -, kept, here⟩ := left
      rw [resting.idle] at kept
      exact ⟨more, kept.mono fun _ _ none => absurd none List.not_mem_nil, here⟩

/-- What a node bears is what it answers. -/
theorem Bears.answer {outcome : Option (Option Value)} (bears : graph.Bears node outcome) :
    borne reply = outcome := by
  cases outcome with
  | some value => rw [(evaluates_known bears evaluates).1, borne]
  | none =>
      cases reply with
      | error fault => rfl
      | ok value =>
          obtain ⟨_, stalled, here⟩ :=
            stuck_of_evaluates propagating resting evaluates addressed calm bears
          have known := ((evaluates.logs resting.formed resting.stacked addressed).calm calm).2
            value rfl
          rw [(stalled node here).1] at known
          contradiction

end Resting

end Graph
end CharacterSheet
