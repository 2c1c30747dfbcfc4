import CharacterSheet.Proofs.History.Annals

/-!
Contract: a calculation leaves nothing half done behind.

Owns:
- the last calculation of a node among some events: what it read and what its reply was;
- accounts: graphs whose edges and caches are those that the last calculations left, apart from cached
  values that were dropped since;
- every calculation gives an account of itself, whether it succeeds, fails, closes a circle or takes
  the fault of a read for a result;
- whatever is read from outside of any calculation, no calculation goes on when the read returns.

Nodes that a calculation does not come to keep their edges, and at most lose their values.
-/

namespace CharacterSheet

/-! ### Last calculations -/

/-- The nodes that a calculation read with their replies, and its own reply. -/
abbrev Computation := List (NodeId × Reply) × Reply

namespace Event

/-- The calculation of a node that ends with an event. -/
def computation? (node : NodeId) : Event → Option Computation
  | calculated other readings reply _ => if other = node then some (readings, reply) else none
  | _ => none

/-- The last calculation of a node among some events. -/
def lastComputation? (node : NodeId) (events : List Event) : Option Computation :=
  (events.filterMap (computation? node)).getLast?

theorem lastComputation?_append (node : NodeId) (events more : List Event) :
    lastComputation? node (events ++ more) =
      (lastComputation? node more).or (lastComputation? node events) := by
  rw [lastComputation?, List.filterMap_append, List.getLast?_append]
  rfl

theorem lastComputation?_calculated (node other : NodeId) (events : List Event)
    (readings : List (NodeId × Reply)) (reply : Reply) (graph : Graph) :
    lastComputation? other (events ++ [.calculated node readings reply graph]) =
      if node = other then some (readings, reply) else lastComputation? other events := by
  rw [lastComputation?_append]
  by_cases same : node = other <;> simp [lastComputation?, computation?, same]

end Event

/-- The cache that a calculation leaves unless its inputs changed in the meantime. -/
def Cache.of : Reply → Cache
  | .ok value => .ready value
  | .error _ => .stale

/-- A cache stays as it is, or its value is dropped. -/
def Cache.FadesTo (cache later : Cache) : Prop := later = cache ∨ later = cache.invalidate

theorem Cache.FadesTo.trans {cache between later : Cache} (first : cache.FadesTo between)
    (second : between.FadesTo later) : cache.FadesTo later := by
  have twice : cache.invalidate.invalidate = cache.invalidate := by cases cache <;> rfl
  rcases first with rfl | rfl
  · exact second
  · exact .inr (second.elim id fun same => same.trans twice)

/-- A value that is cached has been there all along. -/
theorem Cache.eq_of_fadesTo_ready {cache : Cache} {value : Option Value}
    (fades : cache.FadesTo (.ready value)) : cache = .ready value := by
  rcases fades with same | dropped
  · exact same.symm
  · cases cache <;> contradiction

theorem Cache.of_fadesTo_ready {reply : Reply} {value : Option Value}
    (fades : (Cache.of reply).FadesTo (.ready value)) : reply = .ok value := by
  cases reply with
  | ok result => exact congrArg Except.ok (Cache.ready.inj (eq_of_fadesTo_ready fades))
  | error fault => exact absurd (eq_of_fadesTo_ready fades) nofun

namespace Graph

variable {graph middle other : Graph} {events more : List Event}

/-! ### Accounts -/

/-- A node is there, and its cache is as stated or has lost its value since. -/
def Caches (graph : Graph) (node : NodeId) (cache : Cache) : Prop :=
  ∃ present, graph.nodes.get? node = some present ∧ cache.FadesTo present.cache

theorem Caches.later {node : NodeId} {cache : Cache} (caches : graph.Caches node cache)
    (later : ∀ present, graph.nodes.get? node = some present → other.Caches node present.cache) :
    other.Caches node cache := by
  obtain ⟨between, here, fades⟩ := caches
  obtain ⟨last, found, more⟩ := later between here
  exact ⟨last, found, fades.trans more⟩

/-- Edges and caches are those that the last calculations among some events left, and those of other
nodes are as they were, apart from values that were dropped. No calculation that is going on is begun
again. -/
structure Accounts (graph : Graph) (events : List Event) (other : Graph) : Prop where
  untouched : ∀ node, Event.lastComputation? node events = none →
    (∀ producer, other.Feeds producer node ↔ graph.Feeds producer node) ∧
      ∀ present, graph.nodes.get? node = some present → other.Caches node present.cache
  calculated : ∀ node readings reply, Event.lastComputation? node events = some (readings, reply) →
    (∀ producer, other.Feeds producer node ↔ producer ∈ readings.map Prod.fst) ∧
      (∀ producer ∈ readings.map Prod.fst, other.nodes.contains producer = true) ∧
        other.Caches node (.of reply)
  spared : ∀ node ∈ graph.evaluating, Event.lastComputation? node events = none
  evaluating : other.evaluating = graph.evaluating
  kept : ∀ node, graph.nodes.contains node = true → other.nodes.contains node = true

namespace Accounts

/-- Cached values may be dropped and nodes made, while nothing is calculated. -/
theorem of_fading (edges : other.edges = graph.edges)
    (caches : ∀ node present, graph.nodes.get? node = some present → other.Caches node present.cache)
    (evaluating : other.evaluating = graph.evaluating) : graph.Accounts [] other where
  untouched := fun node _ => ⟨fun producer => by rw [Feeds, Feeds, edges], caches node⟩
  calculated := fun _ _ _ none => nomatch none
  spared := fun _ _ => rfl
  evaluating := evaluating
  kept := by
    intro node contained
    obtain ⟨present, found⟩ := Table.contains_iff.mp contained
    obtain ⟨later, here, _⟩ := caches node present found
    exact Table.contains_iff.mpr ⟨later, here⟩

theorem refl (graph : Graph) : graph.Accounts [] graph :=
  .of_fading rfl (fun _ present found => ⟨present, found, .inl rfl⟩) rfl

theorem trans (first : graph.Accounts events middle) (second : middle.Accounts more other) :
    graph.Accounts (events ++ more) other where
  untouched := by
    intro node none
    rw [Event.lastComputation?_append, Option.or_eq_none_iff] at none
    obtain ⟨feeds, caches⟩ := first.untouched node none.2
    obtain ⟨later, fades⟩ := second.untouched node none.1
    exact ⟨fun producer => (later producer).trans (feeds producer), fun present found =>
      Caches.later (caches present found) fades⟩
  calculated := by
    intro node readings reply last
    rw [Event.lastComputation?_append] at last
    cases again : Event.lastComputation? node more with
    | some computation =>
        rw [again, Option.some_or] at last
        cases last
        exact second.calculated node readings reply again
    | none =>
        rw [again, Option.none_or] at last
        obtain ⟨feeds, present, caches⟩ := first.calculated node readings reply last
        obtain ⟨later, fades⟩ := second.untouched node again
        exact ⟨fun producer => (later producer).trans (feeds producer),
          fun producer read => second.kept producer (present producer read),
          Caches.later caches fades⟩
  spared := by
    intro node running
    rw [Event.lastComputation?_append, first.spared node running,
      second.spared node (first.evaluating ▸ running), Option.or_none]
  evaluating := second.evaluating.trans first.evaluating
  kept := fun node contained => second.kept node (first.kept node contained)

/-- What is neither a calculation nor changes anything goes into no account. -/
theorem cons {event : Event} (aside : ∀ node, event.computation? node = none)
    (accounts : graph.Accounts events other) : graph.Accounts (event :: events) other := by
  have same (node : NodeId) :
      Event.lastComputation? node (event :: events) = Event.lastComputation? node events := by
    rw [Event.lastComputation?, List.filterMap_cons_none (aside node)]
    rfl
  exact ⟨fun node none => accounts.untouched node (same node ▸ none),
    fun node readings reply last => accounts.calculated node readings reply (same node ▸ last),
    fun node running => (same node).trans (accounts.spared node running), accounts.evaluating,
    accounts.kept⟩

end Accounts

/-! ### Nodes that are made -/

theorem accounts_of_fades {affected : NodeId → Prop} (fades : graph.Fades other affected) :
    graph.Accounts [] other := by
  refine .of_fading fades.edges (fun node present found => ?_) fades.evaluating
  by_cases reached : affected node
  · exact ⟨_, (fades.dropped node reached).trans (congrArg (Option.map _) found), .inr rfl⟩
  · exact ⟨present, (fades.kept node reached).trans found, .inl rfl⟩

theorem accounts_ensurePipeline (graph : Graph) (stat : Stat) :
    graph.Accounts [] (graph.ensurePipeline stat) := by
  have opens : graph.Accounts [] (graph.openPipeline stat) :=
    .of_fading rfl (fun _ present found => ⟨present, found, .inl rfl⟩) rfl
  rw [ensurePipeline_eq]
  split
  · exact .refl graph
  · split
    · exact opens
    · have enters : (graph.openPipeline stat).Accounts []
          ({ graph.openPipeline stat with
            behaviors := graph.behaviors.insert stat.id stat.behaviors }.record
              (.behaviorsRegistered stat.id stat.behaviors.length)) :=
        .of_fading rfl (fun _ present found => ⟨present, found, .inl rfl⟩) rfl
      exact opens.trans (enters.trans (accounts_of_fades (fades_invalidateAll _ _)))

theorem accounts_addStage (formed : graph.WellFormed .everything) (stat : StatId) (stage : Stage)
    (path : Path) : graph.Accounts [] (graph.addStage stat stage path).2 := by
  refine .of_fading rfl (fun node present found => ⟨present, ?_, .inl rfl⟩) rfl
  refine (Table.get?_insert_other _ ?_ _).trans found
  rintro rfl
  rw [formed.fresh] at found
  contradiction

theorem accounts_locate (formed : graph.WellFormed .everything) (stacked : graph.Stacked)
    (query : Query) : graph.Accounts [] (graph.locate query).2 := by
  cases query with
  | contribution modifier =>
      rw [locate_contribution]
      split <;> exact .refl graph
  | node stat stage path =>
      rw [locate_node]
      split
      · next resolved =>
        have ready := advances_ensurePipeline formed stacked resolved
          stat.within_everything.headWithin
        obtain ⟨pipeline, opened⟩ := graph.pipeline_ensurePipeline stat
        refine (obtain_induction (motive := fun grown => Advances .everything
          (graph.ensurePipeline stat) grown ∧ graph.Accounts [] grown) stage
          ⟨.refl ready.formed ready.stacked, accounts_ensurePipeline graph stat⟩ ?_).2
        rintro grown other place ⟨advances, accounts⟩ _ fits missing
        exact ⟨advances.addStage opened place.within_everything fits missing,
          accounts.trans (accounts_addStage advances.formed stat.id other place)⟩
      · exact .refl graph

theorem accounts_locating (formed : graph.WellFormed .everything) (stacked : graph.Stacked)
    (query : Query) : graph.Accounts (graph.locating query) (graph.locate query).2 := by
  have accounts := accounts_locate formed stacked query
  cases query with
  | contribution modifier => exact accounts
  | node stat stage path =>
      show graph.Accounts (if stat.isResolved then graph.opening stat else []) _
      unfold opening
      split
      · split
        · exact accounts
        · exact accounts.cons fun _ => rfl
      · exact accounts

/-! ### Calculations that end -/

theorem contains_leave (graph : Graph) (node other : NodeId) (reads : List NodeId) (reply : Reply) :
    (graph.leave node reads reply).nodes.contains other = graph.nodes.contains other := by
  rw [Table.contains, get?_leave]
  split <;> simp [Table.contains]

theorem fadesTo_cacheAfter (graph : Graph) (node : NodeId) (reply : Reply) :
    (Cache.of reply).FadesTo (graph.cacheAfter node reply) := by
  cases reply with
  | error fault => exact .inl rfl
  | ok value =>
      show Cache.FadesTo (.ready value) (if node ∉ graph.outdated then .ready value else .stale)
      split
      · exact .inl rfl
      · exact .inr rfl

/-- A calculation that ends goes into the account: its reads become the edges of its node, and its
reply is kept if it is a value. -/
theorem Accounts.leave {node : NodeId} {present : Node} {last : Graph} {reads : List NodeId}
    {readings : List (NodeId × Reply)} (stacked : graph.Stacked)
    (found : graph.nodes.get? node = some present) (stale : present.cache = .stale)
    (inner : (graph.enter node).Accounts events last)
    (noted : ∀ other, other ∈ reads ↔ other ∈ readings.map Prod.fst)
    (existing : ∀ other ∈ readings.map Prod.fst, last.nodes.contains other = true) (reply : Reply) :
    graph.Accounts (events ++ [.calculated node readings reply (last.leave node reads reply)])
      (last.leave node reads reply) where
  untouched := by
    intro other none
    rw [Event.lastComputation?_calculated] at none
    split at none
    · contradiction
    · next apart =>
      have apart : other ≠ node := fun same => apart same.symm
      obtain ⟨feeds, caches⟩ := inner.untouched other none
      refine ⟨fun producer => ?_, fun before there => ?_⟩
      · rw [feeds_leave, if_neg apart]
        exact feeds producer
      · obtain ⟨later, here, fades⟩ := caches before (by rw [get?_enter, if_neg apart, there])
        exact ⟨later, by rw [get?_leave, if_neg apart, here], fades⟩
  calculated := by
    intro other answers answer last
    rw [Event.lastComputation?_calculated] at last
    split at last
    · next same =>
      cases last
      subst same
      obtain ⟨computing, here⟩ := Table.contains_iff.mp (inner.kept node
        (Table.contains_iff.mpr ⟨_, by rw [get?_enter, if_pos rfl, found, Option.map_some]⟩))
      refine ⟨fun producer => ?_, fun producer read => ?_,
        { computing with cache := last.cacheAfter node reply }, ?_, fadesTo_cacheAfter last node reply⟩
      · rw [feeds_leave, if_pos rfl, noted]
        exact ⟨And.left, fun read => ⟨read, existing producer read⟩⟩
      · rw [contains_leave]
        exact existing producer read
      · rw [get?_leave, if_pos rfl, here, Option.map_some]
    · next apart =>
      have apart : other ≠ node := fun same => apart same.symm
      obtain ⟨feeds, existing, later, here, fades⟩ := inner.calculated other answers answer last
      refine ⟨fun producer => ?_, ?_, later, ?_, fades⟩
      · rw [feeds_leave, if_neg apart]
        exact feeds producer
      · intro producer read
        rw [contains_leave]
        exact existing producer read
      · rw [get?_leave, if_neg apart, here]
  spared := by
    intro other running
    have apart : node ≠ other := by
      rintro rfl
      exact not_mem_evaluating stacked found stale running
    rw [Event.lastComputation?_calculated, if_neg apart]
    exact inner.spared other (List.mem_cons_of_mem node running)
  evaluating := by
    have top : last.evaluating = node :: graph.evaluating := inner.evaluating
    rw [leave_eq]
    simp [top]
  kept := by
    intro other contained
    obtain ⟨before, there⟩ := Table.contains_iff.mp contained
    rw [contains_leave]
    refine inner.kept other (Table.contains_iff.mpr ?_)
    rw [get?_enter]
    split
    · exact ⟨_, congrArg (Option.map _) there⟩
    · exact ⟨before, there⟩

end Graph

open CharacterSheet.Graph

/-! ### Calculations -/

section Calculations

variable {evaluator : Evaluator} {tell : Teller}

/-- An evaluator advances well-formed graphs, and what is told of it accounts for what it does. -/
def Discloses (evaluator : Evaluator) (tell : Teller) : Prop :=
  ∀ node graph reply after, evaluator node graph = some (reply, after) →
    graph.WellFormed .everything → graph.Stacked →
      Advances .everything graph after ∧ graph.Accounts (tell node graph) after

/-- The run of a plan is accounted for if its reads are, and it takes note of exactly the nodes that it
reads. -/
theorem accounts_run (discloses : Discloses evaluator tell) {plan : Plan (Option Value)}
    {frame after : Frame} {reply : Reply} (asks : plan.Asks (statedScope .everything))
    (formed : frame.graph.WellFormed .everything) (stacked : frame.graph.Stacked)
    (ran : plan.run (Frame.interpreter evaluator) frame = some (reply, after)) :
    frame.graph.Accounts (plan.events evaluator tell frame) after.graph ∧
      (∀ node, node ∈ after.reads ↔
        node ∈ frame.reads ∨ node ∈ (plan.readings evaluator frame).map Prod.fst) ∧
      ∀ node ∈ (plan.readings evaluator frame).map Prod.fst,
        after.graph.nodes.contains node = true := by
  induction plan generalizing frame with
  | finish result =>
      cases ran
      exact ⟨(Accounts.refl _).cons fun _ => rfl, by simp [Plan.readings], by simp [Plan.readings]⟩
  | ask query resume inductionHypothesis =>
      have advances := advances_locate formed stacked asks.1
      have locates := accounts_locating formed stacked query
      rw [Plan.run, show (Frame.interpreter evaluator).answer = Frame.answer evaluator from rfl] at ran
      rw [Plan.events, Plan.readings, answering]
      rw [Frame.answer_eq] at ran ⊢
      rcases located : frame.graph.locate query with ⟨refusal | node, grown⟩ <;>
        rw [located] at locates advances ran
      · obtain ⟨rest, reads, present⟩ := @inductionHypothesis refusal { frame with graph := grown }
          (asks.2 refusal) advances.formed advances.stacked ran
        rw [List.append_nil]
        exact ⟨(locates.trans rest).cons fun _ => rfl, reads, present⟩
      · dsimp only at ran ⊢
        rcases answered : evaluator node grown with _ | ⟨answer, read⟩
        · rw [answered] at ran
          contradiction
        · rw [answered] at ran
          obtain ⟨advanced, told⟩ := discloses node grown answer read answered advances.formed
            advances.stacked
          obtain ⟨rest, reads, present⟩ := inductionHypothesis answer (asks.2 answer)
            advanced.formed advanced.stacked ran
          have found : grown.located query = some node :=
            located_locate formed stacked asks.1 located
          obtain ⟨address, addressed⟩ := advances.formed.located_addressed found
          have contained := rest.kept node (told.kept node (contains_of_addressed addressed))
          refine ⟨((locates.trans told).trans rest).cons fun _ => rfl, fun other => ?_, ?_⟩
          · rw [reads other, Frame.mem_reads_after, Option.map_some]
            simp only [List.map_cons, List.mem_cons, or_assoc]
          · exact List.forall_mem_cons.mpr ⟨contained, present⟩
  | consult stat stage path resume inductionHypothesis =>
      have heeds : (resume (frame.graph.transformsFor stat stage path)).Asks
          (statedScope .everything) := asks.2 _ formed.transforms_within
      obtain ⟨accounts, rest⟩ := inductionHypothesis _ heeds formed stacked ran
      exact ⟨accounts.cons fun _ => rfl, rest⟩
  | note entry next inductionHypothesis =>
      have notes := Advances.record formed stacked (Record.inward_of_note asks.1)
      obtain ⟨accounts, rest⟩ := @inductionHypothesis
        { frame with graph := frame.graph.record entry } asks.2 notes.formed notes.stacked ran
      have records : frame.graph.Accounts [] (frame.graph.record entry) :=
        .of_fading rfl (fun _ present found => ⟨present, found, .inl rfl⟩) rfl
      exact ⟨(records.trans accounts).cons fun _ => rfl, rest⟩

/-- A calculation is accounted for if its nested reads are, and its own reply goes into the account. -/
theorem accounts_evaluateBy (discloses : Discloses evaluator tell) {node : NodeId}
    {graph after : Graph} {reply : Reply}
    (evaluated : evaluateBy evaluator node graph = some (reply, after))
    (formed : graph.WellFormed .everything) (stacked : graph.Stacked) :
    graph.Accounts (eventsBy evaluator tell node graph) after ∧
      ((∃ present, graph.nodes.get? node = some present ∧ present.cache = .stale) →
        ∃ readings, Event.lastComputation? node (eventsBy evaluator tell node graph) =
          some (readings, reply)) := by
  rcases evaluateBy_cases evaluated with ⟨rfl, unmoved⟩ | ⟨present, frame, found, cached, ran, rfl⟩
  · rw [eventsBy_unmoved unmoved]
    refine ⟨.refl after, fun stale => ?_⟩
    obtain ⟨present, found, cached⟩ := stale
    exact absurd cached (unmoved present found)
  · rw [eventsBy_calculated found cached ran]
    have entered := formed.enter node
    have address := addressOf?_enter found
    obtain ⟨inner, reads, existing⟩ := accounts_run discloses
      ((planOf_asks entered address).stated entered) entered (stacked.enter found cached) ran
    refine ⟨inner.leave stacked found cached (fun other => ?_) existing reply, fun _ => ?_⟩
    · simpa using reads other
    · exact ⟨_, by rw [Event.lastComputation?_calculated, if_pos rfl]⟩

theorem discloses_evaluate (levels : Nat) : Discloses (evaluate levels) (events levels) := by
  induction levels with
  | zero => exact fun _ _ _ _ impossible => nomatch impossible
  | succ levels inductionHypothesis =>
      exact fun node graph reply after evaluated formed stacked =>
        ⟨(evaluate_sound evaluated).advances formed stacked,
          (accounts_evaluateBy inductionHypothesis evaluated formed stacked).1⟩

end Calculations

/-! ### Reads from outside -/

/-- A read from outside of any calculation returns with nothing half done: no calculation goes on; what
was calculated has exactly the edges from the existing nodes that it read last, whatever these reads
and the calculation itself came to; and a cached value is either of the last calculation, which
succeeded, or was there before and is of a node that was not calculated. -/
structure Graph.Returns (graph : Graph) (node : NodeId) : Prop where
  idle : (graph.valueOf node).2.evaluating = []
  settled : (graph.valueOf node).2.outdated = []
  finished : ∀ other present, (graph.valueOf node).2.nodes.get? other = some present →
    present.cache ≠ .computing
  edges : ∀ other readings reply,
    Event.lastComputation? other (graph.diary node) = some (readings, reply) →
      (∀ producer, (graph.valueOf node).2.Feeds producer other ↔ producer ∈ readings.map Prod.fst) ∧
        ∀ producer ∈ readings.map Prod.fst, (graph.valueOf node).2.nodes.contains producer = true
  failed : ∀ other readings fault,
    Event.lastComputation? other (graph.diary node) = some (readings, .error fault) →
      ∃ present, (graph.valueOf node).2.nodes.get? other = some present ∧ present.cache = .stale
  cached : ∀ other value, (graph.valueOf node).2.known other = some value →
    match Event.lastComputation? other (graph.diary node) with
    | some (_, reply) => reply = .ok value
    | none => graph.nodes.contains other = true → graph.known other = some value
  /-- If the read fails, its node was calculated, and has no value. -/
  fault : ∀ fault, (graph.valueOf node).1 = .error fault →
    (∃ readings, Event.lastComputation? node (graph.diary node) = some (readings, .error fault)) ∧
      ∃ present, (graph.valueOf node).2.nodes.get? node = some present ∧ present.cache = .stale

namespace Graph

variable {graph other : Graph}

theorem accounts_valueOf (formed : graph.WellFormed .everything) (stacked : graph.Stacked)
    (node : NodeId) : graph.Accounts (graph.diary node) (graph.valueOf node).2 := by
  rcases valueOf_cases node graph with ⟨levels, evaluated, told⟩ | ⟨same, told⟩
  · rw [told]
    exact (discloses_evaluate levels node graph _ _ evaluated formed stacked).2
  · rw [told, same]
    exact .refl graph

/-- A read that fails outside of any calculation comes from a calculation of its node. -/
theorem fault_valueOf (formed : graph.WellFormed .everything) (stacked : graph.Stacked)
    (idle : graph.evaluating = []) {node : NodeId} {fault : Fault}
    (failed : (graph.valueOf node).1 = .error fault) :
    ∃ readings, Event.lastComputation? node (graph.diary node) = some (readings, .error fault) := by
  rcases valueOf_cases node graph with ⟨levels, evaluated, told⟩ | ⟨same, _⟩
  · cases levels with
    | zero => contradiction
    | succ levels =>
        rw [told, ← failed]
        refine (accounts_evaluateBy (discloses_evaluate levels) evaluated formed stacked).2 ?_
        have evaluates : Evaluates node graph (graph.valueOf node).1 (graph.valueOf node).2 :=
          evaluate_sound evaluated
        rw [failed] at evaluates
        generalize (graph.valueOf node).2 = after at evaluates
        cases evaluates with
        | circular found computing =>
            have running := (stacked.computing node).mp ⟨_, found, computing⟩
            rw [idle] at running
            contradiction
        | calculated found stale _ => exact ⟨_, found, stale⟩
  · rw [same] at failed
    contradiction

theorem returns_of_resting (resting : graph.Resting .everything) (node : NodeId) :
    graph.Returns node := by
  have accounts := accounts_valueOf resting.formed resting.stacked node
  have later := (evaluates_valueOf resting node).advances resting.formed resting.stacked
  have idle := later.evaluating.trans resting.idle
  have failed (other : NodeId) (readings : List (NodeId × Reply)) (fault : Fault)
      (last : Event.lastComputation? other (graph.diary node) = some (readings, .error fault)) :
      ∃ present, (graph.valueOf node).2.nodes.get? other = some present ∧
        present.cache = .stale := by
    obtain ⟨-, -, present, found, fades⟩ := accounts.calculated other readings _ last
    exact ⟨present, found, fades.elim id id⟩
  have faulty (fault : Fault) (failure : (graph.valueOf node).1 = .error fault) :=
    fault_valueOf resting.formed resting.stacked resting.idle failure
  exact
    { idle
      settled := by
        have none := later.stacked.outdated
        rw [idle] at none
        exact List.eq_nil_iff_forall_not_mem.mpr fun other member =>
          absurd (none other member) List.not_mem_nil
      finished := by
        intro other present found computing
        have running := (later.stacked.computing other).mp ⟨present, found, computing⟩
        rw [idle] at running
        contradiction
      edges := fun other readings reply last =>
        have account := accounts.calculated other readings reply last
        ⟨account.1, account.2.1⟩
      failed
      cached := by
        intro other value known
        obtain ⟨present, found, ready⟩ := known_eq_some_iff.mp known
        split
        · next readings reply last =>
          obtain ⟨-, -, same, here, fades⟩ := accounts.calculated other readings reply last
          cases found.symm.trans here
          exact Cache.of_fadesTo_ready (ready ▸ fades)
        · next none =>
          intro contained
          obtain ⟨before, there⟩ := Table.contains_iff.mp contained
          obtain ⟨same, here, fades⟩ := (accounts.untouched other none).2 before there
          cases found.symm.trans here
          exact known_eq_some_iff.mpr ⟨before, there, Cache.eq_of_fadesTo_ready (ready ▸ fades)⟩
      fault := fun fault failure =>
        have ⟨readings, last⟩ := faulty fault failure
        ⟨⟨readings, last⟩, failed node readings fault last⟩ }

end Graph

/-- At every moment of a run, in the middle of calculations too, the nodes that are being calculated are
those on the stack, and the stack has no duplicates. Whatever is read from outside of any
calculation, by a caller, for a subscription or by a subscriber, nothing is half done when the read
returns. -/
theorem reads_leave_nothing_half_done (settings : Settings) (retention : Retention)
    (operations : List Operation) :
    let chronicle := Sheet.chronicle { settings, retention } operations
    (∀ event ∈ chronicle, event.graph.Stacked) ∧
      ∀ node graph, .read node graph ∈ chronicle → graph.Returns node := by
  intro chronicle
  have unfolds : ({} : Graph).Unfolds chronicle (Sheet.run { settings, retention } operations).graph :=
    @Sheet.unfolds_chronicle { settings, retention } .initial operations
  refine ⟨fun event member => (unfolds.proper event member).stacked, fun node graph member => ?_⟩
  have proper := unfolds.proper _ member
  exact returns_of_resting ⟨proper.formed, proper.stacked, proper.fits⟩ node

/-- Two stats each of which is set to the total of the other, one of them with a value in case the other
has none. -/
def attemptedCircle : List Operation :=
  [.add { id := ⟨1⟩, stats := [.named "Might"], form := .baseAdd
          value := .attempt (.total (.named "Skill")) (some (.scalar 7)) },
    .add { id := ⟨2⟩, stats := [.named "Skill"], form := .baseAdd, value := .total (.named "Might") },
    .value (.named "Might") .total .main]

/-- When the first total is read, the modifier of the second stat closes a circle. The read succeeds,
and the modifier, which read the first total and failed, has an edge from it and no value. -/
theorem attemptedCircle_returned :
    let chronicle := Sheet.chronicle {} attemptedCircle
    ∃ graph, .read ⟨14⟩ graph ∈ chronicle ∧
      (graph.valueOf ⟨14⟩).1.toBool = true ∧
      (∃ readings fault,
        Event.lastComputation? ⟨7⟩ (graph.diary ⟨14⟩) = some (readings, .error fault)) ∧
      (graph.valueOf ⟨14⟩).2.Feeds ⟨14⟩ ⟨7⟩ ∧
      ∃ present, (graph.valueOf ⟨14⟩).2.nodes.get? ⟨7⟩ = some present ∧ present.cache = .stale := by
  intro chronicle
  have facts : chronicle[8]?.map (fun event => match event with
      | .read node graph =>
          (node, (graph.valueOf node).1.toBool,
            (Event.lastComputation? ⟨7⟩ (graph.diary node)).map fun computation : Computation =>
              (computation.1.map Prod.fst, computation.2.toBool))
      | _ => (⟨0⟩, false, none)) =
      some (⟨14⟩, true, some ([⟨14⟩], false)) := by decide +kernel
  have returns : ∀ node graph, .read node graph ∈ chronicle → graph.Returns node :=
    (reads_leave_nothing_half_done {} {} attemptedCircle).2
  clear_value chronicle
  obtain ⟨event, found, facts⟩ := Option.map_eq_some_iff.mp facts
  split at facts
  case h_2 => cases facts
  case h_1 node graph =>
    rw [Prod.mk.injEq, Prod.mk.injEq] at facts
    obtain ⟨rfl, reply, last⟩ := facts
    have member : .read ⟨14⟩ graph ∈ chronicle := List.mem_of_getElem? found
    have returned := returns ⟨14⟩ graph member
    obtain ⟨⟨readings, outcome⟩, computed, parts⟩ := Option.map_eq_some_iff.mp last
    obtain ⟨nodes, failed⟩ := Prod.mk.inj parts
    rcases outcome with fault | value
    · refine ⟨graph, member, reply, ⟨readings, fault, computed⟩, ?_,
        returned.failed ⟨7⟩ readings fault computed⟩
      exact ((returned.edges ⟨7⟩ readings _ computed).1 ⟨14⟩).mpr (nodes ▸ List.mem_singleton_self _)
    · cases failed

end CharacterSheet
