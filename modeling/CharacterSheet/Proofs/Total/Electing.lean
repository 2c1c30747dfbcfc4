import CharacterSheet.Proofs.Total.Gathering
import Mathlib.Data.List.Induction

/-!
Contract: which base value is chosen.

Owns:
- the arrivals of modifiers over a whole history of calls, and which modifier last arrived after
  which other one;
- the roll lists modifiers in the order in which they last arrived;
- of the modifiers of a roster that are present, the stage that sets the base takes the one that
  arrived last among those that no source outranks.

A modifier that is removed leaves the roll, and comes back at its end: its earlier arrivals no longer
count. Modifiers that contribute nothing take part in nothing.
-/

namespace CharacterSheet

/-! ### Arrivals -/

/-- The modifiers that a call brings in, in the order in which it adds them. -/
def Operation.comings (roll : List Modifier) (operation : Operation) : List ModifierId :=
  ((operation.roll roll).map (·.id)).filter (· ∉ roll.map (·.id))

/-- All arrivals of modifiers in the course of calls, the first one first. -/
def Operation.arrivals (roll : List Modifier) : List Operation → List ModifierId
  | [] => []
  | operation :: rest => operation.comings roll ++ arrivals (operation.roll roll) rest

/-- One modifier last arrived before another one last did. -/
def Precedes (arrivals : List ModifierId) (earlier later : ModifierId) : Prop :=
  ∃ before after, arrivals = before ++ later :: after ∧ earlier ∈ before ∧ earlier ∉ later :: after

section Arrivals

variable {arrivals : List ModifierId} {earlier later arrived : ModifierId}

theorem Precedes.asymm (precedes : Precedes arrivals earlier later) :
    ¬ Precedes arrivals later earlier := by
  obtain ⟨before, after, rfl, _, gone⟩ := precedes
  rintro ⟨others, rest, same, _, absent⟩
  rcases List.append_eq_append_iff.mp same with ⟨between, _, shared⟩ | ⟨between, _, shared⟩
  · exact gone (shared ▸ List.mem_append_right between List.mem_cons_self)
  · exact absent (shared ▸ List.mem_append_right between List.mem_cons_self)

theorem Precedes.arrive (precedes : Precedes arrivals earlier later) (apart : earlier ≠ arrived) :
    Precedes (arrivals ++ [arrived]) earlier later := by
  obtain ⟨before, after, rfl, inside, gone⟩ := precedes
  refine ⟨before, after ++ [arrived], by simp, inside, ?_⟩
  simp only [← List.cons_append, List.mem_append, List.mem_singleton, not_or]
  exact ⟨gone, apart⟩

theorem precedes_arrived (inside : earlier ∈ arrivals) (apart : earlier ≠ arrived) :
    Precedes (arrivals ++ [arrived]) earlier arrived :=
  ⟨arrivals, [], rfl, inside, fun member => apart (List.mem_singleton.mp member)⟩

/-- Modifiers listed in the order in which they last arrived. -/
structure Arrived (arrivals : List ModifierId) (roll : List Modifier) : Prop where
  inside : ∀ modifier ∈ roll, modifier.id ∈ arrivals
  ordered : roll.Pairwise fun earlier later => Precedes arrivals earlier.id later.id

variable {roll other : List Modifier}

theorem Arrived.initial : Arrived [] [] := ⟨fun _ none => absurd none List.not_mem_nil, .nil⟩

theorem Arrived.sublist (listed : Arrived arrivals roll) (sublist : other.Sublist roll) :
    Arrived arrivals other where
  inside := fun modifier member => listed.inside modifier (sublist.subset member)
  ordered := listed.ordered.sublist sublist

theorem Arrived.arrive (listed : Arrived arrivals roll) {modifier : Modifier}
    (absent : modifier.id ∉ roll.map (·.id)) :
    Arrived (arrivals ++ [modifier.id]) (roll ++ [modifier]) := by
  have apart : ∀ present ∈ roll, present.id ≠ modifier.id := fun present member same =>
    absent (same ▸ List.mem_map_of_mem member)
  constructor
  · intro present member
    rcases List.mem_append.mp member with before | here
    · exact List.mem_append_left _ (listed.inside present before)
    · rw [List.mem_singleton.mp here]
      exact List.mem_append_right _ List.mem_cons_self
  · refine List.pairwise_append.mpr ⟨?_, List.pairwise_singleton _ _, ?_⟩
    · exact listed.ordered.imp_of_mem fun first _ precedes => precedes.arrive (apart _ first)
    · intro present member _ here
      rw [List.mem_singleton.mp here]
      exact precedes_arrived (listed.inside present member) (apart present member)

/-- What a call adds stands at the end of the roll, in the order in which it arrived. -/
theorem Arrived.receiveAll (modifiers roll : List Modifier) :
    ∃ comings, receiveAll roll modifiers = roll ++ comings ∧
      (∀ modifier ∈ comings, modifier.id ∉ roll.map (·.id)) ∧
      ∀ {arrivals}, Arrived arrivals roll →
        Arrived (arrivals ++ comings.map (·.id)) (roll ++ comings) := by
  induction modifiers generalizing roll with
  | nil => exact ⟨[], by simp [CharacterSheet.receiveAll], by simp, by simp⟩
  | cons modifier rest inductionHypothesis =>
      rw [CharacterSheet.receiveAll]
      split
      · exact inductionHypothesis roll
      · next absent =>
        split
        · exact ⟨[], by simp, by simp, by simp⟩
        · obtain ⟨comings, same, apart, arrive⟩ := inductionHypothesis (roll ++ [modifier])
          refine ⟨modifier :: comings, by simp [same], ?_, fun listed => ?_⟩
          · intro other member
            rcases List.mem_cons.mp member with rfl | later
            · exact absent
            · exact fun before => apart other later (by simp [List.map_append, before])
          · simpa using arrive (listed.arrive absent)

/-- No one arrives where the roll only shrinks. -/
theorem Arrived.shrink (listed : Arrived arrivals roll) (sublist : other.Sublist roll) :
    Arrived (arrivals ++ (other.map (·.id)).filter (· ∉ roll.map (·.id))) other := by
  have none : (other.map (·.id)).filter (· ∉ roll.map (·.id)) = [] := by
    rw [List.filter_eq_nil_iff]
    intro id member
    simpa using (sublist.map (·.id)).subset member
  rw [none, List.append_nil]
  exact listed.sublist sublist

theorem Arrived.apply (listed : Arrived arrivals roll) (operation : Operation) :
    Arrived (arrivals ++ operation.comings roll) (operation.roll roll) := by
  have receive (modifiers : List Modifier) : Arrived
      (arrivals ++ ((CharacterSheet.receiveAll roll modifiers).map (·.id)).filter
        (· ∉ roll.map (·.id))) (CharacterSheet.receiveAll roll modifiers) := by
    obtain ⟨comings, same, apart, arrive⟩ := Arrived.receiveAll modifiers roll
    have old : (roll.map (·.id)).filter (· ∉ roll.map (·.id)) = [] := by
      rw [List.filter_eq_nil_iff]
      intro id member
      simpa using member
    have new : (comings.map (·.id)).filter (· ∉ roll.map (·.id)) = comings.map (·.id) := by
      rw [List.filter_eq_self]
      intro id member
      obtain ⟨modifier, inside, rfl⟩ := List.mem_map.mp member
      simpa using apart modifier inside
    rw [same, List.map_append, List.filter_append, old, new, List.nil_append]
    exact arrive listed
  cases operation with
  | add modifier => exact receive [modifier]
  | addAll modifiers => exact receive modifiers
  | remove id => exact listed.shrink List.filter_sublist
  | removeAll ids => exact listed.shrink List.filter_sublist
  | _ => exact listed.shrink (List.Sublist.refl _)

/-- After any calls, the roll lists modifiers in the order in which they last arrived. -/
theorem Arrived.run (listed : Arrived arrivals roll) (operations : List Operation) :
    Arrived (arrivals ++ Operation.arrivals roll operations)
      (operations.foldl Operation.roll roll) := by
  induction operations generalizing arrivals roll with
  | nil => simpa [Operation.arrivals] using listed
  | cons operation rest inductionHypothesis =>
      rw [Operation.arrivals, ← List.append_assoc]
      exact inductionHypothesis (listed.apply operation)

end Arrivals

/-! ### The choice among base values -/

/-- Among base values, skills win over items, and items over anything global. -/
inductive Source.Outranks : Source → Source → Prop
  | skillItem (skill item : String) : Outranks (.skill skill) (.item item)
  | skillGlobal (skill : String) : Outranks (.skill skill) .global
  | itemGlobal (item : String) : Outranks (.item item) .global

theorem Source.outranks_iff (source other : Source) :
    source.Outranks other ↔ other.priority < source.priority := by
  constructor
  · rintro (_ | _ | _) <;> simp [priority]
  · cases source <;> cases other <;> simp [priority] <;> constructor

/-- The better of the best value so far and the next one, if there is one. -/
def preferLater (best : Option (Nat × Value)) (candidate : Nat × Option Value) :
    Option (Nat × Value) :=
  match candidate.2, best with
  | none, best => best
  | some value, none => some (candidate.1, value)
  | some value, some (priority, chosen) =>
      if priority ≤ candidate.1 then some (candidate.1, value) else some (priority, chosen)

theorem chooseBase_eq (candidates : List (Nat × Option Value)) :
    chooseBase candidates = (candidates.foldl preferLater none).map (·.2) := rfl

/-- The one of the contenders that wins: it contributes something, and of all that do, no source
outranks its own, and the others that it does not outrank last arrived before it. -/
structure Elected (contenders : List Modifier) (contribution : ModifierId → Option Value)
    (arrivals : List ModifierId) (winner : Modifier) : Prop where
  contends : winner ∈ contenders
  present : (contribution winner.id).isSome
  highest : ∀ other ∈ contenders, (contribution other.id).isSome →
    ¬ other.source.Outranks winner.source
  latest : ∀ other ∈ contenders, (contribution other.id).isSome →
    ¬ winner.source.Outranks other.source → other ≠ winner → Precedes arrivals other.id winner.id

section Choice

variable {contenders : List Modifier} {contribution : ModifierId → Option Value}
  {arrivals : List ModifierId}

theorem Elected.unique {winner other : Modifier}
    (elected : Elected contenders contribution arrivals winner)
    (too : Elected contenders contribution arrivals other) : other = winner := by
  by_contra apart
  have first := elected.latest other too.contends too.present
    (too.highest winner elected.contends elected.present) apart
  have second := too.latest winner elected.contends elected.present
    (elected.highest other too.contends too.present) (Ne.symm apart)
  exact first.asymm second

/-- The best contender so far: it is better than all before it, or as good, and better than all that
are behind it. -/
def Leads (contenders : List Modifier) (contribution : ModifierId → Option Value)
    (leader : Modifier) : Prop :=
  ∃ before after, contenders = before ++ leader :: after ∧
    (∀ other ∈ before, (contribution other.id).isSome →
      other.source.priority ≤ leader.source.priority) ∧
    ∀ other ∈ after, (contribution other.id).isSome →
      other.source.priority < leader.source.priority

/-- What a contender contributes, with the priority of its source. -/
def candidate (contribution : ModifierId → Option Value) (modifier : Modifier) :
    Nat × Option Value :=
  (modifier.source.priority, contribution modifier.id)

theorem leads_of_absent (absent : ∀ modifier ∈ contenders, contribution modifier.id = none)
    (next : Modifier) : Leads (contenders ++ [next]) contribution next := by
  refine ⟨contenders, [], rfl, fun other member present => ?_, fun _ none =>
    absurd none List.not_mem_nil⟩
  rw [absent other member] at present
  contradiction

theorem Leads.keep {leader next : Modifier} (leads : Leads contenders contribution leader)
    (behind : (contribution next.id).isSome → next.source.priority < leader.source.priority) :
    Leads (contenders ++ [next]) contribution leader := by
  obtain ⟨before, after, rfl, earlier, later⟩ := leads
  refine ⟨before, after ++ [next], by simp, earlier, fun other member present => ?_⟩
  rcases List.mem_append.mp member with old | new
  · exact later other old present
  · cases List.mem_singleton.mp new
    exact behind present

theorem Leads.highest {leader : Modifier} (leads : Leads contenders contribution leader) :
    ∀ other ∈ contenders, (contribution other.id).isSome →
      other.source.priority ≤ leader.source.priority := by
  obtain ⟨before, after, rfl, earlier, later⟩ := leads
  intro other member present
  rcases List.mem_append.mp member with old | rest
  · exact earlier other old present
  · rcases List.mem_cons.mp rest with rfl | behind
    · exact le_rfl
    · exact (later other behind present).le

theorem Leads.overtake {leader next : Modifier} (leads : Leads contenders contribution leader)
    (better : leader.source.priority ≤ next.source.priority) :
    Leads (contenders ++ [next]) contribution next :=
  ⟨contenders, [], rfl, fun other member present => (leads.highest other member present).trans better,
    fun _ none => absurd none List.not_mem_nil⟩

theorem foldl_preferLater (contenders : List Modifier) (contribution : ModifierId → Option Value) :
    ((contenders.map (candidate contribution)).foldl preferLater none = none ∧
      ∀ modifier ∈ contenders, contribution modifier.id = none) ∨
    ∃ leader value, (contenders.map (candidate contribution)).foldl preferLater none =
        some (leader.source.priority, value) ∧
      contribution leader.id = some value ∧ Leads contenders contribution leader := by
  induction contenders using List.reverseRecOn with
  | nil => exact Or.inl ⟨rfl, fun _ none => absurd none List.not_mem_nil⟩
  | append_singleton contenders next inductionHypothesis =>
      rw [List.map_append, List.foldl_append, List.map_singleton, List.foldl_cons, List.foldl_nil]
      rcases inductionHypothesis with ⟨nothing, absent⟩ | ⟨leader, value, best, present, leads⟩
      · rw [nothing, candidate]
        cases here : contribution next.id with
        | none =>
            refine Or.inl ⟨rfl, fun modifier member => ?_⟩
            rcases List.mem_append.mp member with old | new
            · exact absent modifier old
            · rwa [List.mem_singleton.mp new]
        | some own => exact Or.inr ⟨next, own, rfl, here, leads_of_absent absent next⟩
      · rw [best, candidate]
        cases here : contribution next.id with
        | none =>
            refine Or.inr ⟨leader, value, rfl, present, leads.keep fun some => ?_⟩
            rw [here] at some
            contradiction
        | some own =>
            by_cases better : leader.source.priority ≤ next.source.priority
            · exact Or.inr ⟨next, own, if_pos better, here, leads.overtake better⟩
            · exact Or.inr ⟨leader, value, if_neg better, present,
                leads.keep fun _ => not_le.mp better⟩

/-- A leader among contenders in the order in which they last arrived is the one to win. -/
theorem Leads.elected {leader : Modifier} (leads : Leads contenders contribution leader)
    (present : (contribution leader.id).isSome) (listed : Arrived arrivals contenders) :
    Elected contenders contribution arrivals leader := by
  have highest := leads.highest
  obtain ⟨before, after, rfl, _, later⟩ := leads
  have ordered := List.pairwise_append.mp listed.ordered
  refine ⟨List.mem_append_right before List.mem_cons_self, present, ?_, ?_⟩
  · intro other member some
    rw [Source.outranks_iff, not_lt]
    exact highest other member some
  · intro other member some peer apart
    rw [Source.outranks_iff, not_lt] at peer
    rcases List.mem_append.mp member with old | rest
    · exact ordered.2.2 other old leader List.mem_cons_self
    · rcases List.mem_cons.mp rest with same | behind
      · exact absurd same apart
      · exact absurd (later other behind some) (not_lt.mpr peer)

end Choice

/-! ### The stage that sets the base -/

namespace Graph

variable {graph : Graph} {roll : List Modifier}

/-- Among the members of a roster, priorities are those of their sources. -/
theorem Enrolled.candidates (enrolled : graph.Enrolled roll) (formed : graph.WellFormed .everything)
    (stat : StatId) (form : Form) (path : PathId) (contribution : ModifierId → Option Value) :
    ((graph.members stat form path).map graph.priorityOf).zip
        ((graph.members stat form path).map contribution) =
      (roll.filter (·.Serves stat form path)).map (candidate contribution) := by
  rw [List.zip_map', enrolled.members, List.map_map]
  refine List.map_congr_left fun modifier member => ?_
  have here : modifier ∈ graph.modifiers.values := by
    rw [enrolled.modifiers]
    exact List.mem_of_mem_filter member
  obtain ⟨⟨id, present⟩, listed, rfl⟩ := List.mem_map.mp here
  have found := (graph.modifiers.get?_eq_some_iff _ _).mpr listed
  have same : present.id = id := (formed.present id present found).1
  subst same
  simp only [Function.comp_apply, candidate, priorityOf, found]

/-- The stage that sets the base collects the base values of its path. -/
theorem stagePlan_baseSet {graph other : Graph} (grows : graph.Grows other) {stat kept : Stat}
    {path : PathId} {full : Path} (keyed : kept.id = stat.id) (place : full.id = path) :
    other.stagePlan kept .baseSet full =
      (Plan.gather Plan.contribution (graph.members stat.id .baseSet path)).bind fun values =>
        .finish (.ok (chooseBase (((graph.members stat.id .baseSet path).map
          graph.priorityOf).zip values))) := by
  have same : other.priorityOf = graph.priorityOf := by
    funext modifier
    rw [priorityOf, priorityOf, grows.modifiers]
  rw [stagePlan, baseSetPlan, contributionsTo, keyed, place, same, grows.toExtends.members]
  rfl

end Graph

/-- After any calls, as long as no contribution fails and no behavior is in force there, the base that
is set for a stat on a path is absent if and only if all base values there are. Otherwise it is what
the one modifier contributes that wins among those of the path: of those present, none outranks it, and
those that it does not outrank last arrived before it. -/
theorem latest_highest_base_chosen (settings : Settings) (retention : Retention)
    (operations : List Operation) (stat : Stat) (path : Path)
    (contribution : ModifierId → Option Value) (after : Graph) :
    let sheet := Sheet.run { settings, retention } operations
    let contenders := (operations.foldl Operation.roll []).filter
      (·.Serves stat.id .baseSet path.id)
    let arrivals := Operation.arrivals [] operations
    sheet.graph.Supplies stat .baseSet path contribution after →
      after.transformsFor stat.id .baseSet path.id = [] →
        ∃ value, (sheet.value stat .baseSet path).1 = .ok value ∧
          (value = none ↔ ∀ modifier ∈ contenders, contribution modifier.id = none) ∧
          (value.isSome → ∃ winner, Elected contenders contribution arrivals winner ∧
            (∀ other, Elected contenders contribution arrivals other → other = winner) ∧
              value = contribution winner.id) := by
  intro sheet contenders arrivals supplies bare
  obtain ⟨intact, enrolled, mustered⟩ := Sheet.mustered_run settings retention operations
  have formed := intact.formed
  have replied : (sheet.value stat .baseSet path).1 = _ :=
    supplies.read intact.toResting mustered stat.within_everything.headWithin path.within_everything
      bare fun _ _ _ grows keyed place => Graph.stagePlan_baseSet grows keyed place
  have listed : Arrived arrivals contenders :=
    (Arrived.initial.run operations).sublist List.filter_sublist
  rw [show (path.at Form.baseSet.stage).id = path.id from rfl, enrolled.candidates formed,
    chooseBase_eq] at replied
  refine ⟨_, replied, ?_⟩
  rcases foldl_preferLater contenders contribution with
    ⟨nothing, absent⟩ | ⟨leader, value, best, present, leads⟩
  · rw [nothing]
    exact ⟨⟨fun _ => absent, fun _ => rfl⟩, fun some => absurd some Bool.false_ne_true⟩
  · rw [best]
    have elected := leads.elected (by rw [present]; rfl) listed
    refine ⟨⟨fun none => (nomatch none), fun absent => ?_⟩, fun _ =>
      ⟨leader, elected, fun _ => elected.unique, present.symm⟩⟩
    rw [absent leader elected.contends] at present
    contradiction

/-- A base value of armor. -/
def armor (number : Nat) (source : Source) (value : Option Value) : Modifier :=
  { id := ⟨number⟩, stats := [.named "Armor"], form := .baseSet, value := .constant value, source }

/-- Two skills that set the same base, of which the first one is forgotten and learned again, beside a
global base that comes later, and a skill that contributes nothing. -/
def relearning : List Operation :=
  [.add (armor 0 (.skill "Guard") (some (.scalar 10))),
    .add (armor 1 (.skill "Shell") (some (.scalar 20))),
    .remove ⟨0⟩,
    .add (armor 0 (.skill "Guard") (some (.scalar 15))),
    .addAll [armor 2 .global (some (.scalar 40)), armor 3 (.skill "Idle") none]]

/-- What the modifiers contribute to armor in the end. -/
def armorValues (modifier : ModifierId) : Option Value :=
  if modifier = ⟨0⟩ then some (.scalar 15)
  else if modifier = ⟨1⟩ then some (.scalar 20)
  else if modifier = ⟨2⟩ then some (.scalar 40)
  else none

/-- The skill that was learned again wins. -/
theorem relearned_base_wins :
    let sheet := Sheet.run {} relearning
    let contenders := (relearning.foldl Operation.roll []).filter
      (·.Serves (Stat.named "Armor").id .baseSet PathOf.main)
    ∃ after, (sheet.graph.Supplies (.named "Armor") .baseSet .main armorValues after ∧
        after.transformsFor (Stat.named "Armor").id .baseSet PathOf.main = []) ∧
      (sheet.value (.named "Armor") .baseSet .main).1 = .ok (some (.scalar 15)) ∧
      ∃ winner, winner.id = ⟨0⟩ ∧
        Elected contenders armorValues [⟨0⟩, ⟨1⟩, ⟨0⟩, ⟨2⟩, ⟨3⟩] winner := by
  intro sheet contenders
  obtain ⟨after, supplies, bare⟩ := @Graph.supplies_of_run sheet.graph (.named "Armor") rfl .baseSet
    .main armorValues 3 (by decide +kernel)
  have reply : (sheet.value (.named "Armor") .baseSet .main).1 = .ok (some (.scalar 15)) := by
    decide +kernel
  obtain ⟨value, replied, _, chosen⟩ := latest_highest_base_chosen {} {} relearning (.named "Armor")
    .main armorValues after supplies bare
  cases reply.symm.trans replied
  obtain ⟨winner, elected, _, same⟩ := chosen rfl
  have first : winner.id = ⟨0⟩ := by
    by_contra other
    have differ : armorValues winner.id ≠ some (.scalar 15) := by
      rw [armorValues, if_neg other]
      split_ifs <;> decide +kernel
    exact differ same.symm
  have arrivals : Operation.arrivals [] relearning = [⟨0⟩, ⟨1⟩, ⟨0⟩, ⟨2⟩, ⟨3⟩] := by decide +kernel
  exact ⟨after, ⟨supplies, bare⟩, reply, winner, first, arrivals ▸ elected⟩

end CharacterSheet
