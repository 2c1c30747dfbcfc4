import CharacterSheet.Proofs.History.Histories
import CharacterSheet.Proofs.Membership.Backing

/-!
Contract: what the name of a conversion or gain stat says about what it links.

Owns:
- bracketed names, in which every bracket is closed; what links bracketed names has one, too;
- the end of a name that is put in brackets can be found again if what stands inside is bracketed;
- linked stats are told apart by which way they link, by their source and by the name of their
  target, as long as the names of the targets are bracketed.

The name of a linking stat is made of the names of both ends, and it belongs to the entity of its
source. Whom the target belongs to is not part of it.
-/

namespace CharacterSheet

/-! ### Brackets -/

/-- Every bracket is closed, and none is closed before it was opened. -/
structure Bracketed (letters : List Char) : Prop where
  closed : letters.count '(' = letters.count ')'
  opened : ∀ length, (letters.take length).count ')' ≤ (letters.take length).count '('

theorem bracketed_iff (letters : List Char) :
    Bracketed letters ↔ letters.count '(' = letters.count ')' ∧ ∀ length < letters.length,
      (letters.take length).count ')' ≤ (letters.take length).count '(' := by
  constructor
  · rintro ⟨closed, opened⟩
    exact ⟨closed, fun length _ => opened length⟩
  · rintro ⟨closed, opened⟩
    refine ⟨closed, fun length => ?_⟩
    rcases Nat.lt_or_ge length letters.length with inside | beyond
    · exact opened length inside
    · rw [List.take_of_length_le beyond]
      exact closed.ge

instance (letters : List Char) : Decidable (Bracketed letters) :=
  decidable_of_iff' _ (bracketed_iff letters)

namespace Bracketed

variable {letters other before : List Char}

theorem append (bracketed : Bracketed letters) (further : Bracketed other) :
    Bracketed (letters ++ other) where
  closed := by rw [List.count_append, List.count_append, bracketed.closed, further.closed]
  opened := fun length => by
    rw [List.take_append, List.count_append, List.count_append]
    exact Nat.add_le_add (bracketed.opened length) (further.opened _)

theorem enclose (bracketed : Bracketed letters) : Bracketed ('(' :: (letters ++ [')'])) where
  closed := by simp [bracketed.closed]
  opened
    | 0 => Nat.le_refl 0
    | length + 1 => by
        have inside := bracketed.opened length
        have bound : ([')'].take (length - letters.length)).count ')' ≤ 1 :=
          (List.take_sublist _ _).count_le _
        simp only [List.take_succ_cons, List.take_append, List.count_append, List.count_cons_self,
          List.count_cons_of_ne (by decide : '(' ≠ ')')]
        omega

/-- From the end of a bracketed text back to any place in it no more brackets open than close. -/
theorem count_end (bracketed : Bracketed (before ++ letters)) :
    letters.count '(' ≤ letters.count ')' := by
  have closed := bracketed.closed
  have opened := bracketed.opened before.length
  rw [List.take_left] at opened
  rw [List.count_append, List.count_append] at closed
  omega

/-- A bracketed text behind an open bracket starts at the last bracket that is still open, so it can
be found again. -/
theorem unique {first second : List Char} (bracketed : Bracketed letters) (also : Bracketed other)
    (same : first ++ '(' :: letters = second ++ '(' :: other) : first = second ∧ letters = other := by
  -- a bracket in front of one text that lies within the other one stays open there
  have outside {first second letters other : List Char} (bracketed : Bracketed letters)
      (also : Bracketed other) (same : ∃ rest, second = first ++ rest ∧
        '(' :: letters = rest ++ '(' :: other) : first = second ∧ letters = other := by
    obtain ⟨rest, rfl, within⟩ := same
    cases rest with
    | nil =>
        cases within
        exact ⟨(List.append_nil _).symm, rfl⟩
    | cons letter rest =>
        obtain ⟨-, rfl⟩ := List.cons.inj within
        have fewer := bracketed.count_end
        have closed := also.closed
        simp only [List.count_cons_self, List.count_cons_of_ne (by decide : '(' ≠ ')')] at fewer
        omega
  rcases List.append_eq_append_iff.mp same with later | later
  · exact outside bracketed also later
  · obtain ⟨firsts, texts⟩ := outside also bracketed later
    exact ⟨firsts.symm, texts.symm⟩

end Bracketed

/-! ### The names of linking stats -/

/-- The stat whose total is the share of a source that reaches a target. -/
def Share.stat : Share → Stat → Stat → Stat
  | .conversion => Stat.conversion
  | .gain => Stat.gain

/-- What stands between the names of the two ends, up to the bracket. -/
def Share.verb : Share → List Char
  | .conversion => ['.', 'C', 'o', 'n', 'v', 'e', 'r', 't', 'T', 'o']
  | .gain => ['.', 'G', 'a', 'i', 'n', 'A', 's']

theorem Share.letters_stat (share : Share) (source target : Stat) :
    (share.stat source target).id.name.toList =
      source.id.name.toList ++ share.verb ++ '(' :: (target.id.name.toList ++ [')']) := by
  have conversion : (".ConvertTo(" : String).toList = verb .conversion ++ ['('] := by decide
  have gain : (".GainAs(" : String).toList = verb .gain ++ ['('] := by decide
  have final : (")" : String).toList = [')'] := by decide
  cases share <;>
    simp only [stat, Stat.conversion, Stat.gain, Stat.plain, StatId.conversion, StatId.gain,
      String.toList_append, conversion, gain, final, List.append_assoc, List.cons_append,
      List.nil_append]

theorem Share.entity_stat (share : Share) (source target : Stat) :
    (share.stat source target).id.entity = source.id.entity := by
  cases share <;> rfl

/-- Linking stats of bracketed ends have bracketed names, so they may be ends themselves. -/
theorem Share.bracketed_stat (share : Share) {source target : Stat}
    (origin : Bracketed source.id.name.toList) (aim : Bracketed target.id.name.toList) :
    Bracketed (share.stat source target).id.name.toList := by
  have verb : Bracketed share.verb := by cases share <;> decide
  rw [share.letters_stat]
  exact (origin.append verb).append aim.enclose

/-- The two ways to link end in different letters. -/
theorem Share.verb_unique {share other : Share} {first second : List Char}
    (same : first ++ share.verb = second ++ other.verb) : share = other ∧ first = second := by
  have last := congrArg List.getLast? same
  cases share <;> cases other <;> simp [verb] at last same ⊢ <;> exact same

/-- The identity of a linking stat says in which way it links, what its source is and how its target
is called, if what it calls its target is bracketed. -/
theorem Share.stat_inj {share other : Share} {source target source' target' : Stat}
    (aim : Bracketed target.id.name.toList) (aim' : Bracketed target'.id.name.toList) :
    (share.stat source target).id = (other.stat source' target').id ↔
      share = other ∧ source.id = source'.id ∧ target.id.name = target'.id.name := by
  constructor
  · intro same
    have letters := congrArg (·.name.toList) same
    have entities := congrArg StatId.entity same
    rw [share.letters_stat, other.letters_stat, ← List.cons_append, ← List.cons_append,
      ← List.append_assoc, ← List.append_assoc] at letters
    obtain ⟨before, within⟩ := aim.unique aim' (List.append_cancel_right letters)
    obtain ⟨ways, sources⟩ := Share.verb_unique before
    rw [share.entity_stat, other.entity_stat] at entities
    refine ⟨ways, ?_, String.toList_inj.mp within⟩
    obtain ⟨⟨name, entity⟩, _⟩ := source
    cases entities
    cases String.toList_inj.mp sources
    rfl
  · rintro ⟨rfl, sources, targets⟩
    cases share <;>
      simp only [stat, Stat.conversion, Stat.gain, Stat.plain, StatId.conversion, StatId.gain,
        sources, targets]

open CharacterSheet.Graph

/-- Two links whose targets have bracketed names have one identity only if they link in one way from
one source to targets of one name, and no run of operations keeps one pipeline for both otherwise.
So links to targets of one entity are told apart. -/
theorem links_told_apart (settings : Settings) (retention : Retention) (operations : List Operation)
    {share other : Share} {source target source' target' : Stat}
    (aim : Bracketed target.id.name.toList) (aim' : Bracketed target'.id.name.toList) :
    ((share.stat source target).id = (other.stat source' target').id ↔
      share = other ∧ source.id = source'.id ∧ target.id.name = target'.id.name) ∧
    let graph := (Sheet.run { settings, retention } operations).graph
    ∀ pipeline, graph.pipelines.get? (share.stat source target).id = some pipeline →
      graph.pipelines.get? (other.stat source' target').id = some pipeline →
        share = other ∧ source.id = source'.id ∧ target.id.name = target'.id.name := by
  refine ⟨Share.stat_inj aim aim', fun pipeline first second => ?_⟩
  have intact := Sheet.intact_everything settings retention operations
  refine (Share.stat_inj aim aim').mp ?_
  rw [← (intact.formed.pipelines _ pipeline first).keyed,
    ← (intact.formed.pipelines _ pipeline second).keyed]

/-- A share of iron goes where steel is turned into gold; and what iron is turned into steel is turned
into gold. -/
def alloys : List Operation :=
  [.add (.conversion ⟨1⟩ (.named "Iron") (.conversion (.named "Steel") (.named "Gold")) 50),
    .add (.conversion ⟨2⟩ (.conversion (.named "Iron") (.named "Steel")) (.named "Gold") 20)]

/-- The names of both stats have the same ends in the same order. -/
theorem alloys_told_apart :
    let inner : Stat := .conversion (.named "Steel") (.named "Gold")
    let outer : Stat := .conversion (.named "Iron") (.named "Steel")
    let graph := (Sheet.run {} alloys).graph
    let first := Share.conversion.stat (.named "Iron") inner
    let second := Share.conversion.stat outer (.named "Gold")
    (Bracketed inner.id.name.toList ∧ Bracketed (Stat.named "Gold").id.name.toList) ∧
      (graph.pipelines.contains first.id ∧ graph.pipelines.contains second.id) ∧
      first.id ≠ second.id ∧
      ∀ pipeline, graph.pipelines.get? first.id = some pipeline →
        graph.pipelines.get? second.id ≠ some pipeline := by
  intro inner outer graph first second
  have facts : (Bracketed inner.id.name.toList ∧ Bracketed (Stat.named "Gold").id.name.toList) ∧
      (graph.pipelines.contains first.id ∧ graph.pipelines.contains second.id) ∧
      inner.id.name ≠ (Stat.named "Gold").id.name := by
    decide +kernel
  obtain ⟨bracketed, present, differ⟩ := facts
  obtain ⟨same, apart⟩ := @links_told_apart {} {} alloys .conversion .conversion (.named "Iron") inner
    outer (.named "Gold") bracketed.1 bracketed.2
  refine ⟨bracketed, present, fun equal => differ (same.mp equal).2.2, fun pipeline one two => ?_⟩
  exact differ (apart pipeline one two).2.2

/-- Whom a target belongs to is not part of the identity of a link to it. -/
theorem enemy_gold_not_told_apart :
    ¬ ∀ source target source' target' : Stat,
      ((Stat.conversion source target).id = (Stat.conversion source' target').id ↔
        source.id = source'.id ∧ target.id = target'.id) ∧
      ((Stat.gain source target).id = (Stat.gain source' target').id ↔
        source.id = source'.id ∧ target.id = target'.id) ∧
      (Stat.conversion source target).id ≠ (Stat.gain source' target').id := by
  intro toldApart
  have same := (toldApart (.named "Iron") (.named "Gold") (.named "Iron")
    ((Stat.named "Gold").withEntity .enemy)).1.mp rfl
  exact absurd same (by decide)

end CharacterSheet
