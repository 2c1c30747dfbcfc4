import CharacterSheet.Fault

/-!
Contract: observable sets of members and the changes they report.

Owns:
- rosters, which keep members in the order in which they came in and know who
  watches them;
- deltas, which say what came in and what went, and how two of them join.

A member that comes in and goes again within one delta leaves no trace in it, and
neither does one that goes and comes back.
-/

namespace CharacterSheet

/-- What came into a set and what went out of it. -/
structure Delta (α : Type) where
  added : List α := []
  removed : List α := []
deriving DecidableEq, Repr

namespace Delta

variable {α : Type}

def isEmpty (delta : Delta α) : Bool := delta.added.isEmpty && delta.removed.isEmpty

variable [DecidableEq α]

/-- Take in one member that comes in later. -/
def noteAdded (delta : Delta α) (member : α) : Delta α :=
  if member ∈ delta.removed then { delta with removed := delta.removed.erase member }
  else if member ∈ delta.added then delta
  else { delta with added := delta.added ++ [member] }

/-- Take in one member that goes later. -/
def noteRemoved (delta : Delta α) (member : α) : Delta α :=
  if member ∈ delta.added then { delta with added := delta.added.erase member }
  else if member ∈ delta.removed then delta
  else { delta with removed := delta.removed ++ [member] }

/-- Join a later delta to an earlier one: first what it added, then what it removed. -/
def merge (earlier later : Delta α) : Delta α :=
  later.removed.foldl noteRemoved (later.added.foldl noteAdded earlier)

end Delta

/-- An insertion-ordered set with the subscriptions that watch it. -/
structure Roster (α : Type) where
  members : List α := []
  subscribers : List SubscriptionId := []
deriving DecidableEq, Repr

namespace Roster

variable {α : Type} [DecidableEq α]

def contains (roster : Roster α) (member : α) : Bool := decide (member ∈ roster.members)

/-- Let a member in, unless it is there already. -/
def add? (roster : Roster α) (member : α) : Option (Roster α × Delta α) :=
  if member ∈ roster.members then none
  else some ({ roster with members := roster.members ++ [member] }, { added := [member] })

/-- Let a member go, if it is there; the others keep their order. -/
def remove? (roster : Roster α) (member : α) : Option (Roster α × Delta α) :=
  if member ∈ roster.members then
    some ({ roster with members := roster.members.erase member }, { removed := [member] })
  else none

theorem nodup_add? {roster : Roster α} {member : α} {changed : Roster α × Delta α}
    (distinct : roster.members.Nodup) (added : roster.add? member = some changed) :
    changed.1.members.Nodup := by
  unfold add? at added
  split at added
  · contradiction
  · next absent =>
    cases added
    simp only [List.nodup_append, List.nodup_cons, List.not_mem_nil, not_false_eq_true,
      List.nodup_nil, and_self, List.mem_singleton, forall_eq, true_and, distinct]
    intro other present equal
    exact absent (equal ▸ present)

theorem nodup_remove? {roster : Roster α} {member : α} {changed : Roster α × Delta α}
    (distinct : roster.members.Nodup) (removed : roster.remove? member = some changed) :
    changed.1.members.Nodup := by
  unfold remove? at removed
  split at removed
  · cases removed
    exact distinct.erase member
  · contradiction

end Roster
end CharacterSheet
