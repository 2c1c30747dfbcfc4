import CharacterSheet.Graph.State

/-!
Contract: sets of nodes.

Owns:
- the set type with membership and insertion;
- the laws of membership.

The numbers of nodes are small and dense, so a set is one number whose bits say which
nodes are members.
-/

namespace CharacterSheet

/-- A set of nodes; a node is a member if the bit of its number is set. -/
structure NodeSet where
  bits : Nat := 0
deriving DecidableEq, Repr

namespace NodeSet

def contains (set : NodeSet) (node : NodeId) : Bool := set.bits.testBit node.number

def insert (set : NodeSet) (node : NodeId) : NodeSet := ⟨set.bits ||| 1 <<< node.number⟩

def ofList (nodes : List NodeId) : NodeSet := nodes.foldl insert {}

private theorem testBit_own (node other : NodeId) :
    (1 <<< node.number).testBit other.number = decide (node = other) := by
  obtain ⟨number⟩ := node
  obtain ⟨otherNumber⟩ := other
  rw [Nat.one_shiftLeft, Nat.testBit_two_pow]
  simp

@[simp] theorem contains_empty (node : NodeId) : contains {} node = false :=
  Nat.zero_testBit node.number

theorem contains_insert (set : NodeSet) (node other : NodeId) :
    (set.insert node).contains other = (set.contains other || decide (node = other)) := by
  simp only [contains, insert, Nat.testBit_or, testBit_own]

private theorem contains_foldl_insert (nodes : List NodeId) (set : NodeSet) (node : NodeId) :
    (nodes.foldl insert set).contains node = (set.contains node || nodes.contains node) := by
  induction nodes generalizing set with
  | nil => simp
  | cons head tail inductionHypothesis =>
      rw [List.foldl_cons, inductionHypothesis, contains_insert, List.contains_cons, Bool.or_assoc]
      congr 2
      by_cases same : head = node
      · simp [same]
      · simp [same, Ne.symm same]

/-- The set of a list has the members of the list. -/
theorem contains_ofList (nodes : List NodeId) (node : NodeId) :
    (ofList nodes).contains node = nodes.contains node := by
  rw [ofList, contains_foldl_insert, contains_empty, Bool.false_or]

end NodeSet
end CharacterSheet
