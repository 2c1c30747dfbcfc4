import CharacterSheet.Roster

/-!
Contract: the record of what happened on a sheet, apart from the answers it gives.

Owns:
- the counts that a sweep reports;
- the records: notes of probes, deliveries to subscribers, warnings, and entries
  about the changes made;
- the text of warnings and entries.
-/

namespace CharacterSheet

/-- How much a sweep removed. -/
structure SweepReport where
  nodes : Nat := 0
  rosters : Nat := 0
  pipelines : Nat := 0
deriving DecidableEq, Repr

namespace SweepReport

def isEmpty (report : SweepReport) : Bool :=
  report.nodes == 0 && report.rosters == 0 && report.pipelines == 0

def text (report : SweepReport) : String :=
  toString report.nodes ++ " nodes, " ++ toString report.rosters ++ " collections, " ++
    toString report.pipelines ++ " stat graphs"

end SweepReport

/-- One thing that happened. -/
inductive Record where
  /-- A formula under a probe was calculated. -/
  | calculated (probe : String)
  /-- A subscriber heard of a changed value and read nodes in answer. -/
  | valueChanged (subscription : SubscriptionId) (node : NodeName) (reads : List Reply)
  /-- A subscriber heard of members that came and went. -/
  | rosterChanged (subscription : SubscriptionId) (stat : StatId) (form : Form) (path : PathId)
      (change : Delta ModifierId)
  /-- A local fault made a value absent. -/
  | degraded (node : NodeName) (fault : Fault)
  /-- A node with subscribers could not be calculated. -/
  | unsettled (node : NodeName) (fault : Fault)
  | closingFailed (fault : Fault)
  /-- Nodes read each other in a circle, so they were announced as they came. -/
  | circularOrder
  | adding (modifier : ModifierId) (description : String)
  | removing (modifier : ModifierId) (description : String)
  | behaviorsRegistered (stat : StatId) (count : Nat)
  | behaviorsUnregistered (stat : StatId) (count : Nat)
  | linked (source target : StatId)
  | unlinked (source target : StatId)
  | registered (stat : StatId)
  | flushing (nodes rosters : Nat)
  | swept (report : SweepReport) (remainingNodes activeBehaviors : Nat)
deriving Repr

namespace Record

/-- The text of a warning; other records have none. -/
def warning? (naming : ModifierId → String) : Record → Option String
  | degraded node fault =>
      some ("contribution degraded to absent; node=" ++ node.text naming ++ "; error=" ++
        fault.message naming)
  | unsettled node fault =>
      some ("subscribed node failed to compute; node=" ++ node.text naming ++ "; error=" ++
        fault.message naming)
  | closingFailed fault => some ("closing batch failed; error=" ++ fault.message naming)
  | circularOrder => some "dependency cycle while ordering notifications"
  | _ => none

/-- The text of an entry about a change; other records have none. -/
def entry? (naming : ModifierId → String) : Record → Option String
  | adding modifier description =>
      some ("adding modifier; modifier=" ++ naming modifier ++ "; description=" ++ description)
  | removing modifier description =>
      some ("removing modifier; modifier=" ++ naming modifier ++ "; description=" ++ description)
  | behaviorsRegistered stat count =>
      some ("registered behaviors; stat=" ++ stat.text ++ "; count=" ++ toString count)
  | behaviorsUnregistered stat count =>
      some ("unregistered behaviors; stat=" ++ stat.text ++ "; count=" ++ toString count)
  | linked source target =>
      some ("linked conversion; source=" ++ source.text ++ "; target=" ++ target.text)
  | unlinked source target =>
      some ("unlinked conversion; source=" ++ source.text ++ "; target=" ++ target.text)
  | registered stat => some ("registered stat; stat=" ++ stat.text)
  | flushing nodes rosters =>
      some ("flushing changes; nodes=" ++ toString nodes ++ "; collections=" ++
        toString rosters)
  | swept report remainingNodes activeBehaviors =>
      some ("pruned graph; removed_nodes=" ++ toString report.nodes ++
        "; removed_collections=" ++ toString report.rosters ++
        "; removed_stat_graphs=" ++ toString report.pipelines ++
        "; remaining_nodes=" ++ toString remainingNodes ++
        "; active_behaviors=" ++ toString activeBehaviors)
  | _ => none

end Record
end CharacterSheet
