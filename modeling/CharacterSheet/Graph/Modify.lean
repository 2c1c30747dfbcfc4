import CharacterSheet.Graph.Nodes

/-!
Contract: how modifiers come onto a graph and go.

Owns:
- adding a modifier to the rosters of its stats, which either happens for all of its
  stats or not at all;
- removing a modifier from the rosters it was added to.

A conversion or gain stat links its ends while at least one modifier contributes to
it. The rosters are those of the modifier as it was added, whatever copy of it is
named on removal.
-/

namespace CharacterSheet
namespace Graph

/-- Enter a modifier into the roster of one of its stats. -/
def joinRoster (modifier : Modifier) (graph : Graph) (stat : Stat) : Graph :=
  let path := modifier.path
  let (node, ready) := graph.obtain stat modifier.form.stage path
  match ready.pipelines.get? stat.id with
  | none => ready
  | some pipeline =>
      let slot := (pipeline.slots.get? (modifier.form, path.id)).getD { path }
      match slot.roster.add? modifier.id with
      | none => ready
      | some (roster, change) =>
          let firstOnPath := !pipeline.hasMembersOn path.id
          let memberships := pipeline.memberships + 1
          let entered := ready.modifyPipeline stat.id fun old =>
            { old with
              slots := old.slots.insert (modifier.form, path.id) { slot with roster }
              memberships }
          let announced :=
            (entered.modifyPending (·.submitSlot ⟨stat.id, modifier.form, path.id⟩ change)).invalidate
              node
          let widened :=
            if !path.isMain && firstOnPath then
              announced.invalidateStage stat.id .uncappedSubtotal .main
            else announced
          if memberships = 1 then
            match pipeline.stat.ends? with
            | some (source, target) =>
                ({ widened with links := widened.links.register pipeline.stat }
                  |>.record (.linked source.id target.id)
                  |>.linkChanged source.id target.id)
            | none => widened
          else widened

/-- Take a modifier out of the roster of one of its stats. -/
def leaveRoster (modifier : Modifier) (graph : Graph) (stat : Stat) : Graph :=
  let path := modifier.path
  match graph.pipelines.get? stat.id with
  | none => graph
  | some pipeline =>
      match pipeline.slots.get? (modifier.form, path.id) with
      | none => graph
      | some slot =>
          match slot.roster.remove? modifier.id with
          | none => graph
          | some (roster, change) =>
              let memberships := pipeline.memberships - 1
              let slots := pipeline.slots.insert (modifier.form, path.id) { slot with roster }
              let remaining := { pipeline with slots, memberships }
              let left := graph.modifyPipeline stat.id fun _ => remaining
              let announced :=
                (left.modifyPending (·.submitSlot ⟨stat.id, modifier.form, path.id⟩ change)
                  ).invalidateStage stat.id modifier.form.stage path.id
              let narrowed :=
                if !path.isMain && !remaining.hasMembersOn path.id then
                  announced.invalidateStage stat.id .uncappedSubtotal .main
                else announced
              if memberships = 0 then
                match pipeline.stat.ends?, narrowed.links.unregister? pipeline.stat with
                | some (source, target), some links =>
                    ({ narrowed with links }
                      |>.record (.unlinked source.id target.id)
                      |>.linkChanged source.id target.id)
                | _, _ => narrowed
              else narrowed

/-- Add a modifier. It is not added if one of its identity is present, and refused if
one of its stats is not bound to a concrete entity. -/
def addModifier (graph : Graph) (modifier : Modifier) : Except Fault Bool × Graph :=
  if graph.modifiers.contains modifier.id then (.ok false, graph)
  else
    match modifier.unresolved? with
    | some stat => (.error (.unresolvedReference stat.id), graph)
    | none =>
        let noted := graph.record (.adding modifier.id modifier.description)
        let (node, grown) := noted.addNode (.contribution modifier.id)
        let present :=
          { grown with
            contributions := grown.contributions.insert modifier.id node
            modifiers := grown.modifiers.insert modifier.id modifier }
        (.ok true, modifier.stats.foldl (joinRoster modifier) present)

/-- Remove the modifier of an identity; says whether there was one. -/
def removeModifier (graph : Graph) (id : ModifierId) : Bool × Graph :=
  match graph.modifiers.get? id with
  | none => (false, graph)
  | some modifier =>
      let absent :=
        { graph with modifiers := graph.modifiers.erase id }
          |>.record (.removing id modifier.description)
      let left := modifier.stats.foldl (leaveRoster modifier) absent
      match left.contributions.get? id with
      | none => (true, left)
      | some node =>
          (true, { left with contributions := left.contributions.erase id }.removeNodes [node])

end Graph
end CharacterSheet
