import CharacterSheet.Modifier
import CharacterSheet.Roster
import CharacterSheet.Text.Quoted

/-!
Contract: one-line texts that show the parts of stats, behaviors, modifiers and
rosters by name.
-/

namespace CharacterSheet

namespace Text

/-- Items between brackets. -/
def bracketed (items : List String) : String := "[" ++ String.intercalate ", " items ++ "]"

/-- The name of a thing and its named parts. -/
def parts (name : String) (fields : List (String × String)) : String :=
  name ++ " \x7b " ++
    String.intercalate ", " (fields.map fun field => field.1 ++ ": " ++ field.2) ++ " \x7d"

end Text

open Text

def StatId.inspect (stat : StatId) : String :=
  parts "Stat" [("identity", quoted stat.name), ("entity", stat.entity.text)]

def Source.inspect : Source → String
  | .global => "Global"
  | .skill name => "Skill(" ++ quoted name ++ ")"
  | .item name => "Local(" ++ quoted name ++ ")"

def Behavior.inspect (behavior : Behavior) : String :=
  parts "Behavior"
    [("affected_stats", bracketed (behavior.affects.map StatId.inspect)),
      ("affected_node_types", bracketed (behavior.stages.map Stage.text)),
      ("path_rule", behavior.paths.text),
      ("transformation", quoted behavior.transform.description)]

/-- The identity of the modifier is not shown, since it means nothing to a reader. -/
def Modifier.inspect (modifier : Modifier) : String :=
  parts "Modifier"
    [("id", "ModifierId(_)"),
      ("stats", bracketed (modifier.stats.map fun stat => stat.id.inspect)),
      ("form", modifier.form.text),
      ("value", quoted modifier.value.description),
      ("source", modifier.source.inspect),
      ("condition", match modifier.condition with
        | some condition => "Some(" ++ quoted condition.description ++ ")"
        | none => "None")]

def Roster.inspect (roster : Roster String) : String :=
  parts "NodeCollection"
    [("members", "\x7b" ++ String.intercalate ", " (roster.members.map quoted) ++ "\x7d"),
      ("subscribers", toString roster.subscribers.length)]

end CharacterSheet
