import CharacterSheet.Json
import CharacterSheet.Sheet

/-!
Contract: the saved forms of the small types of a sheet.

Owns:
- writing of identities, paths, settings, reports and the like as JSON documents;
- reading of those that can be read back.

A record is read from an object, in which unknown fields are passed over and known
ones must not be repeated, or from an array of its fields in order. A choice is read
from its name, or from an object with its name as the only field.
-/

namespace CharacterSheet

namespace Json

/-- A whole number up to a limit. -/
def natural? (limit : Nat) : Json → Option Nat
  | integer value => if 0 ≤ value ∧ value ≤ limit then some value.toNat else none
  | _ => none

/-- Any number that is not too large for a double. -/
def double? : Json → Option Number
  | integer value =>
      let number := Number.ofInt value
      if number.isInfinite then none else some number
  | real number => if number.isInfinite then none else some number
  | _ => none

def bool? : Json → Option Bool
  | bool value => some value
  | _ => none

def string? : Json → Option String
  | string content => content
  | _ => none

/-- The fields of a record by name, as far as they are there. -/
def record? (names : List String) : Json → Option (List (Option Json))
  | object fields => do
      if fields.any (·.1.isNone) then none
      else
        names.mapM fun name =>
          match fields.filter (·.1 = some name) with
          | [] => some none
          | [field] => some (some field.2)
          | _ => none
  | array items =>
      if names.length < items.length then none
      else some (items.map some ++ List.replicate (names.length - items.length) none)
  | _ => none

/-- A choice: its name and what is saved with it. -/
def choice? : Json → Option (String × Option Json)
  | string content => content.map (·, none)
  | object [(some name, payload)] => some (name, some payload)
  | _ => none

/-- A choice that is saved with nothing but its name. -/
def plainChoice? (json : Json) : Option String :=
  match choice? json with
  | some (name, none) => some name
  | some (name, some null) => some name
  | _ => none

/-- The option whose text is the name of a choice. -/
def named? {α : Type} (options : List α) (text : α → String) (json : Json) : Option α := do
  let name ← plainChoice? json
  options.find? fun option => text option = name

end Json

open Json

/-- The largest number in a word of 64 bits. -/
def wordLimit : Nat := Nat.pow 2 64 - 1

namespace Value

def toJson (value : Value) : Json :=
  .ofFields [("minimum", .real value.minimum), ("maximum", .real value.maximum)]

def ofJson? (json : Json) : Option Value :=
  match record? ["minimum", "maximum"] json with
  | some [some minimum, some maximum] => do some ⟨← minimum.double?, ← maximum.double?⟩
  | _ => none

end Value

namespace Entity

def toJson (entity : Entity) : Json := .ofString entity.text

def ofJson? (json : Json) : Option Entity := named? all text json

end Entity

namespace Rounding

def toJson (rounding : Rounding) : Json := .ofString rounding.text

def ofJson? (json : Json) : Option Rounding := named? all text json

end Rounding

namespace PathRule

def toJson (rule : PathRule) : Json := .ofString rule.text

def ofJson? (json : Json) : Option PathRule :=
  named? [all, mainOnly, conversionOnly, nonConversion] text json

end PathRule

namespace Stage

def toJson (stage : Stage) : Json := .ofString stage.text

def ofJson? (json : Json) : Option Stage := named? all text json

end Stage

namespace Form

def toJson (form : Form) : Json := .ofString form.text

def ofJson? (json : Json) : Option Form := named? all text json

end Form

namespace DataType

def toJson : DataType → Json
  | double => .ofString "Double"
  | int => .ofString "Int"
  | bool => .ofString "Bool"
  | variant count => .ofFields [("Enum", .ofFields [("variants", .integer count)])]

def ofJson? (json : Json) : Option DataType :=
  match choice? json with
  | some ("Enum", some payload) =>
      match record? ["variants"] payload with
      | some [some count] => (count.natural? (Nat.pow 2 32 - 1)).map variant
      | _ => none
  | _ =>
      match plainChoice? json with
      | some "Double" => some double
      | some "Int" => some int
      | some "Bool" => some bool
      | _ => none

end DataType

namespace Source

def toJson : Source → Json
  | global => .ofString "Global"
  | skill name => .ofFields [("Skill", .ofString name)]
  | item name => .ofFields [("Local", .ofString name)]

def ofJson? (json : Json) : Option Source :=
  match choice? json with
  | some ("Skill", some name) => name.string?.map skill
  | some ("Local", some name) => name.string?.map item
  | _ => if plainChoice? json = some "Global" then some global else none

end Source

def PathOf.toJson (path : PathId) : Json :=
  .ofFields
    [("source", path.source.toJson),
      ("conversion_stats", .array (path.conversions.map fun stat => .ofString stat.text))]

def NodeName.toJson : NodeName → Json
  | .pipeline stat stage path =>
      .ofFields
        [("Stat", .ofFields
          [("stat", .ofString stat.text), ("node_type", stage.toJson), ("path", path.toJson)])]
  | .contribution modifier => .ofFields [("Modifier", .integer modifier.number)]

namespace ModifierId

def toJson (modifier : ModifierId) : Json := .integer modifier.number

def ofJson? (json : Json) : Option ModifierId := (json.natural? wordLimit).map (⟨·⟩)

end ModifierId

namespace SubscriptionId

def toJson (subscription : SubscriptionId) : Json := .integer subscription.number

def ofJson? (json : Json) : Option SubscriptionId := (json.natural? wordLimit).map (⟨·⟩)

end SubscriptionId

namespace Settings

def toJson (settings : Settings) : Json :=
  .ofFields
    [("prune_after_batch", .bool settings.sweepAfterBatch),
      ("notify_collection_changes", .bool settings.announceRosters)]

/-- A field of the settings; the usual value if it is missing. -/
def field? (usual : Bool) : Option Json → Option Bool
  | none => some usual
  | some json => json.bool?

def ofJson? (json : Json) : Option Settings :=
  match record? ["prune_after_batch", "notify_collection_changes"] json with
  | some [sweep, announce] => do
      some { sweepAfterBatch := ← field? true sweep, announceRosters := ← field? true announce }
  | _ => none

end Settings

namespace SweepReport

def toJson (report : SweepReport) : Json :=
  .ofFields
    [("removed_nodes", .integer report.nodes),
      ("removed_collections", .integer report.rosters),
      ("removed_stat_graphs", .integer report.pipelines)]

def ofJson? (json : Json) : Option SweepReport :=
  match record? ["removed_nodes", "removed_collections", "removed_stat_graphs"] json with
  | some [some nodes, some rosters, some pipelines] => do
      some ⟨← nodes.natural? wordLimit, ← rosters.natural? wordLimit,
        ← pipelines.natural? wordLimit⟩
  | _ => none

end SweepReport

end CharacterSheet
