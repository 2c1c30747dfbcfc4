import CharacterSheet.Stat
import CharacterSheet.Table

/-!
Contract: which stats are turned into which others, and how much of them.

A conversion stat or a gain stat with at least one modifier links its source to its
target. While it is linked, the target has a path for what comes from the source.

Owns:
- the table of links, by source and then by target;
- the effective share of one conversion and the fraction that a source retains, over
  any number type.

If the conversions of a source add up to more than a hundred percent, each is scaled
down in proportion; otherwise each counts as it stands. Gains take nothing away.
-/

namespace CharacterSheet

/-- The stats whose totals say how much of one source goes to one target. -/
structure Link where
  conversion : Option Stat := none
  gain : Option Stat := none

def Link.isEmpty (link : Link) : Bool := link.conversion.isNone && link.gain.isNone

/-- All links of one source. -/
structure Outlet where
  source : Stat
  targets : Table StatId Link := .empty

/-- The links of a sheet, by source. -/
structure Links where
  outlets : Table StatId Outlet := .empty

namespace Links

def link? (links : Links) (source target : StatId) : Option Link :=
  (links.outlets.get? source).bind (·.targets.get? target)

/-- The targets of a source, in the order in which they were linked. -/
def targets (links : Links) (source : StatId) : List StatId :=
  match links.outlets.get? source with
  | some outlet => outlet.targets.keys
  | none => []

/-- The sources that are linked to a target. -/
def sourcesInto (links : Links) (target : StatId) : List Stat :=
  (links.outlets.values.filter (·.targets.contains target)).map (·.source)

/-- The conversion stats of a source; gain stats are left out. -/
def conversionStats (links : Links) (source : StatId) : List Stat :=
  match links.outlets.get? source with
  | some outlet => outlet.targets.values.filterMap (·.conversion)
  | none => []

/-- Whether some share of a source is converted away. -/
def isConverted (links : Links) (source : StatId) : Bool :=
  match links.outlets.get? source with
  | some outlet => outlet.targets.values.any (·.conversion.isSome)
  | none => false

/-- Change one link, which is empty if there was none. -/
def update (links : Links) (source : Stat) (target : StatId) (change : Link → Link) : Links :=
  let outlet := (links.outlets.get? source.id).getD { source }
  let link := change ((outlet.targets.get? target).getD {})
  ⟨links.outlets.insert source.id
    { outlet with targets := outlet.targets.insert target link }⟩

/-- Link the ends of a conversion or gain stat. -/
def register (links : Links) (stat : Stat) : Links :=
  match stat.role with
  | .regular => links
  | .conversion source target =>
      links.update source target.id ({ · with conversion := some stat })
  | .gain source target => links.update source target.id ({ · with gain := some stat })

/-- Take one side out of an existing link; an empty link goes, and so does a source
without links. -/
def clear? (links : Links) (source target : StatId) (change : Link → Link) : Option Links := do
  let outlet ← links.outlets.get? source
  let link := change (← outlet.targets.get? target)
  let targets :=
    if link.isEmpty then outlet.targets.erase target else outlet.targets.insert target link
  if targets.isEmpty then return ⟨links.outlets.erase source⟩
  else return ⟨links.outlets.insert source { outlet with targets }⟩

/-- Undo the registration of a conversion or gain stat, if there is a link between
its ends. -/
def unregister? (links : Links) (stat : Stat) : Option Links :=
  match stat.role with
  | .regular => none
  | .conversion source target => links.clear? source.id target.id ({ · with conversion := none })
  | .gain source target => links.clear? source.id target.id ({ · with gain := none })

end Links

section Shares

variable {α : Type} [OfNat α 100] [LT α] [DecidableLT α]

/-- The share of one conversion out of the `sum` of all conversions of its source. -/
def effectiveConversion [Mul α] [Div α] (percent sum : Range α) : Range α :=
  percent.combine (fun own all => if 100 < all then own * 100 / all else own) sum

/-- The fraction of a source that is not converted away. -/
def retainedFraction [OfNat α 0] [OfNat α 1] [Sub α] [Div α] (sum : Range α) : Range α :=
  sum.map fun all => 1 - Number.clamp 0 100 all / 100

end Shares

end CharacterSheet
