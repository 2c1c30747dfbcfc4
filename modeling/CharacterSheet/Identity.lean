/-!
Contract: how stats and the branches of a stat are told apart.

Owns:
- entities and the identity of a stat, which is its name together with its entity;
- sources of modifiers and the paths they are routed to;
- the texts and the sorting order of all of these.

Does not own: what a stat carries besides its identity.
-/

namespace CharacterSheet

/-- Whom a stat belongs to. The last two are placeholders that have to be bound to a
concrete entity before a stat can be calculated. -/
inductive Entity where
  | character
  | enemy
  | totem
  | minion
  | modifierSource
  | any
deriving DecidableEq, Repr

namespace Entity

def all : List Entity := [character, enemy, totem, minion, modifierSource, any]

def isConcrete : Entity → Bool
  | modifierSource | any => false
  | _ => true

def text : Entity → String
  | character => "Character"
  | enemy => "Enemy"
  | totem => "Totem"
  | minion => "Minion"
  | modifierSource => "ModifierSource"
  | any => "Any"

/-- The place in the listing order. -/
def rank : Entity → Nat
  | character => 0
  | enemy => 1
  | totem => 2
  | minion => 3
  | modifierSource => 4
  | any => 5

end Entity

/-- The identity of a stat. -/
structure StatId where
  name : String
  entity : Entity := .character
deriving DecidableEq, Repr

namespace StatId

/-- The name alone for the character, else the name behind its entity. -/
def text (id : StatId) : String :=
  match id.entity with
  | .character => id.name
  | entity => entity.text ++ "." ++ id.name

/-- Names in code point order, then entities in listing order. -/
def order (left right : StatId) : Ordering :=
  (compare left.name right.name).then (compare left.entity.rank right.entity.rank)

/-- Stats in rising order; equal ones keep their places. -/
def sorted (stats : List StatId) : List StatId :=
  stats.mergeSort fun left right => left.order right != .gt

/-- The identity under which the share of `source` turned into `target` is kept. -/
def conversion (source target : StatId) : StatId :=
  ⟨source.name ++ ".ConvertTo(" ++ target.name ++ ")", source.entity⟩

/-- The identity under which the extra share of `source` gained as `target` is kept. -/
def gain (source target : StatId) : StatId :=
  ⟨source.name ++ ".GainAs(" ++ target.name ++ ")", source.entity⟩

end StatId

/-- The identity of a modifier; changed copies of a modifier share it. -/
structure ModifierId where
  number : Nat
deriving DecidableEq, Repr

/-- Where a modifier comes from. -/
inductive Source where
  | global
  /-- A skill: routed like a global modifier, but it wins among base values. -/
  | skill (name : String)
  /-- A single item, whose modifiers make up a path of their own. -/
  | item (name : String)
deriving DecidableEq, Repr

namespace Source

/-- Among competing base values the highest priority wins. -/
def priority : Source → Nat
  | global => 0
  | item _ => 1
  | skill _ => 2

def text : Source → String
  | global => "Global"
  | skill name => "Skill(" ++ name ++ ")"
  | item name => "Local(" ++ name ++ ")"

/-- Global first, then skills, then items, each by name. -/
def order : Source → Source → Ordering
  | global, global => .eq
  | global, _ => .lt
  | skill _, global => .gt
  | skill left, skill right => compare left right
  | skill _, item _ => .lt
  | item left, item right => compare left right
  | item _, _ => .gt

end Source

/-- One branch of a stat: a source and the stats whose values were converted into the
branch, outermost first. The stats may be given in full or by identity. -/
structure PathOf (σ : Type) where
  source : Source := .global
  conversions : List σ := []
deriving DecidableEq, Repr

namespace PathOf

variable {σ τ : Type}

/-- The path of global modifiers. -/
def main : PathOf σ := {}

/-- The path that holds the share of `stat` converted into another stat. -/
def convertedFrom (stat : σ) : PathOf σ := ⟨.global, [stat]⟩

def isMain (path : PathOf σ) : Bool := decide (path.source = .global) && path.conversions.isEmpty

def isConversion (path : PathOf σ) : Bool := !path.conversions.isEmpty

/-- The stat converted into this path, if there is exactly one. -/
def convertedStat? (path : PathOf σ) : Option σ :=
  match path.conversions with
  | [stat] => some stat
  | _ => none

def map (change : σ → τ) (path : PathOf σ) : PathOf τ :=
  ⟨path.source, path.conversions.map change⟩

@[simp] theorem isMain_main : (main : PathOf σ).isMain = true := rfl

@[simp] theorem map_main (change : σ → τ) : (main : PathOf σ).map change = main := rfl

@[simp] theorem isMain_map (change : σ → τ) (path : PathOf σ) :
    (path.map change).isMain = path.isMain := by
  obtain ⟨source, conversions⟩ := path
  cases conversions <;> rfl

@[simp] theorem isConversion_map (change : σ → τ) (path : PathOf σ) :
    (path.map change).isConversion = path.isConversion := by
  simp [isConversion, map]

theorem isMain_iff (path : PathOf σ) : path.isMain = true ↔ path = main := by
  obtain ⟨source, conversions⟩ := path
  simp [isMain, main]

end PathOf

/-- The path that modifiers of a source are routed to. -/
def Source.path {σ : Type} : Source → PathOf σ
  | .item name => ⟨.item name, []⟩
  | _ => .main

/-- A path by the identities of its stats. -/
abbrev PathId := PathOf StatId

namespace PathOf

def text (path : PathId) : String :=
  if path.isMain then "main"
  else path.conversions.foldl (fun written stat => written ++ " <- " ++ stat.text) path.source.text

/-- Lists of stats in lexicographic order. -/
def orderStats : List StatId → List StatId → Ordering
  | [], [] => .eq
  | [], _ :: _ => .lt
  | _ :: _, [] => .gt
  | left :: lefts, right :: rights => (left.order right).then (orderStats lefts rights)

/-- Paths by source, then by the stats converted into them. -/
def order (left right : PathId) : Ordering :=
  (left.source.order right.source).then (orderStats left.conversions right.conversions)

/-- Paths in rising order; equal ones keep their places. -/
def sorted (paths : List PathId) : List PathId :=
  paths.mergeSort fun left right => left.order right != .gt

end PathOf
end CharacterSheet
