/-!
Contract: finite maps that remember the order in which their keys first came in.

Owns:
- the table type with look-up, insertion, in-place change and removal;
- the laws of look-up and of the keys after each of these.

A key that is inserted again keeps its place; removal keeps the order of the
remaining keys. Every registry of a sheet is such a table, so each order that
a caller can observe is the insertion order.
-/

namespace CharacterSheet

/-- An insertion-ordered map, as the list of its entries; no key stands twice. -/
structure Table (κ : Type) (α : Type) where
  entries : List (κ × α)
  distinct : (entries.map Prod.fst).Nodup

namespace Table

variable {κ α : Type}

/-- The table without entries. -/
def empty : Table κ α := ⟨[], List.nodup_nil⟩

instance : Inhabited (Table κ α) := ⟨empty⟩

/-- The keys in insertion order. -/
def keys (table : Table κ α) : List κ := table.entries.map Prod.fst

/-- The values in insertion order of their keys. -/
def values (table : Table κ α) : List α := table.entries.map Prod.snd

/-- The number of entries. -/
def size (table : Table κ α) : Nat := table.entries.length

def isEmpty (table : Table κ α) : Bool := table.entries.isEmpty

theorem nodup_keys (table : Table κ α) : table.keys.Nodup := table.distinct

private theorem nodup_filter {entries : List (κ × α)} (keep : κ × α → Bool)
    (distinct : (entries.map Prod.fst).Nodup) : ((entries.filter keep).map Prod.fst).Nodup :=
  distinct.sublist (List.filter_sublist.map Prod.fst)

/-- Replace the values of some keys where they stand. -/
def changeIn (selects : κ → Bool) (change : α → α) (entries : List (κ × α)) : List (κ × α) :=
  entries.map fun entry => if selects entry.1 then (entry.1, change entry.2) else entry

private theorem keys_changeIn (selects : κ → Bool) (change : α → α) (entries : List (κ × α)) :
    (changeIn selects change entries).map Prod.fst = entries.map Prod.fst := by
  simp only [changeIn, List.map_map]
  apply List.map_congr_left
  intro entry _
  by_cases selected : selects entry.1 <;> simp [selected]

/-- Apply `change` to the value of every key that `selects` holds of. -/
def modifyWhere (table : Table κ α) (selects : κ → Bool) (change : α → α) : Table κ α :=
  ⟨changeIn selects change table.entries, by rw [keys_changeIn]; exact table.distinct⟩

/-- Remove every key that `selects` holds of; the other entries keep their order. -/
def eraseWhere (table : Table κ α) (selects : κ → Bool) : Table κ α :=
  ⟨table.entries.filter fun entry => !selects entry.1, nodup_filter _ table.distinct⟩

theorem keys_modifyWhere (table : Table κ α) (selects : κ → Bool) (change : α → α) :
    (table.modifyWhere selects change).keys = table.keys :=
  keys_changeIn selects change table.entries

variable [DecidableEq κ]

/-- First entry of a list whose key is `key`. -/
def findIn (key : κ) : List (κ × α) → Option α
  | [] => none
  | entry :: rest => if entry.1 = key then some entry.2 else findIn key rest

/-- Replace the value of `key` where it stands, or append a new entry. -/
def putIn (key : κ) (value : α) : List (κ × α) → List (κ × α)
  | [] => [(key, value)]
  | entry :: rest =>
      if entry.1 = key then (key, value) :: rest else entry :: putIn key value rest

private theorem keys_putIn (key : κ) (value : α) (entries : List (κ × α)) :
    (putIn key value entries).map Prod.fst =
      if key ∈ entries.map Prod.fst then entries.map Prod.fst
      else entries.map Prod.fst ++ [key] := by
  induction entries with
  | nil => simp [putIn]
  | cons entry rest inductionHypothesis =>
      by_cases same : entry.1 = key
      · simp [putIn, same]
      · have other : key ≠ entry.1 := Ne.symm same
        by_cases found : key ∈ rest.map Prod.fst
        · rw [if_pos found] at inductionHypothesis
          simp [putIn, same, inductionHypothesis, List.mem_cons_of_mem _ found]
        · rw [if_neg found] at inductionHypothesis
          have absent : key ∉ (entry :: rest).map Prod.fst := by
            simp only [List.map_cons, List.mem_cons, not_or]
            exact ⟨other, found⟩
          rw [if_neg absent]
          simp [putIn, same, inductionHypothesis]

private theorem nodup_putIn (key : κ) (value : α) {entries : List (κ × α)}
    (distinct : (entries.map Prod.fst).Nodup) :
    ((putIn key value entries).map Prod.fst).Nodup := by
  rw [keys_putIn]
  split
  · exact distinct
  · next absent =>
    refine List.nodup_append.mpr ⟨distinct, by simp, ?_⟩
    intro found member other single
    rw [List.mem_singleton.mp single]
    intro equal
    exact absent (equal ▸ member)

def get? (table : Table κ α) (key : κ) : Option α := findIn key table.entries

def contains (table : Table κ α) (key : κ) : Bool := (table.get? key).isSome

def insert (table : Table κ α) (key : κ) (value : α) : Table κ α :=
  ⟨putIn key value table.entries, nodup_putIn key value table.distinct⟩

/-- Apply `change` to the value of `key`, if there is one. -/
def modify (table : Table κ α) (key : κ) (change : α → α) : Table κ α :=
  table.modifyWhere (decide <| · = key) change

/-- Remove `key`; the other entries keep their order. -/
def erase (table : Table κ α) (key : κ) : Table κ α := table.eraseWhere (decide <| · = key)

@[simp] theorem get?_empty (key : κ) : (empty : Table κ α).get? key = none := rfl

private theorem findIn_putIn_self (key : κ) (value : α) (entries : List (κ × α)) :
    findIn key (putIn key value entries) = some value := by
  induction entries with
  | nil => simp [putIn, findIn]
  | cons entry rest inductionHypothesis =>
      by_cases same : entry.1 = key <;> simp [putIn, findIn, same, inductionHypothesis]

private theorem findIn_putIn_other {key other : κ} (distinct : other ≠ key) (value : α)
    (entries : List (κ × α)) :
    findIn other (putIn key value entries) = findIn other entries := by
  induction entries with
  | nil => simp [putIn, findIn, Ne.symm distinct]
  | cons entry rest inductionHypothesis =>
      by_cases same : entry.1 = key
      · simp [putIn, findIn, same, Ne.symm distinct]
      · simp [putIn, findIn, same, inductionHypothesis]

private theorem findIn_eq_some_iff {key : κ} {value : α} {entries : List (κ × α)}
    (distinct : (entries.map Prod.fst).Nodup) :
    findIn key entries = some value ↔ (key, value) ∈ entries := by
  induction entries with
  | nil => simp [findIn]
  | cons entry rest inductionHypothesis =>
      obtain ⟨absent, restDistinct⟩ := List.nodup_cons.mp distinct
      by_cases same : entry.1 = key
      · have notLater : (key, value) ∉ rest := by
          intro member
          exact absent (same ▸ List.mem_map_of_mem member)
        simp only [findIn, same, ↓reduceIte, Option.some.injEq, List.mem_cons, notLater, or_false]
        constructor
        · intro equal
          rw [← same, ← equal]
        · intro equal
          rw [← equal]
      · have notHere : (key, value) ≠ entry := by
          intro equal
          exact same (equal ▸ rfl)
        simp [findIn, same, notHere, inductionHypothesis restDistinct]

/-- Look-up finds exactly the entries. -/
theorem get?_eq_some_iff (table : Table κ α) (key : κ) (value : α) :
    table.get? key = some value ↔ (key, value) ∈ table.entries :=
  findIn_eq_some_iff table.distinct

@[simp] theorem get?_insert_self (table : Table κ α) (key : κ) (value : α) :
    (table.insert key value).get? key = some value :=
  findIn_putIn_self key value table.entries

theorem get?_insert_other (table : Table κ α) {key other : κ} (distinct : other ≠ key)
    (value : α) : (table.insert key value).get? other = table.get? other :=
  findIn_putIn_other distinct value table.entries

theorem get?_modifyWhere (table : Table κ α) (selects : κ → Bool) (change : α → α) (key : κ) :
    (table.modifyWhere selects change).get? key =
      if selects key then (table.get? key).map change else table.get? key := by
  obtain ⟨entries, distinct⟩ := table
  simp only [get?, modifyWhere, changeIn]
  clear distinct
  induction entries with
  | nil => simp [findIn]
  | cons entry rest inductionHypothesis =>
      by_cases found : entry.1 = key
      · subst found
        by_cases selected : selects entry.1 <;> simp [findIn, selected]
      · by_cases selected : selects entry.1 <;> simp_all [findIn]

theorem get?_modify (table : Table κ α) (key other : κ) (change : α → α) :
    (table.modify key change).get? other =
      if other = key then (table.get? other).map change else table.get? other := by
  simp only [modify, get?_modifyWhere, decide_eq_true_eq]

theorem get?_eraseWhere (table : Table κ α) (selects : κ → Bool) (key : κ) :
    (table.eraseWhere selects).get? key = if selects key then none else table.get? key := by
  obtain ⟨entries, distinct⟩ := table
  simp only [get?, eraseWhere]
  clear distinct
  induction entries with
  | nil => simp [findIn]
  | cons entry rest inductionHypothesis =>
      by_cases found : entry.1 = key
      · subst found
        by_cases selected : selects entry.1 <;> simp_all [findIn]
      · by_cases selected : selects entry.1 <;> simp_all [findIn]

theorem get?_erase (table : Table κ α) (key other : κ) :
    (table.erase key).get? other = if other = key then none else table.get? other := by
  simp only [erase, get?_eraseWhere, decide_eq_true_eq]

theorem mem_keys_iff (table : Table κ α) (key : κ) :
    key ∈ table.keys ↔ (table.get? key).isSome := by
  rw [Option.isSome_iff_exists]
  simp only [get?_eq_some_iff, keys, List.mem_map, Prod.exists, exists_and_right, exists_eq_right]

theorem keys_modify (table : Table κ α) (key : κ) (change : α → α) :
    (table.modify key change).keys = table.keys :=
  table.keys_modifyWhere _ change

end Table
end CharacterSheet
