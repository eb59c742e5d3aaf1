/-!
# Bindings

A finite map from names to values.  Entries are kept in ascending order of their names, so that a
listing of the names needs no sorting; the order of names is that of their code points.

The laws below hold of any list of entries: a look-up takes the first entry with the name, and an
insertion puts the new entry before every old one with the same name.
-/

namespace LoxLang

/-- A finite map from names. -/
structure Bindings (α : Type) where
  entries : List (String × α)

namespace Bindings

variable {α : Type}

/-- Nothing is bound. -/
def empty : Bindings α := ⟨[]⟩

instance : Inhabited (Bindings α) := ⟨empty⟩

/-- The first value under a name. -/
def findIn? (name : String) : List (String × α) → Option α
  | [] => none
  | (key, value) :: rest => if name = key then some value else findIn? name rest

/-- The value bound to a name. -/
def find? (b : Bindings α) (name : String) : Option α := findIn? name b.entries

/-- Is a name bound? -/
def contains (b : Bindings α) (name : String) : Bool := (b.find? name).isSome

/-- Puts an entry in its place, replacing the entry with the same name. -/
def insertIn (name : String) (value : α) : List (String × α) → List (String × α)
  | [] => [(name, value)]
  | (key, old) :: rest =>
    if name = key then (name, value) :: rest
    else if name < key then (name, value) :: (key, old) :: rest
    else (key, old) :: insertIn name value rest

/-- Binds a name, replacing an older binding of it. -/
def insert (b : Bindings α) (name : String) (value : α) : Bindings α :=
  ⟨insertIn name value b.entries⟩

/-- Binds names one after another. -/
def insertAll (b : Bindings α) (entries : List (String × α)) : Bindings α :=
  entries.foldl (fun b (name, value) => b.insert name value) b

/-- The bound names, in order. -/
def names (b : Bindings α) : List String := b.entries.map Prod.fst

@[simp] theorem find?_empty (name : String) : (empty : Bindings α).find? name = none := rfl

@[simp] theorem find?_insert_self (b : Bindings α) (name : String) (value : α) :
    (b.insert name value).find? name = some value := by
  simp only [find?, insert]
  induction b.entries with
  | nil => simp [insertIn, findIn?]
  | cons e rest ih =>
    simp only [insertIn]
    split
    · simp [findIn?]
    · next hne =>
      split
      · simp [findIn?]
      · simp [findIn?, hne, ih]

theorem find?_insert_of_ne (b : Bindings α) {name other : String} (h : other ≠ name) (value : α) :
    (b.insert name value).find? other = b.find? other := by
  simp only [find?, insert]
  induction b.entries with
  | nil => simp [insertIn, findIn?, h]
  | cons e rest ih =>
    simp only [insertIn]
    split
    · next heq => simp [findIn?, h, ← heq]
    · split
      · simp [findIn?, h]
      · simp [findIn?, ih]

end Bindings

end LoxLang
