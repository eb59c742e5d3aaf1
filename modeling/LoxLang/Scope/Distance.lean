import LoxLang.Syntax.Basic

/-!
# Distances of references

The analysis of scopes records for each reference to a local binding how many scopes out the
binding is.  References without a record are to globals.  Reference numbers are handed out one
after another, so the table is an array with a place for each number.
-/

namespace LoxLang

/-- How many scopes out the binding of each local reference is. -/
structure Distances where
  entries : Array (Option Nat)

namespace Distances

/-- No reference is local. -/
def empty : Distances := ⟨#[]⟩

/-- The recorded distance of a reference. -/
def find? (d : Distances) (ref : RefId) : Option Nat := (d.entries[ref]?).join

/-- Records the distance of a reference. -/
def record (d : Distances) (ref : RefId) (distance : Nat) : Distances :=
  let padding := Array.replicate (ref + 1 - d.entries.size) none
  ⟨(d.entries ++ padding).setIfInBounds ref (some distance)⟩

@[simp] theorem find?_record_self (d : Distances) (ref distance : Nat) :
    (d.record ref distance).find? ref = some distance := by
  have h : ref < d.entries.size + (ref + 1 - d.entries.size) := by omega
  simp [find?, record, h]

theorem find?_record_of_ne (d : Distances) {ref other : RefId} (h : other ≠ ref)
    (distance : Nat) : (d.record ref distance).find? other = d.find? other := by
  simp only [find?, record, Array.getElem?_setIfInBounds_ne (Ne.symm h), Array.getElem?_append]
  split
  · rfl
  · next hlt =>
    have : d.entries[other]? = none := by simp; omega
    simp only [this, Array.getElem?_replicate]
    split <;> rfl

end Distances

end LoxLang
