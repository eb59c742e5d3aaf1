/-!
# Classes of characters

A class of characters is a list of ranges of code points, ends included.  The tables of the
Unicode properties that this project uses are kept in this form, as of Unicode 17.
-/

namespace LoxLang.Text

/-- Is a character in one of the ranges? -/
def inRanges (ranges : List (Nat × Nat)) (c : Char) : Bool :=
  ranges.any fun (first, last) => first ≤ c.toNat && c.toNat ≤ last

/-- Do the ranges ascend, each some way behind the one before? -/
def ascending : List (Nat × Nat) → Bool
  | [] => true
  | [(first, last)] => first ≤ last
  | (first, last) :: (next, end_) :: rest =>
    first ≤ last && last + 1 < next && ascending ((next, end_) :: rest)

/-- How many code points are in ranges that ascend. -/
def rangesSize (ranges : List (Nat × Nat)) : Nat :=
  ranges.foldl (fun size (first, last) => size + (last + 1 - first)) 0

end LoxLang.Text
