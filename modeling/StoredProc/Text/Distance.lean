import StoredProc.Number.Power

/-!
# Edit distance

The distance of two texts is the number of characters to insert, delete or
replace. It is computed row by row: a row holds the distances from one start of
the first text to all starts of the second. Two rows are kept. One is complete,
and the other is written from left to right over what it held before; then they
change places.
-/

namespace StoredProc.Text

variable {α : Type} [DecidableEq α] {length : Nat}

/-- The row above, which is complete, and the current row, which is written. Both
have one cell for every start of a text. -/
structure DistanceRows (length : Nat) where
  above : Vector Nat (length + 1)
  current : Vector Nat (length + 1)

namespace DistanceRows

/-- The rows of the empty text, of which nothing can be kept. -/
def first (length : Nat) : DistanceRows length where
  above := Vector.range (length + 1)
  current := Vector.replicate (length + 1) 0

/-- Write the cell of the current row that is after one place of the text. -/
def write (text : Vector α length) (c : α) (place : Nat) (h : place < length)
    (rows : DistanceRows length) : DistanceRows length :=
  let here := min (min (rows.above[place + 1] + 1) (rows.current[place] + 1))
    (rows.above[place] + if c = text[place] then 0 else 1)
  { rows with current := rows.current.set (place + 1) here }

/-- The rows after one more character of the first text. -/
def next (text : Vector α length) (rows : DistanceRows length) (c : α) : DistanceRows length :=
  let begun := { rows with current := rows.current.set 0 (rows.above[0] + 1) }
  let written := length.fold (write text c) begun
  { above := written.current, current := written.above }

end DistanceRows

/-- The edit distance of two texts. -/
def distance (a b : List α) : Nat :=
  (a.foldl (DistanceRows.next ⟨b.toArray, rfl⟩) (DistanceRows.first b.length)).above[b.length]

/-- The first distance that is over a limit. It is a number of 64 bits, so the one
after the greatest limit is below all distances. -/
def firstBeyond (limit : Int) : Int := (limit + 1).bmod word64Limit

/-- Take a candidate that is nearer than what was found before. -/
def nearer (s : String) (beyond : Int) (found : Option (String × Nat)) (candidate : String) :
    Option (String × Nat) :=
  let d := distance candidate.toList s.toList
  match found with
  | some (_, best) => if d < best then some (candidate, d) else found
  | none => if d < beyond then some (candidate, d) else none

/-- The first of the candidates nearest to a text, and its distance. Candidates
farther than the limit do not count. -/
def closest? (candidates : List String) (s : String) (limit : Int) : Option (String × Nat) :=
  candidates.foldl (nearer s (firstBeyond limit)) none

end StoredProc.Text
