import StoredProc.Number.Power
import StoredProc.Number.Reader

/-!
# Natural order of names

Names are compared character by character, but where both go on with digits the
numbers are compared. Equal numbers, such as `1` and `01`, are passed over only
if both names go on after them; otherwise the rest decides character by
character, as it does for numbers of more than 64 bits.
-/

namespace StoredProc.Text

/-- Drop the characters on which two names agree, digits excepted. -/
def dropCommon : List Char → List Char → List Char × List Char
  | a :: as, b :: bs =>
    if a.isDigit || b.isDigit || a ≠ b then (a :: as, b :: bs) else dropCommon as bs
  | as, bs => (as, bs)

/-- The value of a run of digits that fits in 64 bits. -/
def runValue? (digits : List Char) : Option Nat :=
  let value := digitsValue digits
  if value < word64Limit then some value else none

/-- Compare two names; the number of runs of digits is at most the fuel. -/
def naturalLessFrom : Nat → List Char → List Char → Bool
  | 0, as, bs => String.ofList as < String.ofList bs
  | fuel + 1, as, bs =>
    let (as, bs) := dropCommon as bs
    let (digitsA, restA) := as.span Char.isDigit
    let (digitsB, restB) := bs.span Char.isDigit
    let plain : Bool := String.ofList as < String.ofList bs
    if digitsA.isEmpty || digitsB.isEmpty then plain
    else
      match runValue? digitsA, runValue? digitsB with
      | some a, some b =>
        if a ≠ b then a < b
        else if !restA.isEmpty && !restB.isEmpty then naturalLessFrom fuel restA restB
        else plain
      | _, _ => plain

/-- Whether a name comes before another in natural order. -/
def naturalLess (a b : String) : Bool :=
  naturalLessFrom (a.length + 1) a.toList b.toList

/-- Put an item behind the last of a list that it does not come before. The
list is given from its end. -/
def insertFromEnd {α : Type} (less : α → α → Bool) (item : α) : List α → List α
  | [] => [item]
  | last :: before =>
    if less item last then last :: insertFromEnd less item before else item :: last :: before

/-- Sort by inserting one item after the other. Items that are not in order
either way keep the order in which they came. -/
def insertionSort {α : Type} (less : α → α → Bool) (items : List α) : List α :=
  (items.foldl (fun sorted item => insertFromEnd less item sorted) []).reverse

end StoredProc.Text
