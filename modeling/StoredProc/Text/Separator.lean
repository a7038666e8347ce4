/-!
# Separators

A separator is a line of dashes with a label near its start. A label that does
not fit is written whole.
-/

namespace StoredProc.Text

def separatorWidth : Nat := 40

def dashes (count : Nat) : String := String.ofList (List.replicate count '-')

/-- A separator, with the end of its line. -/
def separator (label : String) : String :=
  if label.isEmpty then dashes separatorWidth ++ "\n"
  else
    let head := "--- " ++ label ++ " "
    head ++ dashes (max (separatorWidth - head.length) 3) ++ "\n"

end StoredProc.Text
