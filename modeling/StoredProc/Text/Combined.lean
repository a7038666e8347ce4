/-!
# Combined messages

Several messages become one, each on a line of its own. Line breaks at the end
are dropped.
-/

namespace StoredProc.Text

/-- Drop line breaks at the end of a text. -/
def trimBreaks (text : String) : String :=
  String.ofList ((text.toList.reverse.dropWhile (· = '\n')).reverse)

/-- The messages that are there, combined; nothing if there is none. -/
def combine? (messages : List (Option String)) : Option String :=
  match messages.filterMap id with
  | [] => none
  | present => some (trimBreaks (String.join (present.map (· ++ "\n"))))

/-- Combined messages after a text that introduces them. -/
def combineAfter? (introduction : String) (messages : List (Option String)) : Option String :=
  (combine? messages).map fun text => introduction ++ ": " ++ text

end StoredProc.Text
