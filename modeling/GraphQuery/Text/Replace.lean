/-!
# GraphQuery.Text.Replace — replacing parts of a text

Occurrences are found from left to right and do not overlap.
-/

namespace GraphQuery.Text

/-- Replaces a non-empty part; `skip` characters still belong to the last occurrence. -/
def replaceFrom (part new : List Char) (skip : Nat) : List Char → List Char
  | [] => []
  | c :: cs =>
    if skip > 0 then replaceFrom part new (skip - 1) cs
    else if part.isPrefixOf (c :: cs) then new ++ replaceFrom part new (part.length - 1) cs
    else c :: replaceFrom part new 0 cs

/-- Replaces a text wherever it stands, from left to right and without overlaps. -/
def replaceAll (part new s : String) : String :=
  if part.isEmpty then s else String.ofList (replaceFrom part.toList new.toList 0 s.toList)

end GraphQuery.Text
