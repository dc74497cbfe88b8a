/-!
# Splitting texts

The parts of a text between separators. There is always one part more than there are separators,
and parts may be empty.
-/
namespace MinConflicts.Text

def splitOn (separator : Char) : List Char → List (List Char)
  | [] => [[]]
  | c :: cs =>
    if c = separator then [] :: splitOn separator cs
    else match splitOn separator cs with
      | [] => [[c]]
      | w :: ws => (c :: w) :: ws

end MinConflicts.Text
