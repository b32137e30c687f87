/-
  The lines of a text. A newline ends a line and a carriage return directly before it belongs to
  that line end; a last line needs no newline. A lone carriage return is an ordinary character.
-/

namespace Gherkin.Text

/-- The lines of a text, without their line ends. -/
def lines : List Char → List (List Char)
  | [] => []
  | '\n' :: r => [] :: lines r
  | '\r' :: '\n' :: r => [] :: lines r
  | c :: r => match lines r with
    | [] => [[c]]
    | l :: ls => (c :: l) :: ls

theorem lines_nil : lines [] = [] := by simp [lines]

theorem lines_newline (r : List Char) : lines ('\n' :: r) = [] :: lines r := by simp [lines]

end Gherkin.Text
