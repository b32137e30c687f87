import Gherkin.Fault

/-
  Table rows. A row stands between pipes, and a pipe between two cells divides them. A backslash
  and the character after it are read as a pair: before a pipe, a backslash or the letter n the
  pair is a pipe, a backslash or a newline, before any other character it is itself.
-/

namespace Gherkin.Row

/-- What a backslash and this character stand for. -/
def unescape : Char → List Char
  | '|' => ['|']
  | '\\' => ['\\']
  | 'n' => ['\n']
  | c => ['\\', c]

/-- Writes characters before the first cell. -/
def extend (s : List Char) : List (List Char) → List (List Char)
  | [] => [s]
  | cell :: cells => (s ++ cell) :: cells

/-- The untrimmed cells of what follows a pipe, the cell after that pipe first; none if the last
pipe is not the end of the row. -/
def cellsAfterPipe : List Char → Option (List (List Char))
  | [] => none
  | ['|'] => some [[]]
  | '|' :: rest => (cellsAfterPipe rest).map ([] :: ·)
  | '\\' :: c :: rest => (cellsAfterPipe rest).map (extend (unescape c))
  | c :: rest => (cellsAfterPipe rest).map (extend [c])

/-- The trimmed cells of a row. -/
def cells : List Char → Except Fault.Cause (List String)
  | '|' :: rest =>
    match cellsAfterPipe rest with
    | some cells => .ok (cells.map fun cell => String.ofList (Text.trim cell))
    | none => .error .rowUnclosed
  | _ => .error .rowUnopened

end Gherkin.Row
