import Gherkin.Parse.Opening
import Gherkin.Step

/-
  Tables, doc strings, and steps with the argument attached to them.
-/

namespace Gherkin.Parse

/-- The rows of a table: its header, with the header's line, and the cells under it. In a finished
table the header names each column once and every row is as wide as the header. -/
structure Grid where
  line : Nat
  header : List String
  cells : List (List String)
deriving DecidableEq

/-- The table of a grid. -/
def Grid.table (g : Grid) : Table := Table.ofCells g.header g.cells

/-- The line number and the cells of a row that does not come after a blank line. -/
def rowLine? (l : Significant) : Option (Nat × List String) :=
  match l.line.kind with
  | .row cells => if l.afterBlank then none else some (l.line.number, cells)
  | _ => none

/-- The rows that come next, with their line numbers; a blank line may stand before the first one
only. -/
def rows : Cursor → List (Nat × List String) × Cursor
  | .line next rest =>
    match next.line.kind with
    | .row cells =>
      let (more, after) := rest.span rowLine?
      ((next.line.number, cells) :: more, after)
    | _ => ([], .line next rest)
  | c => ([], c)

/-- The first name that is in `seen` or stands twice. -/
def repeated? (seen : List String) : List String → Option String
  | [] => none
  | name :: names => if name ∈ seen then some name else repeated? (name :: seen) names

/-- Each column of the header has a name of its own. -/
def checkHeader (line : Nat) (header : List String) : Except Fault Unit :=
  match repeated? [] header with
  | some name => .error ⟨line, .duplicateColumn name⟩
  | none => .ok ()

/-- Each row is as wide as the header. -/
def checkWidths (header : List String) (data : List (Nat × List String)) : Except Fault Unit :=
  match data.find? fun row => row.2.length != header.length with
  | some (line, cells) => .error ⟨line, .unevenRow cells.length header.length⟩
  | none => .ok ()

/-- A table: a header row and at least one row under it. -/
def grid (c : Cursor) : Except Fault (Grid × Cursor) := do
  let (found, rest) := rows c
  let next ← rest.peek
  match found with
  | [] => throw (next.reject .malformedTable .tableRow)
  | (line, header) :: data =>
    if data = [] then
      throw ⟨if next.shape = .end then next.line else line, .headerOnly line next.shape⟩
    checkHeader line header
    checkWidths header data
    return (⟨line, header, data.map Prod.snd⟩, rest)

/-- The content of a text line, after a blank line or not. -/
def capturedLine? (l : Significant) : Option String :=
  match l.line.kind with
  | .text s => some s
  | _ => none

/-- A doc string: the captured lines between two fences, joined by newlines. -/
def docString (c : Cursor) : Except Fault (String × Cursor) := do
  let (opening, rest) ← c.take
  let (captured, rest) := rest.span capturedLine?
  let (next, rest) ← rest.take
  match next.line.kind with
  | .fence => return ("\n".intercalate captured, rest)
  | _ => throw ⟨next.line.number, .interrupted opening.line.number⟩

/-- What comes next is a table or a doc string with no blank line before it. -/
def attaches (p : Peek) : Bool := !p.afterBlank && (p.shape = .row || p.shape = .fence)

/-- The table or the doc string that opens with a line of this shape. -/
def attached (shape : Shape) (c : Cursor) : Except Fault (Argument × Cursor) :=
  if shape = .row then do
    let (g, rest) ← grid c
    return (.table g.table, rest)
  else do
    let (s, rest) ← docString c
    return (.docString s, rest)

/-- The argument that comes next, if it is attached; a second one is a fault. -/
def argument (c : Cursor) : Except Fault (Option Argument × Cursor) := do
  let first ← c.peek
  if attaches first then
    let (argument, rest) ← attached first.shape c
    let next ← rest.peek
    if attaches next then throw ⟨next.line, .argumentConflict first.shape next.shape⟩
    return (some argument, rest)
  else return (none, c)

/-- A step line and its argument. -/
def step (c : Cursor) : Except Fault (Step × Cursor) := do
  let (next, rest) ← c.take
  match next.line.kind with
  | .step keyword text =>
    let (argument, rest) ← argument rest
    return (⟨keyword, text, argument⟩, rest)
  | _ => throw ⟨next.line.number, .misplaced .step⟩

theorem size_rows (c : Cursor) : (rows c).2.size ≤ c.size := by
  cases c with
  | ended n => exact Nat.le_refl _
  | failed f => exact Nat.le_refl _
  | line next rest =>
    simp only [rows]
    split
    · exact Nat.le_succ_of_le (Cursor.size_span rowLine? rest)
    · exact Nat.le_refl _

theorem size_of_grid {c rest : Cursor} {g : Grid} (h : grid c = .ok (g, rest)) :
    rest.size ≤ c.size := by
  obtain ⟨next, -, h⟩ := bind_eq_ok.1 h
  dsimp only at h
  split at h
  · exact (throw_eq_ok.1 h).elim
  · split at h
    · obtain ⟨_, h', -⟩ := bind_eq_ok.1 h
      exact (throw_eq_ok.1 h').elim
    · obtain ⟨_, -, h⟩ := bind_eq_ok.1 h
      obtain ⟨_, -, h⟩ := bind_eq_ok.1 h
      obtain ⟨_, rfl⟩ := Prod.mk.inj (pure_eq_ok.1 h)
      exact size_rows c

theorem size_of_docString {c rest : Cursor} {s : String} (h : docString c = .ok (s, rest)) :
    rest.size ≤ c.size := by
  obtain ⟨⟨opening, d⟩, hd, h⟩ := bind_eq_ok.1 h
  obtain ⟨⟨next, e⟩, he, h⟩ := bind_eq_ok.1 h
  have h₁ := Cursor.size_of_take hd
  have h₂ := Cursor.size_of_take he
  have h₃ := Cursor.size_span capturedLine? d
  dsimp only at h
  split at h
  · obtain ⟨_, rfl⟩ := Prod.mk.inj (pure_eq_ok.1 h)
    omega
  · exact (throw_eq_ok.1 h).elim

theorem size_of_attached {c rest : Cursor} {shape : Shape} {a : Argument}
    (h : attached shape c = .ok (a, rest)) : rest.size ≤ c.size := by
  simp only [attached] at h
  split at h
  · obtain ⟨⟨g, d⟩, hd, h⟩ := bind_eq_ok.1 h
    obtain ⟨_, rfl⟩ := Prod.mk.inj (pure_eq_ok.1 h)
    exact size_of_grid hd
  · obtain ⟨⟨s, d⟩, hd, h⟩ := bind_eq_ok.1 h
    obtain ⟨_, rfl⟩ := Prod.mk.inj (pure_eq_ok.1 h)
    exact size_of_docString hd

theorem size_of_argument {c rest : Cursor} {a : Option Argument}
    (h : argument c = .ok (a, rest)) : rest.size ≤ c.size := by
  obtain ⟨first, -, h⟩ := bind_eq_ok.1 h
  split at h
  · obtain ⟨⟨b, d⟩, hd, h⟩ := bind_eq_ok.1 h
    obtain ⟨next, -, h⟩ := bind_eq_ok.1 h
    split at h
    · obtain ⟨_, h', -⟩ := bind_eq_ok.1 h
      exact (throw_eq_ok.1 h').elim
    · obtain ⟨_, rfl⟩ := Prod.mk.inj (pure_eq_ok.1 h)
      exact size_of_attached hd
  · obtain ⟨_, rfl⟩ := Prod.mk.inj (pure_eq_ok.1 h)
    exact Nat.le_refl _

theorem size_of_step {c rest : Cursor} {s : Step} (h : step c = .ok (s, rest)) :
    rest.size < c.size := by
  obtain ⟨⟨next, d⟩, hd, h⟩ := bind_eq_ok.1 h
  have h₁ := Cursor.size_of_take hd
  dsimp only at h
  split at h
  · obtain ⟨⟨a, e⟩, he, h⟩ := bind_eq_ok.1 h
    have h₂ := size_of_argument he
    obtain ⟨_, rfl⟩ := Prod.mk.inj (pure_eq_ok.1 h)
    exact h₁ ▸ Nat.lt_succ_of_le h₂
  · exact (throw_eq_ok.1 h).elim

end Gherkin.Parse
