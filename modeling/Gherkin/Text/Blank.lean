/-
  Blank characters and trimming. A blank is a character of the Unicode property White_Space;
  indentation, padding and the gaps between words are runs of blanks.
-/

namespace Gherkin.Text

/-- The character has the property White_Space. -/
def isBlank (c : Char) : Bool :=
  let n := c.toNat
  (0x9 ≤ n && n ≤ 0xd) || n == 0x20 || n == 0x85 || n == 0xa0 || n == 0x1680 ||
    (0x2000 ≤ n && n ≤ 0x200a) || n == 0x2028 || n == 0x2029 || n == 0x202f || n == 0x205f ||
    n == 0x3000

/-- The text without its leading blanks. -/
def trimStart (s : List Char) : List Char := s.dropWhile isBlank

/-- The text without its trailing blanks. -/
def trimEnd (s : List Char) : List Char := (s.reverse.dropWhile isBlank).reverse

/-- The text without the blanks at its two ends. -/
def trim (s : List Char) : List Char := trimEnd (trimStart s)

/-- The number of leading blanks. -/
def indent (s : List Char) : Nat := (s.takeWhile isBlank).length

/-- Removes leading blanks, but at most `n` of them. -/
def dedent : Nat → List Char → List Char
  | n + 1, c :: r => if isBlank c then dedent n r else c :: r
  | _, s => s

/-- Writes a character before the first word; without words it is one. -/
def extendFirst (c : Char) : List (List Char) → List (List Char)
  | [] => [[c]]
  | w :: ws => (c :: w) :: ws

/-- The maximal runs of characters that are not blank. -/
def words : List Char → List (List Char)
  | [] => []
  | c :: r =>
    if isBlank c then words r
    else if r.head?.any isBlank then [c] :: words r
    else extendFirst c (words r)

theorem isBlank_space : isBlank ' ' = true := by decide

/-- A character that the core library calls white space is a blank. -/
theorem isBlank_of_isWhitespace {c : Char} (h : c.isWhitespace = true) : isBlank c = true := by
  simp only [Char.isWhitespace, Bool.or_eq_true, decide_eq_true_eq] at h
  rcases h with ((rfl | rfl) | rfl) | rfl <;> decide

theorem dedent_zero (s : List Char) : dedent 0 s = s := by cases s <;> rfl

theorem trim_nil : trim [] = [] := rfl

end Gherkin.Text
