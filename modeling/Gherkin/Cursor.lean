import Gherkin.Reader

/-
  Cursors over the significant lines of a text. Comments are dropped, and blank lines are folded
  into a flag of the next significant line: that is how descriptions, tables and step arguments end.
  A cursor stops at the first fault of the reader, so a fault is met when the line that shows it is
  looked at and not before.
-/

namespace Gherkin

/-- A line that is neither blank nor a comment. -/
structure Significant where
  line : Line
  afterBlank : Bool
deriving DecidableEq

/-- The significant lines still ahead, up to the end of the text or the first fault. -/
inductive Cursor where
  | line (next : Significant) (rest : Cursor)
  | ended (number : Nat)
  | failed (fault : Fault)
deriving DecidableEq

/-- The shape of a line; a blank or a comment is never looked at and counts as text. -/
def Line.Kind.shape : Line.Kind → Shape
  | tags _ => .tags
  | heading h _ => .heading h
  | step _ _ => .step
  | fence => .fence
  | row _ => .row
  | text _ | blank | comment => .text

theorem Line.Kind.shape_ne_end (k : Line.Kind) : k.shape ≠ .end := by cases k <;> simp [shape]

/-- What is seen of the next significant line, or of the end of the text. -/
structure Peek where
  shape : Shape
  line : Nat
  afterBlank : Bool
deriving DecidableEq

/-- The fault of finding what was seen where the grammar wants something else. -/
def Peek.reject (p : Peek) (kind : Fault.Kind) (wanted : Wanted) : Fault :=
  ⟨p.line, .unexpected kind wanted p.shape⟩

namespace Cursor

/-- The significant lines among the items of a reader; `blank` tells whether a blank line stands
before them since the last significant one, and `number` is the line of the end. -/
def ofItems (number : Nat) (blank : Bool) : List Reader.Item → Cursor
  | [] => ended number
  | .error f :: _ => failed f
  | .ok l :: rest =>
    match l.kind with
    | .blank => ofItems number true rest
    | .comment => ofItems number blank rest
    | _ => line ⟨l, blank⟩ (ofItems number false rest)

/-- The number of lines ahead. -/
def size : Cursor → Nat
  | line _ rest => rest.size + 1
  | _ => 0

/-- Looks at the next significant line. -/
def peek : Cursor → Except Fault Peek
  | line next _ => .ok ⟨next.line.kind.shape, next.line.number, next.afterBlank⟩
  | ended number => .ok ⟨.end, number, false⟩
  | failed f => .error f

/-- Takes the next significant line. -/
def take : Cursor → Except Fault (Significant × Cursor)
  | line next rest => .ok (next, rest)
  | ended number => .error ⟨number, .exhausted⟩
  | failed f => .error f

/-- Takes the longest run of lines that `p` accepts, and gives what it made of them. -/
def span {α : Type} (p : Significant → Option α) : Cursor → List α × Cursor
  | line next rest =>
    match p next with
    | some a => let (as, after) := span p rest; (a :: as, after)
    | none => ([], line next rest)
  | ended number => ([], ended number)
  | failed f => ([], failed f)

/-- The cursor itself, unless the reader failed there. -/
def sound : Cursor → Except Fault Cursor
  | failed f => .error f
  | c => .ok c

theorem size_span {α : Type} (p : Significant → Option α) (c : Cursor) :
    (c.span p).2.size ≤ c.size := by
  induction c with
  | ended n => exact Nat.le_refl _
  | failed f => exact Nat.le_refl _
  | line next rest ih =>
    simp only [span]
    split
    · exact Nat.le_succ_of_le ih
    · exact Nat.le_refl _

theorem eq_of_sound {c d : Cursor} (h : c.sound = .ok d) : d = c := by
  cases c <;> simp_all [sound]

theorem size_of_take {c rest : Cursor} {l : Significant} (h : c.take = .ok (l, rest)) :
    c.size = rest.size + 1 := by
  cases c <;> simp [take] at h
  obtain ⟨_, rfl⟩ := h
  rfl

/-- The heading on the first line after the tag lines that come next, if it is a heading. -/
def headingAfterTags : Cursor → Option Heading
  | line next rest =>
    match next.line.kind with
    | .tags _ => headingAfterTags rest
    | .heading h _ => some h
    | _ => none
  | _ => none

end Cursor

end Gherkin
