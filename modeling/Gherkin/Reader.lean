import Gherkin.Line
import Gherkin.Text.Lines

/-
  A reader of classified lines. It gives an item per line, a line or a fault, and goes on after a
  fault; a text that ends inside a doc string gives one more item, the fault at the open fence.
  A reader is a value: a copy of it reads on from the same place.
-/

namespace Gherkin

/-- The lines not read yet, the number of the last line read (0 before the first), and the open
doc string. -/
structure Reader where
  rest : List (List Char)
  last : Nat
  fence : Option Line.Fence

namespace Reader

/-- A line or a fault. -/
abbrev Item := Except Fault Line

/-- A reader at the start of a text. -/
def ofText (text : List Char) : Reader := ⟨Text.lines text, 0, none⟩

/-- The item of a line, after which a doc string is open or none is. -/
def read (fence : Option Line.Fence) (number : Nat) (raw : List Char) :
    Item × Option Line.Fence :=
  match Line.classify fence number raw with
  | (.ok kind, fence) => (.ok ⟨number, kind⟩, fence)
  | (.error cause, fence) => (.error ⟨number, cause⟩, fence)

/-- The next item and the reader after it. -/
def next? : Reader → Option (Item × Reader)
  | ⟨[], _, none⟩ => none
  | ⟨[], last, some fence⟩ => some (.error ⟨fence.line, .fenceUnclosed⟩, ⟨[], last, none⟩)
  | ⟨raw :: rest, last, fence⟩ =>
    let (item, fence) := read fence (last + 1) raw
    some (item, ⟨rest, last + 1, fence⟩)

/-- The items of lines that follow a line number, inside or outside a doc string. -/
def itemsFrom (last : Nat) (fence : Option Line.Fence) : List (List Char) → List Item
  | [] => match fence with
    | none => []
    | some fence => [.error ⟨fence.line, .fenceUnclosed⟩]
  | raw :: rest =>
    let (item, fence) := read fence (last + 1) raw
    item :: itemsFrom (last + 1) fence rest

/-- Every item that a reader still gives. -/
def items (r : Reader) : List Item := itemsFrom r.last r.fence r.rest

/-- The reader after its last item. -/
def drained (r : Reader) : Reader := ⟨[], r.last + r.rest.length, none⟩

/-- The lines before the first fault among items, and that fault. -/
def untilFault : List Item → List Line × Option Fault
  | [] => ([], none)
  | .error f :: _ => ([], some f)
  | .ok l :: rest => let (ls, fault) := untilFault rest; (l :: ls, fault)

/-- A bound on the items that a reader still gives. Each line counts twice, since it may open a doc
string that nothing closes. -/
def size (r : Reader) : Nat := 2 * r.rest.length + r.fence.toList.length

theorem items_of_next?_none {r : Reader} (h : r.next? = none) : r.items = [] := by
  obtain ⟨_ | ⟨raw, rest⟩, last, _ | fence⟩ := r <;> simp_all [next?, items, itemsFrom]

theorem items_of_next?_some {r r' : Reader} {i : Item} (h : r.next? = some (i, r')) :
    r.items = i :: r'.items := by
  obtain ⟨_ | ⟨raw, rest⟩, last, _ | fence⟩ := r <;> simp [next?] at h <;>
    obtain ⟨rfl, rfl⟩ := h <;> simp [items, itemsFrom]

theorem drained_of_next?_some {r r' : Reader} {i : Item} (h : r.next? = some (i, r')) :
    r'.drained = r.drained := by
  obtain ⟨_ | ⟨raw, rest⟩, last, _ | fence⟩ := r <;> simp [next?] at h <;>
    obtain ⟨rfl, rfl⟩ := h <;> simp [drained] <;> omega

theorem drained_of_next?_none {r : Reader} (h : r.next? = none) : r.drained = r := by
  obtain ⟨_ | ⟨raw, rest⟩, last, _ | fence⟩ := r <;> simp_all [next?, drained]

theorem size_of_next?_some {r r' : Reader} {i : Item} (h : r.next? = some (i, r')) :
    r'.size < r.size := by
  obtain ⟨_ | ⟨raw, rest⟩, last, fence⟩ := r
  · cases fence with
    | none => cases h
    | some fence =>
      obtain ⟨-, rfl⟩ := Prod.mk.inj (Option.some.inj h)
      exact Nat.lt_succ_self _
  · simp only [next?, Option.some.injEq, Prod.mk.injEq] at h
    obtain ⟨-, rfl⟩ := h
    have hafter : (read fence (last + 1) raw).2.toList.length ≤ 1 := Option.length_toList_le
    simp only [size, List.length_cons]
    omega

end Reader

end Gherkin
