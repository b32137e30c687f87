import Gherkin.Cursor

/-
  Windows: a reader with one line of lookahead. Looking reads on to the next significant line and
  holds it, taking gives the line away. A text is parsed from the cursor that its window shows when
  the lines are looked at and taken one by one (`ahead`); that cursor is made of the items of the
  reader (`ofText_eq_ofItems`). What looking and taking give is said once, by what is ahead
  (`shows`).
-/

namespace Gherkin

/-- A reader, and the significant line that was read and is not taken yet. -/
structure Window where
  reader : Reader
  held : Option Significant

namespace Window

/-- A window before the first line of a text. -/
def ofText (text : String) : Window := ⟨Reader.ofText text.toList, none⟩

/-- Reads up to the next significant line; `blank` tells whether a blank line was read. -/
def seek (blank : Bool) (r : Reader) : Except Fault Window :=
  match h : r.next? with
  | none => .ok ⟨r, none⟩
  | some (.error f, _) => .error f
  | some (.ok l, rest) =>
    have : rest.size < r.size := Reader.size_of_next?_some h
    match l.kind with
    | .blank => seek true rest
    | .comment => seek blank rest
    | _ => .ok ⟨rest, some ⟨l, blank⟩⟩
termination_by r.size

/-- The window that holds the next significant line, if there is one. -/
def fill (w : Window) : Except Fault Window :=
  match w.held with
  | some _ => .ok w
  | none => seek false w.reader

/-- Looks at the next significant line. -/
def peek (w : Window) : Except Fault (Peek × Window) := do
  let w ← w.fill
  match w.held with
  | some next => return (⟨next.line.kind.shape, next.line.number, next.afterBlank⟩, w)
  | none => return (⟨.end, max w.reader.last 1, false⟩, w)

/-- Takes the next significant line. -/
def take (w : Window) : Except Fault (Significant × Window) := do
  let w ← w.fill
  match w.held with
  | some next => return (next, ⟨w.reader, none⟩)
  | none => throw ⟨max w.reader.last 1, .exhausted⟩

/-- The heading on the first of some lines that is neither blank, a comment nor a tag line. -/
def firstHeading? (ls : List Line) : Option Heading :=
  let next := ls.find? fun l =>
    match l.kind with
    | .blank | .comment | .tags _ => false
    | _ => true
  match next.map Line.kind with
  | some (.heading h _) => some h
  | _ => none

/-- The heading on the first line after the tag lines that come next, if it is a heading. It is
looked for in the items of the reader, up to the first fault. -/
def headingAfterTags (w : Window) : Option Heading :=
  firstHeading? (Reader.untilFault w.reader.items).1

/-- A bound on the lines still to come. -/
def size (w : Window) : Nat := w.reader.size + w.held.toList.length

/-! ## Looking and taking -/

/-- How reading on ends: at a fault, at the end of the text, or with a line held. The items of the
reader tell which, and what is ahead after that line. -/
inductive Seeks (blank : Bool) (r : Reader) : Except Fault Window → Prop
  | failed {f : Fault} (fault : ∀ n, Cursor.ofItems n blank r.items = .failed f) :
    Seeks blank r (.error f)
  | ended (finished : ∀ n, Cursor.ofItems n blank r.items = .ended n) :
    Seeks blank r (.ok ⟨r.drained, none⟩)
  | held {l : Significant} {rest : Reader} (shorter : rest.size < r.size)
    (same : rest.drained = r.drained)
    (first : ∀ n, Cursor.ofItems n blank r.items = .line l (Cursor.ofItems n false rest.items)) :
    Seeks blank r (.ok ⟨rest, some l⟩)

/-- A line that is skipped changes nothing but the flag. -/
theorem Seeks.skip {blank blank' : Bool} {r rest : Reader} {l : Line} {x : Except Fault Window}
    (h : Seeks blank' rest x) (next : r.next? = some (.ok l, rest))
    (skipped : ∀ n items, Cursor.ofItems n blank (.ok l :: items) = Cursor.ofItems n blank' items) :
    Seeks blank r x := by
  have hahead (n : Nat) : Cursor.ofItems n blank r.items = Cursor.ofItems n blank' rest.items := by
    rw [Reader.items_of_next?_some next, skipped]
  have hdrained := Reader.drained_of_next?_some next
  cases h with
  | failed fault => exact .failed fun n => (hahead n).trans (fault n)
  | ended finished => exact hdrained ▸ .ended fun n => (hahead n).trans (finished n)
  | held shorter same first =>
    exact .held (Nat.lt_trans shorter (Reader.size_of_next?_some next)) (same.trans hdrained)
      fun n => (hahead n).trans (first n)

theorem seeks_seek (blank : Bool) (r : Reader) : Seeks blank r (seek blank r) := by
  fun_induction seek blank r with
  | case1 blank r next =>
    have hended : Seeks blank r (.ok ⟨r.drained, none⟩) :=
      .ended fun n => by rw [Reader.items_of_next?_none next]; rfl
    rwa [Reader.drained_of_next?_none next] at hended
  | case2 blank r f rest next =>
    exact .failed fun n => by rw [Reader.items_of_next?_some next]; rfl
  | case3 blank r l rest next _ kind ih =>
    exact ih.skip next fun n items => by simp only [Cursor.ofItems, kind]
  | case4 blank r l rest next _ kind ih =>
    exact ih.skip next fun n items => by simp only [Cursor.ofItems, kind]
  | case5 blank r l rest next shorter notBlank notComment =>
    refine .held shorter (Reader.drained_of_next?_some next) fun n => ?_
    rw [Reader.items_of_next?_some next, Cursor.ofItems]
    split
    · exact absurd ‹_› notBlank
    · exact absurd ‹_› notComment
    · rfl

/-- The line at which the text of a window ends; an empty text ends at line 1. -/
def lastLine (w : Window) : Nat := max w.reader.drained.last 1

/-- What is ahead of a window, by the items of its reader. -/
def view (w : Window) : Cursor :=
  match w.held with
  | some l => .line l (Cursor.ofItems w.lastLine false w.reader.items)
  | none => Cursor.ofItems w.lastLine false w.reader.items

/-- What looking at a window and taking a line of it give, and what is ahead then. To look changes
nothing in that, and the line that is seen is the one that is taken, whether it was looked at before
or not. -/
inductive Shows (w : Window) : Prop
  | failed {f : Fault} (peek : w.peek = .error f) (take : w.take = .error f)
    (view : w.view = .failed f)
  | ended {looked : Window} (peek : w.peek = .ok (⟨.end, w.lastLine, false⟩, looked))
    (take : w.take = .error ⟨w.lastLine, .exhausted⟩) (view : w.view = .ended w.lastLine)
    (same : looked.view = w.view)
  | line {l : Significant} {looked rest : Window}
    (peek : w.peek = .ok (⟨l.line.kind.shape, l.line.number, l.afterBlank⟩, looked))
    (held : looked.take = .ok (l, rest)) (take : w.take = .ok (l, rest))
    (view : w.view = .line l rest.view) (same : looked.view = w.view) (shorter : rest.size < w.size)

theorem shows (w : Window) : w.Shows := by
  obtain ⟨r, _ | l⟩ := w
  · have hseeks := seeks_seek false r
    generalize hseek : seek false r = filled at hseeks
    have hfill : fill ⟨r, none⟩ = filled := hseek
    cases hseeks with
    | failed fault => exact .failed (by rw [peek, hfill]; rfl) (by rw [take, hfill]; rfl) (fault _)
    | ended finished =>
      have hview : view ⟨r, none⟩ = .ended (lastLine ⟨r, none⟩) := finished _
      have hlooked : view ⟨r.drained, none⟩ = view ⟨r, none⟩ := hview.symm
      exact .ended (by rw [peek, hfill]; rfl) (by rw [take, hfill]; rfl) hview hlooked
    | @held l rest shorter same first =>
      have hrest : view ⟨rest, none⟩ = Cursor.ofItems (lastLine ⟨r, none⟩) false rest.items := by
        rw [lastLine, ← same]
        rfl
      have hview : view ⟨r, none⟩ = .line l (view ⟨rest, none⟩) := hrest ▸ first _
      have hlooked : view ⟨rest, some l⟩ = view ⟨r, none⟩ := hview.symm
      exact .line (by rw [peek, hfill]; rfl) rfl (by rw [take, hfill]; rfl) hview hlooked shorter
  · exact @Shows.line ⟨r, some l⟩ l ⟨r, some l⟩ ⟨r, none⟩ rfl rfl rfl rfl rfl (Nat.lt_succ_self _)

/-- A line that was looked at and taken is no longer ahead. -/
theorem size_of_look {w looked rest : Window} {p : Peek} {l : Significant}
    (hpeek : w.peek = .ok (p, looked)) (more : p.shape ≠ .end)
    (htake : looked.take = .ok (l, rest)) :
    rest.size < w.size := by
  cases shows w with
  | failed peek => cases peek.symm.trans hpeek
  | ended peek =>
    obtain ⟨rfl, -⟩ := Prod.mk.inj (Except.ok.inj (peek.symm.trans hpeek))
    exact absurd rfl more
  | line peek held _ _ _ shorter =>
    obtain ⟨-, rfl⟩ := Prod.mk.inj (Except.ok.inj (peek.symm.trans hpeek))
    obtain ⟨-, rfl⟩ := Prod.mk.inj (Except.ok.inj (held.symm.trans htake))
    exact shorter

/-! ## What is ahead -/

/-- The lines that a window shows when each is looked at and then taken. -/
def ahead (w : Window) : Cursor :=
  match hpeek : w.peek with
  | .error f => .failed f
  | .ok (seen, looked) =>
    if finished : seen.shape = .end then .ended seen.line
    else
      match htake : looked.take with
      | .error f => .failed f
      | .ok (next, rest) =>
        have : rest.size < w.size := size_of_look hpeek finished htake
        .line next rest.ahead
termination_by w.size

theorem ahead_of_failed {w : Window} {f : Fault} (h : w.peek = .error f) : w.ahead = .failed f := by
  rw [ahead]
  split <;> simp_all

theorem ahead_of_ended {w looked : Window} {p : Peek} (h : w.peek = .ok (p, looked))
    (finished : p.shape = .end) : w.ahead = .ended p.line := by
  rw [ahead]
  split <;> simp_all

theorem ahead_of_line {w looked rest : Window} {p : Peek} {l : Significant}
    (hpeek : w.peek = .ok (p, looked)) (more : p.shape ≠ .end)
    (htake : looked.take = .ok (l, rest)) :
    w.ahead = .line l rest.ahead := by
  rw [ahead]
  split
  · simp_all
  · rename_i seen looked' hlooked
    obtain ⟨rfl, rfl⟩ := Prod.mk.inj (Except.ok.inj (hlooked.symm.trans hpeek))
    rw [dif_neg more]
    split <;> simp_all

/-- What a window shows, line by line, is what the items of its reader tell. -/
theorem ahead_eq_view (w : Window) : w.ahead = w.view := by
  induction hn : w.size using Nat.strongRecOn generalizing w with
  | _ n ih =>
    cases shows w with
    | failed peek _ view => rw [view, ahead_of_failed peek]
    | ended peek _ view => rw [view, ahead_of_ended peek rfl]
    | line peek held _ view _ shorter =>
      rw [view, ahead_of_line peek (Line.Kind.shape_ne_end _) held, ih _ (hn ▸ shorter) _ rfl]

end Window

namespace Cursor

/-- A cursor before the first line of a text. -/
def ofText (text : String) : Cursor := (Window.ofText text).ahead

theorem ofText_eq_ofItems (text : String) : ofText text =
    ofItems (max (Text.lines text.toList).length 1) false (Reader.ofText text.toList).items := by
  have hlast : (Window.ofText text).lastLine = max (Text.lines text.toList).length 1 :=
    congrArg (max · 1) (Nat.zero_add _)
  rw [ofText, Window.ahead_eq_view, ← hlast]
  rfl

end Cursor

end Gherkin
