import Gherkin.Cursor

/-
  The openings of sections: tag lines, the heading, and the description under it. A production takes
  a cursor and gives what it read with the cursor after it.
-/

namespace Gherkin.Parse

/-- The tags of a tag line. -/
def tagLine? (l : Significant) : Option (List Tag) :=
  match l.line.kind with
  | .tags ts => some ts
  | _ => none

/-- The tags of the tag lines that come next. -/
def tags (c : Cursor) : Except Fault (List Tag × Cursor) := do
  let (ts, rest) := c.span tagLine?
  return (ts.flatten, ← rest.sound)

/-- The line number and the name of a given heading. -/
def heading (h : Heading) (c : Cursor) : Except Fault ((Nat × String) × Cursor) := do
  let (next, rest) ← c.take
  match next.line.kind with
  | .heading k name =>
    if k = h then return ((next.line.number, name), rest)
    else throw ⟨next.line.number, .misplaced (.heading h)⟩
  | _ => throw ⟨next.line.number, .misplaced (.heading h)⟩

/-- The content of a text line that does not come after a blank line. -/
def textLine? (l : Significant) : Option String :=
  match l.line.kind with
  | .text s => if l.afterBlank then none else some s
  | _ => none

/-- The text lines that come next; a blank line may stand before the first one only. -/
def textLines : Cursor → List String × Cursor
  | .line next rest =>
    match next.line.kind with
    | .text s => let (more, after) := rest.span textLine?; (s :: more, after)
    | _ => ([], .line next rest)
  | c => ([], c)

/-- A description: the text lines that come next, joined by spaces. -/
def description (c : Cursor) : Except Fault (Option String × Cursor) := do
  let (parts, rest) := textLines c
  return (if parts = [] then none else some (" ".intercalate parts), ← rest.sound)

theorem bind_eq_ok {ε α β : Type} {x : Except ε α} {f : α → Except ε β} {b : β} :
    (x >>= f) = .ok b ↔ ∃ a, x = .ok a ∧ f a = .ok b := by
  cases x <;> simp [bind, Except.bind]

theorem pure_eq_ok {ε α : Type} {a b : α} : (pure a : Except ε α) = .ok b ↔ a = b := by
  simp [pure, Except.pure]

theorem throw_eq_ok {ε α : Type} {e : ε} {b : α} : (throw e : Except ε α) = .ok b ↔ False := by
  simp [throw, throwThe, MonadExceptOf.throw]

theorem map_eq_ok {ε α β : Type} {x : Except ε α} {f : α → β} {b : β} :
    x.map f = .ok b ↔ ∃ a, x = .ok a ∧ f a = b := by
  cases x <;> simp [Except.map]

theorem map_eq_error {ε α β : Type} {x : Except ε α} {f : α → β} {e : ε} :
    x.map f = .error e ↔ x = .error e := by
  cases x <;> simp [Except.map]

theorem size_of_tags {c rest : Cursor} {ts : List Tag} (h : tags c = .ok (ts, rest)) :
    rest.size ≤ c.size := by
  obtain ⟨d, hd, h⟩ := bind_eq_ok.1 h
  obtain ⟨_, rfl⟩ := Prod.mk.inj (pure_eq_ok.1 h)
  exact Cursor.eq_of_sound hd ▸ Cursor.size_span tagLine? c

theorem size_of_heading {k : Heading} {c rest : Cursor} {p : Nat × String}
    (h : heading k c = .ok (p, rest)) : rest.size < c.size := by
  obtain ⟨⟨next, d⟩, hd, h⟩ := bind_eq_ok.1 h
  have := Cursor.size_of_take hd
  dsimp only at h
  split at h
  · split at h
    · obtain ⟨_, rfl⟩ := Prod.mk.inj (pure_eq_ok.1 h)
      omega
    · exact (throw_eq_ok.1 h).elim
  · exact (throw_eq_ok.1 h).elim

theorem size_textLines (c : Cursor) : (textLines c).2.size ≤ c.size := by
  cases c with
  | ended n => exact Nat.le_refl _
  | failed f => exact Nat.le_refl _
  | line next rest =>
    simp only [textLines]
    split
    · exact Nat.le_succ_of_le (Cursor.size_span textLine? rest)
    · exact Nat.le_refl _

theorem size_of_description {c rest : Cursor} {d : Option String}
    (h : description c = .ok (d, rest)) : rest.size ≤ c.size := by
  obtain ⟨r, hr, h⟩ := bind_eq_ok.1 h
  obtain ⟨_, rfl⟩ := Prod.mk.inj (pure_eq_ok.1 h)
  exact Cursor.eq_of_sound hr ▸ size_textLines c

end Gherkin.Parse
