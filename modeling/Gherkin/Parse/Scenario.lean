import Gherkin.Logged
import Gherkin.Parse.Argument
import Gherkin.Scenario

/-
  Blocks of steps: backgrounds, plain scenarios, and outlines with their examples.
-/

namespace Gherkin.Parse

/-- The steps that come next; text, a row or a fence where a step could stand is a fault. -/
def steps (c : Cursor) : Except Fault (List Step × Cursor) := do
  let next ← c.peek
  match next.shape with
  | .step =>
    match h : step c with
    | .error f => throw f
    | .ok (first, rest) =>
      have : rest.size < c.size := size_of_step h
      let (more, rest) ← steps rest
      return (first :: more, rest)
  | .text | .row | .fence => throw (next.reject .unexpectedLine .step)
  | _ => return ([], c)
termination_by c.size

/-- A block after its heading: description and steps. -/
def block (ts : List Tag) (name : String) (c : Cursor) : Except Fault (Block × Cursor) := do
  let (description, c) ← description c
  let (steps, c) ← steps c
  return (⟨name, description, ts, steps⟩, c)

/-- The line of an examples heading, if one comes next; tags before it are a fault. -/
def examplesAhead? (c : Cursor) : Except Fault (Option Nat) := do
  let next ← c.peek
  if next.shape = .tags ∧ c.headingAfterTags = some .examples then
    throw ⟨next.line, .taggedExamples⟩
  return if next.shape = .heading .examples then some next.line else none

/-- An examples heading and the table under it. -/
def examplesTable (c : Cursor) : Except Fault (Grid × Cursor) := do
  let (_, c) ← heading .examples c
  let next ← c.peek
  if next.shape = .row then grid c
  else throw (next.reject .unexpectedLine .examplesTable)

/-- An examples table has the header of the outline's first one. -/
def checkSameHeader (first : Option (List String)) (g : Grid) : Except Fault Unit :=
  match first with
  | none => .ok ()
  | some first =>
    if first = g.header then .ok () else .error ⟨g.line, .headerDiffers g.header first⟩

theorem size_of_examplesTable {c rest : Cursor} {g : Grid}
    (h : examplesTable c = .ok (g, rest)) : rest.size < c.size := by
  obtain ⟨⟨p, d⟩, hd, h⟩ := bind_eq_ok.1 h
  obtain ⟨next, -, h⟩ := bind_eq_ok.1 h
  split at h
  · exact Nat.lt_of_le_of_lt (size_of_grid h) (size_of_heading hd)
  · exact (throw_eq_ok.1 h).elim

/-- The examples tables that come next; `first` is the header of one read before. -/
def examplesTables (first : Option (List String)) (c : Cursor) :
    Except Fault (List Grid × Cursor) := do
  match ← examplesAhead? c with
  | none => return ([], c)
  | some _ =>
    match h : examplesTable c with
    | .error f => throw f
    | .ok (g, rest) =>
      have : rest.size < c.size := size_of_examplesTable h
      checkSameHeader first g
      let (more, rest) ← examplesTables (some (first.getD g.header)) rest
      return (g :: more, rest)
termination_by c.size

/-- A plain scenario after its heading; examples under it are a fault. -/
def simpleBody (ts : List Tag) (name : String) (c : Cursor) :
    Except Fault (Scenario × Cursor) := do
  let (b, c) ← block ts name c
  match ← examplesAhead? c with
  | some line => throw ⟨line, .examplesInScenario⟩
  | none => return (.simple b, c)

/-- An outline after its heading, which stands on the given line; it has an examples table. -/
def outlineBody (ts : List Tag) (line : Nat) (name : String) (c : Cursor) :
    Except Fault (Scenario × Cursor) := do
  let (b, c) ← block ts name c
  let (grids, c) ← examplesTables none c
  if grids = [] then throw ⟨line, .missingExamples name⟩
  else return (.outline ⟨b, grids.flatMap fun g => g.table.rows⟩, c)

/-- A scenario whose tags were read. -/
def scenario (ts : List Tag) (c : Cursor) : Logged Fault (Scenario × Cursor) := do
  let (next, c) ← Logged.lift c.take
  let line := next.line.number
  match next.line.kind with
  | .heading .scenario name =>
    Logged.report (.scenarioOpened name false line)
    Logged.lift (simpleBody ts name c)
  | .heading .scenarioOutline name =>
    Logged.report (.scenarioOpened name true line)
    Logged.lift (outlineBody ts line name c)
  | _ => Logged.lift (throw ⟨line, .misplaced .scenario⟩)

/-- A background whose tags were read. -/
def background (ts : List Tag) (c : Cursor) : Logged Fault (Block × Cursor) := do
  let ((line, name), c) ← Logged.lift (heading .background c)
  Logged.report (.backgroundOpened line)
  Logged.lift (block ts name c)

theorem size_of_steps {c rest : Cursor} {ss : List Step} (h : steps c = .ok (ss, rest)) :
    rest.size ≤ c.size := by
  induction hn : c.size using Nat.strongRecOn generalizing c ss with
  | _ n ih =>
    rw [steps] at h
    obtain ⟨next, -, h⟩ := bind_eq_ok.1 h
    split at h
    · split at h
      · exact (throw_eq_ok.1 h).elim
      · rename_i first d hd
        have h₁ := size_of_step hd
        obtain ⟨⟨more, e⟩, he, h⟩ := bind_eq_ok.1 h
        obtain ⟨_, rfl⟩ := Prod.mk.inj (pure_eq_ok.1 h)
        have := ih d.size (by omega) he rfl
        exact Nat.le_of_lt (Nat.lt_of_le_of_lt this (hn ▸ h₁))
    iterate 3 exact (throw_eq_ok.1 h).elim
    · obtain ⟨_, rfl⟩ := Prod.mk.inj (pure_eq_ok.1 h)
      exact Nat.le_of_eq hn

theorem size_of_block {ts : List Tag} {name : String} {c rest : Cursor} {b : Block}
    (h : block ts name c = .ok (b, rest)) : rest.size ≤ c.size := by
  obtain ⟨⟨text, d⟩, hd, h⟩ := bind_eq_ok.1 h
  obtain ⟨⟨ss, e⟩, he, h⟩ := bind_eq_ok.1 h
  obtain ⟨_, rfl⟩ := Prod.mk.inj (pure_eq_ok.1 h)
  exact Nat.le_trans (size_of_steps he) (size_of_description hd)

theorem size_of_examplesTables {first : Option (List String)} {c rest : Cursor} {gs : List Grid}
    (h : examplesTables first c = .ok (gs, rest)) : rest.size ≤ c.size := by
  induction hn : c.size using Nat.strongRecOn generalizing c first gs with
  | _ n ih =>
    rw [examplesTables] at h
    obtain ⟨ahead, -, h⟩ := bind_eq_ok.1 h
    split at h
    · obtain ⟨_, rfl⟩ := Prod.mk.inj (pure_eq_ok.1 h)
      exact Nat.le_of_eq hn
    · split at h
      · exact (throw_eq_ok.1 h).elim
      · rename_i g d hd
        have h₁ := size_of_examplesTable hd
        obtain ⟨_, -, h⟩ := bind_eq_ok.1 h
        obtain ⟨⟨more, e⟩, he, h⟩ := bind_eq_ok.1 h
        obtain ⟨_, rfl⟩ := Prod.mk.inj (pure_eq_ok.1 h)
        have := ih d.size (by omega) he rfl
        exact Nat.le_of_lt (Nat.lt_of_le_of_lt this (hn ▸ h₁))

theorem size_of_simpleBody {ts : List Tag} {name : String} {c rest : Cursor} {s : Scenario}
    (h : simpleBody ts name c = .ok (s, rest)) : rest.size ≤ c.size := by
  obtain ⟨⟨b, d⟩, hd, h⟩ := bind_eq_ok.1 h
  obtain ⟨ahead, -, h⟩ := bind_eq_ok.1 h
  split at h
  · exact (throw_eq_ok.1 h).elim
  · obtain ⟨_, rfl⟩ := Prod.mk.inj (pure_eq_ok.1 h)
    exact size_of_block hd

theorem size_of_outlineBody {ts : List Tag} {line : Nat} {name : String} {c rest : Cursor}
    {s : Scenario} (h : outlineBody ts line name c = .ok (s, rest)) : rest.size ≤ c.size := by
  obtain ⟨⟨b, d⟩, hd, h⟩ := bind_eq_ok.1 h
  obtain ⟨⟨gs, e⟩, he, h⟩ := bind_eq_ok.1 h
  dsimp only at h
  split at h
  · exact (throw_eq_ok.1 h).elim
  · obtain ⟨_, rfl⟩ := Prod.mk.inj (pure_eq_ok.1 h)
    exact Nat.le_trans (size_of_examplesTables he) (size_of_block hd)

theorem size_of_scenario {ts : List Tag} {c rest : Cursor} {s : Scenario}
    (h : (scenario ts c).result = .ok (s, rest)) : rest.size < c.size := by
  rw [scenario, Logged.result_bind] at h
  obtain ⟨⟨next, d⟩, hd, h⟩ := bind_eq_ok.1 h
  have hlt := Nat.lt_of_lt_of_eq (Nat.lt_succ_self d.size) (Cursor.size_of_take hd).symm
  dsimp only at h
  split at h
  · rw [Logged.result_bind] at h
    obtain ⟨_, -, h⟩ := bind_eq_ok.1 h
    exact Nat.lt_of_le_of_lt (size_of_simpleBody h) hlt
  · rw [Logged.result_bind] at h
    obtain ⟨_, -, h⟩ := bind_eq_ok.1 h
    exact Nat.lt_of_le_of_lt (size_of_outlineBody h) hlt
  · exact (throw_eq_ok.1 h).elim

end Gherkin.Parse
