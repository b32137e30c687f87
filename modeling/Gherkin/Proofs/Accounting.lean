import Gherkin.Proofs.Acceptance
import Gherkin.Proofs.Bindings
import Mathlib.Data.List.ReduceOption

/-
  Every line of a text is accounted for. What the lines of a text say, kind by kind, is a `Tally`;
  tallies are added up from the lines of a production to those of the document, and the tally of a
  text that is read as a feature is the feature's, in order and with nothing left over.
-/

namespace Gherkin.Grammar

open Line

/-! ## Views of the lines of a text -/

/-- The tags of the tag lines. -/
def tagsOf (ks : List Kind) : List Tag :=
  ks.flatMap fun
    | .tags ts => ts
    | _ => []

/-- Headings, step lines and rows. -/
def inSkeleton : Kind → Bool
  | .heading _ _ | .step _ _ | .row _ => true
  | _ => false

/-- The headings, the step lines and the rows. -/
def skeleton (ks : List Kind) : List Kind := ks.filter inSkeleton

/-- The text lines outside doc strings, with a mark for each heading between them; `inside` tells
whether the first line is captured by a doc string. -/
def prose (inside : Bool) : List Kind → List (Option String)
  | [] => []
  | .fence :: ks => prose (!inside) ks
  | .heading _ _ :: ks => none :: prose inside ks
  | .text s :: ks => if inside then prose inside ks else some s :: prose inside ks
  | _ :: ks => prose inside ks

/-- The text lines outside doc strings, section by section; first those before any heading. -/
def sectionTexts (ks : List Kind) : List (List String) :=
  ((prose false ks).splitOn none).map List.reduceOption

/-- The doc strings, where `captured` are the lines so far of one that is open. -/
def docStrings (captured : Option (List String)) : List Kind → List String
  | [] => []
  | .fence :: ks =>
    match captured with
    | none => docStrings (some []) ks
    | some ss => "\n".intercalate ss :: docStrings none ks
  | .text s :: ks => docStrings (captured.map (· ++ [s])) ks
  | _ :: ks => docStrings captured ks

/-- The headings with their names. -/
def headings (ks : List Kind) : List (Heading × String) :=
  ks.filterMap fun
    | .heading h name => some (h, name)
    | _ => none

/-- The step lines. -/
def stepLines (ks : List Kind) : List (StepKeyword × String) :=
  ks.filterMap fun
    | .step keyword text => some (keyword, text)
    | _ => none

/-- The cells of the rows. -/
def rowLines (ks : List Kind) : List (List String) :=
  ks.filterMap fun
    | .row cells => some cells
    | _ => none

/-- The description that text lines spell. -/
def describe (parts : List String) : Option String :=
  if parts = [] then none else some (" ".intercalate parts)

/-! ## Tallies -/

/-- What lines say. -/
structure Tally where
  tags : List Tag
  skeleton : List Kind
  prose : List (Option String)
  docStrings : List String

namespace Tally

instance : Append Tally where
  append t u := ⟨t.tags ++ u.tags, t.skeleton ++ u.skeleton, t.prose ++ u.prose,
    t.docStrings ++ u.docStrings⟩

/-- What lines outside doc strings say. -/
def ofKinds (ks : List Kind) : Tally := ⟨tagsOf ks, Grammar.skeleton ks, Grammar.prose false ks,
  Grammar.docStrings none ks⟩

theorem mk_append (a b : List Tag) (c d : List Kind) (e f : List (Option String))
    (g h : List String) :
    (⟨a, c, e, g⟩ : Tally) ++ ⟨b, d, f, h⟩ = ⟨a ++ b, c ++ d, e ++ f, g ++ h⟩ := rfl

theorem append_assoc (t u v : Tally) : t ++ u ++ v = t ++ (u ++ v) := by
  cases t
  cases u
  cases v
  simp only [mk_append, List.append_assoc]

end Tally

/-- The lines say this, and what follows them is read as it stands. -/
def Tallies (ls : List Significant) (t : Tally) : Prop :=
  ∀ ks, Tally.ofKinds (kinds ls ++ ks) = t ++ Tally.ofKinds ks

theorem Tallies.nil : Tallies [] ⟨[], [], [], []⟩ := fun _ => rfl

theorem Tallies.append {ls ms : List Significant} {t u : Tally} (hl : Tallies ls t)
    (hm : Tallies ms u) : Tallies (ls ++ ms) (t ++ u) := by
  intro ks
  rw [kinds_append, List.append_assoc, hl, hm, Tally.append_assoc]

/-! ## Lines -/

/-- What one line says that is no fence. -/
def Tally.ofLine : Kind → Tally
  | .tags ts => ⟨ts, [], [], []⟩
  | .heading h name => ⟨[], [.heading h name], [none], []⟩
  | .step keyword text => ⟨[], [.step keyword text], [], []⟩
  | .row cells => ⟨[], [.row cells], [], []⟩
  | .text s => ⟨[], [], [some s], []⟩
  | .blank | .comment | .fence => ⟨[], [], [], []⟩

theorem tallies_line {l : Significant} {k : Kind} (h : l.line.kind = k) (hk : k ≠ .fence) :
    Tallies [l] (Tally.ofLine k) := by
  intro ks
  rw [kinds_cons, h]
  cases k with
  | fence => exact absurd rfl hk
  | _ => rfl

theorem tallies_tagLines {ls : List Significant} {tss : List (List Tag)}
    (h : List.Forall₂ TagLine ls tss) : Tallies ls ⟨tss.flatten, [], [], []⟩ := by
  induction h with
  | nil => exact .nil
  | cons hl _ ih => exact (tallies_line hl (by simp)).append ih

theorem tallies_textLines {ls : List Significant} {ss : List String}
    (h : List.Forall₂ (Directly TextLine) ls ss) : Tallies ls ⟨[], [], ss.map some, []⟩ := by
  induction h with
  | nil => exact .nil
  | cons hl _ ih => exact (tallies_line hl.1 (by simp)).append ih

theorem tallies_rowLines {ls : List Significant} {rows : List (List String)}
    (h : List.Forall₂ (Directly RowLine) ls rows) : Tallies ls ⟨[], rows.map .row, [], []⟩ := by
  induction h with
  | nil => exact .nil
  | cons hl _ ih => exact (tallies_line hl.1 (by simp)).append ih

/-! ## Steps -/

theorem tallies_description {ls : List Significant} {d : Option String}
    (h : DescriptionLines ls d) :
    ∃ ss, describe ss = d ∧ Tallies ls ⟨[], [], ss.map some, []⟩ := by
  cases h with
  | absent => exact ⟨[], rfl, .nil⟩
  | @present l ls s ss first more =>
    exact ⟨s :: ss, if_neg (List.cons_ne_nil _ _),
      (tallies_line first (by simp)).append (tallies_textLines more)⟩

/-- The row lines of a table: the header and the data. -/
def Rows.lines (r : Rows) : List Kind := (r.header :: r.data).map .row

theorem tallies_table {ls : List Significant} {r : Rows} (h : TableLines ls r) :
    Tallies ls ⟨[], r.lines, [], []⟩ := by
  obtain ⟨first, more⟩ := h
  exact (tallies_line first (by simp)).append (tallies_rowLines more)

theorem docStrings_captured {ls : List Significant} {ss : List String}
    (h : List.Forall₂ TextLine ls ss) (before : List String) (ks : List Kind) :
    docStrings (some before) (kinds ls ++ .fence :: ks) =
      "\n".intercalate (before ++ ss) :: docStrings none ks := by
  induction h generalizing before with
  | nil => rw [List.append_nil]; rfl
  | @cons l s ls ss hl _ ih =>
    rw [kinds_cons, show l.line.kind = .text s from hl, List.cons_append]
    show docStrings (some (before ++ [s])) _ = _
    rw [ih, List.append_assoc, List.singleton_append]

theorem ofKinds_captured {ls : List Significant} {ss : List String}
    (h : List.Forall₂ TextLine ls ss) (ks : List Kind) :
    tagsOf (kinds ls ++ .fence :: ks) = tagsOf ks ∧
      skeleton (kinds ls ++ .fence :: ks) = skeleton ks ∧
      prose true (kinds ls ++ .fence :: ks) = prose false ks := by
  induction h with
  | nil => exact ⟨rfl, rfl, rfl⟩
  | @cons l s ls ss hl _ ih =>
    rw [kinds_cons, show l.line.kind = .text s from hl, List.cons_append]
    exact ih

theorem tallies_docString {ls : List Significant} {s : String} (h : DocStringLines ls s) :
    Tallies ls ⟨[], [], [], [s]⟩ := by
  obtain @⟨opening, closing, ls, ss, first, captured, last⟩ := h
  intro ks
  obtain ⟨htags, hskeleton, hprose⟩ := ofKinds_captured captured ks
  have hdocs := docStrings_captured captured [] ks
  rw [kinds_cons, kinds_append, kinds_cons, first, last, List.cons_append, List.append_assoc]
  show Tally.mk (tagsOf (_ ++ .fence :: ks)) (skeleton (_ ++ .fence :: ks))
    (prose true (_ ++ .fence :: ks)) (docStrings (some []) (_ ++ .fence :: ks)) = _
  rw [htags, hskeleton, hprose, hdocs]
  rfl

/-- The rows of a step's table: its header and the values of its rows. -/
def tableRows (s : Step) : List (List String) :=
  match s.table? with
  | some t => t.header :: t.rows.map Bindings.values
  | none => []

/-- The step line and the row lines of a step. -/
def stepKinds (s : Step) : List Kind := .step s.keyword s.text :: (tableRows s).map .row

theorem values_table {ls : List Significant} {r : Rows} (h : TableLines ls r) :
    r.table.rows.map Bindings.values = r.data := by
  obtain @⟨_, _, header, data, -, -, -, distinct, even⟩ := h
  rw [Rows.table, Table.ofCells, List.map_map]
  have hvalues : ∀ row ∈ data, Bindings.values (Bindings.ofList (header.zip row)) = row :=
    fun row hrow => Bindings.values_ofList_zip distinct (even row hrow)
  exact (List.map_congr_left hvalues).trans (List.map_id _)

theorem tallies_stepLines {ls : List Significant} {s : Step} (h : StepLines ls s) :
    Tallies ls ⟨[], stepKinds s, [], s.docString?.toList⟩ := by
  obtain ⟨first, attached⟩ := h
  cases attached with
  | absent => exact tallies_line first (by simp)
  | table _ lines =>
    have htable := (tallies_line first (by simp)).append (tallies_table lines)
    rw [Rows.lines, ← values_table lines] at htable
    exact htable
  | docString _ lines => exact (tallies_line first (by simp)).append (tallies_docString lines)

theorem tallies_steps {ls : List Significant} {steps : List Step} (h : Star StepLines ls steps) :
    Tallies ls ⟨[], steps.flatMap stepKinds, [], steps.flatMap fun s => s.docString?.toList⟩ := by
  induction h with
  | nil => exact .nil
  | cons first _ ih => exact (tallies_stepLines first).append ih

/-! ## Sections -/

/-- The free text of sections, one after the other, spells these descriptions. -/
def Describes (marks : List (Option String)) (descriptions : List (Option String)) : Prop :=
  ∃ parts : List (List String), marks = parts.flatMap (fun ss => none :: ss.map some) ∧
    parts.map describe = descriptions

theorem Describes.nil : Describes [] [] := ⟨[], rfl, rfl⟩

theorem Describes.append {m n d e : List (Option String)} (hm : Describes m d)
    (hn : Describes n e) : Describes (m ++ n) (d ++ e) := by
  obtain ⟨p, rfl, rfl⟩ := hm
  obtain ⟨q, rfl, rfl⟩ := hn
  exact ⟨p ++ q, List.flatMap_append.symm, List.map_append⟩

/-- The line of a heading, and the description and the steps under it. -/
theorem tallies_section {l : Significant} {ls : List Significant} {k : Heading} {name : String}
    {description : Option String} {steps : List Step} (first : l.line.kind = .heading k name)
    (body : BodyLines ls description steps) :
    ∃ marks, Describes marks [description] ∧
      Tallies (l :: ls) ⟨[], .heading k name :: steps.flatMap stepKinds, marks,
        steps.flatMap fun s => s.docString?.toList⟩ := by
  obtain ⟨opening, rest⟩ := body
  obtain ⟨ss, hss, ht⟩ := tallies_description opening
  refine ⟨none :: ss.map some, ⟨[ss], ?_, ?_⟩, ?_⟩
  · simp
  · rw [← hss]
    rfl
  · have := (tallies_line first (by simp)).append (ht.append (tallies_steps rest))
    simpa [Tally.ofLine, Tally.mk_append] using this

/-- An examples block of a text: the name on its heading, and its cells. -/
structure Examples extends Rows where
  name : String

/-- The lines of an examples block. -/
def Examples.kinds (e : Examples) : List Kind := .heading .examples e.name :: e.toRows.lines

theorem tallies_examples {ls : List Significant} {tables : List Rows}
    (h : Star ExamplesLines ls tables) :
    ∃ es : List Examples, es.map Examples.toRows = tables ∧
      Tallies ls ⟨[], es.flatMap Examples.kinds, es.map fun _ => none, []⟩ := by
  induction h with
  | nil => exact ⟨[], rfl, .nil⟩
  | @cons ls ms r vs first _ ih =>
    obtain ⟨es, rfl, hes⟩ := ih
    cases first with
    | @examples l ls name _ first table =>
      exact ⟨⟨r, name⟩ :: es, rfl,
        ((tallies_line first (by simp)).append (tallies_table table)).append hes⟩

theorem describes_examples (es : List Examples) :
    Describes (es.map fun _ => none) (es.map fun _ => none) := by
  refine ⟨es.map fun _ => [], ?_, ?_⟩
  · induction es with
    | nil => rfl
    | cons e es ih => rw [List.map_cons, ih]; rfl
  · rw [List.map_map]
    rfl

/-- A row that binds the names of a header to cells under it. -/
structure Binds (row : Bindings) (header cells : List String) : Prop where
  width : cells.length = header.length
  keys : row.keys = header
  get : ∀ (i : Nat) (hi : i < header.length), row.get? header[i] = cells[i]?

/-- The examples of a scenario are the rows of these blocks: a plain scenario has no block, an
outline has one at least. -/
def Exhibits : Scenario → List Examples → Prop
  | .simple _, es => es = []
  | .outline o, es => es ≠ [] ∧
    List.Forall₂ (fun row (p : List String × List String) => Binds row p.1 p.2) o.examples
      (es.flatMap fun e => e.data.map fun cells => (e.header, cells))

def headingOf : Scenario → Heading
  | .simple _ => .scenario
  | .outline _ => .scenarioOutline

/-- The headings, the step lines and the rows of a scenario with these examples blocks. -/
def scenarioKinds (s : Scenario) (es : List Examples) : List Kind :=
  .heading (headingOf s) s.name :: (s.steps.flatMap stepKinds ++ es.flatMap Examples.kinds)

theorem Star.forall {α : Type} {P : List Significant → α → Prop} {V : α → Prop}
    (hV : ∀ {ls : List Significant} {v : α}, P ls v → V v) {ls : List Significant} {vs : List α}
    (h : Star P ls vs) : ∀ v ∈ vs, V v := by
  induction h with
  | nil => simp
  | cons first _ ih => exact List.forall_mem_cons.2 ⟨hV first, ih⟩

theorem binds_examples {es : List Examples}
    (h : ∀ e ∈ es, e.header.Nodup ∧ ∀ row ∈ e.data, row.length = e.header.length) :
    List.Forall₂ (fun row (p : List String × List String) => Binds row p.1 p.2)
      ((es.map Examples.toRows).flatMap fun r => r.table.rows)
      (es.flatMap fun e => e.data.map fun cells => (e.header, cells)) := by
  induction es with
  | nil => exact .nil
  | cons e es ih =>
    obtain ⟨⟨distinct, even⟩, hes⟩ := List.forall_mem_cons.1 h
    refine List.rel_append ?_ (ih hes)
    show List.Forall₂ _ (e.data.map fun row => Bindings.ofList (e.header.zip row)) _
    rw [List.forall₂_map_left_iff, List.forall₂_map_right_iff, List.forall₂_same]
    intro row hrow
    exact ⟨even row hrow, Bindings.keys_ofList_zip distinct (even row hrow),
      fun i hi => Bindings.get?_ofList_zip distinct (even row hrow) hi⟩

theorem tallies_scenario {tags : List Tag} {ls : List Significant} {s : Scenario}
    (h : ScenarioLines tags ls s) :
    s.tags = tags ∧ ∃ es marks, Exhibits s es ∧
      Describes marks (s.description :: es.map fun _ => none) ∧
      Tallies ls ⟨[], scenarioKinds s es, marks, s.steps.flatMap fun t => t.docString?.toList⟩ := by
  cases h with
  | simple first body =>
    obtain ⟨marks, hmarks, ht⟩ := tallies_section first body
    refine ⟨rfl, [], marks, rfl, hmarks, ?_⟩
    rw [scenarioKinds, List.flatMap_nil, List.append_nil]
    exact ht
  | @outline l ls es' name description steps tables header first body examples nonempty same =>
    obtain ⟨marks, hmarks, ht⟩ := tallies_section first body
    obtain ⟨es, rfl, hes⟩ := tallies_examples examples
    refine ⟨rfl, es, marks ++ es.map fun _ => none, ⟨by simpa using nonempty, ?_⟩,
      hmarks.append (describes_examples es), ?_⟩
    · have hrows := Star.forall (V := fun r : Rows =>
        r.header.Nodup ∧ ∀ row ∈ r.data, row.length = r.header.length)
        (by rintro _ _ ⟨-, -, -, -, distinct, even⟩; exact ⟨distinct, even⟩) examples
      exact binds_examples fun e he => hrows e.toRows (List.mem_map_of_mem he)
    · have := ht.append hes
      rw [Tally.mk_append, List.append_nil, List.append_nil] at this
      exact this

/-- The heading, the step lines and the rows of a background. -/
def backgroundKinds (b : Block) : List Kind :=
  .heading .background b.name :: b.steps.flatMap stepKinds

theorem tallies_background {ls : List Significant} {background : Option Block}
    (h : Opt BackgroundLines ls background) :
    ∃ marks, Describes marks (background.toList.map Block.description) ∧
      Tallies ls ⟨background.toList.flatMap Block.tags, background.toList.flatMap backgroundKinds,
        marks, (background.toList.flatMap Block.steps).flatMap fun s => s.docString?.toList⟩ := by
  cases h with
  | none => exact ⟨[], .nil, .nil⟩
  | some part =>
    obtain ⟨before, first, body⟩ := part
    obtain ⟨marks, hmarks, ht⟩ := tallies_section first body
    refine ⟨marks, hmarks, ?_⟩
    have := (tallies_tagLines before).append ht
    simpa [Tally.mk_append, backgroundKinds] using this

/-- Scenarios with their tags, each with its examples blocks. -/
theorem tallies_scenarios {ls : List Significant} {ss : List Scenario}
    (h : Star TaggedLines ls ss) :
    ∃ (ess : List (List Examples)) (marks : List (Option String)), List.Forall₂ Exhibits ss ess ∧
      Describes marks ((ss.zip ess).flatMap fun p => p.1.description :: p.2.map fun _ => none) ∧
      Tallies ls ⟨ss.flatMap Scenario.tags, (ss.zip ess).flatMap fun p => scenarioKinds p.1 p.2,
        marks, (ss.flatMap Scenario.steps).flatMap fun s => s.docString?.toList⟩ := by
  induction h with
  | nil => exact ⟨[], [], .nil, .nil, .nil⟩
  | cons first _ ih =>
    obtain ⟨ess, later, hess, hlater, hrest⟩ := ih
    obtain ⟨before, scenario⟩ := first
    obtain ⟨htags, es, marks, hes, hmarks, ht⟩ := tallies_scenario scenario
    refine ⟨es :: ess, marks ++ later, .cons hes hess, hmarks.append hlater, ?_⟩
    have := ((tallies_tagLines before).append ht).append hrest
    rw [← htags] at this
    simpa [Tally.mk_append, List.flatMap_append] using this

/-- The steps of the background and of the scenarios. -/
def stepsOf (f : Feature) : List Step :=
  f.background.toList.flatMap Block.steps ++ f.scenarios.flatMap Scenario.steps

theorem tallies_document {ls : List Significant} {f : Feature} (h : DocumentLines ls f) :
    ∃ (ess : List (List Examples)) (marks : List (Option String)),
      List.Forall₂ Exhibits f.scenarios ess ∧
      Describes marks (f.description :: (f.background.toList.map Block.description ++
        (f.scenarios.zip ess).flatMap fun p => p.1.description :: p.2.map fun _ => none)) ∧
      Tallies ls ⟨f.tags ++ (f.background.toList.flatMap Block.tags ++
          f.scenarios.flatMap Scenario.tags),
        .heading .feature f.name :: (f.background.toList.flatMap backgroundKinds ++
          (f.scenarios.zip ess).flatMap fun p => scenarioKinds p.1 p.2),
        marks, (stepsOf f).flatMap fun s => s.docString?.toList⟩ := by
  obtain ⟨before, first, opening, steps, rest, -⟩ := h
  obtain ⟨ss, hss, hopening⟩ := tallies_description opening
  obtain ⟨marks, hmarks, hbackground⟩ := tallies_background steps
  obtain ⟨ess, later, hess, hlater, hscenarios⟩ := tallies_scenarios rest
  have hfirst : Describes (none :: ss.map some) [describe ss] := ⟨[ss], by simp, rfl⟩
  refine ⟨ess, none :: ss.map some ++ (marks ++ later), hess, ?_, ?_⟩
  · rw [← hss]
    exact hfirst.append (hmarks.append hlater)
  · have := (tallies_tagLines before).append
      ((tallies_line first (by simp)).append (hopening.append (hbackground.append hscenarios)))
    simpa [Tally.ofLine, Tally.mk_append, stepsOf, List.flatMap_append] using this

/-! ## Blank lines and comments -/

/-- Two sequences of kinds say the same, from any line on. -/
structure Agree (ks ms : List Kind) : Prop where
  tags : tagsOf ks = tagsOf ms
  skeleton : skeleton ks = skeleton ms
  prose : ∀ inside, prose inside ks = prose inside ms
  docStrings : ∀ captured, docStrings captured ks = docStrings captured ms

theorem Agree.cons {ks ms : List Kind} (h : Agree ks ms) (k : Kind) :
    Agree (k :: ks) (k :: ms) := by
  refine ⟨?_, ?_, fun inside => ?_, fun captured => ?_⟩
  · simp only [tagsOf, List.flatMap_cons]
    exact congrArg _ h.tags
  · have := h.skeleton
    simp only [Grammar.skeleton] at this
    simp only [Grammar.skeleton, List.filter_cons, this]
  · cases k <;> simp [Grammar.prose, h.prose]
  · cases k <;> simp [Grammar.docStrings, h.docStrings]

theorem agree_significant (ls : List Line) (blank : Bool) :
    Agree (ls.map Line.kind) (kinds (significant blank ls)) := by
  induction ls generalizing blank with
  | nil => exact ⟨rfl, rfl, fun _ => rfl, fun _ => rfl⟩
  | cons l ls ih =>
    rw [List.map_cons]
    unfold significant
    split
    · rename_i hk
      obtain ⟨h₁, h₂, h₃, h₄⟩ := ih true
      rw [hk]
      exact ⟨h₁, h₂, h₃, h₄⟩
    · rename_i hk
      obtain ⟨h₁, h₂, h₃, h₄⟩ := ih blank
      rw [hk]
      exact ⟨h₁, h₂, h₃, h₄⟩
    · exact (ih false).cons l.kind

/-! ## The account of a text -/

/-- A view that sees headings, step lines and rows only. -/
theorem filterMap_skeleton {α : Type} {f : Kind → Option α}
    (hf : ∀ k, inSkeleton k = false → f k = none) (ks : List Kind) :
    (skeleton ks).filterMap f = ks.filterMap f := by
  induction ks with
  | nil => rfl
  | cons k ks ih =>
    unfold skeleton at ih ⊢
    cases hk : inSkeleton k with
    | true => rw [List.filter_cons_of_pos hk, List.filterMap_cons, List.filterMap_cons, ih]
    | false => rw [List.filter_cons_of_neg (by simp [hk]), List.filterMap_cons_none (hf k hk), ih]

theorem intercalate_marks (first : List (Option String)) (rest : List (List (Option String))) :
    [none].intercalate (first :: rest) = first ++ rest.flatMap fun ms => none :: ms := by
  induction rest generalizing first with
  | nil => simp
  | cons ms rest ih => simp [ih]

theorem Describes.splitOn {marks d : List (Option String)} (h : Describes marks d) :
    ((marks.splitOn none).map List.reduceOption).map describe = none :: d := by
  obtain ⟨parts, rfl, rfl⟩ := h
  have hmarks : (parts.flatMap fun ss => none :: ss.map some) =
      [none].intercalate ([] :: parts.map (List.map some)) := by
    rw [intercalate_marks, List.nil_append, List.flatMap_map]
  have hfree : ∀ ms ∈ [] :: parts.map (List.map (some (α := String))), none ∉ ms := by
    simp
  rw [hmarks, List.splitOn_intercalate none hfree (List.cons_ne_nil _ _)]
  have hparts : ∀ ss : List String, (ss.map some).reduceOption = ss := by
    intro ss
    induction ss with
    | nil => rfl
    | cons s ss ih => rw [List.map_cons, List.reduceOption_cons_of_some, ih]
  rw [List.map_cons, List.map_cons, List.map_map, List.map_map]
  exact congrArg (none :: ·) (List.map_congr_left fun ss _ => congrArg describe (hparts ss))

/-- The lines of a text, in order, are those of a feature whose scenarios have these examples
blocks. -/
structure Accounts (f : Feature) (examples : List (List Examples)) (ks : List Kind) : Prop where
  exhibits : List.Forall₂ Exhibits f.scenarios examples
  tags : tagsOf ks = f.tags ++ (f.background.toList.flatMap Block.tags ++
    f.scenarios.flatMap Scenario.tags)
  skeleton : skeleton ks = .heading .feature f.name ::
    (f.background.toList.flatMap backgroundKinds ++
      (f.scenarios.zip examples).flatMap fun p => scenarioKinds p.1 p.2)
  headings : headings ks = (.feature, f.name) ::
    (f.background.toList.map (fun b => (.background, b.name)) ++
      (f.scenarios.zip examples).flatMap fun p =>
        (headingOf p.1, p.1.name) :: p.2.map fun e => (.examples, e.name))
  steps : stepLines ks = (stepsOf f).map fun s => (s.keyword, s.text)
  rows : rowLines ks = (f.background.toList.flatMap Block.steps).flatMap tableRows ++
    (f.scenarios.zip examples).flatMap fun p =>
      p.1.steps.flatMap tableRows ++ p.2.flatMap fun e => e.header :: e.data
  descriptions : (sectionTexts ks).map describe = none :: f.description ::
    (f.background.toList.map Block.description ++
      (f.scenarios.zip examples).flatMap fun p => p.1.description :: p.2.map fun _ => none)
  docStrings : docStrings none ks = (stepsOf f).filterMap Step.docString?

/-! ### Views of the skeleton -/

section Views

/-- What a view sees of parts is what it sees of each. -/
theorem filterMap_flatMap_of {α β : Type} {f : Kind → Option β} {g : α → List Kind}
    {v : α → List β} (h : ∀ a, (g a).filterMap f = v a) (l : List α) :
    (l.flatMap g).filterMap f = l.flatMap v := by
  rw [List.filterMap_flatMap]
  exact List.flatMap_congr fun a _ => h a

variable (steps : List Step) (es : List Examples) (s : Scenario)

theorem headings_steps : headings (steps.flatMap stepKinds) = [] := by
  have hstep : ∀ t, headings (stepKinds t) = [] := fun t => by
    simp [headings, stepKinds, List.filterMap_map]
  exact (filterMap_flatMap_of hstep steps).trans (by simp)

theorem stepLines_steps :
    stepLines (steps.flatMap stepKinds) = steps.map fun t => (t.keyword, t.text) := by
  have hstep : ∀ t, stepLines (stepKinds t) = [(t.keyword, t.text)] := fun t => by
    simp [stepLines, stepKinds, List.filterMap_map]
  exact (filterMap_flatMap_of hstep steps).trans List.map_eq_flatMap.symm

theorem rowLines_steps : rowLines (steps.flatMap stepKinds) = steps.flatMap tableRows := by
  have hstep : ∀ t, rowLines (stepKinds t) = tableRows t := fun t => by
    simp [rowLines, stepKinds, List.filterMap_map]
  exact filterMap_flatMap_of hstep steps

theorem headings_examples :
    headings (es.flatMap Examples.kinds) = es.map fun e => (.examples, e.name) := by
  have hblock : ∀ e, headings (Examples.kinds e) = [(.examples, e.name)] := fun e => by
    simp [headings, Examples.kinds, Rows.lines, List.filterMap_map]
  exact (filterMap_flatMap_of hblock es).trans List.map_eq_flatMap.symm

theorem stepLines_examples : stepLines (es.flatMap Examples.kinds) = [] := by
  have hblock : ∀ e, stepLines (Examples.kinds e) = [] := fun e => by
    simp [stepLines, Examples.kinds, Rows.lines, List.filterMap_map]
  exact (filterMap_flatMap_of hblock es).trans (by simp)

theorem rowLines_examples :
    rowLines (es.flatMap Examples.kinds) = es.flatMap fun e => e.header :: e.data := by
  have hblock : ∀ e, rowLines (Examples.kinds e) = e.header :: e.data := fun e => by
    simp [rowLines, Examples.kinds, Rows.lines, List.filterMap_map]
  exact filterMap_flatMap_of hblock es

theorem headings_scenario :
    headings (scenarioKinds s es) =
      (headingOf s, s.name) :: es.map fun e => (.examples, e.name) := by
  calc headings (scenarioKinds s es)
      = (headingOf s, s.name) ::
          (headings (s.steps.flatMap stepKinds) ++ headings (es.flatMap Examples.kinds)) :=
        congrArg (_ :: ·) List.filterMap_append
    _ = _ := by rw [headings_steps, headings_examples, List.nil_append]

theorem stepLines_scenario :
    stepLines (scenarioKinds s es) = s.steps.map fun t => (t.keyword, t.text) := by
  calc stepLines (scenarioKinds s es)
      = stepLines (s.steps.flatMap stepKinds) ++ stepLines (es.flatMap Examples.kinds) :=
        List.filterMap_append
    _ = _ := by rw [stepLines_steps, stepLines_examples, List.append_nil]

theorem rowLines_scenario :
    rowLines (scenarioKinds s es) =
      s.steps.flatMap tableRows ++ es.flatMap fun e => e.header :: e.data := by
  calc rowLines (scenarioKinds s es)
      = rowLines (s.steps.flatMap stepKinds) ++ rowLines (es.flatMap Examples.kinds) :=
        List.filterMap_append
    _ = _ := by rw [rowLines_steps, rowLines_examples]

theorem headings_background (b : Block) :
    headings (backgroundKinds b) = [(.background, b.name)] :=
  congrArg (_ :: ·) (headings_steps b.steps)

theorem stepLines_background (b : Block) :
    stepLines (backgroundKinds b) = b.steps.map fun t => (t.keyword, t.text) :=
  stepLines_steps b.steps

theorem rowLines_background (b : Block) :
    rowLines (backgroundKinds b) = b.steps.flatMap tableRows := rowLines_steps b.steps

theorem headings_skeleton (ks : List Kind) : headings (skeleton ks) = headings ks :=
  filterMap_skeleton (by rintro ⟨⟩ hk <;> first | rfl | cases hk) ks

theorem stepLines_skeleton (ks : List Kind) : stepLines (skeleton ks) = stepLines ks :=
  filterMap_skeleton (by rintro ⟨⟩ hk <;> first | rfl | cases hk) ks

theorem rowLines_skeleton (ks : List Kind) : rowLines (skeleton ks) = rowLines ks :=
  filterMap_skeleton (by rintro ⟨⟩ hk <;> first | rfl | cases hk) ks

end Views

theorem accounts_document {ls : List Line} {f : Feature}
    (h : DocumentLines (significant false ls) f) :
    ∃ examples, Accounts f examples (ls.map Line.kind) := by
  obtain ⟨examples, marks, hexamples, hmarks, ht⟩ := tallies_document h
  obtain ⟨htags, hskeleton, hprose, hdocs⟩ := agree_significant ls false
  have hsum := ht []
  rw [List.append_nil] at hsum
  have hs : skeleton (ls.map Line.kind) = .heading .feature f.name ::
      (f.background.toList.flatMap backgroundKinds ++
        (f.scenarios.zip examples).flatMap fun p => scenarioKinds p.1 p.2) := by
    rw [hskeleton]
    exact (congrArg Tally.skeleton hsum).trans (List.append_nil _)
  refine ⟨examples, hexamples, ?_, hs, ?_, ?_, ?_, ?_, ?_⟩
  · rw [htags]
    exact (congrArg Tally.tags hsum).trans (List.append_nil _)
  · rw [← headings_skeleton, hs]
    refine (congrArg (_ :: ·) List.filterMap_append).trans ?_
    rw [filterMap_flatMap_of headings_background,
      filterMap_flatMap_of fun p : Scenario × List Examples => headings_scenario p.2 p.1,
      List.map_eq_flatMap]
  · have hfst : (f.scenarios.zip examples).map Prod.fst = f.scenarios :=
      List.map_fst_zip (Nat.le_of_eq hexamples.length_eq)
    rw [← stepLines_skeleton, hs]
    refine List.filterMap_append.trans ?_
    rw [filterMap_flatMap_of stepLines_background,
      filterMap_flatMap_of fun p : Scenario × List Examples => stepLines_scenario p.2 p.1,
      stepsOf, List.map_append, List.map_flatMap, List.map_flatMap]
    conv => rhs; arg 2; rw [← hfst, List.flatMap_map]
  · rw [← rowLines_skeleton, hs]
    refine List.filterMap_append.trans ?_
    rw [filterMap_flatMap_of rowLines_background,
      filterMap_flatMap_of fun p : Scenario × List Examples => rowLines_scenario p.2 p.1,
      List.flatMap_assoc]
  · rw [sectionTexts, hprose, show prose false _ = marks from
      (congrArg Tally.prose hsum).trans (List.append_nil _)]
    exact hmarks.splitOn
  · rw [hdocs, List.filterMap_eq_flatMap_toList]
    exact (congrArg Tally.docStrings hsum).trans (List.append_nil _)

end Gherkin.Grammar

namespace Gherkin

open Grammar

/-- Every line of a text that is read as a feature is accounted for in that feature. -/
theorem lines_accounted {text : String} {f : Feature} (h : Feature.ofText text = .ok f) :
    ∃ ls, Reads text ls ∧ ∃ examples, Accounts f examples (ls.map Line.kind) := by
  obtain ⟨ls, hls, hf⟩ := Feature.ofText_eq_ok_iff.1 h
  exact ⟨ls, hls, accounts_document hf⟩

/-- A feature with tags, descriptions, a table, a doc string and two examples blocks. -/
theorem lines_accounted_sample :
    ∃ f, Feature.ofText ("\n".intercalate ["@a", "@b", "Feature: F", "one", "two", "",
        "Background:", "Given b", "|x|y|", "|1|2|", "@s", "Scenario Outline: O", "# c", "Then <x>",
        "\"\"\"", "@d", "\"\"\"", "Examples:", "|x|", "|1|", "Examples: E", "|x|", "|2|"]) = .ok f ∧
      ∃ (ls : List Line) (examples : List (List Examples)),
        Accounts f examples (ls.map Line.kind) := by
  refine exists_ok_and ?_ fun f hf => ?_
  · decide +kernel
  · obtain ⟨ls, -, examples, h⟩ := lines_accounted hf
    exact ⟨ls, examples, h⟩

end Gherkin
