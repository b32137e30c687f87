import Gherkin.Proofs.Pieces

/-
  The rules of tables, said line by line. A table has a header that names each column once and a
  row directly under it, its rows are as wide as the header, and the examples tables of an outline
  have one header. `Tables.step` follows the tables of a document and stops at the first line that
  breaks a rule, so a beginning of an accepted text keeps them (`kept_of_ofText_append`).
-/

namespace Gherkin.Grammar

/-- Where the next line stands: directly under the header or a row of a table, under an examples
heading, or anywhere else. -/
inductive Place where
  | outside
  | examples
  | header (names : List String)
  | rows (names : List String)
deriving DecidableEq

/-- What lines say about the tables: where the next line stands, and the header of the first
examples table of the outline. -/
structure Tables where
  place : Place
  first : Option (List String)
deriving DecidableEq

namespace Tables

/-- No table and no outline is open. -/
def start : Tables := ⟨.outside, none⟩

/-- After a row, which opens a table or stands in one; `direct` if no blank line is before it. -/
def row (t : Tables) (direct : Bool) (cells : List String) : Option Tables :=
  match t.place with
  | .outside => if cells.Nodup then some { t with place := .header cells } else none
  | .examples =>
    if cells.Nodup ∧ ∀ header ∈ t.first, cells = header then some ⟨.header cells, some cells⟩
    else none
  | .header names =>
    if direct ∧ cells.length = names.length then some { t with place := .rows names } else none
  | .rows names => if cells.length = names.length then some t else none

/-- After a line that is no row: a heading other than that of examples ends the outline. -/
def enter (t : Tables) : Line.Kind → Tables
  | .heading .examples _ => { t with place := .examples }
  | .heading _ _ => start
  | _ => { t with place := .outside }

/-- After one more line, unless it breaks a rule. -/
def step (t : Tables) (l : Significant) : Option Tables :=
  match l.line.kind, t.place with
  | .row cells, _ => t.row (!l.afterBlank) cells
  | _, .header _ => none
  | k, _ => some (t.enter k)

/-- No header waits for a row. -/
def Settled (t : Tables) : Prop := ∀ names, t.place ≠ .header names

instance (t : Tables) : Decidable t.Settled :=
  match h : t.place with
  | .header names => isFalse fun settled => settled names h
  | .outside | .examples | .rows _ => isTrue fun _ e => by rw [h] at e; cases e

/-- After lines, unless one of them breaks a rule. -/
def run (t : Tables) (ls : List Significant) : Option Tables := ls.foldlM step t

/-- The lines, and a blank line after them if `blank` says so, keep the rules of tables. -/
def Kept (t : Tables) (ls : List Significant) (blank : Bool) : Prop :=
  ∃ u, t.run ls = some u ∧ (blank = true → u.Settled)

instance (t : Tables) (ls : List Significant) (blank : Bool) : Decidable (t.Kept ls blank) :=
  decidable_of_iff (∃ u ∈ t.run ls, blank = true → u.Settled) Iff.rfl

theorem run_append (t : Tables) (ls ms : List Significant) :
    run t (ls ++ ms) = (run t ls).bind fun u => u.run ms := List.foldlM_append

theorem run_cons_eq_some {t w : Tables} {l : Significant} {ls : List Significant} :
    t.run (l :: ls) = some w ↔ ∃ u, t.step l = some u ∧ u.run ls = some w :=
  Option.bind_eq_some_iff

theorem run_cons_some {t u w : Tables} {l : Significant} {ls : List Significant}
    (hl : t.step l = some u) (hls : u.run ls = some w) : t.run (l :: ls) = some w :=
  run_cons_eq_some.2 ⟨u, hl, hls⟩

theorem run_append_some {t u w : Tables} {ls ms : List Significant} (hls : t.run ls = some u)
    (hms : u.run ms = some w) : t.run (ls ++ ms) = some w := by
  rw [run_append, hls, Option.bind_some, hms]

theorem step_row {t : Tables} {l : Significant} {cells : List String} (hl : RowLine l cells) :
    t.step l = t.row (!l.afterBlank) cells := by
  rw [RowLine] at hl
  simp only [step, hl]

theorem step_of_settled {t : Tables} {l : Significant} (h : t.Settled)
    (hl : ∀ cells, l.line.kind ≠ .row cells) : t.step l = some (t.enter l.line.kind) := by
  unfold step
  split
  · rename_i hk
    exact absurd hk (hl _)
  · rename_i hplace _
    exact absurd hplace (h _)
  · rfl

end Tables

open Tables

/-! ## Derivable lines keep the rules -/

/-- Lines of `P` keep the rules and open no outline. -/
def Passes {α : Type} (P : List Significant → α → Prop) : Prop :=
  ∀ {ls : List Significant} {v : α} {t : Tables}, P ls v → t.Settled →
    ∃ u, t.run ls = some u ∧ u.Settled ∧ u.first = t.first

theorem Passes.star {α : Type} {P : List Significant → α → Prop} (hP : Passes P) :
    Passes (Star P) := by
  intro ls vs t h ht
  induction h generalizing t with
  | nil => exact ⟨t, rfl, ht, rfl⟩
  | cons first _ ih =>
    obtain ⟨u, hu, hsettled, hfirst⟩ := hP first ht
    obtain ⟨w, hw, hsettled', hfirst'⟩ := ih hsettled
    exact ⟨w, run_append_some hu hw, hsettled', hfirst'.trans hfirst⟩

/-- A line that is neither a row nor a heading. -/
def Inert : Line.Kind → Prop
  | .row _ | .heading _ _ => False
  | _ => True

theorem step_inert {t : Tables} {l : Significant} (h : t.Settled) (hl : Inert l.line.kind) :
    t.step l = some { t with place := .outside } := by
  have hrow : ∀ cells, l.line.kind ≠ .row cells := fun cells hk => by rw [hk] at hl; exact hl
  rw [step_of_settled h hrow]
  cases hk : l.line.kind <;> rw [hk] at hl <;> first | rfl | exact hl.elim

theorem settled_outside (first : Option (List String)) : (⟨.outside, first⟩ : Tables).Settled :=
  fun _ => Place.noConfusion

theorem passes_lines {α : Type} {R : Significant → α → Prop}
    (hR : ∀ l a, R l a → Inert l.line.kind) : Passes (List.Forall₂ R) := by
  intro ls vs t h ht
  induction h generalizing t with
  | nil => exact ⟨t, rfl, ht, rfl⟩
  | @cons l a ls as hl _ ih =>
    obtain ⟨u, hu, hsettled, hfirst⟩ := ih (settled_outside t.first)
    exact ⟨u, run_cons_some (step_inert ht (hR l a hl)) hu, hsettled, hfirst⟩

theorem inert_tagLine {l : Significant} {ts : List Tag} (h : TagLine l ts) : Inert l.line.kind := by
  rw [h]
  trivial

theorem inert_textLine {l : Significant} {s : String} (h : TextLine l s) : Inert l.line.kind := by
  rw [h]
  trivial

theorem passes_description : Passes DescriptionLines := by
  intro ls d t h ht
  cases h with
  | absent => exact ⟨t, rfl, ht, rfl⟩
  | present first more =>
    obtain ⟨u, hu, hsettled, hfirst⟩ :=
      passes_lines (fun _ _ hl => inert_textLine hl.1) more (settled_outside t.first)
    exact ⟨u, run_cons_some (step_inert ht (inert_textLine first)) hu, hsettled, hfirst⟩

/-- Rows under a row. -/
theorem run_rows {names : List String} {first : Option (List String)} {ls : List Significant}
    {data : List (List String)} (h : List.Forall₂ (Directly RowLine) ls data)
    (even : ∀ row ∈ data, row.length = names.length) :
    run ⟨.rows names, first⟩ ls = some ⟨.rows names, first⟩ := by
  induction h with
  | nil => rfl
  | @cons l row ls data hl _ ih =>
    obtain ⟨hrow, hrest⟩ := List.forall_mem_cons.1 even
    have hstep : step ⟨.rows names, first⟩ l = some ⟨.rows names, first⟩ := by
      rw [step_row hl.1]
      exact if_pos hrow
    exact run_cons_some hstep (ih hrest)

/-- The rows under a header. -/
theorem run_header {names : List String} {first : Option (List String)} {ls : List Significant}
    {data : List (List String)} (h : List.Forall₂ (Directly RowLine) ls data)
    (even : ∀ row ∈ data, row.length = names.length) (nonempty : data ≠ []) :
    run ⟨.header names, first⟩ ls = some ⟨.rows names, first⟩ := by
  cases h with
  | nil => exact absurd rfl nonempty
  | @cons l row ls data hl hmore =>
    obtain ⟨hrow, hrest⟩ := List.forall_mem_cons.1 even
    have hstep : step ⟨.header names, first⟩ l = some ⟨.rows names, first⟩ := by
      rw [step_row hl.1, hl.2]
      exact if_pos ⟨rfl, hrow⟩
    exact run_cons_some hstep (run_rows hmore hrest)

theorem settled_rows (names : List String) (first : Option (List String)) :
    (⟨.rows names, first⟩ : Tables).Settled := fun _ => Place.noConfusion

/-- A table in a step. -/
theorem run_table {ls : List Significant} {r : Rows} (h : TableLines ls r)
    (first : Option (List String)) :
    run ⟨.outside, first⟩ ls = some ⟨.rows r.header, first⟩ := by
  obtain @⟨l, ls, header, data, hl, more, nonempty, distinct, even⟩ := h
  have hstep : step ⟨.outside, first⟩ l = some ⟨.header header, first⟩ := by
    rw [step_row hl]
    exact if_pos distinct
  exact run_cons_some hstep (run_header more even nonempty)

/-- A table under an examples heading. -/
theorem run_examplesTable {ls : List Significant} {r : Rows} (h : TableLines ls r)
    {first : Option (List String)} (same : ∀ header ∈ first, r.header = header) :
    run ⟨.examples, first⟩ ls = some ⟨.rows r.header, some r.header⟩ := by
  obtain @⟨l, ls, header, data, hl, more, nonempty, distinct, even⟩ := h
  have hstep : step ⟨.examples, first⟩ l = some ⟨.header header, some header⟩ := by
    rw [step_row hl]
    exact if_pos ⟨distinct, same⟩
  exact run_cons_some hstep (run_header more even nonempty)

theorem passes_docString : Passes DocStringLines := by
  intro ls s t h ht
  obtain @⟨opening, closing, ls, ss, first, captured, last⟩ := h
  have hfence {l : Significant} (hl : l.line.kind = .fence) : Inert l.line.kind := by
    rw [hl]
    trivial
  obtain ⟨u, hu, hsettled, hfirst⟩ :=
    passes_lines (fun _ _ => inert_textLine) captured (settled_outside t.first)
  have hclose : u.run [closing] = some ⟨.outside, u.first⟩ :=
    run_cons_some (step_inert hsettled (hfence last)) rfl
  exact ⟨_, run_cons_some (step_inert ht (hfence first)) (run_append_some hu hclose),
    settled_outside _, hfirst⟩

theorem passes_step : Passes StepLines := by
  intro ls s t h ht
  obtain @⟨l, ls, keyword, text, argument, first, attached⟩ := h
  have hinert : Inert l.line.kind := by
    rw [first]
    trivial
  have hstep := step_inert ht hinert
  cases attached with
  | absent => exact ⟨_, run_cons_some hstep rfl, settled_outside _, rfl⟩
  | table _ lines => exact ⟨_, run_cons_some hstep (run_table lines _), settled_rows _ _, rfl⟩
  | docString _ lines =>
    obtain ⟨u, hu, hsettled, hfirst⟩ := passes_docString lines (settled_outside t.first)
    exact ⟨u, run_cons_some hstep hu, hsettled, hfirst⟩

theorem passes_body {ls : List Significant} {description : Option String} {steps : List Step}
    {t : Tables} (h : BodyLines ls description steps) (ht : t.Settled) :
    ∃ u, t.run ls = some u ∧ u.Settled ∧ u.first = t.first := by
  obtain ⟨opening, rest⟩ := h
  obtain ⟨u, hu, hsettled, hfirst⟩ := passes_description opening ht
  obtain ⟨w, hw, hsettled', hfirst'⟩ := passes_step.star rest hsettled
  exact ⟨w, run_append_some hu hw, hsettled', hfirst'.trans hfirst⟩

/-- An examples block. -/
theorem run_examples {ls : List Significant} {r : Rows} {t : Tables} (h : ExamplesLines ls r)
    (ht : t.Settled) (same : ∀ header ∈ t.first, r.header = header) :
    t.run ls = some ⟨.rows r.header, some r.header⟩ := by
  obtain @⟨l, ls, name, r, first, table⟩ := h
  have hrow : ∀ cells, l.line.kind ≠ .row cells := by simp [first]
  have hstep := step_of_settled ht hrow
  rw [first] at hstep
  exact run_cons_some hstep (run_examplesTable table same)

/-- Examples blocks with one header. -/
theorem run_star_examples {ls : List Significant} {tables : List Rows} {header : List String}
    {t : Tables} (h : Star ExamplesLines ls tables) (same : ∀ r ∈ tables, r.header = header)
    (hfirst : ∀ names ∈ t.first, names = header) (ht : t.Settled) :
    ∃ u, t.run ls = some u ∧ u.Settled := by
  induction h generalizing t with
  | nil => exact ⟨t, rfl, ht⟩
  | @cons ls ms r tables one _ ih =>
    obtain ⟨hr, hrest⟩ := List.forall_mem_cons.1 same
    have hone := run_examples one ht fun names hnames => hr.trans (hfirst names hnames).symm
    have hnext : ∀ names ∈ some r.header, names = header := by simpa using hr
    obtain ⟨u, hu, hsettled⟩ := ih hrest hnext (settled_rows _ _)
    exact ⟨u, run_append_some hone hu, hsettled⟩

/-! ## Sections -/

/-- Lines of `P` keep the rules. -/
def Settles {α : Type} (P : List Significant → α → Prop) : Prop :=
  ∀ {ls : List Significant} {v : α} {t : Tables}, P ls v → t.Settled →
    ∃ u, t.run ls = some u ∧ u.Settled

theorem Settles.star {α : Type} {P : List Significant → α → Prop} (hP : Settles P) :
    Settles (Star P) := by
  intro ls vs t h ht
  induction h generalizing t with
  | nil => exact ⟨t, rfl, ht⟩
  | cons first _ ih =>
    obtain ⟨u, hu, hsettled⟩ := hP first ht
    obtain ⟨w, hw, hsettled'⟩ := ih hsettled
    exact ⟨w, run_append_some hu hw, hsettled'⟩

/-- A heading that opens a block. -/
theorem step_heading {t : Tables} {l : Significant} {h : Heading} {name : String} (ht : t.Settled)
    (hl : l.line.kind = .heading h name) (other : h ≠ .examples) : t.step l = some start := by
  rw [step_of_settled ht (by simp [hl]), hl]
  cases h <;> first | rfl | exact absurd rfl other

theorem settles_scenario (tags : List Tag) : Settles (ScenarioLines tags) := by
  intro ls s t h ht
  cases h with
  | simple first body =>
    obtain ⟨u, hu, hsettled, -⟩ := passes_body body (settled_outside none)
    exact ⟨u, run_cons_some (step_heading ht first (by simp)) hu, hsettled⟩
  | outline first body examples nonempty same =>
    obtain ⟨u, hu, hsettled, hfirst⟩ := passes_body body (settled_outside none)
    obtain ⟨w, hw, hsettled'⟩ :=
      run_star_examples examples same (by simp [hfirst]) hsettled
    exact ⟨w, run_cons_some (step_heading ht first (by simp)) (run_append_some hu hw), hsettled'⟩

theorem settles_tagLines : Settles (List.Forall₂ TagLine) := by
  intro ls tss t h ht
  obtain ⟨u, hu, hsettled, -⟩ := passes_lines (fun _ _ => inert_tagLine) h ht
  exact ⟨u, hu, hsettled⟩

theorem settles_tagged : Settles TaggedLines := by
  intro ls s t h ht
  obtain ⟨before, scenario⟩ := h
  obtain ⟨u, hu, hsettled⟩ := settles_tagLines before ht
  obtain ⟨w, hw, hsettled'⟩ := settles_scenario _ scenario hsettled
  exact ⟨w, run_append_some hu hw, hsettled'⟩

theorem settles_background : Settles (Opt BackgroundLines) := by
  intro ls b t h ht
  cases h with
  | none => exact ⟨t, rfl, ht⟩
  | some part =>
    obtain ⟨before, first, body⟩ := part
    obtain ⟨u, hu, hsettled⟩ := settles_tagLines before ht
    obtain ⟨w, hw, hsettled', -⟩ := passes_body body (settled_outside none)
    have hheading := step_heading hsettled first (by simp)
    exact ⟨w, run_append_some hu (run_cons_some hheading hw), hsettled'⟩

theorem settles_document : Settles DocumentLines := by
  intro ls f t h ht
  obtain ⟨before, first, opening, steps, rest, -⟩ := h
  obtain ⟨u, hu, hsettled⟩ := settles_tagLines before ht
  obtain ⟨v, hv, hopening, -⟩ := passes_description opening (settled_outside none)
  obtain ⟨w, hw, hsteps⟩ := settles_background steps hopening
  obtain ⟨x, hx, hrest⟩ := settles_tagged.star rest hsteps
  have hheading := step_heading hsettled first (by simp)
  exact ⟨x, run_append_some hu (run_cons_some hheading
    (run_append_some hv (run_append_some hw hx))), hrest⟩

/-! ## Beginnings of documents -/

theorem Tables.Kept.of_append {t u : Tables} {ls ms : List Significant} {blank : Bool}
    (h : t.Kept (ls ++ ms) blank) (hls : t.run ls = some u) : u.Kept ms blank := by
  obtain ⟨w, hw, hsettled⟩ := h
  rw [run_append, hls, Option.bind_some] at hw
  exact ⟨w, hw, hsettled⟩

theorem Tables.Kept.of_cons {t u : Tables} {l : Significant} {ls : List Significant}
    {blank : Bool} (h : t.Kept (l :: ls) blank) (hl : t.step l = some u) : u.Kept ls blank := by
  obtain ⟨w, hw, hsettled⟩ := h
  obtain ⟨v, hv, hrest⟩ := run_cons_eq_some.1 hw
  obtain rfl := Option.some.inj (hl.symm.trans hv)
  exact ⟨w, hrest, hsettled⟩

/-- The header of a table in a step. -/
theorem Tables.Kept.of_header {t : Tables} {l : Significant} {header : List String}
    {ls : List Significant} {blank : Bool} (h : t.Kept (l :: ls) blank) (ht : t.place = .outside)
    (hl : RowLine l header) :
    header.Nodup ∧ Tables.Kept ⟨.header header, t.first⟩ ls blank := by
  obtain ⟨u, hu, hsettled⟩ := h
  obtain ⟨w, hw, hrest⟩ := run_cons_eq_some.1 hu
  rw [step_row hl, row, ht] at hw
  obtain ⟨distinct, hsome⟩ := Option.ite_none_right_eq_some.1 hw
  obtain rfl := Option.some.inj hsome
  exact ⟨distinct, u, hrest, hsettled⟩

/-- The header of an examples table. -/
theorem Tables.Kept.of_examplesHeader {t : Tables} {l : Significant} {header : List String}
    {ls : List Significant} {blank : Bool} (h : t.Kept (l :: ls) blank) (ht : t.place = .examples)
    (hl : RowLine l header) :
    (header.Nodup ∧ ∀ names ∈ t.first, header = names) ∧
      Tables.Kept ⟨.header header, some header⟩ ls blank := by
  obtain ⟨u, hu, hsettled⟩ := h
  obtain ⟨w, hw, hrest⟩ := run_cons_eq_some.1 hu
  rw [step_row hl, row, ht] at hw
  obtain ⟨hheader, hsome⟩ := Option.ite_none_right_eq_some.1 hw
  obtain rfl := Option.some.inj hsome
  exact ⟨hheader, u, hrest, hsettled⟩

/-- Rows that keep the rules are as wide as the header. -/
theorem even_of_run {names : List String} {first : Option (List String)} {t : Tables}
    {ls : List Significant} {data : List (List String)}
    (h : List.Forall₂ (Directly RowLine) ls data)
    (hrun : Tables.run ⟨.rows names, first⟩ ls = some t) :
    ∀ row ∈ data, row.length = names.length := by
  induction h with
  | nil => simp
  | @cons l row ls data hl _ ih =>
    obtain ⟨u, hu, hrest⟩ := Tables.run_cons_eq_some.1 hrun
    have hstep : (if row.length = names.length then some ⟨.rows names, first⟩ else none) =
        some u := (Tables.step_row hl.1).symm.trans hu
    obtain ⟨hrow, hsome⟩ := Option.ite_none_right_eq_some.1 hstep
    obtain rfl := Option.some.inj hsome
    exact List.forall_mem_cons.2 ⟨hrow, ih hrest⟩

theorem step_header_of_blank {t : Tables} {l : Significant} {names : List String}
    (ht : t.place = .header names) (hl : l.afterBlank = true) : t.step l = none := by
  unfold step
  split
  · simp [row, ht, hl]
  · rfl
  · rename_i hplace
    exact absurd ht (hplace names)

theorem afterBlank_of_significant {ls : List Line} {l : Significant} {ms : List Significant}
    (h : significant true ls = l :: ms) : l.afterBlank = true := by
  induction ls with
  | nil => cases h
  | cons k ls ih =>
    unfold significant at h
    split at h
    · exact ih h
    · exact ih h
    · rw [← (List.cons.inj h).1]

/-- The lines before a place in a document keep the rules of tables. -/
theorem DocumentLines.kept {ls ms : List Line} {f : Feature}
    (h : DocumentLines (significant false (ls ++ ms)) f) :
    start.Kept (significant false ls) (blankAfter false ls) := by
  obtain ⟨u, hu, hsettled⟩ := settles_document h (settled_outside none)
  rw [significant_append, run_append] at hu
  obtain ⟨t, ht, hrest⟩ := Option.bind_eq_some_iff.1 hu
  refine ⟨t, ht, fun hblank names hplace => ?_⟩
  rw [hblank] at hrest
  cases hms : significant true ms with
  | nil =>
    rw [hms] at hrest
    obtain rfl := Option.some.inj hrest
    exact hsettled names hplace
  | cons l ms =>
    have hstep := step_header_of_blank hplace (afterBlank_of_significant hms)
    rw [hms] at hrest
    obtain ⟨w, hw, -⟩ := run_cons_eq_some.1 hrest
    rw [hstep] at hw
    cases hw

end Gherkin.Grammar

namespace Gherkin

open Grammar Reader

/-- The lines of a text are read before those of a text after it. -/
theorem Reads.of_append {t u : String} {ls : List Line} (hended : Text.Ended t.toList)
    (h : Reads (t ++ u) ls) :
    ∃ ks ms, ls = ks ++ ms ∧ readLines 0 none (Text.lines t.toList) = ks.map .ok := by
  obtain ⟨hlines, -⟩ := reads_iff.1 h
  rw [String.toList_append, Text.lines_append hended, readLines_append] at hlines
  obtain ⟨ks, ms, rfl, hks, -⟩ := List.map_eq_append_iff.1 hlines.symm
  exact ⟨ks, ms, rfl, hks.symm⟩

/-- An accepted text begins with lines that keep the rules of tables. -/
theorem Feature.kept_of_ofText_append {t u : String} {f : Feature}
    (hended : Text.Ended t.toList) (h : ofText (t ++ u) = .ok f) :
    ∃ ks : List Line, readLines 0 none (Text.lines t.toList) = ks.map .ok ∧
      Tables.start.Kept (significant false ks) (blankAfter false ks) := by
  obtain ⟨ls, hls, hf⟩ := ofText_eq_ok_iff.1 h
  obtain ⟨ks, ms, rfl, hks⟩ := hls.of_append hended
  exact ⟨ks, hks, hf.kept⟩

end Gherkin
