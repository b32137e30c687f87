import Gherkin.Proofs.Parts
import Gherkin.Proofs.Scans
import Mathlib.Logic.Relation

/-
  Splitting an examples table changes nothing. Between two data rows of an examples table an
  examples heading and a copy of the header may be written, with any name and with blank lines
  before it or under it (`Splits`): the rows below then belong to a table of their own, and the
  feature is the same, after any number of splits (`splits_same`). A table ends where no row
  follows, so the rows up to the inserted lines and those after them are all of its data
  (`TableLines.split`); the rows of an outline are those of its tables one after the other.
-/

namespace Gherkin.Grammar

open Line

/-! ## Splitting a table -/

/-- The lines do not begin with a row. -/
def NoRow (ls : List Significant) : Prop := ∀ l ∈ ls.head?, ∀ cells, ¬RowLine l cells

theorem noRow_examples {ls : List Significant} {tables : List Rows}
    (h : Star ExamplesLines ls tables) : NoRow ls := by
  cases h with
  | nil => nofun
  | cons first more =>
    obtain ⟨first, table⟩ := first
    rintro l ⟨⟩ cells hrow
    cases first.symm.trans hrow

theorem noRow_scenarios {ls : List Significant} {ss : List Scenario} (h : Star TaggedLines ls ss) :
    NoRow ls := by
  cases h with
  | nil => nofun
  | cons first more =>
    obtain ⟨before, own, behind, rfl, steps⟩ := first.exists_steps
    have honly := steps.head.only
    obtain ⟨x, xs, rfl⟩ := List.exists_cons_of_ne_nil steps.head.ne_nil
    rintro l ⟨⟩ cells hrow
    simpa [show x.line.kind = .row cells from hrow] using honly x List.mem_cons_self

section Split

variable {as bs rs behind : List Significant} {l m n r b : Significant} {name name' : String}

/-- Rows that follow one another belong to one table. -/
theorem exists_rows_append {ls : List Significant}
    (hrs : Only (fun k => ∃ cells, k = .row cells) rs) (hb : ∃ cells, RowLine b cells)
    (hbehind : NoRow behind) (h : rs ++ b :: bs = ls ++ behind) :
    ∃ lower, ls = rs ++ b :: lower ∧ bs = lower ++ behind := by
  rcases line_cases h with hlower | ⟨upper, rfl, rfl⟩
  · exact hlower
  · cases upper with
    | nil =>
      obtain ⟨cells, hrow⟩ := hb
      exact absurd hrow (hbehind b rfl cells)
    | cons u us =>
      obtain ⟨cells, hrow⟩ := hrs u (List.mem_append_right _ List.mem_cons_self)
      exact absurd hrow (hbehind u rfl cells)

/-- The rows of a table may be divided between two tables with its header. -/
theorem TableLines.split {t : Rows} (h : TableLines (r :: (rs ++ b :: bs)) t) (hrs : rs ≠ [])
    (hn : RowLine n t.header) :
    ∃ data data', TableLines (r :: rs) ⟨t.header, data⟩ ∧
      TableLines (n :: b :: bs) ⟨t.header, data'⟩ ∧ t.data = data ++ data' := by
  obtain @⟨_, _, header, cells, first, more, -, distinct, even⟩ := h
  obtain ⟨data, data', rfl, habove, hbelow⟩ := exists_append_of_forall₂ more
  obtain ⟨heven, heven'⟩ := List.forall_mem_append.1 even
  refine ⟨data, data', .rows first habove ?_ distinct heven, .rows hn hbelow ?_ distinct heven',
    rfl⟩
  · rintro rfl
    exact hrs (List.forall₂_nil_right_iff.1 habove)
  · rintro rfl
    cases hbelow

theorem TableLines.header_eq {ls : List Significant} {t : Rows} {header : List String}
    (h : TableLines (r :: ls) t) (hr : RowLine r header) : t.header = header := by
  obtain ⟨first, -⟩ := h
  exact Kind.row.inj (first.symm.trans hr)

/-- A heading among the lines of an examples block is the first of them. -/
theorem ExamplesLines.of_heading {upper lower : List Significant} {t : Rows}
    (h : ExamplesLines (upper ++ l :: lower) t) (hl : l.line.kind = .heading .examples name) :
    upper = [] ∧ TableLines lower t := by
  generalize hls : upper ++ l :: lower = ls at h
  obtain ⟨first, table⟩ := h
  cases upper with
  | nil =>
    obtain ⟨-, rfl⟩ := List.cons.inj hls
    exact ⟨rfl, table⟩
  | cons u us =>
    obtain ⟨-, rfl⟩ := List.cons.inj hls
    obtain ⟨cells, hrow⟩ := only_table table l List.mem_append_cons_self
    cases hl.symm.trans hrow

theorem rows_append (header : List String) (data data' : List (List String)) :
    (Rows.mk header (data ++ data')).table.rows =
      (Rows.mk header data).table.rows ++ (Rows.mk header data').table.rows := List.map_append

/-- Two examples blocks in the place of one. -/
theorem ExamplesBlock.split {tables : List Rows} {header : List String} {upper : List Significant}
    (h : ExamplesBlock (upper ++ l :: r :: (rs ++ b :: bs)) tables)
    (hl : l.line.kind = .heading .examples name) (hr : RowLine r header)
    (hrs : Only (fun k => ∃ cells, k = .row cells) rs) (hne : rs ≠ [])
    (hb : ∃ cells, RowLine b cells) (hm : m.line.kind = .heading .examples name')
    (hn : RowLine n header) :
    ∃ tables', ExamplesBlock (upper ++ l :: r :: (rs ++ m :: n :: b :: bs)) tables' ∧
      (tables'.flatMap fun t => t.table.rows) = tables.flatMap fun t => t.table.rows := by
  obtain ⟨lines, -, first, same⟩ := h
  obtain ⟨before, above, own, behind, us, t, ws, rfl, hown, rfl, among⟩ := lines.exists_among_line
  have hrows : Only (fun k => ∃ cells, k = .row cells) (r :: rs) := .cons ⟨header, hr⟩ hrs
  obtain ⟨lower, rfl, rfl⟩ := exists_rows_append hrows hb (noRow_examples among.later) hown
  obtain ⟨rfl, table⟩ := among.here.of_heading hl
  have hheader := table.header_eq hr
  obtain ⟨data, data', habove, hbelow, hdata⟩ := table.split hne (hheader ▸ hn)
  refine ⟨us ++ ⟨t.header, data⟩ :: ⟨t.header, data'⟩ :: ws, ⟨?_, by simp, first, ?_⟩, ?_⟩
  · have hall := among.earlier.append (.cons (.examples hl habove)
      (.cons (.examples hm hbelow) among.later))
    simp only [List.cons_append, List.append_nil] at hall ⊢
    exact hall
  · simp only [List.forall_mem_append, List.forall_mem_cons] at same ⊢
    exact ⟨same.1, same.2.1, same.2.1, same.2.2⟩
  · obtain ⟨theader, tdata⟩ := t
    obtain rfl : tdata = data ++ data' := hdata
    simp only [List.flatMap_append, List.flatMap_cons, rows_append, List.append_assoc]

theorem setExamples_self {f : Feature} {k : Nat} {o : Outline}
    (ho : f.scenarios[k]? = some (.outline o)) : f.setExamples k o o.examples = f := by
  obtain ⟨hk, ho⟩ := List.getElem?_eq_some_iff.1 ho
  rw [Feature.setExamples, ← ho, List.set_getElem_self]

/-- Between two rows under an examples heading and a header there may be an examples heading and
the header once more. -/
theorem DocumentLines.split {f : Feature} {header : List String}
    (h : DocumentLines (as ++ l :: r :: (rs ++ b :: bs)) f)
    (hl : l.line.kind = .heading .examples name) (hr : RowLine r header)
    (hrs : Only (fun k => ∃ cells, k = .row cells) rs) (hne : rs ≠ [])
    (hb : ∃ cells, RowLine b cells) (hm : m.line.kind = .heading .examples name')
    (hn : RowLine n header) :
    DocumentLines (as ++ l :: r :: (rs ++ m :: n :: b :: bs)) f := by
  obtain ⟨k, o, before, upper, lower, behind, tables, rfl, hlower, hpart⟩ :=
    h.exists_outline_of_heading hl
  obtain ⟨ss, hbehind⟩ := hpart.below
  have hrows : Only (fun k => ∃ cells, k = .row cells) (r :: rs) := .cons ⟨header, hr⟩ hrs
  obtain ⟨lower, rfl, rfl⟩ := exists_rows_append hrows hb (noRow_scenarios hbehind) hlower
  obtain ⟨tables', hblock, hsame⟩ := hpart.part.derives.split hl hr hrs hne hb hm hn
  have hall := hpart.part.fits hblock
  rw [hsame, ← hpart.rows, setExamples_self hpart.found] at hall
  simp only [List.append_assoc, List.cons_append] at hall ⊢
  exact hall

end Split

/-! ## Lines of a table -/

/-- Blank lines and comments tell of the next line at most that a blank line stands before it. -/
theorem letters_skipped {gap : List Kind} (h : ∀ k ∈ gap, k = .blank ∨ k = .comment)
    (blank : Bool) : ∃ b, ∀ ms, letters blank (gap ++ ms) = letters b ms := by
  induction gap generalizing blank with
  | nil => exact ⟨blank, fun _ => rfl⟩
  | cons k gap ih =>
    obtain ⟨rfl | rfl, hrest⟩ := List.forall_mem_cons.1 h
    · exact ih hrest true
    · exact ih hrest blank

/-- Rows that have only comments between them follow one another directly. -/
theorem letters_rows {ks : List Kind} (h : ∀ k ∈ ks, k = .comment ∨ ∃ cells, k = .row cells)
    (ms : List Kind) :
    letters false (ks ++ ms) = direct ((rowLines ks).map .row) ++ letters false ms := by
  induction ks with
  | nil => rfl
  | cons k ks ih =>
    obtain ⟨rfl | ⟨cells, rfl⟩, hrest⟩ := List.forall_mem_cons.1 h
    · exact ih hrest
    · exact congrArg (_ :: ·) (ih hrest)

/-- An examples heading and a header. -/
theorem letters_header (name : String) (header : List String) {gap gap' : List Kind}
    (hgap : ∀ k ∈ gap, k = .blank ∨ k = .comment)
    (hgap' : ∀ k ∈ gap', k = .blank ∨ k = .comment) (blank : Bool) :
    ∃ b b', ∀ ms, letters blank (gap ++ .heading .examples name :: (gap' ++ .row header :: ms)) =
      ⟨⟨0, .heading .examples name⟩, b⟩ :: ⟨⟨0, .row header⟩, b'⟩ :: letters false ms := by
  obtain ⟨b, hb⟩ := letters_skipped hgap blank
  obtain ⟨b', hb'⟩ := letters_skipped hgap' false
  exact ⟨b, b', fun ms => (hb _).trans (congrArg (_ :: ·) (hb' _))⟩

end Gherkin.Grammar

namespace Gherkin

open Line Grammar Reader

/-- An examples table of a text is split: between two of its data rows lines are inserted that are
an examples heading and the header once more, with blank lines or comments before each. From the
header of the table to the row below the inserted lines there are only rows and comments. -/
inductive Splits (t u : String) : Prop
  | between {above new below : List (List Char)} {name name' : String} {header cells : List String}
    {earlier gap rows gap₁ gap₂ between later : List Kind}
    (was : Text.lines t.toList = above ++ below)
    (becomes : Text.lines u.toList = above ++ (new ++ below))
    (table : Scans none above
      (earlier ++ .heading .examples name :: (gap ++ .row header :: rows)) none)
    (inserted : Scans none new
      (gap₁ ++ .heading .examples name' :: (gap₂ ++ [.row header])) none)
    (next : Scans none below (between ++ .row cells :: later) none)
    (gaps : ∀ k ∈ gap ++ (gap₁ ++ gap₂), k = .blank ∨ k = .comment)
    (data : ∀ k ∈ rows, k = .comment ∨ ∃ cells, k = .row cells)
    (first : ∃ cells, .row cells ∈ rows) (comments : ∀ k ∈ between, k = .comment)

/-- One split changes nothing. -/
theorem Splits.ofText_eq {t u : String} {f : Feature} (h : Splits t u)
    (ht : Feature.ofText t = .ok f) : Feature.ofText u = .ok f := by
  obtain @⟨above, new, below, name, name', header, cells, earlier, gap, rows, gap₁, gap₂, between,
    later, was, becomes, table, inserted, next, gaps, data, ⟨firstCells, first⟩, comments⟩ := h
  obtain ⟨ks, hks, hdocument⟩ := Feature.ofText_eq_ok_iff_scans.1 ht
  rw [was] at hks
  obtain ⟨rfl, -⟩ := hks.unique (table.append next)
  have hscans := table.append (inserted.append next)
  rw [← becomes] at hscans
  refine Feature.ofText_eq_ok_iff_scans.2 ⟨_, hscans, ?_⟩
  obtain ⟨hgap, hgaps⟩ := List.forall_mem_append.1 gaps
  obtain ⟨hgap₁, hgap₂⟩ := List.forall_mem_append.1 hgaps
  have hbetween (ms : List Kind) : letters false (between ++ ms) = letters false ms := by
    have hnone : rowLines between = [] :=
      List.filterMap_eq_nil_iff.2 fun k hk => by rw [comments k hk]
    rw [letters_rows fun k hk => .inl (comments k hk), hnone]
    rfl
  obtain ⟨b₁, b₁', hheader⟩ := letters_header name header (List.forall_mem_nil _) hgap
    (blankAfter false (earlier.map (Line.mk 0)))
  obtain ⟨b₂, b₂', hinserted⟩ := letters_header name' header hgap₁ hgap₂ false
  simp only [List.nil_append] at hheader
  simp only [List.append_assoc, List.cons_append, List.nil_append, letters_append false earlier,
    hheader, hinserted, letters_rows data, hbetween] at hdocument ⊢
  refine hdocument.split rfl rfl (fun l hl => ?_) (fun hnil => ?_) ⟨_, rfl⟩ rfl rfl
  · obtain ⟨k, hk, rfl⟩ := List.mem_map.1 hl
    obtain ⟨cells, -, rfl⟩ := List.mem_map.1 hk
    exact ⟨cells, rfl⟩
  · rw [direct, List.map_eq_nil_iff, List.map_eq_nil_iff] at hnil
    exact absurd (List.filterMap_eq_nil_iff.1 hnil _ first) (by simp)

/-- Splitting examples tables, any of them and any number of times, changes nothing. -/
theorem splits_same {t u : String} {f : Feature} (h : Relation.ReflTransGen Splits t u)
    (ht : Feature.ofText t = .ok f) : Feature.ofText u = .ok f := by
  induction h with
  | refl => exact ht
  | tail _ split ih => exact split.ofText_eq ih

/-- A table of three rows is split twice, before a comment and before the last row. -/
theorem splits_same_twice :
    ∃ f, Feature.ofText "Feature: F\nScenario Outline: O\nExamples:\n|a|\n|1|\n# c\n|2|\n|3|" =
        .ok f ∧
      Relation.ReflTransGen Splits
        "Feature: F\nScenario Outline: O\nExamples:\n|a|\n|1|\n# c\n|2|\n|3|"
        ("Feature: F\nScenario Outline: O\nExamples:\n|a|\n|1|\n\nExamples: E\n\n| a |\n# c\n" ++
          "|2|\nExamples:\n|a|\n|3|") ∧
      Feature.ofText
        ("Feature: F\nScenario Outline: O\nExamples:\n|a|\n|1|\n\nExamples: E\n\n| a |\n# c\n" ++
          "|2|\nExamples:\n|a|\n|3|") = .ok f := by
  refine exists_ok_and (by decide +kernel) fun f hf => ?_
  have hfirst : Splits "Feature: F\nScenario Outline: O\nExamples:\n|a|\n|1|\n# c\n|2|\n|3|"
      ("Feature: F\nScenario Outline: O\nExamples:\n|a|\n|1|\n\nExamples: E\n\n| a |\n# c\n" ++
        "|2|\n|3|") := by
    refine @Splits.between _ _
      (["Feature: F", "Scenario Outline: O", "Examples:", "|a|", "|1|"].map String.toList)
      (["", "Examples: E", "", "| a |"].map String.toList)
      (["# c", "|2|", "|3|"].map String.toList) "" "E" ["a"] ["2"]
      [.heading .feature "F", .heading .scenarioOutline "O"] [] [.row ["1"]] [.blank] [.blank]
      [.comment] [.row ["3"]] ?_ ?_ (scans_of_readLines ?_ ?_) (scans_of_readLines ?_ ?_)
      (scans_of_readLines ?_ ?_) ?_ (by simp) (by simp) ?_ <;> decide +kernel
  have hsecond : Splits
      ("Feature: F\nScenario Outline: O\nExamples:\n|a|\n|1|\n\nExamples: E\n\n| a |\n# c\n" ++
        "|2|\n|3|")
      ("Feature: F\nScenario Outline: O\nExamples:\n|a|\n|1|\n\nExamples: E\n\n| a |\n# c\n" ++
        "|2|\nExamples:\n|a|\n|3|") := by
    refine @Splits.between _ _
      (["Feature: F", "Scenario Outline: O", "Examples:", "|a|", "|1|", "", "Examples: E", "",
        "| a |", "# c", "|2|"].map String.toList) (["Examples:", "|a|"].map String.toList)
      ["|3|".toList] "E" "" ["a"] ["3"]
      [.heading .feature "F", .heading .scenarioOutline "O", .heading .examples "", .row ["a"],
        .row ["1"], .blank] [.blank] [.comment, .row ["2"]] [] [] [] [] ?_ ?_
      (scans_of_readLines ?_ ?_) (scans_of_readLines ?_ ?_) (scans_of_readLines ?_ ?_) ?_
      (by simp) (by simp) ?_ <;> decide +kernel
  have hsplits := (Relation.ReflTransGen.single hfirst).tail hsecond
  exact ⟨hsplits, splits_same hsplits hf⟩

end Gherkin
