import Gherkin.Proofs.Acceptance
import Gherkin.Proofs.Bindings

/-
  Every model that is read from a text is well formed. The kinds of the significant lines of a text
  are legible (`legible_significant`), and each production of the grammar takes a legible sequence
  of kinds to a well-formed value and to a legible rest (`Keeps`), from the lines up to the
  document.
-/

namespace Gherkin.Grammar

open Line Text

/-- Blank lines and comments stand outside doc strings only, so what is left without them is still
legible. -/
theorem legible_significant {inside blank : Bool} {ls : List Line}
    (h : Legible inside (ls.map Line.kind)) : Legible inside (kinds (significant blank ls)) := by
  induction ls generalizing inside blank with
  | nil => exact .nil
  | cons l ls ih =>
    rw [List.map_cons] at h
    unfold significant
    split
    · rename_i hk
      rw [hk] at h
      cases h with
      | plain _ _ rest => exact ih rest
    · rename_i hk
      rw [hk] at h
      cases h with
      | plain _ _ rest => exact ih rest
    · rw [kinds_cons]
      show Legible inside (l.kind :: _)
      generalize l.kind = k at h ⊢
      cases h with
      | plain hk hf rest => exact .plain hk hf (ih rest)
      | opening rest => exact .opening (ih rest)
      | captured hs rest => exact .captured hs (ih rest)
      | closing rest => exact .closing (ih rest)

/-! ## What a production keeps -/

/-- Outside doc strings, lines that `P` relates to a value make the value `V` and leave what comes
after them outside doc strings. -/
def Keeps {α : Type} (P : List Significant → α → Prop) (V : α → Prop) : Prop :=
  ∀ {ls : List Significant} {v : α} {ks : List Kind},
    P ls v → Legible false (kinds ls ++ ks) → V v ∧ Legible false ks

theorem legible_plain {k : Kind} {ks : List Kind} (h : Legible false (k :: ks))
    (hk : k ≠ .fence) : k.WellFormed ∧ Legible false ks := by
  cases h with
  | plain first _ rest => exact ⟨first, rest⟩
  | opening => exact absurd rfl hk

/-- One-line parts, none of them a fence. -/
theorem keeps_lines {α : Type} {R : Significant → α → Prop} {V : α → Prop}
    (hR : ∀ l a, R l a → l.line.kind ≠ .fence ∧ (l.line.kind.WellFormed → V a)) :
    Keeps (List.Forall₂ R) fun vs => ∀ v ∈ vs, V v := by
  intro ls vs ks h hk
  induction h with
  | nil => exact ⟨by simp, hk⟩
  | @cons l v ls vs hl _ ih =>
    obtain ⟨hf, hv⟩ := hR l v hl
    obtain ⟨hw, hrest⟩ := legible_plain hk hf
    obtain ⟨hvs, hks⟩ := ih hrest
    exact ⟨List.forall_mem_cons.2 ⟨hv hw, hvs⟩, hks⟩

theorem Keeps.star {α : Type} {P : List Significant → α → Prop} {V : α → Prop} (hP : Keeps P V) :
    Keeps (Star P) fun vs => ∀ v ∈ vs, V v := by
  intro ls vs ks h hk
  induction h with
  | nil => exact ⟨by simp, hk⟩
  | cons first _ ih =>
    rw [kinds_append, List.append_assoc] at hk
    obtain ⟨hv, hrest⟩ := hP first hk
    obtain ⟨hvs, hks⟩ := ih hrest
    exact ⟨List.forall_mem_cons.2 ⟨hv, hvs⟩, hks⟩

theorem Keeps.opt {α : Type} {P : List Significant → α → Prop} {V : α → Prop} (hP : Keeps P V) :
    Keeps (Opt P) fun v => ∀ a ∈ v, V a := by
  intro ls v ks h hk
  cases h with
  | none => exact ⟨by simp, hk⟩
  | some part =>
    obtain ⟨hv, hks⟩ := hP part hk
    exact ⟨by simpa using hv, hks⟩

/-! ## The parts of a section -/

theorem keeps_tagLines :
    Keeps (List.Forall₂ TagLine) fun tss => ∀ t ∈ tss.flatten, t.WellFormed := by
  intro ls tss ks h hk
  have hline : Keeps (List.Forall₂ TagLine) fun tss => ∀ ts ∈ tss, ∀ t ∈ ts, t.WellFormed := by
    refine keeps_lines fun l ts hl => ?_
    rw [TagLine] at hl
    rw [hl]
    exact ⟨by simp, And.right⟩
  obtain ⟨htss, hks⟩ := hline h hk
  refine ⟨fun t ht => ?_, hks⟩
  obtain ⟨ts, hts, ht⟩ := List.mem_flatten.1 ht
  exact htss ts hts t ht

theorem keeps_text (l : Significant) (s : String) (hl : TextLine l s) :
    l.line.kind ≠ .fence ∧ (l.line.kind.WellFormed → Free s) := by
  rw [TextLine] at hl
  rw [hl]
  exact ⟨by simp, id⟩

theorem keeps_row (l : Significant) (cells : List String) (hl : RowLine l cells) :
    l.line.kind ≠ .fence ∧
      (l.line.kind.WellFormed → cells ≠ [] ∧ ∀ cell ∈ cells, Trimmed cell) := by
  rw [RowLine] at hl
  rw [hl]
  exact ⟨by simp, id⟩

theorem keeps_description :
    Keeps DescriptionLines fun d => ∀ text ∈ d, DescriptionWellFormed text := by
  intro ls d ks h hk
  cases h with
  | absent => exact ⟨by simp, hk⟩
  | @present l ls s ss first more =>
    obtain ⟨hf, hs⟩ := keeps_text l s first
    obtain ⟨hw, hrest⟩ := legible_plain hk hf
    obtain ⟨hss, hks⟩ := keeps_lines (fun k t hkt => keeps_text k t hkt.1) more hrest
    refine ⟨fun text htext => ?_, hks⟩
    obtain rfl := Option.some.inj htext
    exact ⟨s :: ss, List.cons_ne_nil _ _, List.forall_mem_cons.2 ⟨hs hw, hss⟩, rfl⟩

theorem keeps_table : Keeps TableLines fun r => RowsWellFormed r.header r.table.rows := by
  intro ls r ks h hk
  obtain @⟨l, ls, header, data, first, more, hdata, hd, hwidth⟩ := h
  obtain ⟨hf, hh⟩ := keeps_row l header first
  obtain ⟨hw, hrest⟩ := legible_plain hk hf
  obtain ⟨hcells, hks⟩ := keeps_lines (fun k row hrow => keeps_row k row hrow.1) more hrest
  obtain ⟨hne, hnames⟩ := hh hw
  refine ⟨⟨hne, hd, hnames, ?_, ?_, ?_⟩, hks⟩
  · simpa [Rows.table, Table.ofCells] using hdata
  · intro b hb
    obtain ⟨row, hrow, rfl⟩ := List.mem_map.1 hb
    exact Bindings.keys_ofList_zip hd (hwidth row hrow)
  · intro b hb
    obtain ⟨row, hrow, rfl⟩ := List.mem_map.1 hb
    rw [Bindings.values_ofList_zip hd (hwidth row hrow)]
    exact (hcells row hrow).2

/-- Captured lines, up to the closing fence. -/
theorem keeps_captured {ls : List Significant} {ss : List String} {ks : List Kind}
    (h : List.Forall₂ TextLine ls ss) (hk : Legible true (kinds ls ++ .fence :: ks)) :
    (∀ s ∈ ss, Captured s) ∧ Legible false ks := by
  induction h with
  | nil =>
    cases hk with
    | closing rest => exact ⟨by simp, rest⟩
  | @cons l s ls ss hl _ ih =>
    rw [TextLine] at hl
    rw [kinds_cons, hl] at hk
    cases hk with
    | captured hs rest =>
      obtain ⟨hss, hks⟩ := ih rest
      exact ⟨List.forall_mem_cons.2 ⟨hs, hss⟩, hks⟩

/-- The lines of a doc string are the captured ones; an empty one has a single empty line. -/
theorem fenceless_intercalate {ss : List String} (h : ∀ s ∈ ss, Captured s) :
    Fenceless ("\n".intercalate ss) := by
  intro line hline
  rw [String.toList_intercalate] at hline
  by_cases hne : ss = []
  · rw [hne] at hline
    obtain rfl : line = [] := by simpa using hline
    decide
  · rw [String.toList_ofList, List.splitOn_intercalate '\n' ?_ (by simpa using hne)] at hline
    · obtain ⟨s, hs, rfl⟩ := List.mem_map.1 hline
      exact (h s hs).2
    · intro l hl
      obtain ⟨s, hs, rfl⟩ := List.mem_map.1 hl
      exact (h s hs).1

theorem keeps_docString : Keeps DocStringLines Fenceless := by
  intro ls s ks h hk
  obtain @⟨opening, closing, ls, ss, first, captured, last⟩ := h
  simp only [kinds_cons, kinds_append, first, last, List.cons_append, List.append_assoc] at hk
  cases hk with
  | plain _ other => exact absurd rfl other
  | opening rest =>
    obtain ⟨hss, hks⟩ := keeps_captured captured rest
    exact ⟨fenceless_intercalate hss, hks⟩

theorem keeps_argument : Keeps ArgumentLines fun a => ∀ b ∈ a, b.WellFormed := by
  intro ls a ks h hk
  cases h with
  | absent => exact ⟨by simp, hk⟩
  | table _ lines =>
    obtain ⟨hr, hks⟩ := keeps_table lines hk
    refine ⟨fun b hb => ?_, hks⟩
    obtain rfl := Option.some.inj hb
    exact hr
  | docString _ lines =>
    obtain ⟨hs, hks⟩ := keeps_docString lines hk
    refine ⟨fun b hb => ?_, hks⟩
    obtain rfl := Option.some.inj hb
    exact hs

theorem keeps_step : Keeps StepLines Step.WellFormed := by
  intro ls s ks h hk
  obtain @⟨l, ls, keyword, text, argument, first, attached⟩ := h
  rw [kinds_cons, first] at hk
  obtain ⟨⟨htrimmed, hne, hline⟩, hrest⟩ := legible_plain hk (by simp)
  obtain ⟨ha, hks⟩ := keeps_argument attached hrest
  exact ⟨⟨htrimmed, hne, hline, ha⟩, hks⟩

theorem keeps_body {ls : List Significant} {description : Option String} {steps : List Step}
    {ks : List Kind} (h : BodyLines ls description steps) (hk : Legible false (kinds ls ++ ks)) :
    (∀ d ∈ description, DescriptionWellFormed d) ∧ (∀ s ∈ steps, s.WellFormed) ∧
      Legible false ks := by
  obtain @⟨ds, ls, description, steps, opening, rest⟩ := h
  rw [kinds_append, List.append_assoc] at hk
  obtain ⟨hd, hrest⟩ := keeps_description opening hk
  obtain ⟨hs, hks⟩ := keeps_step.star rest hrest
  exact ⟨hd, hs, hks⟩

theorem keeps_examples : Keeps ExamplesLines fun r => RowsWellFormed r.header r.table.rows := by
  intro ls r ks h hk
  obtain @⟨l, ls, name, r, first, table⟩ := h
  rw [kinds_cons, first] at hk
  obtain ⟨-, hrest⟩ := legible_plain hk (by simp)
  exact keeps_table table hrest

/-! ## Sections and documents -/

/-- Rows of several tables under one header. -/
theorem rowsWellFormed_flatMap {tables : List Rows} {header : List String} (hne : tables ≠ [])
    (same : ∀ r ∈ tables, r.header = header)
    (h : ∀ r ∈ tables, RowsWellFormed r.header r.table.rows) :
    RowsWellFormed header (tables.flatMap fun r => r.table.rows) := by
  obtain ⟨first, hfirst⟩ := List.exists_mem_of_ne_nil tables hne
  have hall : ∀ r ∈ tables, RowsWellFormed header r.table.rows := fun r hr => same r hr ▸ h r hr
  have hone := hall first hfirst
  refine ⟨hone.columns, hone.distinct, hone.names, ?_, ?_, ?_⟩
  · intro hnil
    exact hone.nonempty (List.flatMap_eq_nil_iff.1 hnil first hfirst)
  · intro row hrow
    obtain ⟨r, hr, hrow⟩ := List.mem_flatMap.1 hrow
    exact (hall r hr).keys row hrow
  · intro row hrow
    obtain ⟨r, hr, hrow⟩ := List.mem_flatMap.1 hrow
    exact (hall r hr).cells row hrow

theorem keeps_scenario {tags : List Tag} (htags : ∀ t ∈ tags, t.WellFormed) :
    Keeps (ScenarioLines tags) Scenario.WellFormed := by
  intro ls s ks h hk
  cases h with
  | simple first body =>
    rw [kinds_cons, first] at hk
    obtain ⟨hname, hrest⟩ := legible_plain hk (by simp)
    obtain ⟨hd, hs, hks⟩ := keeps_body body hrest
    exact ⟨⟨hname, hd, htags, hs⟩, hks⟩
  | outline first body examples nonempty same =>
    simp only [kinds_cons, kinds_append, first, List.cons_append, List.append_assoc] at hk
    obtain ⟨hname, hrest⟩ := legible_plain hk (by simp)
    obtain ⟨hd, hs, hrest⟩ := keeps_body body hrest
    obtain ⟨hr, hks⟩ := keeps_examples.star examples hrest
    exact ⟨⟨⟨hname, hd, htags, hs⟩, _, rowsWellFormed_flatMap nonempty same hr⟩, hks⟩

theorem keeps_tagged : Keeps TaggedLines Scenario.WellFormed := by
  intro ls s ks h hk
  obtain @⟨ts, ls, tags, s, before, scenario⟩ := h
  rw [kinds_append, List.append_assoc] at hk
  obtain ⟨htags, hrest⟩ := keeps_tagLines before hk
  exact keeps_scenario htags scenario hrest

theorem keeps_background : Keeps BackgroundLines Block.WellFormed := by
  intro ls b ks h hk
  obtain ⟨before, first, body⟩ := h
  rw [kinds_append, List.append_assoc, kinds_cons, first] at hk
  obtain ⟨htags, hrest⟩ := keeps_tagLines before hk
  obtain ⟨hname, hrest⟩ := legible_plain hrest (by simp)
  obtain ⟨hd, hs, hks⟩ := keeps_body body hrest
  exact ⟨⟨hname, hd, htags, hs⟩, hks⟩

theorem keeps_document : Keeps DocumentLines Feature.WellFormed := by
  intro ls f ks h hk
  obtain ⟨before, first, opening, steps, rest, nonempty⟩ := h
  simp only [kinds_append, kinds_cons, first, List.append_assoc, List.cons_append] at hk
  obtain ⟨htags, hrest⟩ := keeps_tagLines before hk
  obtain ⟨hname, hrest⟩ := legible_plain hrest (by simp)
  obtain ⟨hd, hrest⟩ := keeps_description opening hrest
  obtain ⟨hb, hrest⟩ := keeps_background.opt steps hrest
  obtain ⟨hs, hks⟩ := keeps_tagged.star rest hrest
  exact ⟨⟨hname, hd, htags, hb, nonempty, hs⟩, hks⟩

end Gherkin.Grammar

namespace Gherkin

open Grammar

theorem Reads.legible {text : String} {ls : List Line} (h : Reads text ls) :
    Line.Legible false (kinds (significant false ls) ++ []) := by
  rw [List.append_nil]
  exact legible_significant (Reader.legible_items (fun _ => Text.newline_not_mem_lines) h)

theorem Feature.wellFormed_ofText {text : String} {f : Feature} (h : ofText text = .ok f) :
    f.WellFormed := by
  obtain ⟨ls, hls, hf⟩ := ofText_eq_ok_iff.1 h
  exact (keeps_document hf hls.legible).1

theorem Scenario.wellFormed_ofText {text : String} {s : Scenario} (h : ofText text = .ok s) :
    s.WellFormed := by
  obtain ⟨ls, hls, hs⟩ := ofText_eq_ok_iff.1 h
  exact (keeps_tagged hs hls.legible).1

/-- Every feature and every scenario read from a text is well formed. -/
theorem read_wellFormed (text : String) :
    (∀ f, Feature.ofText text = .ok f → f.WellFormed) ∧
      ∀ s, Scenario.ofText text = .ok s → s.WellFormed :=
  ⟨fun _ => Feature.wellFormed_ofText, fun _ => Scenario.wellFormed_ofText⟩

/-- A feature with every kind of part, and a scenario that stands alone. -/
theorem read_wellFormed_sample :
    (∃ f, Feature.ofText ("\n".intercalate ["@a", "Feature: F", "one", "two", "Background:",
        "Given b", "|x|y|", "|1|\\n|", "@s @t", "Scenario: S", "When c", "\"\"\"", "d", "\"\"\"",
        "Scenario Outline: O", "Then <x>", "Examples:", "|x|", "|1|", "Examples:", "|x|", "|2|"]) =
          .ok f ∧ f.WellFormed) ∧
      ∃ s, Scenario.ofText "@s\nScenario: S\nGiven a" = .ok s ∧ s.WellFormed := by
  constructor
  · refine exists_ok_and ?_ (read_wellFormed _).1
    decide +kernel
  · refine exists_ok_and ?_ (read_wellFormed _).2
    decide +kernel

end Gherkin
