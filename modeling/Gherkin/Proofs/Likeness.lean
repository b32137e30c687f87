import Gherkin.Proofs.Grammar

/-
  What the grammar sees of a line: its kind, and whether a blank line stands before it. Lines that
  are alike in both derive the same values, whatever their numbers (`Renumbers`), so a part of a
  text can be read at another place. The first line of a scenario may even follow a blank line or
  not (`TaggedLines.of_kind`).
-/

namespace Gherkin.Grammar

/-- The grammar cannot tell the lines apart. -/
structure Alike (l m : Significant) : Prop where
  kind : l.line.kind = m.line.kind
  afterBlank : l.afterBlank = m.afterBlank

theorem alike_significant {ls ms : List Line} (h : ls.map Line.kind = ms.map Line.kind)
    (blank : Bool) : List.Forall₂ Alike (significant blank ls) (significant blank ms) := by
  induction ls generalizing ms blank with
  | nil =>
    obtain rfl := List.map_eq_nil_iff.1 h.symm
    exact .nil
  | cons l ls ih =>
    cases ms with
    | nil => cases h
    | cons m ms =>
      obtain ⟨hk, hrest⟩ := List.cons.inj h
      unfold significant
      rw [← hk]
      split
      · exact ih hrest true
      · exact ih hrest blank
      · exact .cons ⟨hk, rfl⟩ (ih hrest false)

theorem alike_trans {as bs cs : List Significant} (h : List.Forall₂ Alike as bs)
    (h' : List.Forall₂ Alike bs cs) : List.Forall₂ Alike as cs := by
  induction h generalizing cs with
  | nil => exact h'
  | cons hl _ ih =>
    cases h' with
    | cons hm hrest =>
      exact .cons ⟨hl.kind.trans hm.kind, hl.afterBlank.trans hm.afterBlank⟩ (ih hrest)

theorem exists_append_of_forall₂ {α β : Type} {R : α → β → Prop} {as bs : List α} {ms : List β}
    (h : List.Forall₂ R (as ++ bs) ms) :
    ∃ cs ds, ms = cs ++ ds ∧ List.Forall₂ R as cs ∧ List.Forall₂ R bs ds := by
  induction as generalizing ms with
  | nil => exact ⟨[], ms, rfl, .nil, h⟩
  | cons a as ih =>
    cases h with
    | cons hl hrest =>
      obtain ⟨cs, ds, rfl, has, hbs⟩ := ih hrest
      exact ⟨_ :: cs, ds, rfl, .cons hl has, hbs⟩

/-! ## Single lines -/

/-- Lines that are alike stand for the same values. -/
def Respects {α : Type} (R : Significant → α → Prop) : Prop :=
  ∀ (l m : Significant) (a : α), R l a → Alike l m → R m a

theorem respects_tagLine : Respects TagLine := fun _ _ _ h hl => hl.kind.symm.trans h

theorem respects_textLine : Respects TextLine := fun _ _ _ h hl => hl.kind.symm.trans h

theorem respects_rowLine : Respects RowLine := fun _ _ _ h hl => hl.kind.symm.trans h

theorem Respects.directly {α : Type} {R : Significant → α → Prop} (hR : Respects R) :
    Respects (Directly R) :=
  fun l m a h hl => ⟨hR l m a h.1 hl, hl.afterBlank.symm.trans h.2⟩

/-! ## Productions -/

/-- Lines that are alike derive the same values. -/
def Renumbers {α : Type} (P : List Significant → α → Prop) : Prop :=
  ∀ {ls ms : List Significant} {v : α}, P ls v → List.Forall₂ Alike ls ms → P ms v

theorem Respects.lines {α : Type} {R : Significant → α → Prop} (hR : Respects R) :
    Renumbers (List.Forall₂ R) := by
  intro ls ms vs h hl
  induction h generalizing ms with
  | nil => cases hl; exact .nil
  | cons first _ ih =>
    cases hl with
    | cons hl hrest => exact .cons (hR _ _ _ first hl) (ih hrest)

theorem Renumbers.star {α : Type} {P : List Significant → α → Prop} (hP : Renumbers P) :
    Renumbers (Star P) := by
  intro ls ms vs h hl
  induction h generalizing ms with
  | nil => cases hl; exact .nil
  | cons first _ ih =>
    obtain ⟨cs, ds, rfl, hcs, hds⟩ := exists_append_of_forall₂ hl
    exact .cons (hP first hcs) (ih hds)

theorem Renumbers.opt {α : Type} {P : List Significant → α → Prop} (hP : Renumbers P) :
    Renumbers (Opt P) := by
  intro ls ms v h hl
  cases h with
  | none => cases hl; exact .none
  | some part => exact .some (hP part hl)

theorem renumbers_description : Renumbers DescriptionLines := by
  intro ls ms d h hl
  cases h with
  | absent => cases hl; exact .absent
  | present first more =>
    cases hl with
    | cons hl hrest =>
      exact .present (respects_textLine _ _ _ first hl)
        (respects_textLine.directly.lines more hrest)

theorem renumbers_table : Renumbers TableLines := by
  intro ls ms r h hl
  obtain ⟨first, more, nonempty, distinct, even⟩ := h
  cases hl with
  | cons hl hrest =>
    exact .rows (respects_rowLine _ _ _ first hl) (respects_rowLine.directly.lines more hrest)
      nonempty distinct even

theorem renumbers_docString : Renumbers DocStringLines := by
  intro ls ms s h hl
  obtain ⟨first, captured, last⟩ := h
  cases hl with
  | cons hl hrest =>
    obtain ⟨cs, ds, rfl, hcs, hds⟩ := exists_append_of_forall₂ hrest
    cases hds with
    | cons hd hnil =>
      cases hnil
      exact .fenced (hl.kind.symm.trans first) (respects_textLine.lines captured hcs)
        (hd.kind.symm.trans last)

theorem renumbers_argument : Renumbers ArgumentLines := by
  intro ls ms a h hl
  cases h with
  | absent => cases hl; exact .absent
  | table direct lines =>
    have hms := renumbers_table lines hl
    cases hl with
    | cons hl hrest => exact .table (hl.afterBlank.symm.trans direct) hms
  | docString direct lines =>
    have hms := renumbers_docString lines hl
    cases hl with
    | cons hl hrest => exact .docString (hl.afterBlank.symm.trans direct) hms

theorem renumbers_step : Renumbers StepLines := by
  intro ls ms s h hl
  obtain ⟨first, attached⟩ := h
  cases hl with
  | cons hl hrest =>
    exact .step (hl.kind.symm.trans first) (renumbers_argument attached hrest)

theorem BodyLines.alike {ls ms : List Significant} {description : Option String}
    {steps : List Step} (h : BodyLines ls description steps) (hl : List.Forall₂ Alike ls ms) :
    BodyLines ms description steps := by
  obtain ⟨opening, rest⟩ := h
  obtain ⟨cs, ds, rfl, hcs, hds⟩ := exists_append_of_forall₂ hl
  exact .body (renumbers_description opening hcs) (renumbers_step.star rest hds)

theorem renumbers_examples : Renumbers ExamplesLines := by
  intro ls ms r h hl
  obtain ⟨first, table⟩ := h
  cases hl with
  | cons hl hrest => exact .examples (hl.kind.symm.trans first) (renumbers_table table hrest)

theorem renumbers_scenario (tags : List Tag) : Renumbers (ScenarioLines tags) := by
  intro ls ms s h hl
  cases h with
  | simple first body =>
    cases hl with
    | cons hl hrest => exact .simple (hl.kind.symm.trans first) (body.alike hrest)
  | outline first body examples nonempty same =>
    cases hl with
    | cons hl hrest =>
      obtain ⟨cs, ds, rfl, hcs, hds⟩ := exists_append_of_forall₂ hrest
      exact .outline (hl.kind.symm.trans first) (body.alike hcs)
        (renumbers_examples.star examples hds) nonempty same

theorem renumbers_tagged : Renumbers TaggedLines := by
  intro ls ms s h hl
  obtain ⟨before, scenario⟩ := h
  obtain ⟨cs, ds, rfl, hcs, hds⟩ := exists_append_of_forall₂ hl
  exact .tagged (respects_tagLine.lines before hcs) (renumbers_scenario _ scenario hds)

theorem renumbers_background : Renumbers BackgroundLines := by
  intro ls ms b h hl
  obtain ⟨before, first, body⟩ := h
  obtain ⟨cs, ds, rfl, hcs, hds⟩ := exists_append_of_forall₂ hl
  cases hds with
  | cons hd hrest =>
    exact .background (respects_tagLine.lines before hcs) (hd.kind.symm.trans first)
      (body.alike hrest)

theorem renumbers_document : Renumbers DocumentLines := by
  intro ls ms f h hl
  obtain ⟨before, first, opening, steps, rest, nonempty⟩ := h
  obtain ⟨cs, ds, rfl, hcs, hds⟩ := exists_append_of_forall₂ hl
  cases hds with
  | cons hd hrest =>
    obtain ⟨es, gs, rfl, hes, hgs⟩ := exists_append_of_forall₂ hrest
    obtain ⟨bs, ss, rfl, hbs, hss⟩ := exists_append_of_forall₂ hgs
    exact .document (respects_tagLine.lines before hcs) (hd.kind.symm.trans first)
      (renumbers_description opening hes) (renumbers_background.opt steps hbs)
      (renumbers_tagged.star rest hss) nonempty

/-- A scenario may follow a blank line or not. -/
theorem TaggedLines.of_kind {l m : Significant} {ls : List Significant} {s : Scenario}
    (h : TaggedLines (l :: ls) s) (hk : l.line.kind = m.line.kind) : TaggedLines (m :: ls) s := by
  generalize he : l :: ls = ks at h
  obtain @⟨ts, ns, tags, s, before, scenario⟩ := h
  cases before with
  | nil =>
    cases scenario with
    | simple first body =>
      obtain ⟨rfl, rfl⟩ := List.cons.inj he
      exact .tagged .nil (.simple (hk.symm.trans first) body)
    | outline first body examples nonempty same =>
      obtain ⟨rfl, rfl⟩ := List.cons.inj he
      exact .tagged .nil (.outline (hk.symm.trans first) body examples nonempty same)
  | cons first more =>
    obtain ⟨rfl, rfl⟩ := List.cons.inj he
    exact .tagged (.cons (hk.symm.trans first) more) scenario

end Gherkin.Grammar
