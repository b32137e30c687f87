import Gherkin.Proofs.Cuts

/-
  Documents that are being typed. The first lines of an accepted text are accepted too, or they fail
  for want of more, so what fails for any other reason stays refused (`unfinished_accepted`). What
  is read from the first lines foresees what is read from all of them: only the last scenario can
  still change.
-/

namespace Gherkin

open Cursor Grammar Reader

/-- A feature that is read from the first lines of a text, and the one that is read from all of
them. -/
structure Resumes (g f : Feature) : Prop where
  name : g.name = f.name
  tags : g.tags = f.tags
  description : g.description = f.description
  background : g.background = f.background
  scenarios : g.scenarios.dropLast <+: f.scenarios

/-- Where all lines give a result, the first of them give one that is `R` to it, or end too
early. -/
def Foresees {α : Type} (R : α → α → Prop) (P : Cursor → Except Fault α) (e : Cursor)
    (ls : List Significant) : Prop :=
  ∀ c w, P (prepend ls c) = .ok w →
    Unfinished (P (prepend ls e)) ∨ ∃ v, P (prepend ls e) = .ok v ∧ R v w

section Foresees

variable {α β : Type} {left : List Significant → Prop} {P : Cursor → Except Fault (α × Cursor)}
  {Q : α → Cursor → Except Fault β} {e : Cursor} {ls : List Significant}

/-- A part and what comes after it. Where the part ends with the text, what comes after it is
wanting, or it gives what may go on in any way. -/
theorem Foresees.bind {R : β → β → Prop} (hP : Cut left P e ls)
    (hQ : ∀ v ms, (∀ c, P (prepend ls c) = .ok (v, prepend ms c)) → Foresees R (Q v) e ms)
    (hend : ∀ v ms, left ms → Unfinished (Q v (prepend ms e)) ∨
      ∃ w, Q v (prepend ms e) = .ok w ∧ ∀ w', R w w') :
    Foresees R (fun c => P c >>= fun r => Q r.1 r.2) e ls := by
  intro c w h
  dsimp only at h ⊢
  obtain ⟨⟨v, d⟩, hv, hw⟩ := Parse.bind_eq_ok.1 h
  cases hP with
  | settled u ms length done =>
    obtain ⟨rfl, rfl⟩ := Prod.mk.inj (Except.ok.inj ((done c).symm.trans hv))
    rw [Parse.bind_ok (done e)]
    exact hQ u ms done c w hw
  | refused nonempty fails => exact absurd hv (fails c _)
  | unfinished fails => exact .inl (fails.bind _)
  | spent u ms rest done =>
    rw [Parse.bind_ok done]
    exact (hend u ms rest).imp id fun ⟨w', hw', hR⟩ => ⟨w', hw', hR w⟩

/-- One more element before a list whose last one can still change. -/
theorem Foresees.cons {T : Cursor → Except Fault (List β)} (b : β)
    (h : Foresees (fun l l' => l.dropLast <+: l') T e ls) :
    Foresees (fun l l' => l.dropLast <+: l') (fun c => T c >>= fun l => .ok (b :: l)) e ls := by
  intro c w hw
  obtain ⟨l', hl', hw⟩ := Parse.bind_eq_ok.1 hw
  obtain rfl := Except.ok.inj hw
  rcases h c l' hl' with hfails | ⟨l, hl, hprefix⟩
  · exact .inl (hfails.bind _)
  · refine .inr ⟨b :: l, Parse.bind_ok hl _, ?_⟩
    cases l with
    | nil => exact List.nil_prefix
    | cons a l => exact List.cons_prefix_cons.2 ⟨rfl, hprefix⟩

/-- No line is left for a part, and what comes after it is wanting. -/
theorem Cut.unfinished_bind (hleft : left []) (hP : Cut left P e [])
    (hQ : ∀ v ms, left ms → Unfinished (Q v (prepend ms e))) :
    Unfinished (P e >>= fun r => Q r.1 r.2) := by
  have hread {v : α} {ms : List Significant} (done : P e = .ok (v, prepend ms e)) (h : left ms) :
      Unfinished (P e >>= fun r => Q r.1 r.2) := by
    rw [Parse.bind_ok done]
    exact hQ v ms h
  cases hP with
  | settled v ms length done =>
    obtain rfl := List.eq_nil_of_length_eq_zero (Nat.le_zero.1 length)
    exact hread (done e) hleft
  | refused nonempty => exact absurd rfl nonempty
  | unfinished fails => exact fails.bind _
  | spent v ms rest done => exact hread done rest

end Foresees

namespace Parse

variable {e : Cursor} (he : e.Spent)
include he

/-! ## Scenarios up to the end of the text -/

theorem scenarioAhead_at_end {ls : List Significant} (h : OnlyTags ls) :
    Unfinished (scenarioAhead (prepend ls e)) ∨ scenarioAhead (prepend ls e) = .ok false := by
  rcases tags_at_end he h with hfails | ⟨ts, n, rfl, hread⟩
  · exact .inl (hfails.bind _)
  · have hahead : scenarioAhead (prepend ls (.ended n)) = if ts ≠ [] then
        .error ⟨n, .unexpected .unexpectedLine .sectionAfterTags .end⟩ else .ok false := by
      rw [scenarioAhead, bind_ok hread]
      rfl
    rw [hahead]
    split
    · exact .inl (unfinished_of_kind rfl)
    · exact .inr rfl

theorem looks_scenarioAhead (ls : List Significant) : Looks scenarioAhead false e ls := by
  rcases tags_cut ls with ⟨tss, l, ms, length, -, h⟩ | htags
  · have hread (c : Cursor) : tags (prepend ls c) = .ok (tss.flatten, prepend (l :: ms) c) := by
      rw [tags, h]
      rfl
    refine .inl ⟨ne_nil_of_length_le length (List.cons_ne_nil _ _), scenarioAhead (prepend ls e),
      fun c => ?_⟩
    rw [scenarioAhead, scenarioAhead, bind_ok (hread c), bind_ok (hread e)]
    rfl
  · exact .inr ⟨htags, scenarioAhead_at_end he htags⟩

omit he in
theorem unfinished_scenarios {c : Cursor} (ahead : Unfinished (scenarioAhead c)) :
    Unfinished (scenarios c).result := by
  rw [scenarios, Logged.result_bind]
  exact ahead.bind _

theorem scenarios_at_end {ls : List Significant} (h : OnlyTags ls) :
    Unfinished (scenarios (prepend ls e)).result ∨ (scenarios (prepend ls e)).result = .ok [] :=
  (scenarioAhead_at_end he h).imp unfinished_scenarios scenarios_eq_nil

/-- All scenarios but the last are what they are with more lines. -/
theorem foresees_scenarios (ls : List Significant) :
    Foresees (fun ss ss' => ss.dropLast <+: ss') (fun c => (scenarios c).result) e ls := by
  -- on the lines that are there: a scenario is done within them, or it is the last one they hold
  induction hn : ls.length using Nat.strongRecOn generalizing ls with
  | _ n ih =>
    intro c w h
    dsimp only at h ⊢
    rcases looks_scenarioAhead he ls with ⟨-, x, hx⟩ | ⟨-, hfails | hnone⟩
    · rcases x with f | _ | _
      · rw [scenarios, Logged.result_bind, result_lift, hx] at h
        cases h
      · exact .inr ⟨[], scenarios_eq_nil (hx e), List.nil_prefix⟩
      · have hmore (s : Scenario) (ms : List Significant) (hless : ms.length < n) :
            Foresees (fun ss ss' => ss.dropLast <+: ss')
              (fun c => (scenarios c).result >>= fun more => .ok (s :: more)) e ms :=
          (ih ms.length hless ms rfl).cons s
        have hfirst : Foresees (fun ss ss' => ss.dropLast <+: ss') (fun c =>
            (taggedScenario c).result >>= fun r =>
              (scenarios r.2).result >>= fun more => .ok (r.1 :: more)) e ls := by
          refine Foresees.bind (cut_taggedScenario he ls) (fun s ms done =>
            hmore s ms (hn ▸ length_lt_of_size size_of_taggedScenario done)) fun s ms hms => ?_
          rcases scenarios_at_end he hms with hfails | hnone
          · exact .inl (hfails.bind _)
          · exact .inr ⟨[s], bind_ok hnone _, fun _ => List.nil_prefix⟩
        rw [scenarios_eq_bind (hx c)] at h
        rw [scenarios_eq_bind (hx e)]
        exact hfirst c w h
    · exact .inl (unfinished_scenarios hfails)
    · exact .inr ⟨[], scenarios_eq_nil hnone, List.nil_prefix⟩

/-! ## Features -/

theorem cut_opening (ts : List Tag) (ls : List Significant) : Cut Whole (opening ts) e ls := by
  refine cut_peek he ls (fun n _ => .inl (unfinished_of_kind rfl)) fun l ms => ?_
  by_cases hl : l.line.kind.shape = .heading .feature
  · simp only [if_pos hl]
    exact cut_heading he .feature (l :: ms)
  · simp only [if_neg hl]
    exact .refused (List.cons_ne_nil _ _) fun _ _ => nofun

/-- A feature without a scenario ends too early. -/
theorem unfinished_without_scenarios (ls : List Significant) (name : String) :
    Unfinished ((prepend ls e).peek >>= fun last =>
      (.error ⟨last.line, .noScenarios name⟩ : Except Fault Feature)) := by
  cases ls with
  | nil =>
    rcases peek_spent he with hpeek | ⟨n, rfl⟩
    · exact hpeek.bind _
    · exact unfinished_of_kind rfl
  | cons l ms =>
    rw [bind_ok (peek_cons l ms e)]
    exact unfinished_of_kind rfl

theorem closing_at_end (ts : List Tag) (name : String) (description : Option String)
    (b : Option Block) {ls : List Significant} (h : OnlyTags ls) :
    Unfinished (closing ts name description b (prepend ls e)) := by
  rcases scenarios_at_end he h with hfails | hnone
  · exact hfails.bind _
  · rw [closing, bind_ok hnone, if_pos rfl]
    exact unfinished_without_scenarios he ls name

theorem sections_at_end (ts : List Tag) (name : String) (description : Option String)
    {ls : List Significant} (h : Whole ls) :
    Unfinished (sections ts name description (prepend ls e)) := by
  obtain rfl : ls = [] := h
  exact (cut_background? he []).unfinished_bind onlyTags_nil fun b _ hms =>
    closing_at_end he ts name description b hms

theorem underHeading_at_end (ts : List Tag) (name : String) {ls : List Significant}
    (h : Whole ls) : Unfinished (underHeading ts name (prepend ls e)) := by
  obtain rfl : ls = [] := h
  exact (cut_description he []).unfinished_bind whole_nil fun description _ hms =>
    sections_at_end he ts name description hms

theorem foresees_closing (ts : List Tag) (name : String) (description : Option String)
    (b : Option Block) (ls : List Significant) :
    Foresees Resumes (closing ts name description b) e ls := by
  intro c f h
  obtain ⟨ss, hss, h⟩ := bind_eq_ok.1 h
  split at h
  · obtain ⟨_, -, h⟩ := bind_eq_ok.1 h
    cases h
  · obtain rfl := Except.ok.inj h
    rcases foresees_scenarios he ls c ss hss with hfails | ⟨first, hfirst, hprefix⟩
    · exact .inl (hfails.bind _)
    · rw [closing, bind_ok hfirst]
      split
      · exact .inl (unfinished_without_scenarios he ls name)
      · exact .inr ⟨_, rfl, rfl, rfl, rfl, rfl, hprefix⟩

theorem foresees_sections (ts : List Tag) (name : String) (description : Option String)
    (ls : List Significant) : Foresees Resumes (sections ts name description) e ls :=
  Foresees.bind (cut_background? he ls)
    (fun b ms _ => foresees_closing he ts name description b ms)
    fun b _ h => .inl (closing_at_end he ts name description b h)

theorem foresees_underHeading (ts : List Tag) (name : String) (ls : List Significant) :
    Foresees Resumes (underHeading ts name) e ls :=
  Foresees.bind (cut_description he ls)
    (fun description ms _ => foresees_sections he ts name description ms)
    fun description _ h => .inl (sections_at_end he ts name description h)

/-- What is read of a feature from its first lines is what it has, but for the last scenario. -/
theorem foresees_feature (ls : List Significant) :
    Foresees Resumes (fun c => (feature c).result) e ls := by
  have hopened (ts : List Tag) (ls : List Significant) :
      Foresees Resumes (fun c => opening ts c >>= fun o => underHeading ts o.1.2 o.2) e ls :=
    Foresees.bind (cut_opening he ts ls) (fun o ms _ => foresees_underHeading he ts o.2 ms)
      fun o _ h => .inl (underHeading_at_end he ts o.2 h)
  simp only [feature_eq]
  refine Foresees.bind (cut_tags he ls) (fun ts ms _ => hopened ts ms) fun ts ms h => .inl ?_
  obtain rfl : ms = [] := h
  exact (cut_opening he ts []).unfinished_bind whole_nil fun o _ h =>
    underHeading_at_end he ts o.2 h

end Parse

/-! ## First lines of a text -/

theorem Cursor.ofItems_append (number : Nat) (blank : Bool) (ls : List Line)
    (items : List Item) : ofItems number blank (ls.map .ok ++ items) =
      prepend (significant blank ls) (ofItems number (blankAfter blank ls) items) := by
  induction ls generalizing blank with
  | nil => rfl
  | cons l ls ih =>
    rw [List.map_cons, List.cons_append]
    cases hl : l.kind <;> simp only [ofItems, significant, blankAfter, hl, ih, prepend_cons]

/-- After its first lines, a text that is cut off there ends. -/
theorem Reads.exists_spent {t text : String} {ls : List Line} (h : Reads text ls)
    (hlines : Text.lines t.toList <+: Text.lines text.toList) :
    ∃ ms e c, e.Spent ∧ Cursor.ofText t = prepend ms e ∧ Cursor.ofText text = prepend ms c := by
  obtain ⟨raws, hraws⟩ := hlines
  obtain ⟨hread, -⟩ := reads_iff.1 h
  rw [← hraws, readLines_append] at hread
  obtain ⟨ks, ms, rfl, hks, -⟩ := List.map_eq_append_iff.1 hread.symm
  have hitems : (Reader.ofText text.toList).items = (ks ++ ms).map .ok := h
  have htext : Cursor.ofText text = prepend (significant false ks)
      (ofItems (max (Text.lines text.toList).length 1) (blankAfter false ks) (ms.map .ok)) := by
    rw [Cursor.ofText_eq_ofItems, hitems, List.map_append, ofItems_append]
  have ht : Cursor.ofText t = prepend (significant false ks)
      (ofItems (max (Text.lines t.toList).length 1) (blankAfter false ks)
        ((fenceAfter 0 none (Text.lines t.toList)).toList.map fun f =>
          .error ⟨f.line, .fenceUnclosed⟩)) := by
    rw [Cursor.ofText_eq_ofItems, Reader.ofText, Reader.items, itemsFrom_eq, ← hks,
      ofItems_append]
  refine ⟨_, _, _, ?_, ht, htext⟩
  cases fenceAfter 0 none (Text.lines t.toList) with
  | none => exact .ended _
  | some f => exact .failed rfl

/-- A text that is being typed is never refused for good: the first lines of an accepted text are
read as a feature that this text resumes, or they end too early or in an outline that has no
examples yet. What fails for another reason is refused with any text after it. -/
theorem unfinished_accepted (t : String) :
    (∀ (text : String) (f : Feature), Text.lines t.toList <+: Text.lines text.toList →
      Feature.ofText text = .ok f →
        Unfinished (Feature.ofText t) ∨ ∃ g, Feature.ofText t = .ok g ∧ Resumes g f) ∧
    (Text.Ended t.toList → ∀ e, Feature.ofText t = .error e → ¬e.Premature →
      ∀ (u : String) (f : Feature), Feature.ofText (t ++ u) ≠ .ok f) := by
  have hfirst (text : String) (f : Feature)
      (hlines : Text.lines t.toList <+: Text.lines text.toList)
      (h : Feature.ofText text = .ok f) :
      Unfinished (Feature.ofText t) ∨ ∃ g, Feature.ofText t = .ok g ∧ Resumes g f := by
    obtain ⟨ls, hls, -⟩ := Feature.ofText_eq_ok_iff.1 h
    obtain ⟨ms, e, c, he, ht, htext⟩ := hls.exists_spent hlines
    rw [Feature.ofText_eq, htext] at h
    rw [Feature.ofText_eq, ht]
    exact Parse.foresees_feature he ms c f h
  refine ⟨hfirst, fun hended e he hother u f h => ?_⟩
  have hlines : Text.lines t.toList <+: Text.lines (t ++ u).toList := by
    rw [String.toList_append, Text.lines_append hended]
    exact List.prefix_append _ _
  rcases hfirst (t ++ u) f hlines h with ⟨e', he', hpremature⟩ | ⟨g, hg, -⟩
  · obtain rfl := Except.error.inj (he.symm.trans he')
    exact hother hpremature
  · cases he.symm.trans hg

/-- A text that is cut off after its first scenario, and a header that names a column twice. -/
theorem unfinished_accepted_table :
    (∃ f, Feature.ofText "Feature: F\nScenario: S\nGiven a\n| x |\n| 1 |\n@t\nScenario: T\n" =
        .ok f ∧
      ∃ g, Feature.ofText "Feature: F\nScenario: S\nGiven a\n" = .ok g ∧ Resumes g f) ∧
    Feature.ofText "Feature: F\nScenario: S\nGiven a\n| x | x |\n| 1 | 2 |\n" =
        .error ⟨4, .duplicateColumn "x"⟩ ∧
      ∀ u f, Feature.ofText ("Feature: F\nScenario: S\nGiven a\n| x | x |\n| 1 | 2 |\n" ++ u) ≠
        .ok f := by
  have hfault : Feature.ofText "Feature: F\nScenario: S\nGiven a\n| x | x |\n| 1 | 2 |\n" =
      .error ⟨4, .duplicateColumn "x"⟩ := by decide +kernel
  refine ⟨exists_ok_and (by decide +kernel) fun f hf => exists_ok_and (by decide +kernel)
    fun g hg => ?_, hfault, (unfinished_accepted _).2 (by decide +kernel) _ hfault (by decide)⟩
  rcases (unfinished_accepted "Feature: F\nScenario: S\nGiven a\n").1 _ f (by decide +kernel) hf
    with ⟨e, he, -⟩ | ⟨g', hg', h⟩
  · cases hg.symm.trans he
  · obtain rfl := Except.ok.inj (hg.symm.trans hg')
    exact h

end Gherkin
