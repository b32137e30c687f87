import Gherkin.Proofs.Accounting
import Gherkin.Proofs.Likeness
import Gherkin.Proofs.Pieces

/-
  Scenarios are blocks of their own. A scenario written after a document joins it and changes
  nothing else, and a document can be cut at line ends into a head and a block per scenario that
  is read alone as that scenario (`scenarios_independent`). No doc string is open where a part of
  the grammar ends (`Tallies.not_opened`), so the reader starts afresh in every block.
-/

namespace Gherkin.Grammar

open Line Reader

/-! ## No doc string is open after a part -/

theorem prose_append (inside : Bool) (ks ms : List Kind) :
    prose inside (ks ++ ms) = prose inside ks ++ prose (opened inside ks) ms := by
  induction ks generalizing inside with
  | nil => rfl
  | cons k ks ih => cases k <;> cases inside <;> simp [prose, opened, ih]

/-- Lines that say the same whatever follows them close the doc strings they open. -/
theorem Tallies.not_opened {ls : List Significant} {t : Tally} (h : Tallies ls t) :
    opened false (kinds ls) = false := by
  have hnil := congrArg Tally.prose (h [])
  have htext := congrArg Tally.prose (h [.text ""])
  rw [List.append_nil] at hnil
  have hprose : prose false (kinds ls) = t.prose := hnil.trans (List.append_nil _)
  have hall : prose false (kinds ls ++ [.text ""]) = t.prose ++ [some ""] := htext
  rw [prose_append, hprose, List.append_cancel_left_eq] at hall
  cases hopened : opened false (kinds ls) with
  | false => rfl
  | true => rw [hopened] at hall; cases hall

theorem not_opened_tagged {ls : List Significant} {s : Scenario} (h : TaggedLines ls s) :
    opened false (kinds ls) = false := by
  obtain ⟨before, scenario⟩ := h
  obtain ⟨-, es, marks, -, -, ht⟩ := tallies_scenario scenario
  exact ((tallies_tagLines before).append ht).not_opened

/-! ## A scenario after a document -/

theorem Star.concat {α : Type} {P : List Significant → α → Prop} {ls ms : List Significant}
    {v : α} {vs : List α} (h : Star P ls vs) (last : P ms v) : Star P (ls ++ ms) (vs ++ [v]) := by
  induction h with
  | nil =>
    have hlast := Star.cons last .nil
    rwa [List.append_nil] at hlast
  | cons first _ ih =>
    rw [List.append_assoc]
    exact .cons first ih

theorem DocumentLines.concat {ls ms : List Significant} {f : Feature} {s : Scenario}
    (h : DocumentLines ls f) (last : TaggedLines ms s) :
    DocumentLines (ls ++ ms) { f with scenarios := f.scenarios ++ [s] } := by
  obtain ⟨before, first, opening, steps, rest, nonempty⟩ := h
  simp only [List.append_assoc, List.cons_append]
  exact .document before first opening steps (rest.concat last) (by simp)

theorem TaggedLines.ne_nil {ls : List Significant} {s : Scenario} (h : TaggedLines ls s) :
    ls ≠ [] := by
  obtain ⟨before, scenario⟩ := h
  cases scenario <;> simp

theorem TaggedLines.after_blank {ls : List Line} {s : Scenario}
    (h : TaggedLines (significant false ls) s) (blank : Bool) :
    TaggedLines (significant blank ls) s := by
  cases hls : significant false ls with
  | nil => exact absurd hls h.ne_nil
  | cons l ms =>
    rw [hls] at h
    obtain ⟨b, hb⟩ := significant_of_cons hls blank
    rw [hb]
    exact h.of_kind rfl

end Gherkin.Grammar

namespace Gherkin

open Grammar Reader

theorem Feature.ofText_append {t u : String} {f : Feature} {s : Scenario}
    (hended : Text.Ended t.toList) (ht : ofText t = .ok f) (hu : Scenario.ofText u = .ok s) :
    ofText (t ++ u) = .ok { f with scenarios := f.scenarios ++ [s] } := by
  obtain ⟨ks, hks, hf⟩ := ofText_eq_ok_iff.1 ht
  obtain ⟨ms, hms, hs⟩ := Scenario.ofText_eq_ok_iff.1 hu
  obtain ⟨ns, hns, hkinds⟩ := hks.append hended hms
  have hs' := renumbers_tagged hs (alike_significant hkinds.symm false)
  refine ofText_eq_ok_iff.2 ⟨_, hns, ?_⟩
  rw [significant_append]
  exact hf.concat (hs'.after_blank _)

/-! ## The blocks of a document -/

/-- A text that is cut after its first significant lines, where no doc string is open. -/
theorem Reads.exists_cut_significant {text : String} {ls : List Line} {as bs : List Significant}
    (h : Reads text ls) (hls : significant false ls = as ++ bs) (ha : as ≠ []) (hb : bs ≠ [])
    (closed : opened false (kinds as) = false) :
    ∃ t u : String, text = t ++ u ∧ Text.Ended t.toList ∧
      (∃ ks, Reads t ks ∧ significant false ks = as) ∧
      ∃ ns, Reads u ns ∧ List.Forall₂ Alike bs (significant false ns) := by
  obtain ⟨ks, ms, rfl, rfl, rfl⟩ := exists_append_of_significant hls ha
  have hms : ms ≠ [] := by
    rintro rfl
    exact hb rfl
  rw [opened_significant] at closed
  obtain ⟨t, u, htext, hended, hks, ns, hns, hkinds⟩ := h.exists_cut hms closed
  exact ⟨t, u, htext, hended, ⟨ks, hks, rfl⟩, ns, hns, alike_significant hkinds.symm false⟩

theorem not_nil_of_star {ms : List Significant} {ss : List Scenario} (h : Star TaggedLines ms ss)
    (hne : ss ≠ []) : ms ≠ [] := by
  cases h with
  | nil => exact absurd rfl hne
  | cons first _ => simpa using fun e => absurd e first.ne_nil

/-- Texts that are scenarios on their own and make up the text; every one but the last ends with
a line end. -/
theorem exists_blocks {ms : List Significant} {ss : List Scenario} (h : Star TaggedLines ms ss)
    (hne : ss ≠ []) {text : String} {ls : List Line} (hls : Reads text ls)
    (halike : List.Forall₂ Alike ms (significant false ls)) :
    ∃ blocks, text = String.join blocks ∧ (∀ b ∈ blocks.dropLast, Text.Ended b.toList) ∧
      List.Forall₂ (fun b s => Scenario.ofText b = .ok s) blocks ss := by
  induction h generalizing text ls with
  | nil => exact absurd rfl hne
  | @cons as bs s ss first more ih =>
    by_cases hss : ss = []
    · subst hss
      cases more
      rw [List.append_nil] at halike
      have hs := renumbers_tagged first halike
      exact ⟨[text], by simp, by simp, .cons (Scenario.ofText_eq_ok_iff.2 ⟨ls, hls, hs⟩) .nil⟩
    · obtain ⟨cs, ds, hsplit, hcs, hds⟩ := exists_append_of_forall₂ halike
      have hfirst := renumbers_tagged first hcs
      have hds' : ds ≠ [] := by
        rintro rfl
        exact not_nil_of_star more hss (List.forall₂_nil_right_iff.1 hds)
      obtain ⟨t, u, rfl, hended, ⟨ks, hks, rfl⟩, ns, hns, hrest⟩ :=
        hls.exists_cut_significant hsplit hfirst.ne_nil hds' (not_opened_tagged hfirst)
      obtain ⟨blocks, rfl, hblocks, hreads⟩ := ih hss hns (alike_trans hds hrest)
      refine ⟨t :: blocks, by rw [String.join_cons], ?_,
        .cons (Scenario.ofText_eq_ok_iff.2 ⟨ks, hks, hfirst⟩) hreads⟩
      rw [List.dropLast_cons_of_ne_nil]
      · exact List.forall_mem_cons.2 ⟨hended, hblocks⟩
      · rintro rfl
        cases hreads
        exact hss rfl

/-- The lines of a document before its scenarios close the doc strings they open. -/
theorem exists_head {ls : List Significant} {f : Feature} (h : DocumentLines ls f) :
    ∃ as bs, ls = as ++ bs ∧ as ≠ [] ∧ opened false (kinds as) = false ∧
      Star TaggedLines bs f.scenarios ∧ f.scenarios ≠ [] := by
  obtain @⟨l, ts, ds, bs, ls, _, _, _, _, _, before, first, opening, steps, rest, nonempty⟩ := h
  obtain ⟨_, -, hopening⟩ := tallies_description opening
  obtain ⟨_, -, hbackground⟩ := tallies_background steps
  have hhead := (tallies_tagLines before).append
    ((tallies_line first (by simp)).append (hopening.append hbackground))
  exact ⟨ts ++ ([l] ++ (ds ++ bs)), ls, by simp, by simp, hhead.not_opened, rest, nonempty⟩

/-- Scenarios are blocks of their own: a scenario after an accepted text with an ended last line
joins its feature, and an accepted text can be cut at line ends into a head and a block for each
scenario of its feature, which is read from that block alone. -/
theorem scenarios_independent {text : String} {f : Feature} (h : Feature.ofText text = .ok f) :
    (∀ (u : String) (s : Scenario), Text.Ended text.toList → Scenario.ofText u = .ok s →
      Feature.ofText (text ++ u) = .ok { f with scenarios := f.scenarios ++ [s] }) ∧
    ∃ (head : String) (blocks : List String), text = head ++ String.join blocks ∧
      (∀ t ∈ (head :: blocks).dropLast, Text.Ended t.toList) ∧
      List.Forall₂ (fun block s => Scenario.ofText block = .ok s) blocks f.scenarios := by
  refine ⟨fun u s hended hs => Feature.ofText_append hended h hs, ?_⟩
  obtain ⟨ls, hls, hf⟩ := Feature.ofText_eq_ok_iff.1 h
  obtain ⟨as, bs, hsplit, has, closed, hstar, hne⟩ := exists_head hf
  obtain ⟨head, rest, rfl, hended, -, ns, hns, halike⟩ :=
    hls.exists_cut_significant hsplit has (not_nil_of_star hstar hne) closed
  obtain ⟨blocks, rfl, hblocks, hreads⟩ := exists_blocks hstar hne hns halike
  refine ⟨head, blocks, rfl, ?_, hreads⟩
  rw [List.dropLast_cons_of_ne_nil]
  · exact List.forall_mem_cons.2 ⟨hended, hblocks⟩
  · rintro rfl
    exact hne (List.forall₂_nil_left_iff.1 hreads)

theorem scenarios_independent_tagged :
    ∃ f, Feature.ofText "@a\nFeature: F\nBackground:\nGiven b\n@c\nScenario: S\nWhen w\n" = .ok f ∧
      ∃ s, Scenario.ofText "@d\nScenario Outline: O\nExamples:\n|x|\n|1|" = .ok s ∧
        Feature.ofText ("@a\nFeature: F\nBackground:\nGiven b\n@c\nScenario: S\nWhen w\n" ++
            "@d\nScenario Outline: O\nExamples:\n|x|\n|1|") =
          .ok { f with scenarios := f.scenarios ++ [s] } :=
  exists_ok_and (by decide +kernel) fun _ hf => exists_ok_and (by decide +kernel) fun s hs =>
    (scenarios_independent hf).1 _ s (by decide +kernel) hs

end Gherkin
