import Gherkin.Proofs.Failures
import Gherkin.Proofs.Positions

/-
  Faults point at lines that show them (`fault_located`). A fault is shown where the parser stops:
  by the line there, by a line that the reader does not know, or by the end of the text; what
  remains is the fence of a doc string that is not closed, and a first line that opens no document.
-/

namespace Gherkin

open Grammar Line Reader

open Text

/-! ## Faults that their lines show -/

/-- The line of the fault shows it; `opens` tells which lines can open the text. -/
def Fault.Shown (opens : Shape → Bool) (text : String) (f : Fault) : Prop :=
  match f.kind with
  | .missingExamples =>
    ∃ name, itemAt f.line text = some (.ok ⟨f.line, .heading .scenarioOutline name⟩)
  | .argumentConflict =>
    (∃ cells, itemAt f.line text = some (.ok ⟨f.line, .row cells⟩)) ∨
      itemAt f.line text = some (.ok ⟨f.line, .fence⟩)
  | .malformedTable =>
    fenceAt f.line text = none ∧ (∃ raw ∈ lineAt f.line text, ['|'] <+: trim raw) ∧
      ((∃ cells, itemAt f.line text = some (.ok ⟨f.line, .row cells⟩)) ∨
        itemAt f.line text = some (.error ⟨f.line, .rowUnclosed⟩))
  | .unknownKeyword =>
    fenceAt f.line text = none ∧
      ∃ raw ∈ lineAt f.line text, ∃ opening ∈ unsupported, opening.toList <+: trim raw
  | .unexpectedLine =>
    ∃ kind, itemAt f.line text = some (.ok ⟨f.line, kind⟩) ∧ kind ≠ .blank ∧ kind ≠ .comment
  | .malformed =>
    (∃ word, itemAt f.line text = some (.error ⟨f.line, .badTag word⟩)) ∨
      ((∃ kind, itemAt f.line text = some (.ok ⟨f.line, kind⟩) ∧ kind ≠ .blank ∧
          kind ≠ .comment ∧ opens kind.shape = false) ∧
        ∀ n, 1 ≤ n → n < f.line → ∃ l, itemAt n text = some (.ok l) ∧
          (l.kind = .blank ∨ l.kind = .comment))
  | .unexpectedEnd =>
    f.line = max 1 (lines text.toList).length ∨
      (itemAt f.line text = some (.ok ⟨f.line, .fence⟩) ∧ fenceAt f.line text = none ∧
        ∀ n raw, f.line < n → lineAt n text = some raw → trim raw ≠ fenceMark)

/-- The fault stands on a line of the text, which shows it. An empty text has a line for this. -/
structure Fault.Located (opens : Shape → Bool) (text : String) (f : Fault) : Prop where
  first : 1 ≤ f.line
  last : f.line ≤ max 1 (lines text.toList).length
  shown : f.Shown opens text

section Located

variable {opens : Shape → Bool} {text : String} {ls : List Significant} {f : Fault}

theorem located_of_hasLine (h : HasLine f.line text) (shown : f.Shown opens text) :
    f.Located opens text := ⟨h.1, Nat.le_trans h.2 (Nat.le_max_right _ _), shown⟩

theorem located_of_line {l : Significant} {rest : Cursor}
    (h : Cursor.ofText text = Cursor.prepend ls (.line l rest)) (number : f.line = l.line.number)
    (blames : f.kind.Blames l.line.kind) : f.Located opens text := by
  obtain ⟨hline, -, hitem, raw, hraw, hclassify⟩ := exists_line h
  have hkept := kept_of_line h
  have hread : itemAt f.line text = some (.ok ⟨f.line, l.line.kind⟩) := by rw [number, hitem]
  rw [← number] at hline hraw hclassify
  apply located_of_hasLine hline
  unfold Fault.Shown
  generalize l.line.kind = kind at blames hclassify hkept hread
  cases hk : f.kind with
  | missingExamples =>
    rw [hk] at blames
    cases kind with
    | heading h name =>
      cases h with
      | scenarioOutline => exact ⟨name, hread⟩
      | _ => exact blames.elim
    | _ => exact blames.elim
  | argumentConflict =>
    rw [hk] at blames
    cases kind with
    | row cells => exact .inl ⟨cells, hread⟩
    | fence => exact .inr hread
    | _ => exact blames.elim
  | malformedTable =>
    rw [hk] at blames
    cases kind with
    | row cells =>
      obtain ⟨houtside, hpipe⟩ := pipe_of_classify hclassify
      exact ⟨houtside, ⟨raw, hraw, hpipe⟩, .inl ⟨cells, hread⟩⟩
    | _ => exact blames.elim
  | unexpectedLine => exact ⟨kind, hread, hkept⟩
  | _ =>
    rw [hk] at blames
    exact blames.elim

theorem located_of_failed (h : Cursor.ofText text = Cursor.prepend ls (.failed f)) :
    f.Located opens text := by
  obtain ⟨hline, houtside, ⟨-, hitem, raw, hraw, hmarks⟩ | ⟨hcause, hfence, hbehind⟩⟩ :=
    exists_fault h
  · apply located_of_hasLine hline
    obtain ⟨n, cause⟩ := f
    cases cause with
    | unsupported opening => exact ⟨houtside, raw, hraw, opening, hmarks⟩
    | badTag word => exact .inl ⟨word, hitem⟩
    | rowUnclosed => exact ⟨houtside, ⟨raw, hraw, hmarks⟩, .inr hitem⟩
    | _ => exact hmarks.elim
  · apply located_of_hasLine hline
    have hkind : f.kind = .unexpectedEnd := by rw [Fault.kind, hcause]; rfl
    rw [Fault.Shown, hkind]
    exact .inr ⟨hfence, houtside, hbehind⟩

theorem located_of_ended {n : Nat} (h : Cursor.ofText text = Cursor.prepend ls (.ended n))
    (number : f.line = n) (kind : f.kind = .unexpectedEnd) : f.Located opens text := by
  rw [Cursor.ofText_eq_ofItems] at h
  obtain ⟨hend, -⟩ := Cursor.ofItems_eq_prepend_iff.1 h
  have hlast : f.line = max 1 (lines text.toList).length := by
    rw [number, hend, Nat.max_comm]
  have hshown : f.Shown opens text := by
    rw [Fault.Shown, kind]
    exact .inl hlast
  exact ⟨by omega, by omega, hshown⟩

/-- The place where the parser stops shows its fault. -/
theorem located_of_shows {d : Cursor} (h : Cursor.ofText text = Cursor.prepend ls d)
    (hd : d.Shows f) : f.Located opens text := by
  cases hd with
  | line number blames => exact located_of_line h number blames
  | ended number kind => exact located_of_ended h number kind
  | failed => exact located_of_failed h

/-- A first line that opens no document shows it. -/
theorem located_of_misopens (h : Parse.Misopens opens (Cursor.ofText text) f) :
    f.Located opens text := by
  obtain ⟨hkind, l, rest, hc, number, hother⟩ := h
  rw [← Cursor.prepend_nil (.line l rest)] at hc
  obtain ⟨hline, ⟨as, bs, hnumber, hitems, hnone⟩, hitem, -⟩ := exists_line hc
  obtain ⟨hblank, hcomment⟩ := kept_of_line hc
  have hread : itemAt f.line text = some (.ok ⟨f.line, l.line.kind⟩) := by rw [number, hitem]
  rw [← number] at hline hnumber
  apply located_of_hasLine hline
  rw [Fault.Shown, hkind]
  refine .inr ⟨⟨l.line.kind, hread, hblank, hcomment, hother⟩, fun n hfirst hn => ?_⟩
  have hlt : n - 1 < as.length := by omega
  refine ⟨as[n - 1], ?_, skipped_of_significant hnone _ (List.getElem_mem hlt)⟩
  rw [itemAt, hitems, List.getElem?_append_left (by rwa [List.length_map]), List.getElem?_map,
    List.getElem?_eq_getElem hlt, Option.map_some]

end Located

/-- The fault of a text that is no feature, or no scenario on its own, stands on one of its lines,
and that line shows it. -/
theorem fault_located (text : String) (f : Fault) :
    (Feature.ofText text = .error f → f.Located (fun s => s = .heading .feature) text) ∧
      (Scenario.ofText text = .error f → f.Located Parse.opensScenario text) := by
  refine ⟨fun h => ?_, fun h => ?_⟩
  · rw [Feature.ofText_eq] at h
    obtain hopens | ⟨ls, d, hls, hd, -⟩ := Parse.feature_stops h (Cursor.readable_ofText text)
    · exact located_of_misopens hopens
    · exact located_of_shows hls hd
  · obtain hopens | ⟨ls, d, hls, hd, -⟩ := Parse.loneScenario_stops h (Cursor.readable_ofText text)
    · exact located_of_misopens hopens
    · exact located_of_shows hls hd

/-- A doc string that is not closed, and a heading where a scenario should stand. -/
theorem fault_located_fence :
    (Feature.ofText "Feature: F\nScenario: S\nGiven a\n\"\"\"\nb" = .error ⟨4, .fenceUnclosed⟩ ∧
      Fault.Located (fun s => s = .heading .feature)
        "Feature: F\nScenario: S\nGiven a\n\"\"\"\nb" ⟨4, .fenceUnclosed⟩) ∧
    (Scenario.ofText "# c\n\nFeature: F" =
        .error ⟨3, .unexpected .malformed .scenario (.heading .feature)⟩ ∧
      Fault.Located Parse.opensScenario "# c\n\nFeature: F"
        ⟨3, .unexpected .malformed .scenario (.heading .feature)⟩) :=
  have hfeature : Feature.ofText "Feature: F\nScenario: S\nGiven a\n\"\"\"\nb" =
      .error ⟨4, .fenceUnclosed⟩ := by decide +kernel
  have hscenario : Scenario.ofText "# c\n\nFeature: F" =
      .error ⟨3, .unexpected .malformed .scenario (.heading .feature)⟩ := by decide +kernel
  ⟨⟨hfeature, (fault_located _ _).1 hfeature⟩, hscenario, (fault_located _ _).2 hscenario⟩

end Gherkin
