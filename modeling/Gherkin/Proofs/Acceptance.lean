import Gherkin.Proofs.Documents
import Gherkin.Proofs.Reading

/-
  Which texts are documents. A text is read as a feature exactly if the reader finds no fault in
  it and its significant lines are derivable in the grammar, and the feature is the one that the
  derivation spells (`ofText_eq_ok_iff`); the same holds of scenarios on their own.
-/

namespace Gherkin

open Grammar

/-- The reader finds no fault in the text, and these are its lines. -/
def Reads (text : String) (ls : List Line) : Prop :=
  (Reader.ofText text.toList).items = ls.map .ok

theorem exists_ok_and {ε α : Type} {x : Except ε α} {P : α → Prop} (h : x.isOk = true)
    (hP : ∀ a, x = .ok a → P a) : ∃ a, x = .ok a ∧ P a := by
  cases x with
  | error e => cases h
  | ok a => exact ⟨a, rfl, hP a rfl⟩

/-! ## From items to significant lines -/

theorem exists_cons_eq_map_ok {l : Line} {items : List Reader.Item} {p : List Line → Prop} :
    (∃ lines : List Line, (Except.ok l : Reader.Item) :: items = lines.map .ok ∧ p lines) ↔
      ∃ lines : List Line, items = lines.map .ok ∧ p (l :: lines) := by
  constructor
  · rintro ⟨lines, hlines, hp⟩
    cases lines with
    | nil => cases hlines
    | cons k lines =>
      obtain ⟨hk, hitems⟩ := List.cons.inj hlines
      obtain rfl := Except.ok.inj hk
      exact ⟨lines, hitems, hp⟩
  · rintro ⟨lines, rfl, hp⟩
    exact ⟨l :: lines, rfl, hp⟩

theorem significant_cons {l : Line} (hb : l.kind ≠ .blank) (hc : l.kind ≠ .comment)
    (blank : Bool) (ls : List Line) :
    significant blank (l :: ls) = ⟨l, blank⟩ :: significant false ls := by
  rw [significant]
  split
  · exact absurd ‹_› hb
  · exact absurd ‹_› hc
  · rfl

theorem Cursor.ofItems_eq_prepend_iff {number m : Nat} {blank : Bool} {items : List Reader.Item}
    {ls : List Significant} :
    Cursor.ofItems number blank items = prepend ls (.ended m) ↔
      m = number ∧ ∃ lines : List Line, items = lines.map .ok ∧ significant blank lines = ls := by
  induction items generalizing blank ls with
  | nil =>
    cases ls with
    | nil =>
      constructor
      · intro h
        cases h
        exact ⟨rfl, [], rfl, rfl⟩
      · rintro ⟨rfl, -⟩
        rfl
    | cons l ls =>
      constructor
      · intro h; cases h
      · rintro ⟨-, lines, hlines, h⟩
        obtain rfl := List.map_eq_nil_iff.1 hlines.symm
        cases h
  | cons item items ih =>
    cases item with
    | error f =>
      constructor
      · intro h; cases ls <;> cases h
      · rintro ⟨-, lines, hlines, -⟩
        cases lines <;> cases hlines
    | ok l =>
      rw [exists_cons_eq_map_ok]
      unfold ofItems
      split
      · rename_i hk
        simp only [significant, hk]
        exact ih
      · rename_i hk
        simp only [significant, hk]
        exact ih
      · rename_i hb hc
        simp only [significant_cons hb hc]
        cases ls with
        | nil =>
          constructor
          · intro h; cases h
          · rintro ⟨-, lines, -, h⟩; cases h
        | cons k ls =>
          rw [prepend_cons, Cursor.line.injEq, ih]
          constructor
          · rintro ⟨rfl, rfl, lines, rfl, rfl⟩
            exact ⟨rfl, lines, rfl, rfl⟩
          · rintro ⟨rfl, lines, rfl, h⟩
            obtain ⟨rfl, rfl⟩ := List.cons.inj h
            exact ⟨rfl, rfl, lines, rfl, rfl⟩

theorem Line.Legible.not_tags_nil {inside : Bool} {k : Kind} {ks : List Kind}
    (h : Legible inside (k :: ks)) : k ≠ .tags [] := by
  rintro rfl
  cases h with
  | plain first => exact first.1 rfl

theorem Reader.not_tags_nil_of_mem {last : Nat} {fence : Option Line.Fence}
    {raws : List (List Char)} {l : Line} (hraws : ∀ raw ∈ raws, '\n' ∉ raw)
    (h : .ok l ∈ itemsFrom last fence raws) : l.kind ≠ .tags [] := by
  induction raws generalizing last fence with
  | nil => cases fence <;> simp [itemsFrom] at h
  | cons raw raws ih =>
    obtain ⟨hraw, hrest⟩ := List.forall_mem_cons.1 hraws
    rcases hc : Line.classify fence (last + 1) raw with ⟨result, after⟩
    rw [itemsFrom] at h
    rcases List.mem_cons.1 h with h | h
    · cases result with
      | error e => simp [hc] at h
      | ok k =>
        simp only [hc, Except.ok.injEq] at h
        rw [h]
        exact (Line.legible_cons_of_classify hraw hc .nil).not_tags_nil
    · exact ih hrest h

theorem Cursor.ok_mem_of_mem_ofItems {number : Nat} {blank : Bool} {items : List Reader.Item}
    {l : Significant} (h : l ∈ (ofItems number blank items).lines) : .ok l.line ∈ items := by
  induction items generalizing blank with
  | nil => cases h
  | cons item items ih =>
    cases item with
    | error f => cases h
    | ok k =>
      unfold ofItems at h
      split at h
      · exact List.mem_cons_of_mem _ (ih h)
      · exact List.mem_cons_of_mem _ (ih h)
      · rcases List.mem_cons.1 h with rfl | h
        · exact List.mem_cons_self
        · exact List.mem_cons_of_mem _ (ih h)

theorem Cursor.tagged_ofText (text : String) : (Cursor.ofText text).Tagged := by
  intro l hl ht
  rw [ofText_eq_ofItems] at hl
  exact Reader.not_tags_nil_of_mem (fun _ => Text.newline_not_mem_lines)
    (ok_mem_of_mem_ofItems hl) ht

theorem Cursor.ofText_eq_prepend_iff {text : String} {ls : List Significant} :
    (∃ n, Cursor.ofText text = prepend ls (.ended n)) ↔
      ∃ lines, Reads text lines ∧ significant false lines = ls := by
  rw [ofText_eq_ofItems]
  constructor
  · rintro ⟨n, h⟩
    exact (ofItems_eq_prepend_iff.1 h).2
  · intro h
    exact ⟨_, ofItems_eq_prepend_iff.2 ⟨rfl, h⟩⟩

/-! ## Features and scenarios -/

theorem Feature.ofText_eq (text : String) :
    Feature.ofText text = (Parse.feature (Cursor.ofText text)).result := by
  unfold Feature.ofText Feature.read
  split <;> rename_i h <;> rw [h]

/-- A text is a feature exactly if the reader finds no fault in it and its significant lines spell
that feature. -/
theorem Feature.ofText_eq_ok_iff {text : String} {f : Feature} :
    Feature.ofText text = .ok f ↔
      ∃ ls, Reads text ls ∧ DocumentLines (significant false ls) f := by
  rw [ofText_eq, Parse.feature_eq_ok_iff (Cursor.tagged_ofText text)]
  constructor
  · rintro ⟨ls, n, hn, h⟩
    obtain ⟨lines, hlines, rfl⟩ := Cursor.ofText_eq_prepend_iff.1 ⟨n, hn⟩
    exact ⟨lines, hlines, h⟩
  · rintro ⟨lines, hlines, h⟩
    obtain ⟨n, hn⟩ := Cursor.ofText_eq_prepend_iff.2 ⟨lines, hlines, rfl⟩
    exact ⟨_, n, hn, h⟩

/-- A text is a scenario exactly if the reader finds no fault in it and its significant lines
spell that scenario. -/
theorem Scenario.ofText_eq_ok_iff {text : String} {s : Scenario} :
    Scenario.ofText text = .ok s ↔
      ∃ ls, Reads text ls ∧ TaggedLines (significant false ls) s := by
  unfold Scenario.ofText Scenario.read
  rw [Parse.loneScenario_eq_ok_iff]
  constructor
  · rintro ⟨ls, n, hn, h⟩
    obtain ⟨lines, hlines, rfl⟩ := Cursor.ofText_eq_prepend_iff.1 ⟨n, hn⟩
    exact ⟨lines, hlines, h⟩
  · rintro ⟨lines, hlines, h⟩
    obtain ⟨n, hn⟩ := Cursor.ofText_eq_prepend_iff.2 ⟨lines, hlines, rfl⟩
    exact ⟨_, n, hn, h⟩

/-- A text is accepted as a feature, or as a scenario on its own, exactly if the reader finds no
fault in it and its significant lines are derivable. -/
theorem accepted_iff_derivable (text : String) :
    ((∃ f, Feature.ofText text = .ok f) ↔
      ∃ ls, Reads text ls ∧ ∃ f, DocumentLines (significant false ls) f) ∧
    ((∃ s, Scenario.ofText text = .ok s) ↔
      ∃ ls, Reads text ls ∧ ∃ s, TaggedLines (significant false ls) s) := by
  refine ⟨⟨?_, ?_⟩, ?_, ?_⟩
  · rintro ⟨f, hf⟩
    obtain ⟨ls, hls, h⟩ := Feature.ofText_eq_ok_iff.1 hf
    exact ⟨ls, hls, f, h⟩
  · rintro ⟨ls, hls, f, h⟩
    exact ⟨f, Feature.ofText_eq_ok_iff.2 ⟨ls, hls, h⟩⟩
  · rintro ⟨s, hs⟩
    obtain ⟨ls, hls, h⟩ := Scenario.ofText_eq_ok_iff.1 hs
    exact ⟨ls, hls, s, h⟩
  · rintro ⟨ls, hls, s, h⟩
    exact ⟨s, Scenario.ofText_eq_ok_iff.2 ⟨ls, hls, h⟩⟩

end Gherkin
