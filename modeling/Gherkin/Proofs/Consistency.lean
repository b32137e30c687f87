import Gherkin.Proofs.Failures
import Gherkin.Proofs.Positions
import Gherkin.Proofs.Reading

/-
  Causes that no text shows. A production can be entered at a line that does not open it, and the
  lines of a doc string can be followed by anything; neither happens, because a production is
  entered only where its opening was seen, and after an opened fence the reader gives captured
  lines, the closing fence or the fault of an unclosed doc string (`Orderly`). So each production
  ends with a value, and with an orderly cursor behind it, or with a fault of the text (`Meets`).
-/

namespace Gherkin

/-- The cause tells of a slip of the parser and not of the text. -/
def Fault.Cause.Internal : Fault.Cause → Prop
  | misplaced _ | exhausted | interrupted _ | rowUnopened | unexpected _ .tableRow _ => True
  | _ => False

namespace Cursor

/-- The lines ahead within a doc string (`true`) or outside, as the reader gives them: a doc string
goes on until a fence, and a text that ends in one fails. A fault of the reader tells of the
text. -/
inductive Orderly : Bool → Cursor → Prop
  | ended {n : Nat} : Orderly false (.ended n)
  | failed {inside : Bool} {f : Fault} (shown : ¬f.cause.Internal) : Orderly inside (.failed f)
  | plain {l : Significant} {rest : Cursor} (other : l.line.kind ≠ .fence)
    (more : Orderly false rest) : Orderly false (.line l rest)
  | opening {l : Significant} {rest : Cursor} (fence : l.line.kind = .fence)
    (more : Orderly true rest) : Orderly false (.line l rest)
  | captured {l : Significant} {rest : Cursor} {s : String} (text : l.line.kind = .text s)
    (more : Orderly true rest) : Orderly true (.line l rest)
  | closing {l : Significant} {rest : Cursor} (fence : l.line.kind = .fence)
    (more : Orderly false rest) : Orderly true (.line l rest)

theorem Orderly.behind {l : Significant} {rest : Cursor} (h : Orderly false (.line l rest))
    (hl : l.line.kind ≠ .fence) : Orderly false rest := by
  cases h with
  | plain _ more => exact more
  | opening fence _ => exact absurd fence hl

theorem Orderly.shown {inside : Bool} {f : Fault} (h : Orderly inside (.failed f)) :
    ¬f.cause.Internal := by
  cases h with
  | failed shown => exact shown

/-- Lines that are no fences leave an orderly cursor. -/
theorem Orderly.span {α : Type} {p : Significant → Option α}
    (hp : ∀ l a, p l = some a → l.line.kind ≠ .fence) {c : Cursor} (h : Orderly false c) :
    Orderly false (c.span p).2 := by
  induction c with
  | ended n => exact h
  | failed f => exact h
  | line l rest ih =>
    unfold Cursor.span
    split
    · rename_i a ha
      exact ih (h.behind (hp l a ha))
    · exact h

/-- Behind the captured lines of a doc string its closing fence stands, or the reader fails. -/
theorem Orderly.span_captured {c : Cursor} (h : Orderly true c) :
    (∃ f, (c.span Parse.capturedLine?).2 = .failed f ∧ ¬f.cause.Internal) ∨
      ∃ l rest, (c.span Parse.capturedLine?).2 = .line l rest ∧ l.line.kind = .fence ∧
        Orderly false rest := by
  induction c with
  | ended n => cases h
  | failed f => exact .inl ⟨f, rfl, h.shown⟩
  | line l rest ih =>
    cases h with
    | captured text more =>
      rw [Cursor.span, Parse.capturedLine?_eq_some.2 text]
      exact ih more
    | closing fence more =>
      rw [Cursor.span, Parse.capturedLine?_eq_none (by rw [fence]; simp [Line.Kind.shape])]
      exact .inr ⟨l, rest, rfl, fence, more⟩

/-! ## What the reader gives -/

theorem not_internal_of_marks {cause : Fault.Cause} {content : List Char}
    (h : cause.Marks content) : ¬cause.Internal := by
  cases cause <;> first | exact h.elim | exact id

theorem orderly_ofItems {number last : Nat} {blank : Bool} {fence : Option Line.Fence}
    {raws : List (List Char)} :
    Orderly fence.isSome (ofItems number blank (Reader.itemsFrom last fence raws)) := by
  induction raws generalizing last blank fence with
  | nil =>
    cases fence with
    | none => exact .ended
    | some fence => exact .failed id
  | cons raw raws ih =>
    have houtside (blank : Bool) :
        Orderly false (ofItems number blank (Reader.itemsFrom (last + 1) none raws)) :=
      @ih (last + 1) blank none
    rw [Reader.itemsFrom, Reader.read]
    by_cases hmark : Text.trim raw = Line.fenceMark
    · cases fence with
      | some opened =>
        simp only [Line.classify, if_pos hmark]
        exact .closing rfl (houtside false)
      | none =>
        simp only [Line.classify, hmark, if_true]
        refine .opening rfl ?_
        exact @ih (last + 1) false (some ⟨last + 1, Text.indent raw⟩)
    · cases fence with
      | some opened =>
        simp only [Line.classify, if_neg hmark]
        refine .captured rfl ?_
        exact @ih (last + 1) false (some opened)
      | none =>
        simp only [Line.classify, if_neg hmark]
        cases hkind : Line.Kind.ofContent (Text.trim raw) with
        | error cause => exact .failed (not_internal_of_marks (Line.marks_of_ofContent hkind))
        | ok k =>
          have hother : k ≠ .fence := by
            rintro rfl
            exact hmark (Line.eq_fenceMark_of_ofContent hkind)
          cases k with
          | blank => exact houtside true
          | comment => exact houtside blank
          | fence => exact absurd rfl hother
          | _ => exact .plain hother (houtside false)

theorem orderly_ofText (text : String) : (ofText text).Orderly false := by
  rw [ofText_eq_ofItems]
  exact @orderly_ofItems _ 0 false none _

end Cursor

namespace Parse

open Cursor

/-! ## Work that ends rightly -/

/-- The work gives a value with `P`, or a fault that tells of the text. -/
def Meets {α : Type} (P : α → Prop) : Except Fault α → Prop
  | .ok a => P a
  | .error f => ¬f.cause.Internal

section Meets

variable {α β : Type} {P : α → Prop} {Q : β → Prop} {x : Except Fault α}

theorem Meets.bind {g : α → Except Fault β} (hx : Meets P x)
    (hg : ∀ a, x = .ok a → P a → Meets Q (g a)) : Meets Q (x >>= g) := by
  cases x with
  | error f => exact hx
  | ok a => exact hg a rfl hx

/-- Work with a value that is not looked at. -/
theorem Meets.any (h : ∀ f, x = .error f → ¬f.cause.Internal) : Meets (fun _ => True) x := by
  cases x with
  | error f => exact h f rfl
  | ok a => trivial

end Meets

/-- A result with an orderly cursor outside doc strings. -/
def Leaves {α : Type} (r : α × Cursor) : Prop := r.2.Orderly false

variable {c : Cursor} {next : Peek}

theorem meets_peek {inside : Bool} (h : c.Orderly inside) : Meets (fun _ => True) c.peek := by
  refine .any fun f hf => ?_
  rw [eq_failed_of_peek hf] at h
  exact h.shown

theorem meets_sound {inside : Bool} (h : c.Orderly inside) : Meets (Orderly inside) c.sound := by
  cases c with
  | line l rest => exact h
  | ended n => exact h
  | failed f => exact h.shown

/-- A line that is expected, and is no table row, tells of the text. -/
theorem not_internal_reject {kind : Fault.Kind} {wanted : Wanted} (h : wanted ≠ .tableRow)
    (p : Peek) : ¬(p.reject kind wanted).cause.Internal := by
  cases wanted <;> first | exact absurd rfl h | exact id

/-! ## Openings -/

theorem meets_tags (h : c.Orderly false) : Meets Leaves (tags c) := by
  have hspan : (c.span tagLine?).2.Orderly false := h.span fun l ts hl => by
    rw [tagLine?_eq_some.1 hl]
    simp
  exact (meets_sound hspan).bind fun _ _ hrest => hrest

theorem meets_heading {k : Heading} (h : c.Orderly false) (hnext : c.peek = .ok next)
    (hshape : next.shape = .heading k) : Meets Leaves (heading k c) := by
  obtain ⟨l, rest, name, rfl, hl, hheading⟩ := heading_of_peek hnext hshape
  rw [hheading]
  exact h.behind (by simp [hl])

theorem orderly_textLines (h : c.Orderly false) : (textLines c).2.Orderly false := by
  cases c with
  | ended n => exact h
  | failed f => exact h
  | line l rest =>
    rw [textLines]
    split
    · rename_i s hl
      refine (h.behind (by simp [hl])).span fun m t hm => ?_
      rw [(textLine?_eq_some.1 hm).1]
      simp
    · exact h

theorem meets_description (h : c.Orderly false) : Meets Leaves (description c) :=
  (meets_sound (orderly_textLines h)).bind fun _ _ hrest => hrest

/-! ## Arguments -/

theorem meets_checkHeader (line : Nat) (header : List String) :
    Meets (fun _ => True) (checkHeader line header) := by
  unfold checkHeader
  split
  · exact id
  · trivial

theorem meets_checkWidths (header : List String) (data : List (Nat × List String)) :
    Meets (fun _ => True) (checkWidths header data) := by
  unfold checkWidths
  split
  · exact id
  · trivial

theorem meets_grid (h : c.Orderly false) (hnext : c.peek = .ok next) (hshape : next.shape = .row) :
    Meets Leaves (grid c) := by
  obtain ⟨l, rest, rfl, rfl⟩ := line_of_peek hnext (by simp [hshape])
  obtain ⟨cells, hl⟩ := Line.Kind.exists_row hshape
  have hrest : (rest.span rowLine?).2.Orderly false := by
    refine (h.behind (by simp [hl])).span fun m row hm => ?_
    rw [(rowLine?_eq_some.1 hm).1.1]
    simp
  unfold grid
  rw [rows_eq l rest cells hl]
  refine (meets_peek hrest).bind fun next _ _ => ?_
  dsimp only
  split
  · exact id
  · refine (meets_checkHeader _ _).bind fun _ _ _ => ?_
    exact (meets_checkWidths _ _).bind fun _ _ _ => hrest

theorem meets_docString (h : c.Orderly false) (hnext : c.peek = .ok next)
    (hshape : next.shape = .fence) : Meets Leaves (docString c) := by
  obtain ⟨l, rest, rfl, rfl⟩ := line_of_peek hnext (by simp [hshape])
  have hopen : rest.Orderly true := by
    cases h with
    | plain other _ => exact absurd (Line.Kind.eq_fence hshape) other
    | opening _ more => exact more
  unfold docString
  rw [bind_ok (take_line l rest)]
  dsimp only
  rcases hopen.span_captured with ⟨f, hf, hshown⟩ | ⟨m, after, hm, hfence, hafter⟩
  · rw [hf]
    exact hshown
  · rw [hm, bind_ok (take_line m after)]
    dsimp only
    rw [hfence]
    exact hafter

theorem meets_attached (h : c.Orderly false) (hnext : c.peek = .ok next)
    (hattaches : attaches next = true) : Meets Leaves (attached next.shape c) := by
  obtain ⟨-, hshape⟩ := attaches_eq_true.1 hattaches
  unfold attached
  rcases hshape with hshape | hshape
  · rw [if_pos hshape]
    exact (meets_grid h hnext hshape).bind fun _ _ hrest => hrest
  · rw [if_neg (by simp [hshape])]
    exact (meets_docString h hnext hshape).bind fun _ _ hrest => hrest

theorem meets_argument (h : c.Orderly false) : Meets Leaves (argument c) := by
  refine (meets_peek h).bind fun first hfirst _ => ?_
  split
  · rename_i hattaches
    refine (meets_attached h hfirst hattaches).bind fun r _ hrest => ?_
    refine (meets_peek hrest).bind fun next _ _ => ?_
    dsimp only
    split
    · exact id
    · exact hrest
  · exact h

/-! ## Steps -/

theorem meets_step (h : c.Orderly false) (hnext : c.peek = .ok next)
    (hshape : next.shape = .step) : Meets Leaves (step c) := by
  obtain ⟨l, rest, rfl, rfl⟩ := line_of_peek hnext (by simp [hshape])
  obtain ⟨keyword, text, hl⟩ := Line.Kind.exists_step hshape
  unfold step
  rw [bind_ok (take_line l rest)]
  dsimp only
  rw [hl]
  exact (meets_argument (h.behind (by simp [hl]))).bind fun _ _ hrest => hrest

theorem meets_steps (h : c.Orderly false) : Meets Leaves (steps c) := by
  -- on the lines ahead, of which a step takes at least one
  induction hn : c.size using Nat.strongRecOn generalizing c with
  | _ n ih =>
    cases hnext : c.peek with
    | error f =>
      rw [eq_failed_of_peek hnext] at h
      rw [steps, hnext]
      exact h.shown
    | ok next =>
      by_cases hshape : next.shape = .step
      · rw [steps_eq_bind hnext hshape]
        refine (meets_step h hnext hshape).bind fun r hr hrest => ?_
        have hlt : r.2.size < n := hn ▸ size_of_step hr
        exact (ih _ hlt hrest rfl).bind fun _ _ hmore => hmore
      · rw [steps, bind_ok hnext]
        split
        · exact absurd ‹_› hshape
        iterate 3 exact not_internal_reject (by simp) next
        · exact h

theorem meets_block (ts : List Tag) (name : String) (h : c.Orderly false) :
    Meets Leaves (block ts name c) := by
  refine (meets_description h).bind fun d _ hrest => ?_
  exact (meets_steps hrest).bind fun _ _ hrest => hrest

/-! ## Examples -/

theorem meets_examplesAhead? (h : c.Orderly false) : Meets (fun _ => True) (examplesAhead? c) := by
  refine (meets_peek h).bind fun next _ _ => ?_
  dsimp only
  split
  · exact id
  · trivial

theorem meets_examplesTable {n : Nat} (h : c.Orderly false)
    (ahead : examplesAhead? c = .ok (some n)) : Meets Leaves (examplesTable c) := by
  obtain ⟨l, rest, name, rfl, hl, -⟩ := line_of_examplesAhead? ahead
  have hshape : l.line.kind.shape = .heading .examples := by
    rw [hl]
    rfl
  refine (meets_heading h rfl hshape).bind fun r _ hrest => ?_
  refine (meets_peek hrest).bind fun next hnext _ => ?_
  split
  · exact meets_grid hrest hnext ‹_›
  · exact not_internal_reject (by simp) next

theorem meets_checkSameHeader (first : Option (List String)) (g : Grid) :
    Meets (fun _ => True) (checkSameHeader first g) := by
  unfold checkSameHeader
  split
  · trivial
  · split
    · trivial
    · exact id

theorem meets_examplesTables (first : Option (List String)) (h : c.Orderly false) :
    Meets Leaves (examplesTables first c) := by
  -- on the lines ahead, of which an examples table takes at least one
  induction hn : c.size using Nat.strongRecOn generalizing first c with
  | _ n ih =>
    cases ahead : examplesAhead? c with
    | error f =>
      have hahead := meets_examplesAhead? h
      rw [ahead] at hahead
      rw [examplesTables, ahead]
      exact hahead
    | ok found =>
      cases found with
      | none =>
        rw [examplesTables, bind_ok ahead]
        exact h
      | some line =>
        rw [examplesTables_eq_bind ahead]
        refine (meets_examplesTable h ahead).bind fun r hr hrest => ?_
        refine (meets_checkSameHeader first r.1).bind fun _ _ _ => ?_
        have hlt : r.2.size < n := hn ▸ size_of_examplesTable hr
        exact (ih _ hlt _ hrest rfl).bind fun _ _ hmore => hmore

/-! ## Sections -/

theorem meets_simpleBody (ts : List Tag) (name : String) (h : c.Orderly false) :
    Meets Leaves (simpleBody ts name c) := by
  refine (meets_block ts name h).bind fun b _ hrest => ?_
  refine (meets_examplesAhead? hrest).bind fun ahead _ _ => ?_
  split
  · exact id
  · exact hrest

theorem meets_outlineBody (ts : List Tag) (line : Nat) (name : String) (h : c.Orderly false) :
    Meets Leaves (outlineBody ts line name c) := by
  refine (meets_block ts name h).bind fun b _ hrest => ?_
  refine (meets_examplesTables none hrest).bind fun grids _ hrest => ?_
  dsimp only
  split
  · exact id
  · exact hrest

theorem meets_scenario (ts : List Tag) (h : c.Orderly false) (hnext : c.peek = .ok next)
    (hopens : opensScenario next.shape = true) : Meets Leaves (scenario ts c).result := by
  have hline : next.shape ≠ .end := by
    intro hend
    rw [hend] at hopens
    cases hopens
  obtain ⟨l, rest, rfl, rfl⟩ := line_of_peek hnext hline
  rw [scenario, result_lift_bind (take_line l rest)]
  dsimp only
  rcases opensScenario_eq_true.1 hopens with hshape | hshape
  · obtain ⟨name, hl⟩ := Line.Kind.exists_heading hshape
    rw [hl]
    exact meets_simpleBody ts name (h.behind (by simp [hl]))
  · obtain ⟨name, hl⟩ := Line.Kind.exists_heading hshape
    rw [hl]
    exact meets_outlineBody ts l.line.number name (h.behind (by simp [hl]))

theorem meets_background (ts : List Tag) (h : c.Orderly false) (hnext : c.peek = .ok next)
    (hshape : next.shape = .heading .background) : Meets Leaves (background ts c).result := by
  rw [background, Logged.result_bind]
  refine (meets_heading h hnext hshape).bind fun r _ hrest => ?_
  exact meets_block ts r.1.2 hrest

theorem meets_background? (h : c.Orderly false) : Meets Leaves (background? c).result := by
  rw [background?, Logged.result_bind]
  refine (meets_tags h).bind fun r _ hrest => ?_
  dsimp only
  rw [Logged.result_bind]
  refine (meets_peek hrest).bind fun next hnext _ => ?_
  split
  · rw [Logged.result_bind]
    exact (meets_background r.1 hrest hnext ‹_›).bind fun _ _ hrest => hrest
  · exact h

/-! ## Documents -/

theorem meets_scenarioAhead (h : c.Orderly false) : Meets (fun _ => True) (scenarioAhead c) := by
  refine (meets_tags h).bind fun r _ hrest => ?_
  refine (meets_peek hrest).bind fun next _ _ => ?_
  split
  · trivial
  · split
    · exact not_internal_reject (by simp) next
    · split
      · trivial
      · exact not_internal_reject (by simp) next

/-- What was seen behind the tags is what the scenario opens with. -/
theorem opens_of_scenarioAhead {ts : List Tag} {d : Cursor} (ahead : scenarioAhead c = .ok true)
    (htags : tags c = .ok (ts, d)) :
    ∃ next, d.peek = .ok next ∧ opensScenario next.shape = true := by
  rw [scenarioAhead, bind_ok htags] at ahead
  obtain ⟨next, hnext, ahead⟩ := bind_eq_ok.1 ahead
  refine ⟨next, hnext, ?_⟩
  by_contra hother
  rw [if_neg hother] at ahead
  split at ahead
  · cases ahead
  · split at ahead <;> cases ahead

theorem meets_taggedScenario (h : c.Orderly false) (ahead : scenarioAhead c = .ok true) :
    Meets Leaves (taggedScenario c).result := by
  rw [taggedScenario, Logged.result_bind]
  refine (meets_tags h).bind fun r htags hrest => ?_
  obtain ⟨next, hnext, hopens⟩ := opens_of_scenarioAhead ahead htags
  exact meets_scenario r.1 hrest hnext hopens

theorem meets_scenarios (h : c.Orderly false) : Meets (fun _ => True) (scenarios c).result := by
  -- on the lines ahead, of which a scenario takes at least one
  induction hn : c.size using Nat.strongRecOn generalizing c with
  | _ n ih =>
    cases ahead : scenarioAhead c with
    | error f =>
      have hahead := meets_scenarioAhead h
      rw [ahead] at hahead
      rw [scenarios, Logged.result_bind, result_lift, ahead]
      exact hahead
    | ok more =>
      cases more with
      | false =>
        rw [scenarios_eq_nil ahead]
        trivial
      | true =>
        rw [scenarios_eq_bind ahead]
        refine (meets_taggedScenario h ahead).bind fun r hr hrest => ?_
        have hlt : r.2.size < n := hn ▸ size_of_taggedScenario hr
        exact (ih _ hlt hrest rfl).bind fun _ _ _ => trivial

theorem meets_feature (h : c.Orderly false) : Meets (fun _ => True) (feature c).result := by
  rw [feature_eq]
  refine (meets_tags h).bind fun r _ hrest => ?_
  have hopening : Meets Leaves (opening r.1 r.2) := by
    refine (meets_peek hrest).bind fun next hnext _ => ?_
    split
    · exact meets_heading hrest hnext ‹_›
    · exact not_internal_reject (by simp) next
  refine hopening.bind fun o _ hrest => ?_
  refine (meets_description hrest).bind fun d _ hrest => ?_
  refine (meets_background? hrest).bind fun b _ hrest => ?_
  refine (meets_scenarios hrest).bind fun ss _ _ => ?_
  split
  · exact (meets_peek hrest).bind fun _ _ _ => id
  · trivial

theorem meets_loneScenario (h : c.Orderly false) :
    Meets (fun _ => True) (loneScenario c).result := by
  rw [loneScenario, Logged.result_bind]
  refine (meets_tags h).bind fun r _ hrest => ?_
  dsimp only
  rw [Logged.result_bind]
  refine (meets_peek hrest).bind fun next hnext _ => ?_
  split
  · rw [Logged.result_bind]
    refine (meets_scenario r.1 hrest hnext ‹_›).bind fun s _ hrest => ?_
    rw [Logged.result_bind]
    refine (meets_peek hrest).bind fun last _ _ => ?_
    split
    · trivial
    · exact not_internal_reject (by simp) last
  · exact not_internal_reject (by simp) next

end Parse

open Parse

/-- A line never shows an internal cause. -/
theorem Reader.not_internal_items (text : List Char) {f : Fault}
    (h : .error f ∈ (Reader.ofText text).items) : ¬f.cause.Internal := by
  obtain ⟨i, hi⟩ := List.getElem?_of_mem h
  rcases Reader.item_cases hi with ⟨raw, -, hread⟩ | ⟨fence, -, hunclosed⟩
  · obtain ⟨-, hclassify⟩ := Reader.fault_of_read hread.symm
    exact Cursor.not_internal_of_marks (Line.marks_of_classify hclassify).2
  · obtain rfl := Except.error.inj hunclosed
    exact id

/-- The examples of an outline that is well formed are not empty. -/
theorem Outline.WellFormed.examples_ne_nil {o : Outline} (h : o.WellFormed) : o.examples ≠ [] := by
  obtain ⟨header, hrows⟩ := h.examples
  exact hrows.nonempty

/-- No text makes the reader or the parser find a slip of its own: a line is refused for what it is,
a feature and a scenario for what their lines are. Every outline that is read has an example. -/
theorem internal_faults_unreachable (text : String) :
    (∀ f, .error f ∈ (Reader.ofText text.toList).items → ¬f.cause.Internal) ∧
      (∀ f, Feature.ofText text = .error f → ¬f.cause.Internal) ∧
      (∀ f, Scenario.ofText text = .error f → ¬f.cause.Internal) ∧
      (∀ f, Feature.ofText text = .ok f → ∀ o ∈ f.outlines, o.examples ≠ []) ∧
      ∀ o, Scenario.ofText text = .ok (.outline o) → o.examples ≠ [] := by
  have hordered := Cursor.orderly_ofText text
  refine ⟨fun f hf => Reader.not_internal_items _ hf, fun f hf => ?_, fun f hf => ?_,
    fun f hf o ho => ?_, fun o ho => ?_⟩
  · have hfeature := meets_feature hordered
    rw [← Feature.ofText_eq, hf] at hfeature
    exact hfeature
  · have hscenario := meets_loneScenario hordered
    rw [show (loneScenario (Cursor.ofText text)).result = .error f from hf] at hscenario
    exact hscenario
  · exact ((Feature.wellFormed_ofText hf).outlines ho).examples_ne_nil
  · exact Outline.WellFormed.examples_ne_nil (Scenario.wellFormed_ofText ho)

/-- A doc string that is not closed, a row that is not, and an outline with an example. -/
theorem internal_faults_unreachable_unclosed :
    let outline : Outline := ⟨⟨"O", none, [], [⟨.given, "<x>", none⟩]⟩, [.ofList [("x", "1")]]⟩
    let unclosed := "Feature: F\nScenario: S\nGiven a\n\"\"\"\nWhen b"
    let row := "Scenario: S\nGiven a\n|x\n"
    let read := "Scenario Outline: O\nGiven <x>\nExamples:\n|x|\n|1|\n"
    (Feature.ofText unclosed = .error ⟨4, .fenceUnclosed⟩ ∧
        ¬Fault.Cause.fenceUnclosed.Internal) ∧
      (Scenario.ofText row = .error ⟨3, .rowUnclosed⟩ ∧ ¬Fault.Cause.rowUnclosed.Internal) ∧
      Scenario.ofText read = .ok (.outline outline) ∧ outline.examples ≠ [] := by
  intro outline unclosed row read
  have hunclosed : Feature.ofText unclosed = .error ⟨4, .fenceUnclosed⟩ := by decide +kernel
  have hrow : Scenario.ofText row = .error ⟨3, .rowUnclosed⟩ := by decide +kernel
  have hread : Scenario.ofText read = .ok (.outline outline) := by decide +kernel
  obtain ⟨-, hfeature, -, -, -⟩ := internal_faults_unreachable unclosed
  obtain ⟨-, -, hscenario, -, -⟩ := internal_faults_unreachable row
  obtain ⟨-, -, -, -, hexamples⟩ := internal_faults_unreachable read
  exact ⟨⟨hunclosed, hfeature _ hunclosed⟩, ⟨hrow, hscenario _ hrow⟩, hread, hexamples _ hread⟩

end Gherkin
