import Gherkin.Proofs.Stops

/-
  Productions on lines that are cut off. A production decides within the lines it has, whatever
  follows them, or it comes to their end: then it fails for want of more, or it takes what is there
  (`Cut`). Productions one after the other do so too (`Cut.bind`), and each production is made of
  others, so the result is shown of one after the other, from the openings to the scenarios.
  Whether a value that is read passes a check is decided early as well, since more lines leave it
  (a table keeps its header) or mend it (an outline gets examples; `Cut.check`).
-/

namespace Gherkin

open Cursor Grammar

/-! ## Faults of unfinished texts -/

/-- More lines can mend the fault: the text ends too early, or an outline has no examples yet. -/
def Fault.Premature (f : Fault) : Prop := f.kind = .unexpectedEnd ∨ f.kind = .missingExamples

instance (f : Fault) : Decidable f.Premature := inferInstanceAs (Decidable (_ ∨ _))

/-- The result is a fault that more lines can mend. -/
def Unfinished {α : Type} (x : Except Fault α) : Prop := ∃ f, x = .error f ∧ f.Premature

theorem unfinished_of_kind {α : Type} {f : Fault} (h : f.kind = .unexpectedEnd) :
    Unfinished (.error f : Except Fault α) := ⟨f, rfl, .inl h⟩

theorem Unfinished.bind {α β : Type} {x : Except Fault α} (h : Unfinished x)
    (g : α → Except Fault β) : Unfinished (x >>= g) := by
  obtain ⟨f, rfl, hf⟩ := h
  exact ⟨f, rfl, hf⟩

namespace Cursor

/-- No line is ahead: the text ends, or it ends inside a doc string. -/
inductive Spent : Cursor → Prop
  | ended (number : Nat) : Spent (.ended number)
  | failed {f : Fault} (kind : f.kind = .unexpectedEnd) : Spent (.failed f)

theorem size_prepend (ls : List Significant) (c : Cursor) :
    (prepend ls c).size = ls.length + c.size := by
  induction ls with
  | nil => exact (Nat.zero_add _).symm
  | cons l ls ih => rw [prepend_cons, size, ih, List.length_cons]; omega

theorem peek_cons (l : Significant) (ms : List Significant) (c : Cursor) :
    (prepend (l :: ms) c).peek = .ok ⟨l.line.kind.shape, l.line.number, l.afterBlank⟩ := rfl

/-- Before the end of a text stands a line only if it is one of the lines that are left. -/
theorem Spent.eq_cons {e c : Cursor} {l : Significant} {ls : List Significant} (he : e.Spent)
    (h : prepend ls e = .line l c) : ∃ ms, ls = l :: ms ∧ c = prepend ms e := by
  cases ls with
  | nil => cases he <;> cases h
  | cons k ms =>
    obtain ⟨rfl, rfl⟩ := Cursor.line.inj h
    exact ⟨ms, rfl, rfl⟩

/-- A run of lines stops within these lines or goes on to what follows them. -/
theorem span_cut {α : Type} (p : Significant → Option α) (ls : List Significant) :
    (∃ vs l ms, (l :: ms).length ≤ ls.length ∧ p l = none ∧
        ∀ c, (prepend ls c).span p = (vs, prepend (l :: ms) c)) ∨
      ∃ vs, List.Forall₂ (fun l v => p l = some v) ls vs ∧
        ∀ c, (prepend ls c).span p = (vs ++ (c.span p).1, (c.span p).2) := by
  induction ls with
  | nil => exact .inr ⟨[], .nil, fun _ => rfl⟩
  | cons k ls ih =>
    cases hk : p k with
    | none =>
      refine .inl ⟨[], k, ls, Nat.le_refl _, hk, fun c => ?_⟩
      rw [prepend_cons, span, hk]
    | some v =>
      rcases ih with ⟨vs, l, ms, hlength, hl, h⟩ | ⟨vs, hvs, h⟩
      · refine .inl ⟨v :: vs, l, ms, Nat.le_succ_of_le hlength, hl, fun c => ?_⟩
        rw [prepend_cons, span, hk]
        simp only [h]
      · refine .inr ⟨v :: vs, .cons hk hvs, fun c => ?_⟩
        rw [prepend_cons, span, hk]
        simp only [h, List.cons_append]

theorem Spent.span {α : Type} {e : Cursor} (he : e.Spent) (p : Significant → Option α) :
    e.span p = ([], e) := by cases he <;> rfl

end Cursor

/-! ## Productions on lines that are cut off -/

/-- How a production ends on lines with the end `e` of a text after them. It is done within them, or
refuses them, whatever follows; or it comes to the end, where it fails for want of more or leaves
lines that are `left`. -/
inductive Cut {α : Type} (left : List Significant → Prop) (P : Cursor → Except Fault (α × Cursor))
    (e : Cursor) (ls : List Significant) : Prop
  | settled (v : α) (ms : List Significant) (length : ms.length ≤ ls.length)
    (done : ∀ c, P (prepend ls c) = .ok (v, prepend ms c))
  | refused (nonempty : ls ≠ []) (fails : ∀ c r, P (prepend ls c) ≠ .ok r)
  | unfinished (fails : Unfinished (P (prepend ls e)))
  | spent (v : α) (ms : List Significant) (rest : left ms)
    (done : P (prepend ls e) = .ok (v, prepend ms e))

/-- Nothing is left over. -/
def Whole (ls : List Significant) : Prop := ls = []

/-- Tag lines are left over, at which it is open what they belong to. -/
def OnlyTags (ls : List Significant) : Prop := ∃ tss, List.Forall₂ TagLine ls tss

theorem whole_nil : Whole [] := rfl

theorem onlyTags_nil : OnlyTags [] := ⟨[], .nil⟩

section Cut

variable {α β : Type} {left : List Significant → Prop} {P : Cursor → Except Fault (α × Cursor)}
  {e : Cursor} {ls ms : List Significant}

theorem ne_nil_of_length_le {ls ms : List Significant} (h : ms.length ≤ ls.length) (hms : ms ≠ []) :
    ls ≠ [] := by
  rintro rfl
  exact hms (List.eq_nil_of_length_eq_zero (Nat.le_zero.1 h))

theorem Cut.mono {left' : List Significant → Prop} (hP : Cut left P e ls)
    (h : ∀ ms, left ms → left' ms) : Cut left' P e ls := by
  cases hP with
  | settled v ms length done => exact .settled v ms length done
  | refused nonempty fails => exact .refused nonempty fails
  | unfinished fails => exact .unfinished fails
  | spent v ms rest done => exact .spent v ms (h ms rest) done

/-- A production that goes on as another one on fewer lines ends as that one. -/
theorem Cut.shift {Q : Cursor → Except Fault (α × Cursor)} (hQ : Cut left Q e ms)
    (length : ms.length ≤ ls.length) (h : ∀ c, P (prepend ls c) = Q (prepend ms c)) :
    Cut left P e ls := by
  cases hQ with
  | settled v ns hlength done =>
    exact .settled v ns (Nat.le_trans hlength length) fun c => (h c).trans (done c)
  | refused nonempty fails =>
    exact .refused (ne_nil_of_length_le length nonempty) fun c r => h c ▸ fails c r
  | unfinished fails => exact .unfinished (h e ▸ fails)
  | spent v ns rest done => exact .spent v ns rest ((h e).trans done)

/-- One production after another; the first leaves nothing over. -/
theorem Cut.bind {Q : α → Cursor → Except Fault (β × Cursor)} (hleft : left [])
    (hP : Cut Whole P e ls)
    (hQ : ∀ v ms, (∀ c, P (prepend ls c) = .ok (v, prepend ms c)) → Cut left (Q v) e ms)
    (hend : ∀ v, Cut left (Q v) e []) : Cut left (fun c => P c >>= fun r => Q r.1 r.2) e ls := by
  cases hP with
  | settled v ms length done =>
    exact (hQ v ms done).shift length fun c => Parse.bind_ok (done c) _
  | refused nonempty fails =>
    refine .refused nonempty fun c r h => ?_
    obtain ⟨v, hv, -⟩ := Parse.bind_eq_ok.1 h
    exact fails c v hv
  | unfinished fails => exact .unfinished (fails.bind _)
  | spent v ms rest done =>
    obtain rfl : ms = [] := rest
    have hv : (P (prepend ls e) >>= fun r => Q r.1 r.2) = Q v e := Parse.bind_ok done _
    cases hend v with
    | settled w ns length hdone =>
      obtain rfl := List.eq_nil_of_length_eq_zero (Nat.le_zero.1 length)
      exact .spent w [] hleft (hv.trans (hdone e))
    | refused nonempty _ => exact absurd rfl nonempty
    | unfinished fails => exact .unfinished (hv ▸ fails)
    | spent w ns rest hdone => exact .spent w ns rest (hv.trans hdone)

/-- What is read is checked: a value that fails is mended by more lines, or every other value that
is read from these lines fails too. -/
theorem Cut.check (g : α → Except Fault β) (hP : Cut left P e ls)
    (hg : ∀ v d, P (prepend ls e) = .ok (v, d) → (∃ b, g v = .ok b) ∨ Unfinished (g v) ∨
      ls ≠ [] ∧ ∀ c w d, P (prepend ls c) = .ok (w, d) → ∀ b, g w ≠ .ok b) :
    Cut left (fun c => P c >>= fun r => g r.1 >>= fun b => .ok (b, r.2)) e ls := by
  have refuses (nonempty : ls ≠ [])
      (h : ∀ c w d, P (prepend ls c) = .ok (w, d) → ∀ b, g w ≠ .ok b) :
      Cut left (fun c => P c >>= fun r => g r.1 >>= fun b => .ok (b, r.2)) e ls := by
    refine .refused nonempty fun c r hr => ?_
    obtain ⟨⟨w, d⟩, hw, hcheck⟩ := Parse.bind_eq_ok.1 hr
    obtain ⟨b, hb, -⟩ := Parse.bind_eq_ok.1 hcheck
    exact h c w d hw b hb
  cases hP with
  | settled v ms length done =>
    rcases hg v _ (done e) with ⟨b, hb⟩ | hfails | ⟨nonempty, h⟩
    · refine .settled b ms length fun c => ?_
      rw [Parse.bind_ok (done c), Parse.bind_ok hb]
    · refine .unfinished ?_
      rw [Parse.bind_ok (done e)]
      exact hfails.bind _
    · exact refuses nonempty h
  | refused nonempty fails => exact refuses nonempty fun c w d hw => absurd hw (fails c _)
  | unfinished fails => exact .unfinished (fails.bind _)
  | spent v ms rest done =>
    rcases hg v _ done with ⟨b, hb⟩ | hfails | ⟨nonempty, h⟩
    · refine .spent b ms rest ?_
      rw [Parse.bind_ok done, Parse.bind_ok hb]
    · refine .unfinished ?_
      rw [Parse.bind_ok done]
      exact hfails.bind _
    · exact refuses nonempty h

theorem Cut.map (f : α → β) (hP : Cut left P e ls) :
    Cut left (fun c => P c >>= fun r => .ok (f r.1, r.2)) e ls :=
  hP.check (fun v => .ok (f v)) fun v _ _ => .inl ⟨f v, rfl⟩

end Cut

namespace Parse

open Cursor

variable {e : Cursor} (he : e.Spent)
include he

theorem unfinished_take : Unfinished e.take := by
  cases he with
  | ended n => exact unfinished_of_kind rfl
  | failed hf => exact unfinished_of_kind hf

/-- At the end of a text either nothing is seen or that it ends. -/
theorem peek_spent : Unfinished e.peek ∨ ∃ n, e = .ended n := by
  cases he with
  | ended n => exact .inr ⟨n, rfl⟩
  | failed hf => exact .inl (unfinished_of_kind hf)

/-- A production that looks first is decided by the next line, or by the end of the text. -/
theorem cut_peek {α : Type} {left : List Significant → Prop}
    {g : Peek → Cursor → Except Fault (α × Cursor)} (ls : List Significant)
    (hend : ∀ n, e = .ended n → Unfinished (g ⟨.end, n, false⟩ e) ∨
      ∃ v, left [] ∧ g ⟨.end, n, false⟩ e = .ok (v, e))
    (hline : ∀ l ms,
      Cut left (g ⟨l.line.kind.shape, l.line.number, l.afterBlank⟩) e (l :: ms)) :
    Cut left (fun c => c.peek >>= fun next => g next c) e ls := by
  cases ls with
  | nil =>
    rcases peek_spent he with hpeek | ⟨n, rfl⟩
    · exact .unfinished (hpeek.bind _)
    · rcases hend n rfl with hfails | ⟨v, hleft, hv⟩
      · exact .unfinished hfails
      · exact .spent v [] hleft hv
  | cons l ms => exact (hline l ms).shift (Nat.le_refl _) fun c => bind_ok (peek_cons l ms c) _

/-! ## Openings -/

/-- A run of lines stops within these lines, or takes them all up to the end. -/
def Runs {α : Type} (run : Cursor → List α × Cursor) (e : Cursor) (ls : List Significant) : Prop :=
  (∃ vs l ms, (l :: ms).length ≤ ls.length ∧
      ∀ c, run (prepend ls c) = (vs, prepend (l :: ms) c)) ∨
    ∃ vs, run (prepend ls e) = (vs, e)

theorem runs_span {α : Type} (p : Significant → Option α) (ls : List Significant) :
    Runs (span p) e ls := by
  rcases span_cut p ls with ⟨vs, l, ms, length, -, h⟩ | ⟨vs, -, h⟩
  · exact .inl ⟨vs, l, ms, length, h⟩
  · refine .inr ⟨vs ++ [], ?_⟩
    rw [h, he.span]

theorem runs_textLines (ls : List Significant) : Runs textLines e ls := by
  cases ls with
  | nil => exact .inr ⟨[], by cases he <;> rfl⟩
  | cons l ms =>
    by_cases hl : ∃ s, l.line.kind = .text s
    · obtain ⟨s, hl⟩ := hl
      have hrun (c : Cursor) : textLines (prepend (l :: ms) c) =
          (s :: ((prepend ms c).span textLine?).1, ((prepend ms c).span textLine?).2) := by
        rw [prepend_cons, textLines, hl]
      rcases runs_span he textLine? ms with ⟨vs, k, ns, length, h⟩ | ⟨vs, h⟩
      · exact .inl ⟨s :: vs, k, ns, Nat.le_succ_of_le length, fun c => by rw [hrun, h]⟩
      · exact .inr ⟨s :: vs, by rw [hrun, h]⟩
    · refine .inl ⟨[], l, ms, Nat.le_refl _, fun c => ?_⟩
      rw [prepend_cons, textLines]
      split
      · exact absurd ⟨_, ‹_›⟩ hl
      · rfl

theorem cut_run {α β : Type} {run : Cursor → List α × Cursor} {ls : List Significant}
    (h : Runs run e ls) (g : List α → β) :
    Cut Whole (fun c => (run c).2.sound >>= fun rest => .ok (g (run c).1, rest)) e ls := by
  rcases h with ⟨vs, l, ms, length, h⟩ | ⟨vs, h⟩
  · exact .settled (g vs) (l :: ms) length fun c => by rw [h]; rfl
  · cases he with
    | ended n => exact .spent (g vs) [] rfl (by rw [h]; rfl)
    | failed hf => exact .unfinished (by rw [h]; exact unfinished_of_kind hf)

theorem cut_tags (ls : List Significant) : Cut Whole tags e ls :=
  cut_run he (runs_span he tagLine? ls) List.flatten

theorem cut_description (ls : List Significant) : Cut Whole description e ls :=
  cut_run he (runs_textLines he ls) fun parts =>
    if parts = [] then none else some (" ".intercalate parts)

theorem cut_heading (k : Heading) (ls : List Significant) : Cut Whole (heading k) e ls := by
  cases ls with
  | nil => exact .unfinished ((unfinished_take he).bind _)
  | cons l ms =>
    by_cases hl : ∃ name, l.line.kind = .heading k name
    · obtain ⟨name, hl⟩ := hl
      refine .settled (l.line.number, name) ms (Nat.le_succ _) fun c => ?_
      exact heading_eq_ok_iff.2 ⟨l, rfl, hl, rfl⟩
    · refine .refused (List.cons_ne_nil _ _) fun c r h => ?_
      obtain ⟨k', hk', hname, -⟩ := heading_eq_ok_iff.1 h
      obtain ⟨rfl, -⟩ := Cursor.line.inj hk'
      exact hl ⟨_, hname⟩

/-! ## Tables and doc strings -/

omit he in
/-- A header and the rows that follow it make a table if they keep the rules. -/
theorem grid_of_span {l : Significant} {c rest : Cursor} {header : List String}
    {data : List (Nat × List String)} {next : Peek} (hl : RowLine l header)
    (hspan : c.span rowLine? = (data, rest)) (hnext : rest.peek = .ok next) (hne : data ≠ [])
    (hheader : header.Nodup) (hwidths : ∀ row ∈ data, row.2.length = header.length) :
    grid (.line l c) = .ok (⟨l.line.number, header, data.map Prod.snd⟩, rest) := by
  refine grid_eq_ok_iff.2 ⟨data, next, ?_, hnext, rfl, hne, hheader, hwidths⟩
  rw [rows_eq l c header hl, hspan]

omit he in
theorem rules_of_grid {l : Significant} {c rest : Cursor} {header : List String}
    {data : List (Nat × List String)} {r : Grid × Cursor} (hl : RowLine l header)
    (hspan : c.span rowLine? = (data, rest)) (h : grid (.line l c) = .ok r) :
    data ≠ [] ∧ header.Nodup ∧ ∀ row ∈ data, row.2.length = header.length := by
  obtain ⟨g, d⟩ := r
  obtain ⟨found, next, hrows, -, -, hrules⟩ := grid_eq_ok_iff.1 h
  rw [rows_eq l c header hl, hspan] at hrows
  obtain ⟨hfirst, rfl⟩ := List.cons.inj (congrArg Prod.fst hrows)
  obtain ⟨-, rfl⟩ := Prod.mk.inj hfirst
  exact hrules

/-- A table whose rows go to the end of the text. -/
theorem grid_to_end {l : Significant} {header : List String} {ms : List Significant}
    {data : List (Nat × List String)} (hl : RowLine l header)
    (hspan : (prepend ms e).span rowLine? = (data, e)) (hheader : header.Nodup)
    (hwidths : ∀ row ∈ data, row.2.length = header.length) :
    Unfinished (grid (prepend (l :: ms) e)) ∨ ∃ g, grid (prepend (l :: ms) e) = .ok (g, e) := by
  have hrows : rows (prepend (l :: ms) e) = ((l.line.number, header) :: data, e) := by
    rw [prepend_cons, rows_eq l _ header hl, hspan]
  rcases peek_spent he with hpeek | ⟨n, rfl⟩
  · left
    rw [grid, hrows]
    exact hpeek.bind _
  · cases data with
    | nil =>
      left
      rw [grid, hrows]
      exact unfinished_of_kind rfl
    | cons row data =>
      exact .inr ⟨_, grid_of_span hl hspan rfl (List.cons_ne_nil _ _) hheader hwidths⟩

/-- A table that breaks a rule breaks it with more rows under it too. -/
theorem cut_grid_row {l : Significant} {header : List String} (hl : RowLine l header)
    (ms : List Significant) : Cut Whole grid e (l :: ms) := by
  rcases span_cut rowLine? ms with ⟨data, k, ns, length, -, h⟩ | ⟨data, -, h⟩
  · by_cases hrules : data ≠ [] ∧ header.Nodup ∧ ∀ row ∈ data, row.2.length = header.length
    · obtain ⟨hne, hheader, hwidths⟩ := hrules
      exact .settled _ (k :: ns) (Nat.le_succ_of_le length) fun c =>
        grid_of_span hl (h c) rfl hne hheader hwidths
    · exact .refused (List.cons_ne_nil _ _) fun c r hr => hrules (rules_of_grid hl (h c) hr)
  · by_cases hrules : header.Nodup ∧ ∀ row ∈ data, row.2.length = header.length
    · have hspan : (prepend ms e).span rowLine? = (data, e) := by
        rw [h, he.span, List.append_nil]
      rcases grid_to_end he hl hspan hrules.1 hrules.2 with hfails | ⟨g, hg⟩
      · exact .unfinished hfails
      · exact .spent g [] rfl hg
    · refine .refused (List.cons_ne_nil _ _) fun c r hr => hrules ?_
      obtain ⟨-, hheader, hwidths⟩ := rules_of_grid hl (h c) hr
      exact ⟨hheader, fun row hrow => hwidths row (List.mem_append_left _ hrow)⟩

theorem cut_grid (ls : List Significant) : Cut Whole grid e ls := by
  cases ls with
  | nil =>
    have hrows : rows e = ([], e) := by cases he <;> rfl
    refine .unfinished ?_
    rw [prepend_nil, grid, hrows]
    rcases peek_spent he with h | ⟨n, rfl⟩
    · exact h.bind _
    · exact unfinished_of_kind rfl
  | cons l ms =>
    by_cases hl : ∃ header, RowLine l header
    · obtain ⟨header, hl⟩ := hl
      exact cut_grid_row he hl ms
    · refine .refused (List.cons_ne_nil _ _) fun c r hr => hl ?_
      obtain ⟨l', rest, hl', hrow, -⟩ := grid_header hr
      obtain ⟨rfl, -⟩ := Cursor.line.inj hl'
      exact ⟨_, hrow⟩

theorem cut_docString (ls : List Significant) : Cut Whole docString e ls := by
  cases ls with
  | nil => exact .unfinished ((unfinished_take he).bind _)
  | cons l ms =>
    have hdoc (c : Cursor) : docString (prepend (l :: ms) c) =
        ((prepend ms c).span capturedLine?).2.take >>= fun r =>
          if r.1.line.kind = .fence then
            .ok ("\n".intercalate ((prepend ms c).span capturedLine?).1, r.2)
          else .error ⟨r.1.line.number, .interrupted l.line.number⟩ := by
      rw [docString, prepend_cons, bind_ok (take_line _ _)]
      refine bind_congr fun r => ?_
      dsimp only
      split
      · rw [if_pos ‹_›]
        rfl
      · rw [if_neg ‹_›]
        rfl
    rcases runs_span he capturedLine? ms with ⟨vs, k, ns, length, h⟩ | ⟨vs, h⟩
    · by_cases hk : k.line.kind = .fence
      · refine .settled ("\n".intercalate vs) ns (by simp at length ⊢; omega) fun c => ?_
        rw [hdoc, h, prepend_cons, bind_ok (take_line _ _), if_pos hk]
      · refine .refused (List.cons_ne_nil _ _) fun c r => ?_
        rw [hdoc, h, prepend_cons, bind_ok (take_line _ _), if_neg hk]
        rintro ⟨⟩
    · refine .unfinished ?_
      rw [hdoc, h]
      exact (unfinished_take he).bind _

/-! ## Steps -/

theorem cut_attached (shape : Shape) (ls : List Significant) : Cut Whole (attached shape) e ls := by
  by_cases hrow : shape = .row
  · refine ((cut_grid he ls).map fun g => .table g.table).shift (Nat.le_refl _) fun c => ?_
    rw [attached, if_pos hrow]
    rfl
  · refine ((cut_docString he ls).map .docString).shift (Nat.le_refl _) fun c => ?_
    rw [attached, if_neg hrow]
    rfl

/-- The check that no second argument comes after one of this shape. -/
theorem cut_conflict (shape : Shape) (a : Argument) (ls : List Significant) :
    Cut Whole (fun c => c.peek >>= fun next => if attaches next = true then
      .error ⟨next.line, .argumentConflict shape next.shape⟩ else .ok (some a, c)) e ls := by
  refine cut_peek he ls (fun n h => .inr ⟨some a, whole_nil, by rw [h]; rfl⟩) fun l ms => ?_
  by_cases hl : attaches ⟨l.line.kind.shape, l.line.number, l.afterBlank⟩ = true
  · simp only [if_pos hl]
    exact .refused (List.cons_ne_nil _ _) fun _ _ => nofun
  · simp only [if_neg hl]
    exact .settled (some a) (l :: ms) (Nat.le_refl _) fun _ => rfl

theorem cut_argument (ls : List Significant) : Cut Whole argument e ls := by
  refine cut_peek he ls (fun n h => .inr ⟨none, whole_nil, by rw [h]; rfl⟩) fun l ms => ?_
  by_cases hl : attaches ⟨l.line.kind.shape, l.line.number, l.afterBlank⟩ = true
  · simp only [if_pos hl]
    refine ((cut_attached he l.line.kind.shape (l :: ms)).bind whole_nil
      (fun a ns _ => cut_conflict he l.line.kind.shape a ns)
      fun a => cut_conflict he l.line.kind.shape a []).shift (Nat.le_refl _) fun c => ?_
    refine bind_congr fun ⟨a, rest⟩ => bind_congr fun next => ?_
    split <;> rfl
  · simp only [if_neg hl]
    exact .settled none (l :: ms) (Nat.le_refl _) fun _ => rfl

theorem cut_step (ls : List Significant) : Cut Whole step e ls := by
  cases ls with
  | nil => exact .unfinished ((unfinished_take he).bind _)
  | cons l ms =>
    by_cases hl : ∃ keyword text, l.line.kind = .step keyword text
    · obtain ⟨keyword, text, hl⟩ := hl
      refine ((cut_argument he ms).map fun a => (⟨keyword, text, a⟩ : Step)).shift
        (Nat.le_succ _) fun c => ?_
      rw [step, prepend_cons, bind_ok (take_line _ _)]
      dsimp only
      rw [hl]
      rfl
    · refine .refused (List.cons_ne_nil _ _) fun c r h => hl ?_
      obtain ⟨⟨k, d⟩, hk, h⟩ := bind_eq_ok.1 h
      obtain ⟨rfl, rfl⟩ := Prod.mk.inj (Except.ok.inj hk)
      dsimp only at h
      split at h
      · exact ⟨_, _, ‹_›⟩
      · exact (throw_eq_ok.1 h).elim

omit he in
/-- What a part takes stands on lines that were there. -/
theorem length_lt_of_size {α : Type} {P : Cursor → Except Fault (α × Cursor)} {v : α}
    {ls ms : List Significant} (hP : ∀ {c rest : Cursor} {v : α}, P c = .ok (v, rest) →
      rest.size < c.size) (h : ∀ c, P (prepend ls c) = .ok (v, prepend ms c)) :
    ms.length < ls.length := by
  simpa [size_prepend, Cursor.size] using hP (h (.ended 0))

theorem cut_steps (ls : List Significant) : Cut Whole steps e ls := by
  -- on the lines that are there, of which a step takes at least one
  induction hn : ls.length using Nat.strongRecOn generalizing ls with
  | _ n ih =>
    cases ls with
    | nil =>
      rcases peek_spent he with hpeek | ⟨n, rfl⟩
      · refine .unfinished ?_
        rw [prepend_nil, steps]
        exact hpeek.bind _
      · exact .spent [] [] rfl (by rw [prepend_nil, steps]; rfl)
    | cons l ms =>
      by_cases hstep : l.line.kind.shape = .step
      · have hmore (s : Step) (ns : List Significant) (h : ns.length < n) :
            Cut Whole (fun c => steps c >>= fun q => .ok (s :: q.1, q.2)) e ns :=
          (ih ns.length h ns rfl).map (s :: ·)
        exact ((cut_step he (l :: ms)).bind whole_nil
          (fun s ns h => hmore s ns (hn ▸ length_lt_of_size size_of_step h))
          fun s => hmore s [] (hn ▸ Nat.succ_pos _)).shift (Nat.le_refl _)
          fun c => steps_eq_bind (peek_cons l ms c) hstep
      · by_cases hother : l.line.kind.shape = .text ∨ l.line.kind.shape = .row ∨
            l.line.kind.shape = .fence
        · refine .refused (List.cons_ne_nil _ _) fun c r => ?_
          rw [steps, bind_ok (peek_cons l ms c)]
          rcases hother with h | h | h <;> rw [h] <;> rintro ⟨⟩
        · rw [not_or, not_or] at hother
          exact .settled [] (l :: ms) (Nat.le_refl _) fun c =>
            steps_of_bodyEnd ⟨_, peek_cons l ms c, hother.1, hother.2.1, hother.2.2, hstep⟩

theorem cut_block (ts : List Tag) (name : String) (ls : List Significant) :
    Cut Whole (block ts name) e ls :=
  (cut_description he ls).bind whole_nil
    (fun d ms _ => (cut_steps he ms).map fun ss => (⟨name, d, ts, ss⟩ : Block))
    fun d => (cut_steps he []).map fun ss => (⟨name, d, ts, ss⟩ : Block)

/-! ## Looking ahead -/

omit he in
/-- The tag lines end within these lines, or these are all tag lines. -/
theorem tags_cut (ls : List Significant) :
    (∃ tss l ms, (l :: ms).length ≤ ls.length ∧ tagLine? l = none ∧
        ∀ c, (prepend ls c).span tagLine? = (tss, prepend (l :: ms) c)) ∨ OnlyTags ls := by
  rcases span_cut tagLine? ls with h | ⟨tss, htags, -⟩
  · exact .inl h
  · exact .inr ⟨tss, htags.imp fun _ _ => tagLine?_eq_some.1⟩

/-- Tag lines up to the end of the text. -/
theorem tags_at_end {ls : List Significant} (h : OnlyTags ls) : Unfinished (tags (prepend ls e)) ∨
    ∃ ts n, e = .ended n ∧ tags (prepend ls e) = .ok (ts, .ended n) := by
  obtain ⟨tss, htags⟩ := h
  have hspan := span_prepend (htags.imp fun _ _ => tagLine?_eq_some.2) (he.span tagLine?)
  cases he with
  | ended n =>
    refine .inr ⟨tss.flatten, n, rfl, ?_⟩
    rw [tags, hspan]
    rfl
  | failed hf =>
    left
    rw [tags, hspan]
    exact unfinished_of_kind hf

/-- What is looked for shows within the lines, or they are tag lines up to the end of the text,
where more may come or it is `last`. -/
def Looks {α : Type} (look : Cursor → Except Fault α) (last : α) (e : Cursor)
    (ls : List Significant) : Prop :=
  (ls ≠ [] ∧ ∃ x, ∀ c, look (prepend ls c) = x) ∨
    OnlyTags ls ∧ (Unfinished (look (prepend ls e)) ∨ look (prepend ls e) = .ok last)

omit he in
theorem headingAfterTags_span (c : Cursor) :
    c.headingAfterTags = (c.span tagLine?).2.headingAfterTags := by
  induction c with
  | ended n => rfl
  | failed f => rfl
  | line l rest ih =>
    cases hl : l.line.kind <;> simp only [headingAfterTags, span, tagLine?, hl, ih]

omit he in
theorem examplesAhead?_congr {c d : Cursor} (hpeek : c.peek = d.peek)
    (hheading : c.headingAfterTags = d.headingAfterTags) : examplesAhead? c = examplesAhead? d := by
  rw [examplesAhead?, examplesAhead?, hpeek, hheading]

omit he in
theorem headingAfterTags_of_other {l : Significant} (hl : tagLine? l = none) (c d : Cursor) :
    (Cursor.line l c).headingAfterTags = (Cursor.line l d).headingAfterTags := by
  cases hk : l.line.kind <;> simp_all [tagLine?, headingAfterTags]

theorem looks_examplesAhead (ls : List Significant) : Looks examplesAhead? none e ls := by
  rcases tags_cut ls with ⟨tss, l, ms, length, hl, h⟩ | ⟨tss, htags⟩
  · cases ls with
    | nil => exact absurd length (by simp)
    | cons k ks =>
      refine .inl ⟨List.cons_ne_nil _ _, examplesAhead? (prepend (k :: ks) e), fun c =>
        examplesAhead?_congr rfl ?_⟩
      rw [headingAfterTags_span, headingAfterTags_span (prepend (k :: ks) e), h, h]
      exact headingAfterTags_of_other hl _ _
  · refine .inr ⟨⟨tss, htags⟩, ?_⟩
    have hnone : (prepend ls e).headingAfterTags = none := by
      rw [headingAfterTags_span,
        span_prepend (htags.imp fun _ _ => tagLine?_eq_some.2) (he.span tagLine?)]
      cases he <;> rfl
    cases htags with
    | nil =>
      rcases peek_spent he with hpeek | ⟨n, rfl⟩
      · exact .inl (hpeek.bind _)
      · exact .inr rfl
    | @cons k _ ks _ hk =>
      right
      have hshape : k.line.kind.shape ≠ .heading .examples := by
        rw [show k.line.kind = _ from hk]
        exact nofun
      rw [examplesAhead?, bind_ok (peek_cons k ks e), hnone, if_neg (by simp), if_neg hshape]
      rfl

/-! ## Examples -/

theorem cut_examplesTable (ls : List Significant) : Cut Whole examplesTable e ls := by
  have htable (ls : List Significant) : Cut Whole (fun c => c.peek >>= fun next =>
      if next.shape = .row then grid c
      else throw (next.reject .unexpectedLine .examplesTable)) e ls := by
    refine cut_peek he ls (fun n _ => .inl (unfinished_of_kind rfl)) fun l ms => ?_
    by_cases hl : l.line.kind.shape = .row
    · simp only [if_pos hl]
      exact cut_grid he (l :: ms)
    · simp only [if_neg hl]
      exact .refused (List.cons_ne_nil _ _) fun _ _ => nofun
  exact (cut_heading he .examples ls).bind whole_nil (fun _ ms _ => htable ms) fun _ => htable []

omit he in
/-- The header of an examples table stands on its second line. -/
theorem header_of_examplesTable {c d : Cursor} {g : Grid} (h : examplesTable c = .ok (g, d)) :
    ∃ l k c', c = .line l (.line k c') ∧ RowLine k g.header := by
  obtain ⟨⟨⟨line, name⟩, rest⟩, hheading, -⟩ := bind_eq_ok.1 h
  obtain ⟨l, rfl, hl, -⟩ := heading_eq_ok_iff.1 hheading
  obtain ⟨k, c', rfl, hk, -⟩ := grid_header (grid_of_examplesTable h hl)
  exact ⟨l, k, c', rfl, hk⟩

/-- An examples table with the header of an earlier one. -/
def sameTable (first : Option (List String)) (c : Cursor) : Except Fault (Grid × Cursor) :=
  examplesTable c >>= fun r =>
    (checkSameHeader first r.1 >>= fun _ => .ok r.1) >>= fun g => .ok (g, r.2)

/-- A table with another header than an earlier one has it with more rows too. -/
theorem cut_sameTable (first : Option (List String)) (ls : List Significant) :
    Cut Whole (sameTable first) e ls := by
  refine (cut_examplesTable he ls).check (fun g => checkSameHeader first g >>= fun _ => .ok g)
    fun g d hg => ?_
  by_cases hsame : ∀ header ∈ first, g.header = header
  · exact .inl ⟨g, bind_ok (checkSameHeader_eq_ok.2 hsame) _⟩
  · right; right
    obtain ⟨l, k, c', hls, hk⟩ := header_of_examplesTable hg
    obtain ⟨ms, rfl, hms⟩ := he.eq_cons hls
    obtain ⟨ns, rfl, -⟩ := he.eq_cons hms.symm
    refine ⟨List.cons_ne_nil _ _, fun c w d hw b hb => hsame ?_⟩
    obtain ⟨l', k', c', hls', hk'⟩ := header_of_examplesTable hw
    obtain ⟨rfl, hrest⟩ := Cursor.line.inj hls'
    obtain ⟨rfl, -⟩ := Cursor.line.inj hrest
    obtain ⟨⟨⟩, hcheck, -⟩ := bind_eq_ok.1 hb
    have hheader : g.header = w.header := by simpa [RowLine, show _ = _ from hk] using hk'
    rw [hheader]
    exact checkSameHeader_eq_ok.1 hcheck

omit he in
theorem examplesTables_eq_sameTable {first : Option (List String)} {c : Cursor} {n : Nat}
    (ahead : examplesAhead? c = .ok (some n)) :
    examplesTables first c = sameTable first c >>= fun r =>
      examplesTables (some (first.getD r.1.header)) r.2 >>= fun q => .ok (r.1 :: q.1, q.2) := by
  rw [examplesTables_eq_bind ahead, sameTable]
  simp only [bind_assoc]
  rfl

omit he in
theorem size_of_sameTable {first : Option (List String)} {c rest : Cursor} {g : Grid}
    (h : sameTable first c = .ok (g, rest)) : rest.size < c.size := by
  obtain ⟨⟨g', d⟩, hd, h⟩ := bind_eq_ok.1 h
  obtain ⟨_, -, h⟩ := bind_eq_ok.1 h
  obtain ⟨-, rfl⟩ := Prod.mk.inj (Except.ok.inj h)
  exact size_of_examplesTable hd

theorem cut_examplesTables (first : Option (List String)) (ls : List Significant) :
    Cut OnlyTags (examplesTables first) e ls := by
  -- on the lines that are there; behind a table its header is the first one
  induction hn : ls.length using Nat.strongRecOn generalizing first ls with
  | _ n ih =>
    rcases looks_examplesAhead he ls with ⟨nonempty, x, hx⟩ | ⟨htags, hfails | hnone⟩
    · rcases x with f | _ | m
      · refine .refused nonempty fun c r => ?_
        rw [examplesTables, hx]
        rintro ⟨⟩
      · refine .settled [] ls (Nat.le_refl _) fun c => ?_
        rw [examplesTables, bind_ok (hx c)]
        rfl
      · have hmore (g : Grid) (ms : List Significant) (h : ms.length < n) :
            Cut OnlyTags (fun c => examplesTables (some (first.getD g.header)) c >>= fun q =>
              .ok (g :: q.1, q.2)) e ms :=
          (ih ms.length h _ ms rfl).map (g :: ·)
        exact ((cut_sameTable he first ls).bind onlyTags_nil
          (fun g ms h => hmore g ms (hn ▸ length_lt_of_size size_of_sameTable h))
          fun g => hmore g [] (hn ▸ List.length_pos_of_ne_nil nonempty)).shift (Nat.le_refl _)
          fun c => examplesTables_eq_sameTable (hx c)
    · refine .unfinished ?_
      rw [examplesTables]
      exact hfails.bind _
    · refine .spent [] ls htags ?_
      rw [examplesTables, bind_ok hnone]
      rfl

/-! ## Scenarios -/

/-- The end of a plain scenario: no examples come behind it. -/
def withoutExamples (b : Block) (c : Cursor) : Except Fault (Scenario × Cursor) :=
  examplesAhead? c >>= fun ahead => match ahead with
    | some n => throw ⟨n, .examplesInScenario⟩
    | none => pure (.simple b, c)

theorem cut_withoutExamples (b : Block) (ls : List Significant) :
    Cut OnlyTags (withoutExamples b) e ls := by
  rcases looks_examplesAhead he ls with ⟨nonempty, x, hx⟩ | ⟨htags, hfails | hnone⟩
  · rcases x with f | _ | m
    · refine .refused nonempty fun c r => ?_
      rw [withoutExamples, hx]
      rintro ⟨⟩
    · exact .settled (.simple b) ls (Nat.le_refl _) fun c => bind_ok (hx c) _
    · refine .refused nonempty fun c r => ?_
      rw [withoutExamples, bind_ok (hx c)]
      rintro ⟨⟩
  · exact .unfinished (hfails.bind _)
  · exact .spent (.simple b) ls htags (bind_ok hnone _)

theorem cut_simpleBody (ts : List Tag) (name : String) (ls : List Significant) :
    Cut OnlyTags (simpleBody ts name) e ls :=
  (cut_block he ts name ls).bind onlyTags_nil (fun b ms _ => cut_withoutExamples he b ms)
    fun b => cut_withoutExamples he b []

theorem cut_outlineBody (ts : List Tag) (n : Nat) (name : String) (ls : List Significant) :
    Cut OnlyTags (outlineBody ts n name) e ls := by
  have hend (b : Block) (ls : List Significant) : Cut OnlyTags (fun c =>
      examplesTables none c >>= fun r => if r.1 = [] then throw ⟨n, .missingExamples name⟩
        else pure (Scenario.outline ⟨b, r.1.flatMap fun g => g.table.rows⟩, r.2)) e ls := by
    refine ((cut_examplesTables he none ls).check (fun gs => if gs = [] then
      .error ⟨n, .missingExamples name⟩
      else .ok (Scenario.outline ⟨b, gs.flatMap fun g => g.table.rows⟩)) fun gs d _ => ?_).shift
      (Nat.le_refl _) fun c => bind_congr fun ⟨gs, rest⟩ => ?_
    · split
      · exact .inr (.inl ⟨_, rfl, .inr rfl⟩)
      · exact .inl ⟨_, rfl⟩
    · dsimp only
      split <;> rfl
  exact (cut_block he ts name ls).bind onlyTags_nil (fun b ms _ => hend b ms) fun b => hend b []

theorem cut_scenario (ts : List Tag) (ls : List Significant) :
    Cut OnlyTags (fun c => (scenario ts c).result) e ls := by
  cases ls with
  | nil =>
    refine .unfinished ?_
    rw [scenario, Logged.result_bind]
    exact (unfinished_take he).bind _
  | cons l ms =>
    have htake (c : Cursor) : (prepend (l :: ms) c).take = .ok (l, prepend ms c) := rfl
    by_cases hsimple : ∃ name, l.line.kind = .heading .scenario name
    · obtain ⟨name, hl⟩ := hsimple
      refine (cut_simpleBody he ts name ms).shift (Nat.le_succ _) fun c => ?_
      rw [scenario, result_lift_bind (htake c)]
      dsimp only
      rw [hl]
      rfl
    · by_cases houtline : ∃ name, l.line.kind = .heading .scenarioOutline name
      · obtain ⟨name, hl⟩ := houtline
        refine (cut_outlineBody he ts l.line.number name ms).shift (Nat.le_succ _) fun c => ?_
        rw [scenario, result_lift_bind (htake c)]
        dsimp only
        rw [hl]
        rfl
      · refine .refused (List.cons_ne_nil _ _) fun c r => ?_
        rw [scenario, result_lift_bind (htake c)]
        dsimp only
        split
        · exact absurd ⟨_, ‹_›⟩ hsimple
        · exact absurd ⟨_, ‹_›⟩ houtline
        · rintro ⟨⟩

theorem cut_taggedScenario (ls : List Significant) :
    Cut OnlyTags (fun c => (taggedScenario c).result) e ls := by
  refine ((cut_tags he ls).bind onlyTags_nil (fun ts ms _ => cut_scenario he ts ms)
    fun ts => cut_scenario he ts []).shift (Nat.le_refl _) fun c => ?_
  rw [taggedScenario, Logged.result_bind]
  rfl

theorem cut_background (ts : List Tag) (ls : List Significant) :
    Cut Whole (fun c => (background ts c).result) e ls := by
  refine ((cut_heading he .background ls).bind whole_nil
    (fun opening ms _ => cut_block he ts opening.2 ms)
    fun opening => cut_block he ts opening.2 []).shift (Nat.le_refl _) fun c => ?_
  rw [background, Logged.result_bind]
  rfl

theorem cut_background? (ls : List Significant) :
    Cut OnlyTags (fun c => (background? c).result) e ls := by
  rcases tags_cut ls with ⟨tss, l, ms, length, -, h⟩ | htags
  · have htags (c : Cursor) : tags (prepend ls c) = .ok (tss.flatten, prepend (l :: ms) c) := by
      rw [tags, h]
      rfl
    by_cases hshape : l.line.kind.shape = .heading .background
    · refine (((cut_background he tss.flatten (l :: ms)).mono ?_).map some).shift length fun c => ?_
      · rintro _ rfl
        exact onlyTags_nil
      · rw [background?, result_lift_bind (htags c)]
        dsimp only
        rw [result_lift_bind (peek_cons l ms c), if_pos hshape, Logged.result_bind]
        rfl
    · refine .settled none ls (Nat.le_refl _) fun c => ?_
      rw [background?, result_lift_bind (htags c)]
      dsimp only
      rw [result_lift_bind (peek_cons l ms c), if_neg hshape]
      rfl
  · rcases tags_at_end he htags with hfails | ⟨ts, n, rfl, hread⟩
    · refine .unfinished ?_
      rw [background?, Logged.result_bind]
      exact hfails.bind _
    · refine .spent none ls htags ?_
      rw [background?, result_lift_bind hread]
      rfl

end Parse

end Gherkin
