import Gherkin.Proofs.Pieces
import Gherkin.Proofs.Records

/-
  Windows as views of a reader. Calls that look at lines and take them, in any order, give the lines
  of the reader that are neither blank nor comments, each once, with the blank lines between them
  told by a flag, up to the first fault or the end of the text (`calls_follow_reader`). Each call
  takes from what is ahead the line that it gives away and nothing else (`view_of_call`); what is
  ahead of a text is known (`ofText_eq_prepend`), so after any calls what is left is, too.
-/

namespace Gherkin

open Grammar Reader

/-! ## Lines before the first fault -/

namespace Reader

theorem untilFault_sublist (items : List Item) :
    (untilFault items).1.Sublist (items.filterMap Except.toOption) := by
  induction items with
  | nil => exact .slnil
  | cons item items ih =>
    cases item with
    | error f => exact List.nil_sublist _
    | ok l => exact ih.cons_cons l

/-- The lines of a text before its first fault. -/
def linesOf (text : String) : List Line := (untilFault (ofText text.toList).items).1

/-- The fault that ends them. -/
def faultOf (text : String) : Option Fault := (untilFault (ofText text.toList).items).2

theorem numbers_linesOf (text : String) :
    (linesOf text).Pairwise fun l m => l.number < m.number :=
  numbers_itemsFrom.2.sublist (untilFault_sublist _)

end Reader

/-! ## Significant lines -/

/-- The line is neither blank nor a comment. -/
def Line.Kept (l : Line) : Prop := l.kind ≠ .blank ∧ l.kind ≠ .comment

instance : DecidablePred Line.Kept := fun _ => inferInstanceAs (Decidable (_ ∧ _))

/-- The lines of a text before its first fault that are neither blank nor comments. -/
def Reader.keptOf (text : String) : List Line := (linesOf text).filter Line.Kept

/-- A blank line stands behind some lines and before line `n`. -/
def BlankBetween (ls : List Line) (before : List Significant) (n : Nat) : Prop :=
  ∃ b ∈ ls, b.kind = .blank ∧ (∀ k ∈ before, k.line.number < b.number) ∧ b.number < n

theorem blankBetween_cons {l : Line} {ls : List Line} {before : List Significant} {n : Nat} :
    BlankBetween (l :: ls) before n ↔
      l.kind = .blank ∧ (∀ k ∈ before, k.line.number < l.number) ∧ l.number < n ∨
        BlankBetween ls before n := List.exists_mem_cons_iff _ _ _

theorem significant_blank {l : Line} (h : l.kind = .blank) (blank : Bool) (ls : List Line) :
    significant blank (l :: ls) = significant true ls := by simp only [significant, h]

theorem significant_comment {l : Line} (h : l.kind = .comment) (blank : Bool) (ls : List Line) :
    significant blank (l :: ls) = significant blank ls := by simp only [significant, h]

theorem lines_significant (blank : Bool) (ls : List Line) :
    (significant blank ls).map Significant.line = ls.filter Line.Kept := by
  induction ls generalizing blank with
  | nil => rfl
  | cons l ls ih =>
    by_cases hb : l.kind = .blank
    · rw [significant_blank hb, ih, List.filter_cons_of_neg (by simp [Line.Kept, hb])]
    · by_cases hc : l.kind = .comment
      · rw [significant_comment hc, ih, List.filter_cons_of_neg (by simp [Line.Kept, hc])]
      · rw [significant_cons hb hc, List.map_cons, ih,
          List.filter_cons_of_pos (by simp [Line.Kept, hb, hc])]

theorem mem_of_mem_significant {blank : Bool} {ls : List Line} {l : Significant}
    (h : l ∈ significant blank ls) : l.line ∈ ls := by
  have hl := List.mem_map_of_mem (f := Significant.line) h
  rw [lines_significant] at hl
  exact List.mem_of_mem_filter hl

/-- The flag of a significant line tells whether a blank line stands before it, behind the
significant lines before. -/
theorem afterBlank_iff {ls : List Line} (sorted : ls.Pairwise fun l m => l.number < m.number)
    {blank : Bool} {before after : List Significant} {l : Significant}
    (h : significant blank ls = before ++ l :: after) :
    l.afterBlank = true ↔ blank = true ∧ before = [] ∨ BlankBetween ls before l.line.number := by
  induction ls generalizing blank before with
  | nil => simp [significant] at h
  | cons m ls ih =>
    obtain ⟨hm, sorted⟩ := List.pairwise_cons.1 sorted
    have hlater {b : Bool} {k : Significant} (hk : k ∈ significant b ls) :
        m.number < k.line.number := hm k.line (mem_of_mem_significant hk)
    rw [blankBetween_cons]
    by_cases hb : m.kind = .blank
    · rw [significant_blank hb] at h
      rw [ih sorted h]
      cases before with
      | nil =>
        have hl : m.number < l.line.number := hlater (b := true) (by simp [h])
        simp [hb, hl]
      | cons k before =>
        -- the blank line stands before the significant lines, so it is not behind all of them
        have hk : m.number < k.line.number := hlater (b := true) (by simp [h])
        simp [Nat.lt_asymm hk]
    · simp only [hb, false_and, false_or]
      by_cases hc : m.kind = .comment
      · rw [significant_comment hc] at h
        exact ih sorted h
      · rw [significant_cons hb hc] at h
        cases before with
        | nil =>
          obtain ⟨rfl, -⟩ := List.cons.inj h
          have hnone : ¬BlankBetween ls [] m.number := by
            rintro ⟨b, hbls, -, -, hlt⟩
            exact Nat.lt_asymm hlt (hm b hbls)
          simp [hnone]
        | cons k before =>
          obtain ⟨rfl, hrest⟩ := List.cons.inj h
          have hbehind : BlankBetween ls (⟨m, blank⟩ :: before) l.line.number ↔
              BlankBetween ls before l.line.number :=
            exists_congr fun b => and_congr_right fun hbls => and_congr_right fun _ => by
              rw [List.forall_mem_cons, and_iff_right (hm b hbls)]
          rw [ih sorted hrest, hbehind]
          simp

/-! ## What is ahead of a reader -/

namespace Cursor

/-- Ahead of a reader are its significant lines before the first fault, and then that fault or the
end of the text. -/
theorem ofItems_eq_prepend (number : Nat) (blank : Bool) (items : List Item) :
    ofItems number blank items = prepend (significant blank (untilFault items).1)
      ((untilFault items).2.elim (.ended number) .failed) := by
  induction items generalizing blank with
  | nil => rfl
  | cons item items ih =>
    cases item with
    | error f => rfl
    | ok l =>
      unfold ofItems
      split
      · rename_i hl
        rw [ih, untilFault, significant_blank hl]
      · rename_i hl
        rw [ih, untilFault, significant_comment hl]
      · rename_i hb hc
        rw [ih, untilFault, significant_cons hb hc, prepend_cons]

theorem ofText_eq_prepend (text : String) :
    ofText text = prepend (significant false (linesOf text))
      ((faultOf text).elim (.ended (max (Text.lines text.toList).length 1)) .failed) := by
  rw [ofText_eq_ofItems, ofItems_eq_prepend]
  rfl

/-- Lines before a cursor begin the lines before a place where no line is ahead. -/
theorem exists_append_of_prepend {ls ms : List Significant} {c stop : Cursor}
    (h : prepend ms stop = prepend ls c) (none : stop.lines = []) :
    ∃ ns, ms = ls ++ ns ∧ c = prepend ns stop := by
  induction ls generalizing ms with
  | nil => exact ⟨ms, rfl, h.symm⟩
  | cons l ls ih =>
    cases ms with
    | nil =>
      rw [prepend_nil] at h
      rw [h] at none
      cases none
    | cons m ms =>
      obtain ⟨rfl, hrest⟩ := Cursor.line.inj h
      obtain ⟨ns, rfl, hc⟩ := ih hrest
      exact ⟨ns, rfl, hc⟩

end Cursor

/-! ## Looking and taking once -/

namespace Window

theorem fill_again {w filled : Window} (h : w.fill = .ok filled) : filled.fill = .ok filled := by
  obtain ⟨r, _ | l⟩ := w
  · have hseeks := seeks_seek false r
    rw [show seek false r = .ok filled from h] at hseeks
    cases hseeks with
    | ended =>
      rw [fill, seek]
      rfl
    | held => rfl
  · cases h
    rfl

/-- To look again shows the same. -/
theorem peek_again {w looked : Window} {p : Peek} (h : w.peek = .ok (p, looked)) :
    looked.peek = .ok (p, looked) := by
  obtain ⟨filled, hfill, h⟩ := Parse.bind_eq_ok.1 h
  cases hheld : filled.held <;> rw [hheld] at h <;>
    obtain ⟨rfl, rfl⟩ := Prod.mk.inj (Parse.pure_eq_ok.1 h) <;>
    rw [peek, fill_again hfill] <;> simp only [bind, Except.bind, hheld] <;> rfl

theorem view_peek (w : Window) : w.view.peek = w.peek.map Prod.fst := by
  cases shows w with
  | failed peek _ view => rw [view, peek]; rfl
  | ended peek _ view => rw [view, peek]; rfl
  | line peek _ _ view => rw [view, peek]; rfl

/-- To look changes nothing in what is ahead. -/
theorem view_of_peek {w looked : Window} {p : Peek} (h : w.peek = .ok (p, looked)) :
    looked.view = w.view := by
  cases shows w with
  | failed peek => cases peek.symm.trans h
  | ended peek _ _ same =>
    obtain ⟨-, rfl⟩ := Prod.mk.inj (Except.ok.inj (peek.symm.trans h))
    exact same
  | line peek _ _ _ same =>
    obtain ⟨-, rfl⟩ := Prod.mk.inj (Except.ok.inj (peek.symm.trans h))
    exact same

theorem view_of_take {w rest : Window} {l : Significant} (h : w.take = .ok (l, rest)) :
    w.view = .line l rest.view := by
  cases shows w with
  | failed _ take => cases take.symm.trans h
  | ended _ take => cases take.symm.trans h
  | line _ _ take view =>
    obtain ⟨rfl, rfl⟩ := Prod.mk.inj (Except.ok.inj (take.symm.trans h))
    exact view

end Window

/-! ## Calls -/

namespace Window

/-- What can be asked of a window. -/
inductive Call where
  | peek
  | take
deriving DecidableEq

/-- What a window answers. -/
inductive Answer where
  | seen (p : Peek)
  | taken (l : Significant)
deriving DecidableEq

/-- The line that an answer gives away. -/
def Answer.taken? : Answer → Option Significant
  | seen _ => none
  | taken l => some l

/-- The answer to a call and the window after it. -/
def call (w : Window) : Call → Except Fault (Answer × Window)
  | .peek => w.peek.map fun (p, looked) => (.seen p, looked)
  | .take => w.take.map fun (l, rest) => (.taken l, rest)

/-- The answers to calls, up to the first fault, and that fault or the window after the calls. -/
def calls (w : Window) : List Call → List Answer × Except Fault Window
  | [] => ([], .ok w)
  | c :: cs =>
    match w.call c with
    | .error f => ([], .error f)
    | .ok (a, rest) => let (as, outcome) := rest.calls cs; (a :: as, outcome)

/-- The lines that calls take. -/
def takenBy (w : Window) (cs : List Call) : List Significant :=
  (w.calls cs).1.filterMap Answer.taken?

/-- How calls end before what is left to come: a call fails at a fault, and taking a line fails at
the end of a text. -/
inductive Ends : Cursor → Except Fault Window → Prop
  | going (w : Window) : Ends w.view (.ok w)
  | failed (f : Fault) : Ends (.failed f) (.error f)
  | exhausted (n : Nat) : Ends (.ended n) (.error ⟨n, .exhausted⟩)

/-- A call takes the line that it gives away, and nothing else, from what is ahead. -/
theorem view_of_call {w rest : Window} {c : Call} {a : Answer} (h : w.call c = .ok (a, rest)) :
    w.view = Cursor.prepend a.taken?.toList rest.view := by
  cases c with
  | peek =>
    obtain ⟨⟨p, looked⟩, hpeek, hanswer⟩ := Parse.map_eq_ok.1 h
    obtain ⟨rfl, rfl⟩ := Prod.mk.inj hanswer
    exact (view_of_peek hpeek).symm
  | take =>
    obtain ⟨⟨l, after⟩, htake, hanswer⟩ := Parse.map_eq_ok.1 h
    obtain ⟨rfl, rfl⟩ := Prod.mk.inj hanswer
    exact view_of_take htake

theorem ends_of_call {w : Window} {c : Call} {f : Fault} (h : w.call c = .error f) :
    Ends w.view (.error f) := by
  cases c with
  | peek =>
    have hfault := Parse.map_eq_error.1 h
    cases shows w with
    | failed peek _ view =>
      obtain rfl := Except.error.inj (peek.symm.trans hfault)
      exact view ▸ .failed _
    | ended peek => cases peek.symm.trans hfault
    | line peek => cases peek.symm.trans hfault
  | take =>
    have hfault := Parse.map_eq_error.1 h
    cases shows w with
    | failed _ take view =>
      obtain rfl := Except.error.inj (take.symm.trans hfault)
      exact view ▸ .failed _
    | ended _ take view =>
      obtain rfl := Except.error.inj (take.symm.trans hfault)
      exact view ▸ .exhausted _
    | line _ _ take => cases take.symm.trans hfault

/-- The lines that calls take are those ahead, and the calls end before what is left. -/
theorem exists_ends (w : Window) (cs : List Call) :
    ∃ d, w.view = Cursor.prepend (w.takenBy cs) d ∧ Ends d (w.calls cs).2 := by
  induction cs generalizing w with
  | nil => exact ⟨w.view, rfl, .going w⟩
  | cons c cs ih =>
    unfold takenBy calls
    cases hcall : w.call c with
    | error f => exact ⟨w.view, rfl, ends_of_call hcall⟩
    | ok r =>
      obtain ⟨a, rest⟩ := r
      obtain ⟨d, hrest, hends⟩ := ih rest
      refine ⟨d, ?_, hends⟩
      rw [view_of_call hcall, hrest, ← Cursor.prepend_append]
      cases a <;> rfl

/-- What a window shows behind lines that were taken of a text: the next line that is neither blank
nor a comment, marked if a blank line stands before it, and behind the last one the fault of the
text or its end. A line that is seen is the line that is taken next. -/
inductive ShowsBehind (text : String) (taken : List Significant) (w : Window) : Prop
  | line {l : Significant} {looked rest : Window}
    (next : (keptOf text)[taken.length]? = some l.line)
    (marked : l.afterBlank = true ↔ BlankBetween (linesOf text) taken l.line.number)
    (peek : w.peek = .ok (⟨l.line.kind.shape, l.line.number, l.afterBlank⟩, looked))
    (held : looked.take = .ok (l, rest)) (take : w.take = .ok (l, rest))
  | failed {f : Fault} (finished : (keptOf text).length = taken.length)
    (fault : faultOf text = some f) (peek : w.peek = .error f) (take : w.take = .error f)
  | ended {looked : Window} (finished : (keptOf text).length = taken.length)
    (sound : faultOf text = none)
    (peek : w.peek = .ok (⟨.end, max 1 (Text.lines text.toList).length, false⟩, looked))
    (take : w.take = .error ⟨max 1 (Text.lines text.toList).length, .exhausted⟩)

section Text

variable {text : String} {taken : List Significant} {c : Cursor}

/-- Taken lines begin the significant lines of a text, and what is left is ahead. -/
theorem exists_left (h : Cursor.ofText text = Cursor.prepend taken c) :
    ∃ left, significant false (linesOf text) = taken ++ left ∧ c = Cursor.prepend left
      ((faultOf text).elim (.ended (max (Text.lines text.toList).length 1)) .failed) := by
  rw [Cursor.ofText_eq_prepend] at h
  exact Cursor.exists_append_of_prepend h (by cases faultOf text <;> rfl)

theorem length_of_left_nil (h : significant false (linesOf text) = taken ++ []) :
    (keptOf text).length = taken.length := by
  rw [keptOf, ← lines_significant false, h, List.append_nil, List.length_map]

theorem left_of_failed {f : Fault} (h : Cursor.ofText text = Cursor.prepend taken (.failed f)) :
    (keptOf text).length = taken.length ∧ faultOf text = some f := by
  obtain ⟨left, hleft, hstop⟩ := exists_left h
  cases left with
  | cons l left => cases hstop
  | nil =>
    refine ⟨length_of_left_nil hleft, ?_⟩
    cases hfault : faultOf text with
    | none => rw [hfault] at hstop; cases hstop
    | some g => rw [hfault] at hstop; cases hstop; rfl

theorem left_of_ended {n : Nat} (h : Cursor.ofText text = Cursor.prepend taken (.ended n)) :
    (keptOf text).length = taken.length ∧ faultOf text = none ∧
      n = max 1 (Text.lines text.toList).length := by
  obtain ⟨left, hleft, hstop⟩ := exists_left h
  cases left with
  | cons l left => cases hstop
  | nil =>
    refine ⟨length_of_left_nil hleft, ?_⟩
    cases hfault : faultOf text with
    | none => rw [hfault] at hstop; cases hstop; exact ⟨rfl, Nat.max_comm _ _⟩
    | some g => rw [hfault] at hstop; cases hstop

/-- The flag of a significant line of a text. -/
theorem marked_of_append {l : Significant} {left : List Significant}
    (h : significant false (linesOf text) = taken ++ l :: left) :
    l.afterBlank = true ↔ BlankBetween (linesOf text) taken l.line.number := by
  rw [afterBlank_iff (numbers_linesOf text) h]
  simp

/-- The window behind lines that were taken. -/
theorem showsBehind {w : Window} (h : Cursor.ofText text = Cursor.prepend taken w.view) :
    w.ShowsBehind text taken := by
  cases shows w with
  | failed peek take view =>
    obtain ⟨hlength, hfault⟩ := left_of_failed (view ▸ h)
    exact .failed hlength hfault peek take
  | ended peek take view =>
    obtain ⟨hlength, hsound, hlast⟩ := left_of_ended (view ▸ h)
    rw [hlast] at peek take
    exact .ended hlength hsound peek take
  | @line l looked rest peek held take view =>
    obtain ⟨left, hleft, hline⟩ := exists_left h
    rw [view] at hline
    cases left with
    | nil => cases hfault : faultOf text <;> rw [hfault] at hline <;> cases hline
    | cons k left =>
      obtain ⟨rfl, -⟩ := Cursor.line.inj hline
      refine .line ?_ (marked_of_append hleft) peek held take
      rw [keptOf, ← lines_significant false, hleft]
      simp

end Text

/-- Whatever is asked of a window on a text up to the first fault, the lines taken are the first of
those that are neither blank nor comments, each marked if a blank line stands between it and the
line before; the window then shows what comes next. The calls end early only where no such line is
left, at the fault of the text or past its end. -/
theorem calls_follow_reader (text : String) (cs : List Call) :
    let taken := (ofText text).takenBy cs
    taken.map Significant.line = (keptOf text).take taken.length ∧
    (∀ before l after, taken = before ++ l :: after →
      (l.afterBlank = true ↔ BlankBetween (linesOf text) before l.line.number)) ∧
    match ((ofText text).calls cs).2 with
    | .ok w => w.ShowsBehind text taken
    | .error f => (keptOf text).length = taken.length ∧
      (faultOf text).getD ⟨max 1 (Text.lines text.toList).length, .exhausted⟩ = f := by
  intro taken
  obtain ⟨c, hview, hends⟩ := exists_ends (ofText text) cs
  have hcursor : Cursor.ofText text = Cursor.prepend taken c := by
    rw [Cursor.ofText, ahead_eq_view, hview]
  obtain ⟨left, hleft, -⟩ := exists_left hcursor
  refine ⟨?_, fun before l after hl => ?_, ?_⟩
  · rw [keptOf, ← lines_significant false, hleft, List.map_append,
      List.take_left' (List.length_map _)]
  · rw [hl, List.append_assoc, List.cons_append] at hleft
    exact marked_of_append hleft
  · generalize ((ofText text).calls cs).2 = outcome at hends ⊢
    cases hends with
    | going w => exact showsBehind hcursor
    | failed f =>
      obtain ⟨hlength, hfault⟩ := left_of_failed hcursor
      exact ⟨hlength, by rw [hfault]; rfl⟩
    | exhausted n =>
      obtain ⟨hlength, hsound, hlast⟩ := left_of_ended hcursor
      exact ⟨hlength, by rw [hsound, hlast]; rfl⟩

/-- A text with a comment, a blank line, and a doc string that captures what looks like them. All
its lines are taken, some after a look, and its end is seen twice. -/
theorem calls_follow_reader_doc_string :
    let text := "Feature: F\n# note\n\n  Given a\n\"\"\"\n\n# d\n\"\"\"\n"
    let cs : List Call :=
      [.peek, .take, .peek, .peek, .take, .take, .peek, .take, .take, .take, .peek, .peek]
    let taken : List Significant :=
      [⟨⟨1, .heading .feature "F"⟩, false⟩, ⟨⟨4, .step .given "a"⟩, true⟩, ⟨⟨5, .fence⟩, false⟩,
        ⟨⟨6, .text ""⟩, false⟩, ⟨⟨7, .text "# d"⟩, false⟩, ⟨⟨8, .fence⟩, false⟩]
    (ofText text).takenBy cs = taken ∧
      taken.map Significant.line = (keptOf text).take 6 ∧
      BlankBetween (linesOf text) (taken.take 1) 4 ∧ ¬BlankBetween (linesOf text) (taken.take 4) 7 ∧
      ∃ w, ((ofText text).calls cs).2 = .ok w ∧ w.ShowsBehind text taken ∧
        w.peek.map Prod.fst = .ok ⟨.end, 8, false⟩ := by
  intro text cs taken
  have htaken : (ofText text).takenBy cs = taken := by decide +kernel
  obtain ⟨hlines, hmarked, houtcome⟩ := calls_follow_reader text cs
  rw [htaken] at hlines hmarked houtcome
  refine ⟨htaken, hlines, ?_, ?_, ?_⟩
  · exact (hmarked [_] _ _ rfl).1 rfl
  · exact fun hblank => Bool.false_ne_true ((hmarked (taken.take 4) _ _ rfl).2 hblank)
  · have hpeek : (((ofText text).calls cs).2.bind fun w => w.peek.map Prod.fst) =
        .ok ⟨.end, 8, false⟩ := by decide +kernel
    refine exists_ok_and (by decide +kernel) fun w hw => ?_
    rw [hw] at houtcome hpeek
    exact ⟨houtcome, hpeek⟩

end Window

end Gherkin
