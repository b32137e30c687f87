import Gherkin.Proofs.Pieces

/-
  The layout of a text does not matter: not the blanks before its lines, if all have the same, nor
  carriage returns before its newlines (`layout_independent`). Outside doc strings the content of a
  line is trimmed. A captured line loses at most the indentation of the fence, and both grow by as
  much (`dedent_shifted`). One line can get less than the others: a carriage return that is written
  before a newline joins the line end.
-/

namespace Gherkin

open Line Reader

namespace Text

/-! ## Writing blanks and line ends -/

/-- The characters with `w` before each line; `start` tells whether a line starts here. -/
def indentFrom (w : List Char) (start : Bool) : List Char → List Char
  | [] => []
  | c :: r => (if start then w else []) ++ c :: indentFrom w (c = '\n') r

/-- The text with `w` at the start of every line. -/
def indentLines (w text : String) : String :=
  String.ofList (indentFrom w.toList true text.toList)

/-- The text with a carriage return before every newline. -/
def returnLines (text : String) : String :=
  String.ofList (text.toList.flatMap fun c => if c = '\n' then ['\r', '\n'] else [c])

/-! ## Lines with blanks before them -/

/-- The line with `w` before it; an empty one may get less. -/
def Shifted (w raw raw' : List Char) : Prop :=
  raw' = w ++ raw ∨ (raw = [] ∧ Blanks raw' ∧ raw'.length ≤ w.length)

theorem dedent_nil (n : Nat) : dedent n [] = [] := by cases n <;> rfl

section Shifted

variable {w raw raw' : List Char} (hw : Blanks w) (h : Shifted w raw raw')
include hw h

theorem trim_shifted : trim raw' = trim raw := by
  rcases h with rfl | ⟨rfl, hblank, -⟩
  · exact trim_append_left hw raw
  · rw [trim_eq_nil.2 hblank, trim_nil]

omit h in
theorem dedent_append (n : Nat) (s : List Char) : dedent (w.length + n) (w ++ s) = dedent n s := by
  induction w with
  | nil => rw [List.length_nil, Nat.zero_add, List.nil_append]
  | cons c w ih =>
    obtain ⟨hc, hrest⟩ := List.forall_mem_cons.1 hw
    rw [List.length_cons, Nat.add_right_comm, List.cons_append, dedent, if_pos hc, ih hrest]

/-- What is taken from a line grows with the line. -/
theorem dedent_shifted (n : Nat) : dedent (w.length + n) raw' = dedent n raw := by
  rcases h with rfl | ⟨rfl, hblank, hlength⟩
  · exact dedent_append hw n raw
  · obtain ⟨m, hm⟩ := Nat.exists_eq_add_of_le hlength
    have hnone := dedent_append hblank (m + n) []
    rw [List.append_nil, ← Nat.add_assoc, ← hm] at hnone
    rw [hnone, dedent_nil, dedent_nil]

theorem indent_shifted (hraw : raw ≠ []) : indent raw' = w.length + indent raw := by
  rcases h with rfl | ⟨rfl, -, -⟩
  · rw [indent, List.takeWhile_append_of_pos hw, List.length_append, indent]
  · exact absurd rfl hraw

end Shifted

/-- The first line gets what is written before a text. -/
theorem lines_shifted {w s l : List Char} {ls : List (List Char)} (hw : Blanks w) (hn : '\n' ∉ w)
    (h : lines s = l :: ls) : ∃ l', lines (w ++ s) = l' :: ls ∧ Shifted w l l' := by
  induction w with
  | nil => exact ⟨l, h, .inl rfl⟩
  | cons c w ih =>
    obtain ⟨hc, hrest⟩ := List.forall_mem_cons.1 hw
    rw [List.mem_cons, not_or] at hn
    obtain ⟨l', hl', hshifted⟩ := ih hrest hn.2
    rw [List.cons_append]
    by_cases hr : ∃ r, c = '\r' ∧ w ++ s = '\n' :: r
    · -- the carriage return belongs to the line end after it
      obtain ⟨r, rfl, hs⟩ := hr
      rw [hs, lines_newline] at hl'
      obtain ⟨rfl, rfl⟩ := List.cons.inj hl'
      rw [hs, lines_crlf]
      refine ⟨[], rfl, ?_⟩
      rcases hshifted with e | ⟨hl, hblank, -⟩
      · exact .inr ⟨(List.append_eq_nil_iff.1 e.symm).2, by simp [Blanks], Nat.zero_le _⟩
      · exact .inr ⟨hl, hblank, Nat.zero_le _⟩
    · have hfirst : ∀ r, c = '\r' → w ++ s ≠ '\n' :: r := fun r hc hs => hr ⟨r, hc, hs⟩
      rw [lines_cons (Ne.symm hn.1) hfirst, hl']
      refine ⟨c :: l', rfl, ?_⟩
      rcases hshifted with rfl | ⟨hl, hblank, hlength⟩
      · exact .inl rfl
      · exact .inr ⟨hl, List.forall_mem_cons.2 ⟨hc, hblank⟩, Nat.succ_le_succ hlength⟩

theorem indentFrom_true (w s : List Char) (hs : s ≠ []) :
    indentFrom w true s = w ++ indentFrom w false s := by
  cases s with
  | nil => exact absurd rfl hs
  | cons c r => rfl

theorem indentFrom_false_newline {w r s : List Char} (h : indentFrom w false r = '\n' :: s) :
    ∃ t, r = '\n' :: t := by
  cases r with
  | nil => cases h
  | cons c r =>
    obtain ⟨rfl, -⟩ := List.cons.inj h
    exact ⟨r, rfl⟩

/-- The first line is left as it is, and every other one gets `w`. -/
def TailShifted (w s : List Char) : Prop :=
  (lines (indentFrom w false s)).head? = (lines s).head? ∧
    List.Forall₂ (Shifted w) (lines s).tail (lines (indentFrom w false s)).tail

section Indent

variable {w : List Char} (hw : Blanks w) (hn : '\n' ∉ w)
include hw hn

theorem shifted_of_tailShifted {s : List Char} (h : TailShifted w s) :
    List.Forall₂ (Shifted w) (lines s) (lines (indentFrom w true s)) := by
  by_cases hs : s = []
  · subst hs
    rw [indentFrom, lines_nil]
    exact .nil
  · obtain ⟨hhead, htail⟩ := h
    rw [indentFrom_true w s hs]
    cases hl : lines s with
    | nil => exact absurd (lines_eq_nil.1 hl) hs
    | cons l ls =>
      rw [hl] at hhead htail
      obtain ⟨ls', hls'⟩ := List.head?_eq_some_iff.1 hhead
      rw [hls'] at htail
      obtain ⟨l', hl', hshifted⟩ := lines_shifted hw hn hls'
      rw [hl']
      exact .cons hshifted htail

theorem tailShifted (s : List Char) : TailShifted w s := by
  induction s using lines.induct with
  | case1 => exact ⟨rfl, by rw [indentFrom, lines_nil]; exact .nil⟩
  | case2 r ih =>
    have hr : indentFrom w false ('\n' :: r) = '\n' :: indentFrom w true r := rfl
    rw [TailShifted, hr, lines_newline, lines_newline]
    exact ⟨rfl, shifted_of_tailShifted hw hn ih⟩
  | case3 r ih =>
    have hr : indentFrom w false ('\r' :: '\n' :: r) = '\r' :: '\n' :: indentFrom w true r := rfl
    rw [TailShifted, hr, lines_crlf, lines_crlf]
    exact ⟨rfl, shifted_of_tailShifted hw hn ih⟩
  | case4 c r hc hr he ih =>
    obtain rfl := lines_eq_nil.1 he
    exact ⟨rfl, by simp [indentFrom, lines]⟩
  | case5 c r hc hr l ls he ih =>
    have hplain : indentFrom w false (c :: r) = c :: indentFrom w false r := by
      rw [indentFrom, decide_eq_false hc]
      rfl
    have hfirst : ∀ s, c = '\r' → indentFrom w false r ≠ '\n' :: s := by
      rintro s rfl hs
      obtain ⟨t, rfl⟩ := indentFrom_false_newline hs
      exact hr t rfl rfl
    obtain ⟨hhead, htail⟩ := ih
    rw [TailShifted, hplain, lines_cons hc hfirst, lines_cons hc hr]
    refine ⟨?_, htail⟩
    rw [List.head?_cons, List.head?_cons, List.headD_eq_head?_getD, hhead,
      List.headD_eq_head?_getD]

/-- Every line of the text gets `w`. -/
theorem lines_indentFrom (s : List Char) :
    List.Forall₂ (Shifted w) (lines s) (lines (indentFrom w true s)) :=
  shifted_of_tailShifted hw hn (tailShifted hw hn s)

end Indent

/-! ## Line ends -/

/-- Carriage returns before the newlines of a text that has none do not change its lines. -/
theorem lines_returnLines {text : String} (h : '\r' ∉ text.toList) :
    lines (returnLines text).toList = lines text.toList := by
  rw [returnLines, String.toList_ofList]
  generalize text.toList = s at h ⊢
  induction s with
  | nil => rfl
  | cons c r ih =>
    rw [List.mem_cons, not_or] at h
    rw [List.flatMap_cons]
    by_cases hc : c = '\n'
    · subst hc
      rw [if_pos rfl, lines_newline, ← ih h.2]
      exact lines_crlf _
    · have hplain (t : List Char) : lines (c :: t) = (c :: (lines t).headD []) :: (lines t).tail :=
        lines_cons hc fun _ e => absurd e.symm h.1
      rw [if_neg hc, List.singleton_append, hplain, hplain, ih h.2]

end Text

/-! ## Reading shifted lines -/

/-- The doc string with the indentation of its fence grown by `n`. -/
def Line.Fence.shift (n : Nat) (fence : Fence) : Fence := { fence with indent := n + fence.indent }

section Reading

variable {w raw raw' : List Char} (hw : Text.Blanks w)
include hw

/-- A line says the same with the blanks before it, and the doc string that it opens shifts. -/
theorem Line.classify_shifted (h : Text.Shifted w raw raw') (fence : Option Fence) (n : Nat) :
    classify (fence.map (Fence.shift w.length)) n raw' =
      ((classify fence n raw).1, (classify fence n raw).2.map (Fence.shift w.length)) := by
  have htrim := Text.trim_shifted hw h
  cases fence with
  | some opened =>
    simp only [Option.map_some, classify, htrim]
    split
    · rfl
    · rw [Fence.shift, Text.dedent_shifted hw h]
      rfl
  | none =>
    simp only [Option.map_none, classify, htrim]
    split
    · rename_i hmark
      have hraw : raw ≠ [] := by
        rintro rfl
        cases hmark
      rw [Text.indent_shifted hw h hraw]
      rfl
    · rfl

theorem Reader.read_shifted (h : Text.Shifted w raw raw') (fence : Option Fence) (n : Nat) :
    read (fence.map (Fence.shift w.length)) n raw' =
      ((read fence n raw).1, (read fence n raw).2.map (Fence.shift w.length)) := by
  unfold read
  rw [classify_shifted hw h]
  rcases classify fence n raw with ⟨_ | _, _⟩ <;> rfl

theorem Reader.itemsFrom_shifted {raws raws' : List (List Char)}
    (h : List.Forall₂ (Text.Shifted w) raws raws') (last : Nat) (fence : Option Fence) :
    itemsFrom last (fence.map (Fence.shift w.length)) raws' = itemsFrom last fence raws := by
  induction h generalizing last fence with
  | nil => cases fence <;> rfl
  | cons hraw _ ih =>
    simp only [itemsFrom, read_shifted hw hraw, ih]

end Reading

/-- The parser sees of a text what the reader makes of its lines. -/
theorem Cursor.ofText_eq_of_items {t u : String}
    (hlength : (Text.lines t.toList).length = (Text.lines u.toList).length)
    (hitems : (Reader.ofText t.toList).items = (Reader.ofText u.toList).items) :
    Cursor.ofText t = Cursor.ofText u := by
  rw [ofText_eq_ofItems, ofText_eq_ofItems, hlength]
  exact congrArg _ hitems

theorem Cursor.ofText_indentLines {w : String} (hw : Text.Blanks w.toList) (hn : '\n' ∉ w.toList)
    (text : String) : Cursor.ofText (Text.indentLines w text) = Cursor.ofText text := by
  have hlines := Text.lines_indentFrom hw hn text.toList
  rw [Text.indentLines]
  refine Cursor.ofText_eq_of_items ?_ ?_
  · rw [String.toList_ofList, hlines.length_eq]
  · rw [String.toList_ofList]
    exact itemsFrom_shifted hw hlines 0 none

theorem Cursor.ofText_returnLines {text : String} (h : '\r' ∉ text.toList) :
    Cursor.ofText (Text.returnLines text) = Cursor.ofText text := by
  have hlines := Text.lines_returnLines h
  refine Cursor.ofText_eq_of_items (by rw [hlines]) ?_
  rw [Reader.ofText, hlines]
  rfl

theorem Scenario.ofText_eq (text : String) :
    Scenario.ofText text = (Parse.loneScenario (Cursor.ofText text)).result := rfl

/-- Blanks at the start of every line, the same for all, change nothing in what a text is, be it a
feature, a scenario or a fault; nor do carriage returns before the newlines of a text without
them. -/
theorem layout_independent (text : String) :
    (∀ w : String, (∀ c ∈ w.toList, Text.isBlank c = true ∧ c ≠ '\n') →
      Feature.ofText (Text.indentLines w text) = Feature.ofText text ∧
        Scenario.ofText (Text.indentLines w text) = Scenario.ofText text) ∧
    ('\r' ∉ text.toList →
      Feature.ofText (Text.returnLines text) = Feature.ofText text ∧
        Scenario.ofText (Text.returnLines text) = Scenario.ofText text) := by
  refine ⟨fun w hw => ?_, fun h => ?_⟩
  · have hblank : Text.Blanks w.toList := fun c hc => (hw c hc).1
    have hnewline : '\n' ∉ w.toList := fun hmem => (hw '\n' hmem).2 rfl
    have hcursor := Cursor.ofText_indentLines hblank hnewline text
    rw [Feature.ofText_eq, Feature.ofText_eq, Scenario.ofText_eq, Scenario.ofText_eq, hcursor]
    exact ⟨rfl, rfl⟩
  · rw [Feature.ofText_eq, Feature.ofText_eq, Scenario.ofText_eq, Scenario.ofText_eq,
      Cursor.ofText_returnLines h]
    exact ⟨rfl, rfl⟩

/-- A doc string with an empty line and one that is less indented than its fence. -/
theorem layout_independent_docString :
    ∃ f, Feature.ofText
        "Feature: F\nScenario: S\n Given a\n  \"\"\"\n   b\n\n c\n \"\"\"\n" = .ok f ∧
      (Feature.ofText (Text.indentLines "\u2003\r"
          "Feature: F\nScenario: S\n Given a\n  \"\"\"\n   b\n\n c\n \"\"\"\n") = .ok f ∧
        Feature.ofText (Text.returnLines
          "Feature: F\nScenario: S\n Given a\n  \"\"\"\n   b\n\n c\n \"\"\"\n") = .ok f) := by
  refine exists_ok_and (by decide +kernel) fun f hf => ?_
  obtain ⟨hindent, hreturn⟩ := layout_independent
    "Feature: F\nScenario: S\n Given a\n  \"\"\"\n   b\n\n c\n \"\"\"\n"
  exact ⟨(hindent "\u2003\r" (List.forall_iff_forall_mem.1 (by decide +kernel))).1.trans hf,
    (hreturn (by decide +kernel)).1.trans hf⟩

end Gherkin
