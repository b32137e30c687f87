import Gherkin.Proofs.Invariant
import Gherkin.Proofs.Placeholders
import Gherkin.Proofs.Spelling
import Gherkin.Proofs.Truncation
import Gherkin.Proofs.Utf8
import Mathlib.Algebra.Ring.Parity

/-
  The summary of an expansion as its reader sees it: lines, of which an indented one is a step of
  the example whose line stands before it. The summary writes a line for each example and for each
  of its steps, and no line for anything else. A cell can hold a newline, which is written as it
  stands, so the lines written are the lines read exactly if no example binds one
  (`summary_shows_examples`); a cell with a newline can show a step that is not there
  (`newline_shows_step`).
-/

namespace Gherkin

open Text

namespace Report

/-! ## Lines of a report -/

/-- Lines with their ends. -/
def printLines (ls : List String) : String := String.join (ls.map (· ++ "\n"))

/-- The lines of a text whose last line is ended. -/
def readLines (text : String) : List String :=
  (text.toList.splitOn '\n').dropLast.map String.ofList

theorem toList_printLines_cons (l : String) (ls : List String) :
    (printLines (l :: ls)).toList = l.toList ++ '\n' :: (printLines ls).toList := by
  simp [printLines]

theorem count_printLines (ls : List String) : (printLines ls).toList.count '\n' =
    ls.length + (ls.map fun l => l.toList.count '\n').sum := by
  induction ls with
  | nil => rfl
  | cons l ls ih =>
    rw [toList_printLines_cons, List.count_append, List.count_cons_self, ih, List.length_cons,
      List.map_cons, List.sum_cons]
    omega

/-- There is a newline for each line, and no other exactly if every line is one. -/
theorem count_printLines_eq_iff {ls : List String} :
    (printLines ls).toList.count '\n' = ls.length ↔ ∀ l ∈ ls, OneLine l := by
  have hzero : (ls.map fun l => l.toList.count '\n').sum = 0 ↔ ∀ l ∈ ls, OneLine l := by
    rw [List.sum_eq_zero_iff_forall_eq_nat, List.forall_mem_map]
    exact forall₂_congr fun l _ => List.count_eq_zero
  rw [count_printLines, ← hzero]
  omega

theorem splitOn_append {l : List Char} (h : '\n' ∉ l) (s : List Char) :
    (l ++ '\n' :: s).splitOn '\n' = l :: s.splitOn '\n' := by
  induction l with
  | nil => rw [List.nil_append, List.splitOn_cons_eq_if_modifyHead, if_pos (beq_self_eq_true _)]
  | cons c l ih =>
    obtain ⟨hc, hl⟩ := not_or.1 (List.mem_cons.not.1 h)
    rw [List.cons_append, List.splitOn_cons_eq_if_modifyHead,
      if_neg (by simpa using fun e => hc e.symm), ih hl, List.modifyHead_cons]

theorem readLines_printLines {ls : List String} (h : ∀ l ∈ ls, OneLine l) :
    readLines (printLines ls) = ls := by
  induction ls with
  | nil => rfl
  | cons l ls ih =>
    obtain ⟨hl, hls⟩ := List.forall_mem_cons.1 h
    rw [readLines, toList_printLines_cons, splitOn_append hl,
      List.dropLast_cons_of_ne_nil (List.splitOn_ne_nil _ _), List.map_cons, String.ofList_toList]
    exact congrArg (l :: ·) (ih hls)

theorem length_splitOn (s : List Char) : (s.splitOn '\n').length = s.count '\n' + 1 := by
  induction s with
  | nil => rfl
  | cons c s ih =>
    rw [List.splitOn_cons_eq_if_modifyHead, List.count_cons]
    split
    · rw [List.length_cons, ih]
    · rw [List.length_modifyHead, ih]

theorem length_readLines (text : String) : (readLines text).length = text.toList.count '\n' := by
  rw [readLines, List.length_map, List.length_dropLast, length_splitOn]
  rfl

/-! ## Examples shown by lines -/

/-- What a summary shows of an example: its line, and a line for each of its steps. -/
structure Display where
  header : String
  steps : List String
deriving DecidableEq

/-- The lines that show an example. -/
def Display.lines (d : Display) : List String := d.header :: d.steps

/-- The line opens with two spaces. -/
def indented (line : String) : Bool := [' ', ' '].isPrefixOf line.toList

/-- The examples that lines show, after the indented lines that come before the first of them: an
indented line is a step of the example whose line stands before it. -/
def readDisplays : List String → List String × List Display
  | [] => ([], [])
  | l :: ls =>
    let (steps, displays) := readDisplays ls
    if indented l then (l :: steps, displays) else ([], ⟨l, steps⟩ :: displays)

/-- No line is lost. -/
theorem lines_readDisplays (ls : List String) :
    (readDisplays ls).1 ++ (readDisplays ls).2.flatMap Display.lines = ls := by
  induction ls with
  | nil => rfl
  | cons l ls ih =>
    unfold readDisplays
    dsimp only
    split <;> exact congrArg (l :: ·) ih

theorem readDisplays_steps {steps : List String} (h : ∀ s ∈ steps, indented s = true)
    (ls : List String) :
    readDisplays (steps ++ ls) = (steps ++ (readDisplays ls).1, (readDisplays ls).2) := by
  induction steps with
  | nil => rfl
  | cons s steps ih =>
    obtain ⟨hs, hsteps⟩ := List.forall_mem_cons.1 h
    rw [List.cons_append, readDisplays, ih hsteps]
    exact if_pos hs

theorem readDisplays_lines {displays : List Display}
    (h : ∀ d ∈ displays, indented d.header = false ∧ ∀ s ∈ d.steps, indented s = true) :
    readDisplays (displays.flatMap Display.lines) = ([], displays) := by
  induction displays with
  | nil => rfl
  | cons d displays ih =>
    obtain ⟨⟨hheader, hsteps⟩, hdisplays⟩ := List.forall_mem_cons.1 h
    rw [List.flatMap_cons, Display.lines, List.cons_append, readDisplays,
      readDisplays_steps hsteps, ih hdisplays, List.append_nil]
    exact if_neg (by rw [hheader]; exact Bool.false_ne_true)

end Report

open Report (Display readLines printLines readDisplays)

/-! ## What a document has to show -/

namespace Outline

/-- The line of an example: the name of the outline and the bindings of the row. -/
def exampleLine (o : Outline) (row : Bindings) : String :=
  o.name ++ " [" ++ ", ".intercalate (row.entries.map fun e => e.1 ++ "=" ++ e.2) ++ "]"

/-- An example with its steps: each by two spaces, its keyword and its concrete text. -/
def display (o : Outline) (row : Bindings) : Display where
  header := o.exampleLine row
  steps := o.steps.map fun s => "  " ++ s.keyword.word ++ " " ++ Placeholder.substitute s.text row

end Outline

namespace Feature

/-- The examples of the outlines, in order. -/
def displays (f : Feature) : List Display :=
  f.outlines.flatMap fun o => o.examples.map o.display

/-- Every name and every text that an example binds is one line. -/
def BindsLines (f : Feature) : Prop :=
  ∀ o ∈ f.outlines, ∀ row ∈ o.examples, ∀ e ∈ row.entries, OneLine e.1 ∧ OneLine e.2

instance (f : Feature) : Decidable f.BindsLines :=
  inferInstanceAs (Decidable (∀ _ ∈ _, ∀ _ ∈ _, ∀ _ ∈ _, _))

/-- The summary of an expansion has the lines that show its examples, and no other. -/
theorem items_expand (f : Feature) :
    (Report.items f .expand).map Report.Item.line = f.displays.flatMap Display.lines := by
  simp only [Report.items, displays, expansions, Outline.toExpansions, Outline.expansions,
    List.map_flatMap, List.flatMap_assoc, List.flatMap_map, List.map_map]
  refine List.flatMap_congr fun o _ => List.flatMap_congr fun row _ => ?_
  simp only [Function.comp_apply, Outline.expand, List.map_cons, List.map_map]
  rfl

theorem length_lines (f : Feature) : (f.displays.flatMap Display.lines).length =
    (f.outlines.map fun o => o.examples.length * (1 + o.steps.length)).sum := by
  have hexample (o : Outline) (row : Bindings) :
      (o.display row).lines.length = 1 + o.steps.length := by
    rw [Display.lines, List.length_cons, Outline.display, List.length_map, Nat.add_comm]
  simp only [displays, List.flatMap_assoc, List.flatMap_map, List.length_flatMap, hexample,
    List.map_const', List.sum_replicate_nat]

end Feature

/-! ## Where a newline shows -/

/-- A character of a text after substitution stands in the text or is bound. -/
theorem Placeholder.mem_substitute {text : String} {row : Bindings} {c : Char}
    (h : c ∈ (substitute text row).toList) :
    c ∈ text.toList ∨ ∃ e ∈ row.entries, c ∈ e.2.toList := by
  rw [substitute, String.toList_ofList, Cut.render, List.mem_append, List.mem_flatMap] at h
  rw [← render_cut text.toList, Cut.render, List.mem_append, List.mem_flatMap]
  rcases h with hlead | ⟨p, hp, h⟩
  · exact .inl (.inl hlead)
  rcases List.mem_append.1 h with hvalue | hafter
  · have hstands := stands_value row p.1
    generalize value row p.1 = v at hvalue hstands
    cases hstands with
    | bound entry => exact .inr ⟨_, entry, hvalue⟩
    | free unbound => exact .inl (.inr ⟨p, hp, List.mem_append_left _ hvalue⟩)
  · exact .inl (.inr ⟨p, hp, List.mem_append_right _ hafter⟩)

theorem Text.mem_intercalate {c : Char} (sep : List Char) {w : List Char} {ws : List (List Char)}
    (hw : w ∈ ws) (hc : c ∈ w) : c ∈ sep.intercalate ws := by
  induction ws with
  | nil => cases hw
  | cons v ws ih =>
    cases ws with
    | nil =>
      obtain rfl := List.mem_singleton.1 hw
      rwa [List.intercalate_singleton]
    | cons u ws =>
      rw [List.intercalate_cons_cons, List.mem_append]
      rcases List.mem_cons.1 hw with rfl | hw
      · exact .inl (List.mem_append_left _ hc)
      · exact .inr (ih hw)

namespace Outline

variable {o : Outline}

theorem toList_exampleLine (o : Outline) (row : Bindings) : (o.exampleLine row).toList =
    o.name.toList ++ ' ' :: '[' ::
      ([',', ' '].intercalate
        (row.entries.map fun e => e.1.toList ++ '=' :: e.2.toList) ++ [']']) := by
  simp [exampleLine, String.toList_intercalate, Function.comp_def]

/-- The line of an example is one line exactly if its row binds lines. -/
theorem oneLine_exampleLine (ho : OneLine o.name) (row : Bindings) :
    OneLine (o.exampleLine row) ↔ ∀ e ∈ row.entries, OneLine e.1 ∧ OneLine e.2 := by
  rw [OneLine, toList_exampleLine]
  constructor
  · intro h e he
    rw [OneLine, OneLine, ← not_or]
    intro hmem
    have hbinding : '\n' ∈ e.1.toList ++ '=' :: e.2.toList := by
      simpa using hmem
    have hbindings : '\n' ∈ [',', ' '].intercalate
        (row.entries.map fun e => e.1.toList ++ '=' :: e.2.toList) :=
      mem_intercalate _ (List.mem_map.2 ⟨e, he, rfl⟩) hbinding
    exact h (by simp [hbindings])
  · intro h
    have hbindings : '\n' ∉ [',', ' '].intercalate
        (row.entries.map fun e => e.1.toList ++ '=' :: e.2.toList) := by
      refine Line.not_mem_intercalate (by decide) (List.forall_mem_map.2 fun e he => ?_)
      obtain ⟨hname, hvalue⟩ := h e he
      simpa using ⟨hname, hvalue⟩
    have hname : '\n' ∉ o.name.toList := ho
    simp [hbindings, hname]

theorem indented_exampleLine (ho : Trimmed o.name) (row : Bindings) :
    Report.indented (o.exampleLine row) = false := by
  rw [Report.indented, toList_exampleLine]
  rw [Trimmed, trim_eq_self_iff] at ho
  cases hname : o.name.toList with
  | nil => rfl
  | cons c name =>
    have hblank : isBlank c = false := ho.1 c (by rw [hname]; rfl)
    have hc : c ≠ ' ' := by
      rintro rfl
      exact absurd hblank (by decide)
    simp [List.isPrefixOf, hc.symm]

/-- The line of a step is one line if the step's text is and the row binds lines. -/
theorem oneLine_stepLine {s : Step} (hs : OneLine s.text) {row : Bindings}
    (hrow : ∀ e ∈ row.entries, OneLine e.1 ∧ OneLine e.2) :
    OneLine ("  " ++ s.keyword.word ++ " " ++ Placeholder.substitute s.text row) := by
  have hword : '\n' ∉ s.keyword.word.toList := by cases s.keyword <;> decide
  have htext : '\n' ∉ (Placeholder.substitute s.text row).toList := by
    intro h
    rcases Placeholder.mem_substitute h with h | ⟨e, he, h⟩
    · exact hs h
    · exact (hrow e he).2 h
  simpa [OneLine] using ⟨hword, htext⟩

end Outline

namespace Feature

variable {f : Feature}

theorem indented_displays (hf : f.WellFormed) : ∀ d ∈ f.displays,
    Report.indented d.header = false ∧ ∀ s ∈ d.steps, Report.indented s = true := by
  intro d hd
  obtain ⟨o, ho, hd⟩ := List.mem_flatMap.1 hd
  obtain ⟨row, -, rfl⟩ := List.mem_map.1 hd
  refine ⟨Outline.indented_exampleLine (hf.outlines ho).block.name.trimmed row, ?_⟩
  rw [Outline.display, List.forall_mem_map]
  intro s _
  simp [Report.indented]

theorem oneLine_displays (hf : f.WellFormed) :
    (∀ l ∈ f.displays.flatMap Display.lines, OneLine l) ↔ f.BindsLines := by
  simp only [displays, List.flatMap_assoc, List.flatMap_map, List.forall_mem_flatMap]
  refine forall₂_congr fun o ho => forall₂_congr fun row _ => ?_
  have hblock := (hf.outlines ho).block
  have hheader := Outline.oneLine_exampleLine hblock.name.oneLine row
  rw [Display.lines, List.forall_mem_cons, Outline.display, hheader, List.forall_mem_map]
  exact and_iff_left_of_imp fun hrow s hs =>
    Outline.oneLine_stepLine (hblock.steps s hs).oneLine hrow

end Feature

namespace Text.Utf8

theorem encode_join (ts : List String) : encode (String.join ts) = ts.flatMap encode := by
  rw [encode_eq, String.toList_join, encoded, List.flatMap_assoc]
  exact List.flatMap_congr fun t _ => (encode_eq t).symm

end Text.Utf8

/-- The output of a summary is its lines. -/
theorem output_expansion {path : String} {content : Except ReadFault (List UInt8)} {f : Feature}
    (h : Loadable content f) : (run path .expand .summary content .endless).output =
      Text.Utf8.encode (printLines (f.displays.flatMap Display.lines)) := by
  rw [output_summary h, ← f.items_expand, printLines, Text.Utf8.encode_join, List.map_map,
    List.flatMap_map]
  rfl

theorem Loadable.wellFormed {content : Except ReadFault (List UInt8)} {f : Feature}
    (h : Loadable content f) : f.WellFormed := by
  obtain ⟨-, parsed⟩ := h
  exact Feature.wellFormed_ofText parsed

/-- The bytes of a text without a mark before it load the feature that the text is. -/
theorem Loadable.of_text {text : String} {f : Feature}
    (unmarked : dropMark text.toList = text.toList) (h : Feature.ofText text = .ok f) :
    Loadable (.ok (Text.Utf8.encode text)) f := by
  have hdecoded : Text.Utf8.decode (Text.Utf8.encode text) = .ok text.toList := by
    rw [Text.Utf8.encode_eq, Text.Utf8.decode_encoded]
  refine .feature hdecoded ?_
  rw [unmarked, String.ofList_toList, h]

/-- The summary of an expansion is a line for each example and for each of its steps, in order, each
followed by a newline. These are its newlines, and a reader sees the examples with their steps and
nothing else, exactly if no example binds a newline. -/
theorem summary_shows_examples {path : String} {content : Except ReadFault (List UInt8)}
    {f : Feature} (h : Loadable content f) :
    ∃ text, (run path .expand .summary content .endless).result = .ok () ∧
      (run path .expand .summary content .endless).output = Text.Utf8.encode text ∧
      text = printLines (f.displays.flatMap Display.lines) ∧
      (text.toList.count '\n' =
          (f.outlines.map fun o => o.examples.length * (1 + o.steps.length)).sum ↔
        f.BindsLines) ∧
      (readDisplays (readLines text) = ([], f.displays) ↔ f.BindsLines) := by
  have hf := h.wellFormed
  have hlines := Feature.oneLine_displays hf
  have hcount := @Report.count_printLines_eq_iff (f.displays.flatMap Display.lines)
  refine ⟨_, result_endless h, output_expansion h, rfl, ?_, ?_, fun hbinds => ?_⟩
  · rw [← f.length_lines, hcount, hlines]
  · intro hread
    have hall := Report.lines_readDisplays
      (readLines (printLines (f.displays.flatMap Display.lines)))
    rw [hread, List.nil_append] at hall
    have hlength := congrArg List.length hall
    rw [Report.length_readLines] at hlength
    exact hlines.1 (hcount.1 hlength.symm)
  · rw [Report.readLines_printLines (hlines.2 hbinds)]
    exact Report.readDisplays_lines (Feature.indented_displays hf)

/-- An outline with two steps and two examples. -/
theorem summary_shows_examples_steps :
    let text := "Feature: F\nScenario Outline: O\nGiven <x>\nThen b\nExamples:\n|x|\n|1|\n|<x>|\n"
    ∃ f, Loadable (.ok (Text.Utf8.encode text)) f ∧ f.BindsLines ∧
      f.displays = [⟨"O [x=1]", ["  Given 1", "  Then b"]⟩,
        ⟨"O [x=<x>]", ["  Given <x>", "  Then b"]⟩] ∧
      ∃ output, (run "f" .expand .summary (.ok (Text.Utf8.encode text)) .endless).output =
          Text.Utf8.encode output ∧ readDisplays (readLines output) = ([], f.displays) := by
  intro text
  obtain ⟨f, hparsed, hloadable⟩ := exists_ok_and (P := Loadable (.ok (Text.Utf8.encode text)))
    (x := Feature.ofText text) (by decide +kernel) fun f hf => .of_text (by decide +kernel) hf
  have hfacts : (Feature.ofText text).toOption.map (fun f => (decide f.BindsLines, f.displays)) =
      some (true, [⟨"O [x=1]", ["  Given 1", "  Then b"]⟩,
        ⟨"O [x=<x>]", ["  Given <x>", "  Then b"]⟩]) := by decide +kernel
  rw [hparsed] at hfacts
  obtain ⟨hbinds, hdisplays⟩ := Prod.mk.inj (Option.some.inj hfacts)
  have hbinds : f.BindsLines := of_decide_eq_true hbinds
  obtain ⟨output, -, houtput, -, -, hread⟩ := @summary_shows_examples "f" _ _ hloadable
  exact ⟨f, hloadable, hbinds, hdisplays, output, houtput, hread.2 hbinds⟩

/-- A newline in a cell, and behind it what looks like a step: four lines are read instead of two,
and among them a step with a keyword that no step of the document has. -/
theorem newline_shows_step :
    let text := "Feature: F\nScenario Outline: O\nGiven <x>\nExamples:\n|x|\n|1\\n  When b|\n"
    let output := "O [x=1\n  When b]\n  Given 1\n  When b\n"
    (∃ f, Loadable (.ok (Text.Utf8.encode text)) f ∧
      (∀ o ∈ f.outlines, ∀ s ∈ o.steps, s.keyword = .given) ∧
      (f.outlines.map fun o => o.examples.length * (1 + o.steps.length)).sum = 2) ∧
    (run "f" .expand .summary (.ok (Text.Utf8.encode text)) .endless).output =
      Text.Utf8.encode output ∧
    output.toList.count '\n' = 4 ∧
    readDisplays (readLines output) =
      ([], [⟨"O [x=1", ["  When b]", "  Given 1", "  When b"]⟩]) := by
  intro text output
  refine ⟨?_, by decide +kernel, by decide +kernel, by decide +kernel⟩
  obtain ⟨f, hparsed, hloadable⟩ := exists_ok_and (P := Loadable (.ok (Text.Utf8.encode text)))
    (x := Feature.ofText text) (by decide +kernel) fun f hf => .of_text (by decide +kernel) hf
  have hfacts : (Feature.ofText text).toOption.map (fun f =>
      (decide (∀ o ∈ f.outlines, ∀ s ∈ o.steps, s.keyword = .given),
        (f.outlines.map fun o => o.examples.length * (1 + o.steps.length)).sum)) =
      some (true, 2) := by decide +kernel
  rw [hparsed] at hfacts
  obtain ⟨hkeywords, hsum⟩ := Prod.mk.inj (Option.some.inj hfacts)
  exact ⟨f, hloadable, of_decide_eq_true hkeywords, hsum⟩

end Gherkin
