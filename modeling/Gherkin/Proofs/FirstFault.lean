import Gherkin.Proofs.Failures
import Gherkin.Proofs.Positions

/-
  Whether a reported fault is the first one. The lines before it are no faults, and they begin a
  document exactly if their tables keep the rules (`begins_iff_tablesKept`). The rules are checked
  after the line behind the table was read, so a fault of that line is reported before one of the
  table (`not_first_of_repeated_column`).
-/

namespace Gherkin

open Grammar Line Reader

/-- The text of the first `n` lines. -/
def Text.beginning (n : Nat) (text : String) : String :=
  String.ofList (Text.firstLines n text.toList)

/-- The first `n` lines are no faults, and their tables keep the rules. -/
def Text.TablesKept (n : Nat) (text : String) : Prop :=
  ∃ ls, readLines 0 none ((lines text.toList).take n) = ls.map .ok ∧
    Tables.start.Kept (significant false ls) (blankAfter false ls)

/-- Some accepted text goes on from the first `n` lines. -/
def Feature.Begins (n : Nat) (text : String) : Prop :=
  ∃ (more : String) (f : Feature), Feature.ofText (Text.beginning n text ++ more) = .ok f

theorem Text.lines_beginning (n : Nat) (text : String) :
    lines (beginning n text).toList = (lines text.toList).take n := by
  rw [beginning, String.toList_ofList, lines_firstLines]

theorem Text.ended_beginning {n : Nat} {text : String} (h : n < (lines text.toList).length) :
    Ended (beginning n text).toList := by
  rw [beginning, String.toList_ofList]
  exact ended_firstLines h

theorem Reader.map_ok_injective : Function.Injective (List.map (Except.ok : Line → Item)) :=
  List.map_injective_iff.2 fun _ _ => Except.ok.inj

/-- A document that goes on from lines keeps the rules of tables in them. -/
theorem Feature.Begins.tablesKept {n : Nat} {text : String} (h : Begins n text)
    (hn : n < (Text.lines text.toList).length) : Text.TablesKept n text := by
  obtain ⟨more, f, hf⟩ := h
  have hkept := kept_of_ofText_append (Text.ended_beginning hn) hf
  rwa [Text.lines_beginning] at hkept

/-! ## Completions as texts -/

/-- Whether a doc string is open after lines, when one more is opened before them. -/
theorem opened_not (inside : Bool) (ks : List Kind) :
    opened (!inside) ks = !opened inside ks := by
  induction ks generalizing inside with
  | nil => rfl
  | cons k ks ih => cases k <;> exact ih _

theorem legible_of_append {inside : Bool} {ks ms : List Kind} (h : Legible inside (ks ++ ms)) :
    Legible (opened inside ks) ms := by
  induction ks generalizing inside with
  | nil => exact h
  | cons k ks ih =>
    cases h with
    | plain _ other rest =>
      rw [opened_cons other]
      exact ih rest
    | opening rest => exact ih rest
    | captured _ rest => exact ih rest
    | closing rest => exact ih rest

theorem kinds_after (blank : Bool) (ks : List Kind) : kinds (after blank ks) = ks := by
  cases ks with
  | nil => rfl
  | cons k ks => exact congrArg (k :: ·) (kinds_direct ks)

/-- A passage closes the doc strings that it opens. -/
theorem Grammar.Passage.closed {ks : List Kind} (h : Passage ks) : opened false ks = false := by
  have hblank : Legible false [.blank] := .plain trivial (by simp) .nil
  have hrest := legible_of_append (h.legible hblank)
  cases hopen : opened false ks with
  | false => rfl
  | true =>
    rw [hopen] at hrest
    cases hrest

theorem alike_after {ls : List Line} (h : ∀ k ∈ ls.map Line.kind, k ≠ .blank ∧ k ≠ .comment)
    (blank : Bool) :
    List.Forall₂ Alike (after blank (ls.map Line.kind)) (significant blank ls) := by
  cases ls with
  | nil => exact .nil
  | cons l ls =>
    obtain ⟨⟨hblank, hcomment⟩, hrest⟩ := List.forall_mem_cons.1 h
    rw [significant_cons hblank hcomment]
    exact .cons ⟨rfl, rfl⟩ (alike_direct hrest)

/-- A passage is the lines of a text. -/
theorem Grammar.Passage.exists_reads {ks : List Kind} (h : Passage ks) :
    ∃ (text : String) (ls : List Line), Reads text ls ∧ ls.map Line.kind = ks := by
  have hlegible := h.legible .nil
  rw [List.append_nil] at hlegible
  exact Gherkin.exists_reads hlegible h.closed

/-- No doc string is open where a passage completes a document. -/
theorem not_opened_of_document {ls : List Significant} {ks : List Kind} {blank : Bool}
    {f : Feature} (hks : Passage ks) (hf : DocumentLines (ls ++ after blank ks) f) :
    opened false (kinds ls) = false := by
  obtain ⟨_, _, -, -, htally⟩ := tallies_document hf
  have hall := htally.not_opened
  rw [kinds_append, opened_append, kinds_after] at hall
  cases hopen : opened false (kinds ls) with
  | false => rfl
  | true =>
    -- the passage would leave open what is open before it
    have hlast := opened_not false ks
    rw [Bool.not_false, ← hopen, hall, hks.closed] at hlast
    cases hlast

/-- Lines that can be completed begin an accepted text. -/
theorem Feature.begins_of_viable {n : Nat} {text : String} {ls : List Line}
    (hn : n < (Text.lines text.toList).length)
    (hls : readLines 0 none ((Text.lines text.toList).take n) = ls.map .ok)
    (h : Viable DocumentLines (significant false ls) (blankAfter false ls)) : Begins n text := by
  obtain ⟨ks, f, hks, hf⟩ := h
  have hopen := not_opened_of_document hks hf
  have hfence : fenceAfter 0 none ((Text.lines text.toList).take n) = none := by
    have hsome := isSome_fenceAfter hls
    rw [Option.isSome_none, ← opened_significant false false, hopen] at hsome
    simpa using hsome
  have hbeginning : Reads (Text.beginning n text) ls := by
    rw [reads_iff, Text.lines_beginning]
    exact ⟨hls, hfence⟩
  obtain ⟨more, ms, hms, rfl⟩ := hks.exists_reads
  obtain ⟨ns, hns, hkinds⟩ := hbeginning.append (Text.ended_beginning hn) hms
  have hsame : List.Forall₂ Alike (significant false ls) (significant false ls) :=
    List.forall₂_same.2 fun _ _ => ⟨rfl, rfl⟩
  rw [← hkinds] at hf hks
  have halike := List.rel_append hsame (alike_after hks.kept (blankAfter false ls))
  have hread := renumbers_document hf halike
  refine ⟨more, f, ofText_eq_ok_iff.2 ⟨_, hns, ?_⟩⟩
  rwa [significant_append]

/-! ## Faults that come first -/

/-- The lines before a fault are no faults, and they can be completed if their tables keep the
rules. -/
theorem Feature.exists_before {text : String} {e : Fault} (h : ofText text = .error e)
    (hk : e.kind ≠ .unexpectedEnd) :
    Text.HasLine e.line text ∧ ∃ ls, Before e.line text ls ∧
      ∀ blank, Tables.start.Kept ls blank → Viable DocumentLines ls blank := by
  rw [ofText_eq] at h
  obtain ⟨-, l, rest, hc, number, -⟩ | ⟨ls, d, hls, hd, hviable⟩ :=
    Parse.feature_stops h (Cursor.readable_ofText text)
  · rw [← Cursor.prepend_nil (.line l rest)] at hc
    obtain ⟨hline, hbefore, -⟩ := exists_line hc
    rw [← number] at hline hbefore
    exact ⟨hline, [], hbefore, fun blank _ => (Parse.begins_document .nil).viable blank⟩
  · have hkept (blank : Bool) (hkept : Tables.start.Kept ls blank) :=
      hviable hk _ blank (settled_outside none) hkept
    cases hd with
    | line number =>
      obtain ⟨hline, hbefore, -⟩ := exists_line hls
      rw [← number] at hline hbefore
      exact ⟨hline, ls, hbefore, hkept⟩
    | ended number kind => exact absurd kind hk
    | failed =>
      obtain ⟨hline, -, ⟨hbefore, -⟩ | ⟨hcause, -⟩⟩ := exists_fault hls
      · exact ⟨hline, ls, hbefore, hkept⟩
      · exact absurd (congrArg Fault.Cause.kind hcause) hk

/-- A fault is the first one, so that a document can go on from the lines before it, exactly if
the tables in them keep the rules. -/
theorem begins_iff_tablesKept {text : String} {e : Fault} (h : Feature.ofText text = .error e)
    (hk : e.kind ≠ .unexpectedEnd) :
    Feature.Begins (e.line - 1) text ↔ Text.TablesKept (e.line - 1) text := by
  obtain ⟨⟨hfirst, hlast⟩, ls, ⟨as, bs, hnumber, hitems, rfl⟩, hviable⟩ :=
    Feature.exists_before h hk
  have hlt : e.line - 1 < (Text.lines text.toList).length := by omega
  refine ⟨fun hbegins => hbegins.tablesKept hlt, fun ⟨ks, hks, hkept⟩ => ?_⟩
  have hread := readLines_of_itemsFrom hitems
  have hindex : e.line - 1 = as.length := by omega
  rw [← hindex] at hread
  obtain rfl := map_ok_injective (hread.symm.trans hks)
  exact Feature.begins_of_viable hlt hread (hviable _ hkept)

/-- A fault after a table that keeps the rules. -/
theorem begins_iff_tablesKept_rule :
    Feature.ofText "Feature: F\nScenario: S\nGiven a\n| x |\n| 1 |\nRule: r\n" =
        .error ⟨6, .unsupported "Rule:"⟩ ∧
      Feature.Begins 5 "Feature: F\nScenario: S\nGiven a\n| x |\n| 1 |\nRule: r\n" :=
  have hfault : Feature.ofText "Feature: F\nScenario: S\nGiven a\n| x |\n| 1 |\nRule: r\n" =
      .error ⟨6, .unsupported "Rule:"⟩ := by decide +kernel
  ⟨hfault, (begins_iff_tablesKept hfault (by decide)).2
    ⟨[⟨1, .heading .feature "F"⟩, ⟨2, .heading .scenario "S"⟩, ⟨3, .step .given "a"⟩,
      ⟨4, .row ["x"]⟩, ⟨5, .row ["1"]⟩], by decide +kernel, by decide⟩⟩

/-- A repeated column comes before the fault that is reported. -/
theorem not_first_of_repeated_column : ∃ (text : String) (e : Fault),
    Feature.ofText text = .error e ∧ e.kind ≠ .unexpectedEnd ∧
      ¬Feature.Begins (e.line - 1) text := by
  refine ⟨"Feature: F\nScenario: S\nGiven a\n| x | x |\n| 1 | 2 |\nRule: r\n",
    ⟨6, .unsupported "Rule:"⟩, by decide +kernel, by decide, ?_⟩
  intro hbegins
  obtain ⟨ls, hls, hkept⟩ := hbegins.tablesKept (by decide +kernel)
  have hlines : readLines 0 none ((Text.lines
      "Feature: F\nScenario: S\nGiven a\n| x | x |\n| 1 | 2 |\nRule: r\n".toList).take 5) =
      [⟨1, .heading .feature "F"⟩, ⟨2, .heading .scenario "S"⟩, ⟨3, .step .given "a"⟩,
        ⟨4, .row ["x", "x"]⟩, ⟨5, .row ["1", "2"]⟩].map .ok := by decide +kernel
  obtain rfl := map_ok_injective (hls.symm.trans hlines)
  revert hkept
  decide

end Gherkin
