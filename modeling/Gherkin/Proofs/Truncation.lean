import Gherkin.Proofs.Acceptance
import Gherkin.Run

/-
  Runs with a sink that is full at some point. A limited sink gets the first bytes of what an
  endless one gets, and the run fails at the first piece that does not fit (`write_short`); nothing
  is written after it. In a summary the pieces are the lines of its items (`pieces_summary`), so the
  fault names the item whose line was cut. A file that does not load leaves nothing in any sink.
-/

namespace Gherkin

namespace Report

/-! ## Pieces -/

/-- The bytes of pieces. -/
def bytes (ps : List Piece) : List UInt8 := ps.flatMap fun p => Text.Utf8.encode p.text

theorem bytes_cons (p : Piece) (ps : List Piece) :
    bytes (p :: ps) = Text.Utf8.encode p.text ++ bytes ps := rfl

/-- An endless sink gets every piece. -/
theorem write_endless (ps : List Piece) : write none ps = (bytes ps, none) := by
  induction ps with
  | nil => rfl
  | cons p ps ih => rw [write, ih, bytes_cons]

/-- A sink with room for all pieces gets every piece. -/
theorem write_roomy {n : Nat} {ps : List Piece} (h : (bytes ps).length ≤ n) :
    write (some n) ps = (bytes ps, none) := by
  induction ps generalizing n with
  | nil => rfl
  | cons p ps ih =>
    rw [bytes_cons, List.length_append] at h
    have hfits : (Text.Utf8.encode p.text).length ≤ n := by omega
    have hrest := ih (n := n - (Text.Utf8.encode p.text).length) (by omega)
    simp only [write, if_pos hfits, hrest, bytes_cons]

/-- A sink with less room gets the first bytes, up to the end of its room, and the piece that did
not fit is the first one that reaches over it. -/
theorem write_short {n : Nat} {ps : List Piece} (h : n < (bytes ps).length) :
    ∃ before p after, ps = before ++ p :: after ∧ (bytes before).length ≤ n ∧
      n < (bytes (before ++ [p])).length ∧
      write (some n) ps = ((bytes ps).take n, some p.part) := by
  induction ps generalizing n with
  | nil => exact absurd h (Nat.not_lt_zero n)
  | cons p ps ih =>
    rw [bytes_cons, List.length_append] at h
    by_cases hfits : (Text.Utf8.encode p.text).length ≤ n
    · have hroom : n - (Text.Utf8.encode p.text).length < (bytes ps).length := by omega
      obtain ⟨before, q, after, rfl, hbefore, hq, hwrite⟩ := ih hroom
      refine ⟨p :: before, q, after, rfl, ?_, ?_, ?_⟩
      · rw [bytes_cons, List.length_append]
        omega
      · rw [List.cons_append, bytes_cons, List.length_append]
        omega
      · simp only [write, if_pos hfits, hwrite]
        rw [bytes_cons p, List.take_append, List.take_of_length_le hfits]
    · refine ⟨[], p, ps, rfl, Nat.zero_le n, ?_, ?_⟩
      · simpa [bytes] using Nat.lt_of_not_le hfits
      · rw [write, if_neg hfits, bytes_cons, List.take_append_of_le_length (by omega)]

/-! ## The items of a summary -/

/-- What a summary has a line for. -/
inductive Item where
  | feature (f : Feature)
  | background (b : Block)
  | scenario (s : Scenario)
  | expansion (e : Expansion)
  | step (s : Step)

namespace Item

/-- The line of an item, without its end. -/
def line : Item → String
  | feature f => s!"Feature: {f.name}{tagText f.tags} ({f.scenarios.length} scenarios)"
  | background b => s!"  Background: {b.name} ({b.steps.length} steps)"
  | scenario s => scenarioLine s
  | expansion e =>
    let bindings := ", ".intercalate (e.row.entries.map fun (k, v) => s!"{k}={v}")
    s!"{e.scenario} [{bindings}]"
  | step s => s!"  {s.keyword.word} {s.text}"

/-- The part of the document that a fault names for an item. -/
def part : Item → Part
  | feature f => .feature f.name
  | background _ => .background
  | scenario s => .scenario s.name
  | expansion e => .expansion e.scenario
  | step s => .step s.text

/-- What the fault of a sink that is full within the line of an item tells of it. -/
def context : Item → String
  | feature f => "failed to write feature '" ++ f.name ++ "'"
  | background _ => "failed to write background"
  | scenario s => "failed to write scenario '" ++ s.name ++ "'"
  | expansion e => "failed to write expansion of '" ++ e.scenario ++ "'"
  | step s => "failed to write step '" ++ s.text ++ "'"

theorem failure_part (i : Item) : i.part.failure = i.context := by
  cases i <;> rfl

/-- The bytes of an item's line and its end. -/
def bytes (i : Item) : List UInt8 := Text.Utf8.encode (i.line ++ "\n")

/-- The piece of an item. -/
def piece (i : Item) : Piece := Report.line i.line i.part

end Item

/-- The items of a summary, in the order of its lines. -/
def items (f : Feature) : Action → List Item
  | .parse => .feature f :: (f.background.toList.map .background ++ f.scenarios.map .scenario)
  | .expand => f.expansions.flatMap fun e => .expansion e :: e.steps.map .step

theorem pieces_summary (f : Feature) (action : Action) :
    pieces action .summary f = (items f action).map Item.piece := by
  cases action with
  | parse =>
    rw [pieces, summary, items, List.map_cons, List.map_append, List.map_map, List.map_map]
    rfl
  | expand =>
    rw [pieces, items, List.map_flatMap]
    refine List.flatMap_congr fun e _ => ?_
    rw [expansionSummary, List.map_cons, List.map_map]
    rfl

theorem bytes_items (is : List Item) : bytes (is.map Item.piece) = is.flatMap Item.bytes := by
  rw [bytes, List.flatMap_map]
  rfl

end Report

/-! ## Loading -/

/-- The file cannot be read, its bytes are no text, or the text is no feature. -/
inductive Unloadable (path : String) : Except ReadFault (List UInt8) → LoadFault → Prop
  | unreadable (fault : ReadFault) : Unloadable path (.error fault) (.unreadable path fault)
  | undecodable {bytes : List UInt8} {fault : Text.Utf8.Fault}
    (decoded : Text.Utf8.decode bytes = .error fault) :
    Unloadable path (.ok bytes) (.undecodable fault)
  | unparsable {bytes : List UInt8} {text : List Char} {fault : Fault}
    (decoded : Text.Utf8.decode bytes = .ok text)
    (parsed : Feature.ofText (String.ofList (dropMark text)) = .error fault) :
    Unloadable path (.ok bytes) (.unparsable fault)

/-- The file holds the text of a feature. -/
inductive Loadable : Except ReadFault (List UInt8) → Feature → Prop
  | feature {bytes : List UInt8} {text : List Char} {f : Feature}
    (decoded : Text.Utf8.decode bytes = .ok text)
    (parsed : Feature.ofText (String.ofList (dropMark text)) = .ok f) : Loadable (.ok bytes) f

theorem result_load_ok (path : String) (bytes : List UInt8) :
    (Feature.load path (.ok bytes)).result = (Feature.readBytes bytes).result := rfl

theorem Unloadable.result {path : String} {content : Except ReadFault (List UInt8)}
    {fault : LoadFault} (h : Unloadable path content fault) :
    (Feature.load path content).result = .error fault := by
  cases h with
  | unreadable fault => rfl
  | undecodable decoded =>
    rw [result_load_ok, Feature.readBytes, decoded]
    rfl
  | unparsable decoded parsed =>
    rw [result_load_ok, result_readBytes decoded, parsed]
    rfl

theorem Loadable.result {path : String} {content : Except ReadFault (List UInt8)} {f : Feature}
    (h : Loadable content f) : (Feature.load path content).result = .ok f := by
  obtain ⟨decoded, parsed⟩ := h
  rw [result_load_ok, result_readBytes decoded, parsed]
  rfl

/-- A file holds a feature or does not load. -/
theorem loadable_or_unloadable (path : String) (content : Except ReadFault (List UInt8)) :
    (∃ f, Loadable content f) ∨ ∃ fault, Unloadable path content fault := by
  cases content with
  | error fault => exact .inr ⟨_, .unreadable fault⟩
  | ok bytes =>
    cases decoded : Text.Utf8.decode bytes with
    | error fault => exact .inr ⟨_, .undecodable decoded⟩
    | ok text =>
      cases parsed : Feature.ofText (String.ofList (dropMark text)) with
      | error fault => exact .inr ⟨_, .unparsable decoded parsed⟩
      | ok f => exact .inl ⟨f, .feature decoded parsed⟩

/-! ## Runs -/

section Run

variable {path : String} {action : Action} {format : Format}
  {content : Except ReadFault (List UInt8)} {full : String} {refusal : Option String}

theorem run_unloadable {fault : LoadFault} (h : Unloadable path content fault) (sink : Sink) :
    (run path action format content sink).output = [] ∧
      (run path action format content sink).result = .error (.load path fault) := by
  simp only [run, h.result, and_self]

theorem output_endless {f : Feature} (h : Loadable content f) :
    (run path action format content .endless).output =
      Report.bytes (Report.pieces action format f) := by
  simp only [run, h.result, Sink.endless, Report.write_endless]

theorem result_endless {f : Feature} (h : Loadable content f) :
    (run path action format content .endless).result = .ok () := by
  simp only [run, h.result, Sink.endless, Report.write_endless]

theorem run_roomy {f : Feature} (h : Loadable content f) {n : Nat}
    (hn : (Report.bytes (Report.pieces action format f)).length ≤ n) :
    (run path action format content ⟨some n, full, refusal⟩).output =
        Report.bytes (Report.pieces action format f) ∧
      (run path action format content ⟨some n, full, refusal⟩).result =
        refusal.elim (.ok ()) fun reason => .error (.flush reason) := by
  cases refusal <;> simp only [run, h.result, Report.write_roomy hn, Option.elim, and_self]

theorem run_short {f : Feature} (h : Loadable content f) {n : Nat}
    (hn : n < (Report.bytes (Report.pieces action format f)).length) :
    (run path action format content ⟨some n, full, refusal⟩).output =
        (Report.bytes (Report.pieces action format f)).take n ∧
      ∃ before p after, Report.pieces action format f = before ++ p :: after ∧
        (Report.bytes before).length ≤ n ∧ n < (Report.bytes (before ++ [p])).length ∧
        (run path action format content ⟨some n, full, refusal⟩).result =
          .error (.write p.part full) := by
  obtain ⟨before, p, after, hpieces, hbefore, hp, hwrite⟩ := Report.write_short hn
  refine ⟨?_, before, p, after, hpieces, hbefore, hp, ?_⟩ <;> simp only [run, h.result, hwrite]

/-- A sink gets what it has room for. -/
theorem output_limited {f : Feature} (h : Loadable content f) (n : Nat) :
    (run path action format content ⟨some n, full, refusal⟩).output =
      (run path action format content .endless).output.take n := by
  rw [output_endless h]
  rcases Nat.lt_or_ge n (Report.bytes (Report.pieces action format f)).length with hn | hn
  · exact (run_short h hn).1
  · rw [List.take_of_length_le hn]
    exact (run_roomy h hn).1

/-- The run succeeds exactly if there is room for everything and the sink can be flushed. -/
theorem result_limited {f : Feature} (h : Loadable content f) (n : Nat) :
    (run path action format content ⟨some n, full, refusal⟩).result = .ok () ↔
      (run path action format content .endless).output.length ≤ n ∧ refusal = none := by
  rw [output_endless h]
  rcases Nat.lt_or_ge n (Report.bytes (Report.pieces action format f)).length with hn | hn
  · obtain ⟨before, p, after, -, -, -, hresult⟩ := (run_short h hn).2
    rw [hresult]
    exact ⟨nofun, fun hroom => absurd hroom.1 (Nat.not_le_of_lt hn)⟩
  · rw [(run_roomy h hn).2]
    cases refusal <;> simp [hn]

theorem output_summary {f : Feature} (h : Loadable content f) :
    (run path action .summary content .endless).output =
      (Report.items f action).flatMap Report.Item.bytes := by
  rw [output_endless h, Report.pieces_summary, Report.bytes_items]

/-- A summary is cut off within the line of the first item that reaches over the room. -/
theorem summary_limited {f : Feature} (h : Loadable content f) {n : Nat}
    (hn : n < ((Report.items f action).flatMap Report.Item.bytes).length) :
    ∃ before item after, Report.items f action = before ++ item :: after ∧
      (before.flatMap Report.Item.bytes).length ≤ n ∧
      n < ((before ++ [item]).flatMap Report.Item.bytes).length ∧
      (run path action .summary content ⟨some n, full, refusal⟩).result =
        .error (.write item.part full) := by
  rw [← Report.bytes_items, ← Report.pieces_summary] at hn
  obtain ⟨before, p, after, hpieces, hbefore, hp, hresult⟩ := (run_short h hn).2
  rw [Report.pieces_summary] at hpieces
  obtain ⟨is, js, hitems, rfl, hjs⟩ := List.map_eq_append_iff.1 hpieces
  obtain ⟨item, after, rfl, rfl, rfl⟩ := List.map_eq_cons_iff.1 hjs
  have hcut : is.map Report.Item.piece ++ [item.piece] =
      (is ++ [item]).map Report.Item.piece := by
    rw [List.map_append]
    rfl
  rw [Report.bytes_items] at hbefore
  rw [hcut, Report.bytes_items] at hp
  exact ⟨is, item, after, hitems, hbefore, hp, hresult⟩

end Run

/-- The fault of a sink that is full within the line of an item tells of the item, and then what
the sink said. -/
theorem chain_write (item : Report.Item) (full : String) :
    (RunFault.write item.part full).chain = item.context ++ ": " ++ full := by
  rw [← item.failure_part]
  rfl

/-- A limited sink gets the first bytes of what an endless one gets, and the run succeeds exactly if
these are all and the sink can be flushed; the fault of a summary that is cut off tells of the first
item whose line did not fit. A file that does not load is a fault of its own, and nothing is
written. -/
theorem limited_run (path : String) (action : Action) (format : Format)
    (content : Except ReadFault (List UInt8)) (n : Nat) (full : String) (refusal : Option String) :
    let whole := (run path action format content .endless).output
    let limited := run path action format content ⟨some n, full, refusal⟩
    limited.output = whole.take n ∧
      (∀ f, Loadable content f →
        (limited.result = .ok () ↔ whole.length ≤ n ∧ refusal = none) ∧
        (format = .summary → whole = (Report.items f action).flatMap Report.Item.bytes ∧
          (n < whole.length → ∃ before item after,
            Report.items f action = before ++ item :: after ∧
              (before.flatMap Report.Item.bytes).length ≤ n ∧
              n < ((before ++ [item]).flatMap Report.Item.bytes).length ∧
              ∃ fault, limited.result = .error fault ∧ fault = .write item.part full ∧
                fault.chain = item.context ++ ": " ++ full))) ∧
      (∀ fault, Unloadable path content fault → ∀ sink,
        (run path action format content sink).output = [] ∧
          (run path action format content sink).result = .error (.load path fault)) ∧
      ((∃ f, Loadable content f) ∨ ∃ fault, Unloadable path content fault) := by
  intro whole limited
  have hcases := loadable_or_unloadable path content
  refine ⟨?_, fun f hf => ⟨result_limited hf n, ?_⟩,
    fun fault h sink => run_unloadable h sink, hcases⟩
  · rcases hcases with ⟨f, hf⟩ | ⟨fault, h⟩
    · exact output_limited hf n
    · have hwhole : whole = [] := (run_unloadable h .endless).1
      have hlimited : limited.output = [] := (run_unloadable h ⟨some n, full, refusal⟩).1
      rw [hlimited, hwhole, List.take_nil]
  · rintro rfl
    have hwhole : whole = (Report.items f action).flatMap Report.Item.bytes := output_summary hf
    refine ⟨hwhole, fun hn => ?_⟩
    rw [hwhole] at hn
    obtain ⟨before, item, after, hitems, hbefore, hitem, hresult⟩ := summary_limited hf hn
    exact ⟨before, item, after, hitems, hbefore, hitem, _, hresult, rfl, chain_write item full⟩

/-- A sink that is full within the line of the second example, and a file that is no feature. -/
theorem limited_run_expansion :
    let content : Except ReadFault (List UInt8) := .ok (Text.Utf8.encode
      "Feature: F\nScenario Outline: O\nGiven <x>\nExamples:\n|x|\n|1|\n|2|\n")
    let limited := run "f" .expand .summary content ⟨some 20, "sink full", none⟩
    (∃ f, Loadable content f ∧ 20 < (run "f" .expand .summary content .endless).output.length ∧
      limited.output = Text.Utf8.encode "O [x=1]\n  Given 1\nO " ∧
      ∃ before item after fault, Report.items f .expand = before ++ item :: after ∧
        limited.result = .error fault ∧ fault = .write item.part "sink full" ∧
        item.part = .expansion "O" ∧
        fault.chain = "failed to write expansion of 'O': sink full" ∧
        fault.chain = item.context ++ ": " ++ "sink full") ∧
    ∃ fault, Unloadable "f" (.error .isDirectory) fault ∧
      (run "f" .expand .summary (.error .isDirectory) ⟨some 20, "sink full", none⟩).output =
        [] := by
  intro content limited
  obtain ⟨htake, hloaded, -, -⟩ :=
    limited_run "f" .expand .summary content 20 "sink full" none
  have hlength : 20 < (run "f" .expand .summary content .endless).output.length := by
    decide +kernel
  have houtput : limited.output = Text.Utf8.encode "O [x=1]\n  Given 1\nO " := by
    rw [show limited.output = _ from htake]
    decide +kernel
  have hresult : limited.result = .error (.write (.expansion "O") "sink full") := by
    decide +kernel
  have hdecoded : Text.Utf8.decode (Text.Utf8.encode
      "Feature: F\nScenario Outline: O\nGiven <x>\nExamples:\n|x|\n|1|\n|2|\n") = .ok
        "Feature: F\nScenario Outline: O\nGiven <x>\nExamples:\n|x|\n|1|\n|2|\n".toList := by
    decide +kernel
  obtain ⟨f, hf, hloadable⟩ := exists_ok_and (P := Loadable content)
    (x := Feature.ofText (String.ofList (dropMark
      "Feature: F\nScenario Outline: O\nGiven <x>\nExamples:\n|x|\n|1|\n|2|\n".toList)))
    (by decide +kernel) fun f hf => .feature hdecoded hf
  obtain ⟨before, item, after, hitems, -, -, fault, hfault, hwrite, hchain⟩ :=
    ((hloaded f hloadable).2 rfl).2 hlength
  obtain rfl : .write (.expansion "O") "sink full" = fault :=
    Except.error.inj (hresult.symm.trans hfault)
  have hpart : item.part = .expansion "O" := (RunFault.write.inj hwrite).1.symm
  obtain ⟨-, -, hunloadable, -⟩ :=
    limited_run "f" .expand .summary (.error .isDirectory) 20 "sink full" none
  exact ⟨⟨f, hloadable, hlength, houtput, before, item, after, _, hitems, hfault, hwrite, hpart,
      by decide +kernel, hchain⟩,
    _, .unreadable .isDirectory,
    (hunloadable _ (.unreadable .isDirectory) ⟨some 20, "sink full", none⟩).1⟩

end Gherkin
