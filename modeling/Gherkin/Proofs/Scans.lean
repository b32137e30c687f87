import Gherkin.Proofs.Writing

/-
  The kinds of lines without their numbers. What a line is hangs on its characters and on the
  indentation of the doc string that is open before it (`Scan`), so lines that are cut or joined are
  followed by what is open between them (`Scans.append`). A text is a feature exactly if its lines
  scan to kinds that spell that feature (`ofText_eq_ok_iff_scans`): an edit of a text is an edit of
  its kinds.
-/

namespace Gherkin.Reader

open Line

/-! ## One line -/

/-- The line is of this kind; the indentations are those of the doc strings that are open before
and after it. -/
inductive Scan : Option Nat → List Char → Kind → Option Nat → Prop
  | opening {raw : List Char} (mark : Text.trim raw = fenceMark) :
    Scan none raw .fence (some (Text.indent raw))
  | closing {n : Nat} {raw : List Char} (mark : Text.trim raw = fenceMark) :
    Scan (some n) raw .fence none
  | captured {n : Nat} {raw : List Char} (other : Text.trim raw ≠ fenceMark) :
    Scan (some n) raw (.text (String.ofList (Text.dedent n raw))) (some n)
  | plain {raw : List Char} {k : Kind} (other : Text.trim raw ≠ fenceMark)
    (content : Kind.ofContent (Text.trim raw) = .ok k) : Scan none raw k none

theorem scan_iff (n : Nat) {fence : Option Fence} {raw : List Char} {k : Kind} {g : Option Nat} :
    Scan (fence.map Fence.indent) raw k g ↔
      ∃ after, classify fence n raw = (.ok k, after) ∧ after.map Fence.indent = g := by
  cases fence with
  | none =>
    constructor
    · rintro (mark | _ | _ | ⟨other, content⟩)
      · exact ⟨some ⟨n, Text.indent raw⟩, by rw [classify, mark]; rfl, rfl⟩
      · exact ⟨none, by simp only [classify, if_neg other, content], rfl⟩
    · rintro ⟨after, h, rfl⟩
      obtain ⟨hk, rfl⟩ := Prod.mk.inj h
      by_cases hmark : Text.trim raw = fenceMark
      · rw [hmark] at hk
        obtain rfl := Except.ok.inj hk
        rw [if_pos hmark]
        exact .opening hmark
      · rw [if_neg hmark]
        exact .plain hmark hk
  | some opened =>
    constructor
    · rintro (_ | mark | other | _)
      · exact ⟨none, by simp only [classify, if_pos mark], rfl⟩
      · exact ⟨some opened, by simp only [classify, if_neg other], rfl⟩
    · rintro ⟨after, h, rfl⟩
      unfold classify at h
      by_cases hmark : Text.trim raw = fenceMark
      · simp only [if_pos hmark] at h
        cases h
        exact .closing hmark
      · simp only [if_neg hmark] at h
        cases h
        exact .captured hmark

/-! ## Lines -/

/-- The lines are of these kinds, one after the other. -/
inductive Scans : Option Nat → List (List Char) → List Kind → Option Nat → Prop
  | nil (f : Option Nat) : Scans f [] [] f
  | cons {f g h : Option Nat} {raw : List Char} {k : Kind} {raws : List (List Char)}
    {ks : List Kind} (line : Scan f raw k g) (rest : Scans g raws ks h) :
    Scans f (raw :: raws) (k :: ks) h

theorem Scans.append {f g h : Option Nat} {as bs : List (List Char)} {ks ms : List Kind}
    (ha : Scans f as ks g) (hb : Scans g bs ms h) : Scans f (as ++ bs) (ks ++ ms) h := by
  induction ha with
  | nil => exact hb
  | cons line _ ih => exact .cons line (ih hb)

theorem Scans.exists_append {f h : Option Nat} {as bs : List (List Char)} {ns : List Kind}
    (hall : Scans f (as ++ bs) ns h) :
    ∃ ks ms g, ns = ks ++ ms ∧ Scans f as ks g ∧ Scans g bs ms h := by
  induction as generalizing f ns with
  | nil => exact ⟨[], ns, f, rfl, .nil f, hall⟩
  | cons raw as ih =>
    obtain _ | ⟨line, rest⟩ := hall
    obtain ⟨ks, ms, g, rfl, ha, hb⟩ := ih rest
    exact ⟨_ :: ks, ms, g, rfl, .cons line ha, hb⟩

theorem scans_iff (last : Nat) (fence : Option Fence) {raws : List (List Char)} {ks : List Kind}
    {g : Option Nat} : Scans (fence.map Fence.indent) raws ks g ↔
      ∃ ls : List Line, readLines last fence raws = ls.map .ok ∧ ls.map Line.kind = ks ∧
        (fenceAfter last fence raws).map Fence.indent = g := by
  induction raws generalizing last fence ks with
  | nil =>
    constructor
    · rintro ⟨⟩
      exact ⟨[], rfl, rfl, rfl⟩
    · rintro ⟨ls, hls, rfl, rfl⟩
      obtain rfl := List.map_eq_nil_iff.1 hls.symm
      exact .nil _
  | cons raw raws ih =>
    constructor
    · rintro (_ | ⟨line, rest⟩)
      obtain ⟨after, hclassify, rfl⟩ := (scan_iff (last + 1)).1 line
      obtain ⟨ls, hls, rfl, hafter⟩ := (ih (last + 1) after).1 rest
      refine ⟨⟨last + 1, _⟩ :: ls, ?_, rfl, ?_⟩
      · simp only [readLines, read, hclassify, hls, List.map_cons]
      · simpa only [fenceAfter, read, hclassify] using hafter
    · rintro ⟨ls, hls, rfl, hafter⟩
      cases ls with
      | nil => cases hls
      | cons l ls =>
        obtain ⟨hl, hrest⟩ := List.cons.inj hls
        rcases hclassify : classify fence (last + 1) raw with ⟨result, after⟩
        cases result with
        | error e => simp [read, hclassify] at hl
        | ok k =>
          simp only [read, hclassify, Except.ok.injEq] at hl hrest
          simp only [fenceAfter, read, hclassify] at hafter
          rw [List.map_cons, ← hl]
          exact .cons ((scan_iff _).2 ⟨after, hclassify, rfl⟩) ((ih _ _).2 ⟨ls, hrest, rfl, hafter⟩)

theorem Scans.unique {f g h : Option Nat} {raws : List (List Char)} {ks ms : List Kind}
    (hk : Scans f raws ks g) (hm : Scans f raws ms h) : ks = ms ∧ g = h := by
  have hf : f = (f.map (Fence.mk 0)).map Fence.indent := by cases f <;> rfl
  rw [hf] at hk hm
  obtain ⟨ls, hls, rfl, rfl⟩ := (scans_iff 0 _).1 hk
  obtain ⟨ns, hns, rfl, rfl⟩ := (scans_iff 0 _).1 hm
  have heq := hls.symm.trans hns
  rw [List.map_inj_right fun a b hab => Except.ok.inj hab] at heq
  exact ⟨congrArg _ heq, rfl⟩

theorem exists_lines_of_kinds {items : List Item} {ks : List Kind}
    (h : items.map (Except.map Line.kind) = ks.map .ok) :
    ∃ ls : List Line, items = ls.map .ok ∧ ls.map Line.kind = ks := by
  induction items generalizing ks with
  | nil => exact ⟨[], rfl, (List.map_eq_nil_iff.1 h.symm).symm⟩
  | cons i items ih =>
    cases ks with
    | nil => cases h
    | cons k ks =>
      obtain ⟨hi, hrest⟩ := List.cons.inj h
      obtain ⟨ls, rfl, rfl⟩ := ih hrest
      cases i with
      | error e => cases hi
      | ok l => exact ⟨l :: ls, rfl, congrArg (· :: _) (Except.ok.inj hi)⟩

/-- Lines are scanned by reading them. -/
theorem scans_of_readLines {raws : List (List Char)} {ks : List Kind}
    (h : (readLines 0 none raws).map (Except.map Line.kind) = ks.map .ok)
    (closed : fenceAfter 0 none raws = none) : Scans none raws ks none := by
  obtain ⟨ls, hls, rfl⟩ := exists_lines_of_kinds h
  exact (scans_iff 0 none).2 ⟨ls, hls, rfl, by rw [closed]; rfl⟩

/-- Captured lines are taken as they stand, less the indentation of the fence. -/
theorem scans_captured {raws : List (List Char)} (h : ∀ raw ∈ raws, Text.trim raw ≠ fenceMark)
    (n : Nat) : Scans (some n) raws
      (raws.map fun raw => .text (String.ofList (Text.dedent n raw))) (some n) := by
  induction raws with
  | nil => exact .nil _
  | cons raw raws ih =>
    obtain ⟨hraw, hrest⟩ := List.forall_mem_cons.1 h
    exact .cons (.captured hraw) (ih hrest)

end Gherkin.Reader

namespace Gherkin

open Grammar Reader

/-! ## Texts -/

theorem exists_reads_iff {text : String} {ks : List Line.Kind} :
    (∃ ls, Reads text ls ∧ ls.map Line.kind = ks) ↔
      Scans none (Text.lines text.toList) ks none := by
  rw [show Scans none (Text.lines text.toList) ks none ↔ _ from scans_iff 0 none]
  simp only [reads_iff, Option.map_eq_none_iff]
  constructor
  · rintro ⟨ls, ⟨hls, hafter⟩, hks⟩
    exact ⟨ls, hls, hks, hafter⟩
  · rintro ⟨ls, hls, hks, hafter⟩
    exact ⟨ls, ⟨hls, hafter⟩, hks⟩

theorem Reads.scans {text : String} {ls : List Line} (h : Reads text ls) :
    Scans none (Text.lines text.toList) (ls.map Line.kind) none := exists_reads_iff.1 ⟨ls, h, rfl⟩

/-- The significant lines among lines of these kinds. -/
def Grammar.letters (blank : Bool) (ks : List Line.Kind) : List Significant :=
  significant blank (ks.map (Line.mk 0))

theorem Grammar.letters_append (blank : Bool) (ks ms : List Line.Kind) :
    letters blank (ks ++ ms) =
      letters blank ks ++ letters (blankAfter blank (ks.map (Line.mk 0))) ms := by
  rw [letters, List.map_append, significant_append]
  rfl

/-- Lines that are not skipped, each directly after the other. -/
theorem Grammar.letters_direct {ks : List Line.Kind} (h : ∀ k ∈ ks, k ≠ .blank ∧ k ≠ .comment)
    (ms : List Line.Kind) : letters false (ks ++ ms) = direct ks ++ letters false ms := by
  induction ks with
  | nil => rfl
  | cons k ks ih =>
    obtain ⟨⟨hblank, hcomment⟩, hrest⟩ := List.forall_mem_cons.1 h
    have hk : letters false (k :: (ks ++ ms)) = ⟨⟨0, k⟩, false⟩ :: letters false (ks ++ ms) := by
      cases k <;> first | rfl | exact absurd rfl hblank | exact absurd rfl hcomment
    rw [List.cons_append, hk, ih hrest]
    rfl

theorem Grammar.kinds_of_lines (ks : List Line.Kind) :
    (ks.map (Line.mk 0)).map Line.kind = ks := by
  rw [List.map_map]
  exact List.map_id _

/-- A text is a feature exactly if its lines are of kinds that spell that feature. -/
theorem Feature.ofText_eq_ok_iff_scans {text : String} {f : Feature} :
    Feature.ofText text = .ok f ↔ ∃ ks, Scans none (Text.lines text.toList) ks none ∧
      DocumentLines (letters false ks) f := by
  rw [ofText_eq_ok_iff]
  constructor
  · rintro ⟨ls, hls, h⟩
    exact ⟨ls.map Line.kind, hls.scans,
      renumbers_document h (alike_significant (kinds_of_lines _).symm false)⟩
  · rintro ⟨ks, hks, h⟩
    obtain ⟨ls, hls, rfl⟩ := exists_reads_iff.2 hks
    exact ⟨ls, hls, renumbers_document h (alike_significant (kinds_of_lines _) false)⟩

end Gherkin
