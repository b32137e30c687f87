import Gherkin.Proofs.Fences
import Gherkin.Proofs.Layout
import Gherkin.Proofs.Parts
import Gherkin.Proofs.Scans

/-
  Doc strings are captured verbatim. The lines between two fences may be replaced by those of any
  text that has no fence among them, each behind the margin of the opening fence: the document is
  accepted as before, and is the same but for the one doc string, which is that text
  (`docString_verbatim`). The reader takes captured lines as text whatever they hold, so the grammar
  sees only text lines between the fences, and a step accepts any number of them
  (`DocumentLines.docString`). A line that ends with a carriage return is left out of account: the
  carriage return would join the line end.
-/

namespace Gherkin.Grammar

open Line Reader

/-! ## The doc string of a step -/

theorem opened_textLines {ls : List Significant} {ss : List String}
    (h : List.Forall₂ TextLine ls ss) (inside : Bool) : opened inside (kinds ls) = inside := by
  induction h with
  | nil => rfl
  | @cons l s _ _ hl _ ih =>
    rw [kinds_cons, show l.line.kind = .text s from hl, opened_cons (by simp), ih]

theorem textLines_unique {ls : List Significant} {ss rs : List String}
    (h : List.Forall₂ TextLine ls ss) (h' : List.Forall₂ TextLine ls rs) : ss = rs :=
  List.right_unique_forall₂' (fun _ _ _ hl hl' => Kind.text.inj (hl.symm.trans hl')) h h'

/-- The lines of a step up to its opening fence and behind it. -/
structure FencedStep (upper : List Significant) (l : Significant) (lower : List Significant)
    (s : Step) : Prop where
  above : ∃ first keyword text, upper = [first] ∧ first.line.kind = .step keyword text
  captured : ∃ ts m ss, lower = ts ++ [m] ∧ List.Forall₂ TextLine ts ss ∧ m.line.kind = .fence ∧
    s.argument = some (.docString ("\n".intercalate ss))
  fits : ∀ {ts : List Significant} {m : Significant} {ss : List String},
    List.Forall₂ TextLine ts ss → m.line.kind = .fence →
      StepLines (upper ++ l :: (ts ++ [m]))
        { s with argument := some (.docString ("\n".intercalate ss)) }

/-- A fence in a step that is not its closing one opens its doc string. -/
theorem StepLines.fenced {upper lower : List Significant} {l : Significant} {s : Step}
    (h : StepLines (upper ++ l :: lower) s) (hl : l.line.kind = .fence)
    (closed : opened false (kinds upper) = false) : FencedStep upper l lower s := by
  generalize hls : upper ++ l :: lower = ls at h
  obtain @⟨first, ls, keyword, text, argument, hfirst, attached⟩ := h
  cases upper with
  | nil =>
    obtain ⟨rfl, -⟩ := List.cons.inj hls
    cases hl.symm.trans hfirst
  | cons u us =>
    obtain ⟨rfl, hrest⟩ := List.cons.inj hls
    cases attached with
    | absent => simp at hrest
    | table _ lines =>
      obtain ⟨cells, hrow⟩ := only_table lines l (hrest ▸ List.mem_append_cons_self)
      cases hl.symm.trans hrow
    | docString direct lines =>
      obtain @⟨opening, closing, ts, ss, hopening, captured, hclosing⟩ := lines
      cases us with
      | nil =>
        obtain ⟨rfl, rfl⟩ := List.cons.inj hrest
        exact ⟨⟨u, keyword, text, rfl, hfirst⟩, ⟨ts, closing, ss, rfl, captured, hclosing, rfl⟩,
          fun hts hm => .step hfirst (.docString direct (.fenced hl hts hm))⟩
      | cons v vs =>
        -- behind the opening fence and the captured lines the doc string is still open
        obtain ⟨rfl, hvs⟩ := List.cons.inj hrest
        have hopened : opened false (kinds (u :: v :: ts)) = true := by
          rw [kinds_cons, kinds_cons, hfirst, hopening, opened_cons (by simp)]
          exact opened_textLines captured true
        rcases line_cases hvs with ⟨_, rfl, -⟩ | ⟨_ | ⟨_, _⟩, rfl, hclosing⟩
        · obtain ⟨t, ht⟩ := exists_of_mem_left captured l List.mem_append_cons_self
          cases hl.symm.trans ht
        · rw [List.append_nil] at closed
          cases hopened.symm.trans closed
        · simp at hclosing

/-- Lines up to a first fence can be told in one way. -/
theorem fence_unique {ts us as bs : List Significant} {l m : Significant} {ss rs : List String}
    (hts : List.Forall₂ TextLine ts ss) (hus : List.Forall₂ TextLine us rs)
    (hl : l.line.kind = .fence) (hm : m.line.kind = .fence)
    (h : ts ++ l :: as = us ++ m :: bs) : ts = us ∧ l = m ∧ as = bs := by
  have hnone {ls : List Significant} {n : Significant} {ss : List String}
      (hls : List.Forall₂ TextLine ls ss) (hn : n.line.kind = .fence) : n ∉ ls := fun hmem => by
    obtain ⟨t, ht⟩ := exists_of_mem_left hls n hmem
    cases hn.symm.trans ht
  rcases line_cases h with ⟨_, rfl, -⟩ | ⟨_ | ⟨n, ns⟩, rfl, hrest⟩
  · exact absurd List.mem_append_cons_self (hnone hus hl)
  · obtain ⟨rfl, rfl⟩ := List.cons.inj hrest
    exact ⟨List.append_nil us, rfl, rfl⟩
  · obtain ⟨rfl, -⟩ := List.cons.inj hrest
    exact absurd List.mem_append_cons_self (hnone hts hm)

/-- Text lines between two fences of a document are the doc string of a step, and stand for any
other one. -/
theorem DocumentLines.docString {f : Feature} {as ts bs : List Significant} {l m : Significant}
    {ss : List String} (h : DocumentLines (as ++ l :: (ts ++ m :: bs)) f)
    (hl : l.line.kind = .fence) (hts : List.Forall₂ TextLine ts ss) (hm : m.line.kind = .fence)
    (closed : opened false (kinds as) = false) :
    ∃ k i s, Site.start.after (kinds as) = ⟨k, i + 1, false⟩ ∧ f.step? k i = some s ∧
      s.argument = some (.docString ("\n".intercalate ss)) ∧
      ∀ {us : List Significant} {rs : List String}, List.Forall₂ TextLine us rs →
        DocumentLines (as ++ l :: (us ++ m :: bs))
          (f.setStep k i { s with argument := some (.docString ("\n".intercalate rs)) }) := by
  obtain ⟨k, i, s, before, upper, lower, behind, rfl, hlower, hpart⟩ := h.exists_step_of_fence hl
  obtain ⟨t, hbefore⟩ := hpart.closed
  rw [kinds_append, opened_append, hbefore.not_opened] at closed
  obtain ⟨⟨first, keyword, text, rfl, hfirst⟩, ⟨us, n, rs, rfl, hus, hn, hargument⟩, hfits⟩ :=
    hpart.part.derives.fenced hl closed
  rw [List.append_assoc, List.singleton_append] at hlower
  obtain ⟨rfl, rfl, rfl⟩ := fence_unique hts hus hm hn hlower
  obtain rfl := textLines_unique hts hus
  refine ⟨k, i, s, ?_, hpart.found, hargument, fun hrs => ?_⟩
  · rw [kinds_append, Site.after_append, hpart.above.after, kinds_cons, hfirst]
    rfl
  · have hall := hpart.part.fits (hfits hrs hm)
    simp only [List.append_assoc, List.cons_append, List.nil_append] at hall ⊢
    exact hall

end Gherkin.Grammar

namespace Gherkin.Text

open Line

/-! ## Writing lines behind a margin -/

/-- The leading blanks of a line. -/
def margin (s : List Char) : List Char := s.takeWhile isBlank

/-- The newline-separated lines of a text, each behind a margin and with a line end. -/
def writeLines (margin lineEnd : List Char) (s : String) : String :=
  String.ofList ((s.toList.splitOn '\n').flatMap fun l => margin ++ (l ++ lineEnd))

/-- The two line ends. -/
inductive LineEnd : List Char → Prop
  | newline : LineEnd ['\n']
  | crlf : LineEnd ['\r', '\n']

theorem lines_append_lineEnd {l e : List Char} (he : LineEnd e) (hn : '\n' ∉ l)
    (hr : l.getLast? ≠ some '\r') : lines (l ++ e) = [l] := by
  cases he with
  | crlf => exact lines_crlf_append hn
  | newline =>
    induction l with
    | nil => rw [List.nil_append, lines_newline, lines_nil]
    | cons c l ih =>
      rw [List.mem_cons, not_or] at hn
      have hfirst : ∀ s, c = '\r' → l ++ ['\n'] ≠ '\n' :: s := by
        rintro s rfl h
        cases l with
        | nil => exact hr rfl
        | cons d l => exact hn.2 ((List.cons.inj h).1 ▸ List.mem_cons_self)
      have hlast : l.getLast? ≠ some '\r' := by
        cases l with
        | nil => nofun
        | cons d l => rwa [List.getLast?_cons_cons] at hr
      rw [List.cons_append, lines_cons (Ne.symm hn.1) hfirst, ih hn.2 hlast]
      rfl

theorem ended_append {s t : List Char} (hs : Ended s) (ht : Ended t) : Ended (s ++ t) := by
  cases t with
  | nil => rwa [List.append_nil]
  | cons c t =>
    rw [Ended, List.getLast?_append_of_ne_nil _ (List.cons_ne_nil c t)]
    exact ht

theorem ended_lineEnd (s : List Char) {e : List Char} (he : LineEnd e) : Ended (s ++ e) := by
  cases he <;> simp [Ended]

/-- Each line is read again, with the margin before it. -/
theorem lines_writeLines {w e : List Char} (hw : Blanks w) (hn : '\n' ∉ w) (he : LineEnd e)
    {ls : List (List Char)} (hls : ∀ l ∈ ls, '\n' ∉ l ∧ l.getLast? ≠ some '\r') :
    Ended (ls.flatMap fun l => w ++ (l ++ e)) ∧
      List.Forall₂ (Shifted w) ls (lines (ls.flatMap fun l => w ++ (l ++ e))) := by
  induction ls with
  | nil => exact ⟨nofun, by rw [List.flatMap_nil, lines_nil]; exact .nil⟩
  | cons l ls ih =>
    obtain ⟨⟨hnewline, hreturn⟩, hrest⟩ := List.forall_mem_cons.1 hls
    obtain ⟨hended, hlines⟩ := ih hrest
    obtain ⟨l', hl', hshifted⟩ := lines_shifted hw hn (lines_append_lineEnd he hnewline hreturn)
    have hline : Ended (w ++ (l ++ e)) := by
      rw [← List.append_assoc]
      exact ended_lineEnd _ he
    rw [List.flatMap_cons, lines_append hline, hl']
    exact ⟨ended_append hline hended, .cons hshifted hlines⟩

/-- A text begins with its first line. -/
theorem exists_append_of_lines {s l : List Char} {ls : List (List Char)} (h : lines s = l :: ls) :
    ∃ r, s = l ++ r := by
  induction s using lines.induct generalizing l ls with
  | case1 => cases (lines_nil.symm.trans h)
  | case2 r _ =>
    rw [lines_newline] at h
    obtain ⟨rfl, -⟩ := List.cons.inj h
    exact ⟨_, rfl⟩
  | case3 r _ =>
    rw [lines_crlf] at h
    obtain ⟨rfl, -⟩ := List.cons.inj h
    exact ⟨_, rfl⟩
  | case4 c r hn hr he _ =>
    rw [lines_cons hn hr, he] at h
    obtain ⟨rfl, -⟩ := List.cons.inj h
    exact ⟨r, rfl⟩
  | case5 c r hn hr k ks he ih =>
    rw [lines_cons hn hr, he] at h
    obtain ⟨rfl, -⟩ := List.cons.inj h
    obtain ⟨t, rfl⟩ := ih he
    exact ⟨t, rfl⟩

/-- The margin of a text is that of its first line, unless that is blank. -/
theorem margin_eq {s raw : List Char} {raws : List (List Char)} (h : lines s = raw :: raws)
    (hraw : ¬Blanks raw) : margin s = margin raw := by
  obtain ⟨r, rfl⟩ := exists_append_of_lines h
  rw [margin, List.takeWhile_append, if_neg]
  · rfl
  · intro hall
    exact hraw (List.takeWhile_eq_self_iff.1 (List.takeWhile_prefix _ |>.eq_of_length hall))

end Gherkin.Text

namespace Gherkin

open Line Grammar Reader Text

/-! ## Reading a doc string -/

/-- A text in four pieces: what stands before a doc string, the opening fence, the captured lines,
and what follows from the closing fence on. -/
structure Text.Fenced (x o y z : String) : Prop where
  ended : Ended x.toList ∧ Ended o.toList ∧ Ended y.toList
  outside : Even (fences (lines x.toList))
  opening : ∃ raw, lines o.toList = [raw] ∧ trim raw = fenceMark
  captured : ∀ raw ∈ lines y.toList, trim raw ≠ fenceMark
  closing : ∃ raw rest, lines z.toList = raw :: rest ∧ trim raw = fenceMark

/-- The text lines of a doc string whose fence is indented by `n`. -/
def Line.capture (n : Nat) (raws : List (List Char)) : List String :=
  raws.map fun raw => String.ofList (dedent n raw)

theorem Reader.Scans.closed {raws : List (List Char)} {ks : List Kind} {g : Option Nat}
    (h : Scans none raws ks g) (heven : Even (fences raws)) : g = none := by
  obtain ⟨ls, -, -, rfl⟩ := (scans_iff 0 none).1 h
  rw [(fenceAfter_eq_none_iff 0 raws).2 heven]
  rfl

theorem Reader.Scans.opened {f g : Option Nat} {raws : List (List Char)} {ks : List Kind}
    (h : Scans f raws ks g) : opened f.isSome ks = g.isSome := by
  induction h with
  | nil => rfl
  | cons line _ ih =>
    cases line with
    | opening | closing => exact ih
    | captured => rw [opened_cons (by simp), ih]
    | plain other content =>
      rw [opened_cons (fun hk => other (eq_fenceMark_of_ofContent (hk ▸ content))), ih]

theorem Reader.scans_docString_iff {raw raw' : List Char} {raws rest : List (List Char)}
    {ks : List Kind} (hopening : trim raw = fenceMark) (hraws : ∀ r ∈ raws, trim r ≠ fenceMark)
    (hclosing : trim raw' = fenceMark) :
    Scans none (raw :: (raws ++ raw' :: rest)) ks none ↔ ∃ ms, Scans none rest ms none ∧
      ks = .fence :: ((capture (indent raw) raws).map .text ++ .fence :: ms) := by
  have hcaptured := scans_captured hraws (indent raw)
  rw [show (raws.map fun raw' => Kind.text (String.ofList (dedent (indent raw) raw'))) =
    (capture (indent raw) raws).map .text from List.map_map.symm] at hcaptured
  constructor
  · rintro (_ | ⟨_ | _ | _ | other, hrest⟩)
    · obtain ⟨ks, ms, g, rfl, hks, hms⟩ := hrest.exists_append
      obtain ⟨rfl, rfl⟩ := hcaptured.unique hks
      obtain _ | ⟨_ | _ | other, hrest⟩ := hms
      · exact ⟨_, hrest, rfl⟩
      · exact absurd hclosing other
    · exact absurd hopening other
  · rintro ⟨ms, hms, rfl⟩
    exact .cons (.opening hopening) (hcaptured.append (.cons (.closing hclosing) hms))

theorem Grammar.letters_docString (blank : Bool) (ts : List String) (ms : List Kind) :
    letters blank (.fence :: (ts.map .text ++ .fence :: ms)) =
      ⟨⟨0, .fence⟩, blank⟩ ::
        (direct (ts.map .text) ++ ⟨⟨0, .fence⟩, false⟩ :: letters false ms) := by
  have hkept : ∀ k ∈ ts.map Kind.text, k ≠ .blank ∧ k ≠ .comment := by simp
  exact congrArg (_ :: ·) (letters_direct hkept (.fence :: ms))

section Verbatim

variable {x o y z : String} {raw raw' : List Char} {rest : List (List Char)}

theorem capture_shifted {w : List Char} {ls rs : List (List Char)} (hw : Blanks w)
    (h : List.Forall₂ (Shifted w) ls rs) :
    capture w.length rs = ls.map String.ofList ∧ rs.map trim = ls.map trim := by
  induction h with
  | nil => exact ⟨rfl, rfl⟩
  | @cons l r ls rs hl _ ih =>
    have hdedent : dedent w.length r = l := (dedent_shifted hw hl 0).trans (dedent_zero l)
    obtain ⟨hcapture, htrim⟩ := ih
    refine ⟨?_, ?_⟩
    · rw [capture, List.map_cons, hdedent, List.map_cons, ← hcapture, capture]
    · rw [List.map_cons, List.map_cons, htrim, trim_shifted hw hl]

theorem Text.Fenced.lines_eq (cut : Fenced x o y z) (ho : lines o.toList = [raw])
    (hz : lines z.toList = raw' :: rest) {t : String} (ht : Ended t.toList) :
    lines (x ++ (o ++ (t ++ z))).toList =
      lines x.toList ++ (raw :: (lines t.toList ++ raw' :: rest)) := by
  simp only [String.toList_append]
  rw [lines_append cut.ended.1, lines_append cut.ended.2.1, lines_append ht, ho, hz]
  rfl

/-- The kinds of a text in four pieces, whatever is captured. -/
theorem Text.Fenced.scans_iff (cut : Fenced x o y z) (ho : lines o.toList = [raw])
    (hz : lines z.toList = raw' :: rest) (hraw : trim raw = fenceMark)
    (hraw' : trim raw' = fenceMark) {t : String} (ht : Ended t.toList)
    (captured : ∀ r ∈ lines t.toList, trim r ≠ fenceMark) {ks : List Kind} :
    Scans none (lines (x ++ (o ++ (t ++ z))).toList) ks none ↔ ∃ above below,
      Scans none (lines x.toList) above none ∧ Scans none rest below none ∧
        ks = above ++ .fence ::
          ((capture (indent raw) (lines t.toList)).map .text ++ .fence :: below) := by
  rw [cut.lines_eq ho hz ht]
  constructor
  · intro h
    obtain ⟨above, ms, g, rfl, habove, hms⟩ := h.exists_append
    obtain rfl := habove.closed cut.outside
    obtain ⟨below, hbelow, rfl⟩ := (scans_docString_iff hraw captured hraw').1 hms
    exact ⟨above, below, habove, hbelow, rfl⟩
  · rintro ⟨above, below, habove, hbelow, rfl⟩
    exact habove.append ((scans_docString_iff hraw captured hraw').2 ⟨below, hbelow, rfl⟩)

/-- The written lines are captured as they were before they were written. -/
theorem capture_writeLines (hn : '\n' ∉ raw) {e : List Char}
    (he : LineEnd e) {s : String}
    (hs : ∀ l ∈ s.toList.splitOn '\n', trim l ≠ fenceMark ∧ l.getLast? ≠ some '\r') :
    Ended (writeLines (margin raw) e s).toList ∧
      (∀ r ∈ lines (writeLines (margin raw) e s).toList, trim r ≠ fenceMark) ∧
      "\n".intercalate (capture (indent raw) (lines (writeLines (margin raw) e s).toList)) = s := by
  have hblank : Blanks (margin raw) := fun c hc => List.mem_takeWhile_imp hc
  have hnewline : '\n' ∉ margin raw := fun hc => hn (List.takeWhile_sublist _ |>.mem hc)
  have hsplit : ∀ l ∈ s.toList.splitOn '\n', '\n' ∉ l ∧ l.getLast? ≠ some '\r' :=
    fun l hl => ⟨not_mem_of_mem_splitOn hl, (hs l hl).2⟩
  obtain ⟨hended, hlines⟩ := lines_writeLines hblank hnewline he hsplit
  obtain ⟨hcapture, htrim⟩ := capture_shifted hblank hlines
  rw [writeLines, String.toList_ofList]
  refine ⟨hended, fun r hr hmark => ?_, ?_⟩
  · have hmem : trim r ∈ (s.toList.splitOn '\n').map trim := htrim ▸ List.mem_map_of_mem hr
    obtain ⟨l, hl, hl'⟩ := List.mem_map.1 hmem
    exact (hs l hl).1 (hl'.trans hmark)
  · rw [show indent raw = (margin raw).length from rfl, hcapture, intercalate_splitOn]

/-- Doc strings are captured verbatim. The step above the opening fence has the captured lines as
its doc string, less the indentation of the fence. Any text without a fence among its lines can be
written there behind the margin of the fence: the document is accepted and is the same except that
the doc string of this step is that text. -/
theorem docString_verbatim {f : Feature} (cut : Fenced x o y z)
    (h : Feature.ofText (x ++ (o ++ (y ++ z))) = .ok f) :
    ∃ ls k i step, Reads x ls ∧ Site.start.after (ls.map Line.kind) = ⟨k, i + 1, false⟩ ∧
      f.step? k i = some step ∧
      step.argument = some (.docString
        ("\n".intercalate (capture (margin o.toList).length (lines y.toList)))) ∧
      ∀ (s : String) (e : List Char), LineEnd e →
        (∀ l ∈ s.toList.splitOn '\n', trim l ≠ fenceMark ∧ l.getLast? ≠ some '\r') →
        Feature.ofText (x ++ (o ++ (writeLines (margin o.toList) e s ++ z))) =
          .ok (f.setStep k i { step with argument := some (.docString s) }) := by
  obtain ⟨raw, ho, hraw⟩ := cut.opening
  obtain ⟨raw', rest, hz, hraw'⟩ := cut.closing
  have hblank : ¬Blanks raw := fun hb => by
    rw [trim_eq_nil.2 hb] at hraw
    cases hraw
  have hn : '\n' ∉ raw := newline_not_mem_lines (ho ▸ List.mem_singleton_self raw)
  have hmargin : margin o.toList = margin raw := margin_eq ho hblank
  have hindent : (margin raw).length = indent raw := rfl
  obtain ⟨ks, hks, hdocument⟩ := Feature.ofText_eq_ok_iff_scans.1 h
  obtain ⟨above, below, habove, hbelow, rfl⟩ :=
    (cut.scans_iff ho hz hraw hraw' cut.ended.2.2 cut.captured).1 hks
  have hclosed : opened false (kinds (letters false above)) = false := by
    rw [letters, opened_significant, kinds_of_lines]
    exact habove.opened
  rw [letters_append, letters_docString] at hdocument
  have htexts (ts : List String) : List.Forall₂ TextLine (direct (ts.map .text)) ts :=
    forall₂_direct (fun _ => rfl) ts
  obtain ⟨k, i, step, hsite, hstep, hargument, hfits⟩ :=
    hdocument.docString rfl (htexts _) rfl hclosed
  obtain ⟨ls, hls, hkinds⟩ := exists_reads_iff.2 habove
  refine ⟨ls, k, i, step, hls, ?_, hstep, ?_, fun s e he hs => ?_⟩
  · rw [hkinds, ← hsite, letters, Site.after_significant, kinds_of_lines]
  · rw [hmargin, hindent]
    exact hargument
  · obtain ⟨hended, hcaptured, hcapture⟩ := capture_writeLines hn he hs
    have hscans := (cut.scans_iff ho hz hraw hraw' hended hcaptured).2
      ⟨above, below, habove, hbelow, rfl⟩
    rw [hmargin]
    refine Feature.ofText_eq_ok_iff_scans.2 ⟨_, hscans, ?_⟩
    have hdoc := hfits (htexts (capture (indent raw) (lines (writeLines (margin raw) e s).toList)))
    rw [hcapture] at hdoc
    rw [letters_append, letters_docString]
    exact hdoc

end Verbatim

/-- An empty line, tags, a heading, a row and a comment in a doc string, with line ends of two
characters. -/
theorem docString_verbatim_lookalikes :
    ∃ f, Feature.ofText ("@a\nFeature: F\nBackground:\nGiven a\n" ++ (" \t\"\"\"\r\n" ++
        ("  old\n" ++ "\"\"\"\nScenario: S\n"))) = .ok f ∧
      ∃ k i step, f.step? k i = some step ∧
        step.argument = some (.docString "old") ∧
        Feature.ofText ("@a\nFeature: F\nBackground:\nGiven a\n" ++ (" \t\"\"\"\r\n" ++
            (writeLines [' ', '\t'] ['\r', '\n'] "  @b\n\nScenario: T\n | c |\n# d" ++
              "\"\"\"\nScenario: S\n"))) =
          .ok (f.setStep k i
            { step with argument := some (.docString "  @b\n\nScenario: T\n | c |\n# d") }) := by
  have cut : Fenced "@a\nFeature: F\nBackground:\nGiven a\n" " \t\"\"\"\r\n" "  old\n"
      "\"\"\"\nScenario: S\n" := by
    refine ⟨⟨?_, ?_, ?_⟩, ?_, ⟨" \t\"\"\"".toList, ?_, ?_⟩, ?_,
      ⟨"\"\"\"".toList, ["Scenario: S".toList], ?_, ?_⟩⟩ <;> decide +kernel
  refine exists_ok_and (by decide +kernel) fun f hf => ?_
  obtain ⟨-, k, i, step, -, -, hstep, hargument, hwrite⟩ := docString_verbatim cut hf
  refine ⟨k, i, step, hstep, hargument.trans ?_, hwrite _ _ .crlf ?_⟩ <;> decide +kernel

end Gherkin
