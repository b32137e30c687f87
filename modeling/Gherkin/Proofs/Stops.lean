import Gherkin.Proofs.Tables
import Gherkin.Proofs.Writing
import Gherkin.Proofs.Invariant

/-
  Where the parser stops. A production that fails has read some lines, and its fault shows on the
  next one (`Shows`); the lines it has read can be completed to what it reads, unless a table among
  them breaks a rule (`Stops`). A production fails where one of its parts does, so each result here
  follows from those of the parts (`Stops.within`).
-/

namespace Gherkin

/-- A line of this kind can show a fault of that kind. -/
def Fault.Kind.Blames : Fault.Kind → Line.Kind → Prop
  | .missingExamples, .heading .scenarioOutline _ => True
  | .argumentConflict, .row _ | .argumentConflict, .fence => True
  | .malformedTable, .row _ => True
  | .unexpectedLine, _ => True
  | _, _ => False

/-! ## Lines of a shape -/

namespace Line.Kind

theorem exists_step {k : Kind} (h : k.shape = .step) : ∃ keyword text, k = .step keyword text := by
  cases k <;> simp_all [shape]

theorem exists_tags {k : Kind} (h : k.shape = .tags) : ∃ ts, k = .tags ts := by
  cases k <;> simp_all [shape]

theorem exists_row {k : Kind} (h : k.shape = .row) : ∃ cells, k = .row cells := by
  cases k <;> simp_all [shape]

theorem exists_heading {k : Kind} {h : Heading} (hk : k.shape = .heading h) :
    ∃ name, k = .heading h name := by
  cases k <;> simp_all [shape]

theorem eq_fence {k : Kind} (h : k.shape = .fence) : k = .fence := by
  cases k <;> simp_all [shape]

end Line.Kind

namespace Cursor

open Line Grammar

/-! ## Where a fault shows -/

/-- The fault shows on the next line, at the end of the text, or it is the reader's. -/
inductive Shows (f : Fault) : Cursor → Prop
  | line {l : Significant} {rest : Cursor} (number : f.line = l.line.number)
    (blames : f.kind.Blames l.line.kind) : Shows f (.line l rest)
  | ended {n : Nat} (number : f.line = n) (kind : f.kind = .unexpectedEnd) : Shows f (.ended n)
  | failed : Shows f (.failed f)

theorem eq_failed_of_peek {c : Cursor} {f : Fault} (h : c.peek = .error f) : c = .failed f := by
  cases c with
  | failed g => exact congrArg failed (Except.error.inj h)
  | _ => cases h

theorem eq_failed_of_sound {c : Cursor} {f : Fault} (h : c.sound = .error f) : c = .failed f := by
  cases c with
  | failed g => exact congrArg failed (Except.error.inj h)
  | _ => cases h

/-- A line is seen unless the text ends there. -/
theorem line_of_peek {c : Cursor} {next : Peek} (h : c.peek = .ok next) (hs : next.shape ≠ .end) :
    ∃ l rest, c = .line l rest ∧ next = ⟨l.line.kind.shape, l.line.number, l.afterBlank⟩ := by
  cases c with
  | line l rest => exact ⟨l, rest, rfl, (Except.ok.inj h).symm⟩
  | ended n =>
    obtain rfl := Except.ok.inj h
    exact absurd rfl hs
  | failed f => cases h

theorem shows_of_peek {c : Cursor} {f : Fault} (h : c.peek = .error f) : c.Shows f := by
  rw [eq_failed_of_peek h]
  exact .failed

/-- An unexpected line shows itself. -/
theorem shows_reject {c : Cursor} {next : Peek} (h : c.peek = .ok next) (wanted : Wanted) :
    c.Shows (next.reject .unexpectedLine wanted) := by
  cases c with
  | line l rest =>
    obtain rfl := Except.ok.inj h
    refine .line rfl ?_
    have hkind : (Peek.reject ⟨l.line.kind.shape, l.line.number, l.afterBlank⟩ .unexpectedLine
        wanted).kind = .unexpectedLine := if_neg (Line.Kind.shape_ne_end _)
    rw [hkind]
    trivial
  | ended n =>
    obtain rfl := Except.ok.inj h
    exact .ended rfl rfl
  | failed f => cases h

/-- An argument directly after another shows the conflict. -/
theorem shows_conflict {c : Cursor} {next : Peek} {shape : Shape} (h : c.peek = .ok next)
    (hnext : Parse.attaches next = true) :
    c.Shows ⟨next.line, .argumentConflict shape next.shape⟩ := by
  obtain ⟨-, hshape⟩ := Parse.attaches_eq_true.1 hnext
  have hline : next.shape ≠ .end := by rcases hshape with e | e <;> simp [e]
  obtain ⟨l, rest, rfl, rfl⟩ := line_of_peek h hline
  refine .line rfl ?_
  rcases hshape with hshape | hshape
  · obtain ⟨cells, hl⟩ := Line.Kind.exists_row hshape
    rw [hl]
    trivial
  · rw [Line.Kind.eq_fence hshape]
    trivial

/-! ## Lines that the reader can give -/

/-- The kinds of the lines ahead; a fault of the reader stands for a line outside doc strings,
unless the text ends in one. -/
def kindsAhead : Cursor → List Kind
  | line l rest => l.line.kind :: rest.kindsAhead
  | ended _ => []
  | failed f => if f.kind = .unexpectedEnd then [] else [.blank]

/-- No doc string is open, and the lines ahead can follow one another. -/
def Readable (c : Cursor) : Prop := Legible false c.kindsAhead

theorem kindsAhead_prepend (ls : List Significant) (c : Cursor) :
    (prepend ls c).kindsAhead = kinds ls ++ c.kindsAhead := by
  induction ls with
  | nil => rfl
  | cons l ls ih => exact congrArg (l.line.kind :: ·) ih

theorem Readable.line {l : Significant} {c : Cursor} (hc : (Cursor.line l c).Readable)
    (hl : l.line.kind ≠ .fence) : l.line.kind.WellFormed ∧ c.Readable :=
  legible_plain hc hl

/-- Tag lines that can be read have a tag. -/
theorem not_tags_nil_of_legible {inside : Bool} {ks : List Kind} (h : Legible inside ks) :
    Kind.tags [] ∉ ks := by
  induction h with
  | nil => simp
  | plain first _ _ ih =>
    rintro (_ | ⟨_, hmem⟩)
    · exact first.1 rfl
    · exact ih hmem
  | opening _ ih => simpa using ih
  | captured _ _ ih => simpa using ih
  | closing _ ih => simpa using ih

theorem mem_kindsAhead {c : Cursor} {l : Significant} (h : l ∈ c.lines) :
    l.line.kind ∈ c.kindsAhead := by
  induction c with
  | line next rest ih =>
    rcases List.mem_cons.1 h with rfl | h
    · exact List.mem_cons_self
    · exact List.mem_cons_of_mem _ (ih h)
  | ended n => cases h
  | failed f => cases h

theorem Readable.tagged {c : Cursor} (hc : c.Readable) : c.Tagged := by
  intro l hl htags
  have hmem := mem_kindsAhead hl
  rw [show l.line.kind = .tags [] from htags] at hmem
  exact not_tags_nil_of_legible hc hmem

end Cursor

namespace Grammar

open Line

theorem Keeps.readable {α : Type} {P : List Significant → α → Prop} {V : α → Prop}
    {ls : List Significant} {v : α} {c : Cursor} (hP : Keeps P V) (h : P ls v)
    (hc : (Cursor.prepend ls c).Readable) : V v ∧ c.Readable := by
  rw [Cursor.Readable, Cursor.kindsAhead_prepend] at hc
  exact hP h hc

theorem Star.single {α : Type} {P : List Significant → α → Prop} {ls : List Significant} {v : α}
    (h : P ls v) : Star P ls [v] := by
  have hone : Star P (ls ++ []) [v] := .cons h .nil
  rwa [List.append_nil] at hone

/-! ## Completions -/

/-- Significant lines of these kinds, the first of them after a blank line or not. -/
def after (blank : Bool) : List Kind → List Significant
  | [] => []
  | k :: ks => ⟨⟨0, k⟩, blank⟩ :: direct ks

theorem after_false (ks : List Kind) : after false ks = direct ks := by cases ks <;> rfl

theorem after_append (blank : Bool) (ks ms : List Kind) :
    ∃ b, after blank (ks ++ ms) = after blank ks ++ after b ms := by
  cases ks with
  | nil => exact ⟨blank, rfl⟩
  | cons k ks =>
    refine ⟨false, ?_⟩
    rw [List.cons_append, after, after, direct_append, after_false, List.cons_append]

/-- Lines with a blank line after them or not, as `blank` says, begin lines of `P`. -/
def Viable {α : Type} (P : List Significant → α → Prop) (ls : List Significant) (blank : Bool) :
    Prop := ∃ ks v, Passage ks ∧ P (ls ++ after blank ks) v

/-- Lines begin lines of `P`, a blank line after them or not. -/
def Begins {α : Type} (P : List Significant → α → Prop) (ls : List Significant) : Prop :=
  ∃ ks, Passage ks ∧ ∀ blank, ∃ v, P (ls ++ after blank ks) v

theorem Begins.viable {α : Type} {P : List Significant → α → Prop} {ls : List Significant}
    (h : Begins P ls) (blank : Bool) : Viable P ls blank := by
  obtain ⟨ks, hks, hP⟩ := h
  obtain ⟨v, hv⟩ := hP blank
  exact ⟨ks, v, hks, hv⟩

theorem Begins.imp {α β : Type} {P : List Significant → α → Prop}
    {Q : List Significant → β → Prop} {ls : List Significant} (h : Begins P ls)
    (hP : ∀ ms v, P ms v → ∃ w, Q ms w) : Begins Q ls := by
  obtain ⟨ks, hks, hall⟩ := h
  refine ⟨ks, hks, fun blank => ?_⟩
  obtain ⟨v, hv⟩ := hall blank
  exact hP _ v hv

/-- Complete lines begin lines of `P`. -/
theorem begins_of {α : Type} {P : List Significant → α → Prop} {ls : List Significant} {v : α}
    (h : P ls v) : Begins P ls :=
  ⟨[], .nil, fun _ => ⟨v, by rwa [after, List.append_nil]⟩⟩

/-- A row of empty cells under a header. -/
theorem passage_row {header : List String} (h : header ≠ []) :
    Passage [.row (List.replicate header.length "")] := by
  refine .line ⟨by simpa using h, fun cell hcell => ?_⟩ trivial
  rw [List.eq_of_mem_replicate hcell]
  rfl

/-- A table can be completed while its rows keep the rules. -/
theorem viable_table {l : Significant} {header : List String} {ms : List Significant}
    {data : List (List String)} {first : Option (List String)} {blank : Bool}
    (hl : RowLine l header) (hms : List.Forall₂ (Directly RowLine) ms data) (hne : header ≠ [])
    (distinct : header.Nodup) (hkept : Tables.Kept ⟨.header header, first⟩ ms blank) :
    Viable (fun ls r => TableLines ls r ∧ r.header = header) (l :: ms) blank := by
  obtain ⟨u, hu, hsettled⟩ := hkept
  cases hms with
  | nil =>
    obtain rfl := Option.some.inj hu
    obtain rfl : blank = false := by
      cases blank with
      | false => rfl
      | true => exact absurd rfl (hsettled rfl header)
    exact ⟨_, ⟨header, [List.replicate header.length ""]⟩, passage_row hne,
      .rows hl (.cons ⟨rfl, rfl⟩ .nil) (List.cons_ne_nil _ _) distinct (by simp), rfl⟩
  | @cons r row rs data hr hrs =>
    obtain ⟨w, hw, hrest⟩ := Tables.run_cons_eq_some.1 hu
    have hstep : (if (!r.afterBlank) = true ∧ row.length = header.length then
        some ⟨.rows header, first⟩ else none) = some w := (Tables.step_row hr.1).symm.trans hw
    obtain ⟨⟨-, hrow⟩, hsome⟩ := Option.ite_none_right_eq_some.1 hstep
    obtain rfl := Option.some.inj hsome
    have heven : ∀ cells ∈ row :: data, cells.length = header.length :=
      List.forall_mem_cons.2 ⟨hrow, even_of_run hrs hrest⟩
    refine ⟨[], ⟨header, row :: data⟩, .nil, ?_, rfl⟩
    rw [after, List.append_nil]
    exact .rows hl (.cons hr hrs) (List.cons_ne_nil _ _) distinct heven

/-! ## Stopping -/

/-- The fault shows after lines that begin lines of `P` if they keep the rules of tables; the
lines stand where `T` says. A text that ends too early is not looked at. -/
def Stops {α : Type} (P : List Significant → α → Prop) (T : Tables → Prop) (c : Cursor)
    (f : Fault) : Prop :=
  ∃ ls d, c = Cursor.prepend ls d ∧ d.Shows f ∧ (f.kind ≠ .unexpectedEnd →
    ∀ (t : Tables) (blank : Bool), T t → t.Kept ls blank → Viable P ls blank)

section Stops

variable {α β : Type} {P : List Significant → α → Prop} {Q : List Significant → β → Prop}
  {T U : Tables → Prop} {c : Cursor} {f : Fault}

theorem Stops.here (h : c.Shows f) {ls : List Significant} (hls : Begins P ls) :
    Stops P T (Cursor.prepend ls c) f :=
  ⟨ls, c, rfl, h, fun _ _ blank _ _ => hls.viable blank⟩

/-- A part stops after lines that keep the rules of tables, and what the part reads can be
completed. -/
theorem Stops.within (h : Stops Q U c f) (ls : List Significant)
    (hrun : ∀ t, T t → ∃ u, t.run ls = some u ∧ U u)
    (hP : ∀ ms w, Q ms w → Begins P (ls ++ ms)) : Stops P T (Cursor.prepend ls c) f := by
  obtain ⟨ms, d, rfl, hd, hviable⟩ := h
  refine ⟨ls ++ ms, d, (Cursor.prepend_append _ _ _).symm, hd, fun hk t blank ht hkept => ?_⟩
  obtain ⟨u, hu, hU⟩ := hrun t ht
  obtain ⟨ks, w, hks, hQ⟩ := hviable hk u blank hU (hkept.of_append hu)
  obtain ⟨ns, hns, hall⟩ := hP _ w hQ
  obtain ⟨b, hb⟩ := after_append blank ks ns
  obtain ⟨v, hv⟩ := hall b
  refine ⟨ks ++ ns, v, hks.append hns, ?_⟩
  rw [hb]
  simpa only [List.append_assoc] using hv

theorem Stops.extend (h : Stops Q T c f) (hP : ∀ ms w, Q ms w → Begins P ms) : Stops P T c f :=
  h.within [] (fun t ht => ⟨t, rfl, ht⟩) hP

end Stops

end Grammar

namespace Parse

open Cursor Grammar

/-! ## Failures of the monad -/

theorem bind_eq_error {ε α β : Type} {x : Except ε α} {g : α → Except ε β} {e : ε} :
    (x >>= g) = .error e ↔ x = .error e ∨ ∃ a, x = .ok a ∧ g a = .error e := by
  cases x <;> simp [bind, Except.bind]

theorem throw_eq_error {ε α : Type} {e e' : ε} : (throw e : Except ε α) = .error e' ↔ e = e' := by
  simp [throw, throwThe, MonadExceptOf.throw]

theorem pure_ne_error {ε α : Type} {a : α} {e : ε} : (pure a : Except ε α) ≠ .error e := by
  simp [pure, Except.pure]

/-! ## Openings -/

theorem tags_fails {c : Cursor} {f : Fault} (h : tags c = .error f) :
    ∃ ls tss, c = prepend ls (.failed f) ∧ List.Forall₂ TagLine ls tss := by
  obtain hsound | ⟨d, -, hpure⟩ := bind_eq_error.1 h
  · obtain ⟨ls, hls, hts⟩ := eq_prepend_span tagLine? c
    rw [eq_failed_of_sound hsound] at hls
    exact ⟨ls, _, hls, hts.imp fun _ _ => tagLine?_eq_some.1⟩
  · exact absurd hpure pure_ne_error

theorem description_fails {c : Cursor} {f : Fault} (h : description c = .error f) :
    ∃ ls d, c = prepend ls (.failed f) ∧ DescriptionLines ls d := by
  obtain hsound | ⟨d, -, hpure⟩ := bind_eq_error.1 h
  · obtain ⟨ls, hls, hd⟩ := textLines_derives (c := c) rfl
    rw [eq_failed_of_sound hsound] at hls
    exact ⟨ls, _, hls, hd⟩
  · exact absurd hpure pure_ne_error

/-! ## Tables -/

theorem shows_row {f : Fault} {l : Significant} {cells : List String} {rest : Cursor}
    (hl : RowLine l cells) (number : f.line = l.line.number) (kind : f.kind = .malformedTable) :
    (Cursor.line l rest).Shows f := by
  refine .line number ?_
  rw [kind, show l.line.kind = .row cells from hl]
  trivial

theorem checkHeader_eq_error {line : Nat} {header : List String} {f : Fault}
    (h : checkHeader line header = .error f) : f.line = line ∧ f.kind = .malformedTable := by
  unfold checkHeader at h
  split at h
  · obtain rfl := Except.error.inj h
    exact ⟨rfl, rfl⟩
  · cases h

theorem checkWidths_eq_error {header : List String} {data : List (Nat × List String)} {f : Fault}
    (h : checkWidths header data = .error f) :
    f.kind = .malformedTable ∧ ∃ row ∈ data, row.1 = f.line := by
  unfold checkWidths at h
  split at h
  · rename_i line cells hrow
    obtain rfl := Except.error.inj h
    exact ⟨rfl, _, List.mem_of_find?_eq_some hrow, rfl⟩
  · cases h

/-- A table stops at its header, or under rows that follow it. -/
theorem grid_stops {l : Significant} {header : List String} {c : Cursor} {f : Fault}
    (h : grid (.line l c) = .error f) (hl : RowLine l header) :
    (Cursor.line l c).Shows f ∨ ∃ ms data d, c = prepend ms d ∧ d.Shows f ∧
      List.Forall₂ (Directly RowLine) ms data := by
  obtain ⟨ms, hms, hrows⟩ := eq_prepend_span rowLine? c
  unfold grid at h
  rw [rows_eq l c header hl] at h
  generalize (c.span rowLine?).1 = data at h hrows
  generalize (c.span rowLine?).2 = d at h hms
  have hdirect {ls : List Significant} {rows : List (Nat × List String)}
      (hr : List.Forall₂ (fun l row => rowLine? l = some row) ls rows) :
      List.Forall₂ (Directly RowLine) ls (rows.map Prod.snd) :=
    List.forall₂_map_right_iff.2 (hr.imp fun _ _ e => (rowLine?_eq_some.1 e).1)
  obtain hpeek | ⟨next, hnext, h⟩ := bind_eq_error.1 h
  · exact .inr ⟨ms, _, d, hms, shows_of_peek hpeek, hdirect hrows⟩
  dsimp only at h
  split at h
  · obtain hthrow | ⟨_, hthrow, -⟩ := bind_eq_error.1 h
    · obtain rfl := throw_eq_error.1 hthrow
      by_cases hend : next.shape = .end
      · refine .inr ⟨ms, _, d, hms, ?_, hdirect hrows⟩
        rw [eq_ended_of_peek hnext hend]
        exact .ended (if_pos hend) (if_pos hend)
      · exact .inl (shows_row hl (if_neg hend) (if_neg hend))
    · exact (throw_eq_ok.1 hthrow).elim
  · obtain hheader | ⟨_, -, h⟩ := bind_eq_error.1 h
    · obtain ⟨hline, hkind⟩ := checkHeader_eq_error hheader
      exact .inl (shows_row hl hline hkind)
    · obtain hwidths | ⟨_, -, hpure⟩ := bind_eq_error.1 h
      · obtain ⟨hkind, row, hrow, hline⟩ := checkWidths_eq_error hwidths
        obtain ⟨before, behind, rfl⟩ := List.append_of_mem hrow
        have hbefore := List.forall₂_take_append _ _ _ hrows
        have hrest := List.forall₂_drop_append _ _ _ hrows
        rw [← List.take_append_drop before.length ms, prepend_append] at hms
        generalize ms.drop before.length = ks at hms hrest
        cases hrest with
        | @cons k _ ks _ hk _ =>
          obtain ⟨⟨hkrow, -⟩, hnumber⟩ := rowLine?_eq_some.1 hk
          exact .inr ⟨_, _, _, hms, shows_row hkrow (hline.symm.trans hnumber.symm) hkind,
            hdirect hbefore⟩
      · exact absurd hpure pure_ne_error

/-! ## Doc strings -/

theorem stops_of_span {α : Type} {p : Significant → Option α} {c rest : Cursor}
    {l : Significant} (h : (c.span p).2 = .line l rest) : p l = none := by
  induction c with
  | ended n => cases h
  | failed f => cases h
  | line next c ih =>
    unfold span at h
    split at h
    · exact ih h
    · rename_i hnext
      obtain ⟨rfl, rfl⟩ := Cursor.line.inj h
      exact hnext

/-- Captured lines leave a doc string open. -/
theorem legible_of_captured {ls : List Significant} {ss : List String} {ks : List Line.Kind}
    (h : List.Forall₂ TextLine ls ss) (hk : Line.Legible true (kinds ls ++ ks)) :
    Line.Legible true ks := by
  induction h with
  | nil => exact hk
  | cons hl _ ih =>
    rw [kinds_cons, show _ = _ from hl] at hk
    cases hk with
    | captured _ rest => exact ih rest

/-- A doc string stops where the text ends in it. -/
theorem docString_stops {l : Significant} {c : Cursor} {f : Fault}
    (h : docString (.line l c) = .error f) (hl : l.line.kind = .fence)
    (hc : (Cursor.line l c).Readable) :
    f.kind = .unexpectedEnd ∧ ∃ ms d, c = prepend ms d ∧ d.Shows f := by
  obtain ⟨ms, hms, hss⟩ := eq_prepend_span capturedLine? c
  have hcaptured := hss.imp fun _ _ => capturedLine?_eq_some.1
  obtain htake | ⟨⟨opening, e⟩, htake, h⟩ := bind_eq_error.1 h
  · cases htake
  obtain ⟨rfl, rfl⟩ := Prod.mk.inj (Except.ok.inj htake)
  have hopen : Line.Legible true (c.span capturedLine?).2.kindsAhead := by
    have hall : Line.Legible false (.fence :: c.kindsAhead) := by
      rwa [Readable, kindsAhead, hl] at hc
    cases hall with
    | plain _ other => exact absurd rfl other
    | opening rest =>
      rw [hms, kindsAhead_prepend] at rest
      exact legible_of_captured hcaptured rest
  have hstop {k : Significant} {rest : Cursor} := @stops_of_span _ capturedLine? c rest k
  dsimp only at h
  generalize (c.span capturedLine?).2 = d at h hms hopen hstop
  cases d with
  | ended n =>
    obtain hend | ⟨_, hend, -⟩ := bind_eq_error.1 h
    · obtain rfl := Except.error.inj hend
      exact ⟨rfl, ms, _, hms, .ended rfl rfl⟩
    · cases hend
  | failed g =>
    obtain hfail | ⟨_, hfail, -⟩ := bind_eq_error.1 h
    · obtain rfl := Except.error.inj hfail
      refine ⟨?_, ms, _, hms, .failed⟩
      by_contra hkind
      rw [kindsAhead, if_neg hkind] at hopen
      cases hopen
    · cases hfail
  | line k rest =>
    obtain hnext | ⟨⟨next, e⟩, hnext, h⟩ := bind_eq_error.1 h
    · cases hnext
    obtain ⟨rfl, rfl⟩ := Prod.mk.inj (Except.ok.inj hnext)
    have hk := hstop rfl
    rw [kindsAhead] at hopen
    unfold capturedLine? at hk
    dsimp only at h
    generalize k.line.kind = kind at h hk hopen
    cases hopen with
    | captured => cases hk
    | closing => exact absurd h pure_ne_error

/-! ## Steps -/

/-- An argument stops in its table or doc string. -/
theorem attached_stops {c : Cursor} {next : Peek} {f : Fault}
    (h : attached next.shape c = .error f) (hnext : c.peek = .ok next)
    (hattaches : attaches next = true) (hc : c.Readable) :
    Stops ArgumentLines (fun t => t.place = .outside) c f := by
  obtain ⟨hdirect, hshape⟩ := attaches_eq_true.1 hattaches
  have hline : next.shape ≠ .end := by rcases hshape with e | e <;> simp [e]
  obtain ⟨l, rest, rfl, rfl⟩ := line_of_peek hnext hline
  unfold attached at h
  rcases hshape with hshape | hshape
  · rw [if_pos hshape] at h
    obtain ⟨header, hl⟩ := Line.Kind.exists_row hshape
    have hwell := (hc.line (by simp [hl])).1
    rw [hl] at hwell
    obtain hgrid | ⟨_, -, hpure⟩ := bind_eq_error.1 h
    · obtain hshows | ⟨ms, data, d, rfl, hd, hrows⟩ := grid_stops hgrid hl
      · exact Stops.here hshows (begins_of ArgumentLines.absent)
      · refine ⟨l :: ms, d, rfl, hd, fun _ t blank ht hkept => ?_⟩
        obtain ⟨distinct, hrest⟩ := Tables.Kept.of_header hkept ht hl
        obtain ⟨ks, r, hks, htable, -⟩ := viable_table hl hrows hwell.1 distinct hrest
        exact ⟨ks, _, hks, .table hdirect htable⟩
    · exact absurd hpure pure_ne_error
  · rw [if_neg (by rw [hshape]; simp)] at h
    have hl := Line.Kind.eq_fence hshape
    obtain hdoc | ⟨_, -, hpure⟩ := bind_eq_error.1 h
    · obtain ⟨hkind, ms, d, rfl, hd⟩ := docString_stops hdoc hl hc
      exact ⟨l :: ms, d, rfl, hd, fun hk => absurd hkind hk⟩
    · exact absurd hpure pure_ne_error

theorem argument_stops {c : Cursor} {f : Fault} (h : argument c = .error f) (hc : c.Readable) :
    Stops ArgumentLines (fun t => t.place = .outside) c f := by
  obtain hpeek | ⟨next, hnext, hargument⟩ := bind_eq_error.1 h
  · exact Stops.here (shows_of_peek hpeek) (begins_of ArgumentLines.absent)
  split at hargument
  · rename_i hattaches
    obtain hattached | ⟨⟨a, d⟩, hattached, hsecond⟩ := bind_eq_error.1 hargument
    · exact attached_stops hattached hnext hattaches hc
    · obtain ⟨ls, hls, hlines⟩ := attached_derives hnext hattaches hattached
      rw [hls]
      obtain hpeek | ⟨second, hpeek, hsecond⟩ := bind_eq_error.1 hsecond
      · exact Stops.here (shows_of_peek hpeek) (begins_of hlines)
      split at hsecond
      · rename_i hconflict
        obtain hthrow | ⟨_, hthrow, -⟩ := bind_eq_error.1 hsecond
        · obtain rfl := throw_eq_error.1 hthrow
          exact Stops.here (shows_conflict hpeek hconflict) (begins_of hlines)
        · exact (throw_eq_ok.1 hthrow).elim
      · exact absurd hsecond pure_ne_error
  · exact absurd hargument pure_ne_error

theorem step_stops {c : Cursor} {next : Peek} {f : Fault} (h : step c = .error f)
    (hnext : c.peek = .ok next) (hstep : next.shape = .step) (hc : c.Readable) :
    Stops StepLines Tables.Settled c f := by
  obtain ⟨l, rest, rfl, rfl⟩ := line_of_peek hnext (by simp [hstep])
  obtain ⟨keyword, text, hl⟩ := Line.Kind.exists_step hstep
  obtain ⟨-, hrest⟩ := hc.line (by simp [hl])
  obtain htake | ⟨⟨_, _⟩, htake, hargument⟩ := bind_eq_error.1 h
  · cases htake
  obtain ⟨rfl, rfl⟩ := Prod.mk.inj (Except.ok.inj htake)
  dsimp only at hargument
  rw [hl] at hargument
  obtain hargument | ⟨_, -, hpure⟩ := bind_eq_error.1 hargument
  · refine (argument_stops hargument hrest).within [l] (fun t ht => ?_) fun ms a ha => ?_
    · have hinert : Inert l.line.kind := by
        rw [hl]
        trivial
      exact ⟨_, Tables.run_cons_some (step_inert ht hinert) rfl, rfl⟩
    · exact begins_of (StepLines.step hl ha)
  · exact absurd hpure pure_ne_error

theorem steps_stops {c : Cursor} {f : Fault} (h : steps c = .error f) (hc : c.Readable) :
    Stops (Star StepLines) Tables.Settled c f := by
  have hnone : Begins (Star StepLines) [] := begins_of .nil
  -- on the lines ahead, of which a step takes at least one
  induction hn : c.size using Nat.strongRecOn generalizing c with
  | _ n ih =>
    rw [steps] at h
    obtain hpeek | ⟨next, hnext, hsteps⟩ := bind_eq_error.1 h
    · exact Stops.here (shows_of_peek hpeek) hnone
    split at hsteps
    · rename_i hshape
      split at hsteps
      · rename_i g hstep
        obtain rfl := throw_eq_error.1 hsteps
        exact (step_stops hstep hnext hshape hc).extend fun ms s hs => begins_of (.single hs)
      · rename_i first d hd
        obtain hmore | ⟨_, -, hpure⟩ := bind_eq_error.1 hsteps
        · obtain ⟨ls, rfl, hfirst⟩ := step_derives hd
          obtain ⟨-, hrest⟩ := keeps_step.readable hfirst hc
          refine (ih d.size (hn ▸ size_of_step hd) hmore hrest rfl).within ls (fun t ht => ?_)
            fun ms ss hss => begins_of (.cons hfirst hss)
          obtain ⟨u, hu, hsettled, -⟩ := passes_step hfirst ht
          exact ⟨u, hu, hsettled⟩
        · exact absurd hpure pure_ne_error
    iterate 3
      · obtain rfl := throw_eq_error.1 hsteps
        exact Stops.here (shows_reject hnext _) hnone
    · exact absurd hsteps pure_ne_error

/-- The description and the steps of a block. -/
def Body (ls : List Significant) (v : Option String × List Step) : Prop := BodyLines ls v.1 v.2

theorem block_stops {ts : List Tag} {name : String} {c : Cursor} {f : Fault}
    (h : block ts name c = .error f) (hc : c.Readable) : Stops Body Tables.Settled c f := by
  obtain hdescription | ⟨⟨d, rest⟩, hdescription, hblock⟩ := bind_eq_error.1 h
  · obtain ⟨ls, d, rfl, hlines⟩ := description_fails hdescription
    have hbody : BodyLines (ls ++ []) d [] := .body hlines .nil
    rw [List.append_nil] at hbody
    exact Stops.here .failed (begins_of (v := (d, [])) hbody)
  · obtain hsteps | ⟨_, -, hpure⟩ := bind_eq_error.1 hblock
    · obtain ⟨ls, rfl, hlines⟩ := description_derives hdescription
      obtain ⟨-, hrest⟩ := keeps_description.readable hlines hc
      refine (steps_stops hsteps hrest).within ls (fun t ht => ?_) fun ms ss hss =>
        begins_of (v := (d, ss)) (BodyLines.body hlines hss)
      obtain ⟨u, hu, hsettled, -⟩ := passes_description hlines ht
      exact ⟨u, hu, hsettled⟩
    · exact absurd hpure pure_ne_error

/-! ## Examples -/

theorem examplesAhead?_shows {c : Cursor} {f : Fault} (h : examplesAhead? c = .error f) :
    c.Shows f := by
  obtain hpeek | ⟨next, hnext, hahead⟩ := bind_eq_error.1 h
  · exact shows_of_peek hpeek
  dsimp only at hahead
  by_cases htags : next.shape = .tags ∧ c.headingAfterTags = some .examples
  · rw [if_pos htags] at hahead
    obtain hthrow | ⟨_, hthrow, -⟩ := bind_eq_error.1 hahead
    · obtain rfl := throw_eq_error.1 hthrow
      obtain ⟨l, rest, rfl, rfl⟩ := line_of_peek hnext (by simp [htags.1])
      exact .line rfl trivial
    · exact (throw_eq_ok.1 hthrow).elim
  · rw [if_neg htags] at hahead
    exact absurd hahead pure_ne_error

/-- An examples heading comes next. -/
theorem line_of_examplesAhead? {c : Cursor} {n : Nat} (h : examplesAhead? c = .ok (some n)) :
    ∃ l rest name, c = .line l rest ∧ l.line.kind = .heading .examples name ∧
      l.line.number = n := by
  obtain ⟨next, hnext, hahead⟩ := bind_eq_ok.1 h
  dsimp only at hahead
  by_cases htags : next.shape = .tags ∧ c.headingAfterTags = some .examples
  · rw [if_pos htags] at hahead
    obtain ⟨_, hthrow, -⟩ := bind_eq_ok.1 hahead
    exact (throw_eq_ok.1 hthrow).elim
  · rw [if_neg htags] at hahead
    obtain ⟨hshape, hline⟩ := Option.ite_none_right_eq_some.1 (pure_eq_ok.1 hahead)
    obtain ⟨l, rest, rfl, rfl⟩ := line_of_peek hnext (by simp [hshape])
    obtain ⟨name, hl⟩ := Line.Kind.exists_heading hshape
    exact ⟨l, rest, name, rfl, hl, Option.some.inj hline⟩

theorem rows_header {c : Cursor} {line : Nat} {header : List String}
    {data : List (Nat × List String)} (h : (rows c).1 = (line, header) :: data) :
    ∃ l rest, c = .line l rest ∧ RowLine l header ∧ l.line.number = line := by
  cases c with
  | line l rest =>
    cases hk : l.line.kind with
    | row cells =>
      rw [rows_eq l rest cells hk] at h
      obtain ⟨hline, hcells⟩ := Prod.mk.inj (List.cons.inj h).1
      exact ⟨l, rest, rfl, hcells ▸ hk, hline⟩
    | _ => simp [rows, hk] at h
  | _ => cases h

theorem grid_header {c rest : Cursor} {g : Grid} (h : grid c = .ok (g, rest)) :
    ∃ l c', c = .line l c' ∧ RowLine l g.header ∧ l.line.number = g.line := by
  obtain ⟨data, -, hrows, -⟩ := grid_eq_ok_iff.1 h
  exact rows_header (congrArg Prod.fst hrows)

theorem grid_of_examplesTable {l : Significant} {c rest : Cursor} {name : String} {g : Grid}
    (h : examplesTable (.line l c) = .ok (g, rest))
    (hl : l.line.kind = .heading .examples name) : grid c = .ok (g, rest) := by
  have hheading : heading .examples (.line l c) = .ok ((l.line.number, name), c) :=
    heading_eq_ok_iff.2 ⟨l, rfl, hl, rfl⟩
  unfold examplesTable at h
  rw [bind_ok hheading] at h
  obtain ⟨next, -, hgrid⟩ := bind_eq_ok.1 h
  split at hgrid
  · exact hgrid
  · exact (throw_eq_ok.1 hgrid).elim

/-- A header that can be written. -/
structure HeaderWellFormed (header : List String) : Prop where
  columns : header ≠ []
  distinct : header.Nodup
  names : ∀ name ∈ header, Text.Trimmed name

/-- The kinds of a table with one row. -/
def tableKinds (header : List String) : List Line.Kind :=
  [.row header, .row (List.replicate header.length "")]

theorem passage_tableKinds {header : List String} (h : HeaderWellFormed header) :
    Passage (tableKinds header) := by
  have hheader : Passage [.row header] := .line ⟨h.columns, h.names⟩ trivial
  exact hheader.append (passage_row h.columns)

theorem table_after {header : List String} (h : HeaderWellFormed header) (blank : Bool) :
    TableLines (after blank (tableKinds header))
      ⟨header, [List.replicate header.length ""]⟩ :=
  .rows rfl (.cons ⟨rfl, rfl⟩ .nil) (List.cons_ne_nil _ _) h.distinct (by simp)

/-- An examples block whose table has the header of an earlier one. -/
def ExamplesUnder (first : Option (List String)) (ls : List Significant) (r : Rows) : Prop :=
  ExamplesLines ls r ∧ ∀ names ∈ first, r.header = names

/-- At least one examples block, each with the header of an earlier one. -/
def ExamplesAfter (first : Option (List String)) (ls : List Significant) (rs : List Rows) : Prop :=
  Star ExamplesLines ls rs ∧ rs ≠ [] ∧
    ∃ header, (∀ names ∈ first, names = header) ∧ ∀ r ∈ rs, r.header = header

theorem ExamplesUnder.examplesAfter {first : Option (List String)} {ls : List Significant}
    {r : Rows} (h : ExamplesUnder first ls r) : ExamplesAfter first ls [r] :=
  ⟨.single h.1, List.cons_ne_nil _ _, r.header, fun names hnames => (h.2 names hnames).symm,
    by simp⟩

section Examples

variable {first : Option (List String)} (hfirst : ∀ header ∈ first, HeaderWellFormed header)
include hfirst

theorem exists_header : ∃ header, HeaderWellFormed header ∧ ∀ names ∈ first, header = names := by
  cases first with
  | none =>
    have hwell : HeaderWellFormed [""] :=
      ⟨by simp, by simp, by simp [Text.Trimmed, Text.trim_nil]⟩
    exact ⟨[""], hwell, by simp⟩
  | some header => exact ⟨header, hfirst header rfl, by simp⟩

theorem begins_examplesUnder {l : Significant} {name : String}
    (hl : l.line.kind = .heading .examples name) : Begins (ExamplesUnder first) [l] := by
  obtain ⟨header, hwell, hsame⟩ := exists_header hfirst
  exact ⟨tableKinds header, passage_tableKinds hwell,
    fun blank => ⟨_, .examples hl (table_after hwell blank), hsame⟩⟩

theorem begins_examplesAfter : Begins (ExamplesAfter first) [] := by
  obtain ⟨header, hwell, hsame⟩ := exists_header hfirst
  have hheading : Passage [.heading .examples ""] := .line ⟨rfl, by decide⟩ trivial
  refine ⟨_, hheading.append (passage_tableKinds hwell), fun blank => ?_⟩
  have hblock : ExamplesUnder first (⟨⟨0, .heading .examples ""⟩, blank⟩ ::
      after false (tableKinds header)) ⟨header, [List.replicate header.length ""]⟩ :=
    ⟨.examples rfl (table_after hwell false), hsame⟩
  exact ⟨_, hblock.examplesAfter⟩

/-- An examples block stops at its heading or in its table. -/
theorem examplesTable_stops {l : Significant} {rest : Cursor} {name : String} {f : Fault}
    (h : examplesTable (.line l rest) = .error f) (hl : l.line.kind = .heading .examples name)
    (hc : rest.Readable) :
    Stops (ExamplesUnder first) (fun t => t.Settled ∧ t.first = first) (.line l rest) f := by
  have hbegins := begins_examplesUnder hfirst hl
  have hheading : heading .examples (.line l rest) = .ok ((l.line.number, name), rest) :=
    heading_eq_ok_iff.2 ⟨l, rfl, hl, rfl⟩
  unfold examplesTable at h
  rw [bind_ok hheading] at h
  obtain hpeek | ⟨next, hnext, hgrid⟩ := bind_eq_error.1 h
  · exact Stops.here (shows_of_peek hpeek) hbegins
  split at hgrid
  · rename_i hshape
    obtain ⟨k, c, rfl, rfl⟩ := line_of_peek hnext (by simp [hshape])
    obtain ⟨header, hk⟩ := Line.Kind.exists_row hshape
    have hwell := (hc.line (by simp [hk])).1
    rw [hk] at hwell
    obtain hshows | ⟨ms, data, d, rfl, hd, hrows⟩ := grid_stops hgrid hk
    · exact Stops.here hshows hbegins
    · refine ⟨l :: k :: ms, d, rfl, hd, fun _ t blank ht hkept => ?_⟩
      have hstep := Tables.step_of_settled ht.1 (l := l) (by simp [hl])
      rw [hl] at hstep
      obtain ⟨⟨distinct, hsame⟩, hrest⟩ := (hkept.of_cons hstep).of_examplesHeader rfl hk
      obtain ⟨ks, r, hks, htable, hheader⟩ := viable_table hk hrows hwell.1 distinct hrest
      refine ⟨ks, r, hks, .examples hl htable, fun names hnames => ?_⟩
      rw [hheader]
      exact hsame names (ht.2.symm ▸ hnames)
  · obtain rfl := throw_eq_error.1 hgrid
    exact Stops.here (shows_reject hnext _) hbegins

omit hfirst in
theorem checkSameHeader_eq_error {g : Grid} {f : Fault} (h : checkSameHeader first g = .error f) :
    f.line = g.line ∧ f.kind = .malformedTable := by
  unfold checkSameHeader at h
  split at h
  · cases h
  · split at h
    · cases h
    · obtain rfl := Except.error.inj h
      exact ⟨rfl, rfl⟩

theorem examplesTables_stops {c : Cursor} {f : Fault} (h : examplesTables first c = .error f)
    (hc : c.Readable) :
    Stops (ExamplesAfter first) (fun t => t.Settled ∧ t.first = first) c f := by
  induction hn : c.size using Nat.strongRecOn generalizing c first with
  | _ n ih =>
    rw [examplesTables] at h
    obtain hahead | ⟨ahead, hahead, htables⟩ := bind_eq_error.1 h
    · exact Stops.here (examplesAhead?_shows hahead) (begins_examplesAfter hfirst)
    split at htables
    · exact absurd htables pure_ne_error
    obtain ⟨l, rest, name, rfl, hl, -⟩ := line_of_examplesAhead? hahead
    obtain ⟨-, hrest⟩ := hc.line (by simp [hl])
    split at htables
    · rename_i g hg
      obtain rfl := throw_eq_error.1 htables
      exact (examplesTable_stops hfirst hg hl hrest).extend fun ms r hr =>
        begins_of hr.examplesAfter
    · rename_i g d hg
      obtain ⟨ls, hls, hblock⟩ := examplesTable_derives hg
      obtain hcheck | ⟨_, hcheck, hmore⟩ := bind_eq_error.1 htables
      · obtain ⟨hline, hkind⟩ := checkSameHeader_eq_error hcheck
        obtain ⟨k, rest', rfl, hk, hnumber⟩ := grid_header (grid_of_examplesTable hg hl)
        exact Stops.here (shows_row hk (hline.trans hnumber.symm) hkind)
          ((begins_examplesUnder hfirst hl).imp fun _ _ hr => ⟨_, hr.examplesAfter⟩)
      · obtain hmore | ⟨_, -, hpure⟩ := bind_eq_error.1 hmore
        · have hsame := checkSameHeader_eq_ok.1 hcheck
          have hnext : first.getD g.header = g.header := by
            cases first with
            | none => rfl
            | some header => exact (hsame header rfl).symm
          rw [hnext] at hmore
          rw [hls] at hc ⊢
          obtain ⟨hwell, hd⟩ := keeps_examples.readable hblock hc
          have hwritten : HeaderWellFormed g.header :=
            ⟨hwell.columns, hwell.distinct, hwell.names⟩
          have hheader : ∀ header ∈ some g.header, HeaderWellFormed header := by
            simpa using hwritten
          refine (ih d.size (hn ▸ size_of_examplesTable hg) hheader hmore hd rfl).within ls
            (fun t ht => ?_) fun ms rs hrs => ?_
          · have hrun := run_examples hblock ht.1 fun header hheader =>
              hsame header (ht.2 ▸ hheader)
            exact ⟨_, hrun, settled_rows _ _, rfl⟩
          · obtain ⟨hstar, -, header, hfirst', hothers⟩ := hrs
            have hg' : g.header = header := hfirst' g.header rfl
            exact begins_of (v := g.rows :: rs) ⟨.cons hblock hstar, List.cons_ne_nil _ _, header,
              fun names hnames => (hsame names hnames).symm.trans hg',
              List.forall_mem_cons.2 ⟨hg', hothers⟩⟩
        · exact absurd hpure pure_ne_error

end Examples

end Parse

end Gherkin
