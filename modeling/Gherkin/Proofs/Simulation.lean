import Gherkin.Proofs.Documents

/-
  Cursors that the parser cannot tell apart. Their lines have the same content, but for what has no
  meaning in a document: line numbers, a blank line before a line that opens something, and how
  many tag lines hold the tags (`Akin`). On akin cursors a production reads the same and leaves akin
  cursors, or it fails with the same kind of fault (`Matches`). This is shown of one production
  after the other, up to a whole document (`akin_feature`).
-/

namespace Gherkin

open Cursor Grammar

/-! ## Results that match -/

/-- Values that are `R` to each other, or faults of the same kind. -/
inductive Matches {α : Type} (R : α → α → Prop) : Except Fault α → Except Fault α → Prop
  | ok {a b : α} (values : R a b) : Matches R (.ok a) (.ok b)
  | error {f g : Fault} (kind : f.kind = g.kind) : Matches R (.error f) (.error g)

section Matches

variable {α β : Type} {R : α → α → Prop} {S : β → β → Prop} {x y : Except Fault α}
  {f g : α → Except Fault β}

theorem Matches.bind_of_eq (h : Matches R x y)
    (hfg : ∀ a b, x = .ok a → R a b → Matches S (f a) (g b)) : Matches S (x >>= f) (y >>= g) := by
  cases h with
  | ok values => exact hfg _ _ rfl values
  | error kind => exact .error kind

theorem Matches.bind (h : Matches R x y) (hfg : ∀ a b, R a b → Matches S (f a) (g b)) :
    Matches S (x >>= f) (y >>= g) :=
  h.bind_of_eq fun a b _ => hfg a b

end Matches

/-- Rejections of the same shape have the same kind. -/
theorem Peek.kind_reject {p q : Peek} (h : p.shape = q.shape) (kind : Fault.Kind)
    (wanted : Wanted) : (p.reject kind wanted).kind = (q.reject kind wanted).kind := by
  simp only [reject, Fault.kind, Fault.Cause.kind, h]

/-- The same is seen, at any line, and it is attached to what stands before it or not. -/
structure Peek.Same (p q : Peek) : Prop where
  shape : p.shape = q.shape
  attaches : Parse.attaches p = Parse.attaches q

/-! ## Akin cursors -/

/-- A line of this shape goes on with what stands before it, if no blank line is between them. -/
def Shape.Continues : Shape → Prop
  | .text | .row | .fence => True
  | _ => False

/-- Lines of the same content, no tag lines, where a blank line before one of them has a meaning
only if there is one before the other too. -/
structure Resembles (l m : Significant) : Prop where
  kind : l.line.kind = m.line.kind
  plain : l.line.kind.shape ≠ .tags
  afterBlank : l.line.kind.shape.Continues → l.afterBlank = m.afterBlank

theorem Resembles.plain_right {l m : Significant} (h : Resembles l m) :
    m.line.kind.shape ≠ .tags := h.kind ▸ h.plain

namespace Cursor

/-- The parser cannot tell the cursors apart; the tags of one line may stand on several. -/
inductive Akin : Cursor → Cursor → Prop
  | ended (m n : Nat) : Akin (.ended m) (.ended n)
  | failed {f g : Fault} (kind : f.kind = g.kind) : Akin (.failed f) (.failed g)
  | line {l m : Significant} {c d : Cursor} (same : Resembles l m) (rest : Akin c d) :
    Akin (.line l c) (.line m d)
  | tags {l m : Significant} {ms : List Significant} {ts : List Tag} {tss : List (List Tag)}
    {c d : Cursor} (all : TagLine l (ts ++ tss.flatten)) (first : TagLine m ts)
    (more : List.Forall₂ TagLine ms tss) (rest : Akin c d) :
    Akin (.line l c) (.line m (prepend ms d))

/-- Values that are the same for `f`, and akin cursors after them. -/
structure Same {α β : Type} (f : α → β) (x y : α × Cursor) : Prop where
  value : f x.1 = f y.1
  rest : Akin x.2 y.2

theorem Same.eq {α : Type} {x y : α × Cursor} (h : Same id x y) : x.1 = y.1 := h.value

/-- What is seen of a line. -/
def seen (l : Significant) : Peek := ⟨l.line.kind.shape, l.line.number, l.afterBlank⟩

theorem peek_line (l : Significant) (c : Cursor) : (line l c).peek = .ok (seen l) := rfl

/-- What is taken from akin cursors: tag lines, or lines that resemble each other with akin cursors
after them. -/
inductive Taken : Significant × Cursor → Significant × Cursor → Prop
  | tags {l m : Significant} {c d : Cursor} {ts us : List Tag} (left : l.line.kind = .tags ts)
    (right : m.line.kind = .tags us) : Taken (l, c) (m, d)
  | line {l m : Significant} {c d : Cursor} (same : Resembles l m) (rest : Akin c d) :
    Taken (l, c) (m, d)

theorem shape_of_tagLine {l : Significant} {ts : List Tag} (h : TagLine l ts) :
    l.line.kind.shape = .tags := by
  rw [show l.line.kind = _ from h]
  rfl

theorem attaches_of_continues {l : Significant} (h : ¬l.line.kind.shape.Continues) :
    Parse.attaches (seen l) = false := by
  revert h
  cases hl : l.line.kind <;>
    simp [hl, seen, Line.Kind.shape, Shape.Continues, Parse.attaches]

theorem seen_same {l m : Significant} (h : Resembles l m) : (seen l).Same (seen m) := by
  have hshape : (seen l).shape = (seen m).shape := congrArg Line.Kind.shape h.kind
  refine ⟨hshape, ?_⟩
  by_cases hl : l.line.kind.shape.Continues
  · have hblank : (seen l).afterBlank = (seen m).afterBlank := h.afterBlank hl
    rw [Parse.attaches, Parse.attaches, hblank]
    simp only [hshape]
  · have hm : ¬m.line.kind.shape.Continues := by rwa [← h.kind]
    rw [attaches_of_continues hl, attaches_of_continues hm]

theorem attaches_of_tagLine {l : Significant} {ts : List Tag} (h : TagLine l ts) :
    Parse.attaches (seen l) = false :=
  attaches_of_continues (by rw [shape_of_tagLine h]; exact id)

section Akin

variable {c d : Cursor} (h : Akin c d)
include h

theorem akin_peek : Matches Peek.Same c.peek d.peek := by
  cases h with
  | ended m n => exact .ok ⟨rfl, rfl⟩
  | failed kind => exact .error kind
  | line same rest => exact .ok (seen_same same)
  | tags all first more rest =>
    have hshape := (shape_of_tagLine all).trans (shape_of_tagLine first).symm
    have hattaches := (attaches_of_tagLine all).trans (attaches_of_tagLine first).symm
    exact .ok ⟨hshape, hattaches⟩

theorem akin_take : Matches Taken c.take d.take := by
  cases h with
  | ended m n => exact .error rfl
  | failed kind => exact .error kind
  | line same rest => exact .ok (.line same rest)
  | tags all first more rest => exact .ok (.tags all first)

theorem akin_sound : Matches Akin c.sound d.sound := by
  cases h with
  | ended m n => exact .ok (.ended m n)
  | failed kind => exact .error kind
  | line same rest => exact .ok (.line same rest)
  | tags all first more rest => exact .ok (.tags all first more rest)

/-- A run of lines that are no tag lines. -/
theorem akin_span {α β : Type} {p : Significant → Option α} (f : α → β)
    (hp : ∀ l m, Resembles l m → (p l).map f = (p m).map f)
    (htags : ∀ l, l.line.kind.shape = .tags → p l = none) :
    Same (List.map f) (c.span p) (d.span p) := by
  induction h with
  | ended m n => exact ⟨rfl, .ended m n⟩
  | failed kind => exact ⟨rfl, .failed kind⟩
  | @line l m c d same rest ih =>
    have hlm := hp l m same
    rw [span, span]
    cases hl : p l with
    | none =>
      have hm : p m = none := by simpa [hl] using hlm.symm
      rw [hm]
      exact ⟨rfl, .line same rest⟩
    | some a =>
      obtain ⟨b, hm, hb⟩ := Option.map_eq_some_iff.1 (hlm.symm.trans (by rw [hl]; rfl))
      rw [hm]
      exact ⟨congrArg₂ List.cons hb.symm ih.value, ih.rest⟩
  | @tags l m ms ts tss c d all first more rest ih =>
    rw [span, span, htags l (shape_of_tagLine all), htags m (shape_of_tagLine first)]
    exact ⟨rfl, .tags all first more rest⟩

/-- Tag lines have the same tags in all. -/
theorem akin_span_tags :
    Same List.flatten (c.span Parse.tagLine?) (d.span Parse.tagLine?) := by
  induction h with
  | ended m n => exact ⟨rfl, .ended m n⟩
  | failed kind => exact ⟨rfl, .failed kind⟩
  | line same rest ih =>
    rw [span, span, Parse.tagLine?_eq_none same.plain, Parse.tagLine?_eq_none same.plain_right]
    exact ⟨rfl, .line same rest⟩
  | @tags l m ms ts tss c d all first more rest ih =>
    have hmore := more.imp fun _ _ => Parse.tagLine?_eq_some.2
    rw [span, span, Parse.tagLine?_eq_some.2 all, Parse.tagLine?_eq_some.2 first]
    refine ⟨?_, by simpa only [span_append hmore] using ih.rest⟩
    simp only [span_append hmore, List.flatten_cons, List.flatten_append, ih.value,
      List.append_assoc]

omit h in
theorem headingAfterTags_prepend {ls : List Significant} {tss : List (List Tag)}
    (h : List.Forall₂ TagLine ls tss) (c : Cursor) :
    (prepend ls c).headingAfterTags = c.headingAfterTags := by
  induction h with
  | nil => rfl
  | @cons l ts ls tss first _ ih =>
    rw [prepend_cons, headingAfterTags, show l.line.kind = _ from first]
    exact ih

theorem akin_headingAfterTags : c.headingAfterTags = d.headingAfterTags := by
  induction h with
  | ended m n => rfl
  | failed kind => rfl
  | @line l m c d same rest ih =>
    have hplain := same.plain
    rw [headingAfterTags, headingAfterTags, ← same.kind]
    revert hplain
    cases l.line.kind <;> simp [Line.Kind.shape]
  | @tags l m ms ts tss c d all first more rest ih =>
    rw [headingAfterTags, headingAfterTags, show l.line.kind = _ from all,
      show m.line.kind = _ from first]
    exact ih.trans (headingAfterTags_prepend more d).symm

end Akin

end Cursor

namespace Parse

open Cursor

section Productions

variable {c d : Cursor} (h : Akin c d)
include h

/-! ## Openings -/

omit h in
/-- A run with the check that the reader has not failed after it. -/
theorem akin_run {α β : Type} (g : List α → β) {x y : List α × Cursor} (h : Same g x y) :
    Matches (Same id) (x.2.sound >>= fun rest => .ok (g x.1, rest))
      (y.2.sound >>= fun rest => .ok (g y.1, rest)) :=
  (akin_sound h.rest).bind fun _ _ hrest => .ok ⟨h.value, hrest⟩

theorem akin_tags : Matches (Same id) (tags c) (tags d) :=
  akin_run List.flatten (akin_span_tags h)

theorem akin_heading (k : Heading) : Matches (Same Prod.snd) (heading k c) (heading k d) := by
  refine (akin_take h).bind fun x y hxy => ?_
  cases hxy with
  | tags left right =>
    simp only [left, right]
    exact .error rfl
  | @line l m c d same rest =>
    dsimp only
    rw [← same.kind]
    split
    · split
      · exact .ok ⟨rfl, rest⟩
      · exact .error rfl
    · exact .error rfl

omit h in
theorem textLine?_same {l m : Significant} (h : Resembles l m) : textLine? l = textLine? m := by
  have hblank := h.afterBlank
  unfold textLine?
  rw [← h.kind]
  split
  · rename_i s hs
    rw [hblank (by rw [hs]; trivial)]
  · rfl

theorem akin_textLines : Same id (textLines c) (textLines d) := by
  cases h with
  | ended m n => exact ⟨rfl, .ended m n⟩
  | failed kind => exact ⟨rfl, .failed kind⟩
  | @line l m c d same rest =>
    rw [textLines, textLines, ← same.kind]
    split
    · rename_i s hs
      have hrest : Same (List.map id) (c.span textLine?) (d.span textLine?) :=
        akin_span rest id (fun _ _ hlm => congrArg _ (textLine?_same hlm))
          fun l hl => textLine?_eq_none (by simp [hl])
      exact ⟨congrArg (s :: ·) (by simpa using hrest.value), hrest.rest⟩
    · exact ⟨rfl, .line same rest⟩
  | @tags l m ms ts tss c d all first more rest =>
    rw [textLines, textLines, show l.line.kind = _ from all, show m.line.kind = _ from first]
    exact ⟨rfl, .tags all first more rest⟩

theorem akin_description : Matches (Same id) (description c) (description d) := by
  let joined (parts : List String) := if parts = [] then none else some (" ".intercalate parts)
  have hlines := akin_textLines h
  exact akin_run joined ⟨congrArg joined hlines.value, hlines.rest⟩

/-! ## Tables and doc strings -/

omit h in
theorem rowLine?_same {l m : Significant} (h : Resembles l m) :
    (rowLine? l).map Prod.snd = (rowLine? m).map Prod.snd := by
  have hblank := h.afterBlank
  unfold rowLine?
  rw [← h.kind]
  split
  · rename_i cells hcells
    rw [hblank (by rw [hcells]; trivial)]
    split <;> rfl
  · rfl

theorem akin_rows : Same (List.map Prod.snd) (rows c) (rows d) := by
  cases h with
  | ended m n => exact ⟨rfl, .ended m n⟩
  | failed kind => exact ⟨rfl, .failed kind⟩
  | @line l m c d same rest =>
    rw [rows, rows, ← same.kind]
    split
    · rename_i cells hcells
      have hrest : Same (List.map Prod.snd) (c.span rowLine?) (d.span rowLine?) :=
        akin_span rest Prod.snd (fun _ _ hlm => rowLine?_same hlm)
          fun l hl => rowLine?_eq_none (by simp [hl])
      exact ⟨congrArg (cells :: ·) hrest.value, hrest.rest⟩
    · exact ⟨rfl, .line same rest⟩
  | @tags l m ms ts tss c d all first more rest =>
    rw [rows, rows, show l.line.kind = _ from all, show m.line.kind = _ from first]
    exact ⟨rfl, .tags all first more rest⟩

omit h in
theorem matches_checkHeader (line line' : Nat) (header : List String) :
    Matches (fun _ _ => True) (checkHeader line header) (checkHeader line' header) := by
  unfold checkHeader
  split
  · exact .error rfl
  · exact .ok trivial

omit h in
theorem matches_checkWidths (header : List String) {data data' : List (Nat × List String)}
    (hdata : data.map Prod.snd = data'.map Prod.snd) :
    Matches (fun _ _ => True) (checkWidths header data) (checkWidths header data') := by
  have hfind (data : List (Nat × List String)) :
      (data.find? fun row => row.2.length != header.length).map Prod.snd =
        (data.map Prod.snd).find? fun cells => cells.length != header.length := by
    rw [List.find?_map]
    rfl
  have hsame := (hfind data).trans ((congrArg _ hdata).trans (hfind data').symm)
  unfold checkWidths
  cases hrow : data.find? fun row => row.2.length != header.length with
  | none =>
    rw [hrow, Option.map_none, eq_comm, Option.map_eq_none_iff] at hsame
    rw [hsame]
    exact .ok trivial
  | some row =>
    rw [hrow, Option.map_some, eq_comm] at hsame
    obtain ⟨row', hrow', -⟩ := Option.map_eq_some_iff.1 hsame
    rw [hrow']
    exact .error rfl

theorem akin_grid : Matches (Same Grid.rows) (grid c) (grid d) := by
  obtain ⟨hvalue, hrest⟩ := akin_rows h
  unfold grid
  generalize rows c = x at hvalue hrest ⊢
  generalize rows d = y at hvalue hrest ⊢
  obtain ⟨found, rest⟩ := x
  obtain ⟨found', rest'⟩ := y
  refine (akin_peek hrest).bind fun p q hpq => ?_
  cases found with
  | nil =>
    obtain rfl := List.map_eq_nil_iff.1 hvalue.symm
    exact .error (Peek.kind_reject hpq.shape _ _)
  | cons first data =>
    obtain ⟨first', data', rfl, hfirst, hdata⟩ := List.map_eq_cons_iff.1 hvalue.symm
    obtain ⟨line, header⟩ := first
    obtain ⟨line', header'⟩ := first'
    obtain rfl : header' = header := hfirst
    have hempty : data = [] ↔ data' = [] := by
      rw [← List.map_eq_nil_iff (f := Prod.snd), ← hdata, List.map_eq_nil_iff]
    dsimp only
    by_cases hnone : data = []
    · rw [if_pos hnone, if_pos (hempty.1 hnone)]
      refine .error ?_
      simp only [Fault.kind, Fault.Cause.kind, hpq.shape]
    · rw [if_neg hnone, if_neg (mt hempty.2 hnone)]
      refine (matches_checkHeader line line' header').bind fun _ _ _ => ?_
      refine (matches_checkWidths header' hdata.symm).bind fun _ _ _ => ?_
      exact .ok ⟨congrArg (Rows.mk header') hdata.symm, hrest⟩

omit h in
theorem akin_docString {l m : Significant} {c d : Cursor} (h : Akin c d) :
    Matches (Same id) (docString (.line l c)) (docString (.line m d)) := by
  have hrest : Same (List.map id) (c.span capturedLine?) (d.span capturedLine?) := by
    refine akin_span h id (fun l m hlm => ?_) fun l hl => capturedLine?_eq_none (by simp [hl])
    unfold capturedLine?
    rw [hlm.kind]
  have hvalue : (c.span capturedLine?).1 = (d.span capturedLine?).1 := by
    simpa using hrest.value
  rw [docString, docString, bind_ok (take_line l c), bind_ok (take_line m d)]
  refine (akin_take hrest.rest).bind fun x y hxy => ?_
  cases hxy with
  | tags left right =>
    simp only [left, right]
    exact .error rfl
  | @line l m c d same rest =>
    dsimp only
    rw [← same.kind]
    split
    · exact .ok ⟨congrArg ("\n".intercalate ·) hvalue, rest⟩
    · exact .error rfl

/-! ## Steps -/

omit h in
theorem Grid.table_eq {g k : Grid} (h : g.rows = k.rows) : g.table = k.table := by
  obtain ⟨hheader, hcells⟩ := Rows.mk.inj h
  rw [table, table, hheader, hcells]

omit h in
theorem akin_attached (shape : Shape) {l m : Significant} {c d : Cursor} (same : Resembles l m)
    (h : Akin c d) :
    Matches (Same id) (attached shape (.line l c)) (attached shape (.line m d)) := by
  unfold attached
  split
  · exact (akin_grid (.line same h)).bind fun x y hxy =>
      .ok ⟨congrArg Argument.table (Grid.table_eq hxy.value), hxy.rest⟩
  · exact (akin_docString h).bind fun x y hxy =>
      .ok ⟨congrArg Argument.docString hxy.value, hxy.rest⟩

theorem akin_argument : Matches (Same id) (argument c) (argument d) := by
  cases h with
  | ended m n => exact .ok ⟨rfl, .ended m n⟩
  | failed kind => exact .error kind
  | @line l m c d same rest =>
    have hseen := seen_same same
    rw [argument, argument, bind_ok (peek_line l c), bind_ok (peek_line m d), ← hseen.attaches]
    split
    · rw [← hseen.shape]
      refine (akin_attached (seen l).shape same rest).bind fun x y hxy => ?_
      refine (akin_peek hxy.rest).bind fun p q hpq => ?_
      rw [← hpq.attaches]
      split
      · exact .error rfl
      · exact .ok ⟨congrArg some hxy.value, hxy.rest⟩
    · exact .ok ⟨rfl, .line same rest⟩
  | @tags l m ms ts tss c d all first more rest =>
    rw [argument, argument, bind_ok (peek_line l c), bind_ok (peek_line m _),
      if_neg (by simp [attaches_of_tagLine all]), if_neg (by simp [attaches_of_tagLine first])]
    exact .ok ⟨rfl, .tags all first more rest⟩

theorem akin_step : Matches (Same id) (step c) (step d) := by
  refine (akin_take h).bind fun x y hxy => ?_
  cases hxy with
  | tags left right =>
    simp only [left, right]
    exact .error rfl
  | @line l m c d same rest =>
    dsimp only
    rw [← same.kind]
    split
    · rename_i keyword text _
      exact (akin_argument rest).bind fun x y hxy =>
        .ok ⟨congrArg (Step.mk keyword text) hxy.value, hxy.rest⟩
    · exact .error rfl

omit h in
theorem steps_refuses {c : Cursor} {next : Peek} (hn : c.peek = .ok next)
    (hs : next.shape.Continues) : steps c = .error (next.reject .unexpectedLine .step) := by
  rw [steps, bind_ok hn]
  revert hs
  cases next.shape <;> first | exact fun _ => rfl | exact False.elim

omit h in
theorem steps_ends {c : Cursor} {next : Peek} (hn : c.peek = .ok next)
    (hs : ¬next.shape.Continues) (hstep : next.shape ≠ .step) : steps c = .ok ([], c) :=
  steps_of_bodyEnd ⟨next, hn, fun e => hs (by rw [e]; trivial), fun e => hs (by rw [e]; trivial),
    fun e => hs (by rw [e]; trivial), hstep⟩

theorem akin_steps : Matches (Same id) (steps c) (steps d) := by
  -- on the lines ahead, of which a step takes at least one
  induction hn : c.size using Nat.strongRecOn generalizing c d with
  | _ n ih =>
    cases h with
    | ended m n =>
      have hend : Shape.end ≠ .step := by decide
      rw [steps_ends (c := .ended m) rfl id hend, steps_ends (c := .ended n) rfl id hend]
      exact .ok ⟨rfl, .ended m n⟩
    | failed kind =>
      rw [steps, steps]
      exact .error kind
    | @line l m c d same rest =>
      have hseen := seen_same same
      by_cases hstep : (seen l).shape = .step
      · rw [steps_eq_bind (peek_line l c) hstep,
          steps_eq_bind (peek_line m d) (hseen.shape ▸ hstep)]
        refine (akin_step (.line same rest)).bind_of_eq fun x y hx hxy => ?_
        have hless : x.2.size < n := hn ▸ size_of_step hx
        exact (ih x.2.size hless hxy.rest rfl).bind fun _ _ hmore =>
          .ok ⟨congrArg₂ List.cons hxy.value hmore.value, hmore.rest⟩
      · by_cases hother : (seen l).shape.Continues
        · rw [steps_refuses (peek_line l c) hother,
            steps_refuses (peek_line m d) (hseen.shape ▸ hother)]
          exact .error (Peek.kind_reject hseen.shape _ _)
        · rw [steps_ends (peek_line l c) hother hstep,
            steps_ends (peek_line m d) (hseen.shape ▸ hother) (hseen.shape ▸ hstep)]
          exact .ok ⟨rfl, .line same rest⟩
    | @tags l m ms ts tss c d all first more rest =>
      have hl : (seen l).shape = .tags := shape_of_tagLine all
      have hm : (seen m).shape = .tags := shape_of_tagLine first
      have htags : Shape.tags ≠ .step := by decide
      rw [steps_ends (peek_line l c) (by rw [hl]; exact id) (by rwa [hl]),
        steps_ends (peek_line m _) (by rw [hm]; exact id) (by rwa [hm])]
      exact .ok ⟨rfl, .tags all first more rest⟩

theorem akin_block (ts : List Tag) (name : String) :
    Matches (Same id) (block ts name c) (block ts name d) :=
  (akin_description h).bind fun _ _ hxy => (akin_steps hxy.rest).bind fun _ _ hvw =>
    .ok ⟨congrArg₂ (Block.mk name · ts ·) hxy.value hvw.value, hvw.rest⟩

/-! ## Examples -/

theorem akin_examplesAhead : Matches (fun n m => n.isSome = m.isSome) (examplesAhead? c)
    (examplesAhead? d) := by
  refine (akin_peek h).bind fun p q hpq => ?_
  rw [← akin_headingAfterTags h, ← hpq.shape]
  by_cases htagged : p.shape = .tags ∧ c.headingAfterTags = some .examples
  · rw [if_pos htagged, if_pos htagged]
    exact .error rfl
  · rw [if_neg htagged, if_neg htagged]
    refine .ok ?_
    split <;> rfl

theorem akin_examplesTable : Matches (Same Grid.rows) (examplesTable c) (examplesTable d) := by
  refine (akin_heading h .examples).bind fun x y hxy => ?_
  refine (akin_peek hxy.rest).bind fun p q hpq => ?_
  rw [← hpq.shape]
  split
  · exact akin_grid hxy.rest
  · exact .error (Peek.kind_reject hpq.shape _ _)

omit h in
theorem matches_checkSameHeader (first : Option (List String)) {g k : Grid}
    (hrows : g.rows = k.rows) :
    Matches (fun _ _ => True) (checkSameHeader first g) (checkSameHeader first k) := by
  have hheader : g.header = k.header := congrArg Rows.header hrows
  unfold checkSameHeader
  split
  · exact .ok trivial
  · rw [hheader]
    split
    · exact .ok trivial
    · exact .error rfl

omit h in
theorem examplesTables_ends {c : Cursor} (first : Option (List String))
    (ahead : examplesAhead? c = .ok none) : examplesTables first c = .ok ([], c) := by
  rw [examplesTables, bind_ok ahead]
  rfl

omit h in
theorem examplesTables_fails {c : Cursor} {f : Fault} (first : Option (List String))
    (ahead : examplesAhead? c = .error f) : examplesTables first c = .error f := by
  rw [examplesTables, ahead]
  rfl

theorem akin_examplesTables (first : Option (List String)) :
    Matches (Same (List.map Grid.rows)) (examplesTables first c) (examplesTables first d) := by
  -- on the lines ahead; the header of the first table goes on to the others
  induction hn : c.size using Nat.strongRecOn generalizing c d first with
  | _ n ih =>
    have hahead := akin_examplesAhead h
    generalize hc : examplesAhead? c = x at hahead
    generalize hd : examplesAhead? d = y at hahead
    cases hahead with
    | error kind =>
      rw [examplesTables_fails first hc, examplesTables_fails first hd]
      exact .error kind
    | @ok a b same =>
      cases a with
      | none =>
        obtain rfl : b = none := by simpa using same.symm
        rw [examplesTables_ends first hc, examplesTables_ends first hd]
        exact .ok ⟨rfl, h⟩
      | some i =>
        obtain ⟨j, rfl⟩ := Option.isSome_iff_exists.1 same.symm
        rw [examplesTables_eq_bind hc, examplesTables_eq_bind hd]
        refine (akin_examplesTable h).bind_of_eq fun v w hv hvw => ?_
        refine (matches_checkSameHeader first hvw.value).bind fun _ _ _ => ?_
        have hless : v.2.size < n := hn ▸ size_of_examplesTable hv
        have hheader : v.1.header = w.1.header := congrArg Rows.header hvw.value
        rw [← hheader]
        exact (ih v.2.size hless hvw.rest _ rfl).bind fun _ _ hmore =>
          .ok ⟨congrArg₂ List.cons hvw.value hmore.value, hmore.rest⟩

/-! ## Scenarios -/

theorem akin_simpleBody (ts : List Tag) (name : String) :
    Matches (Same id) (simpleBody ts name c) (simpleBody ts name d) := by
  refine (akin_block h ts name).bind fun x y hxy => ?_
  refine (akin_examplesAhead hxy.rest).bind fun n m hnm => ?_
  cases n with
  | none =>
    obtain rfl : m = none := by simpa using hnm.symm
    exact .ok ⟨congrArg Scenario.simple hxy.value, hxy.rest⟩
  | some n =>
    obtain ⟨m, rfl⟩ := Option.isSome_iff_exists.1 hnm.symm
    exact .error rfl

omit h in
/-- The examples of an outline are the rows of its tables. -/
theorem examples_eq {gs ks : List Grid} (h : gs.map Grid.rows = ks.map Grid.rows) :
    (gs.flatMap fun g => g.table.rows) = ks.flatMap fun g => g.table.rows := by
  have hrows (gs : List Grid) : (gs.flatMap fun g => g.table.rows) =
      (gs.map Grid.rows).flatMap fun r => r.table.rows := by
    rw [List.flatMap_map]
    rfl
  rw [hrows, hrows, h]

theorem akin_outlineBody (ts : List Tag) (line line' : Nat) (name : String) :
    Matches (Same id) (outlineBody ts line name c) (outlineBody ts line' name d) := by
  refine (akin_block h ts name).bind fun x y hxy => ?_
  refine (akin_examplesTables hxy.rest none).bind fun v w hvw => ?_
  have hempty : v.1 = [] ↔ w.1 = [] := by
    rw [← List.map_eq_nil_iff (f := Grid.rows), hvw.value, List.map_eq_nil_iff]
  dsimp only
  by_cases hnone : v.1 = []
  · rw [if_pos hnone, if_pos (hempty.1 hnone)]
    exact .error rfl
  · rw [if_neg hnone, if_neg (mt hempty.2 hnone), hxy.eq,
      examples_eq hvw.value]
    exact .ok ⟨rfl, hvw.rest⟩

theorem akin_scenario (ts : List Tag) :
    Matches (Same id) (scenario ts c).result (scenario ts d).result := by
  rw [scenario, scenario, Logged.result_bind, Logged.result_bind, result_lift, result_lift]
  refine (akin_take h).bind fun x y hxy => ?_
  cases hxy with
  | tags left right =>
    simp only [left, right]
    exact .error rfl
  | @line l m c d same rest =>
    dsimp only
    rw [← same.kind]
    split
    · exact akin_simpleBody rest ts _
    · exact akin_outlineBody rest ts _ _ _
    · exact .error rfl

theorem akin_taggedScenario :
    Matches (Same id) (taggedScenario c).result (taggedScenario d).result := by
  rw [taggedScenario, taggedScenario, Logged.result_bind, Logged.result_bind]
  refine (akin_tags h).bind fun x y hxy => ?_
  dsimp only
  rw [hxy.eq]
  exact akin_scenario hxy.rest y.1

theorem akin_background (ts : List Tag) :
    Matches (Same id) (background ts c).result (background ts d).result := by
  rw [background, background, Logged.result_bind, Logged.result_bind]
  refine (akin_heading h .background).bind fun x y hxy => ?_
  dsimp only
  rw [result_report_bind, result_report_bind, result_lift, result_lift,
    show x.1.2 = y.1.2 from hxy.value]
  exact akin_block hxy.rest ts y.1.2

theorem akin_background? :
    Matches (Same id) (background? c).result (background? d).result := by
  rw [background?, background?, Logged.result_bind, Logged.result_bind]
  refine (akin_tags h).bind fun x y hxy => ?_
  dsimp only
  rw [Logged.result_bind, Logged.result_bind]
  refine (akin_peek hxy.rest).bind fun p q hpq => ?_
  rw [← hpq.shape]
  split
  · rw [Logged.result_bind, Logged.result_bind, hxy.eq]
    exact (akin_background hxy.rest y.1).bind fun v w hvw =>
      .ok ⟨congrArg some hvw.value, hvw.rest⟩
  · exact .ok ⟨rfl, h⟩

theorem matches_scenarioAhead : Matches Eq (scenarioAhead c) (scenarioAhead d) := by
  refine (akin_tags h).bind fun x y hxy => ?_
  refine (akin_peek hxy.rest).bind fun p q hpq => ?_
  rw [hxy.eq, ← hpq.shape]
  split
  · exact .ok rfl
  · split
    · exact .error (Peek.kind_reject hpq.shape _ _)
    · split
      · exact .ok rfl
      · exact .error (Peek.kind_reject hpq.shape _ _)

omit h in
theorem scenarios_fails {c : Cursor} {f : Fault} (ahead : scenarioAhead c = .error f) :
    (scenarios c).result = .error f := by
  rw [scenarios, Logged.result_bind, result_lift, ahead]
  rfl

theorem matches_scenarios : Matches Eq (scenarios c).result (scenarios d).result := by
  -- on the lines ahead, of which a scenario takes its heading
  induction hn : c.size using Nat.strongRecOn generalizing c d with
  | _ n ih =>
    have hahead := matches_scenarioAhead h
    generalize hc : scenarioAhead c = x at hahead
    generalize hd : scenarioAhead d = y at hahead
    cases hahead with
    | error kind =>
      rw [scenarios_fails hc, scenarios_fails hd]
      exact .error kind
    | @ok a b same =>
      obtain rfl : a = b := same
      cases a with
      | false =>
        rw [scenarios_eq_nil hc, scenarios_eq_nil hd]
        exact .ok rfl
      | true =>
        rw [scenarios_eq_bind hc, scenarios_eq_bind hd]
        refine (akin_taggedScenario h).bind_of_eq fun v w hv hvw => ?_
        have hless : v.2.size < n := hn ▸ size_of_taggedScenario hv
        exact (ih v.2.size hless hvw.rest rfl).bind fun _ _ hmore =>
          .ok (congrArg₂ List.cons hvw.value hmore)

/-! ## Documents -/

theorem akin_opening (ts : List Tag) : Matches (Same Prod.snd) (opening ts c) (opening ts d) := by
  refine (akin_peek h).bind fun p q hpq => ?_
  rw [← hpq.shape]
  split
  · exact akin_heading h .feature
  · exact .error (Peek.kind_reject hpq.shape _ _)

theorem matches_closing (ts : List Tag) (name : String) (description : Option String)
    (b : Option Block) :
    Matches Eq (closing ts name description b c) (closing ts name description b d) := by
  refine (matches_scenarios h).bind fun ss ss' hss => ?_
  rw [← hss]
  split
  · exact (akin_peek h).bind fun _ _ _ => .error rfl
  · exact .ok rfl

theorem matches_underHeading (ts : List Tag) (name : String) :
    Matches Eq (underHeading ts name c) (underHeading ts name d) := by
  refine (akin_description h).bind fun x y hxy => ?_
  refine (akin_background? hxy.rest).bind fun v w hvw => ?_
  rw [hxy.eq, hvw.eq]
  exact matches_closing hvw.rest ts name y.1 w.1

/-- Akin cursors stand before the same feature, or before faults of the same kind. -/
theorem matches_feature : Matches Eq (feature c).result (feature d).result := by
  rw [feature_eq, feature_eq]
  refine (akin_tags h).bind fun x y hxy => ?_
  rw [hxy.eq]
  refine (akin_opening hxy.rest y.1).bind fun v w hvw => ?_
  rw [show v.1.2 = w.1.2 from hvw.value]
  exact matches_underHeading hvw.rest y.1 w.1.2

end Productions

end Parse

end Gherkin
