import Gherkin.Parse.Feature
import Gherkin.Proofs.Grammar

/-
  The parser against the grammar, production by production. What a production of the parser reads
  is derivable (`…_derives`), and what is derivable is read to its end when nothing after it goes
  on with it (`…_prepend`).
-/

namespace Gherkin.Cursor

/-! ## Lines before a cursor -/

/-- The cursor with more lines ahead of it. -/
def prepend (ls : List Significant) (c : Cursor) : Cursor := ls.foldr line c

theorem prepend_nil (c : Cursor) : prepend [] c = c := rfl

theorem prepend_cons (l : Significant) (ls : List Significant) (c : Cursor) :
    prepend (l :: ls) c = line l (prepend ls c) := rfl

theorem prepend_append (ls ms : List Significant) (c : Cursor) :
    prepend (ls ++ ms) c = prepend ls (prepend ms c) := List.foldr_append

/-- The lines of a run stand before what is left of it. -/
theorem eq_prepend_span {α : Type} (p : Significant → Option α) (c : Cursor) :
    ∃ ls, c = prepend ls (c.span p).2 ∧
      List.Forall₂ (fun l v => p l = some v) ls (c.span p).1 := by
  induction c with
  | ended n => exact ⟨[], rfl, .nil⟩
  | failed f => exact ⟨[], rfl, .nil⟩
  | line next c ih =>
    rw [span]
    split
    · rename_i v hv
      obtain ⟨ls, hls, hvs⟩ := ih
      exact ⟨next :: ls, congrArg (line next) hls, .cons hv hvs⟩
    · exact ⟨[], rfl, .nil⟩

/-- A run takes the lines before a cursor that it accepts and goes on there. -/
theorem span_append {α : Type} {p : Significant → Option α} {ls : List Significant} {vs : List α}
    (h : List.Forall₂ (fun l v => p l = some v) ls vs) (c : Cursor) :
    (prepend ls c).span p = (vs ++ (c.span p).1, (c.span p).2) := by
  induction h with
  | nil => rfl
  | cons hv _ ih =>
    rw [prepend_cons, span, hv]
    simp only [ih, List.cons_append]

theorem span_prepend {α : Type} {p : Significant → Option α} {ls : List Significant}
    {vs : List α} {rest : Cursor} (h : List.Forall₂ (fun l v => p l = some v) ls vs)
    (stop : rest.span p = ([], rest)) : (prepend ls rest).span p = (vs, rest) := by
  rw [span_append h, stop, List.append_nil]

/-- A run of lines of one shape is empty where the next line has another shape. -/
theorem span_eq_nil {α : Type} {p : Significant → Option α} {c : Cursor} {next : Peek} {s : Shape}
    (h : c.peek = .ok next) (hs : next.shape ≠ s)
    (hp : ∀ l : Significant, l.line.kind.shape ≠ s → p l = none) : c.span p = ([], c) := by
  cases c with
  | ended n => rfl
  | failed f => rfl
  | line l rest =>
    obtain rfl := Except.ok.inj h
    rw [span, hp l hs]

theorem sound_of_peek {c : Cursor} {next : Peek} (h : c.peek = .ok next) : c.sound = .ok c := by
  cases c with
  | failed f => cases h
  | _ => rfl

/-! ## Where parts end -/

/-- No description, table or doc string goes on here. -/
def PartEnd (c : Cursor) : Prop :=
  ∃ next, c.peek = .ok next ∧ next.shape ≠ .text ∧ next.shape ≠ .row ∧ next.shape ≠ .fence

/-- The steps of a block have ended here. -/
def BodyEnd (c : Cursor) : Prop :=
  ∃ next, c.peek = .ok next ∧ next.shape ≠ .text ∧ next.shape ≠ .row ∧ next.shape ≠ .fence ∧
    next.shape ≠ .step

/-- A block can end here: the text ends, or tags and a heading open another block. -/
inductive Boundary : Cursor → Prop
  | ended (number : Nat) : Boundary (.ended number)
  | heading {l : Significant} {rest : Cursor} {h : Heading} {name : String}
    (first : l.line.kind = .heading h name) (other : h ≠ .examples) : Boundary (.line l rest)
  | tags {l : Significant} {rest : Cursor} {ts : List Tag} (first : Grammar.TagLine l ts)
    (more : Boundary rest) : Boundary (.line l rest)

theorem BodyEnd.partEnd {c : Cursor} (h : c.BodyEnd) : c.PartEnd := by
  obtain ⟨next, hn, ht, hr, hf, -⟩ := h
  exact ⟨next, hn, ht, hr, hf⟩

theorem Boundary.bodyEnd {c : Cursor} (h : c.Boundary) : c.BodyEnd := by
  cases h with
  | ended n => exact ⟨_, rfl, by simp⟩
  | heading first => exact ⟨_, rfl, by simp [first, Line.Kind.shape]⟩
  | tags first => exact ⟨_, rfl, by simp [show _ = _ from first, Line.Kind.shape]⟩

theorem Boundary.prepend {c : Cursor} {ls : List Significant} {tss : List (List Tag)}
    (h : c.Boundary) (hl : List.Forall₂ Grammar.TagLine ls tss) :
    (Cursor.prepend ls c).Boundary := by
  induction hl with
  | nil => exact h
  | cons first _ ih => exact .tags first ih

theorem Boundary.headingAfterTags {c : Cursor} (h : c.Boundary) :
    c.headingAfterTags ≠ some .examples := by
  induction h with
  | ended n => simp [Cursor.headingAfterTags]
  | heading first other => simpa [Cursor.headingAfterTags, first] using other
  | tags first _ ih => simpa [Cursor.headingAfterTags, show _ = _ from first] using ih

end Gherkin.Cursor

namespace Gherkin.Parse

open Cursor Grammar

theorem bind_ok {α β : Type} {x : Except Fault α} {a : α} (h : x = .ok a)
    (f : α → Except Fault β) : (x >>= f) = f a := by
  rw [h]; rfl

theorem pure_ok {α : Type} (a : α) : (pure a : Except Fault α) = .ok a := rfl

/-! ## Openings -/

theorem tagLine?_eq_some {l : Significant} {ts : List Tag} :
    tagLine? l = some ts ↔ TagLine l ts := by
  unfold tagLine? TagLine
  split <;> simp_all

theorem textLine?_eq_some {l : Significant} {s : String} :
    textLine? l = some s ↔ Directly TextLine l s := by
  unfold textLine? Directly TextLine
  split
  · rename_i t ht
    cases l.afterBlank <;> simp [ht]
  · rename_i h
    constructor
    · intro e; cases e
    · rintro ⟨e, -⟩; exact absurd e (h s)

theorem tagLine?_eq_none {l : Significant} (h : l.line.kind.shape ≠ .tags) :
    tagLine? l = none := by
  unfold tagLine?
  split
  · rename_i ts hk
    exact absurd (by rw [hk]; rfl) h
  · rfl

theorem textLine?_eq_none {l : Significant} (h : l.line.kind.shape ≠ .text) :
    textLine? l = none := by
  unfold textLine?
  split
  · rename_i s hk
    exact absurd (by rw [hk]; rfl) h
  · rfl

theorem tags_derives {c rest : Cursor} {ts : List Tag} (h : tags c = .ok (ts, rest)) :
    ∃ ls tss, c = prepend ls rest ∧ List.Forall₂ TagLine ls tss ∧ ts = tss.flatten := by
  obtain ⟨d, hd, h⟩ := bind_eq_ok.1 h
  obtain ⟨rfl, rfl⟩ := Prod.mk.inj (pure_eq_ok.1 h)
  obtain ⟨ls, hls, hts⟩ := eq_prepend_span tagLine? c
  rw [← eq_of_sound hd] at hls
  exact ⟨ls, _, hls, hts.imp fun _ _ => tagLine?_eq_some.1, rfl⟩

theorem tags_prepend {ls : List Significant} {tss : List (List Tag)} {rest : Cursor} {next : Peek}
    (h : List.Forall₂ TagLine ls tss) (hn : rest.peek = .ok next) (hs : next.shape ≠ .tags) :
    tags (prepend ls rest) = .ok (tss.flatten, rest) := by
  have stop := span_eq_nil hn hs fun _ => tagLine?_eq_none
  unfold tags
  rw [span_prepend (h.imp fun _ _ => tagLine?_eq_some.2) stop]
  dsimp only
  rw [bind_ok (sound_of_peek hn), pure_ok]

theorem heading_eq_ok_iff {k : Heading} {c rest : Cursor} {line : Nat} {name : String} :
    heading k c = .ok ((line, name), rest) ↔
      ∃ l : Significant, c = .line l rest ∧ l.line.kind = .heading k name ∧
        l.line.number = line := by
  constructor
  · intro h
    obtain ⟨⟨l, d⟩, hd, h⟩ := bind_eq_ok.1 h
    dsimp only at h
    split at h
    · rename_i j n hk
      split at h
      · rename_i hj
        obtain ⟨e, rfl⟩ := Prod.mk.inj (pure_eq_ok.1 h)
        obtain ⟨hline, rfl⟩ := Prod.mk.inj e
        cases c with
        | line next r =>
          obtain ⟨rfl, rfl⟩ := Prod.mk.inj (Except.ok.inj hd)
          exact ⟨next, rfl, hj ▸ hk, hline⟩
        | _ => cases hd
      · exact (throw_eq_ok.1 h).elim
    · exact (throw_eq_ok.1 h).elim
  · rintro ⟨l, rfl, hk, rfl⟩
    simp only [heading, Cursor.take, bind, Except.bind, hk, if_true]
    rfl

theorem textLines_derives {c rest : Cursor} {parts : List String}
    (h : textLines c = (parts, rest)) :
    ∃ ls, c = prepend ls rest ∧
      DescriptionLines ls (if parts = [] then none else some (" ".intercalate parts)) := by
  unfold textLines at h
  split at h
  · rename_i l d
    split at h
    · rename_i s hs
      obtain ⟨rfl, rfl⟩ := Prod.mk.inj h
      obtain ⟨ls, hls, hss⟩ := eq_prepend_span textLine? d
      refine ⟨l :: ls, congrArg (line l) hls, ?_⟩
      rw [if_neg (List.cons_ne_nil _ _)]
      exact .present hs (hss.imp fun _ _ => textLine?_eq_some.1)
    · obtain ⟨rfl, rfl⟩ := Prod.mk.inj h
      exact ⟨[], rfl, .absent⟩
  · obtain ⟨rfl, rfl⟩ := Prod.mk.inj h
    exact ⟨[], rfl, .absent⟩

theorem description_derives {c rest : Cursor} {d : Option String}
    (h : description c = .ok (d, rest)) :
    ∃ ls, c = prepend ls rest ∧ DescriptionLines ls d := by
  obtain ⟨r, hr, h⟩ := bind_eq_ok.1 h
  obtain ⟨rfl, rfl⟩ := Prod.mk.inj (pure_eq_ok.1 h)
  rw [eq_of_sound hr]
  exact textLines_derives rfl

theorem textLines_eq_nil {c : Cursor} {next : Peek} (h : c.peek = .ok next)
    (hs : next.shape ≠ .text) : textLines c = ([], c) := by
  unfold textLines
  split
  · split
    · rename_i s hk
      exact absurd (by rw [← Except.ok.inj h, hk]; rfl) hs
    · rfl
  · rfl

theorem description_prepend {ls : List Significant} {d : Option String} {rest : Cursor}
    (h : DescriptionLines ls d) (hrest : rest.PartEnd) :
    description (prepend ls rest) = .ok (d, rest) := by
  obtain ⟨next, hn, hs, -, -⟩ := hrest
  unfold description
  cases h with
  | absent =>
    rw [prepend_nil, textLines_eq_nil hn hs]
    dsimp only
    rw [bind_ok (sound_of_peek hn), if_pos rfl, pure_ok]
  | present first more =>
    have stop := span_eq_nil hn hs fun _ => textLine?_eq_none
    rw [prepend_cons, textLines, show _ = _ from first]
    dsimp only
    rw [span_prepend (more.imp fun _ _ => textLine?_eq_some.2) stop]
    dsimp only
    rw [bind_ok (sound_of_peek hn), if_neg (List.cons_ne_nil _ _), pure_ok]

/-! ## Tables -/

/-- The cells of a grid. -/
def Grid.rows (g : Grid) : Rows := ⟨g.header, g.cells⟩

theorem rowLine?_eq_some {l : Significant} {row : Nat × List String} :
    rowLine? l = some row ↔ Directly RowLine l row.2 ∧ l.line.number = row.1 := by
  unfold rowLine? Directly RowLine
  split
  · rename_i cells hk
    cases l.afterBlank <;> simp [hk, Prod.ext_iff, and_comm]
  · rename_i h
    constructor
    · intro e; cases e
    · rintro ⟨⟨e, -⟩, -⟩; exact absurd e (h _)

theorem rowLine?_eq_none {l : Significant} (h : l.line.kind.shape ≠ .row) :
    rowLine? l = none := by
  unfold rowLine?
  split
  · rename_i cells hk
    exact absurd (by rw [hk]; rfl) h
  · rfl

/-- The rows with the numbers of their lines. -/
def numbered (ls : List Significant) (data : List (List String)) : List (Nat × List String) :=
  ls.zipWith (fun l cells => (l.line.number, cells)) data

theorem rowLine?_numbered {ls : List Significant} {data : List (List String)}
    (h : List.Forall₂ (Directly RowLine) ls data) :
    List.Forall₂ (fun l row => rowLine? l = some row) ls (numbered ls data) := by
  induction h with
  | nil => exact .nil
  | cons first _ ih => exact .cons (rowLine?_eq_some.2 ⟨first, rfl⟩) ih

theorem numbered_snd {R : Significant → List String → Prop} {ls : List Significant}
    {data : List (List String)} (h : List.Forall₂ R ls data) :
    (numbered ls data).map Prod.snd = data := by
  induction h with
  | nil => rfl
  | cons _ _ ih => exact congrArg _ ih

theorem repeated?_eq_none {seen names : List String} :
    repeated? seen names = none ↔ names.Nodup ∧ ∀ name ∈ names, name ∉ seen := by
  induction names generalizing seen with
  | nil => simp [repeated?]
  | cons name names ih =>
    unfold repeated?
    split
    · rename_i hs
      simp [hs]
    · rename_i hs
      simp only [ih, List.nodup_cons, List.mem_cons, not_or, forall_eq_or_imp]
      constructor
      · rintro ⟨hn, hm⟩
        exact ⟨⟨fun h => (hm name h).1 rfl, hn⟩, hs, fun a ha => (hm a ha).2⟩
      · rintro ⟨⟨hn, hd⟩, -, hm⟩
        exact ⟨hd, fun a ha => ⟨fun e => hn (e ▸ ha), hm a ha⟩⟩

theorem checkHeader_eq_ok {line : Nat} {header : List String} :
    checkHeader line header = .ok () ↔ header.Nodup := by
  unfold checkHeader
  split
  · rename_i name h
    have := mt repeated?_eq_none.2 (by rw [h]; exact Option.some_ne_none _)
    simpa using this
  · rename_i h
    simpa using (repeated?_eq_none.1 h).1

theorem checkWidths_eq_ok {header : List String} {data : List (Nat × List String)} :
    checkWidths header data = .ok () ↔ ∀ row ∈ data, row.2.length = header.length := by
  unfold checkWidths
  split
  · rename_i row cells h
    have hrow := List.find?_some h
    have hmem := List.mem_of_find?_eq_some h
    constructor
    · intro e; cases e
    · intro e
      simp [e _ hmem] at hrow
  · rename_i h
    simpa using h

theorem rows_eq (l : Significant) (c : Cursor) (cells : List String) (h : RowLine l cells) :
    rows (.line l c) = ((l.line.number, cells) :: (c.span rowLine?).1, (c.span rowLine?).2) := by
  rw [rows, show _ = _ from h]

theorem rows_derives {c : Cursor} {line : Nat} {header : List String}
    {data : List (Nat × List String)} (h : (rows c).1 = (line, header) :: data) :
    ∃ l ls, c = prepend (l :: ls) (rows c).2 ∧ RowLine l header ∧
      List.Forall₂ (Directly RowLine) ls (data.map Prod.snd) := by
  cases c with
  | line l c =>
    cases hk : l.line.kind with
    | row cells =>
      rw [rows_eq l c cells hk] at h ⊢
      obtain ⟨e, rfl⟩ := List.cons.inj h
      obtain ⟨-, rfl⟩ := Prod.mk.inj e
      obtain ⟨ls, hls, hdata⟩ := eq_prepend_span rowLine? c
      refine ⟨l, ls, congrArg (Cursor.line l) hls, hk, ?_⟩
      exact List.forall₂_map_right_iff.2 (hdata.imp fun _ _ h => (rowLine?_eq_some.1 h).1)
    | _ => simp [rows, hk] at h
  | _ => cases h

/-- The rows of which a table is made. -/
theorem grid_eq_ok_iff {c rest : Cursor} {g : Grid} :
    grid c = .ok (g, rest) ↔ ∃ data next, rows c = ((g.line, g.header) :: data, rest) ∧
      rest.peek = .ok next ∧ g.cells = data.map Prod.snd ∧ data ≠ [] ∧ g.header.Nodup ∧
      ∀ row ∈ data, row.2.length = g.header.length := by
  constructor
  · intro h
    obtain ⟨next, hnext, h⟩ := bind_eq_ok.1 h
    dsimp only at h
    split at h
    · exact (throw_eq_ok.1 h).elim
    · rename_i line header data hrows
      split at h
      · obtain ⟨_, h', -⟩ := bind_eq_ok.1 h
        exact (throw_eq_ok.1 h').elim
      · rename_i hdata
        obtain ⟨_, hheader, h⟩ := bind_eq_ok.1 h
        obtain ⟨_, hwidths, h⟩ := bind_eq_ok.1 h
        obtain ⟨rfl, rfl⟩ := Prod.mk.inj (pure_eq_ok.1 h)
        exact ⟨data, next, Prod.ext hrows rfl, hnext, rfl, hdata, checkHeader_eq_ok.1 hheader,
          checkWidths_eq_ok.1 hwidths⟩
  · rintro ⟨data, next, hrows, hnext, hcells, hdata, hheader, hwidths⟩
    obtain ⟨line, header, cells⟩ := g
    obtain rfl : cells = data.map Prod.snd := hcells
    unfold grid
    rw [hrows]
    dsimp only
    rw [bind_ok hnext, if_neg hdata, bind_ok (checkHeader_eq_ok.2 hheader),
      bind_ok (checkWidths_eq_ok.2 hwidths), pure_ok]

theorem grid_derives {c rest : Cursor} {g : Grid} (h : grid c = .ok (g, rest)) :
    ∃ ls, c = prepend ls rest ∧ TableLines ls g.rows := by
  obtain ⟨data, next, hrows, -, hcells, hdata, hheader, hwidths⟩ := grid_eq_ok_iff.1 h
  obtain ⟨l, ls, hls, first, more⟩ := rows_derives (congrArg Prod.fst hrows)
  rw [hrows] at hls
  rw [← hcells] at more
  refine ⟨l :: ls, hls, .rows first more ?_ hheader ?_⟩
  · simpa [hcells] using hdata
  · intro cells hmem
    rw [hcells] at hmem
    obtain ⟨row, hrow, rfl⟩ := List.mem_map.1 hmem
    exact hwidths row hrow

theorem grid_prepend {ls : List Significant} {r : Rows} {rest : Cursor} (h : TableLines ls r)
    (hrest : rest.PartEnd) :
    ∃ g, grid (prepend ls rest) = .ok (g, rest) ∧ g.rows = r := by
  obtain ⟨next, hn, -, hs, -⟩ := hrest
  cases h with
  | @rows l ls header data first more nonempty distinct even =>
    have stop := span_eq_nil hn hs fun _ => rowLine?_eq_none
    have hcells : data = (numbered ls data).map Prod.snd := (numbered_snd more).symm
    refine ⟨⟨l.line.number, header, data⟩, ?_, rfl⟩
    refine grid_eq_ok_iff.2 ⟨numbered ls data, next, ?_, hn, hcells, ?_, distinct, ?_⟩
    · rw [prepend_cons, rows_eq l _ header first, span_prepend (rowLine?_numbered more) stop]
    · intro e
      exact nonempty (by rw [hcells, e]; rfl)
    · intro row hrow
      refine even _ ?_
      rw [hcells]
      exact List.mem_map_of_mem hrow

/-! ## Doc strings -/

theorem capturedLine?_eq_some {l : Significant} {s : String} :
    capturedLine? l = some s ↔ TextLine l s := by
  unfold capturedLine? TextLine
  split <;> simp_all

theorem capturedLine?_eq_none {l : Significant} (h : l.line.kind.shape ≠ .text) :
    capturedLine? l = none := by
  unfold capturedLine?
  split
  · rename_i s hk
    exact absurd (by rw [hk]; rfl) h
  · rfl

theorem take_line (l : Significant) (c : Cursor) : (Cursor.line l c).take = .ok (l, c) := rfl

theorem eq_line_of_take {c rest : Cursor} {l : Significant} (h : c.take = .ok (l, rest)) :
    c = .line l rest := by
  cases c with
  | line next c =>
    obtain ⟨rfl, rfl⟩ := Prod.mk.inj (Except.ok.inj h)
    rfl
  | _ => cases h

theorem docString_derives {l : Significant} {c rest : Cursor} {s : String}
    (h : docString (.line l c) = .ok (s, rest)) (hl : l.line.kind = .fence) :
    ∃ ls, c = prepend ls rest ∧ DocStringLines (l :: ls) s := by
  obtain ⟨⟨opening, d⟩, hd, h⟩ := bind_eq_ok.1 h
  obtain ⟨⟨closing, e⟩, he, h⟩ := bind_eq_ok.1 h
  obtain ⟨rfl, rfl⟩ := Prod.mk.inj (Except.ok.inj hd)
  dsimp only at h
  split at h
  · rename_i hk
    obtain ⟨rfl, rfl⟩ := Prod.mk.inj (pure_eq_ok.1 h)
    obtain ⟨ls, hls, hcaptured⟩ := eq_prepend_span capturedLine? c
    refine ⟨ls ++ [closing], ?_, .fenced hl ?_ hk⟩
    · rw [prepend_append, prepend_cons, prepend_nil, ← eq_line_of_take he]
      exact hls
    · exact hcaptured.imp fun _ _ => capturedLine?_eq_some.1
  · exact (throw_eq_ok.1 h).elim

theorem docString_prepend {ls : List Significant} {s : String} (rest : Cursor)
    (h : DocStringLines ls s) : docString (prepend ls rest) = .ok (s, rest) := by
  cases h with
  | @fenced opening closing ls ss first captured last =>
    have stop : (Cursor.line closing rest).span capturedLine? = ([], .line closing rest) :=
      span_eq_nil (s := .text) rfl (by rw [last]; exact fun e => by cases e)
        fun _ => capturedLine?_eq_none
    unfold docString
    rw [prepend_cons, bind_ok (take_line _ _), prepend_append, prepend_cons, prepend_nil]
    dsimp only
    rw [span_prepend (captured.imp fun _ _ => capturedLine?_eq_some.2) stop,
      bind_ok (take_line _ _)]
    dsimp only
    rw [last, pure_ok]

/-! ## Steps -/

theorem attaches_eq_true {p : Peek} :
    attaches p = true ↔ p.afterBlank = false ∧ (p.shape = .row ∨ p.shape = .fence) := by
  simp [attaches]

theorem not_attaches_of_partEnd {c : Cursor} (h : c.PartEnd) :
    ∃ next, c.peek = .ok next ∧ attaches next = false := by
  obtain ⟨next, hn, -, hr, hf⟩ := h
  exact ⟨next, hn, by simp [attaches, hr, hf]⟩

theorem attached_derives {c rest : Cursor} {first : Peek} {a : Argument}
    (hfirst : c.peek = .ok first) (hattached : attaches first = true)
    (h : attached first.shape c = .ok (a, rest)) :
    ∃ ls, c = prepend ls rest ∧ ArgumentLines ls (some a) := by
  obtain ⟨hdirect, hshape⟩ := attaches_eq_true.1 hattached
  unfold attached at h
  split at h
  · obtain ⟨⟨g, e⟩, he, h⟩ := bind_eq_ok.1 h
    obtain ⟨rfl, rfl⟩ := Prod.mk.inj (pure_eq_ok.1 h)
    obtain ⟨ls, rfl, htable⟩ := grid_derives he
    refine ⟨ls, rfl, ?_⟩
    cases ls with
    | nil => cases htable
    | cons l ls =>
      obtain rfl := Except.ok.inj hfirst
      exact .table hdirect htable
  · rename_i hrow
    obtain ⟨⟨s, e⟩, he, h⟩ := bind_eq_ok.1 h
    obtain ⟨rfl, rfl⟩ := Prod.mk.inj (pure_eq_ok.1 h)
    cases c with
    | line l c =>
      obtain rfl := Except.ok.inj hfirst
      have hl : l.line.kind = .fence := by
        have := hshape.resolve_left hrow
        revert this
        dsimp only
        cases l.line.kind <;> simp [Line.Kind.shape]
      obtain ⟨ls, rfl, hdoc⟩ := docString_derives he hl
      exact ⟨l :: ls, rfl, .docString hdirect hdoc⟩
    | _ => cases he

theorem argument_derives {c rest : Cursor} {a : Option Argument}
    (h : argument c = .ok (a, rest)) : ∃ ls, c = prepend ls rest ∧ ArgumentLines ls a := by
  obtain ⟨first, hfirst, h⟩ := bind_eq_ok.1 h
  split at h
  · rename_i hattached
    obtain ⟨⟨b, d⟩, hd, h⟩ := bind_eq_ok.1 h
    obtain ⟨next, -, h⟩ := bind_eq_ok.1 h
    split at h
    · obtain ⟨_, h', -⟩ := bind_eq_ok.1 h
      exact (throw_eq_ok.1 h').elim
    · obtain ⟨rfl, rfl⟩ := Prod.mk.inj (pure_eq_ok.1 h)
      exact attached_derives hfirst hattached hd
  · obtain ⟨rfl, rfl⟩ := Prod.mk.inj (pure_eq_ok.1 h)
    exact ⟨[], rfl, .absent⟩

theorem argument_prepend {ls : List Significant} {a : Option Argument} {rest : Cursor}
    (h : ArgumentLines ls a) (hrest : rest.PartEnd) :
    argument (prepend ls rest) = .ok (a, rest) := by
  obtain ⟨next, hn, hnext⟩ := not_attaches_of_partEnd hrest
  unfold argument
  cases h with
  | absent =>
    rw [prepend_nil, bind_ok hn, hnext]
    rfl
  | @table l ls r direct lines =>
    obtain ⟨g, hg, rfl⟩ := grid_prepend lines hrest
    have hrow : l.line.kind.shape = .row := by
      cases lines with
      | rows first => rw [show _ = _ from first]; rfl
    have hfirst : (prepend (l :: ls) rest).peek = .ok ⟨.row, l.line.number, false⟩ := by
      rw [prepend_cons, Cursor.peek, hrow, direct]
    have hattached : attached .row (prepend (l :: ls) rest) = .ok (.table g.table, rest) := by
      rw [attached, if_pos rfl, bind_ok hg]
      rfl
    rw [bind_ok hfirst, if_pos (attaches_eq_true.2 ⟨rfl, .inl rfl⟩), bind_ok hattached]
    dsimp only
    rw [bind_ok hn, hnext]
    rfl
  | @docString l ls s direct lines =>
    have hfence : l.line.kind.shape = .fence := by
      cases lines with
      | fenced first => rw [first]; rfl
    have hfirst : (prepend (l :: ls) rest).peek = .ok ⟨.fence, l.line.number, false⟩ := by
      rw [prepend_cons, Cursor.peek, hfence, direct]
    have hattached : attached .fence (prepend (l :: ls) rest) = .ok (.docString s, rest) := by
      rw [attached, if_neg (by simp), bind_ok (docString_prepend rest lines)]
      rfl
    rw [bind_ok hfirst, if_pos (attaches_eq_true.2 ⟨rfl, .inr rfl⟩), bind_ok hattached]
    dsimp only
    rw [bind_ok hn, hnext]
    rfl

theorem step_derives {c rest : Cursor} {s : Step} (h : step c = .ok (s, rest)) :
    ∃ ls, c = prepend ls rest ∧ StepLines ls s := by
  obtain ⟨⟨l, d⟩, hd, h⟩ := bind_eq_ok.1 h
  dsimp only at h
  split at h
  · rename_i keyword text hk
    obtain ⟨⟨a, e⟩, he, h⟩ := bind_eq_ok.1 h
    obtain ⟨rfl, rfl⟩ := Prod.mk.inj (pure_eq_ok.1 h)
    obtain ⟨ls, rfl, hargument⟩ := argument_derives he
    exact ⟨l :: ls, eq_line_of_take hd, .step hk hargument⟩
  · exact (throw_eq_ok.1 h).elim

theorem step_prepend {ls : List Significant} {s : Step} {rest : Cursor} (h : StepLines ls s)
    (hrest : rest.PartEnd) : step (prepend ls rest) = .ok (s, rest) := by
  cases h with
  | step first attached =>
    unfold step
    rw [prepend_cons, bind_ok (take_line _ _)]
    dsimp only
    rw [first]
    dsimp only
    rw [bind_ok (argument_prepend attached hrest), pure_ok]

theorem peek_stepLines {ls : List Significant} {s : Step} (h : StepLines ls s) (rest : Cursor) :
    ∃ next, (prepend ls rest).peek = .ok next ∧ next.shape = .step := by
  cases h with
  | step first => exact ⟨_, rfl, by rw [first]; rfl⟩

theorem partEnd_steps {ls : List Significant} {ss : List Step} {rest : Cursor}
    (h : Star StepLines ls ss) (hrest : rest.BodyEnd) : (prepend ls rest).PartEnd := by
  cases h with
  | nil => exact hrest.partEnd
  | cons first more =>
    rw [prepend_append]
    obtain ⟨next, hn, hs⟩ := peek_stepLines first (prepend _ rest)
    exact ⟨next, hn, by simp [hs]⟩

theorem steps_derives {c rest : Cursor} {ss : List Step} (h : steps c = .ok (ss, rest)) :
    ∃ ls, c = prepend ls rest ∧ Star StepLines ls ss := by
  induction hn : c.size using Nat.strongRecOn generalizing c ss with
  | _ n ih =>
    rw [steps] at h
    obtain ⟨next, -, h⟩ := bind_eq_ok.1 h
    split at h
    · split at h
      · exact (throw_eq_ok.1 h).elim
      · rename_i first d hd
        obtain ⟨⟨more, e⟩, he, h⟩ := bind_eq_ok.1 h
        obtain ⟨rfl, rfl⟩ := Prod.mk.inj (pure_eq_ok.1 h)
        obtain ⟨ls, rfl, hfirst⟩ := step_derives hd
        obtain ⟨ms, rfl, hmore⟩ := ih d.size (hn ▸ size_of_step hd) he rfl
        exact ⟨ls ++ ms, (prepend_append _ _ _).symm, .cons hfirst hmore⟩
    iterate 3 exact (throw_eq_ok.1 h).elim
    · obtain ⟨rfl, rfl⟩ := Prod.mk.inj (pure_eq_ok.1 h)
      exact ⟨[], rfl, .nil⟩

theorem steps_of_bodyEnd {c : Cursor} (h : c.BodyEnd) : steps c = .ok ([], c) := by
  obtain ⟨next, hn, ht, hr, hf, hs⟩ := h
  rw [steps, bind_ok hn]
  split <;> first | contradiction | rfl

theorem steps_eq_bind {c : Cursor} {next : Peek} (hn : c.peek = .ok next)
    (hs : next.shape = .step) :
    steps c = step c >>= fun r => steps r.2 >>= fun q => .ok (r.1 :: q.1, q.2) := by
  rw [steps, bind_ok hn, hs]
  dsimp only
  split
  · rename_i h
    rw [h]
    rfl
  · rename_i h
    rw [h]
    rfl

theorem steps_prepend {ls : List Significant} {ss : List Step} {rest : Cursor}
    (h : Star StepLines ls ss) (hrest : rest.BodyEnd) :
    steps (prepend ls rest) = .ok (ss, rest) := by
  induction h with
  | nil => exact steps_of_bodyEnd hrest
  | cons first more ih =>
    rw [prepend_append]
    obtain ⟨next, hn, hs⟩ := peek_stepLines first (prepend _ rest)
    rw [steps_eq_bind hn hs, bind_ok (step_prepend first (partEnd_steps more hrest)), bind_ok ih]

/-! ## Blocks -/

theorem block_derives {ts : List Tag} {name : String} {c rest : Cursor} {b : Block}
    (h : block ts name c = .ok (b, rest)) :
    ∃ ls description steps, c = prepend ls rest ∧ BodyLines ls description steps ∧
      b = ⟨name, description, ts, steps⟩ := by
  obtain ⟨⟨text, d⟩, hd, h⟩ := bind_eq_ok.1 h
  obtain ⟨⟨ss, e⟩, he, h⟩ := bind_eq_ok.1 h
  obtain ⟨rfl, rfl⟩ := Prod.mk.inj (pure_eq_ok.1 h)
  obtain ⟨ls, rfl, hdescription⟩ := description_derives hd
  obtain ⟨ms, rfl, hsteps⟩ := steps_derives he
  exact ⟨ls ++ ms, text, ss, (prepend_append _ _ _).symm, .body hdescription hsteps, rfl⟩

theorem block_prepend {ls : List Significant} {description : Option String} {steps : List Step}
    {rest : Cursor} (ts : List Tag) (name : String) (h : BodyLines ls description steps)
    (hrest : rest.BodyEnd) :
    block ts name (prepend ls rest) = .ok (⟨name, description, ts, steps⟩, rest) := by
  cases h with
  | body opening more =>
    unfold block
    rw [prepend_append, bind_ok (description_prepend opening (partEnd_steps more hrest))]
    dsimp only
    rw [bind_ok (steps_prepend more hrest), pure_ok]

/-! ## Examples -/

theorem examplesTable_derives {c rest : Cursor} {g : Grid}
    (h : examplesTable c = .ok (g, rest)) :
    ∃ ls, c = prepend ls rest ∧ ExamplesLines ls g.rows := by
  obtain ⟨⟨⟨line, name⟩, d⟩, hd, htable⟩ := bind_eq_ok.1 h
  obtain ⟨next, -, hgrid⟩ := bind_eq_ok.1 htable
  split at hgrid
  · obtain ⟨ls, rfl, hls⟩ := grid_derives hgrid
    obtain ⟨l, hl, hk, -⟩ := heading_eq_ok_iff.1 hd
    exact ⟨l :: ls, hl, .examples hk hls⟩
  · exact (throw_eq_ok.1 hgrid).elim

theorem examplesTable_prepend {ls : List Significant} {r : Rows} {rest : Cursor}
    (h : ExamplesLines ls r) (hrest : rest.PartEnd) :
    ∃ g, examplesTable (prepend ls rest) = .ok (g, rest) ∧ g.rows = r := by
  cases h with
  | @examples l ls name r first table =>
    obtain ⟨g, hg, rfl⟩ := grid_prepend table hrest
    refine ⟨g, ?_, rfl⟩
    have hrow : ∃ next, (prepend ls rest).peek = .ok next ∧ next.shape = .row := by
      cases table with
      | rows first => exact ⟨_, rfl, by rw [show _ = _ from first]; rfl⟩
    obtain ⟨next, hn, hs⟩ := hrow
    have hl : heading .examples (prepend (l :: ls) rest) =
        .ok ((l.line.number, name), prepend ls rest) :=
      heading_eq_ok_iff.2 ⟨l, rfl, first, rfl⟩
    unfold examplesTable
    rw [bind_ok hl]
    dsimp only
    rw [bind_ok hn, if_pos hs, hg]

theorem checkSameHeader_eq_ok {first : Option (List String)} {g : Grid} :
    checkSameHeader first g = .ok () ↔ ∀ header ∈ first, g.header = header := by
  unfold checkSameHeader
  split
  · simp
  · split <;> simp_all [eq_comm]

theorem examplesAhead?_eq_none {c : Cursor} (h : c.Boundary) : examplesAhead? c = .ok none := by
  have hafter := h.headingAfterTags
  have hnext : ∃ next, c.peek = .ok next ∧ next.shape ≠ .heading .examples := by
    cases h with
    | ended n => exact ⟨_, rfl, by simp⟩
    | heading first other => exact ⟨_, rfl, by simpa [first, Line.Kind.shape] using other⟩
    | tags first => exact ⟨_, rfl, by simp [show _ = _ from first, Line.Kind.shape]⟩
  obtain ⟨next, hn, hs⟩ := hnext
  unfold examplesAhead?
  rw [bind_ok hn, if_neg (fun e => hafter e.2), if_neg hs]
  rfl

theorem examplesAhead?_examples {ls : List Significant} {r : Rows} (h : ExamplesLines ls r)
    (rest : Cursor) : ∃ n, examplesAhead? (prepend ls rest) = .ok (some n) := by
  cases h with
  | @examples l ls name r first table =>
    have hn : (prepend (l :: ls) rest).peek =
        .ok ⟨.heading .examples, l.line.number, l.afterBlank⟩ := by
      rw [prepend_cons, Cursor.peek, first]; rfl
    refine ⟨l.line.number, ?_⟩
    unfold examplesAhead?
    rw [bind_ok hn, if_neg (by simp), if_pos rfl]
    rfl

theorem examplesTables_derives {first : Option (List String)} {c rest : Cursor} {gs : List Grid}
    (h : examplesTables first c = .ok (gs, rest)) :
    ∃ ls header, c = prepend ls rest ∧ Star ExamplesLines ls (gs.map Grid.rows) ∧
      (∀ k ∈ first, k = header) ∧ ∀ g ∈ gs, g.header = header := by
  induction hn : c.size using Nat.strongRecOn generalizing c first gs with
  | _ n ih =>
    rw [examplesTables] at h
    obtain ⟨ahead, -, h⟩ := bind_eq_ok.1 h
    split at h
    · obtain ⟨rfl, rfl⟩ := Prod.mk.inj (pure_eq_ok.1 h)
      exact ⟨[], first.getD [], rfl, .nil, by simp +contextual, by simp⟩
    · split at h
      · exact (throw_eq_ok.1 h).elim
      · rename_i g d hd
        obtain ⟨_, hsame, h⟩ := bind_eq_ok.1 h
        obtain ⟨⟨more, e⟩, he, h⟩ := bind_eq_ok.1 h
        obtain ⟨rfl, rfl⟩ := Prod.mk.inj (pure_eq_ok.1 h)
        obtain ⟨ls, rfl, hfirst⟩ := examplesTable_derives hd
        obtain ⟨ms, header, rfl, hmore, hheader, hothers⟩ :=
          ih d.size (hn ▸ size_of_examplesTable hd) he rfl
        have hg : g.header = first.getD g.header := by
          cases first with
          | none => rfl
          | some k => exact checkSameHeader_eq_ok.1 hsame k rfl
        have hkey : first.getD g.header = header := hheader _ rfl
        refine ⟨ls ++ ms, header, (prepend_append _ _ _).symm, .cons hfirst hmore, ?_, ?_⟩
        · rintro k rfl
          exact hkey
        · rintro f hf
          rcases List.mem_cons.1 hf with rfl | hf
          · exact hg.trans hkey
          · exact hothers f hf

theorem partEnd_examples {ls : List Significant} {rs : List Rows} {rest : Cursor}
    (h : Star ExamplesLines ls rs) (hrest : rest.BodyEnd) : (prepend ls rest).BodyEnd := by
  cases h with
  | nil => exact hrest
  | cons first more =>
    cases first with
    | examples first => exact ⟨_, rfl, by simp [first, Line.Kind.shape]⟩

theorem examplesTables_eq_bind {first : Option (List String)} {c : Cursor} {n : Nat}
    (ahead : examplesAhead? c = .ok (some n)) :
    examplesTables first c = examplesTable c >>= fun r => checkSameHeader first r.1 >>= fun _ =>
      examplesTables (some (first.getD r.1.header)) r.2 >>= fun q => .ok (r.1 :: q.1, q.2) := by
  rw [examplesTables, bind_ok ahead]
  dsimp only
  split
  · rename_i h
    rw [h]
    rfl
  · rename_i h
    rw [h]
    rfl

theorem examplesTables_prepend (first : Option (List String)) {ls : List Significant}
    {rs : List Rows} {rest : Cursor} {header : List String} (h : Star ExamplesLines ls rs)
    (hfirst : ∀ k ∈ first, k = header) (same : ∀ r ∈ rs, r.header = header)
    (hrest : rest.Boundary) :
    ∃ gs, examplesTables first (prepend ls rest) = .ok (gs, rest) ∧ gs.map Grid.rows = rs := by
  induction h generalizing first with
  | nil =>
    refine ⟨[], ?_, rfl⟩
    rw [prepend_nil, examplesTables, bind_ok (examplesAhead?_eq_none hrest)]
    rfl
  | @cons ls ms r rs one more ih =>
    rw [prepend_append]
    obtain ⟨n, hn⟩ := examplesAhead?_examples one (prepend ms rest)
    obtain ⟨g, hg, rfl⟩ :=
      examplesTable_prepend one (partEnd_examples more hrest.bodyEnd).partEnd
    have hheader : g.header = header := same _ List.mem_cons_self
    have hsome : ∀ k ∈ some (first.getD g.header), k = header := by
      intro k hk
      obtain rfl := Option.some.inj hk
      cases first with
      | none => exact hheader
      | some k => exact hfirst k rfl
    obtain ⟨gs, hgs, rfl⟩ := ih _ hsome fun r hr => same r (List.mem_cons_of_mem _ hr)
    have hcheck : checkSameHeader first g = .ok () := by
      refine checkSameHeader_eq_ok.2 fun k hk => ?_
      rw [hheader, hfirst k hk]
    refine ⟨g :: gs, ?_, rfl⟩
    rw [examplesTables_eq_bind hn, bind_ok hg, bind_ok hcheck, bind_ok hgs]

end Gherkin.Parse
