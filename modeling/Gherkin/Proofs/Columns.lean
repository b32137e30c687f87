import Gherkin.Proofs.Parts
import Gherkin.Proofs.Scans
import Mathlib.Data.List.GetD

/-
  The order of columns carries no meaning. The rows of a step's table, or those of all examples
  tables of an outline, may be written with their columns in another order (`Rearranges`): the
  document is accepted, each row binds the same names to the same texts, and so the examples of the
  outline expand to the same steps and a column of the table has the same cells
  (`columns_rearranged`). The rows to be written anew are the rows at one site, which no other row
  of the document shares. A header has no name twice, so a row is found by name wherever its
  columns stand (`get?_rearrange`).
-/

namespace Gherkin

/-! ## Rows with their columns rearranged -/

/-- The cells of these columns, in their order. -/
def Row.rearrange (cols : List Nat) (cells : List String) : List String :=
  cols.map fun i => cells.getD i ""

section Rearrange

open Row

variable {cols : List Nat} {header row : List String}

theorem map_getD_range (cells : List String) :
    (List.range cells.length).map (fun i => cells.getD i "") = cells := by
  refine List.ext_getElem (by simp) fun i _ hi => ?_
  rw [List.getElem_map, List.getElem_range]
  exact List.getD_eq_getElem _ _ hi

theorem rearrange_perm (h : cols.Perm (List.range header.length)) :
    (rearrange cols header).Perm header := by
  have hall := h.map fun i => header.getD i ""
  rwa [map_getD_range] at hall

theorem zip_rearrange_perm (h : cols.Perm (List.range header.length))
    (even : row.length = header.length) :
    ((rearrange cols header).zip (rearrange cols row)).Perm (header.zip row) := by
  have hall := h.map fun i => (header.getD i "", row.getD i "")
  rw [← List.zip_map', ← List.zip_map', map_getD_range, ← even, map_getD_range] at hall
  exact hall

/-- Bindings are told apart by their entries, in whatever order these stand. -/
theorem Bindings.get?_of_perm {b c : Bindings} (h : b.entries.Perm c.entries) (name : String) :
    b.get? name = c.get? name := by
  have hmem (d : Bindings) (v : String) : d.get? name = some v ↔ (name, v) ∈ d.entries := by
    refine ⟨fun hd => ?_, lookup_of_mem d.nodup⟩
    obtain ⟨before, after, hentries, -⟩ := List.lookup_eq_some_iff.1 hd
    exact hentries ▸ List.mem_append_cons_self
  refine Option.ext fun v => ?_
  rw [hmem, hmem, h.mem_iff]

/-- A row binds the same texts when its columns are rearranged with those of the header. -/
theorem get?_rearrange (h : cols.Perm (List.range header.length)) (distinct : header.Nodup)
    (even : row.length = header.length) (name : String) :
    (Bindings.ofList ((rearrange cols header).zip (rearrange cols row))).get? name =
      (Bindings.ofList (header.zip row)).get? name := by
  have hwidth : (rearrange cols row).length = (rearrange cols header).length := by
    simp [rearrange]
  refine Bindings.get?_of_perm ?_ name
  rw [Bindings.entries_ofList_zip ((rearrange_perm h).nodup_iff.2 distinct) hwidth,
    Bindings.entries_ofList_zip distinct even]
  exact zip_rearrange_perm h even

/-- What is substituted hangs on the texts that names are bound to. -/
theorem Placeholder.substitute_congr {b c : Bindings} (h : ∀ name, b.get? name = c.get? name)
    (text : String) : substitute text b = substitute text c := by
  have hvalue : value b = value c := by
    funext name
    rw [value, value, h]
  rw [substitute, substitute, hvalue]

theorem Outline.expand_congr {b c : Bindings} (h : ∀ name, b.get? name = c.get? name)
    (o : Outline) : o.expand b = o.expand c := by
  refine List.map_congr_left fun step _ => ?_
  rw [Step.substitute, Step.substitute, Placeholder.substitute_congr h]

end Rearrange

end Gherkin

namespace Gherkin.Grammar

open Line Row

/-! ## Lines with the rows at one site rearranged -/

section Turn

variable (cols : List Nat) (here : Site)

/-- The kind of a line at a site when the rows at one site have their columns rearranged. -/
def turn (p : Site) : Kind → Kind
  | .row cells => .row (if p = here then rearrange cols cells else cells)
  | k => k

/-- The kinds of lines from a site on, with the rows at one site rearranged. -/
def turns : Site → List Kind → List Kind
  | _, [] => []
  | p, k :: ks => turn cols here p k :: turns (p.next k) ks

/-- Significant lines from a site on, with the rows at one site rearranged. -/
def turnLines : Site → List Significant → List Significant
  | _, [] => []
  | p, l :: ls =>
    ⟨⟨l.line.number, turn cols here p l.line.kind⟩, l.afterBlank⟩ ::
      turnLines (p.next l.line.kind) ls

theorem letters_turns (p : Site) (blank : Bool) (ks : List Kind) :
    letters blank (turns cols here p ks) = turnLines cols here p (letters blank ks) := by
  induction ks generalizing p blank with
  | nil => rfl
  | cons k ks ih =>
    cases k with
    | blank => exact ih p true
    | comment => exact ih p blank
    | _ => exact congrArg (_ :: ·) (ih _ false)

variable {cols here} {p q : Site} {ls ms : List Significant}

theorem turnLines_append (p : Site) (ls ms : List Significant) :
    turnLines cols here p (ls ++ ms) =
      turnLines cols here p ls ++ turnLines cols here (p.after (kinds ls)) ms := by
  induction ls generalizing p with
  | nil => rfl
  | cons l ls ih => exact congrArg (_ :: ·) (ih _)

/-- Lines whose rows stand elsewhere are left as they are. -/
theorem turnLines_of_walks (h : Walks (· ≠ here) p ls q) : turnLines cols here p ls = ls := by
  induction h with
  | nil => rfl
  | @cons p q l ls row _ ih =>
    have hk : turn cols here p l.line.kind = l.line.kind := by
      cases hl : l.line.kind with
      | row cells => rw [turn, if_neg (row cells hl)]
      | _ => rfl
    rw [turnLines, ih, hk]

/-- A table with its columns in another order. -/
def Rows.rearrange (cols : List Nat) (r : Rows) : Rows :=
  ⟨Row.rearrange cols r.header, r.data.map (Row.rearrange cols)⟩

theorem turnLines_rows {rows : List (List String)} (h : List.Forall₂ (Directly RowLine) ls rows) :
    List.Forall₂ (Directly RowLine) (turnLines cols here here ls)
      (rows.map (Row.rearrange cols)) := by
  induction h with
  | nil => exact .nil
  | @cons l cells ls rows hl _ ih =>
    obtain ⟨hrow, hdirect⟩ := hl
    have hk : l.line.kind = .row cells := hrow
    rw [turnLines, hk]
    refine .cons ⟨?_, hdirect⟩ ih
    show turn cols here here (.row cells) = _
    rw [turn, if_pos rfl]

theorem TableLines.turn {r : Rows} (h : TableLines ls r)
    (hcols : cols.Perm (List.range r.header.length)) :
    TableLines (turnLines cols here here ls) (r.rearrange cols) := by
  obtain @⟨l, ls, header, data, first, more, nonempty, distinct, even⟩ := h
  have hk : l.line.kind = .row header := first
  rw [turnLines, hk]
  refine .rows ?_ (turnLines_rows more) (by simpa using nonempty)
    ((rearrange_perm hcols).nodup_iff.2 distinct) ?_
  · show Grammar.turn cols here here (.row header) = _
    rw [Grammar.turn, if_pos rfl]
  · intro row hrow
    obtain ⟨cells, -, rfl⟩ := List.mem_map.1 hrow
    simp [Row.rearrange]

theorem ExamplesLines.turn {r : Rows} (h : ExamplesLines ls r)
    (hp : { p with examples := true } = here) (hcols : cols.Perm (List.range r.header.length)) :
    ExamplesLines (turnLines cols here p ls) (r.rearrange cols) ∧ p.after (kinds ls) = here := by
  obtain @⟨l, ls, name, r, first, table⟩ := h
  have hnext : p.next l.line.kind = here := by
    rw [first]
    exact hp
  refine ⟨?_, ?_⟩
  · rw [turnLines, hnext]
    exact .examples (by rw [first]; rfl) (table.turn hcols)
  · rw [kinds_cons, Site.after_cons, hnext]
    exact (walks_table table here).after

theorem Star.turn {tables : List Rows} (h : Star ExamplesLines ls tables)
    (hp : { p with examples := true } = here)
    (hcols : ∀ r ∈ tables, cols.Perm (List.range r.header.length)) :
    Star ExamplesLines (turnLines cols here p ls) (tables.map (Rows.rearrange cols)) := by
  induction h generalizing p with
  | nil => exact .nil
  | cons first _ ih =>
    obtain ⟨hr, hrest⟩ := List.forall_mem_cons.1 hcols
    obtain ⟨hfirst, hafter⟩ := first.turn hp hr
    rw [turnLines_append, hafter]
    exact .cons hfirst (ih (by rw [← hp]) hrest)

theorem ExamplesBlock.turn {tables : List Rows} (h : ExamplesBlock ls tables)
    (hp : { p with examples := true } = here)
    (hcols : ∀ r ∈ tables, cols.Perm (List.range r.header.length)) :
    ExamplesBlock (turnLines cols here p ls) (tables.map (Rows.rearrange cols)) := by
  obtain ⟨lines, nonempty, header, same⟩ := h
  refine ⟨lines.turn hp hcols, by simpa using nonempty, Row.rearrange cols header, fun r hr => ?_⟩
  obtain ⟨r, hmem, rfl⟩ := List.mem_map.1 hr
  rw [Rows.rearrange, same r hmem]

/-- What the lines of a table make sure of. -/
structure Rows.Regular (r : Rows) : Prop where
  nonempty : r.data ≠ []
  distinct : r.header.Nodup
  even : ∀ row ∈ r.data, row.length = r.header.length

theorem TableLines.regular {r : Rows} (h : TableLines ls r) : r.Regular := by
  obtain ⟨-, -, nonempty, distinct, even⟩ := h
  exact ⟨nonempty, distinct, even⟩

/-- A step with a table. -/
theorem StepLines.turn {s : Step} {t : Table} (h : StepLines ls s)
    (ht : s.argument = some (.table t)) (hp : { p with steps := p.steps + 1 } = here) :
    ∃ r : Rows, r.table = t ∧ r.Regular ∧
      (cols.Perm (List.range r.header.length) → StepLines (turnLines cols here p ls)
        { s with argument := some (.table (r.rearrange cols).table) }) := by
  obtain @⟨l, ls, keyword, text, argument, first, attached⟩ := h
  obtain rfl : argument = _ := ht
  have hnext : p.next l.line.kind = here := by
    rw [first]
    exact hp
  cases attached with
  | @table m ls r direct lines =>
    refine ⟨r, rfl, lines.regular, fun hcols => ?_⟩
    rw [turnLines, hnext]
    exact .step (by rw [first]; rfl) (.table direct (lines.turn hcols))

end Turn

/-! ## What the rows bind -/

/-- The bindings have the same texts under the same names, and their names are rearranged. -/
structure Rearranged (cols : List Nat) (b c : Bindings) : Prop where
  keys : c.keys = rearrange cols b.keys
  get? : ∀ name, c.get? name = b.get? name

section Rows

variable {cols : List Nat}

theorem Rows.Regular.rearranged {r : Rows} (h : r.Regular)
    (hcols : cols.Perm (List.range r.header.length)) :
    List.Forall₂ (Rearranged cols) r.table.rows (r.rearrange cols).table.rows := by
  rw [Rows.table, Rows.table, Table.ofCells, Table.ofCells, Rows.rearrange, List.map_map,
    List.forall₂_map_left_iff, List.forall₂_map_right_iff, List.forall₂_same]
  intro row hrow
  have heven := h.even row hrow
  refine ⟨?_, get?_rearrange hcols h.distinct heven⟩
  rw [Bindings.keys_ofList_zip h.distinct heven]
  exact Bindings.keys_ofList_zip ((rearrange_perm hcols).nodup_iff.2 h.distinct)
    (by simp [Row.rearrange])

theorem rearranged_flatMap {tables : List Rows} (h : ∀ r ∈ tables, r.Regular)
    (hcols : ∀ r ∈ tables, cols.Perm (List.range r.header.length)) :
    List.Forall₂ (Rearranged cols) (tables.flatMap fun r => r.table.rows)
      ((tables.map (Rows.rearrange cols)).flatMap fun r => r.table.rows) := by
  induction tables with
  | nil => exact .nil
  | cons r tables ih =>
    obtain ⟨hr, hrest⟩ := List.forall_mem_cons.1 h
    obtain ⟨hrcols, hcols⟩ := List.forall_mem_cons.1 hcols
    exact List.rel_append (hr.rearranged hrcols) (ih hrest hcols)

/-- The names that a row binds are the columns of its table. -/
theorem Rows.Regular.exists_row {r : Rows} (h : r.Regular) :
    ∃ row ∈ r.table.rows, row.keys = r.header := by
  obtain ⟨cells, data, hdata⟩ := List.exists_cons_of_ne_nil h.nonempty
  have hmem : cells ∈ r.data := hdata ▸ List.mem_cons_self
  exact ⟨_, List.mem_map_of_mem hmem, Bindings.keys_ofList_zip h.distinct (h.even cells hmem)⟩

theorem column_rearranged {rows rows' : List Bindings}
    (h : List.Forall₂ (Rearranged cols) rows rows') (header header' : List String) (name : String) :
    Table.column ⟨header', rows'⟩ name = Table.column ⟨header, rows⟩ name := by
  unfold Table.column
  induction h with
  | nil => rfl
  | cons hrow _ ih =>
    simp only [List.filterMap_cons, hrow.get?] at ih ⊢
    rw [ih]

end Rows

/-! ## Documents -/

section Document

variable {cols : List Nat} {f : Feature} {k i : Nat} {ls : List Significant}

/-- The examples of an outline in a document. -/
theorem DocumentLines.turn_examples {o : Outline} (h : DocumentLines ls f)
    (ho : f.scenarios[k]? = some (.outline o))
    (hcols : ∀ row ∈ o.examples, cols.Perm (List.range row.keys.length)) :
    ∃ examples, List.Forall₂ (Rearranged cols) o.examples examples ∧
      DocumentLines (turnLines cols ⟨k + 1, o.steps.length, true⟩ Site.start ls)
        (f.setExamples k o examples) := by
  obtain ⟨before, own, behind, tables, rfl, hpart⟩ := h.exists_outline ho
  have hblock := hpart.part.derives
  have hregular : ∀ r ∈ tables, r.Regular := hblock.lines.forall fun first => by
    obtain ⟨-, table⟩ := first
    exact table.regular
  have htables : ∀ r ∈ tables, cols.Perm (List.range r.header.length) := by
    intro r hr
    obtain ⟨row, hrow, hkeys⟩ := (hregular r hr).exists_row
    rw [← hkeys]
    exact hcols row (hpart.rows ▸ List.mem_flatMap.2 ⟨r, hr, hrow⟩)
  refine ⟨_, hpart.rows ▸ rearranged_flatMap hregular htables, ?_⟩
  obtain ⟨q, hq, hown⟩ := walks_examples hblock.lines ⟨k + 1, o.steps.length, false⟩
  obtain ⟨ss, hss⟩ := hpart.below
  obtain ⟨_, -, hbehind⟩ := walks_scenarios hss q
  have hbelow := hbehind.mono (T := (· ≠ ⟨k + 1, o.steps.length, true⟩)) fun r hr he => by
    rw [he, hq] at hr
    exact Nat.lt_irrefl _ hr.1
  rw [turnLines_append, turnLines_append, turnLines_of_walks hpart.above, hpart.above.after,
    hown.after, turnLines_of_walks hbelow]
  exact hpart.part.fits (hblock.turn rfl htables)

/-- The table of a step in a document. -/
theorem DocumentLines.turn_step {s : Step} {t : Table} (h : DocumentLines ls f)
    (hs : f.step? k i = some s) (ht : s.argument = some (.table t))
    (hcols : cols.Perm (List.range t.header.length)) :
    ∃ t' : Table, t'.header = rearrange cols t.header ∧
      List.Forall₂ (Rearranged cols) t.rows t'.rows ∧
      DocumentLines (turnLines cols ⟨k, i + 1, false⟩ Site.start ls)
        (f.setStep k i { s with argument := some (.table t') }) := by
  obtain ⟨before, own, behind, rfl, hpart⟩ := h.exists_step hs
  obtain ⟨r, rfl, hregular, hturn⟩ := hpart.part.derives.turn (p := ⟨k, i, false⟩) ht rfl
  obtain ⟨q, hbelow⟩ := hpart.below
  refine ⟨(r.rearrange cols).table, rfl, hregular.rearranged hcols, ?_⟩
  rw [turnLines_append, turnLines_append, turnLines_of_walks hpart.above, hpart.above.after,
    (walks_step hpart.part.derives _).after, turnLines_of_walks hbelow]
  exact hpart.part.fits (hturn hcols)

end Document

end Gherkin.Grammar

namespace Gherkin

open Line Grammar Reader Row

/-! ## Texts -/

/-- From a site on, lines of these kinds are written anew where they are rows at the site `here`,
with their columns rearranged, and are left as they are where they are not. -/
inductive Rewrites (cols : List Nat) (here : Site) :
    Site → List Kind → List (List Char) → List (List Char) → Prop
  | nil (p : Site) : Rewrites cols here p [] [] []
  | row {cells : List String} {ks : List Kind} {raw raw' : List Char}
    {raws raws' : List (List Char)}
    (content : Kind.ofContent (Text.trim raw') = .ok (.row (rearrange cols cells)))
    (rest : Rewrites cols here here ks raws raws') :
    Rewrites cols here here (.row cells :: ks) (raw :: raws) (raw' :: raws')
  | other {p : Site} {k : Kind} {ks : List Kind} {raw : List Char} {raws raws' : List (List Char)}
    (elsewhere : p = here → ∀ cells, k ≠ .row cells)
    (rest : Rewrites cols here (p.next k) ks raws raws') :
    Rewrites cols here p (k :: ks) (raw :: raws) (raw :: raws')

/-- A text with the columns of the rows at one site rearranged. -/
def Rearranges (cols : List Nat) (here : Site) (t u : String) : Prop :=
  ∃ ls, Reads t ls ∧
    Rewrites cols here Site.start (ls.map Line.kind) (Text.lines t.toList) (Text.lines u.toList)

theorem Rewrites.scans {cols : List Nat} {here p : Site} {ks : List Kind}
    {raws raws' : List (List Char)} {f g : Option Nat} (h : Rewrites cols here p ks raws raws')
    (hscans : Scans f raws ks g) : Scans f raws' (turns cols here p ks) g := by
  induction h generalizing f with
  | nil => exact hscans
  | row content _ ih =>
    obtain _ | ⟨line, rest⟩ := hscans
    cases line with
    | plain other _ =>
      refine .cons (.plain (fun hmark => ?_) ?_) (ih rest)
      · rw [hmark] at content
        cases content
      · rw [turn, if_pos rfl]
        exact content
  | @other p k ks raw raws raws' elsewhere _ ih =>
    obtain _ | ⟨line, rest⟩ := hscans
    have hk : turn cols here p k = k := by
      cases k with
      | row cells => rw [turn, if_neg fun hp => elsewhere hp cells rfl]
      | _ => rfl
    rw [turns, hk]
    exact .cons line (ih rest)

/-- The significant lines of a text with rearranged columns are those of the text, rearranged. -/
theorem Rearranges.exists_lines {cols : List Nat} {here : Site} {t u : String} {f : Feature}
    (h : Rearranges cols here t u) (ht : Feature.ofText t = .ok f) :
    ∃ ls, DocumentLines ls f ∧ ∀ f', DocumentLines (turnLines cols here Site.start ls) f' →
      Feature.ofText u = .ok f' := by
  obtain ⟨ls, hls, hrewrites⟩ := h
  obtain ⟨ks, hks, hdocument⟩ := Feature.ofText_eq_ok_iff_scans.1 ht
  obtain ⟨rfl, -⟩ := hks.unique hls.scans
  refine ⟨_, hdocument, fun f' hf' => ?_⟩
  rw [← letters_turns] at hf'
  exact Feature.ofText_eq_ok_iff_scans.2 ⟨_, hrewrites.scans hls.scans, hf'⟩

/-- Rows can be written with their columns rearranged. -/
theorem exists_rewrites {cols : List Nat} (hne : cols ≠ []) (here p : Site) {ks : List Kind}
    {raws : List (List Char)} {f g : Option Nat} (h : Scans f raws ks g)
    (hraws : ∀ raw ∈ raws, '\n' ∉ raw) :
    ∃ raws', Rewrites cols here p ks raws raws' ∧ ∀ raw ∈ raws', '\n' ∉ raw := by
  induction h generalizing p with
  | nil => exact ⟨[], .nil p, nofun⟩
  | @cons f g h raw k raws ks line _ ih =>
    obtain ⟨hraw, hrest⟩ := List.forall_mem_cons.1 hraws
    obtain ⟨raws', hrewrites, hraws'⟩ := ih (p.next k) hrest
    by_cases hrow : p = here ∧ ∃ cells, k = .row cells
    · obtain ⟨rfl, cells, rfl⟩ := hrow
      cases line with
      | plain other content =>
        have hn : '\n' ∉ Text.trim raw := fun hc => hraw (Text.mem_of_mem_trim hc)
        obtain ⟨-, htrimmed⟩ := wellFormed_ofContent (Text.trim_trim raw) hn content
        refine ⟨(Kind.row (rearrange cols cells)).spell :: raws',
          .row (ofContent_row ?_ ?_) hrewrites,
          List.forall_mem_cons.2 ⟨newline_not_mem_row _, hraws'⟩⟩
        · simpa [rearrange] using hne
        · intro cell hcell
          obtain ⟨i, -, rfl⟩ := List.mem_map.1 hcell
          rw [List.getD_eq_getElem?_getD]
          cases hi : cells[i]? with
          | none => rfl
          | some cell => exact htrimmed cell (List.mem_of_getElem? hi)
    · refine ⟨raw :: raws', .other (fun hp cells hk => hrow ⟨hp, cells, hk⟩) hrewrites,
        List.forall_mem_cons.2 ⟨hraw, hraws'⟩⟩

theorem exists_rearranges {cols : List Nat} (hne : cols ≠ []) (here : Site) {t : String}
    {ls : List Line} (h : Reads t ls) : ∃ u, Rearranges cols here t u := by
  obtain ⟨raws, hrewrites, hraws⟩ := exists_rewrites hne here Site.start h.scans
    fun _ hraw => Text.newline_not_mem_lines hraw
  refine ⟨String.ofList (Text.unlines raws), ls, h, ?_⟩
  rwa [String.toList_ofList, Text.lines_unlines hraws]

/-- The order of columns carries no meaning. The columns of the rows at any site can be rearranged.
Where these are the rows of an outline's examples, the text is the feature with other examples for
this outline: each binds the same names to the same texts and expands to the same steps as before.
Where they are the rows of a step's table, it is the feature with another table for this step: each
name has the same column as before. -/
theorem columns_rearranged {t : String} {f : Feature} (h : Feature.ofText t = .ok f) :
    (∀ (cols : List Nat) (here : Site), cols ≠ [] → ∃ u, Rearranges cols here t u) ∧
    (∀ (k : Nat) (o : Outline) (cols : List Nat) (u : String),
      f.scenarios[k]? = some (.outline o) →
      (∀ row ∈ o.examples, cols.Perm (List.range row.keys.length)) →
      Rearranges cols ⟨k + 1, o.steps.length, true⟩ t u →
      ∃ examples, Feature.ofText u = .ok (f.setExamples k o examples) ∧
        List.Forall₂ (fun p q => Rearranged cols p.1 q.1 ∧ q.2 = p.2)
          o.expansions ({ o with examples := examples } : Outline).expansions) ∧
    ∀ (k i : Nat) (s : Step) (table : Table) (cols : List Nat) (u : String),
      f.step? k i = some s → s.argument = some (.table table) →
      cols.Perm (List.range table.header.length) →
      Rearranges cols ⟨k, i + 1, false⟩ t u →
      ∃ table' : Table,
        Feature.ofText u = .ok (f.setStep k i { s with argument := some (.table table') }) ∧
        table'.header = rearrange cols table.header ∧
        ∀ name, table'.column name = table.column name := by
  obtain ⟨ls, hls, hdocument⟩ := Feature.ofText_eq_ok_iff.1 h
  refine ⟨fun cols here hne => exists_rearranges hne here hls, ?_, ?_⟩
  · intro k o cols u ho hcols hu
    obtain ⟨ls, hlines, hturned⟩ := hu.exists_lines h
    obtain ⟨examples, hexamples, hexamplesLines⟩ := hlines.turn_examples ho hcols
    refine ⟨examples, hturned _ hexamplesLines, ?_⟩
    rw [Outline.expansions, Outline.expansions, List.forall₂_map_left_iff,
      List.forall₂_map_right_iff]
    exact hexamples.imp fun b c hrow => ⟨hrow, Outline.expand_congr hrow.get? o⟩
  · intro k i s table cols u hs ht hcols hu
    obtain ⟨ls, hlines, hturned⟩ := hu.exists_lines h
    obtain ⟨table', hheader, hrows, htableLines⟩ := hlines.turn_step hs ht hcols
    exact ⟨table', hturned _ htableLines, hheader, column_rearranged hrows _ _⟩

/-- The columns of an outline's examples are exchanged, then those of its step's table. -/
theorem columns_rearranged_exchanged :
    ∃ f o s table, Feature.ofText
        "Feature: F\nScenario Outline: O\nGiven <b>\n|x|y|\n|1|2|\nExamples:\n|a|b|\n|3|4|" =
        .ok f ∧
      f.scenarios[0]? = some (.outline o) ∧ f.step? 1 0 = some s ∧
      s.argument = some (.table table) ∧
      (∃ examples, Feature.ofText ("Feature: F\nScenario Outline: O\nGiven <b>\n|x|y|\n|1|2|\n" ++
          "Examples:\n|b|a|\n|4|3|") = .ok (f.setExamples 0 o examples) ∧
        List.Forall₂ (fun p q => Rearranged [1, 0] p.1 q.1 ∧ q.2 = p.2)
          o.expansions ({ o with examples := examples } : Outline).expansions) ∧
      ∃ table' : Table, Feature.ofText ("Feature: F\nScenario Outline: O\nGiven <b>\n" ++
          "|y|x|\n|2|1|\nExamples:\n|a|b|\n|3|4|") =
          .ok (f.setStep 1 0 { s with argument := some (.table table') }) ∧
        table'.header = ["y", "x"] ∧ ∀ name, table'.column name = table.column name := by
  have hf : Feature.ofText
      "Feature: F\nScenario Outline: O\nGiven <b>\n|x|y|\n|1|2|\nExamples:\n|a|b|\n|3|4|" =
      .ok ⟨"F", none, [], none, [.outline ⟨⟨"O", none, [],
        [⟨.given, "<b>", some (.table (Table.ofCells ["x", "y"] [["1", "2"]]))⟩]⟩,
        (Table.ofCells ["a", "b"] [["3", "4"]]).rows⟩]⟩ := by
    decide +kernel
  have hreads : Reads
      "Feature: F\nScenario Outline: O\nGiven <b>\n|x|y|\n|1|2|\nExamples:\n|a|b|\n|3|4|"
      [⟨1, .heading .feature "F"⟩, ⟨2, .heading .scenarioOutline "O"⟩, ⟨3, .step .given "<b>"⟩,
        ⟨4, .row ["x", "y"]⟩, ⟨5, .row ["1", "2"]⟩, ⟨6, .heading .examples ""⟩,
        ⟨7, .row ["a", "b"]⟩, ⟨8, .row ["3", "4"]⟩] :=
    reads_iff.2 ⟨by decide +kernel, by decide +kernel⟩
  have hlines : Text.lines
      "Feature: F\nScenario Outline: O\nGiven <b>\n|x|y|\n|1|2|\nExamples:\n|a|b|\n|3|4|".toList =
      ["Feature: F".toList, "Scenario Outline: O".toList, "Given <b>".toList, "|x|y|".toList,
        "|1|2|".toList, "Examples:".toList, "|a|b|".toList, "|3|4|".toList] := by
    decide +kernel
  have hexamplesLines : Text.lines ("Feature: F\nScenario Outline: O\nGiven <b>\n|x|y|\n|1|2|\n" ++
      "Examples:\n|b|a|\n|4|3|").toList =
      ["Feature: F".toList, "Scenario Outline: O".toList, "Given <b>".toList, "|x|y|".toList,
        "|1|2|".toList, "Examples:".toList, "|b|a|".toList, "|4|3|".toList] := by
    decide +kernel
  have hstepLines : Text.lines ("Feature: F\nScenario Outline: O\nGiven <b>\n" ++
      "|y|x|\n|2|1|\nExamples:\n|a|b|\n|3|4|").toList =
      ["Feature: F".toList, "Scenario Outline: O".toList, "Given <b>".toList, "|y|x|".toList,
        "|2|1|".toList, "Examples:".toList, "|a|b|".toList, "|3|4|".toList] := by
    decide +kernel
  have helse {here p : Site} {k : Kind} {ks : List Kind} {raw : List Char}
      {raws raws' : List (List Char)} (hp : p ≠ here)
      (rest : Rewrites [1, 0] here (p.next k) ks raws raws') :
      Rewrites [1, 0] here p (k :: ks) (raw :: raws) (raw :: raws') :=
    .other (fun h => absurd h hp) rest
  obtain ⟨-, hexamples, hstep⟩ := columns_rearranged hf
  refine ⟨_, _, _, _, hf, rfl, rfl, rfl, hexamples 0 _ [1, 0] _ rfl (by decide) ⟨_, hreads, ?_⟩,
    hstep 1 0 _ _ [1, 0] _ rfl rfl (by decide) ⟨_, hreads, ?_⟩⟩
  · rw [hlines, hexamplesLines]
    exact helse (by decide) (helse (by decide) (helse (by decide) (helse (by decide)
      (helse (by decide) (helse (by decide) (.row (by rfl) (.row (by rfl) (.nil _))))))))
  · rw [hlines, hstepLines]
    exact helse (by decide) (helse (by decide) (helse (by decide) (.row (by rfl) (.row (by rfl)
      (.other (fun _ _ => Kind.noConfusion) (helse (by decide) (helse (by decide) (.nil _))))))))

end Gherkin
