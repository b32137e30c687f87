import Gherkin.Proofs.Accounting
import Gherkin.Proofs.Blocks
import Gherkin.Proofs.Likeness
import Gherkin.Proofs.Spelling

/-
  Every well-formed feature can be written. For each production of the grammar a well-formed value
  has lines that spell it and can stand one after the other (`Writes`), from the tags up to the
  document; the text of the document's lines is then read as the feature (`exists_text`).
-/

namespace Gherkin.Grammar

open Line Text Reader

/-! ## Passages -/

/-- A line of this kind is no fence, and it is not skipped. -/
def Plain : Kind → Prop
  | .fence | .blank | .comment => False
  | _ => True

/-- Kinds of lines that can stand, one directly after the other, before any lines outside doc
strings. -/
structure Passage (ks : List Kind) : Prop where
  legible : ∀ {rest : List Kind}, Legible false rest → Legible false (ks ++ rest)
  kept : ∀ k ∈ ks, k ≠ .blank ∧ k ≠ .comment

theorem Passage.nil : Passage [] := ⟨id, by simp⟩

theorem Passage.append {ks ms : List Kind} (hk : Passage ks) (hm : Passage ms) :
    Passage (ks ++ ms) := by
  refine ⟨fun {rest} h => ?_, fun k hmem => ?_⟩
  · rw [List.append_assoc]
    exact hk.legible (hm.legible h)
  · rcases List.mem_append.1 hmem with h | h
    · exact hk.kept k h
    · exact hm.kept k h

theorem Passage.line {k : Kind} (h : k.WellFormed) (plain : Plain k) : Passage [k] := by
  have hfence : k ≠ .fence := by rintro rfl; exact plain
  have hblank : k ≠ .blank := by rintro rfl; exact plain
  have hcomment : k ≠ .comment := by rintro rfl; exact plain
  exact ⟨fun hrest => .plain h hfence hrest, by simpa using ⟨hblank, hcomment⟩⟩

theorem Passage.map {α : Type} {k : α → Kind} {as : List α} (h : ∀ a ∈ as, (k a).WellFormed)
    (plain : ∀ a, Plain (k a)) : Passage (as.map k) := by
  induction as with
  | nil => exact .nil
  | cons a as ih =>
    obtain ⟨ha, has⟩ := List.forall_mem_cons.1 h
    exact (Passage.line ha (plain a)).append (ih has)

/-- A doc string of captured lines. -/
theorem Passage.docString {ss : List String} (h : ∀ s ∈ ss, Captured s) :
    Passage (.fence :: (ss.map .text ++ [.fence])) := by
  have hinside {rest : List Kind} (hrest : Legible false rest) :
      Legible true (ss.map .text ++ .fence :: rest) := by
    induction ss with
    | nil => exact .closing hrest
    | cons s ss ih =>
      obtain ⟨hs, hss⟩ := List.forall_mem_cons.1 h
      exact .captured hs (ih hss)
  refine ⟨fun {rest} hrest => ?_, by simp +contextual [or_imp, forall_and, eq_comm]⟩
  have hall : .fence :: (ss.map .text ++ [.fence]) ++ rest =
      Kind.fence :: (ss.map .text ++ .fence :: rest) := by simp
  rw [hall]
  exact .opening (hinside hrest)

/-! ## Writing values -/

/-- Significant lines of these kinds, with no blank line between them. -/
def direct (ks : List Kind) : List Significant := ks.map fun k => ⟨⟨0, k⟩, false⟩

theorem direct_append (ks ms : List Kind) : direct (ks ++ ms) = direct ks ++ direct ms :=
  List.map_append

/-- There are lines for the value. -/
def Writes {α : Type} (P : List Significant → α → Prop) (v : α) : Prop :=
  ∃ ks, Passage ks ∧ P (direct ks) v

theorem forall₂_direct {α : Type} {R : Significant → α → Prop} {k : α → Kind}
    (hR : ∀ a, R ⟨⟨0, k a⟩, false⟩ a) (as : List α) : List.Forall₂ R (direct (as.map k)) as := by
  induction as with
  | nil => exact .nil
  | cons a as ih => exact .cons (hR a) ih

theorem writes_star {α : Type} {P : List Significant → α → Prop} {vs : List α}
    (h : ∀ v ∈ vs, Writes P v) : Writes (Star P) vs := by
  induction vs with
  | nil => exact ⟨[], .nil, .nil⟩
  | cons v vs ih =>
    obtain ⟨⟨ks, hks, hv⟩, hvs⟩ := List.forall_mem_cons.1 h
    obtain ⟨ms, hms, hrest⟩ := ih hvs
    refine ⟨ks ++ ms, hks.append hms, ?_⟩
    rw [direct_append]
    exact .cons hv hrest

/-! ## The parts of a section -/

theorem writes_tagLines {ts : List Tag} (h : ∀ t ∈ ts, t.WellFormed) :
    ∃ tss : List (List Tag), tss.flatten = ts ∧ Writes (List.Forall₂ TagLine) tss := by
  cases ts with
  | nil => exact ⟨[], rfl, [], .nil, .nil⟩
  | cons t ts =>
    have hline : Passage [.tags (t :: ts)] := .line ⟨List.cons_ne_nil _ _, h⟩ trivial
    exact ⟨[t :: ts], by simp, [.tags (t :: ts)], hline, .cons rfl .nil⟩

theorem writes_description {d : Option String} (h : ∀ text ∈ d, DescriptionWellFormed text) :
    Writes DescriptionLines d := by
  cases d with
  | none => exact ⟨[], .nil, .absent⟩
  | some text =>
    obtain ⟨parts, hne, hparts, rfl⟩ := h text rfl
    obtain ⟨s, ss, rfl⟩ := List.exists_cons_of_ne_nil hne
    have hlines : Passage ((s :: ss).map .text) := .map hparts fun _ => trivial
    exact ⟨_, hlines, .present rfl (forall₂_direct (fun _ => ⟨rfl, rfl⟩) ss)⟩

theorem ofList_zip_values {header : List String} {row : Bindings} (h : row.keys = header) :
    Bindings.ofList (header.zip row.values) = row := by
  have hentries : row.entries = header.zip row.values := List.zip_of_prod h rfl
  rw [← hentries, Bindings.ofList_entries]

theorem writes_table {header : List String} {rows : List Bindings}
    (h : RowsWellFormed header rows) :
    ∃ r : Rows, r.table = ⟨header, rows⟩ ∧ Writes TableLines r := by
  have hrows : (rows.map Bindings.values).map (fun row => Bindings.ofList (header.zip row)) =
      rows := by
    rw [List.map_map]
    exact (List.map_congr_left fun row hrow => ofList_zip_values (h.keys row hrow)).trans
      (List.map_id _)
  have hwidth : ∀ row ∈ rows.map Bindings.values, row.length = header.length := by
    intro cells hcells
    obtain ⟨row, hrow, rfl⟩ := List.mem_map.1 hcells
    rw [← h.keys row hrow, Bindings.values, Bindings.keys, List.length_map, List.length_map]
  have hlines : ∀ cells ∈ header :: rows.map Bindings.values, (Kind.row cells).WellFormed := by
    refine List.forall_mem_cons.2 ⟨⟨h.columns, h.names⟩, fun cells hcells => ⟨?_, ?_⟩⟩
    · have hlength := hwidth cells hcells
      rintro rfl
      exact h.columns (List.eq_nil_of_length_eq_zero hlength.symm)
    · obtain ⟨row, hrow, rfl⟩ := List.mem_map.1 hcells
      exact h.cells row hrow
  refine ⟨⟨header, rows.map Bindings.values⟩, congrArg (Table.mk header) hrows, _,
    .map hlines fun _ => trivial, ?_⟩
  exact .rows rfl (forall₂_direct (fun _ => ⟨rfl, rfl⟩) _) (by simpa using h.nonempty) h.distinct
    hwidth

theorem not_mem_of_mem_splitOn {a : Char} {s l : List Char} (h : l ∈ s.splitOn a) : a ∉ l := by
  induction s generalizing l with
  | nil =>
    obtain rfl : l = [] := by simpa using h
    simp
  | cons c s ih =>
    rw [List.splitOn_cons_eq_if_modifyHead] at h
    split at h
    · rcases List.mem_cons.1 h with rfl | h
      · simp
      · exact ih h
    · rename_i hc
      obtain ⟨k, ks, hk⟩ := List.exists_cons_of_ne_nil (List.splitOn_ne_nil a s)
      rw [hk, List.modifyHead_cons] at h
      rw [hk] at ih
      rcases List.mem_cons.1 h with rfl | h
      · have hfirst := ih List.mem_cons_self
        simpa [hfirst] using fun e => hc (by simp [e])
      · exact ih (List.mem_cons_of_mem _ h)

/-- The newline-separated lines of a text make up the text. -/
theorem intercalate_splitOn (s : String) :
    "\n".intercalate ((s.toList.splitOn '\n').map String.ofList) = s := by
  have hlines : (s.toList.splitOn '\n').map (String.toList ∘ String.ofList) =
      s.toList.splitOn '\n' :=
    (List.map_congr_left fun _ _ => String.toList_ofList).trans (List.map_id _)
  rw [← String.toList_inj, String.toList_intercalate, List.map_map, hlines]
  exact List.intercalate_splitOn '\n'

theorem writes_docString {s : String} (h : Fenceless s) : Writes DocStringLines s := by
  have hcaptured : ∀ line ∈ (s.toList.splitOn '\n').map String.ofList, Captured line := by
    intro line hline
    obtain ⟨l, hl, rfl⟩ := List.mem_map.1 hline
    rw [Captured, OneLine, String.toList_ofList]
    exact ⟨not_mem_of_mem_splitOn hl, h l hl⟩
  have hlines := forall₂_direct (R := TextLine) (fun _ => rfl)
    ((s.toList.splitOn '\n').map String.ofList)
  have hfence : (⟨⟨0, .fence⟩, false⟩ : Significant).line.kind = .fence := rfl
  have hdoc := DocStringLines.fenced hfence hlines hfence
  rw [intercalate_splitOn] at hdoc
  refine ⟨_, .docString hcaptured, ?_⟩
  rwa [direct, List.map_cons, List.map_append]

theorem writes_argument {a : Option Argument} (h : ∀ b ∈ a, b.WellFormed) :
    Writes ArgumentLines a := by
  cases a with
  | none => exact ⟨[], .nil, .absent⟩
  | some b =>
    have hb := h b rfl
    cases b with
    | table t =>
      obtain ⟨r, hr, ks, hks, hlines⟩ := writes_table hb
      have hargument : ArgumentLines (direct ks) (some (.table r.table)) := by
        cases ks with
        | nil => cases hlines
        | cons k ks => exact .table rfl hlines
      rw [hr] at hargument
      exact ⟨ks, hks, hargument⟩
    | docString s =>
      obtain ⟨ks, hks, hlines⟩ := writes_docString hb
      refine ⟨ks, hks, ?_⟩
      cases ks with
      | nil => cases hlines
      | cons k ks => exact .docString rfl hlines

theorem writes_step {s : Step} (h : s.WellFormed) : Writes StepLines s := by
  obtain ⟨ks, hks, hlines⟩ := writes_argument h.argument
  have hline : Passage [.step s.keyword s.text] :=
    .line ⟨h.trimmed, h.nonempty, h.oneLine⟩ trivial
  exact ⟨_, hline.append hks, .step rfl hlines⟩

/-- The description and the steps of a block. -/
theorem exists_body {description : Option String} {steps : List Step}
    (hd : ∀ d ∈ description, DescriptionWellFormed d) (hs : ∀ s ∈ steps, s.WellFormed) :
    ∃ ks, Passage ks ∧ BodyLines (direct ks) description steps := by
  obtain ⟨ks, hks, hopening⟩ := writes_description hd
  obtain ⟨ms, hms, hrest⟩ := writes_star fun s hmem => writes_step (hs s hmem)
  refine ⟨ks ++ ms, hks.append hms, ?_⟩
  rw [direct_append]
  exact .body hopening hrest

/-! ## Sections and documents -/

/-- Examples are written as one table. -/
theorem writes_examples {header : List String} {rows : List Bindings}
    (h : RowsWellFormed header rows) :
    ∃ r : Rows, r.table = ⟨header, rows⟩ ∧ Writes ExamplesLines r := by
  obtain ⟨r, hr, ks, hks, hlines⟩ := writes_table h
  have hname : NameWellFormed "" := ⟨rfl, by simp [OneLine]⟩
  have hline : Passage [.heading .examples ""] := .line hname trivial
  exact ⟨r, hr, _, hline.append hks, .examples rfl hlines⟩

theorem writes_scenario {s : Scenario} (h : s.WellFormed) : Writes (ScenarioLines s.tags) s := by
  cases s with
  | simple b =>
    have hb : b.WellFormed := h
    obtain ⟨ks, hks, hbody⟩ := exists_body hb.description hb.steps
    have hline : Passage [.heading .scenario b.name] := .line hb.name trivial
    exact ⟨_, hline.append hks, .simple rfl hbody⟩
  | outline o =>
    have hb : o.toBlock.WellFormed := h.block
    obtain ⟨header, hrows⟩ := h.examples
    obtain ⟨ks, hks, hbody⟩ := exists_body hb.description hb.steps
    obtain ⟨r, hr, ms, hms, hexamples⟩ := writes_examples hrows
    have hline : Passage [.heading .scenarioOutline o.name] := .line hb.name trivial
    have hstar : Star ExamplesLines (direct ms ++ []) [r] := .cons hexamples .nil
    have hfirst : (⟨⟨0, .heading .scenarioOutline o.name⟩, false⟩ : Significant).line.kind =
        .heading .scenarioOutline o.name := rfl
    have hsame : ∀ t ∈ [r], t.header = r.header := by simp
    have houtline : ScenarioLines o.tags _ _ :=
      .outline hfirst hbody hstar (List.cons_ne_nil _ _) hsame
    have hrows : [r].flatMap (fun r => r.table.rows) = o.examples := by simp [hr]
    rw [hrows, List.append_nil] at houtline
    refine ⟨_, hline.append (hks.append hms), ?_⟩
    rwa [direct_append, direct_append]

theorem writes_tagged {s : Scenario} (h : s.WellFormed) : Writes TaggedLines s := by
  have htags : ∀ t ∈ s.tags, t.WellFormed := by
    cases s with
    | simple b => exact Block.WellFormed.tags h
    | outline o => exact (Outline.WellFormed.block h).tags
  obtain ⟨tss, htss, ks, hks, hbefore⟩ := writes_tagLines htags
  obtain ⟨ms, hms, hscenario⟩ := writes_scenario h
  refine ⟨ks ++ ms, hks.append hms, ?_⟩
  rw [← htss] at hscenario
  rw [direct_append]
  exact .tagged hbefore hscenario

theorem writes_background {b : Block} (h : b.WellFormed) : Writes BackgroundLines b := by
  obtain ⟨tss, htss, ks, hks, hbefore⟩ := writes_tagLines h.tags
  obtain ⟨ms, hms, hbody⟩ := exists_body h.description h.steps
  have hline : Passage [.heading .background b.name] := .line h.name trivial
  have hfirst : (⟨⟨0, .heading .background b.name⟩, false⟩ : Significant).line.kind =
      .heading .background b.name := rfl
  have hb := BackgroundLines.background hbefore hfirst hbody
  rw [htss] at hb
  refine ⟨_, hks.append (hline.append hms), ?_⟩
  rwa [direct_append]

theorem writes_document {f : Feature} (h : f.WellFormed) : Writes DocumentLines f := by
  obtain ⟨tss, htss, ts, hts, hbefore⟩ := writes_tagLines h.tags
  obtain ⟨ds, hds, hopening⟩ := writes_description h.description
  obtain ⟨bs, hbs, hbackground⟩ : Writes (Opt BackgroundLines) f.background := by
    cases hb : f.background with
    | none => exact ⟨[], .nil, .none⟩
    | some b =>
      obtain ⟨bs, hbs, hlines⟩ := writes_background (h.background b hb)
      exact ⟨bs, hbs, .some hlines⟩
  obtain ⟨ss, hss, hscenarios⟩ := writes_star fun s hs => writes_tagged (h.scenarios s hs)
  have hline : Passage [.heading .feature f.name] := .line h.name trivial
  have hfirst : (⟨⟨0, .heading .feature f.name⟩, false⟩ : Significant).line.kind =
      .heading .feature f.name := rfl
  have hf := DocumentLines.document hbefore hfirst hopening hbackground hscenarios h.nonempty
  rw [htss] at hf
  refine ⟨_, hts.append (hline.append (hds.append (hbs.append hss))), ?_⟩
  rwa [direct_append, direct_append, direct_append, direct_append]

theorem kinds_direct (ks : List Kind) : kinds (direct ks) = ks := by
  rw [kinds, direct, List.map_map]
  exact List.map_id _

/-- Lines of kinds that are kept are significant. -/
theorem alike_direct {ls : List Line} (h : ∀ k ∈ ls.map Line.kind, k ≠ .blank ∧ k ≠ .comment) :
    List.Forall₂ Alike (direct (ls.map Line.kind)) (significant false ls) := by
  induction ls with
  | nil => exact .nil
  | cons l ls ih =>
    obtain ⟨⟨hblank, hcomment⟩, hrest⟩ := List.forall_mem_cons.1 h
    rw [significant_cons hblank hcomment]
    exact .cons ⟨rfl, rfl⟩ (ih hrest)

end Gherkin.Grammar

namespace Gherkin

open Grammar Reader

/-- For every well-formed feature there is a text that is read as it. -/
theorem exists_text {f : Feature} (h : f.WellFormed) : ∃ text, Feature.ofText text = .ok f := by
  obtain ⟨ks, hks, hlines⟩ := writes_document h
  have hlegible : Line.Legible false ks := by
    have hall := hks.legible .nil
    rwa [List.append_nil] at hall
  have hclosed : opened false ks = false := by
    obtain ⟨_, _, -, -, htally⟩ := tallies_document hlines
    have hopen := htally.not_opened
    rwa [kinds_direct] at hopen
  obtain ⟨text, ls, hls, rfl⟩ := exists_reads hlegible hclosed
  have hread := renumbers_document hlines (alike_direct hks.kept)
  exact ⟨text, Feature.ofText_eq_ok_iff.2 ⟨ls, hls, hread⟩⟩

/-- A feature whose cells hold pipes, backslashes and newlines, and whose doc string holds lines
that look like other ones. -/
def thorny : Feature where
  name := "Feature: # F"
  description := some "one two"
  tags := [⟨"#a"⟩, ⟨"@"⟩]
  background := some ⟨"", none, [],
    [⟨.given, "Given |", some (.docString "Scenario: a\n\n | x |\n# c\n@t\r\n\"\"\"\"")⟩]⟩
  scenarios := [.outline ⟨⟨"O", none, [⟨"t"⟩],
    [⟨.but, "w", some (.table ⟨["|\\", ""], [Bindings.ofList [("|\\", "a\nb"), ("", "\\n")]]⟩)⟩]⟩,
    [Bindings.ofList [("x", "")]]⟩]

theorem thorny_wellFormed : thorny.WellFormed where
  name := by decide +kernel
  description := by
    intro d hd
    obtain rfl := Option.some.inj hd
    exact ⟨["one", "two"], List.cons_ne_nil _ _, by decide +kernel, rfl⟩
  tags := by decide +kernel
  background := by
    intro b hb
    obtain rfl := Option.some.inj hb
    exact ⟨by decide +kernel, by simp, by simp, by decide +kernel⟩
  nonempty := List.cons_ne_nil _ _
  scenarios := by
    intro s hs
    obtain rfl := List.mem_singleton.1 hs
    exact ⟨⟨by decide +kernel, by simp, by decide +kernel, by decide +kernel⟩, ["x"],
      by decide +kernel⟩

theorem exists_text_thorny : ∃ text, Feature.ofText text = .ok thorny :=
  exists_text thorny_wellFormed

end Gherkin
