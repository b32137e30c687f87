import Gherkin.Proofs.Accounting

/-
  Parts of a document. The lines of a step, of a scenario or of the examples of an outline stand
  between lines that do not depend on them (`Part`): whatever derives a value can stand in their
  place, and the document then has that value there. Parts of parts are parts (`Part.trans`), so a
  step is reached through its section and an examples block through its outline. A part is found
  by a line that stands in it, or by the index of its value.

  How many scenario headings and step lines stand before a line, and whether it stands among
  examples, is its site; a production leads from one site to another and has its rows at certain
  sites (`Walks`), so a row is told from the rows of other parts by its site alone.
-/

namespace Gherkin

/-! ## The steps of a feature by section and index -/

/-- The scenario with its steps changed. -/
def Scenario.mapSteps (g : List Step → List Step) : Scenario → Scenario
  | .simple b => .simple { b with steps := g b.steps }
  | .outline o => .outline { o with steps := g o.steps }

namespace Feature

/-- A section: the background is section 0, the scenarios follow from 1 on. -/
def section? (f : Feature) : Nat → Option Block
  | 0 => f.background
  | k + 1 => f.scenarios[k]?.map Scenario.block

/-- The step of a section at an index. -/
def step? (f : Feature) (k i : Nat) : Option Step := (f.section? k).bind fun b => b.steps[i]?

/-- The feature with the steps of one section changed. -/
def mapSteps (f : Feature) (g : List Step → List Step) : Nat → Feature
  | 0 => { f with background := f.background.map fun b => { b with steps := g b.steps } }
  | k + 1 => { f with scenarios := f.scenarios.modify k (Scenario.mapSteps g) }

/-- The feature with another step in the place of one. -/
def setStep (f : Feature) (k i : Nat) (step : Step) : Feature :=
  f.mapSteps (fun steps => steps.set i step) k

/-- The feature with other examples in the place of an outline's. -/
def setExamples (f : Feature) (k : Nat) (o : Outline) (examples : List Bindings) : Feature :=
  { f with scenarios := f.scenarios.set k (.outline { o with examples := examples }) }

theorem mapSteps_scenario {f : Feature} {k : Nat} {s : Scenario} (hs : f.scenarios[k]? = some s)
    (g : List Step → List Step) :
    f.mapSteps g (k + 1) = { f with scenarios := f.scenarios.set k (s.mapSteps g) } := by
  obtain ⟨hk, rfl⟩ := List.getElem?_eq_some_iff.1 hs
  rw [mapSteps, List.modify_eq_set_get _ hk]
  rfl

theorem mapSteps_congr {f : Feature} {k : Nat} {b : Block} {g g' : List Step → List Step}
    (hb : f.section? k = some b) (h : g b.steps = g' b.steps) :
    f.mapSteps g k = f.mapSteps g' k := by
  cases k with
  | zero =>
    have hbackground : f.background = some b := hb
    simp only [mapSteps, hbackground, Option.map_some, h]
  | succ k =>
    obtain ⟨s, hs, rfl⟩ := Option.map_eq_some_iff.1 hb
    rw [mapSteps_scenario hs, mapSteps_scenario hs]
    have hmap : s.mapSteps g = s.mapSteps g' := by
      cases s with
      | simple c => exact congrArg (fun ss => Scenario.simple { c with steps := ss }) h
      | outline o => exact congrArg (fun ss => Scenario.outline { o with steps := ss }) h
    rw [hmap]

end Feature

end Gherkin

namespace Gherkin.Grammar

open Line

/-! ## Parts -/

/-- The middle lines derive a value, and whatever derives a value can stand in their place; the
lines then derive what `put` makes of that value. -/
structure Part {α β : Type} (P : List Significant → α → Prop) (Q : List Significant → β → Prop)
    (put : β → α) (before own behind : List Significant) (v : β) : Prop where
  derives : Q own v
  fits : ∀ {ms : List Significant} {u : β}, Q ms u → P (before ++ (ms ++ behind)) (put u)

section Part

variable {α β γ : Type} {P : List Significant → α → Prop} {Q : List Significant → β → Prop}
  {R : List Significant → γ → Prop} {put : β → α} {put' : γ → β}
  {before own behind upper lower : List Significant} {v : β} {w : γ}

/-- A part of a part. -/
theorem Part.trans (outer : Part P Q put before (upper ++ (own ++ lower)) behind v)
    (inner : Part Q R put' upper own lower w) :
    Part P R (put ∘ put') (before ++ upper) own (lower ++ behind) w where
  derives := inner.derives
  fits h := by
    have hall := outer.fits (inner.fits h)
    simp only [List.append_assoc] at hall ⊢
    exact hall

end Part

/-! ## Lines among lines -/

section Lines

variable {as bs xs ys before own behind : List Significant} {l : Significant}

/-- A line of two pieces stands in the first or in the second. -/
theorem line_cases (h : as ++ l :: bs = xs ++ ys) :
    (∃ lower, xs = as ++ l :: lower ∧ bs = lower ++ ys) ∨
      ∃ upper, as = xs ++ upper ∧ ys = upper ++ l :: bs := by
  rcases List.append_eq_append_iff.1 h with ⟨cs, rfl, hcs⟩ | ⟨upper, hxs, hys⟩
  · rcases List.cons_eq_append_iff.1 hcs with ⟨rfl, rfl⟩ | ⟨lower, rfl, rfl⟩
    · exact .inr ⟨[], by simp, rfl⟩
    · exact .inl ⟨lower, rfl, rfl⟩
  · exact .inr ⟨upper, hxs, hys⟩

/-- A line that is neither before nor behind the middle stands in it. -/
theorem exists_within (h : as ++ l :: bs = before ++ (own ++ behind)) (hbefore : l ∉ before)
    (hbehind : l ∉ behind) :
    ∃ upper lower, own = upper ++ l :: lower ∧ as = before ++ upper ∧ bs = lower ++ behind := by
  rcases line_cases h with ⟨lower, rfl, -⟩ | ⟨upper, rfl, hrest⟩
  · exact absurd List.mem_append_cons_self hbefore
  · rcases line_cases hrest.symm with ⟨lower, hown, rfl⟩ | ⟨upper, -, rfl⟩
    · exact ⟨upper, lower, hown, rfl, rfl⟩
    · exact absurd List.mem_append_cons_self hbehind

theorem exists_of_mem_left {α : Type} {R : Significant → α → Prop} {ls : List Significant}
    {vs : List α} (h : List.Forall₂ R ls vs) : ∀ l ∈ ls, ∃ v, R l v := by
  induction h with
  | nil => nofun
  | cons hl _ ih => exact List.forall_mem_cons.2 ⟨⟨_, hl⟩, ih⟩

/-- Lines of these kinds only. -/
def Only (K : Kind → Prop) (ls : List Significant) : Prop := ∀ l ∈ ls, K l.line.kind

variable {K L : Kind → Prop} {ls ms : List Significant}

theorem Only.cons (hl : K l.line.kind) (h : Only K ls) : Only K (l :: ls) :=
  List.forall_mem_cons.2 ⟨hl, h⟩

theorem Only.append (hl : Only K ls) (hm : Only K ms) : Only K (ls ++ ms) :=
  List.forall_mem_append.2 ⟨hl, hm⟩

theorem Only.mono (h : Only K ls) (hK : ∀ k, K k → L k) : Only L ls := fun l hl => hK _ (h l hl)

theorem Only.not_mem (h : Only K ls) (hl : ¬K l.line.kind) : l ∉ ls := fun hmem => hl (h l hmem)

end Lines

/-! ## Repetitions -/

theorem exists_append_cons {α : Type} {vs : List α} {i : Nat} {v : α} (h : vs[i]? = some v) :
    ∃ us ws, vs = us ++ v :: ws ∧ us.length = i := by
  obtain ⟨hi, rfl⟩ := List.getElem?_eq_some_iff.1 h
  refine ⟨vs.take i, vs.drop (i + 1), ?_, List.length_take_of_le (Nat.le_of_lt hi)⟩
  rw [List.getElem_cons_drop, List.take_append_drop]

theorem Opt.exists_of_mem {α : Type} {P : List Significant → α → Prop} {ls : List Significant}
    {v : Option α} {l : Significant} (h : Opt P ls v) (hl : l ∈ ls) :
    ∃ a, v = Option.some a ∧ P ls a := by
  cases h with
  | none => exact absurd hl List.not_mem_nil
  | some part => exact ⟨_, rfl, part⟩

section Star

variable {α : Type} {P : List Significant → α → Prop} {ls ms : List Significant} {us vs ws : List α}
  {v : α}

theorem Star.append (hl : Star P ls us) (hm : Star P ms vs) : Star P (ls ++ ms) (us ++ vs) := by
  induction hl with
  | nil => exact hm
  | cons first _ ih =>
    rw [List.append_assoc]
    exact .cons first ih

theorem Star.only {K : Kind → Prop} (hP : ∀ {ls : List Significant} {v : α}, P ls v → Only K ls)
    (h : Star P ls vs) : Only K ls := by
  induction h with
  | nil => nofun
  | cons first _ ih => exact (hP first).append ih

/-- One of the values that lines derive, and the lines of the values before and behind it. -/
structure Among (P : List Significant → α → Prop) (before own behind : List Significant)
    (us : List α) (v : α) (ws : List α) : Prop where
  earlier : Star P before us
  here : P own v
  later : Star P behind ws

theorem Among.part {before own behind : List Significant} (h : Among P before own behind us v ws) :
    Part (Star P) P (fun u => us ++ u :: ws) before own behind v where
  derives := h.here
  fits hu := h.earlier.append (.cons hu h.later)

theorem Star.exists_among (h : Star P ls (us ++ v :: ws)) :
    ∃ before own behind, ls = before ++ (own ++ behind) ∧ Among P before own behind us v ws := by
  induction us generalizing ls with
  | nil =>
    obtain _ | ⟨first, more⟩ := h
    exact ⟨[], _, _, rfl, .nil, first, more⟩
  | cons u us ih =>
    obtain _ | ⟨first, more⟩ := h
    obtain ⟨before, own, behind, rfl, hearlier, hhere, hlater⟩ := ih more
    exact ⟨_, own, behind, (List.append_assoc _ _ _).symm, .cons first hearlier, hhere, hlater⟩

/-- The value in whose lines a line stands. -/
theorem Star.exists_among_line {as bs : List Significant} {l : Significant}
    (h : Star P (as ++ l :: bs) vs) :
    ∃ before upper lower behind us v ws, as = before ++ upper ∧ bs = lower ++ behind ∧
      vs = us ++ v :: ws ∧ Among P before (upper ++ l :: lower) behind us v ws := by
  generalize hls : as ++ l :: bs = ls at h
  induction h generalizing as with
  | nil => cases as <;> cases hls
  | @cons ms ns u vs first more ih =>
    rcases line_cases hls with ⟨lower, rfl, rfl⟩ | ⟨upper, rfl, hns⟩
    · exact ⟨[], as, lower, ns, [], u, vs, rfl, rfl, rfl, .nil, first, more⟩
    · obtain ⟨before, upper', lower, behind, us, v, ws, rfl, rfl, rfl, hearlier, hhere, hlater⟩ :=
        ih hns.symm
      exact ⟨ms ++ before, upper', lower, behind, u :: us, v, ws, (List.append_assoc _ _ _).symm,
        rfl, rfl, .cons first hearlier, hhere, hlater⟩

end Star

/-! ## Sites -/

/-- The site of a line: how many scenario headings stand before it and, since the last of them, how
many step lines, and whether an examples heading. -/
structure Site where
  scenarios : Nat
  steps : Nat
  examples : Bool
deriving DecidableEq

namespace Site

/-- The site of the first line of a text. -/
def start : Site := ⟨0, 0, false⟩

/-- The site behind a line of this kind. -/
def next (p : Site) : Kind → Site
  | .heading .scenario _ | .heading .scenarioOutline _ => ⟨p.scenarios + 1, 0, false⟩
  | .heading .examples _ => { p with examples := true }
  | .step _ _ => { p with steps := p.steps + 1 }
  | _ => p

/-- The site behind lines of these kinds. -/
def after (p : Site) (ks : List Kind) : Site := ks.foldl next p

theorem after_cons (p : Site) (k : Kind) (ks : List Kind) :
    p.after (k :: ks) = (p.next k).after ks := rfl

theorem after_append (p : Site) (ks ms : List Kind) :
    p.after (ks ++ ms) = (p.after ks).after ms := List.foldl_append

/-- Blank lines and comments leave the site as it is. -/
theorem after_significant (p : Site) (blank : Bool) (ls : List Line) :
    p.after (kinds (significant blank ls)) = p.after (ls.map Line.kind) := by
  induction ls generalizing p blank with
  | nil => rfl
  | cons l ls ih =>
    rw [List.map_cons, after_cons]
    unfold significant
    split
    · rename_i hk
      rw [ih, hk]
      rfl
    · rename_i hk
      rw [ih, hk]
      rfl
    · rw [kinds_cons, after_cons, ih]

end Site

/-- The lines lead from one site to another, and the rows among them stand at sites of `S`. -/
inductive Walks (S : Site → Prop) : Site → List Significant → Site → Prop
  | nil (p : Site) : Walks S p [] p
  | cons {p q : Site} {l : Significant} {ls : List Significant}
    (row : ∀ cells, RowLine l cells → S p) (rest : Walks S (p.next l.line.kind) ls q) :
    Walks S p (l :: ls) q

section Walks

variable {S T : Site → Prop} {p q r : Site} {l : Significant} {ls ms : List Significant}

theorem Walks.after (h : Walks S p ls q) : p.after (kinds ls) = q := by
  induction h with
  | nil => rfl
  | cons _ _ ih => exact ih

theorem Walks.mono (h : Walks S p ls q) (hS : ∀ s, S s → T s) : Walks T p ls q := by
  induction h with
  | nil p => exact .nil p
  | cons row _ ih => exact .cons (fun cells hl => hS _ (row cells hl)) ih

theorem Walks.append (hl : Walks S p ls q) (hm : Walks S q ms r) : Walks S p (ls ++ ms) r := by
  induction hl with
  | nil => exact hm
  | cons row _ ih => exact .cons row (ih hm)

/-- A line that is no row. -/
theorem walks_line {k : Kind} (hl : l.line.kind = k) (hk : ∀ cells, k ≠ .row cells)
    (h : Walks S (p.next k) ls q) : Walks S p (l :: ls) q :=
  .cons (fun cells hrow => absurd (hl.symm.trans hrow) (hk cells)) (hl ▸ h)

/-- Lines that leave the site as it is. -/
def Stays : Kind → Prop
  | .tags _ | .text _ | .fence => True
  | _ => False

theorem walks_stays (h : Only Stays ls) (p : Site) : Walks S p ls p := by
  induction ls with
  | nil => exact .nil p
  | cons l ls ih =>
    obtain ⟨hl, hrest⟩ := List.forall_mem_cons.1 h
    refine walks_line rfl (fun cells hk => ?_) ?_
    · rw [hk] at hl
      exact hl
    · have hnext : p.next l.line.kind = p := by
        cases hk : l.line.kind <;> rw [hk] at hl <;> first | rfl | exact hl.elim
      rw [hnext]
      exact ih hrest

end Walks

/-! ### Kinds of lines -/

section Kinds

variable {ls : List Significant}

theorem only_tags {tss : List (List Tag)} (h : List.Forall₂ TagLine ls tss) :
    Only (fun k => ∃ ts, k = .tags ts) ls := exists_of_mem_left h

theorem only_text {d : Option String} (h : DescriptionLines ls d) :
    Only (fun k => ∃ s, k = .text s) ls := by
  cases h with
  | absent => nofun
  | present first more =>
    exact .cons ⟨_, first⟩ fun l hl => (exists_of_mem_left more l hl).imp fun _ h => h.1

theorem only_table {r : Rows} (h : TableLines ls r) :
    Only (fun k => ∃ cells, k = .row cells) ls := by
  obtain ⟨first, more⟩ := h
  exact .cons ⟨_, first⟩ fun l hl => (exists_of_mem_left more l hl).imp fun _ h => h.1

theorem only_docString {s : String} (h : DocStringLines ls s) :
    Only (fun k => k = .fence ∨ ∃ s, k = .text s) ls := by
  obtain ⟨first, captured, last⟩ := h
  exact .cons (.inl first) (.append (fun l hl => .inr (exists_of_mem_left captured l hl))
    (.cons (.inl last) nofun))

theorem only_examples {tables : List Rows} (h : Star ExamplesLines ls tables) :
    Only (fun k => (∃ name, k = .heading .examples name) ∨ ∃ cells, k = .row cells) ls := by
  refine h.only fun first => ?_
  obtain ⟨first, table⟩ := first
  exact .cons (.inl ⟨_, first⟩) ((only_table table).mono fun _ => .inr)

/-- The kinds of lines that steps are made of. -/
def InSteps : Kind → Prop
  | .step _ _ | .row _ | .fence | .text _ => True
  | _ => False

theorem only_steps {ss : List Step} (h : Star StepLines ls ss) : Only InSteps ls := by
  refine h.only fun step => ?_
  obtain ⟨first, attached⟩ := step
  refine .cons (by rw [first]; trivial) ?_
  cases attached with
  | absent => nofun
  | table _ lines =>
    refine (only_table lines).mono ?_
    rintro _ ⟨cells, rfl⟩
    trivial
  | docString _ lines =>
    refine (only_docString lines).mono ?_
    rintro _ (rfl | ⟨s, rfl⟩) <;> trivial

end Kinds

/-! ### Walks of the productions -/

section Productions

variable {S : Site → Prop} {ls : List Significant}

/-- Tag lines, a heading and a description: the lines of a section before its steps. -/
inductive HeadLines (h : Heading) : List Significant → Prop
  | head {l : Significant} {ts ds : List Significant} {tags : List (List Tag)} {name : String}
    {description : Option String} (before : List.Forall₂ TagLine ts tags)
    (first : l.line.kind = .heading h name) (opening : DescriptionLines ds description) :
    HeadLines h (ts ++ l :: ds)

theorem HeadLines.only {h : Heading} (hls : HeadLines h ls) :
    Only (fun k => (∃ ts, k = .tags ts) ∨ (∃ s, k = .text s) ∨ ∃ name, k = .heading h name) ls := by
  obtain ⟨before, first, opening⟩ := hls
  exact ((only_tags before).mono fun _ => .inl).append
    (.cons (.inr (.inr ⟨_, first⟩)) ((only_text opening).mono fun _ hk => .inr (.inl hk)))

theorem HeadLines.ne_nil {h : Heading} (hls : HeadLines h ls) : ls ≠ [] := by
  cases hls
  simp

theorem HeadLines.walks {h : Heading} (hls : HeadLines h ls) (p : Site) :
    Walks S p ls (p.next (.heading h "")) := by
  obtain @⟨l, ts, ds, tags, name, description, before, first, opening⟩ := hls
  have hnext : p.next (.heading h name) = p.next (.heading h "") := by cases h <;> rfl
  refine (walks_stays ((only_tags before).mono ?_) p).append (walks_line first
    (fun _ => Kind.noConfusion) (hnext ▸ walks_stays ((only_text opening).mono ?_) _))
  · rintro _ ⟨ts, rfl⟩
    trivial
  · rintro _ ⟨s, rfl⟩
    trivial

theorem HeadLines.tallies {h : Heading} (hls : HeadLines h ls) : ∃ t, Tallies ls t := by
  obtain ⟨before, first, opening⟩ := hls
  obtain ⟨ss, -, hopening⟩ := tallies_description opening
  exact ⟨_, (tallies_tagLines before).append ((tallies_line first (by simp)).append hopening)⟩

theorem walks_table {r : Rows} (h : TableLines ls r) (p : Site) : Walks (· = p) p ls p := by
  have hrows := only_table h
  clear h
  induction ls with
  | nil => exact .nil p
  | cons l ls ih =>
    obtain ⟨⟨cells, hl⟩, hrest⟩ := List.forall_mem_cons.1 hrows
    exact .cons (fun _ _ => rfl) (hl ▸ ih hrest)

theorem walks_argument {a : Option Argument} (h : ArgumentLines ls a) (p : Site) :
    Walks (· = p) p ls p := by
  cases h with
  | absent => exact .nil p
  | table _ lines => exact walks_table lines p
  | docString _ lines =>
    refine walks_stays ((only_docString lines).mono ?_) p
    rintro _ (rfl | ⟨s, rfl⟩) <;> trivial

theorem walks_step {s : Step} (h : StepLines ls s) (p : Site) :
    Walks (· = { p with steps := p.steps + 1 }) p ls { p with steps := p.steps + 1 } := by
  obtain ⟨first, attached⟩ := h
  exact walks_line first (fun _ => Kind.noConfusion) (walks_argument attached _)

theorem walks_steps {ss : List Step} (h : Star StepLines ls ss) (p : Site) :
    Walks (fun q => p.steps < q.steps ∧ q.steps ≤ p.steps + ss.length ∧
        q.scenarios = p.scenarios ∧ q.examples = p.examples)
      p ls { p with steps := p.steps + ss.length } := by
  induction h generalizing p with
  | nil => exact .nil p
  | @cons ls ms s ss first _ ih =>
    have hrest := ih { p with steps := p.steps + 1 }
    rw [List.length_cons, Nat.add_comm ss.length, ← Nat.add_assoc]
    refine ((walks_step first p).mono ?_).append (hrest.mono ?_)
    · rintro _ rfl
      exact ⟨Nat.lt_succ_self _, Nat.le_add_right _ _, rfl, rfl⟩
    · rintro q ⟨hlower, hupper, hq⟩
      exact ⟨Nat.lt_of_succ_lt hlower, hupper, hq⟩

theorem walks_examples {tables : List Rows} (h : Star ExamplesLines ls tables) (p : Site) :
    ∃ q, q.scenarios = p.scenarios ∧ Walks (· = { p with examples := true }) p ls q := by
  induction h generalizing p with
  | nil => exact ⟨p, rfl, .nil p⟩
  | cons first _ ih =>
    obtain ⟨first, table⟩ := first
    obtain ⟨q, hq, hrest⟩ := ih { p with examples := true }
    exact ⟨q, hq, (walks_line first (fun _ => Kind.noConfusion) (walks_table table _)).append hrest⟩

end Productions

/-! ## The parts of a scenario -/

/-- The steps of a scenario, between its head and its examples. -/
structure StepsPart (s : Scenario) (before own behind : List Significant) : Prop where
  part : Part TaggedLines (Star StepLines) (fun ss => s.mapSteps fun _ => ss)
    before own behind s.steps
  head : HeadLines (headingOf s) before
  examples : ∃ tables, Star ExamplesLines behind tables
  plain : ∀ b, s = .simple b → behind = []

theorem TaggedLines.exists_steps {ls : List Significant} {s : Scenario} (h : TaggedLines ls s) :
    ∃ before own behind, ls = before ++ (own ++ behind) ∧ StepsPart s before own behind := by
  obtain ⟨before, scenario⟩ := h
  cases scenario with
  | simple first body =>
    obtain @⟨ds, ms, _, _, opening, rest⟩ := body
    refine ⟨_, ms, [], ?_, ⟨rest, fun h => ?_⟩, .head before first opening, ⟨[], .nil⟩,
      fun _ _ => rfl⟩
    · simp only [List.append_assoc, List.cons_append, List.append_nil]
    · simp only [List.append_assoc, List.cons_append, List.append_nil]
      exact .tagged before (.simple first (.body opening h))
  | @outline l ls es name description steps tables header first body examples nonempty same =>
    obtain @⟨ds, ms, _, _, opening, rest⟩ := body
    refine ⟨_, ms, es, ?_, ⟨rest, fun h => ?_⟩, .head before first opening,
      ⟨tables, examples⟩, nofun⟩
    · simp only [List.append_assoc, List.cons_append]
    · simp only [List.append_assoc, List.cons_append]
      rw [← List.append_assoc ds]
      exact .tagged before (.outline first (.body opening h) examples nonempty same)

/-- The tables of an outline: at least one, all with one header. -/
structure ExamplesBlock (ls : List Significant) (tables : List Rows) : Prop where
  lines : Star ExamplesLines ls tables
  nonempty : tables ≠ []
  same : ∃ header, ∀ r ∈ tables, r.header = header

/-- The examples of an outline behind its head and its steps. -/
structure ExamplesPart (o : Outline) (before own : List Significant) (tables : List Rows) :
    Prop where
  rows : o.examples = tables.flatMap fun r => r.table.rows
  part : Part TaggedLines ExamplesBlock
    (fun tables => .outline { o with examples := tables.flatMap fun r => r.table.rows })
    before own [] tables
  above : ∃ head steps, before = head ++ steps ∧ HeadLines .scenarioOutline head ∧
    Star StepLines steps o.steps

theorem TaggedLines.exists_examples {ls : List Significant} {o : Outline}
    (h : TaggedLines ls (.outline o)) :
    ∃ before own tables, ls = before ++ own ∧ ExamplesPart o before own tables := by
  obtain ⟨before, scenario⟩ := h
  obtain _ | @⟨l, ls, es, name, description, steps, tables, header, first, body, examples,
    nonempty, same⟩ := scenario
  obtain @⟨ds, ms, _, _, opening, rest⟩ := body
  refine ⟨_, es, tables, ?_, rfl, ⟨⟨examples, nonempty, header, same⟩, fun h => ?_⟩,
    _, ms, rfl, .head before first opening, rest⟩
  · simp only [List.append_assoc, List.cons_append]
  · obtain ⟨examples, nonempty, header, same⟩ := h
    simp only [List.append_assoc, List.cons_append, List.append_nil]
    rw [← List.append_assoc ds]
    exact .tagged before (.outline first (.body opening rest) examples nonempty same)

theorem BackgroundLines.exists_steps {ls : List Significant} {b : Block}
    (h : BackgroundLines ls b) :
    ∃ before own, ls = before ++ own ∧ HeadLines .background before ∧
      Part BackgroundLines (Star StepLines) (fun ss => { b with steps := ss }) before own []
        b.steps := by
  obtain ⟨before, first, body⟩ := h
  obtain @⟨ds, ms, _, _, opening, rest⟩ := body
  refine ⟨_, ms, ?_, .head before first opening, rest, fun h => ?_⟩
  · simp only [List.append_assoc, List.cons_append]
  · simp only [List.append_assoc, List.cons_append, List.append_nil]
    exact .background before first (.body opening h)

theorem walks_tagged {ls : List Significant} {s : Scenario} (h : TaggedLines ls s) (p : Site) :
    ∃ q, q.scenarios = p.scenarios + 1 ∧ Walks (fun r => r.scenarios = p.scenarios + 1) p ls q := by
  obtain ⟨before, own, behind, rfl, ⟨steps, -⟩, head, ⟨tables, examples⟩, -⟩ := h.exists_steps
  have hhead : p.next (.heading (headingOf s) "") = ⟨p.scenarios + 1, 0, false⟩ := by
    cases s <;> rfl
  obtain ⟨q, hq, hexamples⟩ := walks_examples examples ⟨p.scenarios + 1, 0 + s.steps.length, false⟩
  refine ⟨q, hq, (hhead ▸ head.walks p).append (.append ((walks_steps steps _).mono ?_)
    (hexamples.mono ?_))⟩
  · rintro r ⟨-, -, hr, -⟩
    exact hr
  · rintro r rfl
    rfl

theorem walks_scenarios {ls : List Significant} {ss : List Scenario} (h : Star TaggedLines ls ss)
    (p : Site) :
    ∃ q, q.scenarios = p.scenarios + ss.length ∧
      Walks (fun r => p.scenarios < r.scenarios ∧ r.scenarios ≤ p.scenarios + ss.length)
        p ls q := by
  induction h generalizing p with
  | nil => exact ⟨p, rfl, .nil p⟩
  | cons first _ ih =>
    obtain ⟨r, hr, hfirst⟩ := walks_tagged first p
    obtain ⟨q, hq, hrest⟩ := ih r
    refine ⟨q, by rw [hq, hr, List.length_cons]; omega, (hfirst.mono ?_).append (hrest.mono ?_)⟩
    · intro s hs
      rw [List.length_cons]
      omega
    · rintro s ⟨hlower, hupper⟩
      rw [List.length_cons]
      omega

/-! ## The parts of a document -/

/-- A document in three pieces: its head, its background and its scenarios. -/
structure DocumentParts (f : Feature) (xs ys zs : List Significant) : Prop where
  head : HeadLines .feature xs
  background : Opt BackgroundLines ys f.background
  scenarios : Star TaggedLines zs f.scenarios
  nonempty : f.scenarios ≠ []
  fits : ∀ {ls ms : List Significant} {background : Option Block} {scenarios : List Scenario},
    Opt BackgroundLines ls background → Star TaggedLines ms scenarios → scenarios ≠ [] →
      DocumentLines (xs ++ (ls ++ ms)) { f with background := background, scenarios := scenarios }

theorem DocumentLines.exists_parts {ls : List Significant} {f : Feature} (h : DocumentLines ls f) :
    ∃ xs ys zs, ls = xs ++ (ys ++ zs) ∧ DocumentParts f xs ys zs := by
  obtain @⟨l, ts, ds, bs, ls, _, _, _, _, _, before, first, opening, steps, rest, nonempty⟩ := h
  refine ⟨ts ++ l :: ds, bs, ls, ?_, .head before first opening, steps, rest,
    nonempty, fun steps rest nonempty => ?_⟩
  · simp only [List.append_assoc, List.cons_append]
  · simp only [List.append_assoc, List.cons_append]
    exact .document before first opening steps rest nonempty

/-- The lines of a scenario in a document. -/
structure ScenarioPart (f : Feature) (k : Nat) (s : Scenario)
    (before own behind : List Significant) : Prop where
  found : f.scenarios[k]? = some s
  part : Part DocumentLines TaggedLines (fun s => { f with scenarios := f.scenarios.set k s })
    before own behind s
  closed : ∃ t, Tallies before t
  above : ∃ q, q.scenarios = k ∧ Walks (fun r => r.scenarios ≤ k) Site.start before q
  below : ∃ ss, Star TaggedLines behind ss

/-- The lines of the steps of a section in a document. -/
structure SectionPart (f : Feature) (k : Nat) (b : Block)
    (before own behind : List Significant) : Prop where
  found : f.section? k = some b
  part : Part DocumentLines (Star StepLines) (fun ss => f.mapSteps (fun _ => ss) k)
    before own behind b.steps
  closed : ∃ t, Tallies before t
  above : Walks (fun r => r.scenarios < k) Site.start before ⟨k, 0, false⟩
  below : ∀ n, ∃ q, Walks (fun r => r.scenarios = k ∧ r.examples = true ∨ k < r.scenarios)
    ⟨k, n, false⟩ behind q

/-- The lines of a step in a document. -/
structure StepPart (f : Feature) (k i : Nat) (s : Step)
    (before own behind : List Significant) : Prop where
  found : f.step? k i = some s
  part : Part DocumentLines StepLines (f.setStep k i) before own behind s
  closed : ∃ t, Tallies before t
  above : Walks (· ≠ ⟨k, i + 1, false⟩) Site.start before ⟨k, i, false⟩
  below : ∃ q, Walks (· ≠ ⟨k, i + 1, false⟩) ⟨k, i + 1, false⟩ behind q

/-- The lines of the examples of an outline in a document. -/
structure OutlinePart (f : Feature) (k : Nat) (o : Outline) (before own behind : List Significant)
    (tables : List Rows) : Prop where
  found : f.scenarios[k]? = some (.outline o)
  rows : o.examples = tables.flatMap fun r => r.table.rows
  part : Part DocumentLines ExamplesBlock
    (fun tables => f.setExamples k o (tables.flatMap fun r => r.table.rows))
    before own behind tables
  above : Walks (· ≠ ⟨k + 1, o.steps.length, true⟩) Site.start before ⟨k + 1, o.steps.length, false⟩
  below : ∃ ss, Star TaggedLines behind ss

section Document

variable {f : Feature} {k : Nat} {xs ys zs before own behind upper lower : List Significant}

theorem walks_background {b : Option Block} (h : Opt BackgroundLines ys b) (p : Site) :
    ∃ q, q.scenarios = p.scenarios ∧ Walks (fun r => r.scenarios = p.scenarios) p ys q := by
  cases h with
  | none => exact ⟨p, rfl, .nil p⟩
  | some part =>
    obtain ⟨before, own, rfl, head, steps, -⟩ := part.exists_steps
    have hsteps := (walks_steps steps p).mono fun r hr => hr.2.2.1
    exact ⟨_, by rfl, (head.walks p).append hsteps⟩

theorem DocumentParts.scenarioPart {us ws : List Scenario} {s : Scenario}
    (h : DocumentParts f xs ys zs) (hf : f.scenarios = us ++ s :: ws)
    (among : Among TaggedLines before own behind us s ws) :
    ScenarioPart f us.length s (xs ++ (ys ++ before)) own behind where
  found := by simp [hf]
  part := by
    refine ⟨among.here, fun {ls u} hu => ?_⟩
    have hset : f.scenarios.set us.length u = us ++ u :: ws := by simp [hf]
    have hall := h.fits h.background (among.part.fits hu) (by simp)
    simp only [hset, List.append_assoc]
    exact hall
  closed := by
    obtain ⟨_, hhead⟩ := h.head.tallies
    obtain ⟨_, -, hbackground⟩ := tallies_background h.background
    obtain ⟨_, _, -, -, hscenarios⟩ := tallies_scenarios among.earlier
    exact ⟨_, hhead.append (hbackground.append hscenarios)⟩
  above := by
    obtain ⟨q, hq, hbackground⟩ := walks_background h.background Site.start
    obtain ⟨r, hr, hscenarios⟩ := walks_scenarios among.earlier q
    have hstart : Site.start.scenarios = 0 := rfl
    refine ⟨r, by omega, (h.head.walks _).append ((hbackground.mono ?_).append
      (hscenarios.mono ?_))⟩
    · intro s hs
      omega
    · rintro s ⟨-, hs⟩
      omega
  below := ⟨ws, among.later⟩

theorem ScenarioPart.sectionPart {s : Scenario}
    (h : ScenarioPart f k s before (upper ++ (own ++ lower)) behind)
    (steps : StepsPart s upper own lower) :
    SectionPart f (k + 1) s.block (before ++ upper) own (lower ++ behind) where
  found := Option.map_eq_some_iff.2 ⟨s, h.found, rfl⟩
  part := by
    have hput : (fun ss => f.mapSteps (fun _ => ss) (k + 1)) =
        (fun s => { f with scenarios := f.scenarios.set k s }) ∘ fun ss => s.mapSteps fun _ => ss :=
      funext fun ss => Feature.mapSteps_scenario h.found _
    rw [hput]
    exact h.part.trans steps.part
  closed := by
    obtain ⟨_, hbefore⟩ := h.closed
    obtain ⟨_, hhead⟩ := steps.head.tallies
    exact ⟨_, hbefore.append hhead⟩
  above := by
    obtain ⟨q, hq, habove⟩ := h.above
    have hhead : q.next (.heading (headingOf s) "") = ⟨k + 1, 0, false⟩ := by
      rw [← hq]
      cases s <;> rfl
    exact (habove.mono fun r hr => Nat.lt_succ_of_le hr).append (hhead ▸ steps.head.walks q)
  below n := by
    obtain ⟨tables, examples⟩ := steps.examples
    obtain ⟨ss, hss⟩ := h.below
    obtain ⟨q, hq, hexamples⟩ := walks_examples examples ⟨k + 1, n, false⟩
    obtain ⟨r, -, hscenarios⟩ := walks_scenarios hss q
    refine ⟨r, (hexamples.mono ?_).append (hscenarios.mono ?_)⟩
    · rintro s rfl
      exact .inl ⟨rfl, rfl⟩
    · rintro s ⟨hs, -⟩
      exact .inr (hq.symm.trans_lt hs)

theorem ScenarioPart.outlinePart {o : Outline} {tables : List Rows}
    (h : ScenarioPart f k (.outline o) before (upper ++ own) behind)
    (examples : ExamplesPart o upper own tables) :
    OutlinePart f k o (before ++ upper) own behind tables where
  found := h.found
  rows := examples.rows
  part := by
    have hown : upper ++ own = upper ++ (own ++ []) := by rw [List.append_nil]
    exact (hown ▸ h.part).trans examples.part
  above := by
    obtain ⟨q, rfl, habove⟩ := h.above
    obtain ⟨head, steps, rfl, hhead, hsteps⟩ := examples.above
    have hwalk := walks_steps hsteps ⟨q.scenarios + 1, 0, false⟩
    simp only [Nat.zero_add] at hwalk
    refine (habove.mono ?_).append ((hhead.walks q).append (hwalk.mono ?_))
    · rintro r hr rfl
      exact Nat.not_succ_le_self _ hr
    · rintro r ⟨-, -, -, hr⟩ rfl
      cases hr
  below := h.below

theorem DocumentParts.backgroundPart {b : Block} (h : DocumentParts f xs (before ++ own) zs)
    (hf : f.background = some b) (head : HeadLines .background before)
    (part : Part BackgroundLines (Star StepLines) (fun ss => { b with steps := ss }) before own []
      b.steps) :
    SectionPart f 0 b (xs ++ before) own zs where
  found := hf
  part := by
    refine ⟨part.derives, fun {ls ss} hss => ?_⟩
    have hall := h.fits (.some (part.fits hss)) h.scenarios h.nonempty
    simp only [List.append_assoc, List.append_nil, Feature.mapSteps, hf, Option.map_some] at hall ⊢
    exact hall
  closed := by
    obtain ⟨_, hbefore⟩ := h.head.tallies
    obtain ⟨_, hhead⟩ := head.tallies
    exact ⟨_, hbefore.append hhead⟩
  above := (h.head.walks _).append (head.walks _)
  below n := by
    obtain ⟨q, -, hscenarios⟩ := walks_scenarios h.scenarios ⟨0, n, false⟩
    exact ⟨q, hscenarios.mono fun r hr => .inr hr.1⟩

theorem SectionPart.stepPart {b : Block} {s : Step} {us ws : List Step}
    (h : SectionPart f k b before (upper ++ (own ++ lower)) behind) (hb : b.steps = us ++ s :: ws)
    (among : Among StepLines upper own lower us s ws) :
    StepPart f k us.length s (before ++ upper) own (lower ++ behind) where
  found := by
    rw [Feature.step?, h.found]
    simp [hb]
  part := by
    have hput : f.setStep k us.length = (fun ss => f.mapSteps (fun _ => ss) k) ∘
        fun u => us ++ u :: ws := by
      funext u
      show f.mapSteps (fun steps => steps.set us.length u) k = f.mapSteps (fun _ => _) k
      exact Feature.mapSteps_congr h.found (by simp [hb])
    rw [hput]
    exact h.part.trans among.part
  closed := by
    obtain ⟨_, hbefore⟩ := h.closed
    exact ⟨_, hbefore.append (tallies_steps among.earlier)⟩
  above := by
    have hsteps := walks_steps among.earlier ⟨k, 0, false⟩
    simp only [Nat.zero_add] at hsteps
    refine (h.above.mono ?_).append (hsteps.mono ?_)
    · rintro r hr rfl
      exact Nat.lt_irrefl _ hr
    · rintro r ⟨-, hr, -⟩ rfl
      exact absurd hr (Nat.not_succ_le_self _)
  below := by
    have hsteps := walks_steps among.later ⟨k, us.length + 1, false⟩
    obtain ⟨q, hbehind⟩ := h.below (us.length + 1 + ws.length)
    refine ⟨q, (hsteps.mono ?_).append (hbehind.mono ?_)⟩
    · rintro r ⟨hr, -⟩ rfl
      exact Nat.lt_irrefl _ hr
    · rintro r (⟨-, hr⟩ | hr) rfl
      · cases hr
      · exact Nat.lt_irrefl _ hr

/-! ### Parts by their index -/

theorem DocumentLines.exists_scenario {ls : List Significant} {s : Scenario}
    (h : DocumentLines ls f) (hs : f.scenarios[k]? = some s) :
    ∃ before own behind, ls = before ++ (own ++ behind) ∧ ScenarioPart f k s before own behind := by
  obtain ⟨xs, ys, zs, rfl, hparts⟩ := h.exists_parts
  obtain ⟨us, ws, hf, rfl⟩ := exists_append_cons hs
  have hscenarios := hparts.scenarios
  rw [hf] at hscenarios
  obtain ⟨before, own, behind, rfl, among⟩ := hscenarios.exists_among
  exact ⟨_, own, behind, by simp only [List.append_assoc], hparts.scenarioPart hf among⟩

theorem DocumentLines.exists_outline {ls : List Significant} {o : Outline}
    (h : DocumentLines ls f) (ho : f.scenarios[k]? = some (.outline o)) :
    ∃ before own behind tables, ls = before ++ (own ++ behind) ∧
      OutlinePart f k o before own behind tables := by
  obtain ⟨before, own, behind, rfl, hpart⟩ := h.exists_scenario ho
  obtain ⟨upper, own, tables, rfl, examples⟩ := hpart.part.derives.exists_examples
  exact ⟨_, own, behind, tables, by simp only [List.append_assoc], hpart.outlinePart examples⟩

theorem DocumentLines.exists_section {ls : List Significant} {b : Block}
    (h : DocumentLines ls f) (hb : f.section? k = some b) :
    ∃ before own behind, ls = before ++ (own ++ behind) ∧ SectionPart f k b before own behind := by
  cases k with
  | zero =>
    have hf : f.background = some b := hb
    obtain ⟨xs, ys, zs, rfl, hparts⟩ := h.exists_parts
    have hbackground := hparts.background
    rw [hf] at hbackground
    obtain _ | ⟨part⟩ := hbackground
    obtain ⟨before, own, rfl, head, steps⟩ := part.exists_steps
    exact ⟨_, own, zs, by simp only [List.append_assoc],
      hparts.backgroundPart hf head steps⟩
  | succ k =>
    obtain ⟨s, hs, rfl⟩ := Option.map_eq_some_iff.1 hb
    obtain ⟨before, own, behind, rfl, hpart⟩ := h.exists_scenario hs
    obtain ⟨upper, mid, lower, rfl, steps⟩ := hpart.part.derives.exists_steps
    exact ⟨_, mid, _, by simp only [List.append_assoc], hpart.sectionPart steps⟩

theorem DocumentLines.exists_step {ls : List Significant} {i : Nat} {s : Step}
    (h : DocumentLines ls f) (hs : f.step? k i = some s) :
    ∃ before own behind, ls = before ++ (own ++ behind) ∧ StepPart f k i s before own behind := by
  obtain ⟨b, hb, hi⟩ := Option.bind_eq_some_iff.1 hs
  obtain ⟨before, own, behind, rfl, hpart⟩ := h.exists_section hb
  obtain ⟨us, ws, hsteps, rfl⟩ := exists_append_cons hi
  have hlines := hpart.part.derives
  rw [hsteps] at hlines
  obtain ⟨upper, mid, lower, rfl, among⟩ := hlines.exists_among
  exact ⟨_, mid, _, by simp only [List.append_assoc], hpart.stepPart hsteps among⟩

/-! ### Parts by one of their lines -/

/-- A line outside the heads of a document stands among the steps of its background or in one of
its scenarios. -/
theorem DocumentLines.exists_part_of_line {as bs : List Significant} {l : Significant}
    (h : DocumentLines (as ++ l :: bs) f)
    (hhead : ∀ {h ls}, HeadLines h ls → h ≠ .examples → l ∉ ls) :
    (∃ b before upper lower behind, as = before ++ upper ∧ bs = lower ++ behind ∧
      SectionPart f 0 b before (upper ++ l :: lower) behind) ∨
    ∃ k s before upper lower behind, as = before ++ upper ∧ bs = lower ++ behind ∧
      ScenarioPart f k s before (upper ++ l :: lower) behind := by
  obtain ⟨xs, ys, zs, hls, hparts⟩ := h.exists_parts
  rcases line_cases hls with ⟨_, rfl, -⟩ | ⟨as, rfl, hrest⟩
  · exact absurd List.mem_append_cons_self (hhead hparts.head (by simp))
  rcases line_cases hrest.symm with ⟨lower, rfl, rfl⟩ | ⟨as, rfl, rfl⟩
  · obtain ⟨b, hf, part⟩ := hparts.background.exists_of_mem List.mem_append_cons_self
    obtain ⟨before, own, hys, head, steps⟩ := part.exists_steps
    rw [hys] at hparts
    rcases line_cases hys with ⟨_, rfl, -⟩ | ⟨upper, rfl, rfl⟩
    · exact absurd List.mem_append_cons_self (hhead head (by simp))
    · exact .inl ⟨b, _, upper, lower, zs, by simp only [List.append_assoc], rfl,
        hparts.backgroundPart hf head steps⟩
  · obtain ⟨before, upper, lower, behind, us, s, ws, rfl, rfl, hf, among⟩ :=
      hparts.scenarios.exists_among_line
    exact .inr ⟨us.length, s, _, upper, lower, behind, by simp only [List.append_assoc], rfl,
      hparts.scenarioPart hf among⟩

/-- A fence stands among the steps of a section. -/
theorem DocumentLines.exists_section_of_fence {as bs : List Significant} {l : Significant}
    (h : DocumentLines (as ++ l :: bs) f) (hl : l.line.kind = .fence) :
    ∃ k b before upper lower behind, as = before ++ upper ∧ bs = lower ++ behind ∧
      SectionPart f k b before (upper ++ l :: lower) behind := by
  have hhead {h : Heading} {ls : List Significant} (hls : HeadLines h ls) : l ∉ ls :=
    hls.only.not_mem (by simp [hl])
  rcases h.exists_part_of_line fun hls _ => hhead hls with
    hpart | ⟨k, s, before, upper, lower, behind, rfl, rfl, hpart⟩
  · exact ⟨0, hpart⟩
  · obtain ⟨hs, own, es, hown, steps⟩ := hpart.part.derives.exists_steps
    obtain ⟨tables, examples⟩ := steps.examples
    have hexamples : l ∉ es := (only_examples examples).not_mem (by simp [hl])
    rw [hown] at hpart
    obtain ⟨upper, lower, rfl, rfl, rfl⟩ := exists_within hown (hhead steps.head) hexamples
    exact ⟨k + 1, s.block, _, upper, lower, _, by simp only [List.append_assoc],
      by simp only [List.append_assoc], hpart.sectionPart steps⟩

theorem DocumentLines.exists_step_of_fence {as bs : List Significant} {l : Significant}
    (h : DocumentLines (as ++ l :: bs) f) (hl : l.line.kind = .fence) :
    ∃ k i s before upper lower behind, as = before ++ upper ∧ bs = lower ++ behind ∧
      StepPart f k i s before (upper ++ l :: lower) behind := by
  obtain ⟨k, b, before, as, bs, behind, rfl, rfl, hpart⟩ := h.exists_section_of_fence hl
  obtain ⟨mid, upper, lower, rest, us, s, ws, rfl, rfl, hb, among⟩ :=
    hpart.part.derives.exists_among_line
  rw [List.append_assoc, ← List.cons_append, ← List.append_assoc upper] at hpart
  exact ⟨k, us.length, s, _, upper, lower, _, by simp only [List.append_assoc],
    by simp only [List.append_assoc], hpart.stepPart hb among⟩

/-- An examples heading stands among the examples of an outline. -/
theorem DocumentLines.exists_outline_of_heading {as bs : List Significant} {l : Significant}
    {name : String} (h : DocumentLines (as ++ l :: bs) f)
    (hl : l.line.kind = .heading .examples name) :
    ∃ k o before upper lower behind tables, as = before ++ upper ∧ bs = lower ++ behind ∧
      OutlinePart f k o before (upper ++ l :: lower) behind tables := by
  have hhead {h : Heading} {ls : List Significant} (hls : HeadLines h ls) (hh : h ≠ .examples) :
      l ∉ ls := hls.only.not_mem (by simpa [hl] using Ne.symm hh)
  have hsteps {ls : List Significant} {ss : List Step} (hls : Star StepLines ls ss) : l ∉ ls :=
    (only_steps hls).not_mem (by simp [hl, InSteps])
  rcases h.exists_part_of_line hhead with
    ⟨b, _, _, _, _, -, -, hpart⟩ | ⟨k, s, before, upper, lower, behind, rfl, rfl, hpart⟩
  · exact absurd List.mem_append_cons_self (hsteps hpart.part.derives)
  cases s with
  | simple b =>
    obtain ⟨hs, own, es, hown, ⟨steps, -⟩, head, -, plain⟩ := hpart.part.derives.exists_steps
    obtain rfl := plain b rfl
    have hmem : l ∈ hs ++ (own ++ []) := hown ▸ List.mem_append_cons_self
    rw [List.append_nil, List.mem_append] at hmem
    exact absurd hmem (not_or.2 ⟨hhead head (by simp [headingOf]), hsteps steps⟩)
  | outline o =>
    obtain ⟨before', own, tables, hown, examples⟩ := hpart.part.derives.exists_examples
    obtain ⟨hs, ms, rfl, head, steps⟩ := examples.above
    rw [hown] at hpart
    rcases line_cases hown with ⟨lower, hbefore, -⟩ | ⟨upper, rfl, rfl⟩
    · have hmem : l ∈ hs ++ ms := hbefore ▸ List.mem_append_cons_self
      rw [List.mem_append] at hmem
      exact absurd hmem (not_or.2 ⟨hhead head (by simp), hsteps steps⟩)
    · exact ⟨k, o, _, upper, lower, behind, tables, by simp only [List.append_assoc], rfl,
        hpart.outlinePart examples⟩

end Document

end Gherkin.Grammar
