import Gherkin.Proofs.Productions

/-
  The parser against the grammar: scenarios, backgrounds and whole documents. A document is read
  exactly if its lines up to the end of the text are derivable (`feature_eq_ok_iff`).
-/

namespace Gherkin.Cursor

/-- The lines ahead, up to the end of the text or the first fault. -/
def lines : Cursor → List Significant
  | line next rest => next :: rest.lines
  | _ => []

theorem lines_prepend (ls : List Significant) (c : Cursor) :
    (prepend ls c).lines = ls ++ c.lines := by
  induction ls with
  | nil => rfl
  | cons l ls ih => rw [prepend_cons, lines, ih, List.cons_append]

/-- Every tag line ahead has a tag. -/
def Tagged (c : Cursor) : Prop := ∀ l ∈ c.lines, ¬Grammar.TagLine l []

theorem Tagged.of_prepend {ls : List Significant} {c : Cursor} (h : (prepend ls c).Tagged) :
    c.Tagged := by
  intro l hl
  refine h l ?_
  rw [lines_prepend]
  exact List.mem_append_right _ hl

/-- Tag lines without tags are no lines. -/
theorem Tagged.eq_nil {tl : List Significant} {tss : List (List Tag)} {c : Cursor}
    (hc : (prepend tl c).Tagged) (h : List.Forall₂ Grammar.TagLine tl tss)
    (hnone : tss.flatten = []) : tl = [] := by
  cases h with
  | nil => rfl
  | cons first more =>
    rw [List.flatten_cons, List.append_eq_nil_iff] at hnone
    exact absurd (hnone.1 ▸ first) (hc _ (by rw [lines_prepend]; exact List.mem_cons_self))

end Gherkin.Cursor

namespace Gherkin.Parse

open Cursor Grammar

theorem result_lift {α : Type} (x : Except Fault α) : (Logged.lift x).result = x := rfl

theorem result_lift_bind {α β : Type} {x : Except Fault α} {a : α} (h : x = .ok a)
    (f : α → Logged Fault β) : (Logged.lift x >>= f).result = (f a).result := by
  rw [Logged.result_bind, result_lift, bind_ok h]

theorem result_report_bind {β : Type} (e : Event) (f : Unit → Logged Fault β) :
    (Logged.report e >>= f).result = (f ()).result := rfl

/-! ## Scenarios -/

theorem simpleBody_derives {l : Significant} {ts : List Tag} {name : String} {c rest : Cursor}
    {s : Scenario} (hl : l.line.kind = .heading .scenario name)
    (h : simpleBody ts name c = .ok (s, rest)) :
    ∃ ls, c = prepend ls rest ∧ ScenarioLines ts (l :: ls) s := by
  obtain ⟨⟨b, d⟩, hd, h⟩ := bind_eq_ok.1 h
  obtain ⟨ahead, -, h⟩ := bind_eq_ok.1 h
  split at h
  · exact (throw_eq_ok.1 h).elim
  · obtain ⟨rfl, rfl⟩ := Prod.mk.inj (pure_eq_ok.1 h)
    obtain ⟨ls, description, steps, rfl, hbody, rfl⟩ := block_derives hd
    exact ⟨ls, rfl, .simple hl hbody⟩

theorem outlineBody_derives {l : Significant} {ts : List Tag} {line : Nat} {name : String}
    {c rest : Cursor} {s : Scenario} (hl : l.line.kind = .heading .scenarioOutline name)
    (h : outlineBody ts line name c = .ok (s, rest)) :
    ∃ ls, c = prepend ls rest ∧ ScenarioLines ts (l :: ls) s := by
  obtain ⟨⟨b, d⟩, hd, h⟩ := bind_eq_ok.1 h
  obtain ⟨⟨gs, e⟩, he, h⟩ := bind_eq_ok.1 h
  dsimp only at h
  split at h
  · exact (throw_eq_ok.1 h).elim
  · rename_i hsome
    obtain ⟨rfl, rfl⟩ := Prod.mk.inj (pure_eq_ok.1 h)
    obtain ⟨ls, description, steps, rfl, hbody, rfl⟩ := block_derives hd
    obtain ⟨ms, header, rfl, hexamples, -, hheader⟩ := examplesTables_derives he
    refine ⟨ls ++ ms, (prepend_append _ _ _).symm, ?_⟩
    have hrows : (gs.flatMap fun g => g.table.rows) =
        (gs.map Grid.rows).flatMap fun r => r.table.rows := by
      rw [List.flatMap_map]; rfl
    have hsame : ∀ r ∈ gs.map Grid.rows, r.header = header := by
      intro r hr
      obtain ⟨g, hg, rfl⟩ := List.mem_map.1 hr
      exact hheader g hg
    rw [hrows]
    exact .outline hl hbody hexamples (by simpa using hsome) hsame

theorem scenario_derives {ts : List Tag} {c rest : Cursor} {s : Scenario}
    (h : (scenario ts c).result = .ok (s, rest)) :
    ∃ ls, c = prepend ls rest ∧ ScenarioLines ts ls s := by
  rw [scenario, Logged.result_bind] at h
  obtain ⟨⟨l, d⟩, hd, h⟩ := bind_eq_ok.1 h
  have hc := eq_line_of_take hd
  dsimp only at h
  split at h
  · rename_i name hk
    obtain ⟨ls, rfl, hls⟩ := simpleBody_derives hk h
    exact ⟨l :: ls, hc, hls⟩
  · rename_i name hk
    obtain ⟨ls, rfl, hls⟩ := outlineBody_derives hk h
    exact ⟨l :: ls, hc, hls⟩
  · exact (throw_eq_ok.1 h).elim

theorem scenario_prepend {ts : List Tag} {ls : List Significant} {s : Scenario} {rest : Cursor}
    (h : ScenarioLines ts ls s) (hrest : rest.Boundary) :
    (scenario ts (prepend ls rest)).result = .ok (s, rest) := by
  cases h with
  | @simple l ls name description steps first body =>
    rw [scenario, prepend_cons, result_lift_bind (take_line _ _)]
    dsimp only
    rw [first]
    dsimp only
    rw [result_report_bind, result_lift, simpleBody,
      bind_ok (block_prepend ts name body hrest.bodyEnd)]
    dsimp only
    rw [bind_ok (examplesAhead?_eq_none hrest)]
    rfl
  | @outline l ls es name description steps tables header first body examples nonempty same =>
    obtain ⟨gs, hgs, rfl⟩ := examplesTables_prepend none examples (by simp) same hrest
    have hsome : gs ≠ [] := by simpa using nonempty
    rw [scenario, prepend_cons, prepend_append, result_lift_bind (take_line _ _)]
    dsimp only
    rw [first]
    dsimp only
    rw [result_report_bind, result_lift, outlineBody,
      bind_ok (block_prepend ts name body (partEnd_examples examples hrest.bodyEnd))]
    dsimp only
    rw [bind_ok hgs]
    dsimp only
    rw [if_neg hsome, List.flatMap_map]
    rfl

theorem taggedScenario_derives {c rest : Cursor} {s : Scenario}
    (h : (taggedScenario c).result = .ok (s, rest)) :
    ∃ ls, c = prepend ls rest ∧ TaggedLines ls s := by
  rw [taggedScenario, Logged.result_bind] at h
  obtain ⟨⟨ts, d⟩, hd, h⟩ := bind_eq_ok.1 h
  obtain ⟨tl, tss, rfl, htags, rfl⟩ := tags_derives hd
  obtain ⟨ls, rfl, hls⟩ := scenario_derives h
  exact ⟨tl ++ ls, (prepend_append _ _ _).symm, .tagged htags hls⟩

theorem peek_scenarioLines {ts : List Tag} {ls : List Significant} {s : Scenario}
    (h : ScenarioLines ts ls s) (rest : Cursor) :
    ∃ next, (prepend ls rest).peek = .ok next ∧ opensScenario next.shape = true := by
  cases h with
  | simple first => exact ⟨_, rfl, by rw [first]; rfl⟩
  | outline first => exact ⟨_, rfl, by rw [first]; rfl⟩

theorem opensScenario_eq_true {s : Shape} :
    opensScenario s = true ↔ s = .heading .scenario ∨ s = .heading .scenarioOutline := by
  simp [opensScenario]

theorem tags_prepend_scenario {tl ls : List Significant} {tss : List (List Tag)} {ts : List Tag}
    {s : Scenario} (ht : List.Forall₂ TagLine tl tss) (hs : ScenarioLines ts ls s)
    (rest : Cursor) :
    tags (prepend (tl ++ ls) rest) = .ok (tss.flatten, prepend ls rest) := by
  obtain ⟨next, hn, hopens⟩ := peek_scenarioLines hs rest
  rw [prepend_append]
  refine tags_prepend ht hn ?_
  rcases opensScenario_eq_true.1 hopens with e | e <;> simp [e]

theorem taggedScenario_prepend {ls : List Significant} {s : Scenario} {rest : Cursor}
    (h : TaggedLines ls s) (hrest : rest.Boundary) :
    (taggedScenario (prepend ls rest)).result = .ok (s, rest) := by
  cases h with
  | tagged before block =>
    rw [taggedScenario, result_lift_bind (tags_prepend_scenario before block rest)]
    exact scenario_prepend block hrest

theorem scenarioAhead_prepend {ls : List Significant} {s : Scenario} (h : TaggedLines ls s)
    (rest : Cursor) : scenarioAhead (prepend ls rest) = .ok true := by
  cases h with
  | @tagged tl ls tss s before block =>
    obtain ⟨next, hn, hopens⟩ := peek_scenarioLines block rest
    unfold scenarioAhead
    rw [bind_ok (tags_prepend_scenario before block rest)]
    dsimp only
    rw [bind_ok hn, if_pos hopens]
    rfl

theorem boundary_scenarioLines {ts : List Tag} {ls : List Significant} {s : Scenario}
    (h : ScenarioLines ts ls s) (rest : Cursor) : (prepend ls rest).Boundary := by
  cases h with
  | simple first => exact .heading first (by simp)
  | outline first => exact .heading first (by simp)

theorem boundary_taggedLines {ls : List Significant} {ss : List Scenario} {rest : Cursor}
    (h : Star TaggedLines ls ss) (hrest : rest.Boundary) : (prepend ls rest).Boundary := by
  cases h with
  | nil => exact hrest
  | cons first more =>
    cases first with
    | tagged before block =>
      rw [prepend_append, prepend_append]
      exact (boundary_scenarioLines block _).prepend before

theorem eq_ended_of_peek {c : Cursor} {next : Peek} (h : c.peek = .ok next)
    (hs : next.shape = .end) : c = .ended next.line := by
  cases c with
  | line l c =>
    obtain rfl := Except.ok.inj h
    revert hs
    dsimp only
    cases l.line.kind <;> simp [Line.Kind.shape]
  | ended n =>
    obtain rfl := Except.ok.inj h
    rfl
  | failed f => cases h

theorem ended_of_scenarioAhead {c : Cursor} (hc : c.Tagged) (h : scenarioAhead c = .ok false) :
    ∃ n, c = .ended n := by
  obtain ⟨⟨ts, d⟩, hd, hnext⟩ := bind_eq_ok.1 h
  obtain ⟨next, hn, hnext⟩ := bind_eq_ok.1 hnext
  split at hnext
  · cases hnext
  · split at hnext
    · cases hnext
    · rename_i hts
      split at hnext
      · rename_i hend
        obtain ⟨tl, tss, rfl, htags, rfl⟩ := tags_derives hd
        refine ⟨next.line, ?_⟩
        rw [eq_ended_of_peek hn hend, hc.eq_nil htags (not_not.1 hts), prepend_nil]
      · cases hnext

theorem scenarios_eq_bind {c : Cursor} (ahead : scenarioAhead c = .ok true) :
    (scenarios c).result = (taggedScenario c).result >>= fun r =>
      (scenarios r.2).result >>= fun more => .ok (r.1 :: more) := by
  rw [scenarios, result_lift_bind ahead, if_pos rfl]
  split
  · rename_i h
    rw [h]
    rfl
  · rename_i first rest h
    rw [bind_ok h]
    show (scenarios rest).result.map (first :: ·) = (scenarios rest).result >>= _
    cases (scenarios rest).result <;> rfl

theorem scenarios_eq_nil {c : Cursor} (ahead : scenarioAhead c = .ok false) :
    (scenarios c).result = .ok [] := by
  rw [scenarios, result_lift_bind ahead]
  rfl

theorem scenarios_derives {c : Cursor} {ss : List Scenario} (hc : c.Tagged)
    (h : (scenarios c).result = .ok ss) :
    ∃ ls n, c = prepend ls (.ended n) ∧ Star TaggedLines ls ss := by
  induction hn : c.size using Nat.strongRecOn generalizing c ss with
  | _ n ih =>
    have hahead := h
    rw [scenarios, Logged.result_bind] at hahead
    obtain ⟨ahead, ha, -⟩ := bind_eq_ok.1 hahead
    cases ahead with
    | false =>
      obtain ⟨n, rfl⟩ := ended_of_scenarioAhead hc ha
      rw [scenarios_eq_nil ha] at h
      obtain rfl := Except.ok.inj h
      exact ⟨[], n, rfl, .nil⟩
    | true =>
      rw [scenarios_eq_bind ha] at h
      obtain ⟨⟨s, d⟩, ht, h⟩ := bind_eq_ok.1 h
      obtain ⟨more, hmore, h⟩ := bind_eq_ok.1 h
      obtain rfl := Except.ok.inj h
      obtain ⟨ls, rfl, hs⟩ := taggedScenario_derives ht
      obtain ⟨ms, m, rfl, hms⟩ :=
        ih d.size (hn ▸ size_of_taggedScenario ht) hc.of_prepend hmore rfl
      exact ⟨ls ++ ms, m, (prepend_append _ _ _).symm, .cons hs hms⟩

theorem scenarios_prepend {ls : List Significant} {ss : List Scenario} (n : Nat)
    (h : Star TaggedLines ls ss) : (scenarios (prepend ls (.ended n))).result = .ok ss := by
  induction h with
  | nil => rw [prepend_nil, scenarios]; rfl
  | cons first more ih =>
    rw [prepend_append, scenarios_eq_bind (scenarioAhead_prepend first _),
      bind_ok (taggedScenario_prepend first (boundary_taggedLines more (.ended n))), bind_ok ih]

/-! ## Documents -/

theorem tags_prepend_heading {tl : List Significant} {tss : List (List Tag)} {l : Significant}
    {h : Heading} {name : String} (ht : List.Forall₂ TagLine tl tss)
    (hl : l.line.kind = .heading h name) (rest : Cursor) :
    tags (prepend tl (.line l rest)) = .ok (tss.flatten, .line l rest) := by
  have hn : Cursor.peek (.line l rest) = .ok ⟨.heading h, l.line.number, l.afterBlank⟩ := by
    rw [Cursor.peek, hl]; rfl
  exact tags_prepend ht hn (by simp)

theorem background_derives {ts : List Tag} {c rest : Cursor} {b : Block}
    (h : (background ts c).result = .ok (b, rest)) :
    ∃ l ls name description steps, c = prepend (l :: ls) rest ∧
      l.line.kind = .heading .background name ∧ BodyLines ls description steps ∧
      b = ⟨name, description, ts, steps⟩ := by
  rw [background, Logged.result_bind] at h
  obtain ⟨⟨⟨line, name⟩, d⟩, hd, hblock⟩ := bind_eq_ok.1 h
  obtain ⟨ls, description, steps, rfl, hbody, rfl⟩ := block_derives hblock
  obtain ⟨l, rfl, hk, -⟩ := heading_eq_ok_iff.1 hd
  exact ⟨l, ls, name, description, steps, rfl, hk, hbody, rfl⟩

theorem background?_derives {c rest : Cursor} {b : Option Block}
    (h : (background? c).result = .ok (b, rest)) :
    ∃ ls, c = prepend ls rest ∧ Opt BackgroundLines ls b := by
  rw [background?, Logged.result_bind] at h
  obtain ⟨⟨ts, d⟩, hd, hnext⟩ := bind_eq_ok.1 h
  dsimp only at hnext
  rw [Logged.result_bind] at hnext
  obtain ⟨next, -, hblock⟩ := bind_eq_ok.1 hnext
  split at hblock
  · rw [Logged.result_bind] at hblock
    obtain ⟨⟨b, e⟩, he, hb⟩ := bind_eq_ok.1 hblock
    obtain ⟨rfl, rfl⟩ := Prod.mk.inj (Except.ok.inj hb)
    obtain ⟨tl, tss, rfl, htags, rfl⟩ := tags_derives hd
    obtain ⟨l, ls, name, description, steps, rfl, hk, hbody, rfl⟩ := background_derives he
    exact ⟨tl ++ l :: ls, (prepend_append _ _ _).symm, .some (.background htags hk hbody)⟩
  · obtain ⟨rfl, rfl⟩ := Prod.mk.inj (Except.ok.inj hblock)
    exact ⟨[], rfl, .none⟩

theorem background?_prepend {ls : List Significant} {b : Option Block} {ms : List Significant}
    {ss : List Scenario} {rest : Cursor} (h : Opt BackgroundLines ls b)
    (hs : Star TaggedLines ms ss) (hrest : rest.Boundary) (nonempty : ss ≠ []) :
    (background? (prepend ls (prepend ms rest))).result = .ok (b, prepend ms rest) := by
  have hboundary := boundary_taggedLines hs hrest
  cases h with
  | some part =>
    cases part with
    | @background l tl ls tss name description steps before first body =>
      have hl : heading .background (.line l (prepend ls (prepend ms rest))) =
          .ok ((l.line.number, name), prepend ls (prepend ms rest)) :=
        heading_eq_ok_iff.2 ⟨l, rfl, first, rfl⟩
      have hn : Cursor.peek (.line l (prepend ls (prepend ms rest))) =
          .ok ⟨.heading .background, l.line.number, l.afterBlank⟩ := by
        rw [Cursor.peek, first]; rfl
      rw [background?, prepend_append, prepend_cons,
        result_lift_bind (tags_prepend_heading before first _)]
      dsimp only
      rw [result_lift_bind hn, if_pos rfl, background, Logged.result_bind, result_lift_bind hl]
      dsimp only
      rw [result_report_bind, result_lift,
        bind_ok (block_prepend tss.flatten name body hboundary.bodyEnd)]
      rfl
  | none =>
    cases hs with
    | nil => exact absurd rfl nonempty
    | @cons ls ms s ss one more =>
      cases one with
      | @tagged tl ls tss s before block =>
        obtain ⟨next, hn, hopens⟩ := peek_scenarioLines block (prepend ms rest)
        have hother : next.shape ≠ .heading .background := by
          rcases opensScenario_eq_true.1 hopens with e | e <;> simp [e]
        have htags := tags_prepend_scenario before block (prepend ms rest)
        rw [background?, prepend_nil, prepend_append, result_lift_bind htags]
        dsimp only
        rw [result_lift_bind hn, if_neg hother]
        rfl

/-- The heading of a feature whose tags were read. -/
def opening (ts : List Tag) (c : Cursor) : Except Fault ((Nat × String) × Cursor) :=
  c.peek >>= fun next => if next.shape = .heading .feature then heading .feature c
    else .error (next.reject (headingFault ts) (.heading .feature))

/-- The scenarios of a feature, at least one, and with them the feature. -/
def closing (ts : List Tag) (name : String) (description : Option String) (b : Option Block)
    (c : Cursor) : Except Fault Feature :=
  (scenarios c).result >>= fun ss => if ss = [] then
      c.peek >>= fun last => .error ⟨last.line, .noScenarios name⟩
    else .ok ⟨name, description, ts, b, ss⟩

/-- The background and the scenarios of a feature. -/
def sections (ts : List Tag) (name : String) (description : Option String) (c : Cursor) :
    Except Fault Feature :=
  (background? c).result >>= fun b => closing ts name description b.1 b.2

/-- A feature after its heading. -/
def underHeading (ts : List Tag) (name : String) (c : Cursor) : Except Fault Feature :=
  description c >>= fun d => sections ts name d.1 d.2

theorem feature_eq (c : Cursor) : (feature c).result = tags c >>= fun r =>
    opening r.1 r.2 >>= fun o => underHeading r.1 o.1.2 o.2 := by
  rw [feature, Logged.result_bind]
  refine bind_congr fun ⟨ts, d⟩ => ?_
  dsimp only
  rw [Logged.result_bind, result_lift]
  cases hnext : d.peek with
  | error f =>
    rw [opening, hnext]
    rfl
  | ok next =>
    rw [opening, hnext, bind_ok rfl, bind_ok rfl]
    split
    · rw [Logged.result_bind]
      refine bind_congr fun ⟨⟨n, name⟩, d⟩ => ?_
      dsimp only
      rw [Logged.result_bind]
      refine bind_congr fun ⟨description, d⟩ => ?_
      dsimp only
      rw [result_report_bind, Logged.result_bind]
      refine bind_congr fun ⟨b, d⟩ => ?_
      dsimp only
      rw [Logged.result_bind]
      refine bind_congr fun ss => ?_
      split
      · rw [Logged.result_bind]
        rfl
      · rfl
    · rfl

theorem opening_eq_ok_iff {ts : List Tag} {c : Cursor} {r : (Nat × String) × Cursor} :
    opening ts c = .ok r ↔ heading .feature c = .ok r := by
  constructor
  · intro h
    obtain ⟨next, -, h⟩ := bind_eq_ok.1 h
    split at h
    · exact h
    · cases h
  · intro h
    obtain ⟨⟨n, name⟩, rest⟩ := r
    obtain ⟨l, rfl, hl, -⟩ := heading_eq_ok_iff.1 h
    have hshape : l.line.kind.shape = .heading .feature := by
      rw [hl]
      rfl
    rw [opening, Cursor.peek, bind_ok rfl, if_pos hshape, h]

theorem feature_derives {c : Cursor} {f : Feature} (hc : c.Tagged)
    (h : (feature c).result = .ok f) :
    ∃ ls n, c = prepend ls (.ended n) ∧ DocumentLines ls f := by
  rw [feature_eq] at h
  obtain ⟨⟨ts, d⟩, htags, h⟩ := bind_eq_ok.1 h
  obtain ⟨⟨⟨line, name⟩, d⟩, hopening, h⟩ := bind_eq_ok.1 h
  obtain ⟨⟨description, d⟩, hdescription, h⟩ := bind_eq_ok.1 h
  obtain ⟨⟨b, d⟩, hbackground, h⟩ := bind_eq_ok.1 h
  obtain ⟨ss, hscenarios, h⟩ := bind_eq_ok.1 h
  split at h
  · obtain ⟨_, -, h⟩ := bind_eq_ok.1 h
    cases h
  · rename_i hsome
    obtain rfl := Except.ok.inj h
    obtain ⟨tl, tss, rfl, htl, rfl⟩ := tags_derives htags
    obtain ⟨l, rfl, hl, -⟩ := heading_eq_ok_iff.1 (opening_eq_ok_iff.1 hopening)
    obtain ⟨ds, rfl, hds⟩ := description_derives hdescription
    obtain ⟨bs, rfl, hbs⟩ := background?_derives hbackground
    have htagged : d.Tagged := by
      rw [← prepend_cons] at hc
      exact hc.of_prepend.of_prepend.of_prepend
    obtain ⟨ls, n, rfl, hls⟩ := scenarios_derives htagged hscenarios
    refine ⟨tl ++ l :: (ds ++ (bs ++ ls)), n, ?_, .document htl hl hds hbs hls hsome⟩
    simp only [prepend_append, prepend_cons]

theorem partEnd_background {ls : List Significant} {b : Option Block} {rest : Cursor}
    (h : Opt BackgroundLines ls b) (hrest : rest.Boundary) : (prepend ls rest).Boundary := by
  cases h with
  | none => exact hrest
  | some part =>
    cases part with
    | background before first body =>
      rw [prepend_append, prepend_cons]
      exact (Boundary.heading first (by simp)).prepend before

theorem feature_prepend {ls : List Significant} {f : Feature} (n : Nat)
    (h : DocumentLines ls f) : (feature (prepend ls (.ended n))).result = .ok f := by
  cases h with
  | @document l ts ds bs ls tss name description b ss before first opening steps rest nonempty =>
    have hend := Boundary.ended n
    have hdescription := partEnd_background steps (boundary_taggedLines rest hend)
    simp only [prepend_append, prepend_cons]
    generalize hd : prepend ds (prepend bs (prepend ls (.ended n))) = d
    have hl : Parse.opening tss.flatten (.line l d) = .ok ((l.line.number, name), d) :=
      opening_eq_ok_iff.2 (heading_eq_ok_iff.2 ⟨l, rfl, first, rfl⟩)
    rw [feature_eq, bind_ok (tags_prepend_heading before first d), bind_ok hl, underHeading, ← hd,
      bind_ok (description_prepend opening hdescription.bodyEnd.partEnd), sections,
      bind_ok (background?_prepend steps rest hend nonempty), closing,
      bind_ok (scenarios_prepend n rest), if_neg nonempty]

/-- A document is read exactly if its lines up to the end of the text are derivable. -/
theorem feature_eq_ok_iff {c : Cursor} {f : Feature} (hc : c.Tagged) :
    (feature c).result = .ok f ↔ ∃ ls n, c = prepend ls (.ended n) ∧ DocumentLines ls f := by
  constructor
  · exact feature_derives hc
  · rintro ⟨ls, n, rfl, h⟩
    exact feature_prepend n h

/-- A lone scenario is read exactly if its lines up to the end of the text are derivable. -/
theorem loneScenario_eq_ok_iff {c : Cursor} {s : Scenario} :
    (loneScenario c).result = .ok s ↔ ∃ ls n, c = prepend ls (.ended n) ∧ TaggedLines ls s := by
  constructor
  · intro h
    rw [loneScenario, Logged.result_bind] at h
    obtain ⟨⟨ts, d⟩, hd, hnext⟩ := bind_eq_ok.1 h
    dsimp only at hnext
    rw [Logged.result_bind] at hnext
    obtain ⟨next, -, hopen⟩ := bind_eq_ok.1 hnext
    split at hopen
    · rw [Logged.result_bind] at hopen
      obtain ⟨⟨s, e⟩, he, hlast⟩ := bind_eq_ok.1 hopen
      dsimp only at hlast
      rw [Logged.result_bind] at hlast
      obtain ⟨last, hl, hend⟩ := bind_eq_ok.1 hlast
      split at hend
      · rename_i hshape
        obtain rfl := Except.ok.inj hend
        obtain ⟨tl, tss, rfl, htags, rfl⟩ := tags_derives hd
        obtain ⟨ls, rfl, hls⟩ := scenario_derives he
        refine ⟨tl ++ ls, last.line, ?_, .tagged htags hls⟩
        rw [prepend_append, ← eq_ended_of_peek hl hshape]
      · exact (throw_eq_ok.1 hend).elim
    · exact (throw_eq_ok.1 hopen).elim
  · rintro ⟨ls, n, rfl, h⟩
    cases h with
    | @tagged tl ls tss s before block =>
      obtain ⟨next, hn, hopens⟩ := peek_scenarioLines block (.ended n)
      rw [loneScenario, result_lift_bind (tags_prepend_scenario before block _)]
      dsimp only
      rw [result_lift_bind hn, if_pos hopens, Logged.result_bind,
        bind_ok (scenario_prepend block (.ended n))]
      rfl

end Gherkin.Parse
