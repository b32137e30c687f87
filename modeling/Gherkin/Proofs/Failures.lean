import Gherkin.Proofs.Stops

/-
  Where the parser stops in sections and documents. A document that is refused stops after lines
  that begin a document, unless a table among them breaks a rule (`feature_stops`); so does a
  scenario on its own (`loneScenario_stops`). Only the first significant line can be refused for
  not being a heading (`Misopens`).
-/

namespace Gherkin.Parse

open Cursor Grammar

/-! ## Scenarios -/

/-- A heading that is seen is taken. -/
theorem heading_of_peek {c : Cursor} {next : Peek} {k : Heading} (hnext : c.peek = .ok next)
    (hshape : next.shape = .heading k) :
    ∃ l rest name, c = .line l rest ∧ l.line.kind = .heading k name ∧
      heading k (.line l rest) = .ok ((l.line.number, name), rest) := by
  obtain ⟨l, rest, rfl, rfl⟩ := line_of_peek hnext (by simp [hshape])
  obtain ⟨name, hl⟩ := Line.Kind.exists_heading hshape
  exact ⟨l, rest, name, rfl, hl, heading_eq_ok_iff.2 ⟨l, rfl, hl, rfl⟩⟩

theorem passage_heading (h : Heading) : Passage [.heading h ""] := .line ⟨rfl, by decide⟩ trivial

theorem begins_scenario (ts : List Tag) : Begins (ScenarioLines ts) [] := by
  have hbody : BodyLines ([] ++ []) none [] := .body .absent .nil
  exact ⟨_, passage_heading .scenario, fun _ => ⟨_, .simple rfl hbody⟩⟩

/-- The lines after the heading of a scenario. -/
def ScenarioUnder (l : Significant) (ts : List Tag) (ls : List Significant) (s : Scenario) :
    Prop := ScenarioLines ts (l :: ls) s

theorem simpleBody_stops {l : Significant} {ts : List Tag} {name : String} {c : Cursor}
    {f : Fault} (h : simpleBody ts name c = .error f) (hl : l.line.kind = .heading .scenario name)
    (hc : c.Readable) :
    Stops (ScenarioUnder l ts) (fun t => t.Settled ∧ t.first = none) c f := by
  obtain hblock | ⟨⟨b, d⟩, hblock, hbody⟩ := bind_eq_error.1 h
  · exact (block_stops hblock hc).within [] (fun t ht => ⟨t, rfl, ht.1⟩) fun ms v hv =>
      begins_of (ScenarioLines.simple hl hv)
  obtain ⟨ls, description, steps, rfl, hlines, -⟩ := block_derives hblock
  have hscenario : Begins (ScenarioUnder l ts) ls := begins_of (ScenarioLines.simple hl hlines)
  obtain hahead | ⟨ahead, hahead, hrest⟩ := bind_eq_error.1 hbody
  · exact Stops.here (examplesAhead?_shows hahead) hscenario
  split at hrest
  · rename_i n
    obtain rfl := throw_eq_error.1 hrest
    obtain ⟨k, rest, _, rfl, -, hnumber⟩ := line_of_examplesAhead? hahead
    have hshows : (Cursor.line k rest).Shows ⟨n, .examplesInScenario⟩ :=
      .line hnumber.symm trivial
    exact Stops.here hshows hscenario
  · exact absurd hrest pure_ne_error

/-- An outline after its heading: a body and examples. -/
theorem outline_under {l : Significant} {ts : List Tag} {name : String}
    {ls es : List Significant} {v : Option String × List Step} {rs : List Rows}
    (hl : l.line.kind = .heading .scenarioOutline name) (hbody : Body ls v)
    (hes : ExamplesAfter none es rs) : ∃ s, ScenarioUnder l ts (ls ++ es) s := by
  obtain ⟨hstar, hne, header, -, hsame⟩ := hes
  exact ⟨_, .outline hl hbody hstar hne hsame⟩

theorem outlineBody_stops {l : Significant} {ts : List Tag} {line : Nat} {name : String}
    {c : Cursor} {f : Fault} (h : outlineBody ts line name c = .error f)
    (hl : l.line.kind = .heading .scenarioOutline name) (hc : c.Readable) :
    f = ⟨line, .missingExamples name⟩ ∨
      Stops (ScenarioUnder l ts) (fun t => t.Settled ∧ t.first = none) c f := by
  have hnone : ∀ header ∈ (none : Option (List String)), HeaderWellFormed header := by simp
  obtain hblock | ⟨⟨b, d⟩, hblock, hexamples⟩ := bind_eq_error.1 h
  · refine .inr ((block_stops hblock hc).within [] (fun t ht => ⟨t, rfl, ht.1⟩) fun ms v hv => ?_)
    obtain ⟨ks, hks, hall⟩ := begins_examplesAfter hnone
    refine ⟨ks, hks, fun blank => ?_⟩
    obtain ⟨rs, hrs⟩ := hall blank
    exact outline_under hl hv hrs
  obtain ⟨ls, description, steps, rfl, hbody, -⟩ := block_derives hblock
  obtain htables | ⟨⟨gs, rest⟩, -, hgrids⟩ := bind_eq_error.1 hexamples
  · obtain ⟨-, -, hd⟩ := keeps_body hbody (by rwa [Readable, kindsAhead_prepend] at hc)
    refine .inr ((examplesTables_stops hnone htables hd).within ls (fun t ht => ?_)
      fun ms rs hrs => ?_)
    · obtain ⟨u, hu, hsettled, hfirst⟩ := passes_body hbody ht.1
      exact ⟨u, hu, hsettled, hfirst.trans ht.2⟩
    · obtain ⟨s, hs⟩ := outline_under (v := (description, steps)) hl hbody hrs
      exact begins_of hs
  · dsimp only at hgrids
    split at hgrids
    · exact .inl (throw_eq_error.1 hgrids).symm
    · exact absurd hgrids pure_ne_error

theorem scenario_stops {ts : List Tag} {c : Cursor} {next : Peek} {f : Fault}
    (h : (scenario ts c).result = .error f) (hnext : c.peek = .ok next)
    (hopens : opensScenario next.shape = true) (hc : c.Readable) :
    Stops (ScenarioLines ts) Tables.Settled c f := by
  have hline : next.shape ≠ .end := by
    intro hend
    rw [hend] at hopens
    cases hopens
  obtain ⟨l, rest, rfl, rfl⟩ := line_of_peek hnext hline
  rw [scenario, result_lift_bind (take_line _ _)] at h
  dsimp only at h
  have hrun {name : String} {k : Heading} (hl : l.line.kind = .heading k name)
      (hk : k ≠ .examples) : ∀ t : Tables, t.Settled →
        ∃ u, t.run [l] = some u ∧ u.Settled ∧ u.first = none := fun t ht =>
    ⟨_, Tables.run_cons_some (step_heading ht hl hk) rfl, settled_outside none, rfl⟩
  rcases opensScenario_eq_true.1 hopens with hshape | hshape
  · obtain ⟨name, hl⟩ := Line.Kind.exists_heading hshape
    obtain ⟨-, hrest⟩ := hc.line (by simp [hl])
    rw [hl] at h
    exact (simpleBody_stops h hl hrest).within [l] (hrun hl (by simp)) fun ms s hs => begins_of hs
  · obtain ⟨name, hl⟩ := Line.Kind.exists_heading hshape
    obtain ⟨-, hrest⟩ := hc.line (by simp [hl])
    rw [hl] at h
    obtain rfl | hstops := outlineBody_stops h hl hrest
    · refine Stops.here (.line rfl ?_) (begins_scenario ts)
      rw [hl]
      trivial
    · exact hstops.within [l] (hrun hl (by simp)) fun ms s hs => begins_of hs

/-! ## Scenarios with their tags -/

/-- Tag lines begin a scenario with its tags. -/
theorem begins_tagged {ls : List Significant} {tss : List (List Tag)}
    (h : List.Forall₂ TagLine ls tss) : Begins TaggedLines ls := by
  obtain ⟨ks, hks, hall⟩ := begins_scenario tss.flatten
  refine ⟨ks, hks, fun blank => ?_⟩
  obtain ⟨s, hs⟩ := hall blank
  exact ⟨s, .tagged h hs⟩

theorem taggedScenario_stops {c : Cursor} {f : Fault}
    (h : (taggedScenario c).result = .error f) (ahead : scenarioAhead c = .ok true)
    (hc : c.Readable) : Stops TaggedLines Tables.Settled c f := by
  obtain ⟨⟨ts, d⟩, htags, ahead⟩ := bind_eq_ok.1 ahead
  obtain ⟨next, hnext, ahead⟩ := bind_eq_ok.1 ahead
  rw [taggedScenario, result_lift_bind htags] at h
  have hopens : opensScenario next.shape = true := by
    by_contra hother
    rw [if_neg hother] at ahead
    split at ahead
    · cases ahead
    · split at ahead <;> cases ahead
  obtain ⟨tl, tss, rfl, hlines, rfl⟩ := tags_derives htags
  obtain ⟨-, hd⟩ := keeps_tagLines.readable hlines hc
  exact (scenario_stops h hnext hopens hd).within tl (fun t ht => settles_tagLines hlines ht)
    fun ms s hs => begins_of (.tagged hlines hs)

/-- Scenarios with their tags, at least one. -/
def ScenariosLines (ls : List Significant) (ss : List Scenario) : Prop :=
  Star TaggedLines ls ss ∧ ss ≠ []

theorem ScenariosLines.single {ls : List Significant} {s : Scenario} (h : TaggedLines ls s) :
    ScenariosLines ls [s] := ⟨.single h, List.cons_ne_nil _ _⟩

theorem begins_scenarios {ls : List Significant} {tss : List (List Tag)}
    (h : List.Forall₂ TagLine ls tss) : Begins ScenariosLines ls :=
  (begins_tagged h).imp fun _ _ hs => ⟨_, .single hs⟩

theorem scenarioAhead_stops {c : Cursor} {f : Fault} (h : scenarioAhead c = .error f) :
    Stops ScenariosLines Tables.Settled c f := by
  obtain htags | ⟨⟨ts, d⟩, htags, hnext⟩ := bind_eq_error.1 h
  · obtain ⟨ls, tss, rfl, hlines⟩ := tags_fails htags
    exact Stops.here .failed (begins_scenarios hlines)
  obtain ⟨tl, tss, rfl, hlines, rfl⟩ := tags_derives htags
  have hbegins := begins_scenarios hlines
  obtain hpeek | ⟨next, hpeek, hother⟩ := bind_eq_error.1 hnext
  · exact Stops.here (shows_of_peek hpeek) hbegins
  split at hother
  · exact absurd hother pure_ne_error
  · split at hother
    · obtain rfl := throw_eq_error.1 hother
      exact Stops.here (shows_reject hpeek _) hbegins
    · split at hother
      · exact absurd hother pure_ne_error
      · obtain rfl := throw_eq_error.1 hother
        exact Stops.here (shows_reject hpeek _) hbegins

theorem scenarios_stops {c : Cursor} {f : Fault} (h : (scenarios c).result = .error f)
    (hc : c.Readable) : Stops ScenariosLines Tables.Settled c f := by
  -- on the lines ahead, of which a scenario takes at least one
  induction hn : c.size using Nat.strongRecOn generalizing c with
  | _ n ih =>
    have hscenarios := h
    rw [scenarios, Logged.result_bind] at hscenarios
    obtain hahead | ⟨ahead, hahead, -⟩ := bind_eq_error.1 hscenarios
    · exact scenarioAhead_stops hahead
    cases ahead with
    | false =>
      rw [scenarios_eq_nil hahead] at h
      cases h
    | true =>
      rw [scenarios_eq_bind hahead] at h
      obtain htagged | ⟨⟨s, d⟩, htagged, h⟩ := bind_eq_error.1 h
      · exact (taggedScenario_stops htagged hahead hc).extend fun ms s hs => begins_of (.single hs)
      obtain hmore | ⟨_, -, hpure⟩ := bind_eq_error.1 h
      · obtain ⟨ls, rfl, hs⟩ := taggedScenario_derives htagged
        obtain ⟨-, hd⟩ := keeps_tagged.readable hs hc
        exact (ih d.size (hn ▸ size_of_taggedScenario htagged) hmore hd rfl).within ls
          (fun t ht => settles_tagged hs ht)
          fun ms ss hss => begins_of ⟨.cons hs hss.1, List.cons_ne_nil _ _⟩
      · cases hpure

/-! ## Backgrounds -/

/-- The lines of a document after its description. -/
def RestLines (ls : List Significant) (v : Option Block × List Scenario) : Prop :=
  ∃ bs ms, ls = bs ++ ms ∧ Opt BackgroundLines bs v.1 ∧ ScenariosLines ms v.2

theorem ScenariosLines.rest {ls ms : List Significant} {b : Option Block} {ss : List Scenario}
    (hs : ScenariosLines ms ss) (hb : Opt BackgroundLines ls b) :
    RestLines (ls ++ ms) (b, ss) := ⟨ls, ms, rfl, hb, hs⟩

/-- A background or none begins what stands after a description. -/
theorem begins_rest {ls : List Significant} {b : Option Block} (hb : Opt BackgroundLines ls b) :
    Begins RestLines ls := by
  obtain ⟨ks, hks, hall⟩ := begins_scenarios .nil
  refine ⟨ks, hks, fun blank => ?_⟩
  obtain ⟨ss, hss⟩ := hall blank
  exact ⟨_, hss.rest hb⟩

theorem background?_stops {c : Cursor} {f : Fault} (h : (background? c).result = .error f)
    (hc : c.Readable) : Stops RestLines Tables.Settled c f := by
  rw [background?, Logged.result_bind] at h
  obtain htags | ⟨⟨ts, d⟩, htags, hnext⟩ := bind_eq_error.1 h
  · obtain ⟨ls, tss, rfl, hlines⟩ := tags_fails htags
    exact Stops.here .failed ((begins_scenarios hlines).imp fun _ _ hs => ⟨_, hs.rest .none⟩)
  obtain ⟨tl, tss, rfl, hlines, rfl⟩ := tags_derives htags
  dsimp only at hnext
  rw [Logged.result_bind] at hnext
  obtain hpeek | ⟨next, hpeek, hblock⟩ := bind_eq_error.1 hnext
  · exact Stops.here (shows_of_peek hpeek)
      ((begins_scenarios hlines).imp fun _ _ hs => ⟨_, hs.rest .none⟩)
  split at hblock
  · rename_i hshape
    rw [Logged.result_bind] at hblock
    obtain hblock | ⟨_, -, hpure⟩ := bind_eq_error.1 hblock
    · obtain ⟨l, rest, name, rfl, hl, hheading⟩ := heading_of_peek hpeek hshape
      obtain ⟨-, hd⟩ := keeps_tagLines.readable hlines hc
      obtain ⟨-, hrest⟩ := hd.line (by simp [hl])
      rw [background, result_lift_bind hheading] at hblock
      have hstops := block_stops hblock hrest
      rw [show prepend tl (.line l rest) = prepend (tl ++ [l]) rest by rw [prepend_append]; rfl]
      refine hstops.within (tl ++ [l]) (fun t ht => ?_) fun ms v hv => ?_
      · obtain ⟨u, hu, hsettled⟩ := settles_tagLines hlines ht
        have hopen := step_heading hsettled hl (by simp)
        exact ⟨_, Tables.run_append_some hu (Tables.run_cons_some hopen rfl), settled_outside none⟩
      · have hbackground : BackgroundLines (tl ++ l :: ms) ⟨name, v.1, tss.flatten, v.2⟩ :=
          .background hlines hl hv
        rw [List.append_assoc, List.singleton_append]
        exact begins_rest (.some hbackground)
    · exact absurd hpure pure_ne_error
  · exact absurd hblock pure_ne_error

/-! ## Openings -/

/-- The first line is no heading that opens the text. -/
def Misopens (opens : Shape → Bool) (c : Cursor) (f : Fault) : Prop :=
  f.kind = .malformed ∧ ∃ l rest, c = .line l rest ∧ f.line = l.line.number ∧
    opens l.line.kind.shape = false

/-- Without its heading a text is refused at its first line, or after tags. -/
theorem misopens_or_stops {α : Type} {P : List Significant → α → Prop} {T : Tables → Prop}
    {opens : Shape → Bool} {tl : List Significant} {tss : List (List Tag)} {d : Cursor}
    {next : Peek} (wanted : Wanted) (hc : (prepend tl d).Tagged)
    (htags : List.Forall₂ TagLine tl tss) (hnext : d.peek = .ok next)
    (hother : opens next.shape = false) (hbegins : Begins P tl) :
    Misopens opens (prepend tl d) (next.reject (headingFault tss.flatten) wanted) ∨
      Stops P T (prepend tl d) (next.reject (headingFault tss.flatten) wanted) := by
  by_cases hnone : tss.flatten = []
  · cases d with
    | failed g => cases hnext
    | ended n =>
      obtain rfl := Except.ok.inj hnext
      have hshows : (Cursor.ended n).Shows
          (Peek.reject ⟨.end, n, false⟩ (headingFault tss.flatten) wanted) := .ended rfl rfl
      exact .inr (Stops.here hshows hbegins)
    | line l rest =>
      obtain rfl := Except.ok.inj hnext
      obtain rfl := hc.eq_nil htags hnone
      have hkind : headingFault tss.flatten = .malformed := if_pos hnone
      refine .inl ⟨?_, l, rest, rfl, rfl, hother⟩
      rw [hkind]
      exact if_neg (Line.Kind.shape_ne_end _)
  · have hkind : headingFault tss.flatten = .unexpectedLine := if_neg hnone
    rw [hkind]
    exact .inr (Stops.here (shows_reject hnext wanted) hbegins)

/-! ## Documents -/

section Document

variable {l : Significant} {tl ds : List Significant} {tss : List (List Tag)} {name : String}
  {description : Option String}

/-- A document goes on after its description. -/
theorem document_of_rest {ms : List Significant} {v : Option Block × List Scenario}
    (htags : List.Forall₂ TagLine tl tss) (hl : l.line.kind = .heading .feature name)
    (hds : DescriptionLines ds description) (h : RestLines ms v) :
    ∃ f, DocumentLines (tl ++ l :: (ds ++ ms)) f := by
  obtain ⟨bs, ns, rfl, hbackground, hstar, hne⟩ := h
  exact ⟨_, .document htags hl hds hbackground hstar hne⟩

theorem begins_of_rest {ms : List Significant} (htags : List.Forall₂ TagLine tl tss)
    (hl : l.line.kind = .heading .feature name) (hds : DescriptionLines ds description)
    (h : Begins RestLines ms) : Begins DocumentLines (tl ++ l :: (ds ++ ms)) := by
  obtain ⟨ks, hks, hall⟩ := h
  refine ⟨ks, hks, fun blank => ?_⟩
  obtain ⟨v, hv⟩ := hall blank
  obtain ⟨f, hf⟩ := document_of_rest htags hl hds hv
  exact ⟨f, by simpa only [List.append_assoc, List.cons_append] using hf⟩

/-- Tag lines begin a document. -/
theorem begins_document (htags : List.Forall₂ TagLine tl tss) : Begins DocumentLines tl := by
  obtain ⟨ks, hks, hall⟩ := begins_rest .none
  obtain ⟨v, hv⟩ := hall false
  refine ⟨_, (passage_heading .feature).append hks, fun blank => ?_⟩
  rw [List.nil_append, after_false] at hv
  exact document_of_rest htags rfl .absent hv

/-- The tables after tag lines, a heading and a description. -/
theorem settles_opening {t : Tables} (htags : List.Forall₂ TagLine tl tss)
    (hl : l.line.kind = .heading .feature name) (hds : DescriptionLines ds description)
    (ht : t.Settled) : ∃ u, t.run (tl ++ l :: ds) = some u ∧ u.Settled := by
  obtain ⟨u, hu, hsettled⟩ := settles_tagLines htags ht
  obtain ⟨w, hw, hopening, -⟩ := passes_description hds (settled_outside none)
  have hheading := step_heading hsettled hl (by simp)
  exact ⟨w, Tables.run_append_some hu (Tables.run_cons_some hheading hw), hopening⟩

theorem stops_in_background {c : Cursor} {f : Fault} (htags : List.Forall₂ TagLine tl tss)
    (hl : l.line.kind = .heading .feature name) (hds : DescriptionLines ds description)
    (h : (background? c).result = .error f) (hc : c.Readable) :
    Stops DocumentLines Tables.Settled (prepend (tl ++ l :: ds) c) f := by
  refine (background?_stops h hc).within _ (fun t ht => settles_opening htags hl hds ht)
    fun ms v hv => ?_
  obtain ⟨f, hf⟩ := document_of_rest htags hl hds hv
  rw [List.append_assoc, List.cons_append]
  exact begins_of hf

variable {bs : List Significant} {b : Option Block}

theorem stops_in_scenarios {c : Cursor} {f : Fault} (htags : List.Forall₂ TagLine tl tss)
    (hl : l.line.kind = .heading .feature name) (hds : DescriptionLines ds description)
    (hbs : Opt BackgroundLines bs b) (h : (scenarios c).result = .error f) (hc : c.Readable) :
    Stops DocumentLines Tables.Settled (prepend (tl ++ l :: ds ++ bs) c) f := by
  refine (scenarios_stops h hc).within _ (fun t ht => ?_) fun ms ss hss => ?_
  · obtain ⟨u, hu, hsettled⟩ := settles_opening htags hl hds ht
    obtain ⟨w, hw, hsettled'⟩ := settles_background hbs hsettled
    exact ⟨w, Tables.run_append_some hu hw, hsettled'⟩
  · obtain ⟨f, hf⟩ := document_of_rest htags hl hds (hss.rest hbs)
    refine begins_of (v := f) ?_
    simpa only [List.append_assoc, List.cons_append] using hf

/-- Without scenarios the text ends before its document does. -/
theorem stops_without_scenarios {c : Cursor} (htags : List.Forall₂ TagLine tl tss)
    (hl : l.line.kind = .heading .feature name) (hds : DescriptionLines ds description)
    (hbs : Opt BackgroundLines bs b) (h : (scenarios c).result = .ok []) (hc : c.Tagged) :
    ∃ n, c = .ended n ∧ Stops DocumentLines Tables.Settled (prepend (tl ++ l :: ds ++ bs) c)
      ⟨n, .noScenarios name⟩ := by
  obtain ⟨ls, n, rfl, hls⟩ := scenarios_derives hc h
  cases hls
  have hbegins := begins_of_rest htags hl hds (begins_rest hbs)
  rw [← List.cons_append, ← List.append_assoc] at hbegins
  have hshows : (Cursor.ended n).Shows ⟨n, .noScenarios name⟩ := .ended rfl rfl
  exact ⟨n, rfl, Stops.here hshows hbegins⟩

end Document

/-- A text whose heading is missing is refused at its first line, or after tags. -/
theorem opening_stops {tl : List Significant} {tss : List (List Tag)} {d : Cursor} {f : Fault}
    (h : opening tss.flatten d = .error f) (hc : (prepend tl d).Readable)
    (htags : List.Forall₂ TagLine tl tss) :
    Misopens (fun s => s = .heading .feature) (prepend tl d) f ∨
      Stops DocumentLines Tables.Settled (prepend tl d) f := by
  obtain hpeek | ⟨next, hpeek, hopens⟩ := bind_eq_error.1 h
  · exact .inr (Stops.here (shows_of_peek hpeek) (begins_document htags))
  split at hopens
  · rename_i hshape
    obtain ⟨l, rest, name, rfl, hl, hheading⟩ := heading_of_peek hpeek hshape
    cases hheading.symm.trans hopens
  · rename_i hother
    obtain rfl := Except.error.inj hopens
    exact misopens_or_stops _ hc.tagged htags hpeek (by simpa using hother) (begins_document htags)

/-- A document that is refused, other than at a first line that opens none, stops after lines that
begin a document. -/
theorem feature_stops {c : Cursor} {f : Fault} (h : (feature c).result = .error f)
    (hc : c.Readable) :
    Misopens (fun s => s = .heading .feature) c f ∨ Stops DocumentLines Tables.Settled c f := by
  rw [feature_eq] at h
  obtain htags | ⟨⟨ts, d⟩, htags, h⟩ := bind_eq_error.1 h
  · obtain ⟨ls, tss, rfl, hlines⟩ := tags_fails htags
    exact .inr (Stops.here .failed (begins_document hlines))
  obtain ⟨tl, tss, rfl, hlines, rfl⟩ := tags_derives htags
  obtain hopening | ⟨⟨⟨_, name⟩, d⟩, hopening, h⟩ := bind_eq_error.1 h
  · exact opening_stops hopening hc hlines
  obtain ⟨l, rfl, hl, -⟩ := heading_eq_ok_iff.1 (opening_eq_ok_iff.1 hopening)
  obtain ⟨-, hd⟩ := keeps_tagLines.readable hlines hc
  obtain ⟨-, hrest⟩ := hd.line (by simp [hl])
  right
  -- The parts come one after the other; each is completed with the least that may follow it.
  obtain hdescription | ⟨⟨description, e⟩, hdescription, h⟩ := bind_eq_error.1 h
  · obtain ⟨ds, description, rfl, hds⟩ := description_fails hdescription
    have hbegins := begins_of_rest hlines hl hds (begins_rest .none)
    rw [← prepend_cons, ← prepend_append]
    rw [List.append_nil] at hbegins
    exact Stops.here .failed hbegins
  obtain ⟨ds, rfl, hds⟩ := description_derives hdescription
  obtain ⟨-, he⟩ := keeps_description.readable hds hrest
  rw [← prepend_cons, ← prepend_append]
  obtain hbackground | ⟨⟨b, e⟩, hbackground, h⟩ := bind_eq_error.1 h
  · exact stops_in_background hlines hl hds hbackground he
  obtain ⟨bs, rfl, hbs⟩ := background?_derives hbackground
  have hkeeps : Keeps (Opt BackgroundLines) _ := keeps_background.opt
  obtain ⟨-, hs⟩ := hkeeps.readable hbs he
  rw [← prepend_append]
  obtain hfails | ⟨ss, hscenarios, h⟩ := bind_eq_error.1 h
  · exact stops_in_scenarios hlines hl hds hbs hfails hs
  split at h
  · rename_i hnone
    rw [hnone] at hscenarios
    obtain ⟨n, rfl, hstops⟩ := stops_without_scenarios hlines hl hds hbs hscenarios hs.tagged
    obtain rfl := Except.error.inj h
    exact hstops
  · cases h

theorem loneScenario_stops {c : Cursor} {f : Fault} (h : (loneScenario c).result = .error f)
    (hc : c.Readable) :
    Misopens opensScenario c f ∨ Stops TaggedLines Tables.Settled c f := by
  rw [loneScenario, Logged.result_bind] at h
  obtain htags | ⟨⟨ts, d⟩, htags, hnext⟩ := bind_eq_error.1 h
  · obtain ⟨ls, tss, rfl, hlines⟩ := tags_fails htags
    exact .inr (Stops.here .failed (begins_tagged hlines))
  obtain ⟨tl, tss, rfl, hlines, rfl⟩ := tags_derives htags
  dsimp only at hnext
  rw [Logged.result_bind] at hnext
  obtain hpeek | ⟨next, hpeek, hopens⟩ := bind_eq_error.1 hnext
  · exact .inr (Stops.here (shows_of_peek hpeek) (begins_tagged hlines))
  split at hopens
  · rename_i hscenario
    obtain ⟨-, hd⟩ := keeps_tagLines.readable hlines hc
    rw [Logged.result_bind] at hopens
    obtain hfails | ⟨⟨s, e⟩, hread, hlast⟩ := bind_eq_error.1 hopens
    · exact .inr ((scenario_stops hfails hpeek hscenario hd).within tl
        (fun t ht => settles_tagLines hlines ht) fun ms s hs => begins_of (.tagged hlines hs))
    · obtain ⟨ls, rfl, hls⟩ := scenario_derives hread
      have hall : Begins TaggedLines (tl ++ ls) := begins_of (.tagged hlines hls)
      rw [← prepend_append]
      dsimp only at hlast
      rw [Logged.result_bind] at hlast
      obtain hend | ⟨last, hend, hmore⟩ := bind_eq_error.1 hlast
      · exact .inr (Stops.here (shows_of_peek hend) hall)
      · split at hmore
        · exact absurd hmore pure_ne_error
        · obtain rfl := throw_eq_error.1 hmore
          exact .inr (Stops.here (shows_reject hend _) hall)
  · rename_i hother
    obtain rfl := throw_eq_error.1 hopens
    exact misopens_or_stops _ hc.tagged hlines hpeek (by simpa using hother) (begins_tagged hlines)

end Gherkin.Parse
