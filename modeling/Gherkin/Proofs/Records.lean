import Gherkin.Proofs.Failures
import Gherkin.Proofs.Parts
import Gherkin.Proofs.Positions

/-
  The events of reading a feature. Each keyword line of a section makes one event, the feature's
  after its description was read and the others at once; no other line makes one. So the events of
  some work are those of the lines that it took, in order, or of the first of them if it failed
  (`Reports`): a failed part leaves no event of a line out that a later line has. The lines are
  counted as the lexer gives them, also behind the fault that the parser stops at.
-/

namespace Gherkin

open Grammar

/-! ## Events of lines -/

/-- The event that the line of a section's keyword makes. -/
def Line.opened? (l : Line) : Option Event :=
  match l.kind with
  | .heading .feature name => some (.featureOpened name l.number)
  | .heading .background _ => some (.backgroundOpened l.number)
  | .heading .scenario name => some (.scenarioOpened name false l.number)
  | .heading .scenarioOutline name => some (.scenarioOpened name true l.number)
  | _ => none

/-- The events that lines make. -/
def openings (ls : List Line) : List Event := ls.filterMap Line.opened?

/-- What is told of the line of a section's keyword: the kind of the section, its name but for a
background's, and the number of the line. -/
def Line.openingText? (l : Line) : Option String :=
  let scenarioText (name kind : String) :=
    "scenario '" ++ name ++ "' (" ++ kind ++ ") opened on line " ++ toString l.number
  match l.kind with
  | .heading .feature name => some ("feature '" ++ name ++ "' opened on line " ++ toString l.number)
  | .heading .background _ => some ("background opened on line " ++ toString l.number)
  | .heading .scenario name => some (scenarioText name "Simple")
  | .heading .scenarioOutline name => some (scenarioText name "Outline")
  | _ => none

/-- The lines of a text as the lexer gives them, without its faults. -/
def lexed (text : String) : List Line :=
  (Reader.ofText text.toList).items.filterMap Except.toOption

namespace Event

/-- The line that an event names. -/
def line? : Event → Option Nat
  | featureOpened _ line | backgroundOpened line | scenarioOpened _ _ line => some line
  | _ => none

/-- The event tells that a scenario was opened. -/
def opensScenario : Event → Bool
  | scenarioOpened _ _ _ => true
  | _ => false

end Event

/-- A line of this kind makes no event. -/
def Line.Kind.Silent : Line.Kind → Prop
  | .heading .examples _ => True
  | .heading _ _ => False
  | _ => True

theorem opened?_of_silent {l : Line} (h : l.kind.Silent) : l.opened? = none := by
  unfold Line.opened?
  generalize l.kind = k at h
  cases k with
  | heading k name => cases k <;> first | rfl | exact h.elim
  | _ => rfl

theorem level_of_opened? {l : Line} {e : Event} (h : l.opened? = some e) :
    e.level = .trace ∧ e.line? = some l.number := by
  unfold Line.opened? at h
  split at h <;> cases h <;> exact ⟨rfl, rfl⟩

theorem message_of_opened? (l : Line) : l.opened?.map Event.message = l.openingText? := by
  unfold Line.opened? Line.openingText?
  split <;> rfl

theorem messages_openings (ls : List Line) :
    (openings ls).map Event.message = ls.filterMap Line.openingText? := by
  rw [openings, List.map_filterMap]
  exact List.filterMap_congr fun l _ => message_of_opened? l

namespace Cursor

/-- The events of the lines ahead. -/
def openings (c : Cursor) : List Event := c.lines.filterMap fun l => l.line.opened?

theorem openings_prepend {ls : List Significant} (h : Only Line.Kind.Silent ls) (c : Cursor) :
    (prepend ls c).openings = c.openings := by
  have hnone : ls.filterMap (fun l => l.line.opened?) = [] :=
    List.filterMap_eq_nil_iff.2 fun l hl => opened?_of_silent (h l hl)
  rw [openings, lines_prepend, List.filterMap_append, hnone, List.nil_append]
  rfl

/-- The next line makes an event. -/
theorem openings_line {l : Significant} {e : Event} (h : l.line.opened? = some e) (c : Cursor) :
    (Cursor.line l c).openings = e :: c.openings := List.filterMap_cons_some h

end Cursor

/-! ## Lines without events -/

namespace Grammar

variable {ls : List Significant}

theorem silent_tags {tss : List (List Tag)} (h : List.Forall₂ TagLine ls tss) :
    Only Line.Kind.Silent ls := by
  refine (only_tags h).mono ?_
  rintro _ ⟨ts, rfl⟩
  trivial

theorem silent_description {d : Option String} (h : DescriptionLines ls d) :
    Only Line.Kind.Silent ls := by
  refine (only_text h).mono ?_
  rintro _ ⟨s, rfl⟩
  trivial

theorem silent_body {description : Option String} {steps : List Step}
    (h : BodyLines ls description steps) : Only Line.Kind.Silent ls := by
  obtain ⟨opening, rest⟩ := h
  refine (silent_description opening).append ((only_steps rest).mono fun k hk => ?_)
  cases k <;> trivial

theorem silent_examples {tables : List Rows} (h : Star ExamplesLines ls tables) :
    Only Line.Kind.Silent ls := by
  refine (only_examples h).mono ?_
  rintro _ (⟨name, rfl⟩ | ⟨cells, rfl⟩) <;> trivial

/-- Only the first line of a scenario makes an event. -/
theorem silent_scenario {ts : List Tag} {l : Significant} {s : Scenario}
    (h : ScenarioLines ts (l :: ls) s) : Only Line.Kind.Silent ls := by
  cases h with
  | simple first body => exact silent_body body
  | outline first body examples => exact (silent_body body).append (silent_examples examples)

end Grammar

/-! ## Events of work -/

namespace Parse

open Cursor

/-- The events of the work are those of `rs` up to what `after` gives of its value; failed work has
the first of them only. -/
structure Reports {α : Type} (rs : List Event) (m : Logged Fault α) (after : α → List Event) :
    Prop where
  done : ∀ a, m.result = .ok a → rs = m.events ++ after a
  failed : ∀ f, m.result = .error f → m.events <+: rs

section Reports

variable {α β : Type} {rs : List Event} {m : Logged Fault α} {after : α → List Event}

theorem Reports.bind {g : α → Logged Fault β} {later : β → List Event} (hm : Reports rs m after)
    (hg : ∀ a, m.result = .ok a → Reports (after a) (g a) later) : Reports rs (m >>= g) later := by
  cases hresult : m.result with
  | error f =>
    have hevents := hm.failed f hresult
    rw [← Logged.events_bind_error hresult g] at hevents
    refine ⟨fun b hb => ?_, fun _ _ => hevents⟩
    rw [Logged.result_bind, hresult] at hb
    cases hb
  | ok a =>
    have hg := hg a hresult
    rw [hm.done a hresult]
    constructor
    · intro b hb
      rw [Logged.result_bind, hresult] at hb
      rw [Logged.events_bind_ok hresult, List.append_assoc, ← hg.done b hb]
    · intro f hf
      rw [Logged.result_bind, hresult] at hf
      rw [Logged.events_bind_ok hresult]
      exact (List.prefix_append_right_inj _).2 (hg.failed f hf)

/-- Work that reports nothing. -/
theorem Reports.lift {x : Except Fault α} (h : ∀ a, x = .ok a → rs = after a) :
    Reports rs (Logged.lift x) after := ⟨h, fun _ _ => List.nil_prefix⟩

theorem Reports.report (e : Event) (rs : List Event) :
    Reports (e :: rs) (Logged.report e) fun _ => rs := ⟨fun _ _ => rfl, nofun⟩

theorem Reports.pure {a : α} (h : rs = after a) : Reports rs (pure a) after := by
  refine ⟨fun b hb => ?_, fun _ _ => List.nil_prefix⟩
  obtain rfl := Except.ok.inj hb
  exact h

theorem Reports.throw (rs : List Event) (f : Fault) (after : α → List Event) :
    Reports rs (Logged.lift (throw f)) after := .lift nofun

end Reports

/-! ## Sections -/

/-- The events of the lines behind what was read. -/
def behind {α : Type} (r : α × Cursor) : List Event := r.2.openings

variable {c : Cursor}

theorem openings_tags {ts : List Tag} {d : Cursor} (h : tags c = .ok (ts, d)) :
    c.openings = d.openings := by
  obtain ⟨ls, tss, rfl, hlines, -⟩ := tags_derives h
  exact openings_prepend (silent_tags hlines) d

theorem reports_tags : Reports c.openings (Logged.lift (tags c)) behind :=
  .lift fun _ h => openings_tags h

theorem reports_peek : Reports c.openings (Logged.lift c.peek) fun _ => c.openings :=
  .lift fun _ _ => rfl

theorem reports_block (ts : List Tag) (name : String) :
    Reports c.openings (Logged.lift (block ts name c)) behind := by
  refine .lift fun r h => ?_
  obtain ⟨ls, description, steps, rfl, hbody, -⟩ := block_derives h
  exact openings_prepend (silent_body hbody) r.2

theorem openings_simpleBody {ts : List Tag} {l : Significant} {name : String}
    (hl : l.line.kind = .heading .scenario name) {r : Scenario × Cursor}
    (h : simpleBody ts name c = .ok r) : c.openings = behind r := by
  obtain ⟨ls, rfl, hlines⟩ := simpleBody_derives hl h
  exact openings_prepend (silent_scenario hlines) r.2

theorem openings_outlineBody {ts : List Tag} {l : Significant} {name : String}
    (hl : l.line.kind = .heading .scenarioOutline name) {r : Scenario × Cursor}
    (h : outlineBody ts l.line.number name c = .ok r) : c.openings = behind r := by
  obtain ⟨ls, rfl, hlines⟩ := outlineBody_derives hl h
  exact openings_prepend (silent_scenario hlines) r.2

theorem reports_scenario (ts : List Tag) : Reports c.openings (scenario ts c) behind := by
  have htake : Reports c.openings (Logged.lift c.take)
      fun r => (Cursor.line r.1 r.2).openings := .lift fun r h => by
    rw [eq_line_of_take h]
  refine htake.bind fun ⟨l, rest⟩ _ => ?_
  dsimp only
  split
  · rename_i name hl
    rw [openings_line (e := .scenarioOpened name false l.line.number) (by simp [Line.opened?, hl])]
    exact (Reports.report _ _).bind fun _ _ => .lift fun _ h => openings_simpleBody hl h
  · rename_i name hl
    rw [openings_line (e := .scenarioOpened name true l.line.number) (by simp [Line.opened?, hl])]
    exact (Reports.report _ _).bind fun _ _ => .lift fun _ h => openings_outlineBody hl h
  · exact .throw _ _ _

theorem reports_background (ts : List Tag) : Reports c.openings (background ts c) behind := by
  have hheading : Reports c.openings (Logged.lift (heading .background c))
      fun r => .backgroundOpened r.1.1 :: r.2.openings :=
    .lift fun ⟨⟨number, name⟩, rest⟩ h => by
      obtain ⟨l, rfl, hl, rfl⟩ := heading_eq_ok_iff.1 h
      exact openings_line (by simp [Line.opened?, hl]) rest
  refine hheading.bind fun r _ => ?_
  exact (Reports.report _ _).bind fun _ _ => reports_block ts r.1.2

theorem reports_background? : Reports c.openings (background? c) behind := by
  refine reports_tags.bind fun ⟨ts, d⟩ htags => ?_
  refine reports_peek.bind fun next _ => ?_
  split
  · exact (reports_background ts).bind fun _ _ => .pure rfl
  · exact .pure (openings_tags htags).symm

theorem reports_taggedScenario : Reports c.openings (taggedScenario c) behind :=
  reports_tags.bind fun r _ => reports_scenario r.1

/-! ## Documents -/

/-- Where no scenario comes next there are no events left. -/
theorem openings_of_scenarioAhead (ahead : scenarioAhead c = .ok false) : c.openings = [] := by
  obtain ⟨⟨ts, d⟩, htags, ahead⟩ := bind_eq_ok.1 ahead
  obtain ⟨next, hnext, ahead⟩ := bind_eq_ok.1 ahead
  split at ahead
  · cases ahead
  · split at ahead
    · cases ahead
    · split at ahead
      · rename_i hend
        rw [openings_tags htags, eq_ended_of_peek hnext hend]
        rfl
      · cases ahead

theorem scenarios_eq (ahead : scenarioAhead c = .ok true) :
    scenarios c = taggedScenario c >>= fun r => scenarios r.2 >>= fun more =>
      pure (r.1 :: more) := by
  rw [scenarios, ahead, Logged.lift_ok_bind, if_pos rfl]
  split
  · rename_i f h
    refine Logged.ext (Logged.events_bind_error h _).symm ?_
    rw [Logged.result_bind, h]
    rfl
  · rename_i first rest h
    refine Logged.ext ?_ ?_
    · rw [Logged.events_bind_ok h, Logged.events_bind_pure]
    · rw [Logged.result_bind, h]
      show (scenarios rest).result.map (first :: ·) = (scenarios rest >>= fun more =>
        pure (first :: more)).result
      rw [Logged.result_bind]
      cases (scenarios rest).result <;> rfl

theorem reports_scenarios : Reports c.openings (scenarios c) fun _ => [] := by
  -- on the lines ahead, of which a scenario takes at least one
  induction hn : c.size using Nat.strongRecOn generalizing c with
  | _ n ih =>
    cases ahead : scenarioAhead c with
    | error f =>
      rw [scenarios, ahead]
      exact (Reports.throw _ f fun _ => []).bind fun _ h => by cases h
    | ok more =>
      cases more with
      | false =>
        rw [scenarios, ahead, openings_of_scenarioAhead ahead]
        exact (Reports.lift fun _ _ => rfl).bind fun _ h => by
          cases h
          exact .pure rfl
      | true =>
        rw [scenarios_eq ahead]
        refine reports_taggedScenario.bind fun r hr => ?_
        have hlt : r.2.size < n := hn ▸ size_of_taggedScenario hr
        exact (ih _ hlt rfl).bind fun _ _ => .pure rfl

theorem reports_feature : Reports c.openings (feature c) fun _ => [] := by
  refine reports_tags.bind fun ⟨ts, d⟩ _ => ?_
  refine reports_peek.bind fun next _ => ?_
  split
  · have hheading : Reports d.openings (Logged.lift (heading .feature d))
        fun r => .featureOpened r.1.2 r.1.1 :: r.2.openings :=
      .lift fun ⟨⟨number, name⟩, rest⟩ h => by
        obtain ⟨l, rfl, hl, rfl⟩ := heading_eq_ok_iff.1 h
        exact openings_line (by simp [Line.opened?, hl]) rest
    refine hheading.bind fun ⟨⟨number, name⟩, rest⟩ _ => ?_
    have hdescription : Reports (.featureOpened name number :: rest.openings)
        (Logged.lift (description rest)) fun r => .featureOpened name number :: r.2.openings :=
      .lift fun r h => by
        obtain ⟨ls, rfl, hlines⟩ := description_derives h
        rw [openings_prepend (silent_description hlines)]
    refine hdescription.bind fun r _ => ?_
    refine (Reports.report _ _).bind fun _ _ => ?_
    refine reports_background?.bind fun b _ => ?_
    refine reports_scenarios.bind fun ss _ => ?_
    split
    · exact (Reports.lift fun _ _ => rfl).bind fun _ _ => .throw _ _ _
    · exact .pure rfl
  · exact .throw _ _ _

end Parse

/-! ## Events of a text -/

theorem lines_cons (l : Line) (items : List Reader.Item) :
    (Except.ok l :: items).filterMap Except.toOption = l :: items.filterMap Except.toOption := rfl

theorem openings_cons (l : Line) (ls : List Line) :
    openings (l :: ls) = l.opened?.toList ++ openings ls := by
  rw [openings, List.filterMap_cons]
  cases l.opened? <;> rfl

/-- The lines that a cursor drops make no events. -/
theorem exists_openings_ofItems (number : Nat) (blank : Bool) (l : Line)
    (items : List Reader.Item) : ∃ b, (Cursor.ofItems number blank (.ok l :: items)).openings =
      l.opened?.toList ++ (Cursor.ofItems number b items).openings := by
  rw [Cursor.ofItems]
  split
  · rename_i hl
    exact ⟨true, by rw [opened?_of_silent (by rw [hl]; trivial)]; rfl⟩
  · rename_i hl
    exact ⟨blank, by rw [opened?_of_silent (by rw [hl]; trivial)]; rfl⟩
  · refine ⟨false, ?_⟩
    rw [Cursor.openings, Cursor.lines, List.filterMap_cons]
    cases l.opened? <;> rfl

/-- A cursor ends at the first fault, behind which the lexer goes on. -/
theorem openings_ofItems {number : Nat} {blank : Bool} {items : List Reader.Item} :
    (Cursor.ofItems number blank items).openings <+:
      openings (items.filterMap Except.toOption) := by
  induction items generalizing blank with
  | nil => exact List.nil_prefix
  | cons item items ih =>
    cases item with
    | error f => exact List.nil_prefix
    | ok l =>
      obtain ⟨b, hopenings⟩ := exists_openings_ofItems number blank l items
      rw [hopenings, lines_cons, openings_cons, List.prefix_append_right_inj]
      exact ih

theorem openings_of_ok {number : Nat} {blank : Bool} (ls : List Line) :
    (Cursor.ofItems number blank (ls.map .ok)).openings = openings ls := by
  induction ls generalizing blank with
  | nil => rfl
  | cons l ls ih =>
    obtain ⟨b, hopenings⟩ := exists_openings_ofItems number blank l (ls.map .ok)
    rw [List.map_cons, hopenings, openings_cons, ih]

theorem filterMap_ok (ls : List Line) :
    (ls.map (.ok : Line → Reader.Item)).filterMap Except.toOption = ls := by
  rw [List.filterMap_map]
  exact List.filterMap_some

/-- Line numbers grow from line to line. -/
theorem numbers_itemsFrom {last : Nat} {fence : Option Line.Fence} {raws : List (List Char)} :
    (∀ l ∈ (Reader.itemsFrom last fence raws).filterMap Except.toOption, last < l.number) ∧
      ((Reader.itemsFrom last fence raws).filterMap Except.toOption).Pairwise
        fun l m => l.number < m.number := by
  induction raws generalizing last fence with
  | nil => cases fence <;> exact ⟨nofun, .nil⟩
  | cons raw raws ih =>
    rw [Reader.itemsFrom]
    dsimp only
    obtain ⟨hlater, hpairwise⟩ := @ih (last + 1) (Reader.read fence (last + 1) raw).2
    cases hread : (Reader.read fence (last + 1) raw).1 with
    | error f => exact ⟨fun l hl => Nat.lt_of_succ_lt (hlater l hl), hpairwise⟩
    | ok l =>
      obtain ⟨hnumber, -⟩ := Reader.line_of_read hread
      rw [lines_cons]
      refine ⟨List.forall_mem_cons.2 ⟨by omega, fun m hm => Nat.lt_of_succ_lt (hlater m hm)⟩,
        .cons (fun m hm => hnumber ▸ hlater m hm) hpairwise⟩

theorem numbers_lexed (text : String) : ((lexed text).map Line.number).Pairwise (· < ·) :=
  List.pairwise_map.2 numbers_itemsFrom.2

/-- The lines that events name are lines, in order. -/
theorem lines_openings (ls : List Line) :
    ((openings ls).filterMap Event.line?).Sublist (ls.map Line.number) := by
  induction ls with
  | nil => exact .slnil
  | cons l ls ih =>
    rw [openings_cons, List.filterMap_append]
    cases h : l.opened? with
    | none => exact ih.cons _
    | some e =>
      rw [Option.toList_some, List.filterMap_cons_some (level_of_opened? h).2]
      exact ih.cons_cons _

theorem level_openings {ls : List Line} {e : Event} (h : e ∈ openings ls) : e.level = .trace := by
  obtain ⟨l, -, hl⟩ := List.mem_filterMap.1 h
  exact (level_of_opened? hl).1

/-! ## Counting scenarios -/

/-- The heading opens a scenario. -/
def Heading.opensScenario (h : Heading) : Bool := h = .scenario || h = .scenarioOutline

theorem countP_openings (ls : List Line) : (openings ls).countP Event.opensScenario =
    (headings (ls.map Line.kind)).countP fun h => h.1.opensScenario := by
  induction ls with
  | nil => rfl
  | cons l ls ih =>
    have hcons : headings ((l :: ls).map Line.kind) =
        headings [l.kind] ++ headings (ls.map Line.kind) :=
      List.filterMap_append (l := [l.kind])
    rw [openings_cons, hcons, List.countP_append, List.countP_append, ih, Line.opened?]
    congr 1
    generalize l.kind = k
    cases k with
    | heading k name => cases k <;> rfl
    | _ => rfl

/-- A document that is accounted for has a heading for each of its scenarios. -/
theorem countP_accounts {f : Feature} {examples : List (List Examples)} {ks : List Line.Kind}
    (h : Accounts f examples ks) :
    ((headings ks).countP fun h => h.1.opensScenario) = f.scenarios.length := by
  have hblock (p : Scenario × List Examples) :
      (((headingOf p.1, p.1.name) :: p.2.map fun e => (Heading.examples, e.name)).countP
        fun h => h.1.opensScenario) = 1 := by
    rw [List.countP_cons, List.countP_map]
    cases p.1 <;> simp [headingOf, Heading.opensScenario]
  have hlength : (f.scenarios.zip examples).length = f.scenarios.length := by
    rw [List.length_zip, ← h.exhibits.length_eq, Nat.min_self]
  have hfeature : Heading.opensScenario .feature = false := by decide
  have hbackground : Heading.opensScenario .background = false := by decide
  rw [h.headings, List.countP_cons, List.countP_append, List.countP_map, List.countP_flatMap]
  simp [Function.comp_def, hblock, hlength, hfeature, hbackground]

/-! ## Events of a reading -/

theorem events_read_ok {text : String} {f : Feature}
    (h : (Parse.feature (Cursor.ofText text)).result = .ok f) : (Feature.read text).events =
      (Parse.feature (Cursor.ofText text)).events ++ [.parsed f.name f.scenarios.length] := by
  unfold Feature.read
  split <;> rename_i hread <;> rw [hread] at h ⊢ <;> cases h
  rfl

theorem events_read_error {text : String} {e : Fault}
    (h : (Parse.feature (Cursor.ofText text)).result = .error e) : (Feature.read text).events =
      (Parse.feature (Cursor.ofText text)).events ++ [.rejected e] := by
  unfold Feature.read
  split <;> rename_i hread <;> rw [hread] at h ⊢ <;> cases h
  rfl

/-- The first events of a text's keyword lines. -/
theorem traces_of_prefix {text : String} {traces : List Event}
    (h : traces <+: openings (lexed text)) : (∀ e ∈ traces, e.level = .trace) ∧
      (traces.filterMap Event.line?).Pairwise (· < ·) ∧
      traces.map Event.message <+: (lexed text).filterMap Line.openingText? := by
  refine ⟨fun e he => level_openings (h.subset he), ?_, ?_⟩
  · exact (numbers_lexed text).sublist
      ((h.sublist.filterMap Event.line?).trans (lines_openings (lexed text)))
  · rw [← messages_openings]
    exact h.map Event.message

theorem openings_ofText (text : String) :
    (Cursor.ofText text).openings <+: openings (lexed text) := by
  rw [Cursor.ofText_eq_ofItems]
  exact openings_ofItems

/-- The lines of a text without faults. -/
theorem openings_of_reads {text : String} {ls : List Line} (h : Reads text ls) :
    lexed text = ls ∧ (Cursor.ofText text).openings = openings ls := by
  have hitems : (Reader.ofText text.toList).items = ls.map .ok := h
  constructor
  · rw [lexed, hitems, filterMap_ok]
  · rw [Cursor.ofText_eq_ofItems, hitems]
    exact openings_of_ok ls

/-- The events of a reading are those of the keyword lines in order, of all of them if a feature is
read, and of the first ones if none is, and each tells of its line; the last event tells how the
reading ended. -/
theorem events_trace_sections (text : String) :
    ∃ traces last, (Feature.read text).events = traces ++ [last] ∧
      (∀ e ∈ traces, e.level = .trace) ∧ last.level = .debug ∧
      (traces.filterMap Event.line?).Pairwise (· < ·) ∧ traces <+: openings (lexed text) ∧
      traces.map Event.message <+: (lexed text).filterMap Line.openingText? ∧
      (∀ f, Feature.ofText text = .ok f → traces = openings (lexed text) ∧
        traces.map Event.message = (lexed text).filterMap Line.openingText? ∧
        traces.countP Event.opensScenario = f.scenarios.length ∧
        last = .parsed f.name f.scenarios.length ∧
        last.message = "parsed feature '" ++ f.name ++ "' with " ++
          toString f.scenarios.length ++ " scenario(s)") ∧
      ∀ e, Feature.ofText text = .error e →
        last = .rejected e ∧ last.message = "feature parse failed: " ++ e.describe := by
  have hreports := @Parse.reports_feature (Cursor.ofText text)
  cases hresult : Feature.ofText text with
  | error e =>
    have hfailed := (Feature.ofText_eq text).symm.trans hresult
    have hprefix := (hreports.failed e hfailed).trans (openings_ofText text)
    obtain ⟨hlevels, hlines, hmessages⟩ := traces_of_prefix hprefix
    refine ⟨_, _, events_read_error hfailed, hlevels, rfl, hlines, hprefix, hmessages, nofun, ?_⟩
    rintro _ ⟨⟩
    exact ⟨rfl, rfl⟩
  | ok f =>
    have hread := (Feature.ofText_eq text).symm.trans hresult
    obtain ⟨ls, hls, hdocument⟩ := Feature.ofText_eq_ok_iff.1 hresult
    obtain ⟨examples, haccounts⟩ := accounts_document hdocument
    obtain ⟨rfl, hopenings⟩ := openings_of_reads hls
    have hevents : (Parse.feature (Cursor.ofText text)).events = openings (lexed text) := by
      rw [← hopenings, hreports.done f hread, List.append_nil]
    have hprefix : (Parse.feature (Cursor.ofText text)).events <+: openings (lexed text) :=
      hevents ▸ List.prefix_rfl
    obtain ⟨hlevels, hlines, hmessages⟩ := traces_of_prefix hprefix
    refine ⟨_, _, events_read_ok hread, hlevels, rfl, hlines, hprefix, hmessages, ?_, nofun⟩
    rintro _ ⟨⟩
    refine ⟨hevents, ?_, ?_, rfl, rfl⟩
    · rw [hevents, messages_openings]
    · rw [hevents, countP_openings, countP_accounts haccounts]

/-- A text that is refused at its second feature, and one with a background and an outline. -/
theorem events_trace_sections_refused :
    let refused := "Feature: F\nScenario: S\nGiven a\nFeature: G\nScenario: T\n"
    let read := "Feature: F\nBackground:\nScenario: S\nScenario Outline: O\nExamples:\n|x|\n|1|\n"
    (∃ e last, Feature.ofText refused = .error e ∧
      (Feature.read refused).events =
        [.featureOpened "F" 1, .scenarioOpened "S" false 2] ++ [last] ∧ last = .rejected e ∧
      openings (lexed refused) = [.featureOpened "F" 1, .scenarioOpened "S" false 2,
        .featureOpened "G" 4, .scenarioOpened "T" false 5] ∧
      (Feature.read refused).events.map Event.message =
        ["feature 'F' opened on line 1", "scenario 'S' (Simple) opened on line 2",
          "feature parse failed: " ++ e.describe]) ∧
    ∃ f, Feature.ofText read = .ok f ∧ ∃ traces last,
      (Feature.read read).events = traces ++ [last] ∧
      last = .parsed f.name f.scenarios.length ∧
      traces = [.featureOpened "F" 1, .backgroundOpened 2, .scenarioOpened "S" false 3,
        .scenarioOpened "O" true 4] ∧
      traces.map Event.message = ["feature 'F' opened on line 1", "background opened on line 2",
        "scenario 'S' (Simple) opened on line 3", "scenario 'O' (Outline) opened on line 4"] ∧
      last.message = "parsed feature 'F' with 2 scenario(s)" := by
  intro refused read
  have hrefused : Feature.ofText refused =
      .error ⟨4, .unexpected .unexpectedLine .scenario (.heading .feature)⟩ := by decide +kernel
  have hevents : (Feature.read refused).events =
      [.featureOpened "F" 1, .scenarioOpened "S" false 2] ++
        [.rejected ⟨4, .unexpected .unexpectedLine .scenario (.heading .feature)⟩] := by
    decide +kernel
  have hlexed : openings (lexed read) = [.featureOpened "F" 1, .backgroundOpened 2,
      .scenarioOpened "S" false 3, .scenarioOpened "O" true 4] := by decide +kernel
  have htexts : (lexed read).filterMap Line.openingText? = ["feature 'F' opened on line 1",
      "background opened on line 2", "scenario 'S' (Simple) opened on line 3",
      "scenario 'O' (Outline) opened on line 4"] := by decide +kernel
  obtain ⟨traces, last, hsplit, -, -, -, -, -, -, herror⟩ := events_trace_sections refused
  obtain ⟨htraces, -⟩ := List.append_inj' (hsplit.symm.trans hevents) rfl
  obtain ⟨hlast, hmessage⟩ := herror _ hrefused
  refine ⟨⟨_, last, hrefused, ?_, hlast, by decide +kernel, ?_⟩, ?_⟩
  · rw [hsplit, htraces]
  · rw [hsplit, htraces, List.map_append, List.map_singleton, hmessage]
    decide +kernel
  · obtain ⟨traces, last, hsplit, -, -, -, -, -, hread, -⟩ := events_trace_sections read
    refine exists_ok_and (by decide +kernel) fun f hf => ?_
    obtain ⟨htraces, hmessages, -, hlast, -⟩ := hread f hf
    refine ⟨traces, last, hsplit, hlast, htraces.trans hlexed, hmessages.trans htexts, ?_⟩
    have hparsed : (Feature.read read).events.getLast? = some (.parsed "F" 2) := by decide +kernel
    rw [hsplit, List.getLast?_concat] at hparsed
    rw [Option.some.inj hparsed]
    decide +kernel

end Gherkin
