import Gherkin.Proofs.Arguments
import Gherkin.Proofs.Truncation

/-
  Pairs of invocations that differ in one setting. Where arguments and variables are the same but
  for valid values of the setting, the same run is planned but for it (`plan_same`). A run does not
  look at the level, which only picks the events that are told, and how it ends does not depend on
  the format.
-/

namespace Gherkin.Command

/-! ## Plans -/

/-- The environments are the same, or the same but for the variable of a flag, which has a valid
value or none. -/
structure SameEnvironment (flag : Flag) (env env' : String → Option String) : Prop where
  rest : ∀ name, name ≠ flag.variableName → env name = env' name
  own : env flag.variableName = env' flag.variableName ∨
    (∀ value ∈ env flag.variableName, flag.Accepts value) ∧
      ∀ value ∈ env' flag.variableName, flag.Accepts value

/-- The settings with the default for a flag. -/
def clearSettings (flag : Flag) (s : Settings) : Settings :=
  match flag with
  | .level => { s with level := Settings.default.level }
  | .format => { s with format := Settings.default.format }

/-- The job with the default for a flag. -/
def Job.clear (flag : Flag) (job : Job) : Job :=
  { job with settings := clearSettings flag job.settings }

/-- A setting that is valid where there is one. -/
theorem mapM_ok {ε α : Type} {ofName : String → Except ε α} {name : Option String}
    (h : ∀ value ∈ name, ∃ a, ofName value = .ok a) : ∃ a, name.mapM ofName = .ok a := by
  cases name with
  | none => exact ⟨none, rfl⟩
  | some value =>
    obtain ⟨a, ha⟩ := h value rfl
    exact ⟨some a, by simp [ha]⟩

theorem ofEnvironment_same {flag : Flag} {env env' : String → Option String}
    (h : SameEnvironment flag env env') :
    (Settings.ofEnvironment env).map (clearSettings flag) =
      (Settings.ofEnvironment env').map (clearSettings flag) := by
  obtain ⟨hrest, hown⟩ := h
  unfold Settings.ofEnvironment
  cases flag with
  | level =>
    rw [hrest Settings.formatVariable (by decide)]
    rcases hown with hown | ⟨haccepted, haccepted'⟩
    · rw [show env Settings.levelVariable = env' Settings.levelVariable from hown]
    · obtain ⟨l, hl⟩ := mapM_ok haccepted
      obtain ⟨l', hl'⟩ := mapM_ok haccepted'
      rw [show (env Settings.levelVariable).mapM Level.ofName = .ok l from hl,
        show (env' Settings.levelVariable).mapM Level.ofName = .ok l' from hl']
      cases (env' Settings.formatVariable).mapM Format.ofName <;> rfl
  | format =>
    rw [hrest Settings.levelVariable (by decide)]
    rcases hown with hown | ⟨haccepted, haccepted'⟩
    · rw [show env Settings.formatVariable = env' Settings.formatVariable from hown]
    · obtain ⟨f, hf⟩ := mapM_ok haccepted
      obtain ⟨f', hf'⟩ := mapM_ok haccepted'
      rw [show (env Settings.formatVariable).mapM Format.ofName = .ok f from hf,
        show (env' Settings.formatVariable).mapM Format.ofName = .ok f' from hf']
      cases (env' Settings.levelVariable).mapM Level.ofName <;> rfl

theorem clear_override {flag : Flag} {s s' : Settings} {o o' : Options}
    (hs : clearSettings flag s = clearSettings flag s') (ho : o.clear flag = o'.clear flag) :
    clearSettings flag (s.override o.level o.format) =
      clearSettings flag (s'.override o'.level o'.format) := by
  obtain ⟨level, format⟩ := o
  obtain ⟨level', format'⟩ := o'
  cases flag <;> simp_all [clearSettings, Options.clear, Settings.override]

theorem plan_same {flag : Flag} {args args' : List String} {env env' : String → Option String}
    (hargs : SameArguments flag args args') (henv : SameEnvironment flag env env') :
    (plan args env).map (Job.clear flag) = (plan args' env').map (Job.clear flag) := by
  have hread := readArguments_same hargs
  have hsettings := ofEnvironment_same henv
  unfold plan
  generalize readArguments .none args = request at hread ⊢
  generalize readArguments .none args' = request' at hread ⊢
  generalize Settings.ofEnvironment env = settings at hsettings ⊢
  generalize Settings.ofEnvironment env' = settings' at hsettings ⊢
  match request, request', hread with
  | none, none, _ => rfl
  | some .version, some .version, _ => rfl
  | some (.help topic), some (.help topic'), hread =>
    cases Request.help.inj (Option.some.inj hread)
    rfl
  | some (.run action path o), some (.run action' path' o'), hread =>
    obtain ⟨rfl, rfl, ho⟩ := Request.run.inj (Option.some.inj hread)
    match settings, settings', hsettings with
    | .error fault, .error fault', hsettings =>
      cases Except.error.inj hsettings
      rfl
    | .ok s, .ok s', hsettings =>
      exact congrArg (fun settings => Except.ok (Job.mk action path settings))
        (clear_override (Except.ok.inj hsettings) ho)

/-! ## The level that is asked for -/

/-- The level that an invocation asks for: by the last option for it, else by the variable; where
neither does, problems only. -/
def askedLevel (args : List String) (env : String → Option String) : Level :=
  let values := values .level (words false args)
  (namedLevel (values.getLast?.or (env Settings.levelVariable))).getD .warn

theorem level_ofEnvironment {env : String → Option String} {s : Settings}
    (h : Settings.ofEnvironment env = .ok s) :
    s.level = (namedLevel (env Settings.levelVariable)).getD .warn := by
  obtain ⟨level, hlevel, h⟩ := Parse.bind_eq_ok.1 h
  obtain ⟨format, -, h⟩ := Parse.bind_eq_ok.1 h
  obtain rfl := Parse.pure_eq_ok.1 h
  cases hname : env Settings.levelVariable with
  | none =>
    rw [hname] at hlevel
    cases hlevel
    rfl
  | some value =>
    rw [hname] at hlevel
    cases hl : Level.ofName value with
    | error fault => simp [hl] at hlevel
    | ok l =>
      obtain rfl : some l = level := by simpa [hl] using hlevel
      simp [namedLevel, hl, Except.toOption]

theorem level_of_plan {args : List String} {env : String → Option String} {job : Job}
    (h : plan args env = .ok job) : job.settings.level = askedLevel args env := by
  unfold plan at h
  split at h
  · cases h
  · cases h
  · cases h
  · rename_i action path options hread
    obtain ⟨hlast, haccepted⟩ := levels_readArguments hread
    split at h
    · rename_i settings hsettings
      cases h
      dsimp only [askedLevel]
      rw [Settings.override, hlast, level_ofEnvironment hsettings]
      cases hvalues : (values .level (words false args)).getLast? with
      | none => rfl
      | some value =>
        obtain ⟨l, hl⟩ := namedLevel_of_accepts (haccepted value (List.mem_of_getLast? hvalues))
        rw [Option.some_or, hl]
        rfl
    · cases h

/-! ## Runs -/

/-- What a level lets through is let through by a level below it. -/
theorem filter_filter_gravity {l l' : Level} (h : l.gravity ≤ l'.gravity) (events : List Event) :
    (events.filter fun e => l.gravity ≤ e.level.gravity).filter
        (fun e => l'.gravity ≤ e.level.gravity) =
      events.filter fun e => l'.gravity ≤ e.level.gravity := by
  rw [List.filter_filter]
  refine List.filter_congr fun e _ => ?_
  simpa using fun he => h.trans he

namespace Job

/-- The events of a run, whatever level it is heard at. -/
def reports (job : Job) (content : Except ReadFault (List UInt8)) : List Event :=
  let done := Gherkin.run job.path job.action job.settings.format content .endless
  done.events ++ match done.result with
    | .ok () => []
    | .error fault => [.failed fault.chain]

theorem events_perform (job : Job) (content : Except ReadFault (List UInt8)) :
    (job.perform content).events =
      (job.reports content).filter fun e => job.settings.level.gravity ≤ e.level.gravity := by
  rw [perform, reports]
  generalize (Gherkin.run _ _ _ _ _).result = result
  cases result with
  | ok =>
    rw [List.append_nil]
    rfl
  | error fault => rfl

theorem perform_loadable {job : Job} {content : Except ReadFault (List UInt8)} {f : Feature}
    (h : Loadable content f) : (job.perform content).exit = 0 := by
  rw [perform, result_endless h]

theorem perform_unloadable {job : Job} {content : Except ReadFault (List UInt8)} {fault : LoadFault}
    (h : Unloadable job.path content fault) :
    (job.perform content).exit = 1 ∧ (job.perform content).output = [] := by
  obtain ⟨houtput, hresult⟩ := @run_unloadable _ job.action job.settings.format _ _ h .endless
  rw [perform, hresult]
  exact ⟨rfl, houtput⟩

theorem output_of_failed {job : Job} {content : Except ReadFault (List UInt8)}
    (h : (job.perform content).exit ≠ 0) : (job.perform content).output = [] := by
  rcases loadable_or_unloadable job.path content with ⟨f, hf⟩ | ⟨fault, hfault⟩
  · exact absurd (perform_loadable hf) h
  · exact (perform_unloadable hfault).2

/-- Runs that differ in their level only. -/
theorem perform_level {job job' : Job} (h : job.clear .level = job'.clear .level)
    (content : Except ReadFault (List UInt8)) :
    (job.perform content).exit = (job'.perform content).exit ∧
      (job.perform content).output = (job'.perform content).output ∧
      job.reports content = job'.reports content := by
  obtain ⟨action, path, level, format⟩ := job
  obtain ⟨action', path', level', format'⟩ := job'
  obtain ⟨rfl, rfl, hsettings⟩ := Job.mk.inj h
  obtain ⟨-, rfl⟩ := Settings.mk.inj hsettings
  refine ⟨?_, ?_, rfl⟩ <;> simp only [perform] <;> split <;> rfl

/-- Runs that differ in their format only. -/
theorem perform_format {job job' : Job} (h : job.clear .format = job'.clear .format)
    (content : Except ReadFault (List UInt8)) :
    (job.perform content).exit = (job'.perform content).exit := by
  obtain ⟨action, path, level, format⟩ := job
  obtain ⟨action', path', level', format'⟩ := job'
  obtain ⟨rfl, rfl, -⟩ := Job.mk.inj h
  rcases loadable_or_unloadable path content with ⟨f, hf⟩ | ⟨fault, hfault⟩
  · rw [perform_loadable hf, perform_loadable hf]
  · rw [(perform_unloadable hfault).1, (perform_unloadable hfault).1]

end Job

/-- Without a run there is output for the version and for help only, and what is reported is let
through by every level. -/
theorem plan_error {args : List String} {env : String → Option String} {outcome : Outcome}
    (h : plan args env = .error outcome) : (outcome.exit ≠ 0 → outcome.output = []) ∧
      ∀ level : Level, outcome.events.filter (fun e => level.gravity ≤ e.level.gravity) =
        outcome.events := by
  unfold plan at h
  split at h
  · cases h
    exact ⟨fun _ => rfl, fun _ => rfl⟩
  · cases h
    exact ⟨fun hexit => absurd rfl hexit, fun _ => rfl⟩
  · cases h
    exact ⟨fun hexit => absurd rfl hexit, fun _ => rfl⟩
  · split at h
    · cases h
    · cases h
      refine ⟨fun _ => rfl, fun level => ?_⟩
      cases level <;> rfl

theorem invoke_ok {args : List String} {env : String → Option String} {job : Job}
    (h : plan args env = .ok job) (files : String → Except ReadFault (List UInt8)) :
    invoke args env files = job.perform (files job.path) := by
  rw [invoke, h]

theorem invoke_error {args : List String} {env : String → Option String} {outcome : Outcome}
    (h : plan args env = .error outcome) (files : String → Except ReadFault (List UInt8)) :
    invoke args env files = outcome := by
  rw [invoke, h]

/-- Two invocations that plan the same but for a setting. -/
theorem plans_same {flag : Flag} {args args' : List String} {env env' : String → Option String}
    (hargs : SameArguments flag args args') (henv : SameEnvironment flag env env') :
    (∃ outcome, plan args env = .error outcome ∧ plan args' env' = .error outcome) ∨
      ∃ job job', plan args env = .ok job ∧ plan args' env' = .ok job' ∧ job.path = job'.path ∧
        job.clear flag = job'.clear flag := by
  have hplan := plan_same hargs henv
  match h : plan args env, h' : plan args' env' with
  | .error outcome, .error outcome' =>
    rw [h, h'] at hplan
    cases Except.error.inj hplan
    exact .inl ⟨outcome, rfl, rfl⟩
  | .ok job, .ok job' =>
    rw [h, h'] at hplan
    have hclear := Except.ok.inj hplan
    exact .inr ⟨job, job', rfl, rfl, (Job.mk.inj hclear).2.1, hclear⟩
  | .error outcome, .ok job' => simp [h, h', Except.map] at hplan
  | .ok job, .error outcome' => simp [h, h', Except.map] at hplan

/-- An invocation that fails writes nothing, and one that makes a run tells of what the run reports
the events that are as grave as the level that is asked for. Invocations that differ in the level
only end alike and write the same, and one tells the events as grave as its own level among those
that one with a lower level tells; invocations that differ in the format only end alike. -/
theorem settings_do_not_interfere (files : String → Except ReadFault (List UInt8)) :
    (∀ args env, (invoke args env files).exit ≠ 0 → (invoke args env files).output = []) ∧
      (∀ args env job, plan args env = .ok job → (invoke args env files).events =
        (job.reports (files job.path)).filter fun e =>
          (askedLevel args env).gravity ≤ e.level.gravity) ∧
      (∀ args args' env env', SameArguments .level args args' → SameEnvironment .level env env' →
        (invoke args env files).exit = (invoke args' env' files).exit ∧
          (invoke args env files).output = (invoke args' env' files).output ∧
          ((askedLevel args env).gravity ≤ (askedLevel args' env').gravity →
            (invoke args' env' files).events = (invoke args env files).events.filter fun e =>
              (askedLevel args' env').gravity ≤ e.level.gravity)) ∧
      ∀ args args' env env', SameArguments .format args args' → SameEnvironment .format env env' →
        (invoke args env files).exit = (invoke args' env' files).exit := by
  refine ⟨fun args env hexit => ?_, fun args env job h => ?_,
    fun args args' env env' hargs henv => ?_, fun args args' env env' hargs henv => ?_⟩
  · cases h : plan args env with
    | ok job =>
      rw [invoke_ok h] at hexit ⊢
      exact Job.output_of_failed hexit
    | error outcome =>
      rw [invoke_error h] at hexit ⊢
      exact (plan_error h).1 hexit
  · rw [invoke_ok h, Job.events_perform, level_of_plan h]
  · rcases plans_same hargs henv with ⟨outcome, h, h'⟩ | ⟨job, job', h, h', hpath, hclear⟩
    · rw [invoke_error h, invoke_error h']
      exact ⟨rfl, rfl, fun _ => ((plan_error h).2 _).symm⟩
    · obtain ⟨hexit, houtput, hreports⟩ := Job.perform_level hclear (files job.path)
      rw [invoke_ok h, invoke_ok h', ← level_of_plan h, ← level_of_plan h', ← hpath]
      refine ⟨hexit, houtput, fun hgravity => ?_⟩
      rw [Job.events_perform, Job.events_perform, filter_filter_gravity hgravity, hreports]
  · rcases plans_same hargs henv with ⟨outcome, h, h'⟩ | ⟨job, job', h, h', hpath, hclear⟩
    · rw [invoke_error h, invoke_error h']
    · rw [invoke_ok h, invoke_ok h', ← hpath]
      exact Job.perform_format hclear (files job.path)

/-- The level by an option in front of the action over a variable, by another value of the variable,
and by an option behind the action, of invocations that read a feature; then a file that cannot be
read, and the format by an option and by nothing. -/
theorem settings_do_not_interfere_levels :
    let files : String → Except ReadFault (List UInt8) := fun path =>
      if path = "f" then .ok (Text.Utf8.encode "Feature: F\nScenario: S\nGiven a\n")
      else .error .notFound
    let setting (value : String) : String → Option String := fun name =>
      if name = "FEATURETTE_LOG_LEVEL" then some value else none
    let bare : String → Option String := fun _ => none
    let traced := invoke ["--log-level=TRACE", "parse", "f"] (setting "Debug") files
    let informed := invoke ["parse", "f"] (setting "info") files
    let warned := invoke ["parse", "f", "--log-level", "Warning"] bare files
    (∃ job, plan ["parse", "f"] (setting "info") = .ok job ∧
      informed.events = (job.reports (files job.path)).filter fun e => 2 ≤ e.level.gravity) ∧
    (traced.exit = 0 ∧ traced.exit = informed.exit ∧ traced.exit = warned.exit) ∧
    (traced.output = informed.output ∧ traced.output = warned.output) ∧
    traced.events.map Event.describe =
      ["DEBUG featurette::load: loaded 31 bytes from f",
        "TRACE featurette::parser: feature 'F' opened on line 1",
        "TRACE featurette::parser: scenario 'S' (Simple) opened on line 2",
        "DEBUG featurette: parsed feature 'F' with 1 scenario(s)",
        "INFO featurette_cli: loaded feature path=f scenarios=1"] ∧
    informed.events = (traced.events.filter fun e => 2 ≤ e.level.gravity) ∧
    informed.events.map Event.describe =
      ["INFO featurette_cli: loaded feature path=f scenarios=1"] ∧
    warned.events = (traced.events.filter fun e => 3 ≤ e.level.gravity) ∧ warned.events = [] ∧
    (invoke ["parse", "g"] bare files).exit = 1 ∧ (invoke ["parse", "g"] bare files).output = [] ∧
    (invoke ["--format=JSON", "parse", "f"] bare files).exit =
      (invoke ["parse", "f"] bare files).exit := by
  intro files setting bare traced informed warned
  obtain ⟨hfailed, hruns, hlevel, hformat⟩ := settings_do_not_interfere files
  have hsettings : SameEnvironment .level (setting "Debug") (setting "info") := by
    refine ⟨fun name hname => (if_neg hname).trans (if_neg hname).symm, .inr ⟨?_, ?_⟩⟩ <;>
      rintro value ⟨⟩ <;> decide +kernel
  have hbare : SameEnvironment .level (setting "Debug") bare := by
    refine ⟨fun name hname => if_neg hname, .inr ⟨?_, nofun⟩⟩
    rintro value ⟨⟩
    decide +kernel
  have htraced : askedLevel ["--log-level=TRACE", "parse", "f"] (setting "Debug") = .trace := by
    decide +kernel
  have hinformed : askedLevel ["parse", "f"] (setting "info") = .info := by decide +kernel
  have hwarned : askedLevel ["parse", "f", "--log-level", "Warning"] bare = .warn := by
    decide +kernel
  obtain ⟨hexit, houtput, hevents⟩ := hlevel ["--log-level=TRACE", "parse", "f"] ["parse", "f"]
    (setting "Debug") (setting "info") (by decide +kernel) hsettings
  obtain ⟨hexit', houtput', hevents'⟩ := hlevel ["--log-level=TRACE", "parse", "f"]
    ["parse", "f", "--log-level", "Warning"] (setting "Debug") bare (by decide +kernel) hbare
  rw [htraced, hinformed] at hevents
  rw [htraced, hwarned] at hevents'
  obtain ⟨job, hjob⟩ : ∃ job, plan ["parse", "f"] (setting "info") = .ok job :=
    isOk_iff_exists.1 (by decide +kernel)
  have hreports := hruns _ _ job hjob
  rw [hinformed] at hreports
  have hmissing : (invoke ["parse", "g"] bare files).exit = 1 := by decide +kernel
  refine ⟨⟨job, hjob, hreports⟩, ⟨by decide +kernel, hexit, hexit'⟩, ⟨houtput, houtput'⟩,
    by decide +kernel, hevents (by decide), ?_, hevents' (by decide), ?_, hmissing,
    hfailed _ _ (by rw [hmissing]; decide),
    hformat _ _ bare bare (by decide +kernel) ⟨fun _ _ => rfl, .inl rfl⟩⟩ <;> decide +kernel

end Gherkin.Command
