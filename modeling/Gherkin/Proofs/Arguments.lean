import Gherkin.Command
import Mathlib.Data.List.Infix

/-
  The arguments of an invocation. They are words: options with their values, and what else there is.
  Taking the options of one flag out of them changes what is asked for in that setting only
  (`readArguments_others`), and so do other valid values of them (`readArguments_reset`); the level
  that is asked for is that of the last option for it (`levels_readArguments`).
-/

namespace Gherkin.Command

/-! ## Words -/

/-- What arguments are read as. -/
inductive Word where
  | option (flag : Flag) (value : String)
  /-- The last argument is an option, which has no value then. -/
  | unvalued (flag : Flag)
  | plain (arg : String)
  /-- The word for help in place of an action, and the arguments behind it. -/
  | help (rest : List String)
  /-- Two dashes and the arguments behind them. -/
  | dashes (rest : List String)
deriving DecidableEq

/-- The words of arguments, before the action or after it; an option takes the argument behind it if
it has no value in its own. -/
def words (acted : Bool) : List String → List Word
  | [] => []
  | arg :: rest =>
    if arg = "--" then [.dashes rest]
    else match Flag.ofArgument? arg with
      | some (flag, some value) => .option flag value :: words acted rest
      | some (flag, none) =>
        match rest with
        | value :: rest => .option flag value :: words acted rest
        | [] => [.unvalued flag]
      | none => if acted = false ∧ arg = "help" then [.help rest] else .plain arg :: words true rest

/-- Reads the words after an action. -/
def pathOfWords (action : Action) (before o : Options) (path : Option String) :
    List Word → Option Request
  | [] => path.map fun p => .run action p (o.orElse before)
  | .option flag value :: ws =>
    (o.set? flag value).bind fun o => pathOfWords action before o path ws
  | .unvalued _ :: _ => none
  | .plain arg :: ws =>
    if asksHelp arg then some (.help (.action action))
    else if isOption arg || path.isSome || arg = "" then none
    else pathOfWords action before o (some arg) ws
  | .help _ :: _ => none
  | .dashes rest :: _ => (path? path rest).map fun p => .run action p (o.orElse before)

/-- Reads words from the first one. -/
def requestOfWords (o : Options) : List Word → Option Request
  | [] => none
  | .option flag value :: ws => (o.set? flag value).bind fun o => requestOfWords o ws
  | .unvalued _ :: _ => none
  | .plain arg :: ws =>
    if asksVersion arg then some .version
    else if asksHelp arg then some (.help .program)
    else (action? arg).bind fun action => pathOfWords action o .none none ws
  | .help rest :: _ => (topic? rest).map .help
  | .dashes _ :: _ => none

/-- Two dashes alone are no option. -/
theorem ne_of_ofArgument? {arg : String} {named : Flag × Option String}
    (h : Flag.ofArgument? arg = some named) : arg ≠ "--" := by
  rintro rfl
  have hdashes : Flag.ofArgument? "--" = none := by decide +kernel
  simp [hdashes] at h

theorem action?_dashes : action? "--" = none := by decide

/-- A switch is neither two dashes nor an option. -/
theorem ofArgument?_of_isSwitch {name : String} {short : Char} (hname : name ≠ "--")
    (hoption : Flag.ofArgument? name = none) (hshort : short ≠ '-') {arg : String}
    (h : isSwitch name short arg = true) : arg ≠ "--" ∧ Flag.ofArgument? arg = none := by
  simp only [isSwitch, Bool.or_eq_true, decide_eq_true_eq] at h
  rcases h with rfl | h
  · exact ⟨hname, hoption⟩
  · obtain ⟨rest, hrest⟩ := List.isPrefixOf_iff_prefix.1 h
    obtain rfl : arg = String.ofList ('-' :: short :: rest) := by
      rw [← String.ofList_toList (s := arg), ← hrest]
      rfl
    have hsecond : ('-' == short) = false := by simpa using hshort.symm
    refine ⟨fun e => ?_, ?_⟩
    · have hchars : '-' :: short :: rest = ['-', '-'] := by
        rw [← String.toList_ofList (l := '-' :: short :: rest), e]
        rfl
      exact hshort (List.cons.inj (List.cons.inj hchars).2).1
    · simp [Flag.ofArgument?, Flag.all, Flag.name, List.isPrefixOf?, hsecond]

theorem ofArgument?_of_asksVersion {arg : String} (h : asksVersion arg = true) :
    arg ≠ "--" ∧ Flag.ofArgument? arg = none :=
  ofArgument?_of_isSwitch (by decide) (by decide +kernel) (by decide) h

theorem ofArgument?_of_asksHelp {arg : String} (h : asksHelp arg = true) :
    arg ≠ "--" ∧ Flag.ofArgument? arg = none :=
  ofArgument?_of_isSwitch (by decide) (by decide +kernel) (by decide) h

section Words

variable {acted : Bool} {arg : String} {flag : Flag}

theorem words_joined {value : String} (h : Flag.ofArgument? arg = some (flag, some value))
    (rest : List String) : words acted (arg :: rest) = .option flag value :: words acted rest := by
  simp [words, h, ne_of_ofArgument? h]

theorem words_apart (h : Flag.ofArgument? arg = some (flag, none)) (value : String)
    (rest : List String) :
    words acted (arg :: value :: rest) = .option flag value :: words acted rest := by
  simp [words, h, ne_of_ofArgument? h]

theorem words_unvalued (h : Flag.ofArgument? arg = some (flag, none)) :
    words acted [arg] = [.unvalued flag] := by
  simp [words, h, ne_of_ofArgument? h]

/-- An argument that is no option is a word, but for the word for help before an action. -/
theorem words_plain (h : arg ≠ "--" ∧ Flag.ofArgument? arg = none)
    (hhelp : acted = true ∨ arg ≠ "help") (rest : List String) :
    words acted (arg :: rest) = .plain arg :: words true rest := by
  have hplain : ¬(acted = false ∧ arg = "help") := by
    rintro ⟨rfl, rfl⟩
    simp at hhelp
  simp only [words, if_neg h.1, h.2, if_neg hplain]

end Words

theorem readPath_eq (action : Action) (before o : Options) (path : Option String)
    (args : List String) :
    readPath action before o path args = pathOfWords action before o path (words true args) := by
  fun_induction readPath action before o path args with
  | case1 => rfl
  | case2 o path rest => simp [words, pathOfWords]
  | case3 o path arg rest hdashes hhelp =>
    rw [words_plain (ofArgument?_of_asksHelp hhelp) (.inl rfl), pathOfWords, if_pos hhelp]
  | case4 o path arg rest hdashes hhelp flag value hoption ih =>
    rw [words_joined hoption, pathOfWords]
    exact congrArg _ (funext ih)
  | case5 o path arg hdashes hhelp flag hoption value rest ih =>
    rw [words_apart hoption, pathOfWords]
    exact congrArg _ (funext ih)
  | case6 o path arg hdashes hhelp flag hoption => rw [words_unvalued hoption, pathOfWords]
  | case7 o path arg rest hdashes hhelp hoption hrefused =>
    rw [words_plain ⟨hdashes, hoption⟩ (.inl rfl), pathOfWords, if_neg hhelp, if_pos hrefused]
  | case8 o path arg rest hdashes hhelp hoption hrefused ih =>
    rw [words_plain ⟨hdashes, hoption⟩ (.inl rfl), pathOfWords, if_neg hhelp, if_neg hrefused, ih]

theorem readArguments_eq (o : Options) (args : List String) :
    readArguments o args = requestOfWords o (words false args) := by
  fun_induction readArguments o args with
  | case1 => rfl
  | case2 o arg rest hversion =>
    have hplain : arg ≠ "help" := by
      rintro rfl
      exact absurd hversion (by decide +kernel)
    rw [words_plain (ofArgument?_of_asksVersion hversion) (.inr hplain), requestOfWords,
      if_pos hversion]
  | case3 o arg rest hversion hhelp =>
    have hplain : arg ≠ "help" := by
      rintro rfl
      exact absurd hhelp (by decide +kernel)
    rw [words_plain (ofArgument?_of_asksHelp hhelp) (.inr hplain), requestOfWords,
      if_neg hversion, if_pos hhelp]
  | case4 o arg rest hversion hhelp flag value hoption ih =>
    rw [words_joined hoption, requestOfWords]
    exact congrArg _ (funext ih)
  | case5 o arg hversion hhelp flag hoption value rest ih =>
    rw [words_apart hoption, requestOfWords]
    exact congrArg _ (funext ih)
  | case6 o arg hversion hhelp flag hoption => rw [words_unvalued hoption, requestOfWords]
  | case7 o rest hversion hhelp hoption => simp [words, hoption, requestOfWords]
  | case8 o arg rest hversion hhelp hoption hplain =>
    by_cases hdashes : arg = "--"
    · simp [words, hdashes, requestOfWords, action?_dashes]
    · rw [words_plain ⟨hdashes, hoption⟩ (.inr hplain), requestOfWords, if_neg hversion,
        if_neg hhelp]
      exact congrArg _ (funext fun action => readPath_eq action o .none none rest)

/-! ## Options of a flag -/

theorem isOk_iff_exists {ε α : Type} {x : Except ε α} : x.isOk = true ↔ ∃ a, x = .ok a := by
  cases x <;> simp [Except.isOk, Except.toBool]

namespace Flag

/-- The value is one of the option's. -/
def Accepts : Flag → String → Prop
  | level, value => ∃ l, Level.ofName value = .ok l
  | format, value => ∃ f, Format.ofName value = .ok f

instance : (flag : Flag) → (value : String) → Decidable (flag.Accepts value)
  | level, value => decidable_of_iff ((Level.ofName value).isOk = true) isOk_iff_exists
  | format, value => decidable_of_iff ((Format.ofName value).isOk = true) isOk_iff_exists

/-- The variable that sets what the option sets. -/
def variableName : Flag → String
  | level => Settings.levelVariable
  | format => Settings.formatVariable

end Flag

namespace Options

/-- The options without that of a flag. -/
def clear (flag : Flag) (o : Options) : Options :=
  match flag with
  | .level => { o with level := Option.none }
  | .format => { o with format := Option.none }

theorem clear_orElse (flag : Flag) (o before : Options) :
    (o.orElse before).clear flag = (o.clear flag).orElse (before.clear flag) := by
  cases flag <;> rfl

/-- The option of a flag is not set. -/
def Unset (flag : Flag) (o : Options) : Prop := o.clear flag = o

theorem set?_accepted {flag : Flag} {o : Options} {value : String} (h : flag.Accepts value)
    (ho : o.Unset flag) : ∃ o', o.set? flag value = some o' ∧ o'.clear flag = o := by
  obtain ⟨level, format⟩ := o
  cases flag with
  | level =>
    obtain ⟨l, hl⟩ := h
    cases level <;> simp [Unset, clear] at ho
    exact ⟨⟨some l, format⟩, by simp [set?, hl, Except.toOption], rfl⟩
  | format =>
    obtain ⟨f, hf⟩ := h
    cases format <;> simp [Unset, clear] at ho
    exact ⟨⟨level, some f⟩, by simp [set?, hf, Except.toOption], rfl⟩

theorem set?_other {flag other : Flag} (h : other ≠ flag) (o : Options) (value : String) :
    (o.set? other value).map (clear flag) = (o.clear flag).set? other value := by
  obtain ⟨level, format⟩ := o
  cases flag <;> cases other <;> first | exact absurd rfl h | skip
  · cases format <;> simp [set?, clear, Function.comp_def]
  · cases level <;> simp [set?, clear, Function.comp_def]

theorem unset_set? {flag other : Flag} (h : other ≠ flag) {o o' : Options} {value : String}
    (ho : o.Unset flag) (ho' : o.set? other value = some o') : o'.Unset flag := by
  have hset := set?_other h o value
  rw [show o.clear flag = o from ho, ho'] at hset
  exact Option.some.inj hset

theorem unset_none (flag : Flag) : Unset flag none := by cases flag <;> rfl

section Reading

variable {α : Type} {clearResult : α → α} {read read' : Options → Option α} {value : String}

/-- Reading on behind an option of another flag. -/
theorem bind_set?_other {flag other : Flag} (h : other ≠ flag) {o : Options}
    (hread : ∀ o', o.set? other value = some o' →
      (read o').map clearResult = read' (o'.clear flag)) :
    ((o.set? other value).bind read).map clearResult =
      ((o.clear flag).set? other value).bind read' := by
  rw [← set?_other h]
  cases hset : o.set? other value with
  | none => rfl
  | some o' => exact hread o' hset

/-- Reading on behind the option of the flag, as if it was not there. -/
theorem bind_set?_own {flag : Flag} {o : Options} {result : Option α}
    (haccepted : flag.Accepts value) (ho : o.Unset flag)
    (hread : ∀ o', o'.clear flag = o.clear flag → (read o').map clearResult = result) :
    ((o.set? flag value).bind read).map clearResult = result := by
  obtain ⟨o', hset, hclear⟩ := set?_accepted haccepted ho
  rw [hset, Option.bind_some]
  exact hread o' (hclear.trans ho.symm)

end Reading

end Options

/-- The value that a word gives to the option of a flag. -/
def Word.value? (flag : Flag) : Word → Option String
  | option f value => if f = flag then some value else none
  | _ => none

/-- The word is an option with a value. -/
def Word.isOption : Word → Bool
  | option _ _ => true
  | _ => false

/-- The values that words give to the option of a flag, in order. -/
def values (flag : Flag) (ws : List Word) : List String := ws.filterMap (Word.value? flag)

/-- The words without the option of a flag. -/
def others (flag : Flag) (ws : List Word) : List Word := ws.filter fun w => (w.value? flag).isNone

/-- The option is given once at most, and with a value of its own. -/
structure Single (flag : Flag) (values : List String) : Prop where
  once : values.length ≤ 1
  accepted : ∀ value ∈ values, flag.Accepts value

instance (flag : Flag) (values : List String) : Decidable (Single flag values) :=
  decidable_of_iff (values.length ≤ 1 ∧ ∀ value ∈ values, flag.Accepts value)
    ⟨fun h => ⟨h.1, h.2⟩, fun h => ⟨h.once, h.accepted⟩⟩

theorem single_nil (flag : Flag) : Single flag [] := ⟨Nat.zero_le 1, nofun⟩

theorem single_cons {flag : Flag} {value : String} {vs : List String}
    (h : Single flag (value :: vs)) : flag.Accepts value ∧ vs = [] := by
  refine ⟨h.accepted value List.mem_cons_self, List.length_eq_zero_iff.1 ?_⟩
  have honce := h.once
  rw [List.length_cons] at honce
  omega

theorem values_option (flag : Flag) (value : String) (ws : List Word) :
    values flag (.option flag value :: ws) = value :: values flag ws := by
  simp [values, Word.value?]

theorem values_cons {flag : Flag} {w : Word} (h : w.value? flag = none) (ws : List Word) :
    values flag (w :: ws) = values flag ws := by
  simp [values, h]

theorem others_option (flag : Flag) (value : String) (ws : List Word) :
    others flag (.option flag value :: ws) = others flag ws := by
  simp [others, Word.value?]

theorem others_cons {flag : Flag} {w : Word} (h : w.value? flag = none) (ws : List Word) :
    others flag (w :: ws) = w :: others flag ws := by
  simp [others, h]

theorem Word.eq_option {flag : Flag} {w : Word} {value : String} (h : w.value? flag = some value) :
    w = .option flag value := by
  cases w with
  | option f v =>
    simp only [value?, Option.ite_none_right_eq_some, Option.some.injEq] at h
    rw [h.1, h.2]
  | unvalued => cases h
  | plain => cases h
  | help => cases h
  | dashes => cases h

namespace Request

/-- The request with other options. -/
def mapOptions (f : Options → Options) : Request → Request
  | run action path o => run action path (f o)
  | request => request

/-- The request without the option of a flag. -/
def clear (flag : Flag) : Request → Request := mapOptions (Options.clear flag)

/-- A run with options of both sides that are changed alike. -/
theorem map_run {f : Options → Options}
    (hf : ∀ o before : Options, f (o.orElse before) = (f o).orElse (f before)) (action : Action)
    (before o : Options) (path : Option String) :
    (path.map fun p => run action p (o.orElse before)).map (mapOptions f) =
      path.map fun p => run action p ((f o).orElse (f before)) := by
  rw [← hf]
  exact Option.map_map ..

/-- A request for help has no options. -/
theorem map_help (f : Options → Options) (topic : Option Topic) :
    (topic.map help).map (mapOptions f) = topic.map help := by
  cases topic <;> rfl

end Request

theorem pathOfWords_others {flag : Flag} {action : Action} {before o : Options} {ws : List Word}
    (h : Single flag (values flag ws)) (ho : o.Unset flag ∨ values flag ws = [])
    (path : Option String) :
    (pathOfWords action before o path ws).map (Request.clear flag) =
      pathOfWords action (before.clear flag) (o.clear flag) path (others flag ws) := by
  induction ws generalizing o path with
  | nil => exact Request.map_run (Options.clear_orElse flag) action before o path
  | cons w ws ih =>
    cases hw : w.value? flag with
    | none =>
      rw [values_cons hw] at h ho
      rw [others_cons hw]
      cases w with
      | option other value =>
        have hother : other ≠ flag := fun e => by simp [Word.value?, e] at hw
        rw [pathOfWords, pathOfWords]
        refine Options.bind_set?_other hother fun o' hset => ?_
        exact ih h (ho.imp_left fun hunset => Options.unset_set? hother hunset hset) path
      | unvalued f => rfl
      | help rest => rfl
      | plain arg =>
        rw [pathOfWords, pathOfWords, ← ih h ho]
        split
        · rfl
        · split <;> rfl
      | dashes rest => exact Request.map_run (Options.clear_orElse flag) action before o _
    | some value =>
      obtain rfl := Word.eq_option hw
      rw [values_option] at h ho
      obtain ⟨haccepted, hrest⟩ := single_cons h
      have hunset := ho.resolve_right (List.cons_ne_nil _ _)
      rw [pathOfWords, others_option]
      refine Options.bind_set?_own haccepted hunset fun o' hclear => ?_
      rw [← hclear]
      exact ih (hrest ▸ single_nil flag) (.inr hrest) path

/-- The option of a flag is given once at most before the first argument that is no option, and
once at most from there on. -/
structure Settable (flag : Flag) (ws : List Word) : Prop where
  before : Single flag (values flag (ws.takeWhile Word.isOption))
  behind : Single flag (values flag (ws.dropWhile Word.isOption))

instance (flag : Flag) (ws : List Word) : Decidable (Settable flag ws) :=
  decidable_of_iff (Single flag (values flag (ws.takeWhile Word.isOption)) ∧
      Single flag (values flag (ws.dropWhile Word.isOption)))
    ⟨fun h => ⟨h.1, h.2⟩, fun h => ⟨h.before, h.behind⟩⟩

theorem requestOfWords_others {flag : Flag} {o : Options} {ws : List Word} (h : Settable flag ws)
    (ho : o.Unset flag ∨ values flag (ws.takeWhile Word.isOption) = []) :
    (requestOfWords o ws).map (Request.clear flag) =
      requestOfWords (o.clear flag) (others flag ws) := by
  obtain ⟨hbefore, hbehind⟩ := h
  induction ws generalizing o with
  | nil => rfl
  | cons w ws ih =>
    cases hw : w.value? flag with
    | none =>
      rw [others_cons hw]
      cases w with
      | option other value =>
        rw [List.takeWhile_cons_of_pos rfl, values_cons hw] at hbefore ho
        rw [List.dropWhile_cons_of_pos rfl] at hbehind
        have hother : other ≠ flag := fun e => by simp [Word.value?, e] at hw
        rw [requestOfWords, requestOfWords]
        refine Options.bind_set?_other hother fun o' hset => ?_
        exact ih (ho.imp_left fun hunset => Options.unset_set? hother hunset hset) hbefore hbehind
      | unvalued f => rfl
      | dashes rest => rfl
      | help rest => exact Request.map_help _ (topic? rest)
      | plain arg =>
        rw [List.dropWhile_cons_of_neg Bool.false_ne_true, values_cons hw] at hbehind
        rw [requestOfWords, requestOfWords]
        split
        · rfl
        split
        · rfl
        cases action? arg with
        | none => rfl
        | some action =>
          have hunset := Options.unset_none flag
          have hpath := @pathOfWords_others flag action o .none ws hbehind (.inl hunset) none
          rwa [hunset] at hpath
    | some value =>
      obtain rfl := Word.eq_option hw
      rw [List.takeWhile_cons_of_pos rfl, values_option] at hbefore ho
      rw [List.dropWhile_cons_of_pos rfl] at hbehind
      obtain ⟨haccepted, hrest⟩ := single_cons hbefore
      have hunset := ho.resolve_right (List.cons_ne_nil _ _)
      rw [requestOfWords, others_option]
      refine Options.bind_set?_own haccepted hunset fun o' hclear => ?_
      rw [← hclear]
      exact ih (.inr hrest) (hrest ▸ single_nil flag) hbehind

theorem readArguments_others {flag : Flag} {args : List String}
    (h : Settable flag (words false args)) :
    (readArguments .none args).map (Request.clear flag) =
      requestOfWords .none (others flag (words false args)) := by
  have hunset := Options.unset_none flag
  rw [readArguments_eq, requestOfWords_others h (.inl hunset), hunset]

/-! ## Other values of a flag -/

/-- The name of a flag's default. -/
def Flag.defaultName : Flag → String
  | .level => "warn"
  | .format => "summary"

/-- The word with the default for a valid value of the flag's option. -/
def Word.reset (flag : Flag) : Word → Word
  | option f value => option f (if f = flag ∧ flag.Accepts value then flag.defaultName else value)
  | w => w

namespace Options

/-- The options with the default for a value of the flag's. -/
def reset (flag : Flag) (o : Options) : Options :=
  match flag with
  | .level => { o with level := o.level.map fun _ => Settings.default.level }
  | .format => { o with format := o.format.map fun _ => Settings.default.format }

theorem reset_none (flag : Flag) : reset flag none = none := by cases flag <;> rfl

theorem reset_orElse (flag : Flag) (o before : Options) :
    (o.orElse before).reset flag = (o.reset flag).orElse (before.reset flag) := by
  cases flag <;> simp [orElse, reset, Option.map_or]

theorem clear_reset (flag : Flag) (o : Options) : (o.reset flag).clear flag = o.clear flag := by
  cases flag <;> rfl

theorem set?_refused {flag : Flag} {value : String} (h : ¬flag.Accepts value) (o : Options) :
    o.set? flag value = .none := by
  obtain ⟨level, format⟩ := o
  cases flag with
  | level =>
    cases hname : Level.ofName value with
    | error fault => cases level <;> simp [set?, hname, Except.toOption]
    | ok l => exact absurd ⟨l, hname⟩ h
  | format =>
    cases hname : Format.ofName value with
    | error fault => cases format <;> simp [set?, hname, Except.toOption]
    | ok f => exact absurd ⟨f, hname⟩ h

theorem reset_set?_accepted {flag : Flag} {value : String} (h : flag.Accepts value) (o : Options) :
    (o.set? flag value).map (reset flag) = (o.reset flag).set? flag flag.defaultName := by
  obtain ⟨level, format⟩ := o
  cases flag with
  | level =>
    obtain ⟨l, hl⟩ := h
    cases level with
    | none =>
      have hdefault : Level.ofName (Flag.defaultName .level) = .ok .warn := by decide +kernel
      simp [set?, reset, hl, hdefault, Except.toOption, Settings.default]
    | some level => rfl
  | format =>
    obtain ⟨f, hf⟩ := h
    cases format with
    | none =>
      have hdefault : Format.ofName (Flag.defaultName .format) = .ok .summary := by decide +kernel
      simp [set?, reset, hf, hdefault, Except.toOption, Settings.default]
    | some format => rfl

theorem reset_set? (flag f : Flag) (o : Options) (value : String) :
    (o.set? f value).map (reset flag) = (o.reset flag).set? f
      (if f = flag ∧ flag.Accepts value then flag.defaultName else value) := by
  by_cases hf : f = flag
  · subst hf
    by_cases haccepted : f.Accepts value
    · rw [if_pos ⟨rfl, haccepted⟩, reset_set?_accepted haccepted]
    · rw [if_neg fun h => haccepted h.2, set?_refused haccepted, set?_refused haccepted]
      rfl
  · rw [if_neg fun h => hf h.1]
    obtain ⟨level, format⟩ := o
    cases flag <;> cases f <;> first | exact absurd rfl hf | skip
    · cases format <;> simp [set?, reset, Function.comp_def]
    · cases level <;> simp [set?, reset, Function.comp_def]

/-- Reading on behind an option. -/
theorem bind_reset {α : Type} {resetResult : α → α} {read read' : Options → Option α}
    (flag f : Flag) (o : Options) (value : String)
    (hread : ∀ p, (read p).map resetResult = read' (p.reset flag)) :
    ((o.set? f value).bind read).map resetResult = ((o.reset flag).set? f
      (if f = flag ∧ flag.Accepts value then flag.defaultName else value)).bind read' := by
  rw [← reset_set?]
  cases o.set? f value with
  | none => rfl
  | some p => exact hread p

end Options

/-- The request with the default for a value of the flag's option. -/
def Request.reset (flag : Flag) : Request → Request := mapOptions (Options.reset flag)

theorem pathOfWords_reset (flag : Flag) (action : Action) (before o : Options)
    (path : Option String) (ws : List Word) :
    (pathOfWords action before o path ws).map (Request.reset flag) =
      pathOfWords action (before.reset flag) (o.reset flag) path (ws.map (Word.reset flag)) := by
  induction ws generalizing o path with
  | nil => exact Request.map_run (Options.reset_orElse flag) action before o path
  | cons w ws ih =>
    rw [List.map_cons]
    cases w with
    | option f value => exact Options.bind_reset flag f o value fun p => ih p path
    | unvalued f => rfl
    | help rest => rfl
    | plain arg =>
      show _ = pathOfWords action (before.reset flag) (o.reset flag) path
        (.plain arg :: ws.map (Word.reset flag))
      rw [pathOfWords, pathOfWords, ← ih]
      split
      · rfl
      · split <;> rfl
    | dashes rest => exact Request.map_run (Options.reset_orElse flag) action before o _

theorem requestOfWords_reset (flag : Flag) (o : Options) (ws : List Word) :
    (requestOfWords o ws).map (Request.reset flag) =
      requestOfWords (o.reset flag) (ws.map (Word.reset flag)) := by
  induction ws generalizing o with
  | nil => rfl
  | cons w ws ih =>
    rw [List.map_cons]
    cases w with
    | option f value => exact Options.bind_reset flag f o value ih
    | unvalued f => rfl
    | dashes rest => rfl
    | help rest => exact Request.map_help _ (topic? rest)
    | plain arg =>
      show _ = requestOfWords (o.reset flag) (.plain arg :: ws.map (Word.reset flag))
      rw [requestOfWords, requestOfWords]
      split
      · rfl
      split
      · rfl
      cases action? arg with
      | none => rfl
      | some action =>
        have hpath := pathOfWords_reset flag action o .none none ws
        rwa [Options.reset_none] at hpath

theorem Request.clear_reset (flag : Flag) :
    Request.clear flag ∘ Request.reset flag = Request.clear flag := by
  funext request
  cases request with
  | version => rfl
  | help topic => rfl
  | run action path o => exact congrArg (run action path) (o.clear_reset flag)

theorem readArguments_reset {flag : Flag} {args args' : List String}
    (h : (words false args).map (Word.reset flag) = (words false args').map (Word.reset flag)) :
    (readArguments .none args).map (Request.clear flag) =
      (readArguments .none args').map (Request.clear flag) := by
  have hreset : (requestOfWords .none (words false args)).map (Request.reset flag) =
      (requestOfWords .none (words false args')).map (Request.reset flag) := by
    rw [requestOfWords_reset, requestOfWords_reset, h]
  rw [readArguments_eq, readArguments_eq, ← Request.clear_reset, ← Option.map_map, hreset,
    Option.map_map]

/-! ## The same arguments -/

/-- The arguments are the same but for valid values of the options of a flag, or but for these
options, which are given rightly or not at all. -/
def SameArguments (flag : Flag) (args args' : List String) : Prop :=
  (words false args).map (Word.reset flag) = (words false args').map (Word.reset flag) ∨
    Settable flag (words false args) ∧ Settable flag (words false args') ∧
      others flag (words false args) = others flag (words false args')

instance (flag : Flag) (args args' : List String) : Decidable (SameArguments flag args args') :=
  inferInstanceAs (Decidable (_ ∨ _))

theorem readArguments_same {flag : Flag} {args args' : List String}
    (h : SameArguments flag args args') :
    (readArguments .none args).map (Request.clear flag) =
      (readArguments .none args').map (Request.clear flag) := by
  rcases h with hsame | ⟨hargs, hargs', hothers⟩
  · exact readArguments_reset hsame
  · rw [readArguments_others hargs, readArguments_others hargs', hothers]

/-! ## The last level -/

/-- The level of a name, if there is one and it is valid. -/
def namedLevel (name : Option String) : Option Level :=
  name.bind fun value => (Level.ofName value).toOption

/-- The level of options that words were read to, over one that was set before: the last one given,
which is valid. -/
structure Levels (before : Option Level) (values : List String) (level : Option Level) : Prop where
  last : level = (namedLevel values.getLast?).or before
  accepted : ∀ value ∈ values, Flag.level.Accepts value

theorem namedLevel_of_accepts {value : String} (h : Flag.level.Accepts value) :
    ∃ l, namedLevel (some value) = some l := by
  obtain ⟨l, hl⟩ := h
  exact ⟨l, by simp [namedLevel, hl, Except.toOption]⟩

theorem Levels.nil (before : Option Level) : Levels before [] before := ⟨rfl, nofun⟩

theorem level_of_set? {o o' : Options} {value : String} (h : o.set? .level value = some o') :
    ∃ l, Level.ofName value = .ok l ∧ o.level = none ∧ o'.level = some l := by
  obtain ⟨_ | level, format⟩ := o
  · obtain ⟨l, hl, rfl⟩ := Option.map_eq_some_iff.1 h
    cases hname : Level.ofName value with
    | error fault => simp [hname, Except.toOption] at hl
    | ok l' =>
      simp only [hname, Except.toOption, Option.some.injEq] at hl
      exact ⟨l', rfl, rfl, congrArg some hl.symm⟩
  · cases h

theorem level_of_set?_format {o o' : Options} {value : String}
    (h : o.set? .format value = some o') : o'.level = o.level := by
  obtain ⟨level, _ | format⟩ := o
  · obtain ⟨f, -, rfl⟩ := Option.map_eq_some_iff.1 h
    rfl
  · cases h

theorem Levels.cons {o o' : Options} {value : String} {vs : List String} {level : Option Level}
    (hset : o.set? .level value = some o') (h : Levels o'.level vs level) :
    Levels o.level (value :: vs) level := by
  obtain ⟨l, hname, ho, ho'⟩ := level_of_set? hset
  refine ⟨?_, List.forall_mem_cons.2 ⟨⟨l, hname⟩, h.accepted⟩⟩
  rw [h.last, ho, ho']
  cases hlast : vs.getLast? with
  | none =>
    rw [List.getLast?_eq_none_iff.1 hlast]
    simp [namedLevel, hname, Except.toOption]
  | some last =>
    obtain ⟨l', hl'⟩ := namedLevel_of_accepts (h.accepted last (List.mem_of_getLast? hlast))
    rw [List.getLast?_cons, hlast, Option.getD_some, hl', Option.some_or, Option.some_or]

/-- Options behind the action count before those in front of it. -/
theorem Levels.behind {before later : Option Level} {vs : List String}
    (h : Levels none vs later) : Levels before vs (later.or before) := by
  refine ⟨?_, h.accepted⟩
  rw [h.last, Option.or_none]

theorem Levels.option {flag : Flag} {o o' : Options} {value : String} {ws : List Word}
    {level : Option Level} (hset : o.set? flag value = some o')
    (h : Levels o'.level (values .level ws) level) :
    Levels o.level (values .level (.option flag value :: ws)) level := by
  cases flag with
  | level =>
    rw [values_option]
    exact .cons hset h
  | format =>
    rw [values_cons rfl, ← level_of_set?_format hset]
    exact h

theorem levels_readPath {action action' : Action} {before o options : Options}
    {path : Option String} {args : List String} {p : String}
    (h : readPath action before o path args = some (.run action' p options)) :
    ∃ later, Levels o.level (values .level (words true args)) later ∧
      options.level = later.or before.level := by
  fun_induction readPath action before o path args with
  | case1 o path | case2 o path rest =>
    obtain ⟨_, -, hr⟩ := Option.map_eq_some_iff.1 h
    cases hr
    exact ⟨o.level, .nil _, rfl⟩
  | case3 | case6 | case7 => cases h
  | case4 o path arg rest hdashes hhelp flag value hoption ih =>
    obtain ⟨o', hset, h⟩ := Option.bind_eq_some_iff.1 h
    obtain ⟨later, hlater, hoptions⟩ := ih o' h
    rw [words_joined hoption]
    exact ⟨later, .option hset hlater, hoptions⟩
  | case5 o path arg hdashes hhelp flag hoption value rest ih =>
    obtain ⟨o', hset, h⟩ := Option.bind_eq_some_iff.1 h
    obtain ⟨later, hlater, hoptions⟩ := ih o' h
    rw [words_apart hoption]
    exact ⟨later, .option hset hlater, hoptions⟩
  | case8 o path arg rest hdashes hhelp hoption _ ih =>
    rw [words_plain ⟨hdashes, hoption⟩ (.inl rfl), values_cons rfl]
    exact ih h

theorem levels_readArguments {o options : Options} {args : List String} {action : Action}
    {path : String} (h : readArguments o args = some (.run action path options)) :
    Levels o.level (values .level (words false args)) options.level := by
  fun_induction readArguments o args with
  | case1 | case2 | case3 | case6 => cases h
  | case4 o arg rest hversion hhelp flag value hoption ih =>
    obtain ⟨o', hset, h⟩ := Option.bind_eq_some_iff.1 h
    rw [words_joined hoption]
    exact .option hset (ih o' h)
  | case5 o arg hversion hhelp flag hoption value rest ih =>
    obtain ⟨o', hset, h⟩ := Option.bind_eq_some_iff.1 h
    rw [words_apart hoption]
    exact .option hset (ih o' h)
  | case7 o rest hversion hhelp hoption =>
    obtain ⟨_, -, hr⟩ := Option.map_eq_some_iff.1 h
    cases hr
  | case8 o arg rest hversion hhelp hoption hplain =>
    obtain ⟨action', haction, h⟩ := Option.bind_eq_some_iff.1 h
    obtain ⟨later, hlater, hoptions⟩ := levels_readPath h
    have hdashes : arg ≠ "--" := by
      rintro rfl
      simp [action?_dashes] at haction
    rw [words_plain ⟨hdashes, hoption⟩ (.inr hplain), values_cons rfl, hoptions]
    exact hlater.behind

end Gherkin.Command
