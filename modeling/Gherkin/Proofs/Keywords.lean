import Gherkin.Proofs.Spelling
import Mathlib.Data.List.Perm.Basic

/-
  The words that open a line: headings, step keywords and unsupported openings. None of them begins
  with another one (`Opener.eq_of_word`), so at most one opens a line, and the first that does is
  the same in whatever order the tables are searched (`keywords_unambiguous`). What follows a
  keyword may begin with one itself: a line is read back as it was spelled.
-/

namespace Gherkin

namespace Line

open Text

/-- What opens a line that is no free text. -/
inductive Opener where
  | heading (h : Heading)
  | step (k : StepKeyword)
  | unsupported (opening : String)
deriving DecidableEq

namespace Opener

/-- The tables of openers, in the order in which a line is compared with them. -/
def tables : List (List Opener) :=
  [Heading.all.map heading, StepKeyword.all.map step, Gherkin.unsupported.map unsupported]

/-- The word that is compared with the start of a line. -/
def word : Opener → List Char
  | heading h => h.label.toList
  | step k => k.word.toList
  | unsupported opening => opening.toList

/-- The opener matches the content of a line; a step keyword needs a blank behind it. -/
def Opens (content : List Char) : Opener → Prop
  | heading h => h.label.toList <+: content
  | step k => ∃ c, isBlank c = true ∧ k.word.toList ++ [c] <+: content
  | unsupported opening => opening.toList <+: content

/-- What a line is that the opener matches. -/
def read? (content : List Char) : Opener → Option (Except Fault.Cause Kind)
  | heading h =>
    (h.label.toList.isPrefixOf? content).map fun name =>
      .ok (.heading h (String.ofList (trim name)))
  | step k =>
    match k.word.toList.isPrefixOf? content with
    | some (c :: rest) =>
      if isBlank c then some (.ok (.step k (String.ofList (trim rest)))) else none
    | _ => none
  | unsupported opening =>
    if opening.toList.isPrefixOf content then some (.error (.unsupported opening)) else none

/-- The kind of a line by the first opener that matches it, in a given order of tables. -/
def search (tables : List (List Opener)) (content : List Char) : Except Fault.Cause Kind :=
  let found := tables.findSome? fun openers => openers.findSome? (read? content)
  found.getD (.ok (.text (String.ofList content)))

/-- The search in the order of the tables is how a line is classified. -/
theorem search_tables (content : List Char) : search tables content = Kind.ofWords content := by
  have hheading : (Heading.all.map heading).findSome? (read? content) =
      (Heading.opening? content).map fun (h, name) =>
        .ok (.heading h (String.ofList (trim name))) := by
    rw [Heading.opening?, List.findSome?_map, List.map_findSome?]
    congr 1
    funext h
    simp only [Function.comp_def, read?, Option.map_map]
  have hstep : (StepKeyword.all.map step).findSome? (read? content) =
      (StepKeyword.opening? content).map fun (k, rest) =>
        .ok (.step k (String.ofList (trim rest))) := by
    rw [StepKeyword.opening?, List.findSome?_map, List.map_findSome?]
    congr 1
    funext k
    simp only [Function.comp_def, read?]
    rcases k.word.toList.isPrefixOf? content with _ | _ | ⟨c, rest⟩
    · rfl
    · rfl
    · dsimp only
      split <;> rfl
  have hunsupported : (Gherkin.unsupported.map unsupported).findSome? (read? content) =
      (unsupported? content).map fun opening => .error (.unsupported opening) := by
    rw [unsupported?, List.findSome?_map, List.find?_eq_findSome?_guard, List.map_findSome?]
    congr 1
    funext opening
    simp only [Function.comp_def, read?, Option.guard]
    split <;> rfl
  rw [search, tables, List.findSome?_cons, List.findSome?_cons, List.findSome?_cons, hheading,
    hstep, hunsupported, Kind.ofWords]
  cases Heading.opening? content with
  | some r => rfl
  | none =>
    cases StepKeyword.opening? content with
    | some r => rfl
    | none => cases unsupported? content <;> rfl

/-! ## At most one opener -/

theorem isSome_read? {content : List Char} {o : Opener} :
    (o.read? content).isSome = true ↔ o.Opens content := by
  cases o with
  | heading h =>
    rw [read?, Option.isSome_map, List.isSome_isPrefixOf?_eq_isPrefixOf,
      List.isPrefixOf_iff_prefix]
    rfl
  | step k =>
    rw [read?]
    constructor
    · intro h
      split at h
      · rename_i c rest hrest
        split at h
        · rename_i hc
          refine ⟨c, hc, rest, ?_⟩
          rw [← List.isPrefixOf?_eq_some_iff_append_eq.1 hrest]
          simp
        · cases h
      · cases h
    · rintro ⟨c, hc, rest, rfl⟩
      have hrest : k.word.toList.isPrefixOf? (k.word.toList ++ [c] ++ rest) = some (c :: rest) :=
        List.isPrefixOf?_eq_some_iff_append_eq.2 (by simp)
      rw [hrest]
      simp [hc]
  | unsupported opening =>
    rw [read?, Opens, ← List.isPrefixOf_iff_prefix]
    split <;> simp_all

theorem Opens.word {content : List Char} {o : Opener} (h : o.Opens content) :
    o.word <+: content := by
  cases o with
  | heading h' => exact h
  | step k =>
    obtain ⟨c, -, hprefix⟩ := h
    exact (List.prefix_append _ _).trans hprefix
  | unsupported opening => exact h

/-- No word begins with another one. -/
theorem eq_of_word {o p : Opener} (ho : o ∈ tables.flatten) (hp : p ∈ tables.flatten)
    (h : o.word <+: p.word) : o = p := by
  have hfree : ∀ o ∈ tables.flatten, ∀ p ∈ tables.flatten, o.word <+: p.word → o = p := by
    decide +kernel
  exact hfree o ho p hp h

theorem eq_of_opens {content : List Char} {o p : Opener} (ho : o ∈ tables.flatten)
    (hp : p ∈ tables.flatten) (h : o.Opens content) (h' : p.Opens content) : o = p := by
  obtain hprefix | hprefix := List.prefix_or_prefix_of_prefix h.word h'.word
  · exact eq_of_word ho hp hprefix
  · exact (eq_of_word hp ho hprefix).symm

/-! ## Any order -/

theorem findSome?_flatten {α β : Type} (f : α → Option β) (ls : List (List α)) :
    ls.flatten.findSome? f = ls.findSome? fun l => l.findSome? f := by
  induction ls with
  | nil => rfl
  | cons l ls ih =>
    rw [List.flatten_cons, List.findSome?_append, ih, List.findSome?_cons]
    cases l.findSome? f <;> rfl

/-- Where at most one member of a list matches, the first match is that member's. -/
theorem findSome?_eq_some_iff {α β : Type} {f : α → Option β} {l : List α}
    (one : ∀ a ∈ l, ∀ b ∈ l, (f a).isSome = true → (f b).isSome = true → a = b) {b : β} :
    l.findSome? f = some b ↔ ∃ a ∈ l, f a = some b := by
  constructor
  · exact List.exists_of_findSome?_eq_some
  · rintro ⟨a, ha, hb⟩
    have hsome : (l.findSome? f).isSome = true :=
      List.findSome?_isSome_iff.2 ⟨a, ha, by rw [hb]; rfl⟩
    obtain ⟨b', hb'⟩ := Option.isSome_iff_exists.1 hsome
    obtain ⟨a', ha', hfound⟩ := List.exists_of_findSome?_eq_some hb'
    obtain rfl := one a ha a' ha' (by rw [hb]; rfl) (by rw [hfound]; rfl)
    rw [hb', ← hfound, hb]

/-- The search finds the same in any tables of the same openers. -/
theorem search_eq {others : List (List Opener)} (content : List Char)
    (same : ∀ o, o ∈ others.flatten ↔ o ∈ tables.flatten) :
    search others content = search tables content := by
  have hone : ∀ o ∈ tables.flatten, ∀ p ∈ tables.flatten, (o.read? content).isSome = true →
      (p.read? content).isSome = true → o = p := fun o ho p hp h h' =>
    eq_of_opens ho hp (isSome_read?.1 h) (isSome_read?.1 h')
  have hone' : ∀ o ∈ others.flatten, ∀ p ∈ others.flatten, (o.read? content).isSome = true →
      (p.read? content).isSome = true → o = p := fun o ho p hp =>
    hone o ((same o).1 ho) p ((same p).1 hp)
  have hfound : others.flatten.findSome? (read? content) =
      tables.flatten.findSome? (read? content) := Option.ext fun b => by
    rw [findSome?_eq_some_iff hone, findSome?_eq_some_iff hone']
    exact exists_congr fun o => and_congr_left' (same o)
  rw [search, search, ← findSome?_flatten, ← findSome?_flatten, hfound]

/-- The tables in any order, each with its openers in any order. -/
def Reordered (others : List (List Opener)) : Prop :=
  ∃ shuffled, List.Forall₂ List.Perm shuffled tables ∧ others.Perm shuffled

/-- The tables hold the same openers in any order. -/
theorem Reordered.mem_flatten {others : List (List Opener)} (h : Reordered others) (o : Opener) :
    o ∈ others.flatten ↔ o ∈ tables.flatten := by
  obtain ⟨shuffled, hshuffled, hothers⟩ := h
  exact (hothers.flatten.trans (List.Perm.flatten_congr hshuffled)).mem_iff

end Opener

end Line

open Line

/-- At most one opener matches the content of a line: two that do are the same. So the line is
classified alike in any order of the tables and any order in them. A line of a keyword, a space and
a trimmed text is read back as that keyword with that text, which may be empty behind a heading. -/
theorem keywords_unambiguous :
    (∀ content, ∀ o ∈ Opener.tables.flatten, ∀ p ∈ Opener.tables.flatten,
      o.Opens content → p.Opens content → o = p) ∧
    (∀ tables, Opener.Reordered tables →
      ∀ content, Opener.search tables content = Kind.ofWords content) ∧
    (∀ h name number, Text.Trimmed name →
      classify none number (h.label.toList ++ ' ' :: name.toList) =
        (.ok (.heading h name), none)) ∧
    ∀ k s number, Text.Trimmed s → s ≠ "" →
      classify none number (k.word.toList ++ ' ' :: s.toList) = (.ok (.step k s), none) := by
  refine ⟨fun content o ho p hp => Opener.eq_of_opens ho hp, ?_, ?_, ?_⟩
  · intro tables hreordered content
    rw [Opener.search_eq content hreordered.mem_flatten, Opener.search_tables]
  · intro h name number htrimmed
    have hspell : (Kind.heading h name).spell = h.label.toList ++ ' ' :: name.toList := by
      rw [Kind.spell, List.append_assoc, List.singleton_append]
    exact hspell ▸ classify_of_ofContent (ofContent_heading h htrimmed) (by simp) number
  · intro k s number htrimmed hne
    have hspell : (Kind.step k s).spell = k.word.toList ++ ' ' :: s.toList := by
      rw [Kind.spell, List.append_assoc, List.singleton_append]
    exact hspell ▸ classify_of_ofContent (ofContent_step k htrimmed hne) (by simp) number

/-- An outline whose name begins with another heading, and a step whose text begins with another
step keyword. Searched from the last table to the first, the openers tell the same of the
outline. -/
theorem keywords_unambiguous_nested :
    let reversed := (Opener.tables.map List.reverse).reverse
    let outline := "Scenario Outline: Scenario: a".toList
    Opener.Reordered reversed ∧ Opener.search reversed outline = Kind.ofWords outline ∧
      Kind.ofWords outline = .ok (.heading .scenarioOutline "Scenario: a") ∧
      (∀ o ∈ Opener.tables.flatten, o.Opens outline → o = .heading .scenarioOutline) ∧
      classify none 3 outline = (.ok (.heading .scenarioOutline "Scenario: a"), none) ∧
      classify none 4 "Given When b".toList = (.ok (.step .given "When b"), none) := by
  intro reversed outline
  obtain ⟨hone, horder, hheading, hstep⟩ := keywords_unambiguous
  have hreordered : Opener.Reordered reversed :=
    ⟨Opener.tables.map List.reverse,
      List.forall₂_map_left_iff.2 (List.forall₂_same.2 fun table _ => List.reverse_perm table),
      List.reverse_perm _⟩
  have hopens : (Opener.heading .scenarioOutline).Opens outline :=
    Opener.isSome_read?.1 (by decide +kernel)
  refine ⟨hreordered, horder reversed hreordered outline, by decide +kernel,
    fun o ho h => hone outline o ho _ (by decide) h hopens, ?_, ?_⟩
  · exact hheading .scenarioOutline "Scenario: a" 3 (by decide)
  · exact hstep .given "When b" 4 (by decide) (by decide)

end Gherkin
