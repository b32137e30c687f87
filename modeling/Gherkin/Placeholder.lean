import Gherkin.Step
import Gherkin.Text.Blank

/-
  Placeholders in step text. A placeholder is a name between angle brackets; the name is not empty,
  holds no angle bracket and does not start with a blank. A text is cut into plain stretches and
  placeholders, and every function on placeholders is a function of that cut.
-/

namespace Gherkin.Placeholder

/-- The character is no angle bracket. -/
def plain (c : Char) : Bool := c != '<' && c != '>'

/-- The name that stands directly after an opening bracket, with what follows its closing one. -/
def name? (s : List Char) : Option (List Char × List Char) :=
  match s.takeWhile plain, s.dropWhile plain with
  | c :: name, '>' :: rest => if Text.isBlank c then none else some (c :: name, rest)
  | _, _ => none

/-- A text cut at its placeholders: the stretch before the first one, then each name with the
stretch after it. -/
structure Cut where
  lead : List Char
  rest : List (List Char × List Char)
deriving DecidableEq

/-- Cuts a text. A placeholder opens at its bracket or nowhere, so the cut of what follows the
bracket shows in its leading stretch whether one opens there. -/
def cut : List Char → Cut
  | [] => ⟨[], []⟩
  | c :: s =>
    let ⟨lead, rest⟩ := cut s
    match if c = '<' then name? lead else none with
    | some (name, lead) => ⟨[], (name, lead) :: rest⟩
    | none => ⟨c :: lead, rest⟩

/-- Writes a cut with another text for each placeholder. -/
def Cut.render (value : List Char → List Char) (k : Cut) : List Char :=
  k.lead ++ k.rest.flatMap fun (name, after) => value name ++ after

/-- The names of the placeholders of a text, one per occurrence. -/
def names (text : String) : List String :=
  (cut text.toList).rest.map fun p => String.ofList p.1

/-- The text holds a placeholder. -/
def occurs (text : String) : Bool := !(cut text.toList).rest.isEmpty

/-- What stands for a placeholder: the text bound to its name, else the placeholder itself. -/
def value (b : Bindings) (name : List Char) : List Char :=
  match b.get? (String.ofList name) with
  | some value => value.toList
  | none => '<' :: name ++ ['>']

/-- The text with each bound placeholder replaced, in one pass. -/
def substitute (text : String) (b : Bindings) : String :=
  String.ofList ((cut text.toList).render (value b))

/-- Writing each placeholder as it was gives the text back. -/
theorem render_cut (s : List Char) : (cut s).render (fun name => '<' :: name ++ ['>']) = s := by
  induction s with
  | nil => rfl
  | cons c s ih =>
    simp only [cut]
    generalize cut s = k at ih ⊢
    obtain ⟨lead, rest⟩ := k
    simp only [Cut.render] at ih ⊢
    split
    · rename_i name lead' h
      split at h
      · rename_i hc
        simp only [name?] at h
        split at h
        · rename_i d n r ht hd
          split at h
          · cases h
          · cases h
            have e := List.takeWhile_append_dropWhile (p := plain) (l := lead)
            rw [ht, hd] at e
            simp [← ih, ← e, hc]
        · cases h
      · cases h
    · simp [← ih]

end Gherkin.Placeholder

namespace Gherkin

/-- The step with its text substituted; its argument stays as it is. -/
def Step.substitute (s : Step) (b : Bindings) : Step :=
  { s with text := Placeholder.substitute s.text b }

end Gherkin
