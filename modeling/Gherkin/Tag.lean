import Gherkin.Fault

/-
  Tags and tag lines. A tag line is words that each open with an at sign; a word that opens with a
  number sign starts a comment.
-/

namespace Gherkin

/-- A free label, without its at sign. -/
structure Tag where
  name : String
deriving DecidableEq

/-- The tags of a tag line's words. -/
def Tag.ofWords : List (List Char) → Except Fault.Cause (List Tag)
  | [] => .ok []
  | ('#' :: _) :: _ => .ok []
  | ('@' :: c :: name) :: rest =>
    (Tag.ofWords rest).map fun tags => ⟨String.ofList (c :: name)⟩ :: tags
  | word :: _ => .error (.badTag (String.ofList word))

/-- The tags of a tag line. -/
def Tag.ofLine (content : List Char) : Except Fault.Cause (List Tag) :=
  Tag.ofWords (Text.words content)

end Gherkin
