import Gherkin.Row
import Gherkin.Tag

/-
  Classified lines. A line is classified by its trimmed content alone, except between the two
  fences of a doc string, where every line up to the closing fence is captured as it stands, less
  the indentation of the opening fence.
-/

namespace Gherkin

/-- What a line is. -/
inductive Line.Kind where
  | blank
  | comment
  | tags (tags : List Tag)
  | heading (h : Heading) (name : String)
  | step (keyword : StepKeyword) (text : String)
  | fence
  | row (cells : List String)
  | text (content : String)
deriving DecidableEq

/-- A classified line with its number, counted from 1. -/
structure Line where
  number : Nat
  kind : Line.Kind
deriving DecidableEq

namespace Line

/-- The trimmed content of a fence. -/
def fenceMark : List Char := ['"', '"', '"']

/-- Text that opens with a heading, with a step keyword or with an unsupported opening; any other
text is free. -/
def Kind.ofWords (content : List Char) : Except Fault.Cause Kind :=
  match Heading.opening? content with
  | some (h, name) => .ok (.heading h (String.ofList (Text.trim name)))
  | none =>
    match StepKeyword.opening? content with
    | some (k, rest) => .ok (.step k (String.ofList (Text.trim rest)))
    | none =>
      match unsupported? content with
      | some opening => .error (.unsupported opening)
      | none => .ok (.text (String.ofList content))

/-- The kind of a line outside doc strings, by its trimmed content. -/
def Kind.ofContent (content : List Char) : Except Fault.Cause Kind :=
  match content with
  | [] => .ok .blank
  | '#' :: _ => .ok .comment
  | '@' :: _ => (Tag.ofLine content).map .tags
  | '|' :: _ => (Row.cells content).map .row
  | _ => if content = fenceMark then .ok .fence else Kind.ofWords content

/-- An open doc string: the line of its fence and the indentation of that line. -/
structure Fence where
  line : Nat
  indent : Nat
deriving DecidableEq

/-- The kind of a line, after which a doc string is open or none is. -/
def classify (fence : Option Fence) (number : Nat) (raw : List Char) :
    Except Fault.Cause Kind × Option Fence :=
  let content := Text.trim raw
  match fence with
  | some opened =>
    if content = fenceMark then (.ok .fence, none)
    else (.ok (.text (String.ofList (Text.dedent opened.indent raw))), fence)
  | none =>
    let opened := if content = fenceMark then some ⟨number, Text.indent raw⟩ else none
    (Kind.ofContent content, opened)

end Line

end Gherkin
