import Gherkin.Json.Number
import Gherkin.Json.Quoted

/-
  The tokens of a JSON text. Anything that is no token ends the list with `bad`.
-/

namespace Gherkin.Json

/-- A token. -/
inductive Token where
  | openArray
  | closeArray
  | openObject
  | closeObject
  | comma
  | colon
  | null
  | bool (b : Bool)
  | number (n : Number)
  | string (s : String)
  | bad
deriving DecidableEq

/-- The white space of JSON. -/
def isSpace (c : Char) : Bool := c = ' ' || c = '\t' || c = '\n' || c = '\r'

/-- The token of a punctuation character. -/
def punctuation? : Char → Option Token
  | '[' => some .openArray
  | ']' => some .closeArray
  | '\x7b' => some .openObject
  | '\x7d' => some .closeObject
  | ',' => some .comma
  | ':' => some .colon
  | _ => none

/-- The tokens of a text up to the first thing that is none. -/
def tokens : List Char → List Token
  | [] => []
  | 'n' :: 'u' :: 'l' :: 'l' :: r => .null :: tokens r
  | 't' :: 'r' :: 'u' :: 'e' :: r => .bool true :: tokens r
  | 'f' :: 'a' :: 'l' :: 's' :: 'e' :: r => .bool false :: tokens r
  | '"' :: r =>
    match h : Quoted.scan r with
    | some (s, rest) =>
      have : rest.length < r.length := Quoted.length_of_scan h
      .string (String.ofList s) :: tokens rest
    | none => [.bad]
  | c :: r =>
    if isSpace c then tokens r
    else match punctuation? c with
      | some t => t :: tokens r
      | none =>
        match h : Number.scan (c :: r) with
        | some (n, rest) =>
          have : rest.length < (c :: r).length := Number.length_of_scan h
          .number n :: tokens rest
        | none => [.bad]
termination_by s => s.length
decreasing_by all_goals simp only [List.length_cons] at *; omega

end Gherkin.Json
