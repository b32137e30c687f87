import Gherkin.Json.Number
import Gherkin.Json.Quoted

/-
  JSON values and their two written forms: compact, without any space, and indented by two spaces
  a level. An object keeps its members in order.
-/

namespace Gherkin

/-- A JSON value. -/
inductive Json where
  | null
  | bool (b : Bool)
  | number (n : Json.Number)
  | string (s : String)
  | array (items : List Json)
  | object (members : List (String × Json))

namespace Json

/-- A truth value in a text. -/
def boolText (b : Bool) : List Char := if b then "true".toList else "false".toList

mutual

/-- The compact form. -/
def compact : Json → List Char
  | null => "null".toList
  | bool b => boolText b
  | number n => n.text.toList
  | string s => Quoted.encode s
  | array [] => ['[', ']']
  | array (v :: vs) => '[' :: compact v ++ compactItems vs
  | object [] => ['\x7b', '\x7d']
  | object ((k, v) :: ms) => '\x7b' :: Quoted.encode k ++ ':' :: compact v ++ compactMembers ms

/-- The items of an array after its first one, and its end. -/
def compactItems : List Json → List Char
  | [] => [']']
  | v :: vs => ',' :: compact v ++ compactItems vs

/-- The members of an object after its first one, and its end. -/
def compactMembers : List (String × Json) → List Char
  | [] => ['\x7d']
  | (k, v) :: ms => ',' :: Quoted.encode k ++ ':' :: compact v ++ compactMembers ms

end

/-- A line break and the indentation of a level. -/
def newline (level : Nat) : List Char := '\n' :: List.replicate (2 * level) ' '

mutual

/-- The indented form at a level. -/
def indented (level : Nat) : Json → List Char
  | null => "null".toList
  | bool b => boolText b
  | number n => n.text.toList
  | string s => Quoted.encode s
  | array [] => ['[', ']']
  | array (v :: vs) =>
    '[' :: newline (level + 1) ++ indented (level + 1) v ++ indentedItems level vs
  | object [] => ['\x7b', '\x7d']
  | object ((k, v) :: ms) =>
    '\x7b' :: newline (level + 1) ++ Quoted.encode k ++ ':' :: ' ' :: indented (level + 1) v ++
      indentedMembers level ms

/-- The items of an indented array after its first one, and its end. -/
def indentedItems (level : Nat) : List Json → List Char
  | [] => newline level ++ [']']
  | v :: vs => ',' :: newline (level + 1) ++ indented (level + 1) v ++ indentedItems level vs

/-- The members of an indented object after its first one, and its end. -/
def indentedMembers (level : Nat) : List (String × Json) → List Char
  | [] => newline level ++ ['\x7d']
  | (k, v) :: ms =>
    ',' :: newline (level + 1) ++ Quoted.encode k ++ ':' :: ' ' :: indented (level + 1) v ++
      indentedMembers level ms

end

/-- The compact text of a value. -/
def toCompact (j : Json) : String := String.ofList j.compact

/-- The indented text of a value. -/
def toIndented (j : Json) : String := String.ofList (j.indented 0)

end Json

end Gherkin
