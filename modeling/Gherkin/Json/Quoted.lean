/-
  Strings of JSON texts. Quotes, backslashes and control characters are escaped, and nothing else
  is; reading takes every escape, with pairs of surrogate units for characters beyond the basic
  plane.
-/

namespace Gherkin.Json.Quoted

/-- The escape of a character, or the character itself. -/
def escape (c : Char) : List Char :=
  match c with
  | '"' => ['\\', '"']
  | '\\' => ['\\', '\\']
  | '\n' => ['\\', 'n']
  | '\r' => ['\\', 'r']
  | '\t' => ['\\', 't']
  | '\x08' => ['\\', 'b']
  | '\x0c' => ['\\', 'f']
  | c =>
    if c.toNat < 0x20 then
      ['\\', 'u', '0', '0', Nat.digitChar (c.toNat / 16), Nat.digitChar (c.toNat % 16)]
    else [c]

/-- A string between quotes. -/
def encode (s : String) : List Char := '"' :: s.toList.flatMap escape ++ ['"']

/-- The character that a one-letter escape stands for. -/
def simple? : Char → Option Char
  | '"' => some '"'
  | '\\' => some '\\'
  | '/' => some '/'
  | 'b' => some '\x08'
  | 'f' => some '\x0c'
  | 'n' => some '\n'
  | 'r' => some '\r'
  | 't' => some '\t'
  | _ => none

/-- The value of a hexadecimal digit of either case. -/
def hexDigit? (c : Char) : Option Nat :=
  if c.isDigit then some (c.toNat - 48)
  else if 'a' ≤ c && c ≤ 'f' then some (c.toNat - 87)
  else if 'A' ≤ c && c ≤ 'F' then some (c.toNat - 55)
  else none

/-- The 16-bit unit of four hexadecimal digits. -/
def unit? (a b c d : Char) : Option Nat := do
  return (← hexDigit? a) * 4096 + (← hexDigit? b) * 256 + (← hexDigit? c) * 16 + (← hexDigit? d)

/-- The unit is the first of a surrogate pair. -/
def isHigh (u : Nat) : Bool := 0xd800 ≤ u && u < 0xdc00

/-- The unit is the second of a surrogate pair. -/
def isLow (u : Nat) : Bool := 0xdc00 ≤ u && u < 0xe000

/-- The character of a surrogate pair. -/
def pair (high low : Nat) : Char := Char.ofNat (0x10000 + (high - 0xd800) * 0x400 + (low - 0xdc00))

/-- Puts a character before what was scanned. -/
def push (c : Char) (p : List Char × List Char) : List Char × List Char := (c :: p.1, p.2)

/-- The characters up to the closing quote, and what follows it. -/
def scan : List Char → Option (List Char × List Char)
  | [] => none
  | '"' :: r => some ([], r)
  | '\\' :: 'u' :: a :: b :: c :: d :: r =>
    match unit? a b c d with
    | none => none
    | some u =>
      if isHigh u then
        match r with
        | '\\' :: 'u' :: a :: b :: c :: d :: r =>
          match unit? a b c d with
          | none => none
          | some v => if isLow v then (scan r).map (push (pair u v)) else none
        | _ => none
      else if isLow u then none
      else (scan r).map (push (Char.ofNat u))
  | '\\' :: e :: r =>
    match simple? e with
    | none => none
    | some c => (scan r).map (push c)
  | c :: r => if c = '\\' || c.toNat < 0x20 then none else (scan r).map (push c)

theorem scan_of_push {c : Char} {s t r : List Char} (h : (scan s).map (push c) = some (t, r)) :
    ∃ u, scan s = some (u, r) := by
  obtain ⟨⟨u, v⟩, hs, e⟩ := Option.map_eq_some_iff.1 h
  exact ⟨u, hs.trans (by simpa [push] using congrArg Prod.snd e)⟩

theorem length_of_scan {s t r : List Char} (h : scan s = some (t, r)) : r.length < s.length := by
  fun_induction scan s generalizing t <;> simp only [List.length_cons, reduceCtorEq] at h ⊢ <;>
    grind [scan_of_push]

end Gherkin.Json.Quoted
