import Gherkin.Decimal.Shortest

/-
  JSON numbers. A number without fraction and exponent that fits 64 bits is an integer; any other
  one is a double.
-/

namespace Gherkin.Json

/-- An integer, or a double by its bits. -/
inductive Number where
  | integer (value : Int)
  | float (bits : UInt64)
deriving DecidableEq

namespace Number

/-- A digit's value. -/
def digit (c : Char) : Nat := c.toNat - '0'.toNat

/-- Appends decimal digits to a significand as long as it fits 64 bits, and counts the digits that
are dropped from the first one that does not fit. -/
def gather (significand : Nat) : List Char → Nat × Nat
  | [] => (significand, 0)
  | c :: cs =>
    let next := significand * 10 + digit c
    if next < Nat.pow 2 64 then gather next cs else (significand, cs.length + 1)

/-- A power of ten as a double. -/
def power (e : Nat) : Float := Float.ofScientific 1 false e

/-- Divides by a power of ten; beyond the largest double the power is taken in parts. -/
def divide (f : Float) (e : Nat) : Float :=
  if e ≤ 308 then f / power e
  else if f == 0 then f
  else divide (f / power 308) (e - 308)
termination_by e

/-- The double of a significand and a decimal exponent; none if it is out of range. -/
def double? (significand : Nat) (exponent : Int) : Option Float :=
  let f := significand.toUInt64.toFloat
  if exponent < 0 then some (divide f exponent.natAbs)
  else if exponent ≤ 308 then
    let g := f * power exponent.natAbs
    if g.isInf then none else some g
  else if f == 0 then some f
  else none

/-- The digits of an integer part, which has no leading zero, and what follows them. -/
def scanInteger : List Char → Option (List Char × List Char)
  | '0' :: c :: r => if c.isDigit then none else some (['0'], c :: r)
  | c :: r =>
    if c.isDigit then some (c :: r.takeWhile Char.isDigit, r.dropWhile Char.isDigit) else none
  | [] => none

/-- The digits of a fraction, none if there is no fraction, and what follows them. -/
def scanFraction : List Char → Option (Option (List Char) × List Char)
  | '.' :: c :: r =>
    if c.isDigit then some (some (c :: r.takeWhile Char.isDigit), r.dropWhile Char.isDigit)
    else none
  | ['.'] => none
  | s => some (none, s)

/-- An unsigned run of digits and what follows it. -/
def scanDigits (s : List Char) : Option (Nat × List Char) :=
  match s.takeWhile Char.isDigit with
  | [] => none
  | ds => some (ds.foldl (fun n c => n * 10 + digit c) 0, s.dropWhile Char.isDigit)

/-- An exponent, none if there is no exponent, and what follows it. -/
def scanExponent : List Char → Option (Option Int × List Char)
  | c :: r =>
    if c = 'e' || c = 'E' then
      match r with
      | '-' :: s => (scanDigits s).map fun (n, rest) => (some (-n), rest)
      | '+' :: s => (scanDigits s).map fun (n, rest) => (some n, rest)
      | s => (scanDigits s).map fun (n, rest) => (some n, rest)
    else some (none, c :: r)
  | [] => some (none, [])

/-- The number of a sign, the digits of an integer part, a fraction and an exponent. -/
def make? (negative : Bool) (whole : List Char) (fraction : Option (List Char))
    (exponent : Option Int) : Option Number :=
  let (significand, dropped) := gather 0 whole
  let float (significand : Nat) (exponent : Int) : Option Number :=
    (double? significand exponent).map fun f => .float (if negative then -f else f).toBits
  match fraction, exponent with
  | none, none =>
    if dropped ≠ 0 then float significand dropped
    else if !negative then some (.integer significand)
    else if significand = 0 || Nat.pow 2 63 < significand then float significand 0
    else some (.integer (-significand))
  | _, _ =>
    let digits := fraction.getD []
    let (significand, ignored) := gather significand digits
    float significand (dropped + exponent.getD 0 - (digits.length - ignored : Nat))

/-- The number that opens a text, and what follows it. -/
def scan (s : List Char) : Option (Number × List Char) := do
  let (negative, s) := match s with
    | '-' :: r => (true, r)
    | s => (false, s)
  let (whole, s) ← scanInteger s
  let (fraction, s) ← scanFraction s
  let (exponent, s) ← scanExponent s
  let n ← make? negative whole fraction exponent
  return (n, s)

/-- The text of a decimal: positional while its point stands after at most 16 digits or after at
most four zeros, else with an exponent and its sign. A positional text of a whole number shows a
zero after its point. -/
def layout (d : Decimal.Scientific) : String :=
  let digits := Nat.toDigits 10 d.digits
  let point := digits.length + d.exponent
  let zeros (n : Nat) : List Char := List.replicate n '0'
  let text :=
    if 0 ≤ d.exponent && point ≤ 16 then digits ++ zeros d.exponent.toNat ++ ['.', '0']
    else if 0 < point && point ≤ 16 then
      digits.take point.toNat ++ '.' :: digits.drop point.toNat
    else if -5 < point && point ≤ 0 then '0' :: '.' :: zeros (-point).toNat ++ digits
    else
      let lead := digits.take 1
      let rest := digits.drop 1
      let fraction := if rest.isEmpty then [] else '.' :: rest
      let sign := if 0 < point then ['+'] else []
      lead ++ fraction ++ 'e' :: sign ++ (toString (point - 1)).toList
  String.ofList text

/-- The text of a number. -/
def text : Number → String
  | integer n => toString n
  | float bits =>
    let sign := if bits >>> 63 = 1 then "-" else ""
    let b := Decimal.Binary.ofBits bits
    if b.mantissa = 0 then sign ++ "0.0" else sign ++ layout (Decimal.shortest b)

theorem length_dropWhile_le (p : Char → Bool) (s : List Char) :
    (s.dropWhile p).length ≤ s.length := (List.dropWhile_sublist p).length_le

theorem length_of_scanInteger {s r ds : List Char} (h : scanInteger s = some (ds, r)) :
    r.length < s.length := by
  unfold scanInteger at h
  split at h
  · split at h <;> simp at h
    simp [← h.2]
  · rename_i c t _
    split at h <;> simp at h
    have := length_dropWhile_le Char.isDigit t
    rw [← h.2]
    simp only [List.length_cons]
    omega
  · simp at h

theorem length_of_scanFraction {s r : List Char} {f : Option (List Char)}
    (h : scanFraction s = some (f, r)) : r.length ≤ s.length := by
  unfold scanFraction at h
  split at h
  · rename_i c t
    split at h <;> simp at h
    have := length_dropWhile_le Char.isDigit t
    rw [← h.2]
    simp only [List.length_cons]
    omega
  · simp at h
  · simp at h
    simp [h.2]

theorem length_of_scanDigits {s r : List Char} {n : Nat} (h : scanDigits s = some (n, r)) :
    r.length ≤ s.length := by
  unfold scanDigits at h
  split at h
  · simp at h
  · simp at h
    rw [← h.2]
    exact length_dropWhile_le _ _

theorem length_of_scanExponent {s r : List Char} {e : Option Int}
    (h : scanExponent s = some (e, r)) : r.length ≤ s.length := by
  unfold scanExponent at h
  split at h
  · split at h
    · split at h <;> simp only [Option.map_eq_some_iff, Prod.mk.injEq] at h <;>
        obtain ⟨⟨n, t⟩, ht, _, rfl⟩ := h <;> have := length_of_scanDigits ht <;>
        simp only [List.length_cons] <;> omega
    · simp at h
      simp [← h.2]
  · simp at h
    simp [← h.2]

theorem length_of_scan {s r : List Char} {n : Number} (h : scan s = some (n, r)) :
    r.length < s.length := by
  simp only [scan, Option.bind_eq_bind, Option.bind_eq_some_iff, Option.pure_def,
    Option.some.injEq, Prod.mk.injEq] at h
  obtain ⟨⟨ds, s₁⟩, h₁, ⟨f, s₂⟩, h₂, ⟨e, s₃⟩, h₃, m, -, -, rfl⟩ := h
  have l₁ := length_of_scanInteger h₁
  have l₂ := length_of_scanFraction h₂
  have l₃ := length_of_scanExponent h₃
  dsimp only at l₂ l₃
  split at l₁ <;> simp only [List.length_cons] at * <;> omega

end Number

end Gherkin.Json
