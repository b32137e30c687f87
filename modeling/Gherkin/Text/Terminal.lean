/-
  Texts for a terminal. The characters that a terminal takes as commands are spelled out, so a text
  from a file cannot steer it: a spelled text holds none of them (`not_isCommand_of_mem_spell`).
-/

namespace Gherkin.Text

/-- A terminal takes the character as a command, or as the first one of a command. -/
def isCommand (c : Char) : Bool :=
  [0x07, 0x08, 0x0c, 0x1b, 0x7f].contains c.toNat || (0x80 ≤ c.toNat && c.toNat < 0xa0)

/-- The two hexadecimal digits of a code below 256. -/
def hexPair (n : Nat) : List Char := [Nat.digitChar (n / 16), Nat.digitChar (n % 16)]

/-- A character, or its code if it is a command. -/
def spellChar (c : Char) : List Char :=
  if !isCommand c then [c]
  else if c.toNat < 0x80 then ['\\', 'x'] ++ hexPair c.toNat
  else ['\\', 'u', '\x7b'] ++ hexPair c.toNat ++ ['\x7d']

/-- A text whose commands are spelled out. -/
def spell (s : String) : String := String.ofList (s.toList.flatMap spellChar)

theorem not_isCommand_digitChar : ∀ n < 16, isCommand (Nat.digitChar n) = false := by decide

theorem not_isCommand_of_mem_hexPair {n : Nat} {d : Char} (hn : n < 256) (h : d ∈ hexPair n) :
    isCommand d = false := by
  simp only [hexPair, List.mem_cons, List.not_mem_nil, or_false] at h
  rcases h with rfl | rfl <;> exact not_isCommand_digitChar _ (by omega)

theorem lt_of_isCommand {c : Char} (h : isCommand c = true) : c.toNat < 256 := by
  simp only [isCommand, List.contains_eq_mem, List.mem_cons, List.not_mem_nil, or_false,
    Bool.or_eq_true, decide_eq_true_eq, Bool.and_eq_true] at h
  omega

theorem not_isCommand_of_mem_spellChar {c d : Char} (h : d ∈ spellChar c) :
    isCommand d = false := by
  unfold spellChar at h
  split at h
  · rename_i hc
    simpa [List.mem_singleton.1 h] using hc
  · rename_i hc
    have code := @not_isCommand_of_mem_hexPair c.toNat d (lt_of_isCommand (by simpa using hc))
    have plain : (['\\', 'x', 'u', '\x7b', '\x7d'].all fun d => !isCommand d) = true := by decide
    rw [List.all_eq_true] at plain
    split at h <;> simp only [List.mem_append] at h <;> grind

theorem not_isCommand_of_mem_spell {s : String} {d : Char} (h : d ∈ (spell s).toList) :
    isCommand d = false := by
  simp only [spell, String.toList_ofList, List.mem_flatMap] at h
  obtain ⟨c, _, hd⟩ := h
  exact not_isCommand_of_mem_spellChar hd

end Gherkin.Text
