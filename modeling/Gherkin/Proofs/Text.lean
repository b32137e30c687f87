import Gherkin.Text.Blank
import Gherkin.Text.Lines
import Mathlib.Data.List.DropRight
import Mathlib.Data.List.TakeWhile

/-
  Blanks, words and lines of a text. Trimming takes blanks from the two ends and nothing else
  (`exists_trim`), so blanks added there do not change it; a word holds no blank and a line no
  newline.
-/

namespace Gherkin.Text

/-! ## Trimming -/

/-- A text of blanks. -/
def Blanks (s : List Char) : Prop := ∀ c ∈ s, isBlank c = true

theorem trimStart_append_left {w : List Char} (h : Blanks w) (s : List Char) :
    trimStart (w ++ s) = trimStart s := List.dropWhile_append_of_pos h

theorem trimEnd_append_right {w : List Char} (h : Blanks w) (s : List Char) :
    trimEnd (s ++ w) = trimEnd s := by
  unfold trimEnd
  rw [List.reverse_append, List.dropWhile_append_of_pos]
  intro c hc
  exact h c (List.mem_reverse.1 hc)

theorem trimEnd_eq_nil {s : List Char} : trimEnd s = [] ↔ Blanks s := List.rdropWhile_eq_nil_iff

theorem trim_append_left {w : List Char} (h : Blanks w) (s : List Char) :
    trim (w ++ s) = trim s := by
  rw [trim, trimStart_append_left h, trim]

theorem trim_append_right {w : List Char} (h : Blanks w) (s : List Char) :
    trim (s ++ w) = trim s := by
  unfold trim trimStart
  rw [List.dropWhile_append]
  split
  · rename_i hs
    rw [List.isEmpty_iff.1 hs, trimEnd_eq_nil.2 fun c hc => h c (List.dropWhile_subset _ hc)]
    rfl
  · exact trimEnd_append_right h _

/-- A text is its trimmed part between blanks. -/
theorem exists_trim (s : List Char) : ∃ v w, s = v ++ trim s ++ w ∧ Blanks v ∧ Blanks w := by
  refine ⟨s.takeWhile isBlank, (trimStart s).rtakeWhile isBlank, ?_,
    fun c => List.mem_takeWhile_imp, fun c => List.mem_rtakeWhile_imp⟩
  rw [List.append_assoc, trim]
  show s = _ ++ ((trimStart s).rdropWhile isBlank ++ _)
  rw [List.rdropWhile_append_rtakeWhile]
  exact List.takeWhile_append_dropWhile.symm

theorem trim_trim (s : List Char) : trim (trim s) = trim s := by
  obtain ⟨v, w, hs, hv, hw⟩ := exists_trim s
  conv => rhs; rw [hs, trim_append_right hw, trim_append_left hv]

theorem mem_of_mem_trim {c : Char} {s : List Char} (h : c ∈ trim s) : c ∈ s := by
  obtain ⟨v, w, hs, -, -⟩ := exists_trim s
  rw [hs]
  simp [h]

theorem trim_eq_nil {s : List Char} : trim s = [] ↔ Blanks s := by
  constructor
  · intro h
    obtain ⟨v, w, hs, hv, hw⟩ := exists_trim s
    rw [h, List.append_nil] at hs
    intro c hc
    rw [hs] at hc
    rcases List.mem_append.1 hc with hc | hc
    · exact hv c hc
    · exact hw c hc
  · intro h
    have := trim_append_left h []
    rwa [List.append_nil] at this

/-- A trimmed text does not end in blanks. -/
theorem eq_nil_of_trim_append {s w : List Char} (hw : Blanks w) (h : trim (s ++ w) = s ++ w) :
    w = [] := by
  rw [trim_append_right hw] at h
  obtain ⟨v, u, hs, -, -⟩ := exists_trim s
  have hlength := congrArg List.length hs
  rw [h] at hlength
  simp only [List.length_append] at hlength
  exact List.eq_nil_of_length_eq_zero (by omega)

theorem trim_dedent (n : Nat) (s : List Char) : trim (dedent n s) = trim s := by
  induction s generalizing n with
  | nil => cases n <;> rfl
  | cons c s ih =>
    cases n with
    | zero => rfl
    | succ n =>
      unfold dedent
      split
      · rename_i h
        rw [ih]
        exact (trim_append_left (w := [c]) (by simpa [Blanks] using h) s).symm
      · rfl

theorem mem_of_mem_dedent {c : Char} {n : Nat} {s : List Char} (h : c ∈ dedent n s) : c ∈ s := by
  induction s generalizing n with
  | nil => cases n <;> exact h
  | cons d s ih =>
    cases n with
    | zero => exact h
    | succ n =>
      unfold dedent at h
      split at h
      · exact List.mem_cons_of_mem _ (ih h)
      · exact h

/-! ## Words -/

theorem words_cons_of_not_blank {c : Char} (s : List Char) (h : isBlank c = false) :
    words (c :: s) = [c] :: words s ∨ ∃ w ws, words s = w :: ws ∧
      words (c :: s) = (c :: w) :: ws := by
  rw [words, if_neg (by simp [h])]
  split
  · exact .inl rfl
  · cases words s with
    | nil => exact .inl rfl
    | cons w ws => exact .inr ⟨w, ws, rfl, rfl⟩

/-- A word is not empty and holds no blank. -/
theorem mem_words {s w : List Char} (h : w ∈ words s) :
    w ≠ [] ∧ ∀ c ∈ w, isBlank c = false := by
  induction s generalizing w with
  | nil => cases h
  | cons c s ih =>
    cases hc : isBlank c with
    | true =>
      unfold words at h
      rw [if_pos hc] at h
      exact ih h
    | false =>
      have hfirst : ∀ d ∈ [c], isBlank d = false := by simpa using hc
      rcases words_cons_of_not_blank s hc with e | ⟨v, ws, hs, e⟩
      · rw [e] at h
        rcases List.mem_cons.1 h with rfl | h
        · exact ⟨List.cons_ne_nil _ _, hfirst⟩
        · exact ih h
      · rw [e] at h
        rcases List.mem_cons.1 h with rfl | h
        · refine ⟨List.cons_ne_nil _ _, fun d hd => ?_⟩
          rcases List.mem_cons.1 hd with rfl | hd
          · exact hc
          · exact (ih (hs ▸ List.mem_cons_self)).2 d hd
        · exact ih (hs ▸ List.mem_cons_of_mem _ h)

/-- The first word of a text that starts with a character that is no blank. -/
theorem words_cons_ne_nil {c : Char} {s : List Char} (h : isBlank c = false) :
    ∃ w ws, words (c :: s) = (c :: w) :: ws := by
  rcases words_cons_of_not_blank s h with e | ⟨w, ws, -, e⟩
  · exact ⟨[], _, e⟩
  · exact ⟨w, ws, e⟩

/-! ## Lines -/

/-- No line of a text holds a newline. -/
theorem newline_not_mem_lines {s l : List Char} (h : l ∈ lines s) : '\n' ∉ l := by
  induction s using lines.induct generalizing l with
  | case1 => simp [lines] at h
  | case2 r ih =>
    rw [lines_newline] at h
    rcases List.mem_cons.1 h with rfl | h
    · simp
    · exact ih h
  | case3 r ih =>
    rw [show lines ('\r' :: '\n' :: r) = [] :: lines r by simp [lines]] at h
    rcases List.mem_cons.1 h with rfl | h
    · simp
    · exact ih h
  | case4 c r hn hr he ih =>
    rw [lines.eq_4 c r hn hr, he] at h
    rcases List.mem_cons.1 h with rfl | h
    · simpa using fun e => hn e.symm
    · cases h
  | case5 c r hn hr k ks he ih =>
    rw [lines.eq_4 c r hn hr, he] at h
    rw [he] at ih
    rcases List.mem_cons.1 h with rfl | h
    · simpa using ⟨fun e => hn e.symm, ih List.mem_cons_self⟩
    · exact ih (List.mem_cons_of_mem _ h)

/-- A text without a newline is its one line. -/
theorem lines_eq_singleton {s : List Char} (hs : s ≠ []) (h : '\n' ∉ s) : lines s = [s] := by
  induction s with
  | nil => exact absurd rfl hs
  | cons c s ih =>
    rw [List.mem_cons, not_or] at h
    have hn : c = '\n' → False := fun e => h.1 e.symm
    have hr : ∀ r, c = '\r' → s = '\n' :: r → False := fun r _ e => h.2 (e ▸ List.mem_cons_self)
    rw [lines.eq_4 c s hn hr]
    cases s with
    | nil => rfl
    | cons d r => rw [ih (List.cons_ne_nil _ _) h.2]

end Gherkin.Text
