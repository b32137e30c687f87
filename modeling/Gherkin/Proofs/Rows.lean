import Gherkin.Proofs.Spelling
import Mathlib.Algebra.Group.Nat.Even

/-
  Rows and their pipes. The reader of a row takes a backslash and the character after it as a pair;
  seen from a pipe, what counts is the number of backslashes directly before it (`Border`). The two
  agree because a pair begins after an even number of backslashes, so a row can be taken apart
  behind any such place (`border_append`, `borders_append`). A row is one exactly if its first and
  its last character are borders of it, and its cells are what stands between neighbouring ones
  (`cells_between_borders`).
-/

namespace Gherkin.Row

/-! ## Unescaped pipes -/

/-- The number of backslashes at the end of a text. -/
def trailing (s : List Char) : Nat := (s.reverse.takeWhile (· == '\\')).length

/-- An unescaped pipe stands at place `i`: the backslashes directly before it are even in number. -/
def Border (s : List Char) (i : Nat) : Prop := s[i]? = some '|' ∧ Even (trailing (s.take i))

instance (s : List Char) (i : Nat) : Decidable (Border s i) := instDecidableAnd

/-- The places of the unescaped pipes, from left to right. -/
def borders (s : List Char) : List Nat := (List.range s.length).filter fun i => Border s i

/-- What stands between two places. -/
def between (s : List Char) (i j : Nat) : List Char := (s.take j).drop (i + 1)

theorem trailing_append (s t : List Char) : trailing (s ++ t) =
    if trailing t = t.length then trailing t + trailing s else trailing t := by
  unfold trailing
  rw [List.reverse_append, List.takeWhile_append, List.length_reverse]
  split
  · rename_i h
    rw [List.length_append, List.length_reverse, h]
  · rfl

theorem border_append_left {s : List Char} {i : Nat} (h : i < s.length) (t : List Char) :
    Border (s ++ t) i ↔ Border s i := by
  unfold Border
  rw [List.getElem?_append_left h, List.take_append_of_le_length h.le]

section Even

variable {s : List Char} (h : Even (trailing s))
include h

theorem even_trailing_append (t : List Char) :
    Even (trailing (s ++ t)) ↔ Even (trailing t) := by
  rw [trailing_append]
  split
  · rw [Nat.even_add, iff_true_right h]
  · rfl

/-- Behind an even number of backslashes a row is read as at its start. -/
theorem border_append (t : List Char) (i : Nat) :
    Border (s ++ t) (s.length + i) ↔ Border t i := by
  unfold Border
  rw [List.getElem?_append_right (Nat.le_add_right _ _), Nat.add_sub_cancel_left,
    List.take_length_add_append, even_trailing_append h]

theorem borders_append (t : List Char) :
    borders (s ++ t) = borders s ++ (borders t).map (s.length + ·) := by
  have hleft : ∀ i ∈ List.range s.length, decide (Border (s ++ t) i) = decide (Border s i) :=
    fun i hi => decide_eq_decide.2 (border_append_left (List.mem_range.1 hi) t)
  have hright : ∀ i ∈ List.range t.length,
      decide (Border (s ++ t) (s.length + i)) = decide (Border t i) :=
    fun i _ => decide_eq_decide.2 (border_append h t i)
  rw [borders, List.length_append, List.range_add, List.filter_append, List.filter_map,
    List.filter_congr hleft]
  exact congrArg (fun is => borders s ++ is.map (s.length + ·)) (List.filter_congr hright)

/-- The last character of a row stays one however the row begins. -/
theorem border_last_append {t : List Char} (ht : t ≠ []) :
    Border (s ++ t) ((s ++ t).length - 1) ↔ Border t (t.length - 1) := by
  have hpos := List.length_pos_of_ne_nil ht
  rw [List.length_append, Nat.add_sub_assoc hpos, border_append h]

end Even

/-! ## Pairs -/

/-- What is written of a cell, read from the left in pairs, and what the cell then holds. -/
inductive Decodes : List Char → List Char → Prop
  | nil : Decodes [] []
  | plain {c : Char} {s t : List Char} (backslash : c ≠ '\\') (pipe : c ≠ '|')
    (rest : Decodes s t) : Decodes (c :: s) (c :: t)
  | pipe {s t : List Char} (rest : Decodes s t) : Decodes ('\\' :: '|' :: s) ('|' :: t)
  | backslash {s t : List Char} (rest : Decodes s t) : Decodes ('\\' :: '\\' :: s) ('\\' :: t)
  | newline {s t : List Char} (rest : Decodes s t) : Decodes ('\\' :: 'n' :: s) ('\n' :: t)
  | other {c : Char} {s t : List Char} (pipe : c ≠ '|') (backslash : c ≠ '\\') (newline : c ≠ 'n')
    (rest : Decodes s t) : Decodes ('\\' :: c :: s) ('\\' :: c :: t)

theorem Decodes.pair (c : Char) {s t : List Char} (h : Decodes s t) :
    Decodes ('\\' :: c :: s) (unescape c ++ t) := by
  unfold unescape
  split
  · exact .pipe h
  · exact .backslash h
  · exact .newline h
  · rename_i hpipe hbackslash hn
    exact .other hpipe hbackslash hn h

/-- A character written before the first of some texts. -/
theorem Decodes.cons_first {s t : List Char} {raws cells : List (List Char)} (hne : cells ≠ [])
    (hraws : List.Forall₂ Decodes raws cells)
    (h : ∀ raw cell, Decodes raw cell → Decodes (s ++ raw) (t ++ cell)) :
    ∃ raw more, raws = raw :: more ∧
      List.Forall₂ Decodes ((s ++ raw) :: more) (extend t cells) := by
  cases hraws with
  | nil => exact absurd rfl hne
  | cons first more => exact ⟨_, _, rfl, .cons (h _ _ first) more⟩

/-- The cells behind a pipe are what stands before each unescaped pipe. -/
theorem exists_raws {s : List Char} {cells : List (List Char)} (h : cellsAfterPipe s = some cells) :
    ∃ raws, s = raws.flatMap (· ++ ['|']) ∧ List.Forall₂ Decodes raws cells := by
  induction s using cellsAfterPipe.induct generalizing cells with
  | case1 => cases h
  | case2 =>
    obtain rfl := Option.some.inj h
    exact ⟨[[]], rfl, .cons .nil .nil⟩
  | case3 rest hrest ih =>
    rw [cellsAfterPipe_pipe hrest] at h
    obtain ⟨cells, hcells, rfl⟩ := Option.map_eq_some_iff.1 h
    obtain ⟨raws, rfl, hraws⟩ := ih hcells
    exact ⟨[] :: raws, rfl, .cons .nil hraws⟩
  | case4 c rest ih =>
    rw [cellsAfterPipe] at h
    obtain ⟨cells, hcells, rfl⟩ := Option.map_eq_some_iff.1 h
    obtain ⟨raws, rfl, hraws⟩ := ih hcells
    obtain ⟨raw, more, rfl, hall⟩ := Decodes.cons_first (s := ['\\', c])
      (Line.cellsAfterPipe_ne_nil hcells) hraws fun _ _ h => h.pair c
    exact ⟨_, by simp, hall⟩
  | case5 c rest hlast hpipe hpair ih =>
    rw [cellsAfterPipe.eq_5 c rest hlast hpipe hpair] at h
    obtain ⟨cells, hcells, rfl⟩ := Option.map_eq_some_iff.1 h
    have hrest : rest ≠ [] := by
      rintro rfl
      cases hcells
    obtain ⟨d, rest', hd⟩ := List.exists_cons_of_ne_nil hrest
    obtain ⟨raws, rfl, hraws⟩ := ih hcells
    obtain ⟨raw, more, rfl, hall⟩ := Decodes.cons_first (s := [c]) (t := [c])
      (Line.cellsAfterPipe_ne_nil hcells) hraws
      fun _ _ h => .plain (fun e => hpair d rest' e hd) hpipe h
    exact ⟨_, by simp, hall⟩

/-! ## Where a row ends -/

theorem border_singleton {c : Char} : Border [c] 0 ↔ c = '|' := by
  simp [Border, trailing]

theorem not_border_pair (c : Char) : ¬Border ['\\', c] 1 := by
  simp [Border, trailing]

theorem even_trailing_pair (c : Char) : Even (trailing ['\\', c]) := by
  by_cases h : c = '\\'
  · subst h
    exact ⟨1, rfl⟩
  · simp [trailing, h]

theorem even_trailing_singleton {c : Char} (h : c ≠ '\\') : Even (trailing [c]) := by
  simp [trailing, h]

/-- What stands behind a pipe can be read exactly if it ends with an unescaped pipe. -/
theorem isSome_cellsAfterPipe (s : List Char) :
    (cellsAfterPipe s).isSome = true ↔ Border s (s.length - 1) := by
  induction s using cellsAfterPipe.induct with
  | case1 => simp [cellsAfterPipe, Border]
  | case2 => simp [cellsAfterPipe, border_singleton]
  | case3 rest hrest ih =>
    have hlast := border_last_append (even_trailing_singleton (c := '|') (by decide)) hrest
    rw [cellsAfterPipe_pipe hrest, Option.isSome_map, ih]
    exact hlast.symm
  | case4 c rest ih =>
    rw [cellsAfterPipe, Option.isSome_map, ih]
    by_cases hrest : rest = []
    · subst hrest
      exact iff_of_false (by simp [Border]) (not_border_pair c)
    · exact (border_last_append (even_trailing_pair c) hrest).symm
  | case5 c rest hlast hpipe hpair ih =>
    rw [cellsAfterPipe.eq_5 c rest hlast hpipe hpair, Option.isSome_map, ih]
    by_cases hrest : rest = []
    · subst hrest
      exact iff_of_false (by simp [Border]) (mt border_singleton.1 hpipe)
    · obtain ⟨d, rest', hd⟩ := List.exists_cons_of_ne_nil hrest
      have hc : c ≠ '\\' := fun e => hpair d rest' e hd
      exact (border_last_append (even_trailing_singleton hc) hrest).symm

/-! ## Where its cells stand -/

/-- A row in which these texts stand between the pipes. -/
def join (raws : List (List Char)) : List Char := '|' :: raws.flatMap (· ++ ['|'])

theorem join_cons (raw : List Char) (raws : List (List Char)) :
    join (raw :: raws) = ('|' :: raw) ++ join raws := by
  simp [join]

/-- A text that can stand within a cell: no border is in it, and it escapes nothing behind it. -/
structure Inner (s : List Char) : Prop where
  plain : borders s = []
  even : Even (trailing s)

theorem Inner.append {s t : List Char} (hs : Inner s) (ht : Inner t) : Inner (s ++ t) where
  plain := by rw [borders_append hs.even, hs.plain, ht.plain]; rfl
  even := (even_trailing_append hs.even t).2 ht.even

theorem inner_singleton {c : Char} (hbackslash : c ≠ '\\') (hpipe : c ≠ '|') : Inner [c] where
  plain := by simp [borders, List.range_succ, border_singleton, hpipe]
  even := even_trailing_singleton hbackslash

theorem inner_pair (c : Char) : Inner ['\\', c] where
  plain := by simp [borders, List.range_succ, Border, trailing]
  even := even_trailing_pair c

theorem Decodes.inner {s t : List Char} (h : Decodes s t) : Inner s := by
  induction h with
  | nil => exact ⟨rfl, Even.zero⟩
  | plain hbackslash hpipe _ ih => exact (inner_singleton hbackslash hpipe).append ih
  | pipe _ ih => exact (inner_pair '|').append ih
  | backslash _ ih => exact (inner_pair '\\').append ih
  | newline _ ih => exact (inner_pair 'n').append ih
  | @other c _ _ _ _ _ _ ih => exact (inner_pair c).append ih

theorem borders_join_cons {raw : List Char} (h : Inner raw) (raws : List (List Char)) :
    borders (join (raw :: raws)) = 0 :: (borders (join raws)).map (raw.length + 1 + ·) := by
  have hpipe : Even (trailing ['|']) := even_trailing_singleton (by decide)
  have hfirst : borders ('|' :: raw) = [0] := by
    rw [← List.singleton_append, borders_append hpipe, h.plain]
    rfl
  have heven : Even (trailing ('|' :: raw)) := (even_trailing_append hpipe raw).2 h.even
  rw [join_cons, borders_append heven, hfirst]
  rfl

theorem between_append (s t : List Char) (i j : Nat) :
    between (s ++ t) (s.length + i) (s.length + j) = between t i j := by
  rw [between, List.take_length_add_append, Nat.add_assoc, List.drop_length_add_append, between]

theorem length_borders_join {raws cells : List (List Char)} (h : List.Forall₂ Decodes raws cells) :
    (borders (join raws)).length = raws.length + 1 := by
  induction h with
  | nil => rfl
  | cons first _ ih =>
    rw [borders_join_cons first.inner, List.length_cons, List.length_map, ih, List.length_cons]

/-- The text of a cell is what stands between two borders that are neighbours. -/
theorem exists_borders {raws cells : List (List Char)} (h : List.Forall₂ Decodes raws cells)
    {i : Nat} {cell : List Char} (hi : cells[i]? = some cell) :
    ∃ p q, (borders (join raws))[i]? = some p ∧ (borders (join raws))[i + 1]? = some q ∧
      Decodes (between (join raws) p q) cell := by
  induction h generalizing i with
  | nil => cases hi
  | @cons raw first raws cells hfirst hmore ih =>
    have hborders := borders_join_cons hfirst.inner raws
    cases i with
    | zero =>
      obtain rfl := Option.some.inj hi
      obtain ⟨bs, hbs⟩ : ∃ bs, borders (join raws) = 0 :: bs := by
        cases hmore with
        | nil => exact ⟨[], rfl⟩
        | cons next _ => exact ⟨_, borders_join_cons next.inner _⟩
      refine ⟨0, raw.length + 1, by rw [hborders]; rfl, by rw [hborders, hbs]; rfl, ?_⟩
      have hraw : between (join (raw :: raws)) 0 (raw.length + 1) = raw := by
        rw [between, join_cons, ← List.length_cons (a := '|'), List.take_left]
        rfl
      rwa [hraw]
    | succ i =>
      obtain ⟨p, q, hp, hq, hdecodes⟩ := ih hi
      refine ⟨raw.length + 1 + p, raw.length + 1 + q, ?_, ?_, ?_⟩
      · rw [hborders, List.getElem?_cons_succ, List.getElem?_map, hp]
        rfl
      · rw [hborders, List.getElem?_cons_succ, List.getElem?_map, hq]
        rfl
      · have hshift := between_append ('|' :: raw) (join raws) p q
        rw [← join_cons, List.length_cons] at hshift
        rwa [hshift]

theorem exists_cells_iff (s : List Char) : (∃ cs, cells s = .ok cs) ↔
    s.head? = some '|' ∧ 2 ≤ s.length ∧ Border s (s.length - 1) := by
  cases s with
  | nil => simp [cells]
  | cons c rest =>
    by_cases hc : c = '|'
    · subst hc
      by_cases hrest : rest = []
      · subst hrest
        simp [cells, cellsAfterPipe]
      · have hlast : Border ('|' :: rest) (('|' :: rest).length - 1) ↔
            (cellsAfterPipe rest).isSome = true := by
          rw [isSome_cellsAfterPipe]
          exact border_last_append (even_trailing_singleton (c := '|') (by decide)) hrest
        have hlength : 2 ≤ ('|' :: rest).length :=
          Nat.succ_le_succ (List.length_pos_of_ne_nil hrest)
        rw [hlast, cells]
        cases cellsAfterPipe rest with
        | none => exact iff_of_false (by simp) fun h => absurd h.2.2 (by decide)
        | some contents => exact iff_of_true ⟨_, rfl⟩ ⟨rfl, hlength, rfl⟩
    · rw [List.head?_cons]
      simp [cells, hc]

/-- A text is a row exactly if it starts with a pipe and ends with another one, unescaped. It then
has a cell between any two neighbouring unescaped pipes: what stands there, read in pairs from the
left and trimmed. -/
theorem cells_between_borders (s : List Char) :
    ((∃ cs, cells s = .ok cs) ↔ s.head? = some '|' ∧ 2 ≤ s.length ∧ Border s (s.length - 1)) ∧
      ∀ cs, cells s = .ok cs → cs.length + 1 = (borders s).length ∧
        ∀ i < cs.length, ∃ p q content, (borders s)[i]? = some p ∧ (borders s)[i + 1]? = some q ∧
          Decodes (between s p q) content ∧ cs[i]? = some (String.ofList (Text.trim content)) := by
  refine ⟨exists_cells_iff s, fun cs h => ?_⟩
  unfold cells at h
  split at h
  · rename_i rest
    split at h
    · rename_i contents hcontents
      obtain rfl := Except.ok.inj h
      obtain ⟨raws, rfl, hraws⟩ := exists_raws hcontents
      have hlength := length_borders_join hraws
      rw [hraws.length_eq] at hlength
      refine ⟨by rw [List.length_map]; exact hlength.symm, fun i hi => ?_⟩
      rw [List.length_map] at hi
      obtain ⟨p, q, hp, hq, hdecodes⟩ := exists_borders hraws (List.getElem?_eq_getElem hi)
      refine ⟨p, q, _, hp, hq, hdecodes, ?_⟩
      rw [List.getElem?_map, List.getElem?_eq_getElem hi]
      rfl
    · cases h
  · cases h

/-- A backslash before a pipe, an escaped pipe, and an escaped newline at the end of a cell. -/
theorem cells_between_borders_runs :
    cells "|\\\\|a\\|b\\n|".toList = .ok ["\\", "a|b"] ∧
      ("|\\\\|a\\|b\\n|".toList.head? = some '|' ∧ 2 ≤ "|\\\\|a\\|b\\n|".toList.length ∧
        Border "|\\\\|a\\|b\\n|".toList 10) ∧
      3 = (borders "|\\\\|a\\|b\\n|".toList).length ∧
      ∃ p q content, (borders "|\\\\|a\\|b\\n|".toList)[1]? = some p ∧
        (borders "|\\\\|a\\|b\\n|".toList)[2]? = some q ∧
        Decodes (between "|\\\\|a\\|b\\n|".toList p q) content ∧
        some "a|b" = some (String.ofList (Text.trim content)) := by
  have hcells : cells "|\\\\|a\\|b\\n|".toList = .ok ["\\", "a|b"] := by decide +kernel
  obtain ⟨hrow, hall⟩ := cells_between_borders "|\\\\|a\\|b\\n|".toList
  obtain ⟨hlength, hbetween⟩ := hall _ hcells
  exact ⟨hcells, hrow.1 ⟨_, hcells⟩, hlength, hbetween 1 (by decide)⟩

end Gherkin.Row

namespace Gherkin.Line

open Text

/-! ## Written rows -/

/-- The cell neither begins nor ends with a blank other than a newline. -/
def Unpadded (cell : String) : Prop :=
  (∀ c ∈ cell.toList.head?, isBlank c = true → c = '\n') ∧
    ∀ c ∈ cell.toList.getLast?, isBlank c = true → c = '\n'

theorem read_row {cells : List String} (hne : cells ≠ []) (n : Nat) :
    Reader.read none n (Kind.row cells).spell =
      (.ok ⟨n, .row (cells.map fun cell => String.ofList (trim cell.toList))⟩, none) := by
  have hfence : trim (Kind.row cells).spell ≠ fenceMark := by
    rw [trim_spell_row]
    exact fun e => absurd (List.cons.inj e).1 (by decide)
  rw [Reader.read, classify, ofContent_row_trim hne, if_neg hfence]

theorem trimmed_iff {cell : String} (h : Unpadded cell) :
    Trimmed cell ↔ cell.toList.head? ≠ some '\n' ∧ cell.toList.getLast? ≠ some '\n' := by
  have hedge {c : Option Char} (h : ∀ d ∈ c, isBlank d = true → d = '\n') :
      (∀ d ∈ c, isBlank d = false) ↔ c ≠ some '\n' := by
    constructor
    · rintro hc rfl
      cases hc '\n' rfl
    · intro hc d hd
      by_contra hblank
      exact hc (h d hd (by simpa using hblank) ▸ hd)
  rw [Trimmed, trim_eq_self_iff, hedge h.1, hedge h.2]

/-- An escaped newline at the edge of a cell is lost. -/
theorem edge_newline_lost : ¬∀ cells : List String, cells ≠ [] → (∀ cell ∈ cells, Unpadded cell) →
    ∀ n, Reader.read none n (Kind.row cells).spell = (.ok ⟨n, .row cells⟩, none) := by
  intro h
  have hnewline : Unpadded "\n" := by
    constructor
    · rintro c ⟨⟩ -
      rfl
    · rintro c ⟨⟩ -
      rfl
  have hread := h ["\n"] (by simp) (by simpa using hnewline) 1
  revert hread
  decide +kernel

/-- A row that is written cell by cell is one line and is read as a row of the trimmed cells. Where
no cell begins or ends with another blank than a newline, those are the cells that were written
exactly if none begins or ends with a newline either. -/
theorem written_row_read {cells : List String} (hne : cells ≠ []) :
    '\n' ∉ (Kind.row cells).spell ∧
      (∀ n, Reader.read none n (Kind.row cells).spell =
        (.ok ⟨n, .row (cells.map fun cell => String.ofList (trim cell.toList))⟩, none)) ∧
      ((∀ cell ∈ cells, Unpadded cell) →
        ((∀ n, Reader.read none n (Kind.row cells).spell = (.ok ⟨n, .row cells⟩, none)) ↔
          ∀ cell ∈ cells, cell.toList.head? ≠ some '\n' ∧ cell.toList.getLast? ≠ some '\n')) := by
  refine ⟨newline_not_mem_row cells, read_row hne, fun unpadded => ?_⟩
  have htrimmed : (cells.map fun cell => String.ofList (trim cell.toList)) = cells ↔
      ∀ cell ∈ cells, Trimmed cell := by
    have hall := List.map_inj_left (l := cells) (g := id)
      (f := fun cell => String.ofList (trim cell.toList))
    rw [List.map_id] at hall
    refine hall.trans (forall₂_congr fun cell _ => ⟨fun h => ?_, ofList_trim⟩)
    rw [Trimmed, ← String.toList_ofList (l := trim cell.toList), h, id]
  calc (∀ n, Reader.read none n (Kind.row cells).spell = (.ok ⟨n, .row cells⟩, none))
    _ ↔ (cells.map fun cell => String.ofList (trim cell.toList)) = cells := by
      simp [read_row hne]
    _ ↔ ∀ cell ∈ cells, Trimmed cell := htrimmed
    _ ↔ ∀ cell ∈ cells, cell.toList.head? ≠ some '\n' ∧ cell.toList.getLast? ≠ some '\n' :=
      forall₂_congr fun cell hcell => trimmed_iff (unpadded cell hcell)

/-- Pipes, backslashes and an inner newline are kept, a newline alone in a cell is not. -/
theorem written_row_read_newline :
    (["\n", "|\\", "a\nb", ""] : List String) ≠ [] ∧
      Reader.read none 7 "|\\n|\\|\\\\|a\\nb||".toList =
        (.ok ⟨7, .row ["", "|\\", "a\nb", ""]⟩, none) ∧
      (∀ cell ∈ ["|\\", "a\nb", ""], Unpadded cell) ∧
      ∀ n, Reader.read none n "|\\|\\\\|a\\nb||".toList =
        (.ok ⟨n, .row ["|\\", "a\nb", ""]⟩, none) := by
  have hne : (["\n", "|\\", "a\nb", ""] : List String) ≠ [] := by simp
  have hedges : (isBlank '|' = false ∧ isBlank '\\' = false) ∧ isBlank 'a' = false ∧
      isBlank 'b' = false := by decide
  have hunpadded : ∀ cell ∈ ["|\\", "a\nb", ""], Unpadded cell := by simpa [Unpadded] using hedges
  obtain ⟨-, hread, -⟩ := written_row_read hne
  have hmore : (["|\\", "a\nb", ""] : List String) ≠ [] := by simp
  obtain ⟨-, -, hsame⟩ := written_row_read hmore
  exact ⟨hne, hread 7, hunpadded, (hsame hunpadded).2 (by simp)⟩

end Gherkin.Line
