import Gherkin.Proofs.Positions
import Mathlib.Algebra.Ring.Parity

/-
  What a reader gives of a text, line by line. A doc string is open behind an odd number of fences
  (`fenceAfter_eq_none_iff`), so what a line says hangs on that number, on the last fence before it
  and on the line itself (`says_read`). Behind an even number the reader goes on as at the start of
  a text, with other line numbers (`itemsFrom_moveDown`); a fault changes nothing in that.
-/

namespace Gherkin

open Text Line

/-! ## Fences -/

namespace Text

/-- The number of fences among lines. -/
def fences (raws : List (List Char)) : Nat := raws.countP fun raw => trim raw = fenceMark

/-- The last fence among lines, with the lines before it. -/
structure LastFence (raws before : List (List Char)) (raw : List Char) : Prop where
  fence : trim raw = fenceMark
  last : ∃ after, raws = before ++ raw :: after ∧ ∀ r ∈ after, trim r ≠ fenceMark

/-- A line without its leading blanks, but at most `n` of them. -/
def Undented (n : Nat) (raw content : List Char) : Prop :=
  ∃ margin, raw = margin ++ content ∧ Blanks margin ∧ margin.length ≤ n ∧
    (margin.length < n → ∀ c ∈ content.head?, isBlank c = false)

theorem undented_dedent (n : Nat) (s : List Char) : Undented n s (dedent n s) := by
  induction s generalizing n with
  | nil => exact ⟨[], by cases n <;> rfl, nofun, Nat.zero_le n, by cases n <;> nofun⟩
  | cons c s ih =>
    cases n with
    | zero => exact ⟨[], rfl, nofun, Nat.le_refl 0, nofun⟩
    | succ n =>
      unfold dedent
      split
      · rename_i hc
        obtain ⟨margin, hs, hblank, hlength, hmore⟩ := ih n
        exact ⟨c :: margin, congrArg (c :: ·) hs, List.forall_mem_cons.2 ⟨hc, hblank⟩,
          Nat.succ_le_succ hlength, fun h => hmore (Nat.lt_of_succ_lt_succ h)⟩
      · rename_i hc
        refine ⟨[], rfl, nofun, Nat.zero_le _, fun _ d hd => ?_⟩
        obtain rfl := Option.some.inj hd
        simpa using hc

end Text

namespace Reader

/-- A fence closes an open doc string or opens one; no other line does. -/
theorem isSome_read (fence : Option Fence) (number : Nat) (raw : List Char) :
    (read fence number raw).2.isSome = true ↔ (fence.isSome = true ↔ trim raw ≠ fenceMark) := by
  rw [fence_of_read]
  cases fence <;> by_cases h : trim raw = fenceMark <;> simp [classify, h]

theorem even_fences_cons (raw : List Char) (raws : List (List Char)) :
    Even (fences (raw :: raws)) ↔ (trim raw ≠ fenceMark ↔ Even (fences raws)) := by
  by_cases h : trim raw = fenceMark <;> simp [fences, h, Nat.even_add_one]

/-- Behind an even number of fences a doc string is open if one was open before them. -/
theorem isSome_fenceAfter_iff (last : Nat) (fence : Option Fence) (raws : List (List Char)) :
    (fenceAfter last fence raws).isSome = true ↔ (fence.isSome = true ↔ Even (fences raws)) := by
  induction raws generalizing last fence with
  | nil => simp [fenceAfter, fences]
  | cons raw raws ih =>
    rw [fenceAfter, ih, isSome_read, even_fences_cons]
    generalize fence.isSome = inside
    cases inside <;> by_cases hmark : trim raw = fenceMark <;> simp [hmark]

/-- No doc string is open behind an even number of fences. -/
theorem fenceAfter_eq_none_iff (last : Nat) (raws : List (List Char)) :
    fenceAfter last none raws = none ↔ Even (fences raws) := by
  rw [← Option.not_isSome_iff_eq_none, isSome_fenceAfter_iff]
  simp

end Reader

/-! ## One line -/

/-- What a line of a text says, by its number and the lines before it. -/
inductive Line.Says (before : List (List Char)) (raw : List Char) (n : Nat) : Reader.Item → Prop
  | fence (mark : trim raw = fenceMark) : Says before raw n (.ok ⟨n, .fence⟩)
  /-- In a doc string a line is taken as it stands, less the indentation of the opening fence. -/
  | captured {earlier : List (List Char)} {opening content : List Char}
    (other : trim raw ≠ fenceMark) (inside : Odd (fences before))
    (opened : LastFence before earlier opening) (margin : Undented (indent opening) raw content) :
    Says before raw n (.ok ⟨n, .text (String.ofList content)⟩)
  /-- Outside doc strings a line is classified by its trimmed content. -/
  | line {kind : Kind} (other : trim raw ≠ fenceMark) (outside : Even (fences before))
    (content : Kind.ofContent (trim raw) = .ok kind) : Says before raw n (.ok ⟨n, kind⟩)
  | fault {cause : Fault.Cause} (other : trim raw ≠ fenceMark) (outside : Even (fences before))
    (content : Kind.ofContent (trim raw) = .error cause) : Says before raw n (.error ⟨n, cause⟩)

namespace Reader

theorem says_read (before : List (List Char)) (raw : List Char) (n : Nat) :
    Line.Says before raw n (read (fenceAfter 0 none before) n raw).1 := by
  by_cases hmark : trim raw = fenceMark
  · have hread (fence : Option Fence) : (read fence n raw).1 = .ok ⟨n, .fence⟩ := by
      cases fence <;> simp only [read, classify, hmark, if_true]
      rfl
    rw [hread]
    exact .fence hmark
  · cases hfence : fenceAfter 0 none before with
    | none =>
      have houtside := (fenceAfter_eq_none_iff 0 before).1 hfence
      cases hcontent : Kind.ofContent (trim raw) with
      | ok kind =>
        simp only [read, classify, hcontent]
        exact .line hmark houtside hcontent
      | error cause =>
        simp only [read, classify, hcontent]
        exact .fault hmark houtside hcontent
    | some fence =>
      have hinside : Odd (fences before) := by
        rw [← Nat.not_even_iff_odd, ← fenceAfter_eq_none_iff 0, hfence]
        exact Option.some_ne_none fence
      obtain ⟨earlier, opening, after, hbefore, rfl, -, hopening, hafter⟩ := exists_fence hfence
      simp only [read, classify, if_neg hmark]
      exact .captured hmark hinside ⟨hopening, after, hbefore, hafter⟩ (undented_dedent _ raw)

/-! ## The run of a reader -/

/-- What a reader gives until it gives nothing more, and the reader that is then left. -/
inductive Yields : Reader → List Item → Reader → Prop
  | done {r : Reader} (none : r.next? = none) : Yields r [] r
  | more {r r' left : Reader} {item : Item} {items : List Item} (next : r.next? = some (item, r'))
    (rest : Yields r' items left) : Yields r (item :: items) left

theorem yields_itemsFrom (rest : List (List Char)) (last : Nat) (fence : Option Fence) :
    Yields ⟨rest, last, fence⟩ (itemsFrom last fence rest) ⟨[], last + rest.length, none⟩ := by
  induction rest generalizing last fence with
  | nil =>
    cases fence with
    | none => exact .done rfl
    | some fence => exact .more rfl (.done rfl)
  | cons raw rest ih =>
    have hrest := ih (last + 1) (read fence (last + 1) raw).2
    rw [Nat.add_right_comm, Nat.add_assoc] at hrest
    exact .more rfl hrest

/-- A reader runs in one way, through the items of its lines. -/
theorem yields_iff {r left : Reader} {items : List Item} :
    Yields r items left ↔ items = r.items ∧ left = r.drained := by
  constructor
  · intro h
    induction h with
    | @done r none =>
      refine ⟨(items_of_next?_none none).symm, ?_⟩
      obtain ⟨_ | ⟨raw, rest⟩, last, _ | fence⟩ := r
      · rfl
      · cases none
      · cases none
      · cases none
    | more next _ ih =>
      obtain ⟨rfl, rfl⟩ := ih
      exact ⟨(items_of_next?_some next).symm, drained_of_next?_some next⟩
  · rintro ⟨rfl, rfl⟩
    exact yields_itemsFrom r.rest r.last r.fence

/-! ## Line numbers -/

/-- The item on a line `n` further down. -/
def Item.moveDown (n : Nat) : Item → Item
  | .ok l => .ok { l with number := l.number + n }
  | .error f => .error { f with line := f.line + n }

/-- The doc string of a fence on a line `n` further down. -/
def moveFence (n : Nat) (fence : Fence) : Fence := { fence with line := fence.line + n }

theorem read_moveDown (n k : Nat) (fence : Option Fence) (raw : List Char) :
    read (fence.map (moveFence n)) (k + n) raw =
      (Item.moveDown n (read fence k raw).1, (read fence k raw).2.map (moveFence n)) := by
  cases fence with
  | none =>
    simp only [read, classify, Option.map_none]
    by_cases h : trim raw = fenceMark <;> cases Kind.ofContent (trim raw) <;>
      simp only [h, if_true, if_false] <;> rfl
  | some fence =>
    simp only [read, classify, Option.map_some]
    by_cases h : trim raw = fenceMark <;> simp only [h, if_true, if_false] <;> rfl

/-- Lines that stand `n` further down give the same items there. -/
theorem itemsFrom_moveDown (n last : Nat) (fence : Option Fence) (raws : List (List Char)) :
    itemsFrom (last + n) (fence.map (moveFence n)) raws =
      (itemsFrom last fence raws).map (Item.moveDown n) := by
  induction raws generalizing last fence with
  | nil => cases fence <;> rfl
  | cons raw raws ih =>
    have hread := read_moveDown n (last + 1) fence raw
    rw [Nat.add_right_comm] at hread
    rw [itemsFrom, hread, itemsFrom, List.map_cons, ← ih, Nat.add_right_comm]

/-- Behind a piece with an even number of fences a text is read as from its start. -/
theorem items_append {s : List Char} (hended : Ended s) (heven : Even (fences (lines s)))
    (t : List Char) : (ofText (s ++ t)).items =
      (ofText s).items ++ (ofText t).items.map (Item.moveDown (lines s).length) := by
  have hfence := (fenceAfter_eq_none_iff 0 (lines s)).2 heven
  have hmove := itemsFrom_moveDown (lines s).length 0 none (lines t)
  rw [items, ofText, lines_append hended, itemsFrom_append, hfence, items, ofText,
    itemsFrom_eq 0 none (lines s), hfence, Option.toList_none, List.map_nil, List.append_nil]
  exact congrArg _ hmove

/-- What a reader gives of lines: an item for each of them, in order, that is what the line says,
and behind those one more, a fault at the last fence, if the number of fences is odd. -/
structure Covers (raws : List (List Char)) (items more : List Item) : Prop where
  length : items.length = raws.length
  line : ∀ (i : Nat) (raw : List Char), raws[i]? = some raw →
    ∃ item, items[i]? = some item ∧ Line.Says (raws.take i) raw (i + 1) item
  closed : Even (fences raws) → more = []
  unclosed : Odd (fences raws) → ∃ before opening, LastFence raws before opening ∧
    ∃ f : Fault, more = [.error f] ∧ f.kind = .unexpectedEnd ∧ f.line = before.length + 1

theorem covers_readLines (raws : List (List Char)) :
    Covers raws (readLines 0 none raws)
      ((fenceAfter 0 none raws).toList.map fun f => .error ⟨f.line, .fenceUnclosed⟩) where
  length := length_readLines 0 none raws
  line i raw hraw := by
    rw [getElem?_readLines, hraw, Nat.zero_add]
    exact ⟨_, rfl, says_read _ raw _⟩
  closed heven := by
    rw [(fenceAfter_eq_none_iff 0 raws).2 heven]
    rfl
  unclosed hodd := by
    cases hfence : fenceAfter 0 none raws with
    | none =>
      rw [fenceAfter_eq_none_iff, ← Nat.not_odd_iff_even] at hfence
      exact absurd hodd hfence
    | some fence =>
      obtain ⟨before, opening, after, hraws, rfl, -, hmark, hafter⟩ := exists_fence hfence
      exact ⟨before, opening, ⟨hmark, after, hraws, hafter⟩, _, rfl, rfl,
        congrArg (· + 1) (Nat.zero_add _)⟩

/-- A reader covers the lines of a text and has counted them at its end. What it gives of a text
that is cut behind an ended line and an even number of fences is what it gives of the first piece
and, further down, of the second one. -/
theorem items_by_line :
    (∀ text : List Char, ∃ items more : List Item, Covers (lines text) items more ∧
      ∀ (given : List Item) (left : Reader), Yields (ofText text) given left ↔
        given = items ++ more ∧ left = ⟨[], (lines text).length, none⟩) ∧
    ∀ s t : List Char, Ended s → Even (fences (lines s)) → (ofText (s ++ t)).items =
      (ofText s).items ++ (ofText t).items.map (Item.moveDown (lines s).length) := by
  refine ⟨fun text => ?_, fun s t hended heven => items_append hended heven t⟩
  refine ⟨_, _, covers_readLines (lines text), fun given left => ?_⟩
  rw [← itemsFrom_eq, yields_iff, drained, ofText, Nat.zero_add, items]

/-- A doc string that is captured, a fault behind it, and a doc string that is not closed. -/
theorem items_by_line_unclosed :
    Ended " \"\"\"\n  @x\n\"\"\"\n@\n".toList ∧
      Even (fences (lines " \"\"\"\n  @x\n\"\"\"\n@\n".toList)) ∧
      (ofText (" \"\"\"\n  @x\n\"\"\"\n@\n".toList ++ "\"\"\"\n a".toList)).items =
        [.ok ⟨1, .fence⟩, .ok ⟨2, .text " @x"⟩, .ok ⟨3, .fence⟩, .error ⟨4, .badTag "@"⟩] ++
          [.ok ⟨5, .fence⟩, .ok ⟨6, .text " a"⟩, .error ⟨5, .fenceUnclosed⟩] ∧
      ∃ items more : List Item, Covers (lines "\"\"\"\n a".toList) items more ∧
        Yields (ofText "\"\"\"\n a".toList) (items ++ more) ⟨[], 2, none⟩ := by
  have hended : Ended " \"\"\"\n  @x\n\"\"\"\n@\n".toList := by decide +kernel
  have heven : Even (fences (lines " \"\"\"\n  @x\n\"\"\"\n@\n".toList)) := by decide +kernel
  obtain ⟨hlines, hpieces⟩ := items_by_line
  obtain ⟨items, more, hcovers, hrun⟩ := hlines "\"\"\"\n a".toList
  have hcount : (lines "\"\"\"\n a".toList).length = 2 := by decide +kernel
  refine ⟨hended, heven, (hpieces _ _ hended heven).trans ?_, items, more, hcovers, ?_⟩
  · exact congrArg₂ _ (by decide +kernel) (by decide +kernel)
  · exact (hrun _ _).2 ⟨rfl, by rw [hcount]⟩

end Reader

end Gherkin
