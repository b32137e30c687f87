import Gherkin.Proofs.Stops

/-
  Where the lines of a cursor stand in the text. What a cursor looks at is an item of the reader,
  and the lines before it are those that the reader gave first (`exists_cut_ofText`); an item is
  what the reader makes of its line, or the fault of a doc string that is not closed
  (`item_cases`). A fault of the reader is shown by the line itself (`Fault.Cause.Marks`).
-/

namespace Gherkin

open Grammar Line Reader

/-! ## Faults of one line -/

/-- A line with this trimmed content shows the cause. -/
def Fault.Cause.Marks : Fault.Cause → List Char → Prop
  | .badTag _, content => ['@'] <+: content
  | .rowUnclosed, content => ['|'] <+: content
  | .unsupported opening, content => opening ∈ Gherkin.unsupported ∧ opening.toList <+: content
  | _, _ => False

theorem Tag.eq_badTag_of_ofWords {ws : List (List Char)} {cause : Fault.Cause}
    (h : Tag.ofWords ws = .error cause) : ∃ word, cause = .badTag word := by
  induction ws using Tag.ofWords.induct with
  | case1 => cases h
  | case2 => cases h
  | case3 c name rest ih =>
    rw [Tag.ofWords] at h
    cases hrest : Tag.ofWords rest with
    | ok ts => rw [hrest] at h; cases h
    | error e =>
      rw [hrest] at h
      obtain rfl := Except.error.inj h
      exact ih hrest
  | case4 w rest h₁ h₂ =>
    rw [Tag.ofWords.eq_4 w rest h₁ h₂] at h
    obtain rfl := Except.error.inj h
    exact ⟨_, rfl⟩

namespace Line

theorem marks_of_ofWords {content : List Char} {cause : Fault.Cause}
    (h : Kind.ofWords content = .error cause) : cause.Marks content := by
  unfold Kind.ofWords at h
  split at h
  · cases h
  · split at h
    · cases h
    · split at h
      · rename_i opening hopening
        obtain rfl := Except.error.inj h
        have hfound : unsupported.find? (fun u => u.toList.isPrefixOf content) = some opening :=
          hopening
        have hprefix := List.find?_some hfound
        exact ⟨List.mem_of_find?_eq_some hfound, List.isPrefixOf_iff_prefix.1 hprefix⟩
      · cases h

theorem marks_of_ofContent {content : List Char} {cause : Fault.Cause}
    (h : Kind.ofContent content = .error cause) : cause.Marks content := by
  unfold Kind.ofContent at h
  split at h
  · cases h
  · cases h
  · rename_i s
    cases hs : Tag.ofLine ('@' :: s) with
    | ok ts => rw [hs] at h; cases h
    | error e =>
      rw [hs] at h
      obtain rfl := Except.error.inj h
      obtain ⟨word, rfl⟩ := Tag.eq_badTag_of_ofWords hs
      exact ⟨s, rfl⟩
  · rename_i s
    cases hs : Row.cells ('|' :: s) with
    | ok cells => rw [hs] at h; cases h
    | error e =>
      rw [hs] at h
      obtain rfl := Except.error.inj h
      unfold Row.cells at hs
      split at hs
      · split at hs
        · cases hs
        · obtain rfl := Except.error.inj hs
          exact ⟨s, rfl⟩
      · rename_i hpipe
        exact absurd rfl (hpipe s)
  · split at h
    · cases h
    · exact marks_of_ofWords h

/-- A row opens with a pipe. -/
theorem pipe_of_ofContent {content : List Char} {cells : List String}
    (h : Kind.ofContent content = .ok (.row cells)) : ['|'] <+: content := by
  unfold Kind.ofContent at h
  split at h
  · cases h
  · cases h
  · rename_i s
    cases hs : Tag.ofLine ('@' :: s) <;> rw [hs] at h <;> cases h
  · rename_i s
    exact ⟨s, rfl⟩
  · split at h
    · cases h
    · unfold Kind.ofWords at h
      split at h
      · cases h
      · split at h
        · cases h
        · split at h <;> cases h

/-- A line is no fault in a doc string, and outside it shows its fault. -/
theorem marks_of_classify {fence : Option Fence} {number : Nat} {raw : List Char}
    {cause : Fault.Cause} (h : (classify fence number raw).1 = .error cause) :
    fence = none ∧ cause.Marks (Text.trim raw) := by
  cases fence with
  | none => exact ⟨rfl, marks_of_ofContent h⟩
  | some opened =>
    unfold classify at h
    dsimp only at h
    split at h <;> cases h

/-- A row stands outside doc strings and opens with a pipe. -/
theorem pipe_of_classify {fence : Option Fence} {number : Nat} {raw : List Char}
    {cells : List String} (h : (classify fence number raw).1 = .ok (.row cells)) :
    fence = none ∧ ['|'] <+: Text.trim raw := by
  cases fence with
  | none => exact ⟨rfl, pipe_of_ofContent h⟩
  | some opened =>
    unfold classify at h
    dsimp only at h
    split at h <;> cases h

end Line

/-! ## The item of a line -/

namespace Reader

/-- Lines at the start of the items are those of the first lines. -/
theorem readLines_of_itemsFrom {last : Nat} {fence : Option Fence} {raws : List (List Char)}
    {ls : List Line} {items : List Item} (h : itemsFrom last fence raws = ls.map .ok ++ items) :
    readLines last fence (raws.take ls.length) = ls.map .ok := by
  induction raws generalizing last fence ls with
  | nil =>
    cases ls with
    | nil => rfl
    | cons l ls => cases fence <;> cases h
  | cons raw raws ih =>
    cases ls with
    | nil => rfl
    | cons l ls =>
      obtain ⟨hl, hrest⟩ := List.cons.inj h
      rw [List.length_cons, List.take_succ_cons, readLines, List.map_cons]
      exact congrArg₂ _ hl (ih hrest)

theorem getElem?_readLines (i last : Nat) (fence : Option Fence) (raws : List (List Char)) :
    (readLines last fence raws)[i]? = raws[i]?.map fun raw =>
      (read (fenceAfter last fence (raws.take i)) (last + i + 1) raw).1 := by
  induction raws generalizing i last fence with
  | nil => rfl
  | cons raw raws ih =>
    cases i with
    | zero => rfl
    | succ i =>
      rw [readLines, List.getElem?_cons_succ, List.getElem?_cons_succ, ih, List.take_succ_cons,
        fenceAfter, Nat.add_assoc last 1 i, Nat.add_comm 1 i]

/-- The item of a line is what the reader makes of it. -/
theorem getElem?_items {text : List Char} {i : Nat} {raw : List Char}
    (h : (Text.lines text)[i]? = some raw) : (Reader.ofText text).items[i]? =
      some (read (fenceAfter 0 none ((Text.lines text).take i)) (i + 1) raw).1 := by
  obtain ⟨hi, -⟩ := List.getElem?_eq_some_iff.1 h
  rw [items, ofText, itemsFrom_eq, List.getElem?_append_left (by rwa [length_readLines]),
    getElem?_readLines, h, Option.map_some, Nat.zero_add]

/-- An item is what the reader makes of its line, or the fault of an open doc string. -/
theorem item_cases {text : List Char} {i : Nat} {item : Item}
    (h : (Reader.ofText text).items[i]? = some item) :
    (∃ raw, (Text.lines text)[i]? = some raw ∧
      item = (read (fenceAfter 0 none ((Text.lines text).take i)) (i + 1) raw).1) ∨
    ∃ fence, fenceAfter 0 none (Text.lines text) = some fence ∧
      item = .error ⟨fence.line, .fenceUnclosed⟩ := by
  cases hraw : (Text.lines text)[i]? with
  | some raw =>
    have hitem := h.symm.trans (getElem?_items hraw)
    exact .inl ⟨raw, rfl, Option.some.inj hitem⟩
  | none =>
    have hi := List.getElem?_eq_none_iff.1 hraw
    rw [items, ofText, itemsFrom_eq,
      List.getElem?_append_right (by rwa [length_readLines])] at h
    right
    cases hfence : fenceAfter 0 none (Text.lines text) with
    | none => rw [hfence] at h; simp at h
    | some fence =>
      rw [hfence] at h
      exact ⟨fence, rfl, by simpa using List.mem_of_getElem? h⟩

theorem line_of_read {fence : Option Fence} {number : Nat} {raw : List Char} {l : Line}
    (h : (read fence number raw).1 = .ok l) :
    l.number = number ∧ (classify fence number raw).1 = .ok l.kind := by
  unfold read at h
  split at h
  · rename_i hread
    obtain rfl := Except.ok.inj h
    exact ⟨rfl, congrArg Prod.fst hread⟩
  · cases h

theorem fault_of_read {fence : Option Fence} {number : Nat} {raw : List Char} {f : Fault}
    (h : (read fence number raw).1 = .error f) :
    f.line = number ∧ (classify fence number raw).1 = .error f.cause := by
  unfold read at h
  split at h
  · cases h
  · rename_i hread
    obtain rfl := Except.error.inj h
    exact ⟨rfl, congrArg Prod.fst hread⟩

theorem fence_of_read (fence : Option Fence) (number : Nat) (raw : List Char) :
    (read fence number raw).2 = (classify fence number raw).2 := by
  unfold read
  split <;> rename_i h <;> rw [h]

/-- An open doc string opened at a fence outside doc strings, and no fence is after it. -/
theorem exists_fence {last : Nat} {raws : List (List Char)} {fence : Fence}
    (h : fenceAfter last none raws = some fence) :
    ∃ as raw bs, raws = as ++ raw :: bs ∧ fence = ⟨last + as.length + 1, Text.indent raw⟩ ∧
      fenceAfter last none as = none ∧ Text.trim raw = fenceMark ∧
      ∀ b ∈ bs, Text.trim b ≠ fenceMark := by
  -- from the end: the last line opens the doc string, or it is captured in it
  induction raws using List.reverseRecOn generalizing fence with
  | nil => cases h
  | append_singleton raws raw ih =>
    rw [fenceAfter_append, fenceAfter, fenceAfter, fence_of_read] at h
    cases hopen : fenceAfter last none raws with
    | none =>
      rw [hopen] at h
      obtain ⟨hmark, hfence⟩ := Option.ite_none_right_eq_some.1 h
      obtain rfl := Option.some.inj hfence
      exact ⟨raws, raw, [], rfl, rfl, hopen, hmark, by simp⟩
    | some opened =>
      rw [hopen] at h
      unfold classify at h
      dsimp only at h
      split at h
      · cases h
      · rename_i hraw
        obtain rfl := Option.some.inj h
        obtain ⟨as, first, bs, rfl, hfence, houtside, hmark, hbs⟩ := ih hopen
        refine ⟨as, first, bs ++ [raw], by simp, hfence, houtside, hmark, fun b hb => ?_⟩
        rcases List.mem_append.1 hb with hb | hb
        · exact hbs b hb
        · rwa [List.mem_singleton.1 hb]

end Reader

/-! ## The lines of a cursor -/

namespace Cursor

open Grammar

/-- The item that a cursor looks at. -/
def item? : Cursor → Option Item
  | line l _ => some (.ok l.line)
  | ended _ => none
  | failed f => some (.error f)

/-- The lines before a place in a cursor are made of the first items, and the next item is the one
that is looked at there. -/
theorem exists_cut {number : Nat} {blank : Bool} {items : List Item} {ls : List Significant}
    {d : Cursor} (h : ofItems number blank items = prepend ls d) :
    ∃ (as : List Line) (bs : List Item), items = as.map .ok ++ bs ∧
      significant blank as = ls ∧ bs.head? = d.item? := by
  induction items generalizing blank ls with
  | nil =>
    cases ls with
    | nil => exact ⟨[], [], rfl, rfl, by rw [← prepend_nil d, ← h]; rfl⟩
    | cons l ls => cases h
  | cons item items ih =>
    cases item with
    | error f =>
      cases ls with
      | nil => exact ⟨[], _, rfl, rfl, by rw [← prepend_nil d, ← h]; rfl⟩
      | cons l ls => cases h
    | ok l =>
      unfold ofItems at h
      split at h
      · rename_i hk
        obtain ⟨as, bs, rfl, has, hbs⟩ := ih h
        exact ⟨l :: as, bs, rfl, by simp only [significant, hk, has], hbs⟩
      · rename_i hk
        obtain ⟨as, bs, rfl, has, hbs⟩ := ih h
        exact ⟨l :: as, bs, rfl, by simp only [significant, hk, has], hbs⟩
      · rename_i hb hc
        cases ls with
        | nil => exact ⟨[], _, rfl, rfl, by rw [← prepend_nil d, ← h]; rfl⟩
        | cons k ls =>
          obtain ⟨rfl, hrest⟩ := Cursor.line.inj h
          obtain ⟨as, bs, rfl, has, hbs⟩ := ih hrest
          exact ⟨l :: as, bs, rfl, by rw [significant_cons hb hc, has], hbs⟩

theorem exists_cut_ofText {text : String} {ls : List Significant} {d : Cursor}
    (h : ofText text = prepend ls d) :
    ∃ (as : List Line) (bs : List Item), (Reader.ofText text.toList).items = as.map .ok ++ bs ∧
      significant false as = ls ∧ (Reader.ofText text.toList).items[as.length]? = d.item? := by
  obtain ⟨as, bs, hitems, hls, hnext⟩ := exists_cut ((ofText_eq_ofItems text).symm.trans h)
  refine ⟨as, bs, hitems, hls, ?_⟩
  rw [hitems, ← hnext, List.getElem?_append_right (by simp), List.length_map, Nat.sub_self,
    List.head?_eq_getElem?]

/-- Blank lines and comments are never looked at. -/
theorem kept_of_mem_ofItems {number : Nat} {blank : Bool} {items : List Item} {l : Significant}
    (h : l ∈ (ofItems number blank items).lines) :
    l.line.kind ≠ .blank ∧ l.line.kind ≠ .comment := by
  induction items generalizing blank with
  | nil => cases h
  | cons item items ih =>
    cases item with
    | error f => cases h
    | ok k =>
      unfold ofItems at h
      split at h
      · exact ih h
      · exact ih h
      · rename_i hb hc
        rcases List.mem_cons.1 h with rfl | h
        · exact ⟨hb, hc⟩
        · exact ih h

/-- What is ahead of the lines of a text can be read. -/
theorem legible_ofItems {number last : Nat} {blank : Bool} {fence : Option Fence}
    {raws : List (List Char)} (hraws : ∀ raw ∈ raws, '\n' ∉ raw) :
    Legible fence.isSome (ofItems number blank (itemsFrom last fence raws)).kindsAhead := by
  induction raws generalizing last fence blank with
  | nil => cases fence <;> exact .nil
  | cons raw raws ih =>
    obtain ⟨hraw, hrest⟩ := List.forall_mem_cons.1 hraws
    rcases hc : classify fence (last + 1) raw with ⟨result, after⟩
    cases result with
    | error cause =>
      obtain ⟨rfl, hmarks⟩ := marks_of_classify (congrArg Prod.fst hc)
      have hkind : cause.kind ≠ .unexpectedEnd := by
        cases cause <;> first | exact hmarks.elim | simp [Fault.Cause.kind]
      rw [itemsFrom, Reader.read, hc]
      show Legible false (if cause.kind = .unexpectedEnd then [] else [.blank])
      rw [if_neg hkind]
      exact .plain trivial (by simp) .nil
    | ok k =>
      have hall (blank : Bool) : Legible fence.isSome
          (k :: (ofItems number blank (itemsFrom (last + 1) after raws)).kindsAhead) :=
        legible_cons_of_classify hraw hc (ih hrest)
      rw [itemsFrom, Reader.read, hc]
      unfold ofItems
      dsimp only
      generalize fence.isSome = inside at hall ⊢
      cases k with
      | blank =>
        cases hall true with
        | plain _ _ rest => exact rest
      | comment =>
        cases hall blank with
        | plain _ _ rest => exact rest
      | _ => exact hall false

theorem readable_ofText (text : String) : (ofText text).Readable := by
  rw [ofText_eq_ofItems]
  exact @legible_ofItems _ 0 false none _ fun _ => Text.newline_not_mem_lines

end Cursor

/-! ## Lines by their numbers -/

namespace Text

/-- Line `n` of a text, counted from 1. -/
def lineAt (n : Nat) (text : String) : Option (List Char) := (lines text.toList)[n - 1]?

/-- What the reader makes of line `n`. -/
def itemAt (n : Nat) (text : String) : Option Item := (Reader.ofText text.toList).items[n - 1]?

/-- The doc string that line `n` stands in. -/
def fenceAt (n : Nat) (text : String) : Option Fence :=
  fenceAfter 0 none ((lines text.toList).take (n - 1))

/-- Line `n` is one of the text's. -/
def HasLine (n : Nat) (text : String) : Prop :=
  1 ≤ n ∧ n ≤ (lines text.toList).length

end Text

open Text

/-- The lines before line `n` are no faults, and these are the significant ones. -/
def Before (n : Nat) (text : String) (ls : List Significant) : Prop :=
  ∃ (as : List Line) (bs : List Item), n = as.length + 1 ∧
    (Reader.ofText text.toList).items = as.map .ok ++ bs ∧ significant false as = ls

/-- A line that a cursor looks at. -/
theorem exists_line {text : String} {ls : List Significant} {l : Significant} {rest : Cursor}
    (h : Cursor.ofText text = Cursor.prepend ls (.line l rest)) :
    HasLine l.line.number text ∧ Before l.line.number text ls ∧
      itemAt l.line.number text = some (.ok l.line) ∧ ∃ raw ∈ lineAt l.line.number text,
        (classify (fenceAt l.line.number text) l.line.number raw).1 = .ok l.line.kind := by
  obtain ⟨as, bs, hitems, hls, hitem⟩ := Cursor.exists_cut_ofText h
  obtain ⟨raw, hraw, hread⟩ | ⟨fence, -, hfault⟩ := item_cases hitem
  · obtain ⟨hnumber, hkind⟩ := line_of_read hread.symm
    have hindex : l.line.number - 1 = as.length := by rw [hnumber, Nat.add_sub_cancel]
    obtain ⟨hlt, -⟩ := List.getElem?_eq_some_iff.1 hraw
    refine ⟨by rw [hnumber]; exact ⟨by omega, hlt⟩, ⟨as, bs, hnumber, hitems, hls⟩,
      by rw [itemAt, hindex]; exact hitem, raw, ?_⟩
    rw [lineAt, fenceAt, hindex, hnumber]
    exact ⟨hraw, hkind⟩
  · cases hfault

theorem kept_of_line {text : String} {ls : List Significant} {l : Significant} {rest : Cursor}
    (h : Cursor.ofText text = Cursor.prepend ls (.line l rest)) :
    l.line.kind ≠ .blank ∧ l.line.kind ≠ .comment := by
  have hmem : l ∈ (Cursor.ofText text).lines := by
    rw [h, Cursor.lines_prepend]
    exact List.mem_append_right _ List.mem_cons_self
  rw [Cursor.ofText_eq_ofItems] at hmem
  exact Cursor.kept_of_mem_ofItems hmem

/-- Lines of which none is significant are blank lines and comments. -/
theorem skipped_of_significant {blank : Bool} {ls : List Line} (h : significant blank ls = []) :
    ∀ l ∈ ls, l.kind = .blank ∨ l.kind = .comment := by
  induction ls generalizing blank with
  | nil => simp
  | cons l ls ih =>
    unfold significant at h
    split at h
    · rename_i hk
      exact List.forall_mem_cons.2 ⟨.inl hk, ih h⟩
    · rename_i hk
      exact List.forall_mem_cons.2 ⟨.inr hk, ih h⟩
    · cases h

/-- The doc string that is open at the end of a text opened at a fence of its own, and no fence is
after it. -/
theorem exists_unclosed {text : String} {fence : Fence}
    (h : fenceAfter 0 none (lines text.toList) = some fence) :
    HasLine fence.line text ∧ fenceAt fence.line text = none ∧
      itemAt fence.line text = some (.ok ⟨fence.line, .fence⟩) ∧
      ∀ n raw, fence.line < n → lineAt n text = some raw → trim raw ≠ fenceMark := by
  obtain ⟨before, raw, behind, hlines, hfence, houtside, hmark, hbehind⟩ := exists_fence h
  have hnumber : fence.line = 0 + before.length + 1 := congrArg Fence.line hfence
  have hindex : fence.line - 1 = before.length := by omega
  have hbefore : (lines text.toList).take (fence.line - 1) = before := by
    rw [hlines, hindex, List.take_left]
  have hraw : (lines text.toList)[fence.line - 1]? = some raw := by
    rw [hlines, hindex, List.getElem?_append_right (Nat.le_refl _), Nat.sub_self]
    rfl
  have hread : itemAt fence.line text = some (.ok ⟨fence.line, .fence⟩) := by
    have hclassify : classify none fence.line raw =
        (.ok .fence, some ⟨fence.line, Text.indent raw⟩) := by
      unfold classify
      simp only [hmark, if_true]
      rfl
    have hone : fence.line - 1 + 1 = fence.line := by omega
    rw [itemAt, getElem?_items hraw, hbefore, houtside, hone, Reader.read, hclassify]
  have hlength : fence.line ≤ (lines text.toList).length := by
    rw [hlines, List.length_append, List.length_cons]
    omega
  refine ⟨⟨by omega, hlength⟩, by rw [fenceAt, hbefore]; exact houtside, hread,
    fun n later hn hlater => hbehind later ?_⟩
  rw [lineAt, hlines, List.getElem?_append_right (by omega), List.getElem?_cons,
    if_neg (by omega)] at hlater
  exact List.mem_of_getElem? hlater

/-- The reader's fault is shown by a line outside doc strings, or by the fence of a doc string that
is not closed. -/
theorem exists_fault {text : String} {ls : List Significant} {f : Fault}
    (h : Cursor.ofText text = Cursor.prepend ls (.failed f)) :
    HasLine f.line text ∧ fenceAt f.line text = none ∧
      ((Before f.line text ls ∧ itemAt f.line text = some (.error f) ∧
        ∃ raw ∈ lineAt f.line text, f.cause.Marks (trim raw)) ∨
      (f.cause = .fenceUnclosed ∧ itemAt f.line text = some (.ok ⟨f.line, .fence⟩) ∧
        ∀ n raw, f.line < n → lineAt n text = some raw → trim raw ≠ fenceMark)) := by
  obtain ⟨as, bs, hitems, hls, hitem⟩ := Cursor.exists_cut_ofText h
  obtain ⟨raw, hraw, hread⟩ | ⟨fence, hfence, hfault⟩ := item_cases hitem
  · obtain ⟨hnumber, hcause⟩ := fault_of_read hread.symm
    obtain ⟨houtside, hmarks⟩ := marks_of_classify hcause
    have hindex : f.line - 1 = as.length := by rw [hnumber, Nat.add_sub_cancel]
    obtain ⟨hlt, -⟩ := List.getElem?_eq_some_iff.1 hraw
    refine ⟨by rw [hnumber]; exact ⟨by omega, hlt⟩, by rw [fenceAt, hindex]; exact houtside,
      .inl ⟨⟨as, bs, hnumber, hitems, hls⟩, by rw [itemAt, hindex]; exact hitem, raw, ?_, hmarks⟩⟩
    rw [lineAt, hindex]
    exact hraw
  · obtain rfl := Except.error.inj hfault
    obtain ⟨hline, houtside, hread, hbehind⟩ := exists_unclosed hfence
    exact ⟨hline, houtside, .inr ⟨rfl, hread, hbehind⟩⟩

end Gherkin
