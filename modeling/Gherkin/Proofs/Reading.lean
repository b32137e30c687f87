import Gherkin.Proofs.WellFormed

/-
  What the reader makes of a line. Outside doc strings the kind of a line is well formed
  (`wellFormed_ofContent`); the kinds of all lines of a text alternate between lines outside and
  captured lines, as the fences open and close (`legible_items`).
-/

namespace Gherkin

open Text

namespace Line

/-! ## One line -/

/-- What is true of the kind of a line outside doc strings. -/
def Kind.WellFormed : Kind → Prop
  | tags ts => ts ≠ [] ∧ ∀ t ∈ ts, t.WellFormed
  | heading _ name => NameWellFormed name
  | step _ s => Trimmed s ∧ s ≠ "" ∧ OneLine s
  | row cells => cells ≠ [] ∧ ∀ cell ∈ cells, Trimmed cell
  | text s => Free s
  | blank | comment | fence => True

theorem trimmed_ofList_trim (s : List Char) : Trimmed (String.ofList (trim s)) := by
  rw [Trimmed, String.toList_ofList, trim_trim]

theorem nameWellFormed_trim {s : List Char} (h : '\n' ∉ s) :
    NameWellFormed (String.ofList (trim s)) := by
  refine ⟨trimmed_ofList_trim s, ?_⟩
  rw [OneLine, String.toList_ofList]
  exact fun hn => h (mem_of_mem_trim hn)

theorem ofList_ne_empty {s : List Char} (h : s ≠ []) : String.ofList s ≠ "" := by
  intro e
  exact h (by simpa using congrArg String.toList e)

theorem tags_ofWords {ws : List (List Char)} {ts : List Tag} (h : Tag.ofWords ws = .ok ts)
    (hws : ∀ w ∈ ws, ∀ c ∈ w, isBlank c = false) : ∀ t ∈ ts, t.WellFormed := by
  induction ws using Tag.ofWords.induct generalizing ts with
  | case1 => simp_all [Tag.ofWords]
  | case2 => simp_all [Tag.ofWords]
  | case3 c name rest ih =>
    rw [Tag.ofWords] at h
    cases hr : Tag.ofWords rest with
    | error e => rw [hr] at h; cases h
    | ok more =>
      rw [hr] at h
      obtain rfl := Except.ok.inj h
      intro t ht
      rcases List.mem_cons.1 ht with rfl | ht
      · refine ⟨ofList_ne_empty (List.cons_ne_nil _ _), fun d hd => ?_⟩
        rw [String.toList_ofList] at hd
        exact hws _ List.mem_cons_self d (List.mem_cons_of_mem _ hd)
      · exact ih hr (fun w hw => hws w (List.mem_cons_of_mem _ hw)) t ht
  | case4 w rest h₁ h₂ => rw [Tag.ofWords.eq_4 w rest h₁ h₂] at h; cases h

theorem tags_ofLine {s : List Char} {ts : List Tag} (h : Tag.ofLine ('@' :: s) = .ok ts) :
    ts ≠ [] ∧ ∀ t ∈ ts, t.WellFormed := by
  refine ⟨?_, tags_ofWords h fun w hw => (mem_words hw).2⟩
  obtain ⟨w, ws, hw⟩ := words_cons_ne_nil (c := '@') (s := s) (by decide)
  rw [Tag.ofLine, hw] at h
  cases w with
  | nil => simp [Tag.ofWords] at h
  | cons c w =>
    rw [Tag.ofWords] at h
    rintro rfl
    cases hr : Tag.ofWords ws <;> rw [hr] at h <;> cases h

theorem cellsAfterPipe_ne_nil {s : List Char} {cells : List (List Char)}
    (h : Row.cellsAfterPipe s = some cells) : cells ≠ [] := by
  have extend_ne_nil (t : List Char) (cs : List (List Char)) : Row.extend t cs ≠ [] := by
    cases cs <;> exact List.cons_ne_nil _ _
  unfold Row.cellsAfterPipe at h
  split at h
  · cases h
  · obtain rfl := Option.some.inj h
    exact List.cons_ne_nil _ _
  · obtain ⟨cs, -, rfl⟩ := Option.map_eq_some_iff.1 h
    exact List.cons_ne_nil _ _
  · obtain ⟨cs, -, rfl⟩ := Option.map_eq_some_iff.1 h
    exact extend_ne_nil _ _
  · obtain ⟨cs, -, rfl⟩ := Option.map_eq_some_iff.1 h
    exact extend_ne_nil _ _

theorem cells_wellFormed {s : List Char} {cells : List String} (h : Row.cells s = .ok cells) :
    cells ≠ [] ∧ ∀ cell ∈ cells, Trimmed cell := by
  unfold Row.cells at h
  split at h
  · split at h
    · rename_i cs hcs
      obtain rfl := Except.ok.inj h
      refine ⟨by simpa using cellsAfterPipe_ne_nil hcs, fun cell hcell => ?_⟩
      obtain ⟨c, -, rfl⟩ := List.mem_map.1 hcell
      exact trimmed_ofList_trim c
    · cases h
  · cases h

theorem eq_append_of_heading {s rest : List Char} {k : Heading}
    (h : Heading.opening? s = some (k, rest)) : s = k.label.toList ++ rest := by
  obtain ⟨j, -, hj⟩ := List.exists_of_findSome?_eq_some h
  obtain ⟨r, hr, e⟩ := Option.map_eq_some_iff.1 hj
  obtain ⟨rfl, rfl⟩ := Prod.mk.inj e
  exact (List.isPrefixOf?_eq_some_iff_append_eq.1 hr).symm

theorem eq_append_of_step {s rest : List Char} {k : StepKeyword}
    (h : StepKeyword.opening? s = some (k, rest)) :
    ∃ c, isBlank c = true ∧ s = k.word.toList ++ c :: rest := by
  obtain ⟨j, -, hj⟩ := List.exists_of_findSome?_eq_some h
  split at hj
  · rename_i c r hr
    split at hj
    · rename_i hc
      obtain ⟨rfl, rfl⟩ := Prod.mk.inj (Option.some.inj hj)
      exact ⟨c, hc, (List.isPrefixOf?_eq_some_iff_append_eq.1 hr).symm⟩
    · cases hj
  · cases hj

/-- A trimmed line of free text is free text when it is read alone. -/
theorem free_of_ofContent {content : List Char} (ht : trim content = content)
    (hn : '\n' ∉ content) (h : Kind.ofContent content = .ok (.text (String.ofList content))) :
    Free (String.ofList content) := by
  have hsome : content ≠ [] := by rintro rfl; cases h
  have hfence : content ≠ fenceMark := by rintro rfl; cases h
  rw [Free, String.toList_ofList, Reader.ofText, Reader.items, lines_eq_singleton hsome hn]
  simp [Reader.itemsFrom, Reader.read, classify, ht, h, hfence]

theorem wellFormed_ofWords {content : List Char} {k : Kind} (ht : trim content = content)
    (hn : '\n' ∉ content) (h : Kind.ofContent content = .ok k)
    (hw : Kind.ofWords content = .ok k) : k.WellFormed := by
  unfold Kind.ofWords at hw
  split at hw
  · rename_i j name hj
    obtain rfl := Except.ok.inj hw
    refine nameWellFormed_trim fun hname => hn ?_
    rw [eq_append_of_heading hj]
    exact List.mem_append_right _ hname
  · split at hw
    · rename_i j rest hj
      obtain rfl := Except.ok.inj hw
      obtain ⟨c, hc, hs⟩ := eq_append_of_step hj
      have hrest : '\n' ∉ rest := fun hr => hn (by rw [hs]; simp [hr])
      obtain ⟨htrimmed, hline⟩ := nameWellFormed_trim hrest
      refine ⟨htrimmed, ofList_ne_empty fun e => ?_, hline⟩
      have hblank : Blanks (c :: rest) := by
        intro d hd
        rcases List.mem_cons.1 hd with rfl | hd
        · exact hc
        · exact trim_eq_nil.1 e d hd
      rw [hs] at ht
      cases eq_nil_of_trim_append hblank ht
    · split at hw
      · cases hw
      · obtain rfl := Except.ok.inj hw
        exact free_of_ofContent ht hn h

theorem wellFormed_ofContent {content : List Char} {k : Kind} (ht : trim content = content)
    (hn : '\n' ∉ content) (h : Kind.ofContent content = .ok k) : k.WellFormed := by
  have hk := h
  unfold Kind.ofContent at hk
  split at hk
  · obtain rfl := Except.ok.inj hk
    trivial
  · obtain rfl := Except.ok.inj hk
    trivial
  · rename_i s
    cases hs : Tag.ofLine ('@' :: s) with
    | error e => rw [hs] at hk; cases hk
    | ok ts =>
      rw [hs] at hk
      obtain rfl := Except.ok.inj hk
      exact tags_ofLine hs
  · rename_i s
    cases hs : Row.cells ('|' :: s) with
    | error e => rw [hs] at hk; cases hk
    | ok cells =>
      rw [hs] at hk
      obtain rfl := Except.ok.inj hk
      exact cells_wellFormed hs
  · split at hk
    · obtain rfl := Except.ok.inj hk
      trivial
    · exact wellFormed_ofWords ht hn h hk

theorem ofWords_ne_fence (content : List Char) : Kind.ofWords content ≠ .ok .fence := by
  unfold Kind.ofWords
  split
  · simp
  · split
    · simp
    · split <;> simp

theorem eq_fenceMark_of_ofContent {content : List Char} (h : Kind.ofContent content = .ok .fence) :
    content = fenceMark := by
  unfold Kind.ofContent at h
  split at h
  · cases h
  · cases h
  · rename_i s
    cases hs : Tag.ofLine ('@' :: s) <;> rw [hs] at h <;> cases h
  · rename_i s
    cases hs : Row.cells ('|' :: s) <;> rw [hs] at h <;> cases h
  · split at h
    · assumption
    · exact absurd h (ofWords_ne_fence content)

/-! ## The lines of a text -/

/-- A line that a doc string can capture. -/
def Captured (s : String) : Prop := OneLine s ∧ trim s.toList ≠ fenceMark

/-- Kinds that lines can have one after the other, within a doc string (`true`) or outside. -/
inductive Legible : Bool → List Kind → Prop
  | nil {inside : Bool} : Legible inside []
  | plain {k : Kind} {ks : List Kind} (first : k.WellFormed) (other : k ≠ .fence)
    (rest : Legible false ks) : Legible false (k :: ks)
  | opening {ks : List Kind} (rest : Legible true ks) : Legible false (.fence :: ks)
  | captured {s : String} {ks : List Kind} (first : Captured s) (rest : Legible true ks) :
    Legible true (.text s :: ks)
  | closing {ks : List Kind} (rest : Legible false ks) : Legible true (.fence :: ks)

/-- A line that is read without a fault comes before what is legible after it. -/
theorem legible_cons_of_classify {fence after : Option Fence} {number : Nat} {raw : List Char}
    {k : Kind} {ks : List Kind} (hraw : '\n' ∉ raw)
    (h : classify fence number raw = (.ok k, after)) (rest : Legible after.isSome ks) :
    Legible fence.isSome (k :: ks) := by
  have hn : '\n' ∉ trim raw := fun hm => hraw (mem_of_mem_trim hm)
  by_cases hf : trim raw = fenceMark
  · cases fence with
    | some opened =>
      simp only [classify, if_pos hf, Prod.mk.injEq, Except.ok.injEq] at h
      obtain ⟨rfl, rfl⟩ := h
      exact .closing rest
    | none =>
      simp only [classify, hf, if_true, Prod.mk.injEq] at h
      obtain ⟨hk, rfl⟩ := h
      obtain rfl := Except.ok.inj hk
      exact .opening rest
  · cases fence with
    | some opened =>
      simp only [classify, if_neg hf, Prod.mk.injEq, Except.ok.injEq] at h
      obtain ⟨rfl, rfl⟩ := h
      refine .captured ⟨?_, ?_⟩ rest
      · rw [OneLine, String.toList_ofList]
        exact fun hm => hraw (mem_of_mem_dedent hm)
      · rw [String.toList_ofList, trim_dedent]
        exact hf
    | none =>
      simp only [classify, if_neg hf, Prod.mk.injEq] at h
      obtain ⟨hk, rfl⟩ := h
      refine .plain (wellFormed_ofContent (trim_trim raw) hn hk) ?_ rest
      rintro rfl
      exact hf (eq_fenceMark_of_ofContent hk)

end Line

open Line

theorem Reader.legible_items {last : Nat} {fence : Option Line.Fence} {raws : List (List Char)}
    {ls : List Line} (hraws : ∀ raw ∈ raws, '\n' ∉ raw)
    (h : Reader.itemsFrom last fence raws = ls.map .ok) :
    Legible fence.isSome (ls.map Line.kind) := by
  induction raws generalizing last fence ls with
  | nil =>
    cases ls with
    | nil => exact .nil
    | cons l ls => cases fence <;> simp [Reader.itemsFrom] at h
  | cons raw raws ih =>
    obtain ⟨hraw, hrest⟩ := List.forall_mem_cons.1 hraws
    rcases hc : classify fence (last + 1) raw with ⟨result, after⟩
    cases ls with
    | nil => simp [Reader.itemsFrom] at h
    | cons l ls =>
      cases result with
      | error e => simp [Reader.itemsFrom, Reader.read, hc] at h
      | ok k =>
        simp only [Reader.itemsFrom, Reader.read, hc, List.map_cons, List.cons.injEq,
          Except.ok.injEq] at h
        obtain ⟨rfl, h⟩ := h
        exact legible_cons_of_classify hraw hc (ih hrest h)

end Gherkin
