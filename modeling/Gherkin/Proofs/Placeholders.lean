import Gherkin.Placeholder
import Gherkin.Proofs.Bindings
import Mathlib.Data.List.Infix

/-
  Placeholders of a text. Two placeholders never overlap, because a name holds no bracket, so a text
  is stretches without a placeholder and placeholders between them in one way only, and `cut` finds
  it (`decomposes_iff`). A search that takes the leftmost placeholder and goes on behind it finds
  the same (`leftmost_iff`). Listing, detecting and replacing placeholders are functions of that one
  decomposition (`placeholders_decompose`); a text that takes the place of a placeholder is not
  looked at again.
-/

namespace Gherkin.Placeholder

/-! ## Names and stretches -/

/-- What can stand between the brackets of a placeholder. -/
structure IsName (p : List Char) : Prop where
  nonempty : p ≠ []
  plain : ∀ c ∈ p, c ≠ '<' ∧ c ≠ '>'
  opening : ∀ c ∈ p.head?, Text.isBlank c = false

/-- A name between brackets. -/
def bracket (p : List Char) : List Char := '<' :: p ++ ['>']

/-- No placeholder stands in the text. -/
def Bare (s : List Char) : Prop := ∀ p, IsName p → ¬bracket p <:+: s

theorem plain_eq_true {c : Char} : plain c = true ↔ c ≠ '<' ∧ c ≠ '>' := by simp [plain]

/-- A name and its closing bracket are found exactly where they stand. -/
theorem name?_eq_some {s p r : List Char} :
    name? s = some (p, r) ↔ IsName p ∧ s = p ++ '>' :: r := by
  constructor
  · intro h
    have hcut := List.takeWhile_append_dropWhile (p := plain) (l := s)
    have hplain : ∀ c ∈ s.takeWhile plain, plain c = true := fun c hc =>
      List.all_eq_true.1 List.all_takeWhile c hc
    simp only [name?] at h
    split at h
    · rename_i c name rest htake hdrop
      split at h
      · cases h
      · rename_i hblank
        obtain ⟨rfl, rfl⟩ := Prod.mk.inj (Option.some.inj h)
        rw [htake] at hplain hcut
        rw [hdrop] at hcut
        refine ⟨⟨List.cons_ne_nil _ _, fun d hd => plain_eq_true.1 (hplain d hd), ?_⟩, hcut.symm⟩
        rintro d ⟨⟩
        simpa using hblank
    · cases h
  · rintro ⟨⟨hne, hplain, hopening⟩, rfl⟩
    have hall : ∀ c ∈ p, plain c = true := fun c hc => plain_eq_true.2 (hplain c hc)
    have hclose : plain '>' = false := by decide
    have htake : (p ++ '>' :: r).takeWhile plain = p := by
      rw [List.takeWhile_append_of_pos hall, List.takeWhile_cons_of_neg (by simp [hclose]),
        List.append_nil]
    have hdrop : (p ++ '>' :: r).dropWhile plain = '>' :: r := by
      rw [List.dropWhile_append_of_pos hall, List.dropWhile_cons_of_neg (by simp [hclose])]
    cases p with
    | nil => exact absurd rfl hne
    | cons c name =>
      simp only [name?, htake, hdrop, hopening c rfl]
      rfl

theorem name?_eq_none {s : List Char} (h : Bare ('<' :: s)) : name? s = none := by
  cases hname : name? s with
  | none => rfl
  | some pr =>
    obtain ⟨p, r⟩ := pr
    obtain ⟨hp, rfl⟩ := name?_eq_some.1 hname
    exact absurd ⟨[], r, by simp [bracket]⟩ (h p hp)

theorem Bare.nil : Bare [] := by
  intro p _ h
  have hlength := h.length_le
  simp [bracket] at hlength

theorem Bare.of_part {s t : List Char} (h : Bare t) (hs : s <:+: t) : Bare s :=
  fun p hp hpart => h p hp (hpart.trans hs)

/-- A character before a text without placeholders makes one only if it opens one. -/
theorem Bare.cons {c : Char} {s : List Char} (h : Bare s) (hc : c = '<' → name? s = none) :
    Bare (c :: s) := by
  intro p hp hpart
  rcases List.infix_cons_iff.1 hpart with ⟨r, hr⟩ | hpart
  · obtain ⟨rfl, hs⟩ := List.cons.inj hr
    have hname : name? s = some (p, r) := name?_eq_some.2 ⟨hp, by simp [← hs]⟩
    rw [hc rfl] at hname
    cases hname
  · exact h p hp hpart

/-! ## The cut of a text -/

/-- The text is the stretches and the placeholders of the cut, in order; no stretch holds a
placeholder. -/
structure Decomposes (s : List Char) (k : Cut) : Prop where
  text : k.render bracket = s
  names : ∀ p ∈ k.rest, IsName p.1
  lead : Bare k.lead
  after : ∀ p ∈ k.rest, Bare p.2

theorem cut_cons_of_ne {c : Char} (hc : c ≠ '<') (s : List Char) :
    cut (c :: s) = ⟨c :: (cut s).lead, (cut s).rest⟩ := by
  simp only [cut, if_neg hc]

theorem cut_open_of_none {s : List Char} (h : name? (cut s).lead = none) :
    cut ('<' :: s) = ⟨'<' :: (cut s).lead, (cut s).rest⟩ := by
  simp only [cut, if_true, h]

theorem cut_open_of_some {s p r : List Char} (h : name? (cut s).lead = some (p, r)) :
    cut ('<' :: s) = ⟨[], (p, r) :: (cut s).rest⟩ := by
  simp only [cut, if_true, h]

/-- The cut of a text decomposes it. -/
theorem decomposes_cut (s : List Char) : Decomposes s (cut s) := by
  induction s with
  | nil => exact ⟨rfl, nofun, .nil, nofun⟩
  | cons c s ih =>
    have htext : (cut (c :: s)).render bracket = c :: s := render_cut (c :: s)
    obtain ⟨-, hnames, hlead, hafter⟩ := ih
    by_cases hc : c = '<'
    · subst hc
      cases hname : name? (cut s).lead with
      | none =>
        rw [cut_open_of_none hname] at htext ⊢
        exact ⟨htext, hnames, hlead.cons fun _ => hname, hafter⟩
      | some pr =>
        obtain ⟨p, r⟩ := pr
        obtain ⟨hp, hs⟩ := name?_eq_some.1 hname
        have hr : Bare r := hlead.of_part ⟨p ++ ['>'], [], by simp [hs]⟩
        rw [cut_open_of_some hname] at htext ⊢
        exact ⟨htext, List.forall_mem_cons.2 ⟨hp, hnames⟩, .nil,
          List.forall_mem_cons.2 ⟨hr, hafter⟩⟩
    · rw [cut_cons_of_ne hc] at htext ⊢
      exact ⟨htext, hnames, hlead.cons fun h => absurd h hc, hafter⟩

/-- A stretch without placeholders stays whole before a text that begins with one or is empty. -/
theorem cut_append_of_bare {l s : List Char} (hl : Bare l) (hs : (cut s).lead = []) :
    cut (l ++ s) = ⟨l, (cut s).rest⟩ := by
  induction l with
  | nil => rw [List.nil_append, ← hs]
  | cons c l ih =>
    have hcut := ih (hl.of_part (List.suffix_cons c l).isInfix)
    rw [List.cons_append]
    by_cases hc : c = '<'
    · subst hc
      have hnone : name? (cut (l ++ s)).lead = none := by
        rw [hcut]
        exact name?_eq_none hl
      rw [cut_open_of_none hnone, hcut]
    · rw [cut_cons_of_ne hc, hcut]

/-- Characters that open no placeholder join the first stretch. -/
theorem cut_append_of_plain {p : List Char} (hp : ∀ c ∈ p, c ≠ '<') (s : List Char) :
    cut (p ++ s) = ⟨p ++ (cut s).lead, (cut s).rest⟩ := by
  induction p with
  | nil => rfl
  | cons c p ih =>
    obtain ⟨hc, hrest⟩ := List.forall_mem_cons.1 hp
    rw [List.cons_append, cut_cons_of_ne hc, ih hrest]
    rfl

theorem cut_bracket {p : List Char} (hp : IsName p) (s : List Char) :
    cut (bracket p ++ s) = ⟨[], (p, (cut s).lead) :: (cut s).rest⟩ := by
  have hopen : ∀ c ∈ p ++ ['>'], c ≠ '<' := by
    intro c hc
    rcases List.mem_append.1 hc with hc | hc
    · exact (hp.plain c hc).1
    · rw [List.mem_singleton.1 hc]
      decide
  have hcut := cut_append_of_plain hopen s
  have hname : name? (cut (p ++ ['>'] ++ s)).lead = some (p, (cut s).lead) := by
    rw [hcut]
    exact name?_eq_some.2 ⟨hp, by simp⟩
  have hall : bracket p ++ s = '<' :: (p ++ ['>'] ++ s) := by simp [bracket]
  rw [hall, cut_open_of_some hname, hcut]

theorem render_cons (value : List Char → List Char) (lead p stretch : List Char)
    (rest : List (List Char × List Char)) :
    Cut.render value ⟨lead, (p, stretch) :: rest⟩ =
      lead ++ (value p ++ Cut.render value ⟨stretch, rest⟩) := by
  simp [Cut.render]

/-- Stretches without placeholders and placeholders between them are cut as they stand. -/
theorem cut_render {lead : List Char} {rest : List (List Char × List Char)}
    (names : ∀ p ∈ rest, IsName p.1) (hlead : Bare lead) (after : ∀ p ∈ rest, Bare p.2) :
    cut (Cut.render bracket ⟨lead, rest⟩) = ⟨lead, rest⟩ := by
  induction rest generalizing lead with
  | nil => exact cut_append_of_bare hlead rfl
  | cons p rest ih =>
    obtain ⟨name, stretch⟩ := p
    obtain ⟨hname, hnames⟩ := List.forall_mem_cons.1 names
    obtain ⟨hstretch, hafter⟩ := List.forall_mem_cons.1 after
    have hcut := cut_bracket hname (Cut.render bracket ⟨stretch, rest⟩)
    rw [ih hnames hstretch hafter] at hcut
    rw [render_cons, cut_append_of_bare hlead (by rw [hcut]), hcut]

/-- A text is stretches and placeholders in one way only. -/
theorem decomposes_iff {s : List Char} {k : Cut} : Decomposes s k ↔ k = cut s := by
  constructor
  · rintro ⟨rfl, names, lead, after⟩
    exact (cut_render names lead after).symm
  · rintro rfl
    exact decomposes_cut s

/-! ## Search from the left -/

/-- What a search finds that takes the leftmost placeholder and goes on behind it. -/
inductive Leftmost : List Char → Cut → Prop
  | none {s : List Char} (bare : Bare s) : Leftmost s ⟨s, []⟩
  | found {l p r : List Char} {k : Cut} (name : IsName p)
    (first : ∀ l' p' r' : List Char, IsName p' →
      l ++ (bracket p ++ r) = l' ++ (bracket p' ++ r') → l.length ≤ l'.length)
    (more : Leftmost r k) : Leftmost (l ++ (bracket p ++ r)) ⟨l, (p, k.lead) :: k.rest⟩

theorem not_mem_name_close {p : List Char} (hp : IsName p) : '<' ∉ p ++ ['>'] := by
  intro h
  rcases List.mem_append.1 h with h | h
  · exact (hp.plain _ h).1 rfl
  · exact absurd (List.mem_singleton.1 h) (by decide)

/-- Before the placeholder behind a stretch without one, none begins: it would have to reach over
that placeholder's opening bracket. -/
theorem length_le_of_bare {l p r l' p' r' : List Char} (hl : Bare l) (hp' : IsName p')
    (h : l ++ (bracket p ++ r) = l' ++ (bracket p' ++ r')) : l.length ≤ l'.length := by
  by_contra hlt
  rw [Nat.not_le] at hlt
  rcases List.append_eq_append_iff.1 h with ⟨a, ha, -⟩ | ⟨m, hm, hrest⟩
  · have hlength := congrArg List.length ha
    rw [List.length_append] at hlength
    omega
  · have hpart : m <:+: l := ⟨l', [], by simp [hm]⟩
    have hopen : m ≠ [] := by
      rintro rfl
      rw [hm, List.append_nil] at hlt
      exact Nat.lt_irrefl _ hlt
    rcases List.append_eq_append_iff.1 hrest with ⟨x, hx, -⟩ | ⟨x, hx, hclose⟩
    · exact hl p' hp' (List.IsInfix.trans ⟨[], x, by simp [hx]⟩ hpart)
    · cases x with
      | nil => exact hl p' hp' (by rwa [hx, List.append_nil])
      | cons d x =>
        obtain ⟨rfl, -⟩ := List.cons.inj hclose
        cases m with
        | nil => exact hopen rfl
        | cons c m =>
          have htail : p' ++ ['>'] = m ++ '<' :: x := (List.cons.inj hx).2
          exact not_mem_name_close hp' (by rw [htail]; simp)

/-- The search finds the one decomposition of the text. -/
theorem leftmost_iff {s : List Char} {k : Cut} : Leftmost s k ↔ Decomposes s k := by
  constructor
  · intro h
    induction h with
    | none bare => exact ⟨by simp [Cut.render], nofun, bare, nofun⟩
    | @found l p r k name first _ ih =>
      obtain ⟨htext, hnames, hlead, hafter⟩ := ih
      refine ⟨?_, List.forall_mem_cons.2 ⟨name, hnames⟩, ?_,
        List.forall_mem_cons.2 ⟨hlead, hafter⟩⟩
      · rw [← htext]
        simp [Cut.render]
      · rintro p' hp' ⟨a, b, hab⟩
        have hl : l = a ++ (bracket p' ++ b) := by rw [← List.append_assoc, hab]
        have hle := first a p' (b ++ (bracket p ++ r)) hp' (by rw [hl]; simp)
        have hlength := congrArg List.length hl
        simp only [List.length_append, bracket, List.length_cons] at hlength
        omega
  · rintro ⟨rfl, names, lead, after⟩
    obtain ⟨l, rest⟩ := k
    induction rest generalizing l with
    | nil =>
      rw [Cut.render, List.flatMap_nil, List.append_nil]
      exact .none lead
    | cons p rest ih =>
      obtain ⟨name, stretch⟩ := p
      obtain ⟨hname, hnames⟩ := List.forall_mem_cons.1 names
      obtain ⟨hstretch, hafter⟩ := List.forall_mem_cons.1 after
      rw [render_cons]
      exact .found hname (fun l' p' r' hp' h => length_le_of_bare lead hp' h)
        (ih stretch hnames hstretch hafter)

/-! ## Texts in the places of placeholders -/

/-- The text that takes the place of a placeholder: what a row binds to the name, or else the
placeholder itself. -/
inductive Stands (row : Bindings) (p : List Char) : List Char → Prop
  | bound {v : String} (entry : (String.ofList p, v) ∈ row.entries) : Stands row p v.toList
  | free (unbound : String.ofList p ∉ row.keys) : Stands row p (bracket p)

theorem stands_value (row : Bindings) (p : List Char) : Stands row p (value row p) := by
  rw [value, Bindings.get?]
  cases h : row.entries.lookup (String.ofList p) with
  | none =>
    refine .free fun hkey => ?_
    obtain ⟨⟨k, v⟩, hentry, hk⟩ := List.mem_map.1 hkey
    obtain rfl : k = String.ofList p := hk
    rw [Bindings.lookup_of_mem row.nodup hentry] at h
    cases h
  | some v =>
    obtain ⟨before, after, hentries, -⟩ := List.lookup_eq_some_iff.1 h
    exact .bound (by rw [hentries]; simp)

/-- Every text is cut at its placeholders in one way only, which a search from the left finds too.
The names of that cut are the placeholders of the text, which holds one if there is any, and
substitution writes a text for each and nothing else anew. -/
theorem placeholders_decompose (text : String) :
    ∃ k : Cut, (∀ k' : Cut, Decomposes text.toList k' ↔ k' = k) ∧ Leftmost text.toList k ∧
      names text = k.rest.map (fun p => String.ofList p.1) ∧
      (occurs text = true ↔ 0 < k.rest.length) ∧
      ∀ row : Bindings, ∃ vs : List (List Char),
        List.Forall₂ (Stands row) (k.rest.map Prod.fst) vs ∧
          (substitute text row).toList =
            k.lead ++ (List.zipWith (fun v p => v ++ p.2) vs k.rest).flatten := by
  have hcut := decomposes_cut text.toList
  refine ⟨cut text.toList, fun _ => decomposes_iff, leftmost_iff.2 hcut, rfl, ?_, fun row => ?_⟩
  · cases h : (cut text.toList).rest <;> simp [occurs, h]
  · refine ⟨(cut text.toList).rest.map fun p => value row p.1, ?_, ?_⟩
    · rw [List.forall₂_map_left_iff, List.forall₂_map_right_iff, List.forall₂_same]
      exact fun p _ => stands_value row p.1
    · rw [substitute, String.toList_ofList, Cut.render, List.zipWith_map_left, List.zipWith_self,
        List.flatMap_def]

/-- Nested, empty, open and blank-led brackets, a name without a text, and a text that looks like a
placeholder itself. -/
theorem placeholders_decompose_nested :
    names "<<a>b> < c><><x y>d<" = ["a", "x y"] ∧
      substitute "<<a>b> < c><><x y>d<" (Bindings.ofList [("b", "1"), ("a", "<b>")]) =
        "<<b>b> < c><><x y>d<" ∧
      ∃ k : Cut, (∀ k' : Cut, Decomposes "<<a>b> < c><><x y>d<".toList k' ↔ k' = k) ∧
        ["a", "x y"] = k.rest.map fun p => String.ofList p.1 := by
  obtain ⟨k, hunique, -, hnames, -, -⟩ := placeholders_decompose "<<a>b> < c><><x y>d<"
  have hlist : names "<<a>b> < c><><x y>d<" = ["a", "x y"] := by decide +kernel
  exact ⟨hlist, by decide +kernel, k, hunique, hlist.symm.trans hnames⟩

end Gherkin.Placeholder
