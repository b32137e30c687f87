import Gherkin.Proofs.Placeholders

/-
  What substitution leaves of the placeholders of a text. Where a closing bracket stands between any
  two opening ones, a stretch before a placeholder has closed what it opens (`Apart.shut`), and what
  is written behind it makes no placeholder with it (`cut_append_of_shut`). A text without brackets
  that takes the place of a placeholder then takes that one away and changes no other
  (`names_substitute`). Without the condition a nested placeholder makes a new one.
-/

namespace Gherkin.Placeholder

/-! ## Brackets apart -/

/-- Between any two opening brackets stands a closing one. -/
def Apart (s : List Char) : Prop :=
  ∀ j < s.length, ∀ i < j, s[i]? = some '<' → s[j]? = some '<' →
    ∃ k < j, i < k ∧ s[k]? = some '>'

instance (s : List Char) : Decidable (Apart s) :=
  @Nat.decidableBallLT s.length _ fun _ _ => inferInstance

/-- Every opening bracket has a closing one behind it. -/
def Shut (s : List Char) : Prop := ∀ a b, s = a ++ '<' :: b → '>' ∈ b

theorem Apart.of_append {s t : List Char} (h : Apart (s ++ t)) : Apart t := by
  intro j hj i hi hopen hopen'
  have hshift (n : Nat) : (s ++ t)[s.length + n]? = t[n]? := by
    rw [List.getElem?_append_right (by omega), Nat.add_sub_cancel_left]
  obtain ⟨k, hk, hik, hclose⟩ := h (s.length + j) (by simp [hj]) (s.length + i) (by omega)
    ((hshift i).trans hopen) ((hshift j).trans hopen')
  obtain ⟨m, rfl⟩ := Nat.exists_eq_add_of_le (show s.length ≤ k by omega)
  exact ⟨m, by omega, by omega, (hshift m).symm.trans hclose⟩

/-- A stretch before an opening bracket has closed its own. -/
theorem Apart.shut {l t : List Char} (h : Apart (l ++ '<' :: t)) : Shut l := by
  rintro a b rfl
  rw [List.append_assoc] at h
  have hrest := h.of_append
  obtain ⟨k, hk, hpos, hclose⟩ := hrest (b.length + 1) (by simp) 0 (by omega) rfl (by simp)
  obtain ⟨m, rfl⟩ := Nat.exists_eq_add_of_le' hpos
  rw [List.cons_append, List.getElem?_cons_succ, List.getElem?_append_left (by omega)] at hclose
  exact List.mem_of_getElem? hclose

/-! ## Texts behind a stretch -/

/-- Whether a name stands in front is settled at the first closing bracket. -/
theorem name?_append_of_close {s : List Char} (hclose : '>' ∈ s) (hnone : name? s = none)
    (t : List Char) : name? (s ++ t) = none := by
  cases hname : name? (s ++ t) with
  | none => rfl
  | some pr =>
    obtain ⟨p, r⟩ := pr
    obtain ⟨hp, hst⟩ := name?_eq_some.1 hname
    have hlong : p.length < s.length := by
      by_contra hle
      have hs : s <+: p := List.prefix_of_prefix_length_le ⟨t, hst⟩ ⟨'>' :: r, rfl⟩ (by omega)
      exact (hp.plain '>' (hs.subset hclose)).2 rfl
    obtain ⟨r', rfl⟩ : p ++ ['>'] <+: s :=
      List.prefix_of_prefix_length_le ⟨r, by simp [hst]⟩ ⟨t, rfl⟩ (by rwa [List.length_append])
    have hfound : name? (p ++ ['>'] ++ r') = some (p, r') :=
      name?_eq_some.2 ⟨hp, by simp⟩
    rw [hfound] at hnone
    cases hnone

/-- A stretch that has closed its brackets makes no placeholder with what is behind it. -/
theorem cut_append_of_shut {l : List Char} (hl : Bare l) (hshut : Shut l) (s : List Char) :
    cut (l ++ s) = ⟨l ++ (cut s).lead, (cut s).rest⟩ := by
  induction l with
  | nil => rfl
  | cons c l ih =>
    have hcut := ih (hl.of_part (List.suffix_cons c l).isInfix)
      fun a b h => hshut (c :: a) b (by rw [h, List.cons_append])
    rw [List.cons_append]
    by_cases hc : c = '<'
    · subst hc
      -- the bracket is closed within the stretch, so what is behind it is not looked at
      have hnone : name? (cut (l ++ s)).lead = none := by
        rw [hcut]
        exact name?_append_of_close (hshut [] l rfl) (name?_eq_none hl) _
      rw [cut_open_of_none hnone, hcut, List.cons_append]
    · rw [cut_cons_of_ne hc, hcut, List.cons_append]

/-! ## Placeholders after substitution -/

/-- No text of the row holds a bracket. -/
def Bracketless (row : Bindings) : Prop := ∀ v ∈ row.values, ∀ c ∈ v.toList, c ≠ '<' ∧ c ≠ '>'

theorem names_ofList (s : List Char) :
    names (String.ofList s) = (cut s).rest.map fun p => String.ofList p.1 := by
  rw [names, String.toList_ofList]

/-- A placeholder goes where its name is bound and stays where it is not. -/
theorem names_value_append {row : Bindings} (hrow : Bracketless row) {p : List Char}
    (hp : IsName p) (s : List Char) : names (String.ofList (value row p ++ s)) =
      [String.ofList p].filter (· ∉ row.keys) ++ names (String.ofList s) := by
  have hstands := stands_value row p
  rw [names_ofList, names_ofList]
  generalize value row p = put at hstands ⊢
  cases hstands with
  | @bound v entry =>
    have hv : v ∈ row.values := List.mem_map.2 ⟨_, entry, rfl⟩
    have hkey : String.ofList p ∈ row.keys := List.mem_map.2 ⟨_, entry, rfl⟩
    rw [cut_append_of_plain (fun c hc => (hrow v hv c hc).1) s]
    simp [hkey]
  | free unbound =>
    rw [cut_bracket hp s]
    simp [unbound]

theorem names_render {row : Bindings} (hrow : Bracketless row) {lead : List Char}
    {rest : List (List Char × List Char)} (hnames : ∀ p ∈ rest, IsName p.1) (hlead : Bare lead)
    (hafter : ∀ p ∈ rest, Bare p.2) (apart : Apart (Cut.render bracket ⟨lead, rest⟩)) :
    names (String.ofList (Cut.render (value row) ⟨lead, rest⟩)) =
      (rest.map fun p => String.ofList p.1).filter (· ∉ row.keys) := by
  induction rest generalizing lead with
  | nil =>
    rw [names_ofList, Cut.render, List.flatMap_nil, cut_append_of_bare hlead rfl]
    rfl
  | cons p rest ih =>
    obtain ⟨name, stretch⟩ := p
    obtain ⟨hname, hnames⟩ := List.forall_mem_cons.1 hnames
    obtain ⟨hstretch, hafter⟩ := List.forall_mem_cons.1 hafter
    rw [render_cons] at apart ⊢
    have hrest := ih hnames hstretch hafter (Apart.of_append apart.of_append)
    have hshut : Shut lead := apart.shut
    have hvalue := names_value_append hrow hname (Cut.render (value row) ⟨stretch, rest⟩)
    rw [names_ofList] at hvalue
    rw [names_ofList, cut_append_of_shut hlead hshut, hvalue, hrest, ← List.filter_append]
    rfl

/-- A text none of whose placeholders is bound stays as it is. -/
theorem substitute_of_free {text : String} {row : Bindings} (h : ∀ n ∈ names text, n ∉ row.keys) :
    substitute text row = text := by
  have hrender : (cut text.toList).render (value row) = (cut text.toList).render bracket := by
    rw [Cut.render, Cut.render]
    congr 1
    refine List.flatMap_congr fun pr hp => ?_
    obtain ⟨p, after⟩ := pr
    have hfree : String.ofList p ∉ row.keys := h _ (List.mem_map.2 ⟨_, hp, rfl⟩)
    have hstands := stands_value row p
    show value row p ++ after = bracket p ++ after
    generalize value row p = put at hstands ⊢
    cases hstands with
    | bound entry => exact absurd (List.mem_map.2 ⟨_, entry, rfl⟩) hfree
    | free => rfl
  rw [substitute, hrender, show (cut text.toList).render bracket = text.toList from render_cut _,
    String.ofList_toList]

theorem occurs_eq_false_of_names {text : String} (h : names text = []) : occurs text = false := by
  rw [names, List.map_eq_nil_iff] at h
  rw [occurs, h]
  rfl

/-- Where a closing bracket stands between any two opening ones, a row whose texts hold no bracket
takes away exactly the placeholders whose names it binds. Substituting the same row again changes
nothing, and a row that binds every name leaves no placeholder. -/
theorem names_substitute (text : String) (row : Bindings) (apart : Apart text.toList)
    (bracketless : Bracketless row) :
    names (substitute text row) = (names text).filter (· ∉ row.keys) ∧
      substitute (substitute text row) row = substitute text row ∧
      ((∀ n ∈ names text, n ∈ row.keys) → occurs (substitute text row) = false) := by
  obtain ⟨htext, hnames, hlead, hafter⟩ := decomposes_cut text.toList
  have hleft : names (substitute text row) = (names text).filter (· ∉ row.keys) :=
    names_render bracketless hnames hlead hafter (by rwa [← htext] at apart)
  refine ⟨hleft, substitute_of_free fun n hn => ?_, fun hall => occurs_eq_false_of_names ?_⟩
  · rw [hleft] at hn
    simpa using (List.mem_filter.1 hn).2
  · rw [hleft]
    exact List.filter_eq_nil_iff.2 fun n hn => by simpa using hall n hn

/-- Empty and blank values, brackets around nothing or a blank, and a name that is not bound. -/
theorem names_substitute_blank :
    Apart "<><a>< ><b><c><d".toList ∧ Bracketless (Bindings.ofList [("a", ""), ("b", " \n")]) ∧
      names (substitute "<><a>< ><b><c><d" (Bindings.ofList [("a", ""), ("b", " \n")])) = ["c"] ∧
      substitute "<>< > \n<c><d" (Bindings.ofList [("a", ""), ("b", " \n")]) = "<>< > \n<c><d" := by
  have hapart : Apart "<><a>< ><b><c><d".toList := by decide +kernel
  have hvalues : (Bindings.ofList [("a", ""), ("b", " \n")]).values = ["", " \n"] := by
    decide +kernel
  have hrow : Bracketless (Bindings.ofList [("a", ""), ("b", " \n")]) := by
    rw [Bracketless, hvalues]
    simp
  obtain ⟨hnames, hagain, -⟩ := names_substitute "<><a>< ><b><c><d" _ hapart hrow
  have honce : substitute "<><a>< ><b><c><d" (Bindings.ofList [("a", ""), ("b", " \n")]) =
      "<>< > \n<c><d" := by decide +kernel
  refine ⟨hapart, hrow, hnames.trans (by decide +kernel), ?_⟩
  rwa [honce] at hagain

example : names (substitute "<<a>b>" (Bindings.ofList [("a", "x")])) = ["xb"] := by decide +kernel

end Gherkin.Placeholder
