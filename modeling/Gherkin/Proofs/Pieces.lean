import Gherkin.Proofs.Acceptance

/-
  Texts in pieces. A text that is cut after a line end has the lines of its pieces, one after the
  other (`lines_append`), and every cut between two lines is one of its texts (`exists_cut_lines`).
  The reader goes on in the second piece where it stopped in the first (`itemsFrom_eq`), with other
  line numbers than at the start of a text but the same kinds (`readLines_alike`), if no doc string
  is open at the cut; the fences before it decide that (`isSome_fenceAfter`).
-/

namespace Gherkin.Text

/-! ## Lines -/

/-- The text is empty or its last line is ended, so a text after it begins a new line. -/
def Ended (s : List Char) : Prop := ∀ c ∈ s.getLast?, c = '\n'

instance (s : List Char) : Decidable (Ended s) := Option.decidableForallMem s.getLast?

/-- The first `n` lines of a text, with their line ends. -/
def firstLines : Nat → List Char → List Char
  | 0, _ => []
  | _ + 1, [] => []
  | n + 1, c :: r => c :: if c = '\n' then firstLines n r else firstLines (n + 1) r

theorem Ended.of_cons {c : Char} {s : List Char} (h : Ended (c :: s)) : Ended s := by
  cases s with
  | nil => simp [Ended]
  | cons d s => simpa [Ended, List.getLast?_cons_cons] using h

theorem ended_cons {c : Char} {s : List Char} (hc : s = [] → c = '\n') (h : Ended s) :
    Ended (c :: s) := by
  cases s with
  | nil => simpa [Ended] using hc
  | cons d s => simpa [Ended, List.getLast?_cons_cons] using h

theorem lines_crlf (r : List Char) : lines ('\r' :: '\n' :: r) = [] :: lines r := by simp [lines]

/-- A character that does not begin a line end stands on the first line. -/
theorem lines_cons {c : Char} {r : List Char} (hn : c ≠ '\n')
    (hr : ∀ s, c = '\r' → r ≠ '\n' :: s) :
    lines (c :: r) = (c :: (lines r).headD []) :: (lines r).tail := by
  rw [lines.eq_4 c r hn hr]
  cases lines r <;> rfl

theorem lines_eq_nil {s : List Char} : lines s = [] ↔ s = [] := by
  constructor
  · intro h
    cases s with
    | nil => rfl
    | cons c r =>
      unfold lines at h
      split at h
      · contradiction
      · cases h
      · cases h
      · split at h <;> cases h
  · rintro rfl
    exact lines_nil

/-- The lines of a text whose pieces are cut after a line end. -/
theorem lines_append {s : List Char} (hs : Ended s) (t : List Char) :
    lines (s ++ t) = lines s ++ lines t := by
  induction s using lines.induct with
  | case1 => rw [lines_nil, List.nil_append, List.nil_append]
  | case2 r ih => rw [List.cons_append, lines_newline, lines_newline, ih hs.of_cons]; rfl
  | case3 r ih =>
    rw [List.cons_append, List.cons_append, lines_crlf, lines_crlf, ih hs.of_cons.of_cons]
    rfl
  | case4 c r hn hr he ih =>
    obtain rfl := lines_eq_nil.1 he
    exact (hn (hs c rfl)).elim
  | case5 c r hn hr l ls he ih =>
    have hr' : ∀ s, c = '\r' → r ++ t ≠ '\n' :: s := by
      cases r with
      | nil => simp [lines] at he
      | cons d r =>
        rintro s rfl e
        obtain ⟨rfl, -⟩ := List.cons.inj e
        exact hr r rfl rfl
    rw [List.cons_append, lines_cons hn hr', lines_cons hn hr, ih hs.of_cons, he]
    rfl

theorem lines_firstLines (n : Nat) (s : List Char) :
    lines (firstLines n s) = (lines s).take n := by
  induction s using lines.induct generalizing n with
  | case1 => cases n <;> simp [firstLines, lines]
  | case2 r ih =>
    cases n with
    | zero => exact lines_nil
    | succ n => rw [firstLines, if_pos rfl, lines_newline, lines_newline, ih, List.take_succ_cons]
  | case3 r ih =>
    cases n with
    | zero => exact lines_nil
    | succ n =>
      rw [firstLines, if_neg (by decide), firstLines, if_pos rfl, lines_crlf, lines_crlf, ih,
        List.take_succ_cons]
  | case4 c r hn hr he ih =>
    obtain rfl := lines_eq_nil.1 he
    cases n with
    | zero => exact lines_nil
    | succ n => rw [firstLines, if_neg hn, firstLines, lines_cons hn hr]; simp [lines]
  | case5 c r hn hr l ls he ih =>
    cases n with
    | zero => exact lines_nil
    | succ n =>
      have hr' : ∀ s, c = '\r' → firstLines (n + 1) r ≠ '\n' :: s := by
        cases r with
        | nil => simp [firstLines]
        | cons d r =>
          rintro s rfl e
          obtain ⟨rfl, -⟩ := List.cons.inj e
          exact hr r rfl rfl
      rw [firstLines, if_neg hn, lines_cons hn hr', lines_cons hn hr, ih, he]
      rfl

theorem exists_append_firstLines (n : Nat) (s : List Char) : ∃ t, s = firstLines n s ++ t := by
  induction s generalizing n with
  | nil => exact ⟨[], by cases n <;> rfl⟩
  | cons c r ih =>
    cases n with
    | zero => exact ⟨c :: r, rfl⟩
    | succ n =>
      rw [firstLines]
      split
      · obtain ⟨t, ht⟩ := ih n
        exact ⟨t, congrArg (c :: ·) ht⟩
      · obtain ⟨t, ht⟩ := ih (n + 1)
        exact ⟨t, congrArg (c :: ·) ht⟩

theorem ended_firstLines {n : Nat} {s : List Char} (h : n < (lines s).length) :
    Ended (firstLines n s) := by
  induction s using lines.induct generalizing n with
  | case1 => simp [lines] at h
  | case2 r ih =>
    cases n with
    | zero => simp [firstLines, Ended]
    | succ n =>
      rw [lines_newline, List.length_cons] at h
      rw [firstLines, if_pos rfl]
      exact ended_cons (fun _ => rfl) (ih (by omega))
  | case3 r ih =>
    cases n with
    | zero => simp [firstLines, Ended]
    | succ n =>
      rw [lines_crlf, List.length_cons] at h
      rw [firstLines, if_neg (by decide), firstLines, if_pos rfl]
      exact ended_cons (by simp) (ended_cons (fun _ => rfl) (ih (by omega)))
  | case4 c r hn hr he ih =>
    obtain rfl := lines_eq_nil.1 he
    cases n with
    | zero => simp [firstLines, Ended]
    | succ n => rw [lines_cons hn hr] at h; simp [lines] at h
  | case5 c r hn hr l ls he ih =>
    cases n with
    | zero => simp [firstLines, Ended]
    | succ n =>
      rw [lines_cons hn hr, List.length_cons, List.length_tail, he, List.length_cons] at h
      rw [firstLines, if_neg hn]
      refine ended_cons (fun e => ?_) (ih (by rw [he, List.length_cons]; omega))
      have hnil := lines_firstLines (n + 1) r
      rw [e, he, lines_nil, List.take_succ_cons] at hnil
      cases hnil

/-- A text can be cut between any two of its lines. -/
theorem exists_cut_lines {s : List Char} {as bs : List (List Char)} (h : lines s = as ++ bs)
    (hb : bs ≠ []) : ∃ t u, s = t ++ u ∧ Ended t ∧ lines t = as ∧ lines u = bs := by
  obtain ⟨u, hu⟩ := exists_append_firstLines as.length s
  have hlength : as.length < (lines s).length := by
    rw [h, List.length_append]
    exact Nat.lt_add_of_pos_right (List.length_pos_of_ne_nil hb)
  have hended := ended_firstLines hlength
  have hfirst : lines (firstLines as.length s) = as := by
    rw [lines_firstLines, h, List.take_left]
  refine ⟨_, u, hu, hended, hfirst, ?_⟩
  have hall := lines_append hended u
  rw [← hu, h, hfirst] at hall
  exact (List.append_cancel_left hall).symm

end Gherkin.Text

namespace Gherkin.Reader

open Line

/-! ## Reading line by line -/

/-- The items of lines, one each. -/
def readLines (last : Nat) (fence : Option Fence) : List (List Char) → List Item
  | [] => []
  | raw :: rest =>
    (read fence (last + 1) raw).1 :: readLines (last + 1) (read fence (last + 1) raw).2 rest

/-- The doc string that is open after lines. -/
def fenceAfter (last : Nat) (fence : Option Fence) : List (List Char) → Option Fence
  | [] => fence
  | raw :: rest => fenceAfter (last + 1) (read fence (last + 1) raw).2 rest

/-- One item per line, and one more if a doc string is open at the end. -/
theorem itemsFrom_eq (last : Nat) (fence : Option Fence) (raws : List (List Char)) :
    itemsFrom last fence raws = readLines last fence raws ++
      (fenceAfter last fence raws).toList.map fun f => .error ⟨f.line, .fenceUnclosed⟩ := by
  induction raws generalizing last fence with
  | nil => cases fence <;> rfl
  | cons raw raws ih => exact congrArg _ (ih _ _)

theorem readLines_append (last : Nat) (fence : Option Fence) (as bs : List (List Char)) :
    readLines last fence (as ++ bs) = readLines last fence as ++
      readLines (last + as.length) (fenceAfter last fence as) bs := by
  induction as generalizing last fence with
  | nil => rfl
  | cons a as ih =>
    rw [List.cons_append, readLines, ih, List.length_cons, Nat.add_comm as.length, ← Nat.add_assoc]
    rfl

theorem fenceAfter_append (last : Nat) (fence : Option Fence) (as bs : List (List Char)) :
    fenceAfter last fence (as ++ bs) =
      fenceAfter (last + as.length) (fenceAfter last fence as) bs := by
  induction as generalizing last fence with
  | nil => rfl
  | cons a as ih =>
    rw [List.cons_append, fenceAfter, ih, List.length_cons, Nat.add_comm as.length, ← Nat.add_assoc]
    rfl

theorem itemsFrom_append (last : Nat) (fence : Option Fence) (as bs : List (List Char)) :
    itemsFrom last fence (as ++ bs) = readLines last fence as ++
      itemsFrom (last + as.length) (fenceAfter last fence as) bs := by
  rw [itemsFrom_eq, itemsFrom_eq, readLines_append, fenceAfter_append, List.append_assoc]

theorem length_readLines (last : Nat) (fence : Option Fence) (raws : List (List Char)) :
    (readLines last fence raws).length = raws.length := by
  induction raws generalizing last fence with
  | nil => rfl
  | cons raw raws ih => exact congrArg (· + 1) (ih _ _)

/-- Nothing but lines is read exactly if every line is one and no doc string is open after them. -/
theorem itemsFrom_eq_map_ok_iff {last : Nat} {fence : Option Fence} {raws : List (List Char)}
    {ls : List Line} : itemsFrom last fence raws = ls.map .ok ↔
      readLines last fence raws = ls.map .ok ∧ fenceAfter last fence raws = none := by
  rw [itemsFrom_eq]
  cases h : fenceAfter last fence raws with
  | none => simp
  | some f =>
    simp only [Option.toList_some, List.map_cons, List.map_nil, reduceCtorEq, and_false, iff_false]
    intro e
    have hlast := List.mem_append_right (readLines last fence raws)
      (List.mem_singleton.2 (rfl : (Except.error ⟨f.line, .fenceUnclosed⟩ : Item) = _))
    rw [e] at hlast
    obtain ⟨l, -, hl⟩ := List.mem_map.1 hlast
    cases hl

/-! ## Line numbers do not matter -/

/-- What a line is hangs on the indentation of the open fence only. -/
theorem classify_alike {f g : Option Fence} (h : f.map Fence.indent = g.map Fence.indent)
    (n m : Nat) (raw : List Char) : (classify f n raw).1 = (classify g m raw).1 ∧
      (classify f n raw).2.map Fence.indent = (classify g m raw).2.map Fence.indent := by
  cases f with
  | none =>
    obtain rfl : g = none := by simpa using h.symm
    refine ⟨rfl, ?_⟩
    simp only [classify]
    split <;> rfl
  | some f =>
    obtain ⟨g', rfl, hg⟩ := Option.map_eq_some_iff.1 h.symm
    simp only [classify]
    split
    · exact ⟨rfl, rfl⟩
    · rw [hg]
      exact ⟨rfl, h⟩

theorem readLines_alike {f g : Option Fence} (h : f.map Fence.indent = g.map Fence.indent)
    {n : Nat} {raws : List (List Char)} {ls : List Line} (m : Nat)
    (hls : readLines n f raws = ls.map .ok) :
    (∃ ks : List Line, readLines m g raws = ks.map .ok ∧
        ks.map Line.kind = ls.map Line.kind) ∧
      (fenceAfter m g raws).map Fence.indent = (fenceAfter n f raws).map Fence.indent := by
  induction raws generalizing n m f g ls with
  | nil =>
    obtain rfl := List.map_eq_nil_iff.1 hls.symm
    exact ⟨⟨[], rfl, rfl⟩, h.symm⟩
  | cons raw raws ih =>
    cases ls with
    | nil => cases hls
    | cons l ls =>
      obtain ⟨hl, hrest⟩ := List.cons.inj hls
      obtain ⟨hkind, hfence⟩ := classify_alike h (n + 1) (m + 1) raw
      rcases hf : classify f (n + 1) raw with ⟨result, after⟩
      rcases hg : classify g (m + 1) raw with ⟨result', after'⟩
      rw [hf, hg] at hkind hfence
      obtain rfl : result = result' := hkind
      cases result with
      | error e => simp [read, hf] at hl
      | ok k =>
        simp only [read, hf, Except.ok.injEq] at hl hrest
        obtain ⟨⟨ks, hks, hkinds⟩, hafter⟩ := ih hfence (m + 1) hrest
        simp only [readLines, fenceAfter, read, hf, hg]
        exact ⟨⟨⟨m + 1, k⟩ :: ks, by rw [hks, List.map_cons], by rw [List.map_cons, List.map_cons,
          hkinds, ← hl]⟩, hafter⟩

/-! ## Where a doc string is open -/

/-- Whether a doc string is open after lines of these kinds. -/
def opened (inside : Bool) : List Kind → Bool
  | [] => inside
  | .fence :: ks => opened (!inside) ks
  | _ :: ks => opened inside ks

theorem opened_append (inside : Bool) (ks ms : List Kind) :
    opened inside (ks ++ ms) = opened (opened inside ks) ms := by
  induction ks generalizing inside with
  | nil => rfl
  | cons k ks ih => cases k <;> exact ih _

theorem opened_cons {k : Kind} (hk : k ≠ .fence) (inside : Bool) (ks : List Kind) :
    opened inside (k :: ks) = opened inside ks := by
  cases k <;> first | rfl | exact absurd rfl hk

theorem opened_significant (inside blank : Bool) (ls : List Line) :
    opened inside (Grammar.kinds (Grammar.significant blank ls)) =
      opened inside (ls.map Line.kind) := by
  induction ls generalizing inside blank with
  | nil => rfl
  | cons l ls ih =>
    rw [List.map_cons]
    unfold Grammar.significant
    split
    · rename_i hk
      rw [hk]
      exact ih inside true
    · rename_i hk
      rw [hk]
      exact ih inside blank
    · rw [Grammar.kinds_cons]
      show opened inside (l.kind :: _) = opened inside (l.kind :: _)
      cases l.kind <;> exact ih _ _

theorem isSome_of_classify {fence after : Option Fence} {n : Nat} {raw : List Char} {k : Kind}
    (h : classify fence n raw = (.ok k, after)) :
    after.isSome = opened fence.isSome [k] := by
  unfold classify at h
  by_cases hf : Text.trim raw = fenceMark
  · cases fence with
    | some o =>
      simp only [hf, if_true, Prod.mk.injEq, Except.ok.injEq] at h
      obtain ⟨rfl, rfl⟩ := h
      rfl
    | none =>
      simp only [hf, if_true, Prod.mk.injEq] at h
      obtain ⟨hk, rfl⟩ := h
      obtain rfl := Except.ok.inj hk
      rfl
  · cases fence with
    | some o =>
      simp only [if_neg hf, Prod.mk.injEq, Except.ok.injEq] at h
      obtain ⟨rfl, rfl⟩ := h
      rfl
    | none =>
      simp only [if_neg hf, Prod.mk.injEq] at h
      obtain ⟨hk, rfl⟩ := h
      rw [opened_cons]
      · rfl
      · rintro rfl
        exact hf (eq_fenceMark_of_ofContent hk)

/-- The fences among lines that were read tell whether a doc string is open after them. -/
theorem isSome_fenceAfter {last : Nat} {fence : Option Fence} {raws : List (List Char)}
    {ls : List Line} (h : readLines last fence raws = ls.map .ok) :
    (fenceAfter last fence raws).isSome = opened fence.isSome (ls.map Line.kind) := by
  induction raws generalizing last fence ls with
  | nil =>
    obtain rfl := List.map_eq_nil_iff.1 h.symm
    rfl
  | cons raw raws ih =>
    cases ls with
    | nil => cases h
    | cons l ls =>
      obtain ⟨hl, hrest⟩ := List.cons.inj h
      rcases hc : classify fence (last + 1) raw with ⟨result, after⟩
      cases result with
      | error e => simp [read, hc] at hl
      | ok k =>
        simp only [read, hc, Except.ok.injEq] at hl hrest
        have hk : (l :: ls).map Line.kind = [k] ++ ls.map Line.kind := by rw [← hl]; rfl
        rw [fenceAfter, read, hc, hk, opened_append, ← isSome_of_classify hc]
        exact ih hrest

end Gherkin.Reader

namespace Gherkin

open Grammar Reader

/-! ## Significant lines of pieces -/

namespace Grammar

/-- Whether a blank line stands after the last significant one of these lines. -/
def blankAfter (blank : Bool) : List Line → Bool
  | [] => blank
  | l :: ls =>
    match l.kind with
    | .blank => blankAfter true ls
    | .comment => blankAfter blank ls
    | _ => blankAfter false ls

theorem significant_append (blank : Bool) (as bs : List Line) :
    significant blank (as ++ bs) =
      significant blank as ++ significant (blankAfter blank as) bs := by
  induction as generalizing blank with
  | nil => rfl
  | cons a as ih =>
    cases hk : a.kind <;> simp only [List.cons_append, significant, blankAfter, hk, ih]

/-- Significant lines are cut where the lines are, directly after the last one of the first part. -/
theorem exists_append_of_significant {blank : Bool} {ls : List Line} {as bs : List Significant}
    (h : significant blank ls = as ++ bs) (ha : as ≠ []) :
    ∃ ks ms, ls = ks ++ ms ∧ significant blank ks = as ∧ significant false ms = bs := by
  induction ls generalizing blank as with
  | nil => exact absurd (List.append_eq_nil_iff.1 h.symm).1 ha
  | cons l ls ih =>
    unfold significant at h
    split at h
    · rename_i hk
      obtain ⟨ks, ms, rfl, has, hbs⟩ := ih h ha
      exact ⟨l :: ks, ms, rfl, by simp only [significant, hk, has], hbs⟩
    · rename_i hk
      obtain ⟨ks, ms, rfl, has, hbs⟩ := ih h ha
      exact ⟨l :: ks, ms, rfl, by simp only [significant, hk, has], hbs⟩
    · rename_i hb hc
      cases as with
      | nil => exact absurd rfl ha
      | cons a as =>
        obtain ⟨rfl, hrest⟩ := List.cons.inj h
        by_cases hnil : as = []
        · subst hnil
          exact ⟨[l], ls, rfl, significant_cons hb hc blank [], hrest⟩
        · obtain ⟨ks, ms, rfl, has, hbs⟩ := ih hrest hnil
          exact ⟨l :: ks, ms, rfl, by rw [significant_cons hb hc, has], hbs⟩

/-- A blank line before lines is marked on the first significant one. -/
theorem significant_of_cons {l : Significant} {ls : List Line} {ms : List Significant}
    (h : significant false ls = l :: ms) (blank : Bool) :
    ∃ b, significant blank ls = ⟨l.line, b⟩ :: ms := by
  cases blank with
  | false => exact ⟨l.afterBlank, h⟩
  | true =>
    induction ls with
    | nil => cases h
    | cons k ls ih =>
      unfold significant at h ⊢
      split at h
      · exact ⟨l.afterBlank, h⟩
      · exact ih h
      · obtain ⟨rfl, rfl⟩ := List.cons.inj h
        exact ⟨true, rfl⟩

end Grammar

/-! ## Reading pieces -/

theorem reads_iff {text : String} {ls : List Line} :
    Reads text ls ↔ readLines 0 none (Text.lines text.toList) = ls.map .ok ∧
      fenceAfter 0 none (Text.lines text.toList) = none :=
  itemsFrom_eq_map_ok_iff

/-- A text that is cut after a line end is read piece by piece. -/
theorem Reads.append {t u : String} {ks ms : List Line} (hended : Text.Ended t.toList)
    (ht : Reads t ks) (hu : Reads u ms) :
    ∃ ns : List Line, Reads (t ++ u) (ks ++ ns) ∧ ns.map Line.kind = ms.map Line.kind := by
  obtain ⟨htlines, htfence⟩ := reads_iff.1 ht
  obtain ⟨hulines, hufence⟩ := reads_iff.1 hu
  obtain ⟨⟨ns, hns, hkinds⟩, hafter⟩ := readLines_alike (g := none) rfl
    (0 + (Text.lines t.toList).length) hulines
  refine ⟨ns, reads_iff.2 ?_, hkinds⟩
  rw [String.toList_append, Text.lines_append hended, readLines_append, fenceAfter_append, htlines,
    htfence, hns, List.map_append]
  refine ⟨rfl, ?_⟩
  rw [hufence] at hafter
  simpa using hafter

/-- A text is cut into pieces that are read on their own wherever no doc string is open. -/
theorem Reads.exists_cut {text : String} {ks ms : List Line} (h : Reads text (ks ++ ms))
    (hms : ms ≠ []) (closed : opened false (ks.map Line.kind) = false) :
    ∃ t u : String, text = t ++ u ∧ Text.Ended t.toList ∧ Reads t ks ∧
      ∃ ns : List Line, Reads u ns ∧ ns.map Line.kind = ms.map Line.kind := by
  obtain ⟨hlines, hfence⟩ := reads_iff.1 h
  generalize hraws : Text.lines text.toList = raws at hlines hfence
  have hlength : raws.length = ks.length + ms.length := by
    rw [← length_readLines 0 none raws, hlines, List.length_map, List.length_append]
  obtain ⟨as, bs, rfl, has⟩ : ∃ as bs, raws = as ++ bs ∧ as.length = ks.length :=
    ⟨raws.take ks.length, raws.drop ks.length, (List.take_append_drop _ _).symm, by simp; omega⟩
  rw [readLines_append, List.map_append] at hlines
  obtain ⟨hks, hms'⟩ := List.append_inj hlines (by rw [length_readLines, has, List.length_map])
  have hopen : fenceAfter 0 none as = none := by
    have := isSome_fenceAfter hks
    rw [Option.isSome_none, closed] at this
    simpa using this
  rw [fenceAfter_append, hopen] at hfence
  rw [hopen] at hms'
  have hbs : bs ≠ [] := by
    rintro rfl
    exact hms (List.map_eq_nil_iff.1 hms'.symm)
  obtain ⟨t, u, htext, hended, ht, hu⟩ := Text.exists_cut_lines hraws hbs
  obtain ⟨⟨ns, hns, hkinds⟩, hafter⟩ := readLines_alike (g := none) rfl 0 hms'
  refine ⟨String.ofList t, String.ofList u, ?_, ?_, reads_iff.2 ?_, ns, reads_iff.2 ?_, hkinds⟩
  · rw [← String.ofList_append, ← htext, String.ofList_toList]
  · rwa [String.toList_ofList]
  · rw [String.toList_ofList, ht]
    exact ⟨hks, hopen⟩
  · rw [String.toList_ofList, hu]
    rw [hfence] at hafter
    exact ⟨hns, by simpa using hafter⟩

end Gherkin
