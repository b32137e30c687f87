import Gherkin.Proofs.Pieces

/-
  How a line is spelled. Every well-formed kind has a spelling that is read as that kind again
  (`ofContent_spell`): cells escape what would end them, and the parts of a line stand apart by one
  space. A sequence of kinds that can follow one another and closes its doc strings is then the
  sequence of kinds of a text (`exists_reads`).
-/

namespace Gherkin.Text

/-! ## Trimmed texts -/

theorem length_trim_le (s : List Char) : (trim s).length ≤ s.length := by
  obtain ⟨v, w, hs, -, -⟩ := exists_trim s
  have hlength := congrArg List.length hs
  simp only [List.length_append] at hlength
  omega

theorem trim_eq_self_iff {s : List Char} : trim s = s ↔
    (∀ c ∈ s.head?, isBlank c = false) ∧ ∀ c ∈ s.getLast?, isBlank c = false := by
  constructor
  · intro h
    refine ⟨fun c hc => ?_, fun c hc => ?_⟩
    · obtain ⟨r, rfl⟩ := List.head?_eq_some_iff.1 hc
      by_contra hblank
      have hskip := trim_append_left (w := [c]) (by simpa [Blanks] using hblank) r
      have hlength := length_trim_le r
      rw [List.singleton_append, h] at hskip
      rw [← hskip, List.length_cons] at hlength
      omega
    · obtain ⟨r, rfl⟩ := List.getLast?_eq_some_iff.1 hc
      by_contra hblank
      cases eq_nil_of_trim_append (by simpa [Blanks] using hblank) h
  · rintro ⟨hfirst, hlast⟩
    have hstart : trimStart s = s := by
      cases s with
      | nil => rfl
      | cons c s => exact List.dropWhile_cons_of_neg (by simp [hfirst c rfl])
    rw [trim, hstart]
    exact List.rdropWhile_eq_self_iff.2 fun hs => by
      simp [hlast _ (List.getLast?_eq_some_getLast hs)]

/-- A text between two trimmed ones is trimmed with them. -/
theorem trim_append {s t : List Char} (w : List Char) (hs : trim s = s) (ht : trim t = t)
    (hs' : s ≠ []) (ht' : t ≠ []) : trim (s ++ w ++ t) = s ++ w ++ t := by
  obtain ⟨hfirst, -⟩ := trim_eq_self_iff.1 hs
  obtain ⟨-, hlast⟩ := trim_eq_self_iff.1 ht
  refine trim_eq_self_iff.2 ⟨fun c hc => hfirst c ?_, fun c hc => hlast c ?_⟩
  · cases s with
    | nil => exact absurd rfl hs'
    | cons d s => exact hc
  · rw [List.getLast?_append_of_ne_nil _ ht'] at hc
    exact hc

/-! ## Words -/

/-- A word that a blank or the end of the text follows. -/
theorem words_append {w s : List Char} (hw : ∀ c ∈ w, isBlank c = false) (hne : w ≠ [])
    (hs : ∀ c ∈ s.head?, isBlank c = true) : words (w ++ s) = w :: words s := by
  induction w with
  | nil => exact absurd rfl hne
  | cons c w ih =>
    obtain ⟨hc, hrest⟩ := List.forall_mem_cons.1 hw
    rw [List.cons_append, words, if_neg (by simp [hc])]
    cases w with
    | nil =>
      cases s with
      | nil => rfl
      | cons d s => rw [List.nil_append, if_pos (by simpa using hs d rfl)]
    | cons d w =>
      have hd : isBlank d = false := hrest d List.mem_cons_self
      rw [if_neg (by simp [hd]), ih hrest (List.cons_ne_nil _ _)]
      rfl

/-! ## Lines -/

/-- Lines, each with a line end. -/
def unlines (raws : List (List Char)) : List Char := raws.flatMap fun raw => raw ++ ['\r', '\n']

/-- A carriage return at the end of a line is not taken for a part of the line end. -/
theorem lines_crlf_append {raw : List Char} (h : '\n' ∉ raw) :
    lines (raw ++ ['\r', '\n']) = [raw] := by
  induction raw with
  | nil => rw [List.nil_append, lines_crlf, lines_nil]
  | cons c r ih =>
    rw [List.mem_cons, not_or] at h
    have hr : ∀ s, c = '\r' → r ++ ['\r', '\n'] ≠ '\n' :: s := by
      rintro s - e
      cases r with
      | nil => cases e
      | cons d r =>
        obtain ⟨rfl, -⟩ := List.cons.inj e
        exact h.2 List.mem_cons_self
    rw [List.cons_append, lines_cons (Ne.symm h.1) hr, ih h.2]
    rfl

theorem lines_unlines {raws : List (List Char)} (h : ∀ raw ∈ raws, '\n' ∉ raw) :
    lines (unlines raws) = raws := by
  induction raws with
  | nil => exact lines_nil
  | cons raw raws ih =>
    obtain ⟨hraw, hrest⟩ := List.forall_mem_cons.1 h
    have hended : Ended (raw ++ ['\r', '\n']) := by simp [Ended]
    rw [unlines, List.flatMap_cons, lines_append hended, lines_crlf_append hraw, ← unlines,
      ih hrest]
    rfl

end Gherkin.Text

namespace Gherkin.Row

/-! ## Cells -/

/-- How a character of a cell is written. -/
def escape : Char → List Char
  | '|' => ['\\', '|']
  | '\\' => ['\\', '\\']
  | '\n' => ['\\', 'n']
  | c => [c]

theorem cellsAfterPipe_escape (c : Char) (s : List Char) :
    cellsAfterPipe (escape c ++ s) = (cellsAfterPipe s).map (extend [c]) := by
  unfold escape
  split
  · rfl
  · rfl
  · rfl
  · rename_i hpipe hbackslash _
    rw [List.singleton_append, cellsAfterPipe]
    · exact fun e => absurd e hpipe
    · exact hpipe
    · exact fun _ _ e => absurd e hbackslash

/-- What is written of a cell stands before the first cell of the rest. -/
theorem cellsAfterPipe_cell (cell : List Char) {s first : List Char} {more : List (List Char)}
    (h : cellsAfterPipe s = some (first :: more)) :
    cellsAfterPipe (cell.flatMap escape ++ s) = some ((cell ++ first) :: more) := by
  induction cell with
  | nil => exact h
  | cons c cell ih =>
    rw [List.flatMap_cons, List.append_assoc, cellsAfterPipe_escape, ih]
    rfl

theorem cellsAfterPipe_pipe {s : List Char} (h : s ≠ []) :
    cellsAfterPipe ('|' :: s) = (cellsAfterPipe s).map ([] :: ·) := by
  rw [cellsAfterPipe]
  exact h

/-- The cells of a row after its first pipe. -/
def write (cells : List (List Char)) : List Char :=
  ['|'].intercalate (cells.map (List.flatMap escape)) ++ ['|']

theorem cellsAfterPipe_write {cells : List (List Char)} (h : cells ≠ []) :
    cellsAfterPipe (write cells) = some cells := by
  induction cells with
  | nil => exact absurd rfl h
  | cons cell cells ih =>
    cases cells with
    | nil =>
      have hlast := cellsAfterPipe_cell cell (s := ['|']) rfl
      rw [List.append_nil] at hlast
      simpa [write] using hlast
    | cons next cells =>
      have hrest := ih (List.cons_ne_nil _ _)
      have hpipe : cellsAfterPipe ('|' :: write (next :: cells)) = some ([] :: next :: cells) := by
        rw [cellsAfterPipe_pipe (by simp [write]), hrest]
        rfl
      have hall := cellsAfterPipe_cell cell hpipe
      rw [List.append_nil] at hall
      rw [← hall, write, List.map_cons, List.map_cons, List.intercalate_cons_cons, write,
        List.map_cons]
      simp only [List.append_assoc, List.cons_append, List.nil_append]

end Gherkin.Row

namespace Gherkin.Line

open Text

/-! ## Kinds -/

/-- How a line of a kind is written. -/
def Kind.spell : Kind → List Char
  | blank => []
  | comment => ['#']
  | tags ts => [' '].intercalate (ts.map fun t => '@' :: t.name.toList)
  | heading h name => h.label.toList ++ [' '] ++ name.toList
  | step k s => k.word.toList ++ [' '] ++ s.toList
  | fence => fenceMark
  | row cells => '|' :: Row.write (cells.map String.toList)
  | text s => s.toList

/-! ### Tags -/

theorem trim_of_unbroken {s : List Char} (h : ∀ c ∈ s, isBlank c = false) : trim s = s :=
  trim_eq_self_iff.2 ⟨fun c hc => h c (List.mem_of_mem_head? hc),
    fun c hc => h c (List.mem_of_mem_getLast? hc)⟩

/-- The words of a text are the ones that stand in it one space apart. -/
theorem words_intercalate {ws : List (List Char)} (hne : ∀ w ∈ ws, w ≠ [])
    (h : ∀ w ∈ ws, ∀ c ∈ w, isBlank c = false) : words ([' '].intercalate ws) = ws := by
  induction ws with
  | nil => rfl
  | cons w ws ih =>
    obtain ⟨hw, hws⟩ := List.forall_mem_cons.1 hne
    obtain ⟨hc, hcs⟩ := List.forall_mem_cons.1 h
    cases ws with
    | nil =>
      have hword := words_append (s := []) hc hw (by simp)
      rw [List.append_nil] at hword
      rw [List.intercalate_singleton, hword]
      rfl
    | cons v ws =>
      rw [List.intercalate_cons_cons, List.append_assoc, words_append hc hw (by simp; decide),
        List.singleton_append, words, if_pos isBlank_space, ih hws hcs]

theorem trim_intercalate {ws : List (List Char)} (hne : ∀ w ∈ ws, w ≠ [])
    (h : ∀ w ∈ ws, trim w = w) : trim ([' '].intercalate ws) = [' '].intercalate ws := by
  induction ws with
  | nil => rfl
  | cons w ws ih =>
    obtain ⟨hw, hws⟩ := List.forall_mem_cons.1 hne
    obtain ⟨ht, hts⟩ := List.forall_mem_cons.1 h
    cases ws with
    | nil => rwa [List.intercalate_singleton]
    | cons v ws =>
      have hrest : [' '].intercalate (v :: ws) ≠ [] := by
        have hv : v ≠ [] := hws v List.mem_cons_self
        cases ws <;> simp [hv]
      rw [List.intercalate_cons_cons]
      exact trim_append [' '] ht (ih hws hts) hw hrest

theorem ofWords_map {ts : List Tag} (h : ∀ t ∈ ts, t.WellFormed) :
    Tag.ofWords (ts.map fun t => '@' :: t.name.toList) = .ok ts := by
  induction ts with
  | nil => rfl
  | cons t ts ih =>
    obtain ⟨ht, hts⟩ := List.forall_mem_cons.1 h
    have hname : t.name.toList ≠ [] := by simpa using ht.nonempty
    obtain ⟨c, cs, hc⟩ := List.exists_cons_of_ne_nil hname
    have htag : String.ofList (c :: cs) = t.name := by rw [← hc, String.ofList_toList]
    rw [List.map_cons, hc, Tag.ofWords, ih hts, htag]
    rfl

theorem ofContent_tags {ts : List Tag} (hne : ts ≠ []) (h : ∀ t ∈ ts, t.WellFormed) :
    Kind.ofContent (trim (Kind.tags ts).spell) = .ok (.tags ts) := by
  have hwords : ∀ w ∈ ts.map fun t => '@' :: t.name.toList, ∀ c ∈ w, isBlank c = false := by
    intro w hw
    obtain ⟨t, ht, rfl⟩ := List.mem_map.1 hw
    exact List.forall_mem_cons.2 ⟨by decide, (h t ht).unbroken⟩
  have hsome : ∀ w ∈ ts.map fun t => '@' :: t.name.toList, w ≠ [] := by simp
  have htrim : trim (Kind.tags ts).spell = (Kind.tags ts).spell :=
    trim_intercalate hsome fun w hw => trim_of_unbroken (hwords w hw)
  have hline : Tag.ofLine (Kind.tags ts).spell = .ok ts := by
    rw [Tag.ofLine, Kind.spell, words_intercalate hsome hwords, ofWords_map h]
  have hfirst : ∃ s, (Kind.tags ts).spell = '@' :: s := by
    obtain ⟨t, ts, rfl⟩ := List.exists_cons_of_ne_nil hne
    cases ts with
    | nil => exact ⟨_, rfl⟩
    | cons u ts =>
      rw [Kind.spell, List.map_cons, List.map_cons, List.intercalate_cons_cons]
      exact ⟨_, rfl⟩
  obtain ⟨s, hs⟩ := hfirst
  rw [htrim]
  rw [hs] at hline ⊢
  rw [Kind.ofContent, hline]
  rfl

/-! ### Headings and steps -/

theorem ofList_trim {s : String} (h : Trimmed s) : String.ofList (trim s.toList) = s := by
  rw [h, String.ofList_toList]

theorem opening_heading (h : Heading) (s : List Char) :
    Heading.opening? (h.label.toList ++ s) = some (h, s) := by
  cases h <;> rfl

theorem ofContent_label (h : Heading) (s : List Char) :
    Kind.ofContent (h.label.toList ++ s) = .ok (.heading h (String.ofList (trim s))) := by
  have hwords : Kind.ofContent (h.label.toList ++ s) = Kind.ofWords (h.label.toList ++ s) := by
    cases h <;> rfl
  rw [hwords, Kind.ofWords, opening_heading]

theorem ofContent_heading (h : Heading) {name : String} (hname : Trimmed name) :
    Kind.ofContent (trim (Kind.heading h name).spell) = .ok (.heading h name) := by
  have hlabel : trim h.label.toList = h.label.toList := by cases h <;> decide
  have hspace : Blanks [' '] := by simp [Blanks, isBlank_space]
  by_cases hempty : name.toList = []
  · have htrim : trim (Kind.heading h name).spell = h.label.toList ++ [] := by
      rw [Kind.spell, hempty, List.append_nil, List.append_nil, trim_append_right hspace, hlabel]
    rw [htrim, ofContent_label, ← hempty, ofList_trim hname]
  · have hne : h.label.toList ≠ [] := by cases h <;> simp [Heading.label]
    have htrim : trim (Kind.heading h name).spell = h.label.toList ++ ([' '] ++ name.toList) := by
      rw [Kind.spell, trim_append [' '] hlabel hname hne hempty, List.append_assoc]
    rw [htrim, ofContent_label, trim_append_left hspace, ofList_trim hname]

theorem ofContent_word (k : StepKeyword) (s : List Char) :
    Kind.ofContent (k.word.toList ++ ' ' :: s) = .ok (.step k (String.ofList (trim s))) := by
  have hwords : Kind.ofContent (k.word.toList ++ ' ' :: s) =
      Kind.ofWords (k.word.toList ++ ' ' :: s) := by
    cases k <;> rfl
  have hheading : Heading.opening? (k.word.toList ++ ' ' :: s) = none := by cases k <;> rfl
  have hstep : StepKeyword.opening? (k.word.toList ++ ' ' :: s) = some (k, s) := by
    cases k <;> rfl
  rw [hwords, Kind.ofWords, hheading, hstep]

theorem ofContent_step (k : StepKeyword) {s : String} (hs : Trimmed s) (hne : s ≠ "") :
    Kind.ofContent (trim (Kind.step k s).spell) = .ok (.step k s) := by
  have hword : trim k.word.toList = k.word.toList := by cases k <;> decide
  have hword' : k.word.toList ≠ [] := by cases k <;> simp [StepKeyword.word]
  have htrim : trim (Kind.step k s).spell = k.word.toList ++ ' ' :: s.toList := by
    rw [Kind.spell, trim_append [' '] hword hs hword' (by simpa using hne), List.append_assoc,
      List.singleton_append]
  rw [htrim, ofContent_word, ofList_trim hs]

/-! ### Rows -/

theorem trim_spell_row (cells : List String) :
    trim (Kind.row cells).spell = (Kind.row cells).spell := by
  have hpipe : trim ['|'] = ['|'] := by decide
  exact trim_append (['|'].intercalate ((cells.map String.toList).map (List.flatMap Row.escape)))
    hpipe hpipe (List.cons_ne_nil _ _) (List.cons_ne_nil _ _)

/-- Whatever the cells of a row hold, it is read as a row with those cells trimmed. -/
theorem ofContent_row_trim {cells : List String} (hne : cells ≠ []) :
    Kind.ofContent (trim (Kind.row cells).spell) =
      .ok (.row (cells.map fun cell => String.ofList (trim cell.toList))) := by
  have hread : Row.cellsAfterPipe (Row.write (cells.map String.toList)) =
      some (cells.map String.toList) := Row.cellsAfterPipe_write (by simpa using hne)
  rw [trim_spell_row, Kind.spell, Kind.ofContent, Row.cells, hread]
  exact congrArg (fun cs => Except.ok (Kind.row cs)) List.map_map

theorem ofContent_row {cells : List String} (hne : cells ≠ [])
    (h : ∀ cell ∈ cells, Trimmed cell) :
    Kind.ofContent (trim (Kind.row cells).spell) = .ok (.row cells) := by
  have hcells : cells.map (fun cell => String.ofList (trim cell.toList)) = cells :=
    (List.map_congr_left fun cell hcell => ofList_trim (h cell hcell)).trans (List.map_id _)
  rw [ofContent_row_trim hne, hcells]

/-! ### Free text -/

theorem eq_of_ofContent_text {content : List Char} {s : String}
    (h : Kind.ofContent content = .ok (.text s)) : s.toList = content := by
  have hwords {content : List Char} (hw : Kind.ofWords content = .ok (.text s)) :
      s.toList = content := by
    unfold Kind.ofWords at hw
    split at hw
    · cases hw
    · split at hw
      · cases hw
      · split at hw
        · cases hw
        · cases hw
          exact String.toList_ofList
  unfold Kind.ofContent at h
  split at h
  · cases h
  · cases h
  · rename_i r
    cases hr : Tag.ofLine ('@' :: r) <;> rw [hr] at h <;> cases h
  · rename_i r
    cases hr : Row.cells ('|' :: r) <;> rw [hr] at h <;> cases h
  · split at h
    · cases h
    · exact hwords h

/-- A line of free text is its own content. -/
theorem ofContent_of_free {s : String} (h : Free s) :
    Trimmed s ∧ OneLine s ∧ Kind.ofContent s.toList = .ok (.text s) := by
  rw [Free, Reader.ofText, Reader.items] at h
  cases hlines : lines s.toList with
  | nil => simp [hlines, Reader.itemsFrom] at h
  | cons raw raws =>
    have hraw : '\n' ∉ raw := newline_not_mem_lines (hlines ▸ List.mem_cons_self)
    have hitem : (Reader.read none 1 raw).1 = .ok ⟨1, .text s⟩ := by
      rw [hlines] at h
      exact (List.cons.inj h).1
    have hkind : Kind.ofContent (trim raw) = .ok (.text s) := by
      cases hk : Kind.ofContent (trim raw) <;>
        simp [Reader.read, classify, hk] at hitem
      rw [hitem]
    have hs := eq_of_ofContent_text hkind
    refine ⟨?_, ?_, ?_⟩
    · rw [Trimmed, hs, trim_trim]
    · rw [OneLine, hs]
      exact fun hn => hraw (mem_of_mem_trim hn)
    · rw [hs, hkind]

/-! ### Every kind -/

/-- Each kind is read from its spelling. -/
theorem ofContent_spell {k : Kind} (h : k.WellFormed) :
    Kind.ofContent (trim k.spell) = .ok k := by
  cases k with
  | blank => rfl
  | comment => decide
  | fence => decide
  | tags ts => exact ofContent_tags h.1 h.2
  | heading k name => exact ofContent_heading k h.trimmed
  | step k s => exact ofContent_step k h.1 h.2.1
  | row cells => exact ofContent_row h.1 h.2
  | text s =>
    obtain ⟨htrim, -, hcontent⟩ := ofContent_of_free h
    rw [Kind.spell, htrim, hcontent]

theorem newline_not_mem_escape (c : Char) : '\n' ∉ Row.escape c := by
  unfold Row.escape
  split
  · decide
  · decide
  · decide
  · rename_i hn
    simpa using fun e => hn e.symm

theorem not_mem_intercalate {c : Char} {sep : List Char} {ws : List (List Char)} (hsep : c ∉ sep)
    (h : ∀ w ∈ ws, c ∉ w) : c ∉ sep.intercalate ws := by
  induction ws with
  | nil => simp
  | cons w ws ih =>
    obtain ⟨hw, hws⟩ := List.forall_mem_cons.1 h
    cases ws with
    | nil => rwa [List.intercalate_singleton]
    | cons v ws =>
      rw [List.intercalate_cons_cons, List.mem_append, List.mem_append, not_or, not_or]
      exact ⟨⟨hw, hsep⟩, ih hws⟩

theorem newline_not_mem_row (cells : List String) : '\n' ∉ (Kind.row cells).spell := by
  have hcells : ∀ w ∈ (cells.map String.toList).map (List.flatMap Row.escape), '\n' ∉ w := by
    intro w hw
    obtain ⟨cell, -, rfl⟩ := List.mem_map.1 hw
    simp [newline_not_mem_escape]
  have hpipe : '\n' ∉ ['|'] := by decide
  have hrow := not_mem_intercalate hpipe hcells
  simpa [Kind.spell, Row.write] using hrow

/-- A spelling is one line. -/
theorem newline_not_mem_spell {k : Kind} (h : k.WellFormed) : '\n' ∉ k.spell := by
  cases k with
  | blank => simp [Kind.spell]
  | comment => simp [Kind.spell]
  | fence => decide
  | tags ts =>
    refine not_mem_intercalate (by decide) fun w hw => ?_
    obtain ⟨t, ht, rfl⟩ := List.mem_map.1 hw
    intro hn
    have hblank : isBlank '\n' = false := by
      rcases List.mem_cons.1 hn with e | hn
      · cases e
      · exact (h.2 t ht).unbroken _ hn
    cases hblank
  | heading k name =>
    have hlabel : '\n' ∉ k.label.toList := by cases k <;> decide
    have hname : '\n' ∉ name.toList := h.oneLine
    simp [Kind.spell, hlabel, hname]
  | step k s =>
    have hword : '\n' ∉ k.word.toList := by cases k <;> decide
    have hs : '\n' ∉ s.toList := h.2.2
    simp [Kind.spell, hword, hs]
  | row cells => exact newline_not_mem_row cells
  | text s => exact (ofContent_of_free h).2.1

end Gherkin.Line

namespace Gherkin

open Line Reader

/-! ## Texts -/

/-- A line that is read as no fence opens no doc string. -/
theorem Line.classify_of_ofContent {raw : List Char} {k : Kind}
    (h : Kind.ofContent (Text.trim raw) = .ok k) (other : k ≠ .fence) (number : Nat) :
    classify none number raw = (.ok k, none) := by
  have hfence : Text.trim raw ≠ fenceMark := by
    intro e
    rw [e] at h
    exact other (Except.ok.inj h).symm
  simp only [classify, h, if_neg hfence]

theorem Line.classify_spell {k : Kind} (h : k.WellFormed) (other : k ≠ .fence) (number : Nat) :
    classify none number k.spell = (.ok k, none) :=
  classify_of_ofContent (ofContent_spell h) other number

theorem Line.classify_captured {s : String} (h : Captured s) {fence : Fence}
    (margin : fence.indent = 0) (number : Nat) :
    classify (some fence) number (Kind.text s).spell = (.ok (.text s), some fence) := by
  simp only [classify, Kind.spell, if_neg h.2, margin, Text.dedent_zero, String.ofList_toList]

theorem Reader.exists_readLines_cons {k : Kind} {ks : List Kind} {fence after : Option Fence}
    {last : Nat} (h : classify fence (last + 1) k.spell = (.ok k, after))
    (hrest : ∃ ls : List Line, readLines (last + 1) after (ks.map Kind.spell) = ls.map .ok ∧
      ls.map Line.kind = ks) :
    ∃ ls : List Line, readLines last fence ((k :: ks).map Kind.spell) = ls.map .ok ∧
      ls.map Line.kind = k :: ks := by
  obtain ⟨ls, hls, hkinds⟩ := hrest
  refine ⟨⟨last + 1, k⟩ :: ls, ?_, by rw [List.map_cons, hkinds]⟩
  simp only [List.map_cons, readLines, read, h, hls]

/-- Lines of legible kinds are read as those kinds, where the fences stand at the margin. -/
theorem Reader.readLines_spell {inside : Bool} {ks : List Kind} (h : Legible inside ks)
    {fence : Option Fence} (hfence : fence.map Fence.indent = if inside then some 0 else none)
    (last : Nat) : ∃ ls : List Line, readLines last fence (ks.map Kind.spell) = ls.map .ok ∧
      ls.map Line.kind = ks := by
  induction h generalizing fence last with
  | nil => exact ⟨[], rfl, rfl⟩
  | plain first other rest ih =>
    obtain rfl : fence = none := by simpa using hfence
    exact exists_readLines_cons (classify_spell first other _) (ih rfl _)
  | opening rest ih =>
    obtain rfl : fence = none := by simpa using hfence
    have hopen : classify none (last + 1) Kind.fence.spell =
        (.ok .fence, some ⟨last + 1, 0⟩) := rfl
    exact exists_readLines_cons hopen (ih rfl _)
  | captured first rest ih =>
    obtain ⟨f, rfl, margin⟩ : ∃ f, fence = some f ∧ f.indent = 0 := by simpa using hfence
    exact exists_readLines_cons (classify_captured first margin _) (ih hfence _)
  | closing rest ih =>
    obtain ⟨f, rfl, -⟩ : ∃ f, fence = some f ∧ f.indent = 0 := by simpa using hfence
    have hclose : classify (some f) (last + 1) Kind.fence.spell = (.ok .fence, none) := rfl
    exact exists_readLines_cons hclose (ih rfl _)

theorem Line.newline_not_mem_legible {inside : Bool} {ks : List Kind} (h : Legible inside ks) :
    ∀ raw ∈ ks.map Kind.spell, '\n' ∉ raw := by
  induction h with
  | nil => simp
  | plain first _ _ ih => exact List.forall_mem_cons.2 ⟨newline_not_mem_spell first, ih⟩
  | opening _ ih => exact List.forall_mem_cons.2 ⟨by decide, ih⟩
  | captured first _ ih => exact List.forall_mem_cons.2 ⟨first.1, ih⟩
  | closing _ ih => exact List.forall_mem_cons.2 ⟨by decide, ih⟩

/-- Legible kinds that close their doc strings are the kinds of the lines of a text. -/
theorem exists_reads {ks : List Kind} (h : Legible false ks) (closed : opened false ks = false) :
    ∃ (text : String) (ls : List Line), Reads text ls ∧ ls.map Line.kind = ks := by
  have hmargin : (none : Option Fence).map Fence.indent = none := rfl
  obtain ⟨ls, hls, hkinds⟩ := readLines_spell h hmargin 0
  have hlines := Text.lines_unlines (newline_not_mem_legible h)
  refine ⟨String.ofList (Text.unlines (ks.map Kind.spell)), ls, reads_iff.2 ?_, hkinds⟩
  have hfence := isSome_fenceAfter hls
  rw [hkinds, Option.isSome_none, closed] at hfence
  rw [String.toList_ofList, hlines]
  exact ⟨hls, by simpa using hfence⟩

end Gherkin
