import Gherkin.Proofs.Layout
import Gherkin.Proofs.Positions
import Gherkin.Proofs.Simulation

/-
  Trivia: comment lines, blank lines before a line that opens something, and how many tag lines
  hold the tags. An edit of them replaces lines of a text where no doc string is open (`Replaces`,
  `TriviaEdit`). The reader gives the same items before the edit and items of the same content
  after it, with other line numbers, so the parser is before akin cursors (`Replaces.akin`) and the
  text is still the same (`trivia_independent`).
-/

namespace Gherkin

open Line Reader Cursor Grammar

/-! ## Items of the same content -/

namespace Cursor

/-- Lines of the same kind, or faults of the same kind. -/
abbrev SameItem : Item → Item → Prop := Matches fun l m => l.kind = m.kind

/-- An item that a blank line may stand before. -/
def Opening (x : Item) : Prop := ∀ l, x = .ok l → ¬l.kind.shape.Continues

theorem sameItem_refl (x : Item) : SameItem x x := by
  cases x with
  | error f => exact .error rfl
  | ok l => exact .ok rfl

section Items

variable {m n : Nat} {x y : Item} {xs ys : List Item}

theorem akin_ofItems_cons {a b : Bool} (h : SameItem x y) (hblank : a = b ∨ Opening x)
    (hrest : ∀ c, Akin (ofItems m c xs) (ofItems n c ys)) :
    Akin (ofItems m a (x :: xs)) (ofItems n b (y :: ys)) := by
  cases h with
  | error kind => exact .failed kind
  | @ok l k same =>
    have hab : l.kind.shape.Continues → a = b := fun hl =>
      hblank.resolve_right fun hopening => hopening l rfl hl
    rw [ofItems, ofItems, ← same]
    split
    · exact hrest true
    · rename_i hl
      rw [hab (by rw [hl]; trivial)]
      exact hrest b
    · by_cases htags : l.kind.shape = .tags
      · obtain ⟨ts, hl⟩ := Kind.exists_tags htags
        have hall : TagLine ⟨l, a⟩ (ts ++ [].flatten) := by
          rw [List.flatten_nil, List.append_nil]
          exact hl
        have hfirst : TagLine ⟨k, b⟩ ts := same.symm.trans hl
        exact .tags hall hfirst .nil (hrest false)
      · exact .line ⟨same, htags, hab⟩ (hrest false)

theorem akin_ofItems_append (as : List Item) (h : ∀ b, Akin (ofItems m b xs) (ofItems n b ys))
    (b : Bool) : Akin (ofItems m b (as ++ xs)) (ofItems n b (as ++ ys)) := by
  induction as generalizing b with
  | nil => exact h b
  | cons x as ih => exact akin_ofItems_cons (sameItem_refl x) (.inl rfl) ih

theorem akin_ofItems {a b : Bool} (h : List.Forall₂ SameItem xs ys)
    (hblank : a = b ∨ ∀ x ∈ xs.head?, Opening x) : Akin (ofItems m a xs) (ofItems n b ys) := by
  induction h generalizing a b with
  | nil => exact .ended m n
  | cons hxy _ ih =>
    exact akin_ofItems_cons hxy (hblank.imp_right fun h => h _ rfl) fun _ => ih (.inl rfl)

end Items

end Cursor

namespace Reader

variable {f g : Option Fence}

theorem read_alike (h : f.map Fence.indent = g.map Fence.indent) (m n : Nat) (raw : List Char) :
    SameItem (read f m raw).1 (read g n raw).1 ∧
      (read f m raw).2.map Fence.indent = (read g n raw).2.map Fence.indent := by
  obtain ⟨hkind, hfence⟩ := classify_alike h m n raw
  unfold read
  rcases hf : classify f m raw with ⟨result, after⟩
  rcases hg : classify g n raw with ⟨result', after'⟩
  rw [hf, hg] at hkind hfence
  obtain rfl : result = result' := hkind
  cases result with
  | error cause => exact ⟨.error rfl, hfence⟩
  | ok kind => exact ⟨.ok rfl, hfence⟩

/-- The same lines after another line number give items of the same content. -/
theorem itemsFrom_alike (h : f.map Fence.indent = g.map Fence.indent) (m n : Nat)
    (raws : List (List Char)) :
    List.Forall₂ SameItem (itemsFrom m f raws) (itemsFrom n g raws) := by
  induction raws generalizing m n f g with
  | nil =>
    cases f with
    | none =>
      obtain rfl : g = none := by simpa using h.symm
      exact .nil
    | some fence =>
      obtain ⟨fence', rfl, -⟩ := Option.map_eq_some_iff.1 h.symm
      exact .cons (.error rfl) .nil
  | cons raw raws ih =>
    obtain ⟨hitem, hfence⟩ := read_alike h (m + 1) (n + 1) raw
    exact .cons hitem (ih hfence (m + 1) (n + 1))

theorem itemsFrom_cons {raw : List Char} {k : Kind} {last : Nat}
    (h : Kind.ofContent (Text.trim raw) = .ok k) (hk : k ≠ .fence) (raws : List (List Char)) :
    itemsFrom last none (raw :: raws) = .ok ⟨last + 1, k⟩ :: itemsFrom (last + 1) none raws := by
  have hmark : Text.trim raw ≠ fenceMark := by
    intro e
    rw [e] at h
    exact hk (Except.ok.inj h).symm
  rw [itemsFrom, read, classify]
  simp only [if_neg hmark, h]

end Reader

/-! ## Ends of texts -/

/-- A newline after a last line that is not ended adds no line; a carriage return at the end of the
line becomes part of the line end. -/
theorem Text.exists_last_line {s : List Char} (h : ¬Ended s) : ∃ ls l l', lines s = ls ++ [l] ∧
    lines (s ++ ['\n']) = ls ++ [l'] ∧ (l = l' ∨ l = l' ++ ['\r']) := by
  induction s using lines.induct with
  | case1 => exact absurd (by simp [Ended]) h
  | case2 r ih =>
    obtain ⟨ls, l, l', hl, hl', hsame⟩ := ih (mt (ended_cons fun _ => rfl) h)
    refine ⟨[] :: ls, l, l', ?_, ?_, hsame⟩
    · rw [lines_newline, hl, List.cons_append]
    · rw [List.cons_append, lines_newline, hl', List.cons_append]
  | case3 r ih =>
    have hr : ¬Ended r := fun hr => h (ended_cons (by simp) (ended_cons (fun _ => rfl) hr))
    obtain ⟨ls, l, l', hl, hl', hsame⟩ := ih hr
    refine ⟨[] :: ls, l, l', ?_, ?_, hsame⟩
    · rw [lines_crlf, hl, List.cons_append]
    · rw [List.cons_append, List.cons_append, lines_crlf, hl', List.cons_append]
  | case4 c r hn hr he ih =>
    obtain rfl := lines_eq_nil.1 he
    by_cases hc : c = '\r'
    · subst hc
      exact ⟨[], ['\r'], [], rfl, lines_crlf [], .inr rfl⟩
    · have hplain (t : List Char) : lines (c :: t) = (c :: (lines t).headD []) :: (lines t).tail :=
        lines_cons hn fun _ e => absurd e hc
      refine ⟨[], [c], [c], ?_, ?_, .inl rfl⟩
      · rw [hplain, lines_nil]
        rfl
      · rw [List.singleton_append, hplain, lines_newline, lines_nil]
        rfl
  | case5 c r hn hr l ls he ih =>
    have hne : r ≠ [] := fun e => by rw [e, lines_nil] at he; cases he
    have hended : ¬Ended r := fun hr => h (ended_cons (fun e => absurd e hne) hr)
    have hr' : ∀ s, c = '\r' → r ++ ['\n'] ≠ '\n' :: s := by
      rintro s hc e
      obtain ⟨d, r', rfl⟩ := List.exists_cons_of_ne_nil hne
      exact hr r' hc (by rw [(List.cons.inj e).1])
    obtain ⟨ks, k, k', hk, hk', hsame⟩ := ih hended
    rw [List.cons_append, lines_cons hn hr, lines_cons hn hr', hk, hk']
    cases ks with
    | nil =>
      refine ⟨[], c :: k, c :: k', rfl, rfl, ?_⟩
      exact hsame.imp (congrArg (c :: ·)) (congrArg (c :: ·))
    | cons first ks => exact ⟨(c :: first) :: ks, k, k', rfl, rfl, hsame⟩

/-- A line after which no doc string is open is classified by its trimmed content. -/
theorem Line.classify_trim {f : Option Fence} {n : Nat} {raw raw' : List Char}
    (htrim : Text.trim raw = Text.trim raw') (closed : (classify f n raw).2 = none) :
    classify f n raw' = classify f n raw := by
  unfold classify at closed ⊢
  rw [← htrim]
  by_cases hmark : Text.trim raw = fenceMark
  · cases f with
    | none => simp [hmark] at closed
    | some opened => simp only [if_pos hmark]
  · cases f with
    | none => simp only [if_neg hmark]
    | some opened => simp [hmark] at closed

theorem Reader.read_trim {f : Option Fence} {n : Nat} {raw raw' : List Char}
    (htrim : Text.trim raw = Text.trim raw') (closed : (read f n raw).2 = none) :
    read f n raw' = read f n raw := by
  rw [fence_of_read] at closed
  rw [read, read, classify_trim htrim closed]

/-! ## Edits -/

/-- Lines `old` of a text are replaced by lines `new`, before lines `after` and at a place where no
doc string is open. A last line that is not ended gets a newline before new lines. -/
inductive Replaces : List (List Char) → List (List Char) → List (List Char) → String → String → Prop
  | between {before old new after : List (List Char)} {t u : String}
    (was : Text.lines t.toList = before ++ (old ++ after))
    (becomes : Text.lines u.toList = before ++ (new ++ after))
    (closed : fenceAfter 0 none before = none) : Replaces old new after t u
  | behind {new : List (List Char)} {t x : String} (unended : ¬Text.Ended t.toList)
    (more : Text.lines x.toList = new)
    (closed : fenceAfter 0 none (Text.lines t.toList) = none) :
    Replaces [] new [] t (t ++ ("\n" ++ x))

/-- A line that opens something: tags, a section or a step. -/
inductive Line.Opens (raw : List Char) : Prop
  | tags (sign : (Text.trim raw).head? = some '@')
  | heading {h : Heading} {name : String}
    (line : Kind.ofContent (Text.trim raw) = .ok (.heading h name))
  | step {keyword : StepKeyword} {text : String}
    (line : Kind.ofContent (Text.trim raw) = .ok (.step keyword text))

/-- The tags on a tag line. -/
def Line.HasTags (raw : List Char) (ts : List Tag) : Prop :=
  Kind.ofContent (Text.trim raw) = .ok (.tags ts)

/-- Edits of trivia, at a place where no doc string is open. -/
inductive TriviaEdit (t u : String) : Prop
  /-- A comment line is inserted. -/
  | comment {after : List (List Char)} {raw : List Char}
    (sign : (Text.trim raw).head? = some '#') (place : Replaces [] [raw] after t u)
  /-- A blank line is inserted before a line that opens something, or at the end. -/
  | blank {after : List (List Char)} {raw : List Char} (blank : Text.trim raw = [])
    (next : ∀ opening ∈ after.head?, Line.Opens opening) (place : Replaces [] [raw] after t u)
  /-- The tags of a tag line are written on several ones. -/
  | tags {after raws : List (List Char)} {raw : List Char} {tss : List (List Tag)}
    (all : Line.HasTags raw tss.flatten) (parts : List.Forall₂ Line.HasTags raws tss)
    (nonempty : raws ≠ []) (place : Replaces [raw] raws after t u)

theorem Reader.fenceAfter_last {before : List (List Char)} {raw raw' : List Char}
    (htrim : Text.trim raw = Text.trim raw')
    (closed : fenceAfter 0 none (before ++ [raw]) = none) :
    fenceAfter 0 none (before ++ [raw']) = none ∧
      itemsFrom 0 none (before ++ [raw']) = itemsFrom 0 none (before ++ [raw]) := by
  rw [fenceAfter_append] at closed
  have hread := read_trim htrim closed
  have hclosed : fenceAfter 0 none (before ++ [raw']) = none := by
    rw [fenceAfter_append, fenceAfter, hread]
    exact closed
  refine ⟨hclosed, ?_⟩
  rw [itemsFrom_append, itemsFrom_append, itemsFrom, itemsFrom, hread]

/-- A newline at the end of a text is read over if no doc string is open there. -/
theorem Cursor.ofText_newline {t : String} (unended : ¬Text.Ended t.toList)
    (closed : fenceAfter 0 none (Text.lines t.toList) = none) :
    fenceAfter 0 none (Text.lines (t ++ "\n").toList) = none ∧ ofText (t ++ "\n") = ofText t := by
  obtain ⟨ls, l, l', hl, hl', hsame⟩ := Text.exists_last_line unended
  have hlines : Text.lines (t ++ "\n").toList = ls ++ [l'] := by
    rw [String.toList_append]
    exact hl'
  have htrim : Text.trim l = Text.trim l' := by
    rcases hsame with rfl | rfl
    · rfl
    · exact Text.trim_append_right (List.forall_mem_singleton.2 rfl) l'
  rw [hl] at closed
  obtain ⟨hclosed, hitems⟩ := fenceAfter_last htrim closed
  rw [hlines]
  refine ⟨hclosed, ofText_eq_of_items ?_ ?_⟩
  · rw [hlines, hl, List.length_append, List.length_append]
    rfl
  · rw [Reader.ofText, Reader.ofText, hlines, hl]
    exact hitems

/-- The parser cannot tell the texts apart if it cannot tell what is left of them apart. -/
theorem Replaces.akin {old new after : List (List Char)} {t u : String}
    (h : Replaces old new after t u)
    (hrest : ∀ m n k b, Akin (ofItems m b (itemsFrom k none (old ++ after)))
      (ofItems n b (itemsFrom k none (new ++ after)))) :
    Akin (Cursor.ofText t) (Cursor.ofText u) := by
  have hbetween (before : List (List Char)) {t u : String}
      (was : Text.lines t.toList = before ++ (old ++ after))
      (becomes : Text.lines u.toList = before ++ (new ++ after))
      (closed : fenceAfter 0 none before = none) :
      Akin (Cursor.ofText t) (Cursor.ofText u) := by
    simp only [ofText_eq_ofItems, Reader.ofText, Reader.items, was, becomes]
    rw [itemsFrom_append 0 none before, itemsFrom_append 0 none before, closed]
    exact akin_ofItems_append _ (hrest _ _ _) false
  cases h with
  | between was becomes closed => exact hbetween _ was becomes closed
  | behind unended more closed =>
    obtain ⟨hclosed, hsame⟩ := ofText_newline unended closed
    have hended (t : String) : Text.Ended (t ++ "\n").toList := by
      rw [String.toList_append]
      simp [Text.Ended]
    rw [← hsame]
    refine hbetween _ (List.append_nil _).symm ?_ hclosed
    rw [← String.append_assoc, String.toList_append, Text.lines_append (hended t), more,
      List.append_nil]

/-! ## Trivia -/

theorem Line.Opens.not_continues {raw : List Char} {k : Kind} (h : Line.Opens raw)
    (hk : Kind.ofContent (Text.trim raw) = .ok k) : ¬k.shape.Continues := by
  cases h with
  | tags sign =>
    obtain ⟨s, hs⟩ := List.head?_eq_some_iff.1 sign
    replace hk : (Tag.ofLine ('@' :: s)).map .tags = .ok k := by rwa [hs] at hk
    cases htags : Tag.ofLine ('@' :: s) with
    | error cause => rw [htags] at hk; cases hk
    | ok ts => rw [htags] at hk; cases hk; exact id
  | heading line =>
    obtain rfl := Except.ok.inj (line.symm.trans hk)
    exact id
  | step line =>
    obtain rfl := Except.ok.inj (line.symm.trans hk)
    exact id

theorem akin_comment {raw : List Char} (sign : (Text.trim raw).head? = some '#')
    (after : List (List Char)) (m n k : Nat) (b : Bool) :
    Akin (ofItems m b (itemsFrom k none after))
      (ofItems n b (itemsFrom k none (raw :: after))) := by
  have hcomment : Kind.ofContent (Text.trim raw) = .ok .comment := by
    obtain ⟨s, hs⟩ := List.head?_eq_some_iff.1 sign
    rw [hs]
    rfl
  have hafter := itemsFrom_alike (f := none) rfl k (k + 1) after
  have hitems : ofItems n b (itemsFrom k none (raw :: after)) =
      ofItems n b (itemsFrom (k + 1) none after) := by
    rw [itemsFrom_cons hcomment nofun]
    rfl
  rw [hitems]
  exact akin_ofItems hafter (.inl rfl)

theorem akin_blank {raw : List Char} (blank : Text.trim raw = []) {after : List (List Char)}
    (next : ∀ opening ∈ after.head?, Line.Opens opening) (m n k : Nat) (b : Bool) :
    Akin (ofItems m b (itemsFrom k none after))
      (ofItems n b (itemsFrom k none (raw :: after))) := by
  have hblank : Kind.ofContent (Text.trim raw) = .ok .blank := by
    rw [blank]
    rfl
  have hafter := itemsFrom_alike (f := none) rfl k (k + 1) after
  have hopening : ∀ x ∈ (itemsFrom k none after).head?, Opening x := by
    cases after with
    | nil => exact nofun
    | cons opening after =>
      rintro _ ⟨⟩ l hl
      exact (next opening rfl).not_continues (line_of_read hl).2
  have hitems : ofItems n b (itemsFrom k none (raw :: after)) =
      ofItems n true (itemsFrom (k + 1) none after) := by
    rw [itemsFrom_cons hblank nofun]
    rfl
  rw [hitems]
  exact akin_ofItems hafter (.inr hopening)

theorem ofItems_tagLine {raw : List Char} {ts : List Tag} (h : Line.HasTags raw ts)
    (raws : List (List Char)) (n k : Nat) (b : Bool) :
    ofItems n b (itemsFrom k none (raw :: raws)) =
      .line ⟨⟨k + 1, .tags ts⟩, b⟩ (ofItems n false (itemsFrom (k + 1) none raws)) := by
  rw [itemsFrom_cons h nofun]
  rfl

theorem ofItems_tagLines {raws : List (List Char)} {tss : List (List Tag)}
    (h : List.Forall₂ Line.HasTags raws tss) (after : List (List Char)) (n k : Nat) :
    ∃ ls, List.Forall₂ TagLine ls tss ∧ ofItems n false (itemsFrom k none (raws ++ after)) =
      prepend ls (ofItems n false (itemsFrom (k + raws.length) none after)) := by
  induction h generalizing k with
  | nil => exact ⟨[], .nil, rfl⟩
  | @cons raw ts raws tss first _ ih =>
    obtain ⟨ls, hls, hrest⟩ := ih (k + 1)
    refine ⟨⟨⟨k + 1, .tags ts⟩, false⟩ :: ls, .cons rfl hls, ?_⟩
    rw [List.cons_append, ofItems_tagLine first, hrest, List.length_cons, Nat.add_assoc,
      Nat.add_comm 1]
    rfl

theorem akin_tags_apart {raw : List Char} {raws : List (List Char)} {tss : List (List Tag)}
    (all : Line.HasTags raw tss.flatten) (parts : List.Forall₂ Line.HasTags raws tss)
    (nonempty : raws ≠ []) (after : List (List Char)) (m n k : Nat) (b : Bool) :
    Akin (ofItems m b (itemsFrom k none ([raw] ++ after)))
      (ofItems n b (itemsFrom k none (raws ++ after))) := by
  cases parts with
  | nil => exact absurd rfl nonempty
  | @cons first ts raws tss hfirst hmore =>
    obtain ⟨ls, hls, hrest⟩ := ofItems_tagLines hmore after n (k + 1)
    rw [List.singleton_append, List.cons_append, ofItems_tagLine all, ofItems_tagLine hfirst, hrest]
    refine .tags rfl rfl hls (akin_ofItems ?_ (.inl rfl))
    exact itemsFrom_alike rfl (k + 1) (k + 1 + raws.length) after

/-- Trivia have no meaning: whether a comment line stands anywhere, whether a blank line stands
before tags, a section, a step or the end, and on how many tag lines tags are written, the text is
the same feature, or it is refused with the same kind of fault. -/
theorem trivia_independent {t u : String} (h : TriviaEdit t u) :
    Matches Eq (Feature.ofText t) (Feature.ofText u) := by
  have hakin : Akin (Cursor.ofText t) (Cursor.ofText u) := by
    cases h with
    | comment sign place => exact place.akin fun m n k b => akin_comment sign _ m n k b
    | blank blank next place => exact place.akin fun m n k b => akin_blank blank next m n k b
    | tags all parts nonempty place =>
      exact place.akin fun m n k b => akin_tags_apart all parts nonempty _ m n k b
  rw [Feature.ofText_eq, Feature.ofText_eq]
  exact Parse.matches_feature hakin

/-- A comment between a step and its table, a blank line before tags, a comment after a last line
without a line end, and tags on two lines. -/
theorem trivia_independent_table :
    ∃ f, Feature.ofText "Feature: F\n@a @b\nScenario: S\nGiven x\n| h |\n| 1 |" = .ok f ∧
      Matches Eq (.ok f)
        (Feature.ofText "Feature: F\n@a @b\nScenario: S\nGiven x\n # c\n| h |\n| 1 |") ∧
      Matches Eq (.ok f)
        (Feature.ofText "Feature: F\n \n@a @b\nScenario: S\nGiven x\n| h |\n| 1 |") ∧
      Matches Eq (.ok f)
        (Feature.ofText ("Feature: F\n@a @b\nScenario: S\nGiven x\n| h |\n| 1 |" ++
          ("\n" ++ "# c"))) ∧
      Matches Eq (.ok f)
        (Feature.ofText "Feature: F\n@a\n@b\nScenario: S\nGiven x\n| h |\n| 1 |") := by
  refine exists_ok_and (by decide +kernel) fun f hf => ?_
  rw [← hf]
  refine ⟨?_, ?_, ?_, ?_⟩
  · exact trivia_independent (.comment (by decide +kernel) (@Replaces.between
      (["Feature: F", "@a @b", "Scenario: S", "Given x"].map String.toList) [] [" # c".toList]
      (["| h |", "| 1 |"].map String.toList) _ _
      (by decide +kernel) (by decide +kernel) (by decide +kernel)))
  · exact trivia_independent (.blank (by decide +kernel)
      (fun opening h => .tags (by cases h; decide +kernel)) (@Replaces.between
        (["Feature: F"].map String.toList) [] [" ".toList]
        (["@a @b", "Scenario: S", "Given x", "| h |", "| 1 |"].map String.toList) _ _
        (by decide +kernel) (by decide +kernel) (by decide +kernel)))
  · exact trivia_independent (.comment (by decide +kernel) (@Replaces.behind
      ["# c".toList] _ _ (by decide +kernel) (by decide +kernel) (by decide +kernel)))
  · exact trivia_independent (@TriviaEdit.tags _ _ _ _ _ [[⟨"a"⟩], [⟨"b"⟩]] (by rfl)
      (.cons (by rfl) (.cons (by rfl) .nil)) (by simp) (@Replaces.between
        (["Feature: F"].map String.toList) ["@a @b".toList] ["@a".toList, "@b".toList]
        (["Scenario: S", "Given x", "| h |", "| 1 |"].map String.toList) _ _
        (by decide +kernel) (by decide +kernel) (by decide +kernel)))

end Gherkin
