import Gherkin.Proofs.Lookahead

/-
  The search for a heading behind tag lines. It looks through the lines that a reader still gives
  and takes none. Where a tag line is seen it finds the heading that is seen when the tag lines are
  taken (`tag_search_foretells`), so the fault that it chooses is the one the text has: for both,
  it is the first line ahead that is no tag line (`headingAfterTags_view`, `tagsLeadTo_iff`).
-/

namespace Gherkin

open Grammar Reader

/-! ## Taking tag lines -/

namespace Window

/-- Takes the tag lines that come next, each after a look at it. -/
def tags (w : Window) : Except Fault (List Tag × Window) :=
  match hpeek : w.peek with
  | .error f => .error f
  | .ok (seen, looked) =>
    if more : seen.shape = .tags then
      match htake : looked.take with
      | .error f => .error f
      | .ok (next, rest) =>
        have : rest.size < w.size := size_of_look hpeek (more ▸ nofun) htake
        rest.tags.map fun (ts, after) => ((Parse.tagLine? next).getD [] ++ ts, after)
    else .ok ([], looked)
termination_by w.size

/-- Taking the tag lines that come next succeeds, and then the heading is seen. -/
def TagsLeadTo (w : Window) (h : Heading) : Prop :=
  ∃ ts after seen looked, w.tags = .ok (ts, after) ∧ after.peek = .ok (seen, looked) ∧
    seen.shape = .heading h

theorem tags_of_failed {w : Window} {f : Fault} (h : w.peek = .error f) : w.tags = .error f := by
  rw [tags]
  split <;> simp_all

theorem tags_of_other {w looked : Window} {p : Peek} (h : w.peek = .ok (p, looked))
    (other : p.shape ≠ .tags) : w.tags = .ok ([], looked) := by
  rw [tags]
  split <;> simp_all

theorem tags_of_tags {w looked rest : Window} {p : Peek} {l : Significant}
    (hpeek : w.peek = .ok (p, looked)) (more : p.shape = .tags)
    (htake : looked.take = .ok (l, rest)) :
    w.tags = rest.tags.map fun (ts, after) => ((Parse.tagLine? l).getD [] ++ ts, after) := by
  rw [tags]
  split
  · simp_all
  · rename_i seen looked' hlooked
    obtain ⟨rfl, rfl⟩ := Prod.mk.inj (Except.ok.inj (hlooked.symm.trans hpeek))
    rw [dif_pos more]
    split
    · simp_all
    · rename_i l' rest' hrest
      obtain ⟨rfl, rfl⟩ := Prod.mk.inj (Except.ok.inj (hrest.symm.trans htake))
      rfl

end Window

/-! ## Reading tags -/

namespace Parse

theorem tags_line {l : Significant} {ts : List Tag} (hl : tagLine? l = some ts) (c : Cursor) :
    tags (.line l c) = (tags c).map fun (more, after) => (ts ++ more, after) := by
  rw [tags, tags, Cursor.span, hl]
  obtain ⟨tss, rest⟩ := c.span tagLine?
  dsimp only
  cases rest.sound <;> rfl

theorem tags_other {l : Significant} (hl : tagLine? l = none) (c : Cursor) :
    tags (.line l c) = .ok ([], .line l c) := by
  rw [tags, Cursor.span, hl]
  rfl

end Parse

namespace Cursor

/-- The search for a heading behind tag lines finds what is seen when they were read. -/
theorem headingAfterTags_eq_some_iff {c : Cursor} {h : Heading} :
    c.headingAfterTags = some h ↔
      ∃ ts rest p, Parse.tags c = .ok (ts, rest) ∧ rest.peek = .ok p ∧ p.shape = .heading h := by
  induction c with
  | ended n =>
    constructor
    · nofun
    · rintro ⟨_, _, _, ⟨⟩, ⟨⟩, ⟨⟩⟩
  | failed f =>
    constructor
    · nofun
    · rintro ⟨_, _, _, ⟨⟩, -⟩
  | line l c ih =>
    cases hl : Parse.tagLine? l with
    | some ts =>
      have hkind : l.line.kind = .tags ts := Parse.tagLine?_eq_some.1 hl
      rw [headingAfterTags, hkind, Parse.tags_line hl]
      dsimp only
      rw [ih]
      constructor
      · rintro ⟨more, rest, p, htags, hp⟩
        exact ⟨_, rest, p, Parse.map_eq_ok.2 ⟨_, htags, rfl⟩, hp⟩
      · rintro ⟨_, rest, p, htags, hp⟩
        obtain ⟨⟨more, after⟩, hmore, hrest⟩ := Parse.map_eq_ok.1 htags
        obtain ⟨-, rfl⟩ := Prod.mk.inj hrest
        exact ⟨more, after, p, hmore, hp⟩
    | none =>
      rw [Parse.tags_other hl]
      constructor
      · intro hh
        refine ⟨_, _, _, rfl, rfl, ?_⟩
        cases hk : l.line.kind <;> simp_all [headingAfterTags, Parse.tagLine?, Line.Kind.shape]
      · rintro ⟨_, _, _, ⟨⟩, ⟨⟩, hp⟩
        cases hk : l.line.kind <;> simp_all [headingAfterTags, Parse.tagLine?, Line.Kind.shape]

theorem headingAfterTags_significant {stop : Cursor} (none : stop.lines = []) (blank : Bool)
    (ls : List Line) :
    (prepend (significant blank ls) stop).headingAfterTags = Window.firstHeading? ls := by
  induction ls generalizing blank with
  | nil => cases stop <;> first | rfl | cases none
  | cons l ls ih =>
    cases hl : l.kind with
    | blank | comment | tags _ =>
      simpa [significant, hl, headingAfterTags, prepend_cons, Window.firstHeading?] using ih _
    | _ => simp [significant, hl, headingAfterTags, prepend_cons, Window.firstHeading?]

end Cursor

namespace Window

/-- Taking the tag lines one by one is reading the tags of what is ahead. -/
theorem tags_view (w : Window) :
    (w.tags.map fun (ts, after) => (ts, after.view)) = Parse.tags w.view := by
  induction hn : w.size using Nat.strongRecOn generalizing w with
  | _ n ih =>
    cases shows w with
    | failed peek _ view => rw [view, tags_of_failed peek]; rfl
    | @ended looked peek _ view same =>
      have htags : Parse.tags w.view = .ok ([], w.view) := by rw [view]; rfl
      rw [tags_of_other peek (by simp), htags, ← same]
      rfl
    | @line l looked rest peek held take view same shorter =>
      by_cases hshape : l.line.kind.shape = .tags
      · obtain ⟨ts, hl⟩ := Line.Kind.exists_tags hshape
        have htags := Parse.tagLine?_eq_some.2 hl
        rw [tags_of_tags peek hshape held, view, Parse.tags_line htags,
          ← ih _ (hn ▸ shorter) rest rfl, htags]
        cases rest.tags <;> rfl
      · have hother := Parse.tagLine?_eq_none hshape
        rw [tags_of_other peek hshape, view, Parse.tags_other hother, ← view, ← same]
        rfl

theorem tagsLeadTo_iff {w : Window} {h : Heading} : w.TagsLeadTo h ↔
    ∃ ts rest p, Parse.tags w.view = .ok (ts, rest) ∧ rest.peek = .ok p ∧ p.shape = .heading h := by
  rw [← tags_view, TagsLeadTo]
  constructor
  · rintro ⟨ts, after, p, looked, htags, hpeek, hp⟩
    exact ⟨ts, after.view, p, Parse.map_eq_ok.2 ⟨_, htags, rfl⟩, by rw [view_peek, hpeek]; rfl, hp⟩
  · rintro ⟨ts, rest, p, htags, hpeek, hp⟩
    obtain ⟨⟨ts', after⟩, hw, hrest⟩ := Parse.map_eq_ok.1 htags
    obtain ⟨-, rfl⟩ := Prod.mk.inj hrest
    rw [view_peek] at hpeek
    obtain ⟨⟨seen, looked⟩, hafter, rfl⟩ := Parse.map_eq_ok.1 hpeek
    exact ⟨ts', after, seen, looked, hw, hafter, hp⟩

/-- Where a tag line is seen, the search in the reader is the one in what is ahead. -/
theorem headingAfterTags_view {w looked : Window} {seen : Peek} (peek : w.peek = .ok (seen, looked))
    (tagged : seen.shape = .tags) : w.view.headingAfterTags = w.headingAfterTags := by
  have hreader (n : Nat) :
      (Cursor.ofItems n false w.reader.items).headingAfterTags = w.headingAfterTags := by
    rw [Cursor.ofItems_eq_prepend, Cursor.headingAfterTags_significant, headingAfterTags]
    cases (untilFault w.reader.items).2 <;> rfl
  obtain ⟨r, _ | l⟩ := w
  · exact hreader _
  · obtain ⟨rfl, -⟩ := Prod.mk.inj (Except.ok.inj peek)
    obtain ⟨ts, hl⟩ := Line.Kind.exists_tags tagged
    have hheld : view ⟨r, some l⟩ = .line l (Cursor.ofItems (lastLine ⟨r, some l⟩) false r.items) :=
      rfl
    rw [hheld, Cursor.headingAfterTags, hl]
    exact hreader _

end Window

/-! ## The fault that is chosen -/

namespace Parse

section Tagged

variable {c : Cursor} {p : Peek} (hpeek : c.peek = .ok p) (tagged : p.shape = .tags)
include hpeek tagged

theorem examplesAhead?_of_tagged (found : c.headingAfterTags = some .examples) :
    examplesAhead? c = .error ⟨p.line, .taggedExamples⟩ := by
  rw [examplesAhead?, bind_ok hpeek, if_pos ⟨tagged, found⟩]
  rfl

theorem examplesAhead?_of_other (other : c.headingAfterTags ≠ some .examples) :
    examplesAhead? c = .ok none := by
  rw [examplesAhead?, bind_ok hpeek, if_neg fun h => other h.2, tagged]
  rfl

theorem examplesTables_of_tagged (found : c.headingAfterTags = some .examples)
    (first : Option (List String)) :
    examplesTables first c = .error ⟨p.line, .taggedExamples⟩ := by
  rw [examplesTables, examplesAhead?_of_tagged hpeek tagged found]
  rfl

theorem examplesTables_of_other (other : c.headingAfterTags ≠ some .examples)
    (first : Option (List String)) : examplesTables first c = .ok ([], c) := by
  rw [examplesTables, bind_ok (examplesAhead?_of_other hpeek tagged other)]
  rfl

end Tagged

end Parse

/-- Where a tag line is seen, the search for a heading behind the tag lines finds the one that is
seen when they are taken, and nothing if no heading is seen then or a fault comes first; it leaves
the window as it is. So where an outline has read its steps, it fails at the tag line if examples
come behind the tags, and at its own heading if they do not. -/
theorem tag_search_foretells {w looked : Window} {seen : Peek} (peek : w.peek = .ok (seen, looked))
    (tagged : seen.shape = .tags) :
    (∀ h, w.headingAfterTags = some h ↔ w.TagsLeadTo h) ∧
    (w.tags.map fun (ts, after) => (ts, after.ahead)) = Parse.tags w.ahead ∧
    w.ahead.headingAfterTags = w.headingAfterTags ∧
    (looked.headingAfterTags = w.headingAfterTags ∧ looked.peek = .ok (seen, looked)) ∧
    (w.TagsLeadTo .examples →
      (∀ first, Parse.examplesTables first w.ahead = .error ⟨seen.line, .taggedExamples⟩) ∧
      ∀ ts line name c b, Parse.block ts name c = .ok (b, w.ahead) →
        Parse.outlineBody ts line name c = .error ⟨seen.line, .taggedExamples⟩) ∧
    (¬w.TagsLeadTo .examples →
      (∀ first, Parse.examplesTables first w.ahead = .ok ([], w.ahead)) ∧
      ∀ ts line name c b, Parse.block ts name c = .ok (b, w.ahead) →
        Parse.outlineBody ts line name c = .error ⟨line, .missingExamples name⟩) := by
  have hsearch := Window.headingAfterTags_view peek tagged
  have hagain := Window.peek_again peek
  have hlooked := Window.headingAfterTags_view hagain tagged
  have hsame := Window.view_of_peek peek
  have hpeek : w.view.peek = .ok seen := by rw [Window.view_peek, peek]; rfl
  have hleads (h : Heading) : w.headingAfterTags = some h ↔ w.TagsLeadTo h := by
    rw [← hsearch, Cursor.headingAfterTags_eq_some_iff, Window.tagsLeadTo_iff]
  simp only [Window.ahead_eq_view]
  refine ⟨hleads, Window.tags_view w, hsearch, ⟨?_, hagain⟩, fun h => ?_, fun h => ?_⟩
  · rw [← hlooked, hsame, hsearch]
  · rw [← hleads, ← hsearch] at h
    have htables := Parse.examplesTables_of_tagged hpeek tagged h
    refine ⟨htables, fun ts line name c b hblock => ?_⟩
    rw [Parse.outlineBody, Parse.bind_ok hblock]
    dsimp only
    rw [htables]
    rfl
  · rw [← hleads, ← hsearch] at h
    have htables := Parse.examplesTables_of_other hpeek tagged h
    refine ⟨htables, fun ts line name c b hblock => ?_⟩
    rw [Parse.outlineBody, Parse.bind_ok hblock]
    dsimp only
    rw [Parse.bind_ok (htables none)]
    rfl

/-- Examples behind two tag lines with a blank line and a comment between them, and examples that
are not reached since the second tag line is none. -/
theorem tag_search_foretells_examples :
    let tagged := Window.ofText "@a\n\n# note\n@b\nExamples:\n"
    let broken := Window.ofText "@a\n@b c\nExamples:\n"
    (∃ looked, tagged.peek = .ok (⟨.tags, 1, false⟩, looked) ∧
      tagged.headingAfterTags = some .examples ∧ tagged.TagsLeadTo .examples ∧
      looked.peek = .ok (⟨.tags, 1, false⟩, looked) ∧
      Parse.examplesTables none tagged.ahead = .error ⟨1, .taggedExamples⟩) ∧
    ∃ looked, broken.peek = .ok (⟨.tags, 1, false⟩, looked) ∧ broken.headingAfterTags = none ∧
      ¬broken.TagsLeadTo .examples ∧
      Parse.examplesTables none broken.ahead = .ok ([], broken.ahead) := by
  intro tagged broken
  have hpeek {w : Window} (h : w.peek.map Prod.fst = .ok ⟨.tags, 1, false⟩) :
      ∃ looked, w.peek = .ok (⟨.tags, 1, false⟩, looked) := by
    obtain ⟨⟨seen, looked⟩, hw, rfl⟩ := Parse.map_eq_ok.1 h
    exact ⟨looked, hw⟩
  have hfound : tagged.headingAfterTags = some .examples := by decide +kernel
  have hmissed : broken.headingAfterTags = none := by decide +kernel
  obtain ⟨looked, htagged⟩ := hpeek (w := tagged) (by decide +kernel)
  obtain ⟨looked', hbroken⟩ := hpeek (w := broken) (by decide +kernel)
  obtain ⟨hleads, -, -, ⟨-, hagain⟩, hchosen, -⟩ := tag_search_foretells htagged rfl
  obtain ⟨hleads', -, -, -, -, hchosen'⟩ := tag_search_foretells hbroken rfl
  have hexamples := (hleads .examples).1 hfound
  have hnone : ¬broken.TagsLeadTo .examples := by simp [← hleads', hmissed]
  exact ⟨⟨looked, htagged, hfound, hexamples, hagain, (hchosen hexamples).1 none⟩,
    looked', hbroken, hmissed, hnone, (hchosen' hnone).1 none⟩

end Gherkin
