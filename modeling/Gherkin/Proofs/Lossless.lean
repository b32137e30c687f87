import Gherkin.Proofs.Codec

/-
  What is kept when the model is written as JSON text and read again: everything. The JSON form of
  each type is not nested deeper than a reader allows, so both of its texts decode to the value, and
  the compact one is a single line.
-/

namespace Gherkin

open Json

/-! ## The depth of a form -/

section Depth

variable (n : Nat)

theorem plain_array_map {α : Type} {toJson : α → Json} {l : List α}
    (h : ∀ a ∈ l, Plain n (toJson a)) : Plain (n + 1) (.array (l.map toJson)) := by
  refine .array fun v hv => ?_
  obtain ⟨a, ha, rfl⟩ := List.mem_map.1 hv
  exact h a ha

theorem plain_optionalMember {α : Type} {key : String} {toJson : α → Json} {o : Option α}
    (h : ∀ a ∈ o, Plain n (toJson a)) : ∀ m ∈ optionalMember key toJson o, Plain n m.2 := by
  cases o with
  | none => exact fun m hm => absurd hm List.not_mem_nil
  | some a =>
    intro m hm
    obtain rfl := List.mem_singleton.1 hm
    exact h a rfl

theorem Bindings.plain_toJson (b : Bindings) : Plain (n + 1) b.toJson := by
  refine .object fun m hm => ?_
  obtain ⟨e, -, rfl⟩ := List.mem_map.1 hm
  exact .string e.2

theorem Table.plain_toJson (t : Table) : Plain (n + 3) t.toJson := by
  refine .object fun m hm => ?_
  simp only [List.mem_cons, List.not_mem_nil, or_false] at hm
  rcases hm with rfl | rfl
  · exact plain_array_map (n + 1) fun s _ => .string s
  · exact plain_array_map (n + 1) fun b _ => b.plain_toJson n

theorem Argument.plain_toJson (a : Argument) : Plain (n + 4) a.toJson := by
  cases a with
  | table t =>
    refine .object fun m hm => ?_
    obtain rfl := List.mem_singleton.1 hm
    exact t.plain_toJson n
  | docString s =>
    refine .object fun m hm => ?_
    obtain rfl := List.mem_singleton.1 hm
    exact .string s

theorem Step.plain_toJson (s : Step) : Plain (n + 5) s.toJson := by
  refine .object fun m hm => ?_
  rcases List.mem_append.1 hm with hm | hm
  · simp only [List.mem_cons, List.not_mem_nil, or_false] at hm
    rcases hm with rfl | rfl
    · exact .string _
    · exact .string _
  · exact plain_optionalMember (n + 4) (fun a _ => a.plain_toJson n) m hm

theorem plain_openingMembers (name : String) (description : Option String) (tags : List Tag) :
    ∀ m ∈ openingMembers name description tags, Plain (n + 1) m.2 := by
  intro m hm
  rw [openingMembers_eq] at hm
  rcases List.mem_cons.1 hm with rfl | hm
  · exact .string name
  · rcases List.mem_append.1 hm with hm | hm
    · exact plain_optionalMember (n + 1) (fun s _ => .string s) m hm
    · refine plain_optionalMember (n + 1) (fun ts _ => ?_) m hm
      exact plain_array_map n fun t _ => .string t.name

theorem Block.plain_members (b : Block) : ∀ m ∈ b.members, Plain (n + 6) m.2 := by
  intro m hm
  rcases List.mem_append.1 hm with hm | hm
  · exact plain_openingMembers (n + 5) _ _ _ m hm
  · obtain rfl := List.mem_singleton.1 hm
    exact plain_array_map (n + 5) fun s _ => s.plain_toJson n

theorem Block.plain_toJson (b : Block) : Plain (n + 7) b.toJson := .object (b.plain_members n)

theorem Outline.plain_toJson (o : Outline) : Plain (n + 7) o.toJson := by
  refine .object fun m hm => ?_
  rcases List.mem_append.1 hm with hm | hm
  · exact o.plain_members n m hm
  · obtain rfl := List.mem_singleton.1 hm
    exact plain_array_map (n + 5) fun b _ => b.plain_toJson (n + 4)

theorem Scenario.plain_toJson (s : Scenario) : Plain (n + 7) s.toJson := by
  cases s with
  | simple b => exact b.plain_toJson n
  | outline o => exact o.plain_toJson n

theorem Feature.plain_toJson (f : Feature) : Plain (n + 9) f.toJson := by
  refine .object fun m hm => ?_
  rcases List.mem_append.1 hm with hm | hm
  · rcases List.mem_append.1 hm with hm | hm
    · exact plain_openingMembers (n + 7) _ _ _ m hm
    · exact plain_optionalMember (n + 8) (fun b _ => b.plain_toJson (n + 1)) m hm
  · obtain rfl := List.mem_singleton.1 hm
    exact plain_array_map (n + 7) fun s _ => s.plain_toJson n

end Depth

/-! ## Texts -/

/-- Both texts of a value decode to the value, and the compact one is a single line. -/
structure Lossless {α : Type} (toJson : α → Json) (decode : Draft → Except DecodeError α)
    (a : α) : Prop where
  compact : decodeText decode (toJson a).toCompact = .ok a
  indented : decodeText decode (toJson a).toIndented = .ok a
  newline : '\n' ∉ (toJson a).toCompact.toList
  carriageReturn : '\r' ∉ (toJson a).toCompact.toList

theorem lossless_of_plain {α : Type} {toJson : α → Json} {decode : Draft → Except DecodeError α}
    {a : α} (h : Plain Draft.depthLimit (toJson a)) (hd : decodeJson decode (toJson a) = .ok a) :
    Lossless toJson decode a where
  compact := (decodeText_toCompact decode h).trans hd
  indented := (decodeText_toIndented decode h).trans hd
  newline := not_mem_toCompact h (by decide)
  carriageReturn := not_mem_toCompact h (by decide)

/-- A text or a JSON value decodes to the value. -/
def Decoded {α : Type} (decode : Draft → Except DecodeError α) (a : α) : Prop :=
  (∃ text, decodeText decode text = .ok a) ∨ ∃ j, decodeJson decode j = .ok a

theorem Decoded.exists_draft {α : Type} {decode : Draft → Except DecodeError α} {a : α}
    (h : Decoded decode a) : ∃ d, decode d = .ok a := by
  rcases h with ⟨text, h⟩ | ⟨j, h⟩
  · exact ⟨_, (decodeText_eq_ok_iff.1 h).1⟩
  · exact ⟨_, h⟩

theorem Scenario.WellFormed.exampled {s : Scenario} (h : s.WellFormed) : s.Exampled := by
  cases s with
  | simple b => trivial
  | outline o =>
    obtain ⟨header, hrows⟩ := Outline.WellFormed.examples h
    exact hrows.nonempty

/-- The JSON texts of the model are lossless where every outline has an example, as it has in every
model that is parsed or decoded. -/
theorem json_lossless :
    (∀ f : Feature, f.Exampled → Lossless Feature.toJson Feature.decode f) ∧
      (∀ b : Block, Lossless Block.toJson Block.decodeBackground b) ∧
      (∀ s : Scenario, s.Exampled → Lossless Scenario.toJson Scenario.decode s) ∧
      (∀ b : Block, Lossless Block.toJson Block.decodeSimple b) ∧
      (∀ o : Outline, o.examples ≠ [] → Lossless Outline.toJson Outline.decode o) ∧
      (∀ s : Step, Lossless Step.toJson Step.decode s) ∧
      (∀ a : Argument, Lossless Argument.toJson Argument.decode a) ∧
      (∀ t : Table, Lossless Table.toJson Table.decode t) ∧
      (∀ b : Bindings, Lossless Bindings.toJson Bindings.decode b) ∧
      (∀ t : Tag, Lossless Tag.toJson Tag.decode t) ∧
      (∀ k : StepKeyword, Lossless StepKeyword.toJson StepKeyword.decode k) ∧
      (∀ text f, Feature.ofText text = .ok f → f.Exampled) ∧
      (∀ text s, Scenario.ofText text = .ok s → s.Exampled) ∧
      (∀ f, Decoded Feature.decode f → f.Exampled) ∧
      (∀ s, Decoded Scenario.decode s → s.Exampled) ∧
      (∀ o, Decoded Outline.decode o → o.examples ≠ []) := by
  refine ⟨?_, ?_, ?_, ?_, ?_, ?_, ?_, ?_, ?_, ?_, ?_, ?_, ?_, ?_, ?_, ?_⟩
  · exact fun f h => lossless_of_plain (f.plain_toJson 118) (Feature.decodeJson_toJson h)
  · exact fun b => lossless_of_plain (b.plain_toJson 120) b.decodeJson_toJson_background
  · exact fun s h => lossless_of_plain (s.plain_toJson 120) (Scenario.decodeJson_toJson h)
  · exact fun b => lossless_of_plain (b.plain_toJson 120) b.decodeJson_toJson_simple
  · exact fun o h => lossless_of_plain (o.plain_toJson 120) (Outline.decodeJson_toJson h)
  · exact fun s => lossless_of_plain (s.plain_toJson 122) s.decodeJson_toJson
  · exact fun a => lossless_of_plain (a.plain_toJson 123) a.decodeJson_toJson
  · exact fun t => lossless_of_plain (t.plain_toJson 124) t.decodeJson_toJson
  · exact fun b => lossless_of_plain (b.plain_toJson 126) b.decodeJson_toJson
  · exact fun t => lossless_of_plain (.string t.name) t.decodeJson_toJson
  · exact fun k => lossless_of_plain (.string k.key) k.decodeJson_toJson
  · exact fun text f h s hs => ((Feature.wellFormed_ofText h).scenarios s hs).exampled
  · exact fun text s h => (Scenario.wellFormed_ofText h).exampled
  · intro f h
    obtain ⟨d, hd⟩ := h.exists_draft
    exact Feature.exampled_of_decode hd
  · intro s h
    obtain ⟨d, hd⟩ := h.exists_draft
    exact Scenario.exampled_of_decode hd
  · intro o h
    obtain ⟨d, hd⟩ := h.exists_draft
    exact Outline.examples_ne_nil_of_decode hd

/-- An outline with an example, in a scenario and in a feature. -/
theorem json_lossless_outline :
    let o : Outline := ⟨⟨"O", none, [⟨"t"⟩], []⟩, [Bindings.ofList [("x", "1"), ("y", "\"")]]⟩
    let f : Feature := ⟨"F", some "d", [], none, [.outline o]⟩
    Lossless Outline.toJson Outline.decode o ∧ Decoded Outline.decode o ∧ o.examples ≠ [] ∧
      Lossless Scenario.toJson Scenario.decode (.outline o) ∧
      Decoded Scenario.decode (.outline o) ∧ (Scenario.outline o).Exampled ∧
      Lossless Feature.toJson Feature.decode f ∧ Decoded Feature.decode f ∧ f.Exampled ∧
      (∃ g, Feature.ofText "Feature: F\nScenario Outline: O\nExamples:\n|x|\n|1|" = .ok g ∧
        g.Exampled) ∧
      ∃ s, Scenario.ofText "Scenario Outline: O\nExamples:\n|x|\n|1|" = .ok s ∧ s.Exampled := by
  intro o f
  obtain ⟨ofFeature, -, ofScenario, -, ofOutline, -, -, -, -, -, -, readFeature, readScenario,
    decodedFeature, decodedScenario, decodedOutline⟩ := json_lossless
  have ho : Lossless Outline.toJson Outline.decode o := ofOutline o (by decide)
  have hs : Lossless Scenario.toJson Scenario.decode (.outline o) :=
    ofScenario (.outline o) (show o.examples ≠ [] by decide)
  have hf : Lossless Feature.toJson Feature.decode f :=
    ofFeature f (by simp [Feature.Exampled, Scenario.Exampled, f, o])
  have decodedO : Decoded Outline.decode o := .inl ⟨_, ho.compact⟩
  have decodedS : Decoded Scenario.decode (.outline o) := .inl ⟨_, hs.compact⟩
  have decodedF : Decoded Feature.decode f := .inl ⟨_, hf.compact⟩
  refine ⟨ho, decodedO, decodedOutline o decodedO, hs, decodedS, decodedScenario _ decodedS, hf,
    decodedF, decodedFeature f decodedF, ?_, ?_⟩
  · refine exists_ok_and ?_ (readFeature _)
    decide +kernel
  · refine exists_ok_and ?_ (readScenario _)
    decide +kernel

end Gherkin
