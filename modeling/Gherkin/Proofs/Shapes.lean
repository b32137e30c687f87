import Gherkin.Proofs.Lossless

/-
  The two shapes of a scenario exclude each other. An outline is made of five fields, of which the
  last must be given; a plain scenario takes the first four only. So an object that is an outline
  has a member that a plain scenario refuses, and an array that is an outline has an item too many
  (`Outline.decodeSimple_ne_ok`). A scenario is then whichever of the two its value is, in whatever
  order they are tried (`scenario_shapes_exclusive`). A scenario needs its whole value to be sound,
  and so do both shapes, since a decoder meets every part of what it takes (`Faultless`).
-/

namespace Gherkin

open Json

/-! ## Decoders take sound drafts only -/

/-- What the decoder takes has no fault in it. -/
def Faultless {α : Type} (decode : Draft → Except DecodeError α) : Prop :=
  ∀ d a, decode d = .ok a → d.sound = true

/-- A fold that ends well takes every element. -/
theorem exists_ok_of_foldlM {ε α σ : Type} {f : σ → α → Except ε σ} {l : List α} {p q : σ}
    (h : l.foldlM f p = .ok q) : ∀ a ∈ l, ∃ p q, f p a = .ok q := by
  refine foldlM_induction (R := fun l _ => ∀ a ∈ l, ∃ p q, f p a = .ok q) ?_ (by simp) h
  intro l a p q ih hpq x hx
  rcases List.mem_append.1 hx with hx | hx
  · exact ih x hx
  · obtain rfl := List.mem_singleton.1 hx
    exact ⟨p, q, hpq⟩

namespace Json

theorem Draft.soundItems_iff {ds : List Draft} :
    soundItems ds = true ↔ ∀ d ∈ ds, d.sound = true := by
  induction ds with
  | nil => simp [soundItems]
  | cons d ds ih => rw [soundItems, Bool.and_eq_true, ih, List.forall_mem_cons]

theorem Draft.soundMembers_iff {ms : List (Option String × Draft)} :
    soundMembers ms = true ↔ ∀ m ∈ ms, m.1.isSome = true ∧ m.2.sound = true := by
  induction ms with
  | nil => simp [soundMembers]
  | cons m ms ih =>
    rw [soundMembers, Bool.and_eq_true, Bool.and_eq_true, ih, List.forall_mem_cons]

theorem faultless_asString : Faultless Draft.asString := by
  intro d s h
  cases d with
  | string s => rfl
  | _ => cases h

theorem faultless_asNull : Faultless Draft.asNull := by
  intro d u h
  cases d with
  | null => rfl
  | _ => cases h

section Containers

variable {α : Type} {value : Draft → Except DecodeError α}

theorem faultless_asList (hvalue : Faultless value) : Faultless (Draft.asList value) := by
  intro d l h
  cases d with
  | array items =>
    refine Draft.soundItems_iff.2 fun d hd => ?_
    obtain ⟨a, -, ha⟩ := exists_of_forall₂ (forall₂_of_mapM_eq_ok h).flip d hd
    exact hvalue d a ha
  | _ => cases h

theorem faultless_asOption (hvalue : Faultless value) : Faultless (Draft.asOption value) := by
  intro d o h
  cases d with
  | null => rfl
  | _ =>
    obtain ⟨a, ha, -⟩ := Parse.map_eq_ok.1 h
    exact hvalue _ a ha

theorem faultless_map {β : Type} {f : α → β} (hvalue : Faultless value) :
    Faultless fun d => (value d).map f := by
  intro d b h
  obtain ⟨a, ha, -⟩ := Parse.map_eq_ok.1 h
  exact hvalue d a ha

theorem faultless_alternative {κ : Type} {name : String → Except DecodeError κ}
    {bare : κ → Except DecodeError α} {value : κ → Draft → Except DecodeError α}
    (hvalue : ∀ k, Faultless (value k)) : Faultless (alternative name bare value) := by
  intro d a h
  unfold alternative at h
  split at h
  · rfl
  · obtain ⟨k, -, h⟩ := Parse.bind_eq_ok.1 h
    obtain ⟨b, hb, h⟩ := Parse.bind_eq_ok.1 h
    split at h
    · rename_i hmore
      obtain rfl := List.isEmpty_iff.1 hmore
      refine Draft.soundMembers_iff.2 ?_
      simpa using hvalue k _ b hb
    · exact (Parse.throw_eq_ok.1 h).elim
  · cases h

/-- A structure takes sound drafts if each field does. -/
theorem Record.faultless {σ : Type} {r : Record σ α}
    (hput : ∀ key ∈ r.fields, ∀ d p q, r.put key d p = .ok q → d.sound = true) :
    Faultless r.decode := by
  intro d a h
  obtain ⟨ms, -, q, hreads, hq, -⟩ := Record.reads_of_decode h
  have hkeys : ∀ m ∈ ms, m.1 ∈ r.fields := by
    cases hreads with
    | object hfields => exact hfields
    | array hlength => exact fun m hm => (List.of_mem_zip hm).1
  have hsound : ∀ m ∈ ms, m.2.sound = true := by
    intro m hm
    obtain ⟨p, q, hpq⟩ := exists_ok_of_foldlM hq m hm
    exact hput m.1 (hkeys m hm) m.2 p q hpq
  cases hreads with
  | object _ =>
    refine Draft.soundMembers_iff.2 fun m hm => ?_
    obtain ⟨x, hx, rfl⟩ := List.mem_map.1 hm
    exact ⟨rfl, hsound x hx⟩
  | @array items hlength =>
    refine Draft.soundItems_iff.2 fun x hx => ?_
    rw [← List.map_snd_zip hlength] at hx
    obtain ⟨m, hm, rfl⟩ := List.mem_map.1 hx
    exact hsound m hm

end Containers

end Json

theorem StepKeyword.faultless_decode : Faultless StepKeyword.decode :=
  faultless_alternative fun _ => faultless_map faultless_asNull

theorem Tag.faultless_decode : Faultless Tag.decode := faultless_map faultless_asString

theorem Bindings.faultless_decode : Faultless Bindings.decode := by
  intro d b h
  cases d with
  | object members =>
    refine Draft.soundMembers_iff.2 fun m hm => ?_
    obtain ⟨p, q, hpq⟩ := exists_ok_of_foldlM h m hm
    obtain ⟨_ | key, value⟩ := m
    · cases hpq
    · obtain ⟨v, hv, -⟩ := Parse.map_eq_ok.1 hpq
      exact ⟨rfl, faultless_asString value v hv⟩
  | _ => cases h

theorem Table.faultless_decode : Faultless Table.decode := by
  refine Record.faultless fun key hkey d p q h => ?_
  change TableParts.put key d p = .ok q at h
  unfold TableParts.put at h
  split at h
  · obtain ⟨header, hheader, -⟩ := of_fill_map h
    exact faultless_asList faultless_asString d header hheader
  · obtain ⟨rows, hrows, -⟩ := of_fill_map h
    exact faultless_asList Bindings.faultless_decode d rows hrows
  · simp_all [Table.record]

theorem Argument.faultless_decode : Faultless Argument.decode := by
  refine faultless_alternative fun k => ?_
  cases k with
  | table => exact faultless_map Table.faultless_decode
  | docString => exact faultless_map faultless_asString

theorem Step.faultless_decode : Faultless Step.decode := by
  refine Record.faultless fun key hkey d p q h => ?_
  change StepParts.put key d p = .ok q at h
  unfold StepParts.put at h
  split at h
  · obtain ⟨keyword, hkeyword, -⟩ := of_fill_map h
    exact StepKeyword.faultless_decode d keyword hkeyword
  · obtain ⟨text, htext, -⟩ := of_fill_map h
    exact faultless_asString d text htext
  · obtain ⟨argument, hargument, -⟩ := of_fill_map h
    exact faultless_asOption Argument.faultless_decode d argument hargument
  · simp_all [Step.record]

theorem BlockParts.sound_of_put {key : String} (hkey : key ∈ Block.fieldNames) {d : Draft}
    {p q : BlockParts} (h : p.put key d = .ok q) : d.sound = true := by
  unfold put at h
  split at h
  · obtain ⟨name, hname, -⟩ := of_fill_map h
    exact faultless_asString d name hname
  · obtain ⟨description, hdescription, -⟩ := of_fill_map h
    exact faultless_asOption faultless_asString d description hdescription
  · obtain ⟨tags, htags, -⟩ := of_fill_map h
    exact faultless_asList Tag.faultless_decode d tags htags
  · obtain ⟨steps, hsteps, -⟩ := of_fill_map h
    exact faultless_asList Step.faultless_decode d steps hsteps
  · simp_all [Block.fieldNames]

theorem Block.faultless_decodeSimple : Faultless Block.decodeSimple :=
  Record.faultless fun _ hkey _ _ _ h => BlockParts.sound_of_put hkey h

theorem Outline.faultless_decodeExamples : Faultless Outline.decodeExamples := by
  intro d rows h
  obtain ⟨read, hread, -⟩ := Parse.bind_eq_ok.1 h
  exact faultless_asList Bindings.faultless_decode d read hread

theorem Outline.faultless_decode : Faultless Outline.decode := by
  refine Record.faultless fun key hkey d p q h => ?_
  change OutlineParts.put key d p = .ok q at h
  unfold OutlineParts.put at h
  split at h
  · obtain ⟨rows, hrows, -⟩ := of_fill_map h
    exact Outline.faultless_decodeExamples d rows hrows
  · obtain ⟨block, hblock, -⟩ := Parse.map_eq_ok.1 h
    refine BlockParts.sound_of_put ?_ hblock
    simp_all [Outline.record, Block.fieldNames]

/-! ## Exclusion -/

/-- The examples of an outline are among the fields of its draft. -/
theorem Outline.examples_mem_of_decode {d : Draft} {o : Outline} (h : decode d = .ok o) :
    ∃ ms, record.Reads d ms ∧ ∃ m ∈ ms, m.1 = "examples" := by
  obtain ⟨ms, missing, p, hreads, hp, hfinish⟩ := Record.reads_of_decode h
  have hgiven : p.examples ≠ none → ∃ m ∈ ms, m.1 = "examples" := by
    refine foldlM_induction (R := fun l p => p.examples ≠ none → ∃ m ∈ l, m.1 = "examples")
      ?_ (fun hnone => absurd rfl hnone) hp
    intro l m p q ih hput hq
    change OutlineParts.put m.1 m.2 p = .ok q at hput
    unfold OutlineParts.put at hput
    split at hput
    · rename_i hkey
      exact ⟨m, by simp, hkey⟩
    · obtain ⟨block, -, rfl⟩ := Parse.map_eq_ok.1 hput
      obtain ⟨x, hx, hkey⟩ := ih hq
      exact ⟨x, List.mem_append_left _ hx, hkey⟩
  obtain ⟨_, -, hfinish⟩ := Parse.bind_eq_ok.1 hfinish
  obtain ⟨rows, hrows, -⟩ := Parse.bind_eq_ok.1 hfinish
  refine ⟨ms, hreads, hgiven ?_⟩
  rw [eq_some_of_require hrows]
  exact Option.some_ne_none rows

/-- A draft is not both an outline and a plain scenario. -/
theorem Outline.decodeSimple_ne_ok {d : Draft} {o : Outline} (h : decode d = .ok o) (b : Block) :
    Block.decodeSimple d ≠ .ok b := by
  intro hb
  obtain ⟨ms, hreads, m, hm, hkey⟩ := Outline.examples_mem_of_decode h
  obtain ⟨_, _, _, hsimple, -⟩ := Record.reads_of_decode hb
  cases hreads with
  | object _ =>
    have hmem : (some "examples", m.2) ∈ ms.map fun m => (some m.1, m.2) :=
      List.mem_map.2 ⟨m, hm, by rw [hkey]⟩
    exact absurd (hsimple.mem_fields hmem) (by decide)
  | @array items _ =>
    have hlength : items.length ≤ 4 := hsimple.length_le
    have hlast : ∀ i < 4, ∀ hi : i < record.fields.length, record.fields[i] ≠ "examples" := by
      decide
    obtain ⟨i, hi, rfl⟩ := List.getElem_of_mem hm
    rw [List.getElem_zip] at hkey
    rw [List.length_zip] at hi
    exact hlast i (by omega) (by omega) hkey

/-- A scenario, tried as an outline first. -/
def Scenario.decodeOutlineFirst (d : Draft) : Except DecodeError Scenario :=
  if d.sound then
    match Outline.decode d with
    | .ok o => .ok (.outline o)
    | .error _ =>
      match Block.decodeSimple d with
      | .ok b => .ok (.simple b)
      | .error _ => .error (.noAlternative "Scenario")
  else .error .malformed

theorem Scenario.decodeOutlineFirst_eq : decodeOutlineFirst = decode := by
  funext d
  unfold decodeOutlineFirst decode
  cases ho : Outline.decode d with
  | error e => rfl
  | ok o =>
    cases hb : Block.decodeSimple d with
    | error e => rfl
    | ok b => exact absurd hb (Outline.decodeSimple_ne_ok ho b)

theorem Scenario.decode_eq_ok_iff {d : Draft} {s : Scenario} :
    decode d = .ok s ↔ (∃ b, Block.decodeSimple d = .ok b ∧ s = .simple b) ∨
      ∃ o, Outline.decode d = .ok o ∧ s = .outline o := by
  constructor
  · intro h
    unfold decode at h
    split at h
    · split at h
      · rename_i b hb
        exact .inl ⟨b, hb, (Except.ok.inj h).symm⟩
      · split at h
        · rename_i o ho
          exact .inr ⟨o, ho, (Except.ok.inj h).symm⟩
        · cases h
    · cases h
  · rintro (⟨b, hb, rfl⟩ | ⟨o, ho, rfl⟩)
    · rw [decode, if_pos (Block.faultless_decodeSimple d b hb), hb]
    · rw [← decodeOutlineFirst_eq, decodeOutlineFirst, if_pos (Outline.faultless_decode d o ho), ho]

/-! ## Values and texts -/

/-- How the decoders of scenarios stand to each other on one input, on which `run` runs them. -/
structure ShapesExclude
    (run : ∀ {α : Type}, (Draft → Except DecodeError α) → Except DecodeError α) : Prop where
  exclusive : ∀ b o, run Block.decodeSimple = .ok b → run Outline.decode ≠ .ok o
  scenario : ∀ s, run Scenario.decode = .ok s ↔
    (∃ b, run Block.decodeSimple = .ok b ∧ s = .simple b) ∨
      ∃ o, run Outline.decode = .ok o ∧ s = .outline o
  outlineFirst : run Scenario.decodeOutlineFirst = run Scenario.decode

/-- The decoders stand to each other as on a draft that the input is read as, if nothing but the
input decides whether a decoded value is taken. -/
theorem ShapesExclude.of_draft
    {run : ∀ {α : Type}, (Draft → Except DecodeError α) → Except DecodeError α} (d : Draft)
    (taken : Prop) (h : ∀ {α : Type} (decode : Draft → Except DecodeError α) (a : α),
      run decode = .ok a ↔ decode d = .ok a ∧ taken) : ShapesExclude run where
  exclusive b o hb ho :=
    Outline.decodeSimple_ne_ok ((h Outline.decode o).1 ho).1 b ((h Block.decodeSimple b).1 hb).1
  scenario s := by
    simp only [h, Scenario.decode_eq_ok_iff, or_and_right, ← exists_and_right, and_right_comm]
  outlineFirst := by rw [Scenario.decodeOutlineFirst_eq]

theorem shapesExclude_decodeJson (j : Json) : ShapesExclude (decodeJson · j) :=
  .of_draft (Draft.ofJson j) True fun _ _ => (and_true _).symm.to_iff

theorem shapesExclude_decodeText (text : String) : ShapesExclude (decodeText · text) :=
  .of_draft (Draft.read text).finish _ fun _ _ => decodeText_eq_ok_iff

/-- At most one of the two shapes of a scenario decodes an input, be it a JSON value or a text; a
scenario is decoded from it exactly if one of them is, as that one, and trying the outline first
makes no difference. No outline without examples is decoded, alone or in a feature. -/
theorem scenario_shapes_exclusive :
    (∀ j : Json, ShapesExclude (decodeJson · j)) ∧
      (∀ text : String, ShapesExclude (decodeText · text)) ∧
      (∀ s, Decoded Scenario.decode s → s.Exampled) ∧
      ∀ f, Decoded Feature.decode f → f.Exampled := by
  refine ⟨shapesExclude_decodeJson, shapesExclude_decodeText, fun s h => ?_, fun f h => ?_⟩
  · obtain ⟨d, hd⟩ := h.exists_draft
    exact Scenario.exampled_of_decode hd
  · obtain ⟨d, hd⟩ := h.exists_draft
    exact Feature.exampled_of_decode hd

/-- An outline that is written as an array, alone, in a feature and as a text. -/
theorem scenario_shapes_exclusive_array :
    let j : Json := .array [.string "O", .null, .array [], .array [],
      .array [.object [("x", .string "1")]]]
    (∃ o, decodeJson Outline.decode j = .ok o ∧
      decodeJson Scenario.decode j = .ok (.outline o) ∧ (Scenario.outline o).Exampled ∧
      ∀ b, decodeJson Block.decodeSimple j ≠ .ok b) ∧
    (∃ f, decodeJson Feature.decode (.array [.string "F", .null, .array [], .null, .array [j]]) =
      .ok f ∧ f.Exampled) ∧
    ∃ b, decodeText Block.decodeSimple "[\"S\",null,[],[]]" = .ok b ∧
      ∀ o, decodeText Outline.decode "[\"S\",null,[],[]]" ≠ .ok o := by
  intro j
  obtain ⟨values, texts, exampled, exampledFeature⟩ := scenario_shapes_exclusive
  refine ⟨exists_ok_and (by decide +kernel) fun o ho => ?_,
    exists_ok_and (by decide +kernel) fun f hf => exampledFeature f (.inr ⟨_, hf⟩),
    exists_ok_and (by decide +kernel) fun b hb o => (texts _).exclusive b o hb⟩
  have hs := ((values j).scenario (.outline o)).2 (.inr ⟨o, ho, rfl⟩)
  exact ⟨hs, exampled _ (.inr ⟨j, hs⟩), fun b hb => (values j).exclusive b o hb ho⟩

end Gherkin
