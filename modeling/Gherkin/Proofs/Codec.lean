import Gherkin.Codec.Decode
import Gherkin.Proofs.Invariant
import Gherkin.Proofs.JsonText

/-
  Decoding gives back what was encoded. Each decoder gives back the value whose JSON form it is
  given (`decodeJson_toJson` of each type); a plain scenario is not taken for an outline, nor an
  outline for a plain scenario. An outline must have an example, as every decoded one has.
-/

namespace Gherkin

open Json

/-! ## Lists, options and members -/

theorem mapM_map_eq_ok {ε α β : Type} {f : β → Except ε α} {g : α → β} {l : List α}
    (h : ∀ a ∈ l, f (g a) = .ok a) : (l.map g).mapM f = .ok l := by
  induction l with
  | nil => rfl
  | cons a l ih =>
    obtain ⟨ha, hl⟩ := List.forall_mem_cons.1 h
    rw [List.map_cons, List.mapM_cons, ha, ih hl]
    rfl

namespace Json

theorem asString_ofJson (s : String) : Draft.asString (Draft.ofJson (.string s)) = .ok s := rfl

theorem asList_ofJson {α : Type} {item : Draft → Except DecodeError α} {toJson : α → Json}
    {l : List α} (h : ∀ a ∈ l, decodeJson item (toJson a) = .ok a) :
    Draft.asList item (Draft.ofJson (.array (l.map toJson))) = .ok l := by
  rw [Draft.ofJson, Draft.asList, Draft.ofItems_eq_map, List.map_map]
  exact mapM_map_eq_ok h

theorem asOption_eq_map {α : Type} {value : Draft → Except DecodeError α} {d : Draft}
    (hd : d ≠ .null) : Draft.asOption value d = (value d).map some := by
  cases d with
  | null => exact absurd rfl hd
  | _ => rfl

theorem asOption_of_ne_null {α : Type} {value : Draft → Except DecodeError α} {d : Draft} {a : α}
    (hd : d ≠ .null) (h : value d = .ok a) : Draft.asOption value d = .ok (some a) := by
  rw [asOption_eq_map hd, h]
  rfl

namespace Record

variable {σ α : Type} {r : Record σ α} {p q : σ} {key : String} {ms : List (String × Json)}

/-- The parts of a structure after some more members of its object. -/
def gather (r : Record σ α) (p : σ) (ms : List (String × Json)) : Except DecodeError σ :=
  (Draft.ofMembers ms).foldlM r.putMember p

theorem decodeJson_object {a : α} (h : r.gather r.start ms = .ok p)
    (hf : r.finish .missingField p = .ok a) : decodeJson r.decode (.object ms) = .ok a := by
  show (r.gather r.start ms >>= r.finish .missingField) = .ok a
  rw [h]
  exact hf

theorem gather_cons {v : Json} (hk : key ∈ r.fields)
    (h : r.put key (Draft.ofJson v) p = .ok q) :
    r.gather p ((key, v) :: ms) = r.gather q ms := by
  unfold gather
  rw [Draft.ofMembers, List.foldlM_cons, putMember, if_pos hk, h]
  rfl

/-- A member that may be left out. -/
theorem gather_optionalMember {β : Type} {toJson : β → Json} {o : Option β} (hk : key ∈ r.fields)
    (absent : o = none → q = p)
    (present : ∀ b ∈ o, r.put key (Draft.ofJson (toJson b)) p = .ok q) :
    r.gather p (optionalMember key toJson o ++ ms) = r.gather q ms := by
  cases o with
  | none => rw [absent rfl, optionalMember, List.nil_append]
  | some b => exact gather_cons hk (present b rfl)

end Record

theorem fill_map {β σ : Type} {field : String} {value : Draft → Except DecodeError β} {d : Draft}
    {b : β} {f : Option β → σ} (h : value d = .ok b) :
    (fill field value none d).map f = .ok (f (some b)) := by
  rw [fill, h]
  rfl

end Json

/-! ## Steps and what is attached to them -/

theorem StepKeyword.decodeJson_toJson (k : StepKeyword) :
    decodeJson StepKeyword.decode k.toJson = .ok k := by
  cases k <;> rfl

theorem Tag.decodeJson_toJson (t : Tag) : decodeJson Tag.decode t.toJson = .ok t := rfl

theorem Bindings.foldlM_putMember (b : Bindings) (es : List (String × String)) :
    (es.map fun e => (some e.1, Draft.string e.2)).foldlM Bindings.putMember b =
      .ok (es.foldl (fun b e => b.insert e.1 e.2) b) := by
  induction es generalizing b with
  | nil => rfl
  | cons e es ih => exact ih (b.insert e.1 e.2)

theorem Bindings.decodeJson_toJson (b : Bindings) :
    decodeJson Bindings.decode b.toJson = .ok b := by
  rw [decodeJson, toJson, Draft.ofJson, decode, Draft.ofMembers_eq_map, List.map_map]
  refine (foldlM_putMember .empty b.entries).trans ?_
  exact congrArg Except.ok (ofList_entries b)

theorem Table.decodeJson_toJson (t : Table) : decodeJson Table.decode t.toJson = .ok t := by
  have hheader : Draft.asList Draft.asString (Draft.ofJson (.array (t.header.map Json.string))) =
      .ok t.header := asList_ofJson fun s _ => asString_ofJson s
  have hrows : Draft.asList Bindings.decode (Draft.ofJson (.array (t.rows.map Bindings.toJson))) =
      .ok t.rows := asList_ofJson fun b _ => b.decodeJson_toJson
  refine Record.decodeJson_object (p := ⟨some t.header, some t.rows⟩) ?_ rfl
  refine Eq.trans (Record.gather_cons (by decide) (fill_map hheader)) ?_
  exact Record.gather_cons (by decide) (fill_map hrows)

theorem Argument.decodeJson_toJson (a : Argument) :
    decodeJson Argument.decode a.toJson = .ok a := by
  cases a with
  | table t =>
    show ((Table.decode (Draft.ofJson t.toJson)).map Argument.table >>= pure) = _
    have h : Table.decode (Draft.ofJson t.toJson) = .ok t := t.decodeJson_toJson
    rw [h]
    rfl
  | docString s => rfl

theorem Argument.ofJson_toJson_ne_null (a : Argument) : Draft.ofJson a.toJson ≠ .null := by
  cases a <;> intro h <;> cases h

theorem Step.decodeJson_toJson (s : Step) : decodeJson Step.decode s.toJson = .ok s := by
  obtain ⟨keyword, text, argument⟩ := s
  refine Record.decodeJson_object (p := ⟨some keyword, some text, argument.map some⟩) ?_ ?_
  · refine Eq.trans (Record.gather_cons (by decide) (fill_map keyword.decodeJson_toJson)) ?_
    refine Eq.trans (Record.gather_cons (by decide) rfl) ?_
    rw [← List.append_nil (optionalMember _ _ _)]
    refine Eq.trans (Record.gather_optionalMember (by decide) ?_ ?_) rfl
    · rintro rfl
      rfl
    · rintro a rfl
      exact fill_map (asOption_of_ne_null a.ofJson_toJson_ne_null a.decodeJson_toJson)
  · cases argument <;> rfl

/-! ## Openings and blocks -/

/-- The tags that are written, if any. -/
def written (tags : List Tag) : Option (List Tag) := if tags.isEmpty then none else some tags

theorem written_getD (tags : List Tag) : (written tags).getD [] = tags := by
  cases tags <;> rfl

theorem openingMembers_eq (name : String) (description : Option String) (tags : List Tag) :
    openingMembers name description tags = ("name", .string name) ::
      (optionalMember "description" Json.string description ++
        optionalMember "tags" (fun ts => .array (ts.map Tag.toJson)) (written tags)) := by
  cases tags <;> rfl

theorem asList_tags (tags : List Tag) :
    Draft.asList Tag.decode (Draft.ofJson (.array (tags.map Tag.toJson))) = .ok tags :=
  asList_ofJson fun t _ => t.decodeJson_toJson

theorem asList_steps (steps : List Step) :
    Draft.asList Step.decode (Draft.ofJson (.array (steps.map Step.toJson))) = .ok steps :=
  asList_ofJson fun s _ => s.decodeJson_toJson

theorem asList_examples (rows : List Bindings) :
    Draft.asList Bindings.decode (Draft.ofJson (.array (rows.map Bindings.toJson))) = .ok rows :=
  asList_ofJson fun b _ => b.decodeJson_toJson

/-- A structure that reads some fields as a block reads them, with the place `e` of a block's parts
among its own. -/
structure Hosts {σ α : Type} (keys : List String) (r : Record σ α) (e : BlockParts → σ) : Prop where
  fields : ∀ key ∈ keys, key ∈ r.fields
  put : ∀ key ∈ keys, ∀ (d : Draft) (p : BlockParts), r.put key d (e p) = (p.put key d).map e

section Hosts

variable {σ α : Type} {keys : List String} {r : Record σ α} {e : BlockParts → σ}

theorem Hosts.put_of (h : Hosts keys r e) {key : String} {d : Draft} {p q : BlockParts}
    (hk : key ∈ keys) (hp : p.put key d = .ok q) : r.put key d (e p) = .ok (e q) := by
  rw [h.put key hk, hp]
  rfl

theorem gather_openingMembers (h : Hosts keys r e) (name : String) (description : Option String)
    (tags : List Tag) (ms : List (String × Json)) (hname : "name" ∈ keys)
    (hdescription : "description" ∈ keys) (htags : "tags" ∈ keys) :
    r.gather (e ⟨none, none, none, none⟩) (openingMembers name description tags ++ ms) =
      r.gather (e ⟨some name, description.map some, written tags, none⟩) ms := by
  rw [openingMembers_eq, List.cons_append, List.append_assoc]
  refine Eq.trans (Record.gather_cons (q := e ⟨some name, none, none, none⟩)
    (h.fields _ hname) (h.put_of hname rfl)) ?_
  refine Eq.trans (Record.gather_optionalMember
    (q := e ⟨some name, description.map some, none, none⟩) (h.fields _ hdescription) ?_ ?_) ?_
  · rintro rfl
    rfl
  · rintro text rfl
    exact h.put_of hdescription rfl
  refine Record.gather_optionalMember (h.fields _ htags) ?_ ?_
  · intro ht
    rw [ht]
  · intro ts ht
    rw [ht]
    exact h.put_of htags (fill_map (asList_tags ts))

end Hosts

namespace Block

/-- The fields of a block. -/
def fieldNames : List String := ["name", "description", "tags", "steps"]

/-- The parts of a block. -/
def parts (b : Block) : BlockParts :=
  ⟨some b.name, b.description.map some, written b.tags, some b.steps⟩

theorem finish_parts (b : Block) (missing : String → DecodeError) :
    b.parts.finish missing = .ok b := by
  obtain ⟨name, description, tags, steps⟩ := b
  show Except.ok (Block.mk name ((description.map some).getD none)
    ((written tags).getD []) steps) = _
  rw [written_getD]
  cases description <;> rfl

theorem gather_members {σ α : Type} {r : Record σ α} {e : BlockParts → σ}
    (h : Hosts fieldNames r e) (b : Block) (ms : List (String × Json)) :
    r.gather (e ⟨none, none, none, none⟩) (b.members ++ ms) = r.gather (e b.parts) ms := by
  have hsteps : "steps" ∈ fieldNames := by decide
  rw [members, List.append_assoc,
    gather_openingMembers h _ _ _ _ (by decide) (by decide) (by decide)]
  exact Record.gather_cons (h.fields _ hsteps) (h.put_of hsteps (fill_map (asList_steps b.steps)))

theorem hosts_record (type : String) : Hosts fieldNames (record type) id := by
  refine ⟨fun key hk => hk, fun key _ d p => ?_⟩
  show p.put key d = _
  cases p.put key d <;> rfl

theorem decodeJson_record (type : String) (b : Block) :
    decodeJson (record type).decode b.toJson = .ok b := by
  refine Record.decodeJson_object (p := b.parts) ?_ (b.finish_parts _)
  rw [← List.append_nil b.members]
  exact gather_members (hosts_record type) b []

theorem decodeJson_toJson_background (b : Block) :
    decodeJson decodeBackground b.toJson = .ok b := decodeJson_record "Background" b

theorem decodeJson_toJson_simple (b : Block) :
    decodeJson decodeSimple b.toJson = .ok b := decodeJson_record "SimpleScenario" b

end Block

/-! ## Scenarios -/

theorem Outline.hosts_record : Hosts Block.fieldNames Outline.record fun p => ⟨p, none⟩ := by
  refine ⟨?_, ?_⟩
  · decide
  · intro key hk d p
    show OutlineParts.put key d _ = _
    unfold OutlineParts.put
    split
    · exact absurd hk (by decide)
    · rfl

theorem Outline.decodeExamples_ofJson {rows : List Bindings} (h : rows ≠ []) :
    Outline.decodeExamples (Draft.ofJson (.array (rows.map Bindings.toJson))) = .ok rows := by
  unfold decodeExamples
  rw [asList_examples]
  cases rows with
  | nil => exact absurd rfl h
  | cons row rows => rfl

theorem Outline.decodeJson_toJson {o : Outline} (h : o.examples ≠ []) :
    decodeJson Outline.decode o.toJson = .ok o := by
  refine Record.decodeJson_object (p := ⟨o.parts, some o.examples⟩) ?_ ?_
  · refine Eq.trans (Block.gather_members Outline.hosts_record o.toBlock _) ?_
    exact Record.gather_cons (by decide) (fill_map (Outline.decodeExamples_ofJson h))
  · change (o.parts.finish .missingField >>= _) = _
    rw [Block.finish_parts]
    rfl

/-- The examples of an outline are no field of a plain scenario. -/
theorem Outline.decodeSimple_toJson (o : Outline) :
    decodeJson Block.decodeSimple o.toJson =
      .error (.unknownField "examples" ["name", "description", "tags", "steps"]) := by
  have hmembers := Block.gather_members (Block.hosts_record "SimpleScenario") o.toBlock
    [("examples", .array (o.examples.map Bindings.toJson))]
  show ((Block.record "SimpleScenario").gather _ _ >>= _) = _
  exact (congrArg (· >>= _) hmembers).trans rfl

/-- An outline has an example. -/
def Scenario.Exampled : Scenario → Prop
  | simple _ => True
  | outline o => o.examples ≠ []

theorem Scenario.decodeJson_toJson {s : Scenario} (h : s.Exampled) :
    decodeJson Scenario.decode s.toJson = .ok s := by
  unfold decodeJson Scenario.decode
  rw [if_pos (Draft.sound_ofJson _)]
  cases s with
  | simple b =>
    have hb : Block.decodeSimple (Draft.ofJson b.toJson) = .ok b := b.decodeJson_toJson_simple
    rw [toJson, hb]
  | outline o =>
    have hb : Block.decodeSimple (Draft.ofJson o.toJson) = .error _ := o.decodeSimple_toJson
    have ho : Outline.decode (Draft.ofJson o.toJson) = .ok o := Outline.decodeJson_toJson h
    rw [toJson]
    simp only [hb, ho]

/-! ## Features -/

/-- Every outline has an example. -/
def Feature.Exampled (f : Feature) : Prop := ∀ s ∈ f.scenarios, s.Exampled

/-- The place of an opening among the parts of a feature. -/
def FeatureParts.ofOpening (p : BlockParts) : FeatureParts :=
  ⟨p.name, p.description, p.tags, none, none⟩

theorem Feature.hosts_record :
    Hosts ["name", "description", "tags"] Feature.record FeatureParts.ofOpening := by
  have map_map {β σ τ : Type} (x : Except DecodeError β) (f : β → σ) (g : σ → τ) :
      x.map (fun a => g (f a)) = (x.map f).map g := by
    cases x <;> rfl
  refine ⟨by decide, fun key hk d p => ?_⟩
  simp only [List.mem_cons, List.not_mem_nil, or_false] at hk
  rcases hk with rfl | rfl | rfl
  · exact map_map (fill "name" Draft.asString p.name d)
      (fun v => { p with name := v }) FeatureParts.ofOpening
  · exact map_map (fill "description" (Draft.asOption Draft.asString) p.description d)
      (fun v => { p with description := v }) FeatureParts.ofOpening
  · exact map_map (fill "tags" (Draft.asList Tag.decode) p.tags d)
      (fun v => { p with tags := v }) FeatureParts.ofOpening

theorem Feature.decodeJson_toJson {f : Feature} (h : f.Exampled) :
    decodeJson Feature.decode f.toJson = .ok f := by
  obtain ⟨name, description, tags, background, scenarios⟩ := f
  have hscenarios : Draft.asList Scenario.decode
      (Draft.ofJson (.array (scenarios.map Scenario.toJson))) = .ok scenarios :=
    asList_ofJson fun s hs => Scenario.decodeJson_toJson (h s hs)
  unfold toJson
  rw [List.append_assoc]
  refine Record.decodeJson_object (p := ⟨some name, description.map some, written tags,
    background.map some, some scenarios⟩) ?_ ?_
  · refine Eq.trans (gather_openingMembers hosts_record name description tags _ (by decide)
      (by decide) (by decide)) ?_
    refine Eq.trans (Record.gather_optionalMember (q := ⟨some name, description.map some,
      written tags, background.map some, none⟩) (by decide) ?_ ?_) ?_
    · rintro rfl
      rfl
    · rintro b rfl
      exact fill_map (asOption_of_ne_null (by rintro ⟨⟩) b.decodeJson_toJson_background)
    exact Record.gather_cons (by decide) (fill_map hscenarios)
  · change Except.ok (Feature.mk name ((description.map some).getD none)
      ((written tags).getD []) ((background.map some).getD none) scenarios) = _
    rw [written_getD]
    cases description <;> cases background <;> rfl

/-! ## What decoding reads -/

/-- What holds before a fold, and after each element if it held of the elements before, holds of the
whole list. -/
theorem foldlM_induction {ε α σ : Type} {f : σ → α → Except ε σ} {R : List α → σ → Prop}
    (step : ∀ l a p q, R l p → f p a = .ok q → R (l ++ [a]) q) {l : List α} {p q : σ}
    (hp : R [] p) (h : l.foldlM f p = .ok q) : R l q := by
  induction l using List.reverseRecOn generalizing q with
  | nil =>
    obtain rfl := Except.ok.inj h
    exact hp
  | append_singleton l a ih =>
    rw [List.foldlM_append] at h
    obtain ⟨m, hm, h⟩ := Parse.bind_eq_ok.1 h
    rw [List.foldlM_cons] at h
    obtain ⟨n, hn, h⟩ := Parse.bind_eq_ok.1 h
    obtain rfl := Except.ok.inj h
    exact step l a m n (ih hm) hn

theorem forall₂_of_mapM_eq_ok {ε α β : Type} {f : α → Except ε β} {l : List α} {m : List β}
    (h : l.mapM f = .ok m) : List.Forall₂ (fun a b => f a = .ok b) l m := by
  induction l generalizing m with
  | nil =>
    obtain rfl := Except.ok.inj h
    exact .nil
  | cons a l ih =>
    rw [List.mapM_cons] at h
    obtain ⟨c, hc, h⟩ := Parse.bind_eq_ok.1 h
    obtain ⟨cs, hcs, h⟩ := Parse.bind_eq_ok.1 h
    obtain rfl := Parse.pure_eq_ok.1 h
    exact .cons hc (ih hcs)

theorem exists_of_forall₂ {α β : Type} {R : α → β → Prop} {l : List α} {m : List β}
    (h : List.Forall₂ R l m) : ∀ b ∈ m, ∃ a ∈ l, R a b := by
  induction h with
  | nil => simp
  | cons hab _ ih =>
    refine List.forall_mem_cons.2 ⟨⟨_, List.mem_cons_self, hab⟩, fun b hb => ?_⟩
    obtain ⟨a, ha, hr⟩ := ih b hb
    exact ⟨a, List.mem_cons_of_mem _ ha, hr⟩

namespace Json.Record

variable {σ α : Type} {r : Record σ α}

/-- The fields that a draft gives to a structure, with their values: the members of an object, or
the items of an array by their places. -/
inductive Reads (r : Record σ α) : Draft → List (String × Draft) → Prop
  | object {ms : List (String × Draft)} (fields : ∀ m ∈ ms, m.1 ∈ r.fields) :
    Reads r (.object (ms.map fun m => (some m.1, m.2))) ms
  | array {items : List Draft} (length : items.length ≤ r.fields.length) :
    Reads r (.array items) (r.fields.zip items)

theorem Reads.mem_fields {members : List (Option String × Draft)} {ms : List (String × Draft)}
    (h : r.Reads (.object members) ms) {key : String} {d : Draft} (hm : (some key, d) ∈ members) :
    key ∈ r.fields := by
  cases h with
  | object hfields =>
    obtain ⟨m, hmem, he⟩ := List.mem_map.1 hm
    obtain rfl := Option.some.inj (congrArg Prod.fst he)
    exact hfields m hmem

theorem Reads.length_le {items : List Draft} {ms : List (String × Draft)}
    (h : r.Reads (.array items) ms) : items.length ≤ r.fields.length := by
  cases h with
  | array hlength => exact hlength

theorem foldlM_putMember {members : List (Option String × Draft)} {p q : σ}
    (h : members.foldlM r.putMember p = .ok q) :
    ∃ ms : List (String × Draft), members = (ms.map fun m => (some m.1, m.2)) ∧
      (∀ m ∈ ms, m.1 ∈ r.fields) ∧ ms.foldlM (fun p m => r.put m.1 m.2 p) p = .ok q := by
  induction members generalizing p with
  | nil => exact ⟨[], rfl, by simp, h⟩
  | cons m members ih =>
    rw [List.foldlM_cons] at h
    obtain ⟨p', hp', h⟩ := Parse.bind_eq_ok.1 h
    obtain ⟨ms, rfl, hfields, hms⟩ := ih h
    obtain ⟨_ | key, d⟩ := m
    · cases hp'
    · change (if key ∈ r.fields then r.put key d p else _) = _ at hp'
      split at hp'
      · rename_i hkey
        refine ⟨(key, d) :: ms, rfl, List.forall_mem_cons.2 ⟨hkey, hfields⟩, ?_⟩
        rw [List.foldlM_cons, hp']
        exact hms
      · cases hp'

/-- A structure is made of the parts that the fields of its draft put together. -/
theorem reads_of_decode {d : Draft} {a : α} (h : r.decode d = .ok a) :
    ∃ ms missing p, r.Reads d ms ∧ ms.foldlM (fun p m => r.put m.1 m.2 p) r.start = .ok p ∧
      r.finish missing p = .ok a := by
  unfold decode at h
  split at h
  · obtain ⟨p, hp, hfinish⟩ := Parse.bind_eq_ok.1 h
    obtain ⟨ms, rfl, hfields, hms⟩ := foldlM_putMember hp
    exact ⟨ms, _, p, .object hfields, hms, hfinish⟩
  · obtain ⟨p, hp, hfinish⟩ := Parse.bind_eq_ok.1 h
    dsimp only at hfinish
    split at hfinish
    · obtain ⟨_, h', -⟩ := Parse.bind_eq_ok.1 hfinish
      exact (Parse.throw_eq_ok.1 h').elim
    · exact ⟨_, _, p, .array (by omega), hp, hfinish⟩
  · cases h

/-- A structure is made of parts of which everything is true that holds at the start and stays true
with every field. -/
theorem exists_finish {I : σ → Prop} (start : I r.start)
    (put : ∀ key d p q, I p → r.put key d p = .ok q → I q) {d : Draft} {a : α}
    (h : r.decode d = .ok a) : ∃ missing p, I p ∧ r.finish missing p = .ok a := by
  obtain ⟨ms, missing, p, -, hp, h⟩ := reads_of_decode h
  have step : ∀ (l : List (String × Draft)) (m : String × Draft) p q,
      I p → r.put m.1 m.2 p = .ok q → I q := fun _ m p q => put m.1 m.2 p q
  exact ⟨missing, p, foldlM_induction (R := fun _ p => I p) step start hp, h⟩

end Json.Record

/-! ## Decoded outlines -/

/-- What was put into a field that was empty before, decoded. -/
theorem Json.of_fill_map {β σ : Type} {field : String} {value : Draft → Except DecodeError β}
    {slot : Option β} {d : Draft} {f : Option β → σ} {q : σ}
    (h : (fill field value slot d).map f = .ok q) : ∃ b, value d = .ok b ∧ q = f (some b) := by
  cases slot with
  | some b => cases h
  | none =>
    cases hb : value d with
    | error e => rw [fill, hb] at h; cases h
    | ok b => rw [fill, hb] at h; exact ⟨b, rfl, (Except.ok.inj h).symm⟩

theorem Outline.decodeExamples_ne_nil {d : Draft} {rows : List Bindings}
    (h : decodeExamples d = .ok rows) : rows ≠ [] := by
  obtain ⟨read, -, h⟩ := Parse.bind_eq_ok.1 h
  split at h
  · exact (Parse.throw_eq_ok.1 h).elim
  · rename_i hne
    obtain rfl := Parse.pure_eq_ok.1 h
    exact hne

theorem Json.eq_some_of_require {β : Type} {missing : String → DecodeError} {field : String}
    {slot : Option β} {b : β} (h : require missing field slot = .ok b) : slot = some b := by
  cases slot with
  | none => cases h
  | some c => exact congrArg some (Except.ok.inj h)

theorem Outline.examples_ne_nil_of_decode {d : Draft} {o : Outline} (h : decode d = .ok o) :
    o.examples ≠ [] := by
  have hput : ∀ key d p q, (∀ rows, p.examples = some rows → rows ≠ []) →
      record.put key d p = .ok q → ∀ rows, q.examples = some rows → rows ≠ [] := by
    intro key d p q hp hq
    change OutlineParts.put key d p = .ok q at hq
    unfold OutlineParts.put at hq
    split at hq
    · obtain ⟨rows, hrows, rfl⟩ := of_fill_map hq
      intro read hread
      obtain rfl := Option.some.inj hread
      exact decodeExamples_ne_nil hrows
    · cases hb : p.block.put key d with
      | error e => rw [hb] at hq; cases hq
      | ok b =>
        rw [hb] at hq
        obtain rfl := Except.ok.inj hq
        exact hp
  obtain ⟨missing, p, hp, h⟩ := Json.Record.exists_finish (by intro _ h; cases h) hput h
  obtain ⟨b, -, h⟩ := Parse.bind_eq_ok.1 h
  obtain ⟨rows, hrows, h⟩ := Parse.bind_eq_ok.1 h
  obtain rfl := Parse.pure_eq_ok.1 h
  exact hp rows (eq_some_of_require hrows)

theorem Scenario.exampled_of_decode {d : Draft} {s : Scenario} (h : decode d = .ok s) :
    s.Exampled := by
  unfold decode at h
  split at h
  · split at h
    · obtain rfl := Except.ok.inj h
      trivial
    · split at h
      · rename_i ho
        obtain rfl := Except.ok.inj h
        exact Outline.examples_ne_nil_of_decode ho
      · cases h
  · cases h

theorem Feature.exampled_of_decode {d : Draft} {f : Feature} (h : decode d = .ok f) :
    f.Exampled := by
  have hput : ∀ key d p q, (∀ ss, p.scenarios = some ss → ∀ s ∈ ss, s.Exampled) →
      record.put key d p = .ok q → ∀ ss, q.scenarios = some ss → ∀ s ∈ ss, s.Exampled := by
    intro key d p q hp hq
    change FeatureParts.put key d p = .ok q at hq
    unfold FeatureParts.put at hq
    split at hq
    · obtain ⟨_, -, rfl⟩ := of_fill_map hq
      exact hp
    · obtain ⟨_, -, rfl⟩ := of_fill_map hq
      exact hp
    · obtain ⟨_, -, rfl⟩ := of_fill_map hq
      exact hp
    · obtain ⟨_, -, rfl⟩ := of_fill_map hq
      exact hp
    · obtain ⟨ss, hss, rfl⟩ := of_fill_map hq
      intro read hread s hs
      obtain rfl := Option.some.inj hread
      cases d with
      | array items =>
        obtain ⟨e, -, he⟩ := exists_of_forall₂ (forall₂_of_mapM_eq_ok hss) s hs
        exact Scenario.exampled_of_decode he
      | _ => cases hss
    · obtain rfl := Except.ok.inj hq
      exact hp
  obtain ⟨missing, p, hp, h⟩ := Json.Record.exists_finish (by intro _ h; cases h) hput h
  obtain ⟨_, -, h⟩ := Parse.bind_eq_ok.1 h
  obtain ⟨ss, hss, h⟩ := Parse.bind_eq_ok.1 h
  obtain rfl := Parse.pure_eq_ok.1 h
  exact hp ss (eq_some_of_require hss)

end Gherkin
