import Gherkin.Proofs.Shapes

/-
  Decoding neither drops nor adds anything. A value whose structures are written as objects is given
  back by the encoding of what is decoded from it (`json_faithful`), but for the members that an
  encoding leaves out and the order of the members of a structure. Of a structure, the parts read so
  far stand for the members read so far (`Record.faithful`): a field that is decoded adds its member
  to them or is one that is left out (`FaithfulField`).
-/

namespace Gherkin

open Json

/-! ## Forms -/

/-- The form of a JSON value that a type of the model is decoded from. -/
inductive Form where
  /-- A text, or the name of a keyword. -/
  | text
  /-- A row of a table or of examples, whose members are kept in order. -/
  | row
  | list (item : Form)
  /-- A structure, with the form of each field. -/
  | struct (field : String → Form)

namespace Form

def tableField : String → Form
  | "header" => list text
  | _ => list row

def table : Form := struct tableField

def argumentField : String → Form
  | "table" => table
  | _ => text

def argument : Form := struct argumentField

def stepField : String → Form
  | "argument" => argument
  | _ => text

def step : Form := struct stepField

def blockField : String → Form
  | "tags" => list text
  | "steps" => list step
  | "examples" => list row
  | _ => text

/-- A background, a plain scenario or an outline. -/
def block : Form := struct blockField

def featureField : String → Form
  | "tags" => list text
  | "background" => block
  | "scenarios" => list block
  | _ => text

def feature : Form := struct featureField

/-- Structures are written as objects, keywords as strings, and no name stands twice in a row. -/
def Keyed : Form → Json → Prop
  | text, j => ∀ ms, j ≠ .object ms
  | row, j => ∀ ms, j = .object ms → (ms.map Prod.fst).Nodup
  | list item, j => ∀ vs, j = .array vs → ∀ v ∈ vs, item.Keyed v
  | struct field, j =>
    (∀ vs, j ≠ .array vs) ∧ ∀ ms, j = .object ms → ∀ m ∈ ms, (field m.1).Keyed m.2

theorem keyed_list {item : Form} {vs : List Json} :
    (list item).Keyed (.array vs) ↔ ∀ v ∈ vs, item.Keyed v := by
  simp [Keyed]

theorem keyed_struct {field : String → Form} {ms : List (String × Json)} :
    (struct field).Keyed (.object ms) ↔ ∀ m ∈ ms, (field m.1).Keyed m.2 := by
  simp [Keyed]

end Form

/-- A member of a structure that says no more than if it were left out. -/
def omitted (key : String) : Json → Bool
  | .null => key ∈ ["description", "background", "argument"]
  | .array [] => key = "tags"
  | _ => false

namespace Form

/-- The value without the members of its structures that say nothing. -/
def strip : Form → Json → Json
  | list item, .array vs => .array (vs.map item.strip)
  | struct field, .object ms =>
    .object ((ms.filter fun m => !omitted m.1 m.2).map fun m => (m.1, (field m.1).strip m.2))
  | _, j => j

/-- The values are the same up to the order of the members of structures. -/
def Same : Form → Json → Json → Prop
  | list item, .array vs, .array ws => List.Forall₂ item.Same vs ws
  | struct field, .object ms, .object ns =>
    ∃ ps, List.Forall₂ (fun m p => m.1 = p.1 ∧ (field m.1).Same m.2 p.2) ms ps ∧ ps.Perm ns
  | _, j, k => j = k

end Form

/-- The encoding of what is decoded from a value is the value, but for members that say nothing and
the order of the members of structures. -/
def Faithful {α : Type} (form : Form) (toJson : α → Json)
    (decode : Draft → Except DecodeError α) : Prop :=
  ∀ j a, form.Keyed j → decodeJson decode j = .ok a → form.Same (form.strip j) (toJson a)

/-! ## Drafts of values -/

namespace Json

theorem exists_array_of_ofJson {j : Json} {items : List Draft} (h : Draft.ofJson j = .array items) :
    ∃ vs, j = .array vs ∧ items = vs.map Draft.ofJson := by
  cases j with
  | array vs => exact ⟨vs, rfl, by rw [← Draft.ofItems_eq_map, ← Draft.array.inj h]⟩
  | _ => cases h

theorem exists_object_of_ofJson {j : Json} {members : List (Option String × Draft)}
    (h : Draft.ofJson j = .object members) :
    ∃ ms, j = .object ms ∧ members = ms.map fun m => (some m.1, Draft.ofJson m.2) := by
  cases j with
  | object ms => exact ⟨ms, rfl, by rw [← Draft.ofMembers_eq_map, ← Draft.object.inj h]⟩
  | _ => cases h

theorem eq_string_of_asString {j : Json} {s : String} (h : decodeJson Draft.asString j = .ok s) :
    j = .string s := by
  cases j with
  | string t => rw [Except.ok.inj h]
  | _ => cases h

end Json

/-! ## Lists and texts -/

theorem faithful_text : Faithful .text Json.string Draft.asString :=
  fun _ _ _ h => eq_string_of_asString h

theorem Tag.faithful : Faithful .text Tag.toJson Tag.decode := by
  intro j t _ h
  obtain ⟨s, hs, rfl⟩ := Parse.map_eq_ok.1 h
  exact eq_string_of_asString hs

theorem StepKeyword.key_of_ofKey {name : String} {k : StepKeyword} (h : ofKey name = .ok k) :
    k.key = name := by
  unfold ofKey at h
  split at h
  · rename_i hfind
    obtain rfl := Except.ok.inj h
    have hkey := List.find?_some hfind
    exact beq_iff_eq.1 hkey
  · cases h

theorem StepKeyword.faithful : Faithful .text StepKeyword.toJson StepKeyword.decode := by
  intro j k hkeyed h
  cases j with
  | string name =>
    obtain ⟨k', hk', h⟩ := Parse.bind_eq_ok.1 h
    obtain rfl := Except.ok.inj h
    exact congrArg Json.string (key_of_ofKey hk').symm
  | object ms => exact absurd rfl (hkeyed ms)
  | _ => cases h

section List

variable {α : Type} {item : Form} {toJson : α → Json} {decode : Draft → Except DecodeError α}

theorem Faithful.list (h : Faithful item toJson decode) :
    Faithful (.list item) (fun l => .array (l.map toJson)) (Draft.asList decode) := by
  intro j l hkeyed hl
  cases j with
  | array vs =>
    have hitems : List.Forall₂ (fun d a => decode d = .ok a) (vs.map Draft.ofJson) l := by
      rw [← Draft.ofItems_eq_map]
      exact forall₂_of_mapM_eq_ok hl
    show List.Forall₂ item.Same (vs.map item.strip) (l.map toJson)
    rw [List.forall₂_map_left_iff] at hitems ⊢
    rw [List.forall₂_map_right_iff]
    refine ((List.forall₂_and_left _ _).2 ⟨hkeyed vs rfl, hitems⟩).imp ?_
    exact fun v a hva => h v a hva.1 hva.2
  | _ => cases hl

end List

theorem Bindings.faithful : Faithful .row Bindings.toJson Bindings.decode := by
  intro j b hkeyed h
  cases j with
  | object ms =>
    have hfold :
        ms.foldlM (fun b m => putMember b (some m.1, Draft.ofJson m.2)) .empty = .ok b := by
      rw [← List.foldlM_map, ← Draft.ofMembers_eq_map]
      exact h
    -- a name that is new is bound behind the others
    have hentries : (ms.map Prod.fst).Nodup →
        ms = b.entries.map fun e => (e.1, Json.string e.2) := by
      refine foldlM_induction (R := fun l b => (l.map Prod.fst).Nodup →
        l = b.entries.map fun e => (e.1, Json.string e.2)) ?_ (fun _ => rfl) hfold
      intro l m b c ih hput hnodup
      obtain ⟨v, hv, rfl⟩ := Parse.map_eq_ok.1 hput
      rw [List.map_append, List.nodup_append] at hnodup
      have hl := ih hnodup.1
      have hkeys : l.map Prod.fst = b.entries.map Prod.fst := by
        rw [hl, List.map_map]
        rfl
      have hnew : m.1 ∉ b.entries.map Prod.fst := by
        rw [← hkeys]
        exact fun hm => hnodup.2.2 _ hm m.1 (by simp) rfl
      obtain ⟨key, value⟩ := m
      obtain rfl : value = .string v := eq_string_of_asString hv
      have hlast : (b.insert key v).entries = b.entries ++ [(key, v)] := put_of_not_mem hnew
      rw [hlast, List.map_append, ← hl]
      rfl
    exact congrArg Json.object (hentries (hkeyed ms rfl))
  | _ => cases h

/-! ## Structures -/

/-- The members are the same, as those of a structure, up to their order. -/
def SameMembers (field : String → Form) (ms ns : List (String × Json)) : Prop :=
  ∃ ps, List.Forall₂ (fun m p => m.1 = p.1 ∧ (field m.1).Same m.2 p.2) ms ps ∧ ps.Perm ns

/-- The members after one more is read: that one is added somewhere, or says nothing. -/
def Adds (field : String → Form) (key : String) (v : Json) (ns ns' : List (String × Json)) : Prop :=
  (omitted key v = true ∧ ns' = ns) ∨
    omitted key v = false ∧ ∃ w, ns'.Perm ((key, w) :: ns) ∧
      (field key).Same ((field key).strip v) w

section Members

variable {field : String → Form} {key : String} {v : Json} {ns ns' : List (String × Json)}

/-- The members of an object without those that say nothing. -/
def stripMembers (field : String → Form) (ms : List (String × Json)) : List (String × Json) :=
  (ms.filter fun m => !omitted m.1 m.2).map fun m => (m.1, (field m.1).strip m.2)

theorem SameMembers.adds {ms : List (String × Json)}
    (h : SameMembers field (stripMembers field ms) ns) (hadds : Adds field key v ns ns') :
    SameMembers field (stripMembers field (ms ++ [(key, v)])) ns' := by
  unfold stripMembers at h ⊢
  rw [List.filter_append, List.map_append]
  rcases hadds with ⟨hom, rfl⟩ | ⟨hom, w, hperm, hsame⟩
  · simpa [hom] using h
  · obtain ⟨ps, hps, hns⟩ := h
    have hlast : [(key, v)].filter (fun m => !omitted m.1 m.2) = [(key, v)] := by simp [hom]
    rw [hlast]
    refine ⟨ps ++ [(key, w)], List.rel_append hps (.cons ⟨rfl, hsame⟩ .nil), ?_⟩
    exact (List.perm_append_singleton (key, w) ps).trans ((hns.cons (key, w)).trans hperm.symm)

theorem Adds.append_left (h : Adds field key v ns ns') (before : List (String × Json)) :
    Adds field key v (before ++ ns) (before ++ ns') := by
  rcases h with ⟨hom, rfl⟩ | ⟨hom, w, hperm, hsame⟩
  · exact .inl ⟨hom, rfl⟩
  · exact .inr ⟨hom, w, (hperm.append_left before).trans List.perm_middle, hsame⟩

theorem Adds.append_right (h : Adds field key v ns ns') (after : List (String × Json)) :
    Adds field key v (ns ++ after) (ns' ++ after) := by
  rcases h with ⟨hom, rfl⟩ | ⟨hom, w, hperm, hsame⟩
  · exact .inl ⟨hom, rfl⟩
  · exact .inr ⟨hom, w, hperm.append_right after, hsame⟩

end Members

/-- A structure is faithful if the parts read so far stand for the members read so far, and the
whole for all. -/
theorem Json.Record.faithful {σ α : Type} {r : Record σ α} {field : String → Form}
    {toJson : α → Json} (members : σ → List (String × Json)) (start : members r.start = [])
    (put : ∀ key ∈ r.fields, ∀ v p q, (field key).Keyed v →
      r.put key (Draft.ofJson v) p = .ok q → Adds field key v (members p) (members q))
    (finish : ∀ missing p a, r.finish missing p = .ok a → toJson a = .object (members p)) :
    Faithful (.struct field) toJson r.decode := by
  intro j a hkeyed h
  obtain ⟨ms, missing, p, hreads, hp, hfinish⟩ := Record.reads_of_decode h
  generalize hd : Draft.ofJson j = d at hreads
  cases hreads with
  | array _ =>
    obtain ⟨vs, rfl, -⟩ := exists_array_of_ofJson hd
    exact absurd rfl (hkeyed.1 vs)
  | object hfields =>
    obtain ⟨js, rfl, hjs⟩ := exists_object_of_ofJson hd
    obtain rfl : ms = js.map fun m => (m.1, Draft.ofJson m.2) := by
      have hinjective : Function.Injective fun m : String × Draft => (some m.1, m.2) := by
        rintro ⟨k, d⟩ ⟨l, e⟩ h
        simpa using h
      refine hinjective.list_map ?_
      rw [hjs, List.map_map]
      rfl
    rw [List.foldlM_map] at hp
    have hmembers : (∀ m ∈ js, m.1 ∈ r.fields ∧ (field m.1).Keyed m.2) →
        SameMembers field (stripMembers field js) (members p) := by
      refine foldlM_induction (R := fun l p => (∀ m ∈ l, m.1 ∈ r.fields ∧ (field m.1).Keyed m.2) →
        SameMembers field (stripMembers field l) (members p)) ?_ (fun _ => ?_) hp
      · intro l m p q ih hput hl
        have hm := hl m (by simp)
        have hbefore := ih fun x hx => hl x (List.mem_append_left _ hx)
        exact hbefore.adds (put m.1 hm.1 m.2 p q hm.2 hput)
      · exact ⟨[], .nil, by rw [start]⟩
    rw [finish missing p a hfinish]
    refine hmembers fun m hm => ⟨?_, hkeyed.2 js rfl m hm⟩
    exact hfields (m.1, Draft.ofJson m.2) (List.mem_map.2 ⟨m, hm, rfl⟩)

/-! ## Fields -/

/-- The member of a field is the written form of what is decoded from it, where it has one, and says
nothing where it has none. -/
def FaithfulField {β : Type} (key : String) (form : Form) (write : β → Option Json)
    (value : Draft → Except DecodeError β) : Prop :=
  ∀ v b, form.Keyed v → decodeJson value v = .ok b →
    (omitted key v = true ∧ write b = none) ∨
      omitted key v = false ∧ ∃ w, write b = some w ∧ form.Same (form.strip v) w

/-- The member of a field, once it was read. -/
def slotMember {β : Type} (key : String) (write : β → Option Json) (slot : Option β) :
    List (String × Json) := optionalMember key id (slot.bind write)

theorem FaithfulField.adds {β σ : Type} {field : String → Form} {key : String}
    {write : β → Option Json} {value : Draft → Except DecodeError β}
    (h : FaithfulField key (field key) write value) {v : Json} (hkeyed : (field key).Keyed v)
    {slot : Option β} {f : Option β → σ} {q : σ}
    (hput : (fill key value slot (Draft.ofJson v)).map f = .ok q) :
    ∃ b, q = f (some b) ∧
      Adds field key v (slotMember key write slot) (slotMember key write (some b)) := by
  cases slot with
  | some b => cases hput
  | none =>
    obtain ⟨b, hb, rfl⟩ := of_fill_map hput
    refine ⟨b, rfl, ?_⟩
    rcases h v b hkeyed hb with ⟨hom, hnone⟩ | ⟨hom, w, hsome, hsame⟩
    · exact .inl ⟨hom, by rw [slotMember, Option.bind_some, hnone]; rfl⟩
    · refine .inr ⟨hom, w, ?_, hsame⟩
      rw [slotMember, Option.bind_some, hsome]
      exact .refl _

section Fields

variable {α : Type} {key : String} {form : Form} {toJson : α → Json}
  {decode : Draft → Except DecodeError α}

theorem omitted_eq_false (hnull : key ∉ ["description", "background", "argument"])
    (htags : key ≠ "tags") (v : Json) : omitted key v = false := by
  unfold omitted
  split
  · exact decide_eq_false hnull
  · exact decide_eq_false htags
  · rfl

/-- A field that is always written. -/
theorem Faithful.required (h : Faithful form toJson decode)
    (hnull : key ∉ ["description", "background", "argument"]) (htags : key ≠ "tags") :
    FaithfulField key form (fun a => some (toJson a)) decode :=
  fun v a hkeyed hv => .inr ⟨omitted_eq_false hnull htags v, _, rfl, h v a hkeyed hv⟩

/-- A field that is left out if it is absent or null. -/
theorem Faithful.optional (h : Faithful form toJson decode)
    (hnull : key ∈ ["description", "background", "argument"]) :
    FaithfulField key form (fun o => o.map toJson) (Draft.asOption decode) := by
  intro v o hkeyed ho
  by_cases hv : v = .null
  · subst hv
    obtain rfl := Except.ok.inj ho
    exact .inl ⟨decide_eq_true hnull, rfl⟩
  · have hfound : omitted key v = false := by
      unfold omitted
      split
      · exact absurd rfl hv
      · exact decide_eq_false (by rintro rfl; exact absurd hnull (by decide))
      · rfl
    have hd : Draft.ofJson v ≠ .null := by
      cases v with
      | null => exact absurd rfl hv
      | _ => nofun
    obtain ⟨a, ha, rfl⟩ := Parse.map_eq_ok.1 ((asOption_eq_map hd).symm.trans ho)
    exact .inr ⟨hfound, _, rfl, h v a hkeyed ha⟩

theorem faithfulField_tags : FaithfulField "tags" (.list .text)
    (fun tags => (written tags).map fun tags => .array (tags.map Tag.toJson))
    (Draft.asList Tag.decode) := by
  intro v tags hkeyed htags
  have hsame := Tag.faithful.list v tags hkeyed htags
  cases v with
  | array vs =>
    cases vs with
    | nil =>
      obtain rfl := Except.ok.inj htags
      exact .inl ⟨rfl, rfl⟩
    | cons v vs =>
      cases tags with
      | nil => cases hsame
      | cons t tags => exact .inr ⟨rfl, _, rfl, hsame⟩
  | _ => cases htags

end Fields

/-! ## The types of the model -/

/-- The members of the parts of a table. -/
def TableParts.members (p : TableParts) : List (String × Json) :=
  slotMember "header" (fun header => some (.array (header.map Json.string))) p.header ++
    slotMember "rows" (fun rows => some (.array (rows.map Bindings.toJson))) p.rows

theorem Table.faithful : Faithful Form.table Table.toJson Table.decode := by
  have hheader : FaithfulField "header" (Form.tableField "header") _ _ :=
    faithful_text.list.required (by decide) (by decide)
  have hrows : FaithfulField "rows" (Form.tableField "rows") _ _ :=
    Bindings.faithful.list.required (by decide) (by decide)
  refine Record.faithful TableParts.members rfl ?_ ?_
  · intro key hkey v p q hkeyed hput
    change TableParts.put key (Draft.ofJson v) p = .ok q at hput
    unfold TableParts.put at hput
    split at hput
    · obtain ⟨header, rfl, hadds⟩ := hheader.adds hkeyed hput
      exact hadds.append_right _
    · obtain ⟨rows, rfl, hadds⟩ := hrows.adds hkeyed hput
      exact hadds.append_left _
    · simp_all [Table.record]
  · intro missing p t hfinish
    obtain ⟨header, hheader, hfinish⟩ := Parse.bind_eq_ok.1 hfinish
    obtain ⟨rows, hrows, hfinish⟩ := Parse.bind_eq_ok.1 hfinish
    obtain rfl := Parse.pure_eq_ok.1 hfinish
    rw [TableParts.members, eq_some_of_require hheader, eq_some_of_require hrows]
    rfl

/-- The one member of an argument. -/
theorem same_argument {key : String} {v w : Json} (hkey : ∀ v, omitted key v = false)
    (h : (Form.argumentField key).Same ((Form.argumentField key).strip v) w) :
    Form.argument.Same (Form.argument.strip (.object [(key, v)])) (.object [(key, w)]) := by
  show SameMembers Form.argumentField (stripMembers Form.argumentField [(key, v)]) [(key, w)]
  rw [stripMembers, List.filter_cons_of_pos (by simp [hkey])]
  exact ⟨[(key, w)], .cons ⟨rfl, h⟩ .nil, .refl _⟩

theorem Argument.faithful : Faithful Form.argument Argument.toJson Argument.decode := by
  intro j a hkeyed h
  cases j with
  | object ms =>
    obtain _ | ⟨⟨key, v⟩, more⟩ := ms
    · cases h
    · obtain ⟨kind, hkind, h⟩ := Parse.bind_eq_ok.1 h
      obtain ⟨b, hb, h⟩ := Parse.bind_eq_ok.1 h
      split at h
      · rename_i hmore
        obtain rfl := Parse.pure_eq_ok.1 h
        obtain rfl : more = [] := by simpa [Draft.ofMembers_eq_map] using hmore
        have hv : (Form.argumentField key).Keyed v := hkeyed.2 _ rfl (key, v) (by simp)
        unfold ArgumentKind.ofKey at hkind
        split at hkind
        · obtain rfl := Except.ok.inj hkind
          obtain ⟨t, ht, rfl⟩ := Parse.map_eq_ok.1 hb
          exact same_argument (omitted_eq_false (by decide) (by decide))
            (Table.faithful v t hv ht)
        · obtain rfl := Except.ok.inj hkind
          obtain ⟨s, hs, rfl⟩ := Parse.map_eq_ok.1 hb
          exact same_argument (omitted_eq_false (by decide) (by decide))
            (faithful_text v s hv hs)
        · cases hkind
      · exact (Parse.throw_eq_ok.1 h).elim
  | string name =>
    obtain ⟨kind, -, h⟩ := Parse.bind_eq_ok.1 h
    cases h
  | _ => cases h

/-- The members of the parts of a step. -/
def StepParts.members (p : StepParts) : List (String × Json) :=
  slotMember "keyword" (fun k => some k.toJson) p.keyword ++
    slotMember "text" (fun text => some (.string text)) p.text ++
    slotMember "argument" (fun argument => argument.map Argument.toJson) p.argument

theorem Step.faithful : Faithful Form.step Step.toJson Step.decode := by
  have hkeyword : FaithfulField "keyword" (Form.stepField "keyword") _ _ :=
    StepKeyword.faithful.required (by decide) (by decide)
  have htext : FaithfulField "text" (Form.stepField "text") _ _ :=
    faithful_text.required (by decide) (by decide)
  have hargument : FaithfulField "argument" (Form.stepField "argument") _ _ :=
    Argument.faithful.optional (by decide)
  refine Record.faithful StepParts.members rfl ?_ ?_
  · intro key hkey v p q hkeyed hput
    change StepParts.put key (Draft.ofJson v) p = .ok q at hput
    unfold StepParts.put at hput
    split at hput
    · obtain ⟨keyword, rfl, hadds⟩ := hkeyword.adds hkeyed hput
      exact (hadds.append_right _).append_right _
    · obtain ⟨text, rfl, hadds⟩ := htext.adds hkeyed hput
      exact (hadds.append_left _).append_right _
    · obtain ⟨argument, rfl, hadds⟩ := hargument.adds hkeyed hput
      exact hadds.append_left _
    · simp_all [Step.record]
  · intro missing p s hfinish
    obtain ⟨keyword, hkeyword, hfinish⟩ := Parse.bind_eq_ok.1 hfinish
    obtain ⟨text, htext, hfinish⟩ := Parse.bind_eq_ok.1 hfinish
    obtain rfl := Parse.pure_eq_ok.1 hfinish
    rw [StepParts.members, eq_some_of_require hkeyword, eq_some_of_require htext]
    rcases p.argument with _ | _ | argument <;> rfl

/-- The members of the parts of an opening. -/
def openingSlots (name : Option String) (description : Option (Option String))
    (tags : Option (List Tag)) : List (String × Json) :=
  slotMember "name" (fun name => some (.string name)) name ++
    slotMember "description" (fun description => description.map Json.string) description ++
    slotMember "tags" (fun tags => (written tags).map fun tags => .array (tags.map Tag.toJson)) tags

theorem openingMembers_eq_slots (name : String) (description : Option (Option String))
    (tags : Option (List Tag)) :
    openingMembers name (description.getD none) (tags.getD []) =
      openingSlots (some name) description tags := by
  rw [openingMembers_eq]
  rcases description with _ | _ | description <;> rcases tags with _ | _ | ⟨t, tags⟩ <;> rfl

theorem faithfulField_name :
    FaithfulField "name" .text (fun name => some (.string name)) Draft.asString :=
  faithful_text.required (by decide) (by decide)

theorem faithfulField_description : FaithfulField "description" .text
    (fun description => description.map Json.string) (Draft.asOption Draft.asString) :=
  faithful_text.optional (by decide)

/-- The members of the parts of a block. -/
def BlockParts.members (p : BlockParts) : List (String × Json) :=
  openingSlots p.name p.description p.tags ++
    slotMember "steps" (fun steps => some (.array (steps.map Step.toJson))) p.steps

theorem BlockParts.adds {key : String} (hkey : key ∈ Block.fieldNames) {v : Json}
    {p q : BlockParts} (hkeyed : (Form.blockField key).Keyed v)
    (hput : p.put key (Draft.ofJson v) = .ok q) :
    Adds Form.blockField key v p.members q.members := by
  have hname : FaithfulField "name" (Form.blockField "name") _ _ := faithfulField_name
  have hdescription : FaithfulField "description" (Form.blockField "description") _ _ :=
    faithfulField_description
  have htags : FaithfulField "tags" (Form.blockField "tags") _ _ := faithfulField_tags
  have hsteps : FaithfulField "steps" (Form.blockField "steps") _ _ :=
    Step.faithful.list.required (by decide) (by decide)
  unfold put at hput
  split at hput
  · obtain ⟨name, rfl, hadds⟩ := hname.adds hkeyed hput
    exact ((hadds.append_right _).append_right _).append_right _
  · obtain ⟨description, rfl, hadds⟩ := hdescription.adds hkeyed hput
    exact ((hadds.append_left _).append_right _).append_right _
  · obtain ⟨tags, rfl, hadds⟩ := htags.adds hkeyed hput
    exact (hadds.append_left _).append_right _
  · obtain ⟨steps, rfl, hadds⟩ := hsteps.adds hkeyed hput
    exact hadds.append_left _
  · simp_all [Block.fieldNames]

theorem BlockParts.members_of_finish {missing : String → DecodeError} {p : BlockParts} {b : Block}
    (h : p.finish missing = .ok b) : b.members = p.members := by
  obtain ⟨name, hname, h⟩ := Parse.bind_eq_ok.1 h
  obtain ⟨steps, hsteps, h⟩ := Parse.bind_eq_ok.1 h
  obtain rfl := Parse.pure_eq_ok.1 h
  rw [members, eq_some_of_require hname, eq_some_of_require hsteps, ← openingMembers_eq_slots]
  rfl

theorem Block.faithful (type : String) :
    Faithful Form.block Block.toJson (Block.record type).decode := by
  refine Record.faithful BlockParts.members rfl ?_ ?_
  · exact fun key hkey v p q hkeyed hput => BlockParts.adds hkey hkeyed hput
  · exact fun missing p b hfinish => congrArg Json.object (BlockParts.members_of_finish hfinish)

/-- The members of the parts of an outline. -/
def OutlineParts.members (p : OutlineParts) : List (String × Json) :=
  p.block.members ++
    slotMember "examples" (fun rows => some (.array (rows.map Bindings.toJson))) p.examples

theorem Outline.faithful_decodeExamples : Faithful (.list .row)
    (fun rows => .array (rows.map Bindings.toJson)) Outline.decodeExamples := by
  intro j rows hkeyed h
  obtain ⟨read, hread, h⟩ := Parse.bind_eq_ok.1 h
  split at h
  · exact (Parse.throw_eq_ok.1 h).elim
  · obtain rfl := Parse.pure_eq_ok.1 h
    exact Bindings.faithful.list j read hkeyed hread

theorem Outline.faithful : Faithful Form.block Outline.toJson Outline.decode := by
  have hexamples : FaithfulField "examples" (Form.blockField "examples") _ _ :=
    Outline.faithful_decodeExamples.required (by decide) (by decide)
  refine Record.faithful OutlineParts.members rfl ?_ ?_
  · intro key hkey v p q hkeyed hput
    change OutlineParts.put key (Draft.ofJson v) p = .ok q at hput
    unfold OutlineParts.put at hput
    split at hput
    · obtain ⟨rows, rfl, hadds⟩ := hexamples.adds hkeyed hput
      exact hadds.append_left _
    · obtain ⟨block, hblock, rfl⟩ := Parse.map_eq_ok.1 hput
      refine (BlockParts.adds ?_ hkeyed hblock).append_right _
      simp_all [Outline.record, Block.fieldNames]
  · intro missing p o hfinish
    obtain ⟨b, hblock, hfinish⟩ := Parse.bind_eq_ok.1 hfinish
    obtain ⟨rows, hrows, hfinish⟩ := Parse.bind_eq_ok.1 hfinish
    obtain rfl := Parse.pure_eq_ok.1 hfinish
    rw [OutlineParts.members, eq_some_of_require hrows, ← BlockParts.members_of_finish hblock]
    rfl

theorem Scenario.faithful : Faithful Form.block Scenario.toJson Scenario.decode := by
  intro j s hkeyed h
  rcases Scenario.decode_eq_ok_iff.1 h with ⟨b, hb, rfl⟩ | ⟨o, ho, rfl⟩
  · exact Block.faithful "SimpleScenario" j b hkeyed hb
  · exact Outline.faithful j o hkeyed ho

/-- The members of the parts of a feature. -/
def FeatureParts.members (p : FeatureParts) : List (String × Json) :=
  openingSlots p.name p.description p.tags ++
    slotMember "background" (fun background => background.map Block.toJson) p.background ++
    slotMember "scenarios" (fun ss => some (.array (ss.map Scenario.toJson))) p.scenarios

theorem Feature.faithful : Faithful Form.feature Feature.toJson Feature.decode := by
  have hname : FaithfulField "name" (Form.featureField "name") _ _ := faithfulField_name
  have hdescription : FaithfulField "description" (Form.featureField "description") _ _ :=
    faithfulField_description
  have htags : FaithfulField "tags" (Form.featureField "tags") _ _ := faithfulField_tags
  have hbackground : FaithfulField "background" (Form.featureField "background") _ _ :=
    (Block.faithful "Background").optional (by decide)
  have hscenarios : FaithfulField "scenarios" (Form.featureField "scenarios") _ _ :=
    Scenario.faithful.list.required (by decide) (by decide)
  refine Record.faithful FeatureParts.members rfl ?_ ?_
  · intro key hkey v p q hkeyed hput
    change FeatureParts.put key (Draft.ofJson v) p = .ok q at hput
    unfold FeatureParts.put at hput
    split at hput
    · obtain ⟨name, rfl, hadds⟩ := hname.adds hkeyed hput
      exact (((hadds.append_right _).append_right _).append_right _).append_right _
    · obtain ⟨description, rfl, hadds⟩ := hdescription.adds hkeyed hput
      exact (((hadds.append_left _).append_right _).append_right _).append_right _
    · obtain ⟨tags, rfl, hadds⟩ := htags.adds hkeyed hput
      exact ((hadds.append_left _).append_right _).append_right _
    · obtain ⟨background, rfl, hadds⟩ := hbackground.adds hkeyed hput
      exact (hadds.append_left _).append_right _
    · obtain ⟨scenarios, rfl, hadds⟩ := hscenarios.adds hkeyed hput
      exact hadds.append_left _
    · simp_all [Feature.record]
  · intro missing p f hfinish
    obtain ⟨name, hname, hfinish⟩ := Parse.bind_eq_ok.1 hfinish
    obtain ⟨scenarios, hscenarios, hfinish⟩ := Parse.bind_eq_ok.1 hfinish
    obtain rfl := Parse.pure_eq_ok.1 hfinish
    rw [FeatureParts.members, eq_some_of_require hname, eq_some_of_require hscenarios,
      ← openingMembers_eq_slots]
    rcases p.background with _ | _ | background <;> rfl

/-- Decoding neither drops nor adds anything: what a JSON value decodes to encodes to the same
value, but for members that say nothing and the order of the members of structures. The structures
of the value are objects, its keywords strings, and no row has a name twice. -/
theorem json_faithful :
    Faithful Form.feature Feature.toJson Feature.decode ∧
      Faithful Form.block Block.toJson Block.decodeBackground ∧
      Faithful Form.block Scenario.toJson Scenario.decode ∧
      Faithful Form.block Block.toJson Block.decodeSimple ∧
      Faithful Form.block Outline.toJson Outline.decode ∧
      Faithful Form.step Step.toJson Step.decode ∧
      Faithful Form.argument Argument.toJson Argument.decode ∧
      Faithful Form.table Table.toJson Table.decode ∧
      Faithful Form.row Bindings.toJson Bindings.decode ∧
      Faithful Form.text Tag.toJson Tag.decode ∧
      Faithful Form.text StepKeyword.toJson StepKeyword.decode :=
  ⟨Feature.faithful, Block.faithful "Background", Scenario.faithful,
    Block.faithful "SimpleScenario", Outline.faithful, Step.faithful, Argument.faithful,
    Table.faithful, Bindings.faithful, Tag.faithful, StepKeyword.faithful⟩

/-- An outline with its fields in another order and with members that say nothing. -/
theorem json_faithful_reordered :
    let j : Json := .object [
      ("steps", .array [.object [("argument", .null), ("text", .string "a"),
        ("keyword", .string "given")]]),
      ("description", .null), ("tags", .array []),
      ("examples", .array [.object [("y", .string "1"), ("x", .string "2")]]),
      ("name", .string "O")]
    Form.block.Keyed j ∧ ∃ s, decodeJson Scenario.decode j = .ok s ∧
      Form.block.Same (Form.block.strip j) s.toJson := by
  intro j
  have hkeyed : Form.block.Keyed j := by
    simp only [j, Form.block, Form.step, Form.keyed_struct, Form.keyed_list, List.forall_mem_cons,
      Form.blockField, Form.stepField]
    simp [Form.argument, Form.Keyed]
  refine ⟨hkeyed, exists_ok_and (by decide +kernel) fun s hs => ?_⟩
  exact json_faithful.2.2.1 j s hkeyed hs

end Gherkin
