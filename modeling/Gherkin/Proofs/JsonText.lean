import Gherkin.Json.Decoder

/-
  Reading back the JSON texts of values without numbers. Both texts of a value have the same tokens
  (`spells_compact`, `spells_indented`), and reading the tokens of a value that is not nested too
  deep gives the draft of that value (`placed_of_plain`), so a decoder is given the same draft by
  either text as by the value itself.
-/

namespace Gherkin.Json

/-! ## Strings -/

/-- The text holds no control character. -/
def Printed (s : List Char) : Prop := ∀ c ∈ s, 0x20 ≤ c.toNat

instance (s : List Char) : Decidable (Printed s) :=
  List.decidableBAll (fun c : Char => 0x20 ≤ c.toNat) s

namespace Quoted

theorem unit?_control :
    ∀ n < 32, unit? '0' '0' (Nat.digitChar (n / 16)) (Nat.digitChar (n % 16)) = some n := by
  decide

theorem scan_escape (c : Char) (s : List Char) :
    scan (escape c ++ s) = (scan s).map (push c) := by
  unfold escape
  split
  · simp [scan, simple?]
  · simp [scan, simple?]
  · simp [scan, simple?]
  · simp [scan, simple?]
  · simp [scan, simple?]
  · simp [scan, simple?]
  · simp [scan, simple?]
  · rename_i hq hb _ _ _ _ _
    by_cases hc : c.toNat < 0x20
    · have hhigh : isHigh c.toNat = false := by simp [isHigh]; omega
      have hlow : isLow c.toNat = false := by simp [isLow]; omega
      rw [if_pos hc]
      simp [scan, unit?_control c.toNat hc, hhigh, hlow, Char.ofNat_toNat]
    · rw [if_neg hc, List.singleton_append,
        scan.eq_5 c s hq (fun _ _ _ _ _ h _ => hb h) (fun _ _ h _ => hb h), if_neg]
      simpa using ⟨hb, Nat.le_of_not_lt hc⟩

theorem scan_flatMap_escape (s r : List Char) :
    scan (s.flatMap escape ++ '"' :: r) = some (s, r) := by
  induction s with
  | nil => simp [scan]
  | cons c s ih => rw [List.flatMap_cons, List.append_assoc, scan_escape, ih]; rfl

/-- An escape holds no control character. -/
theorem toNat_of_mem_escape {c d : Char} (h : d ∈ escape c) : 0x20 ≤ d.toNat := by
  have digits : ∀ n < 16, 0x20 ≤ (Nat.digitChar n).toNat := by decide
  have letters : Printed ['"', '\\', 'n', 'r', 't', 'b', 'f', 'u', '0'] := by decide
  unfold escape at h
  split at h
  case h_8 =>
    split at h
    · rename_i hc
      simp only [List.mem_cons, List.not_mem_nil, or_false] at h
      rcases h with rfl | rfl | rfl | rfl | rfl | rfl
      · decide
      · decide
      · decide
      · decide
      · exact digits _ (by omega)
      · exact digits _ (by omega)
    · obtain rfl := List.mem_singleton.1 h
      omega
  all_goals
    apply letters
    revert h
    simp only [List.mem_cons, List.not_mem_nil, or_false]
    grind

end Quoted

/-! ## Tokens -/

theorem tokens_string (s : String) (r : List Char) :
    tokens (Quoted.encode s ++ r) = .string s :: tokens r := by
  have hs : Quoted.scan (s.toList.flatMap Quoted.escape ++ ['"'] ++ r) = some (s.toList, r) := by
    rw [List.append_assoc]
    exact Quoted.scan_flatMap_escape s.toList r
  rw [Quoted.encode, List.cons_append, List.cons_append, tokens]
  split
  · rename_i t rest h
    rw [hs] at h
    obtain ⟨rfl, rfl⟩ := Prod.mk.inj (Option.some.inj h)
    rw [String.ofList_toList]
  · rename_i h
    rw [hs] at h
    cases h

theorem tokens_space {c : Char} (hc : c = ' ' ∨ c = '\n') (r : List Char) :
    tokens (c :: r) = tokens r := by
  rcases hc with rfl | rfl <;> simp [tokens, isSpace]

theorem tokens_punctuation {c : Char} {t : Token} (hc : punctuation? c = some t)
    (r : List Char) : tokens (c :: r) = t :: tokens r := by
  unfold punctuation? at hc
  split at hc <;> cases hc <;> simp [tokens, isSpace, punctuation?]

theorem tokens_newline (level : Nat) (r : List Char) : tokens (newline level ++ r) = tokens r := by
  have hspaces : ∀ n, tokens (List.replicate n ' ' ++ r) = tokens r := by
    intro n
    induction n with
    | zero => rfl
    | succ n ih =>
      rw [List.replicate_succ, List.cons_append, tokens_space (by decide), ih]
  rw [newline, List.cons_append, tokens_space (by decide), hspaces]

theorem tokens_null (r : List Char) : tokens ("null".toList ++ r) = .null :: tokens r := by
  rw [show "null".toList = ['n', 'u', 'l', 'l'] from rfl]
  simp only [List.cons_append, List.nil_append]
  rw [tokens]

theorem tokens_boolText (b : Bool) (r : List Char) :
    tokens (boolText b ++ r) = .bool b :: tokens r := by
  cases b
  · rw [show boolText false = ['f', 'a', 'l', 's', 'e'] from rfl]
    simp only [List.cons_append, List.nil_append]
    rw [tokens]
  · rw [show boolText true = ['t', 'r', 'u', 'e'] from rfl]
    simp only [List.cons_append, List.nil_append]
    rw [tokens]

/-! ## The tokens of a value -/

/-- A value without numbers whose containers are nested at most this deep. -/
inductive Plain : Nat → Json → Prop
  | null {n : Nat} : Plain n .null
  | bool {n : Nat} (b : Bool) : Plain n (.bool b)
  | string {n : Nat} (s : String) : Plain n (.string s)
  | array {n : Nat} {items : List Json} (each : ∀ v ∈ items, Plain n v) :
    Plain (n + 1) (.array items)
  | object {n : Nat} {members : List (String × Json)} (each : ∀ m ∈ members, Plain n m.2) :
    Plain (n + 1) (.object members)

mutual

/-- The tokens of a value. -/
def spell : Json → List Token
  | .null => [.null]
  | .bool b => [.bool b]
  | .number n => [.number n]
  | .string s => [.string s]
  | .array [] => [.openArray, .closeArray]
  | .array (v :: vs) => .openArray :: spell v ++ spellItems vs
  | .object [] => [.openObject, .closeObject]
  | .object ((k, v) :: ms) => .openObject :: .string k :: .colon :: spell v ++ spellMembers ms

/-- The tokens of the items of an array after its first one, and of its end. -/
def spellItems : List Json → List Token
  | [] => [.closeArray]
  | v :: vs => .comma :: spell v ++ spellItems vs

/-- The tokens of the members of an object after its first one, and of its end. -/
def spellMembers : List (String × Json) → List Token
  | [] => [.closeObject]
  | (k, v) :: ms => .comma :: .string k :: .colon :: spell v ++ spellMembers ms

end

/-- A text of a value has the value's tokens, whatever follows it. -/
def Spells (text : List Char) (j : Json) : Prop := ∀ r, tokens (text ++ r) = spell j ++ tokens r

theorem tokens_compactItems {vs : List Json} (h : ∀ v ∈ vs, Spells v.compact v) (r : List Char) :
    tokens (compactItems vs ++ r) = spellItems vs ++ tokens r := by
  induction vs with
  | nil => exact tokens_punctuation (t := .closeArray) rfl r
  | cons v vs ih =>
    obtain ⟨hv, hvs⟩ := List.forall_mem_cons.1 h
    simp only [compactItems, spellItems, List.cons_append, List.append_assoc]
    rw [tokens_punctuation (t := .comma) rfl, hv, ih hvs]

theorem tokens_compactMembers {ms : List (String × Json)}
    (h : ∀ m ∈ ms, Spells m.2.compact m.2) (r : List Char) :
    tokens (compactMembers ms ++ r) = spellMembers ms ++ tokens r := by
  induction ms with
  | nil => exact tokens_punctuation (t := .closeObject) rfl r
  | cons m ms ih =>
    obtain ⟨hv, hms⟩ := List.forall_mem_cons.1 h
    simp only [compactMembers, spellMembers, List.cons_append, List.append_assoc]
    rw [tokens_punctuation (t := .comma) rfl, tokens_string, tokens_punctuation (t := .colon) rfl,
      hv, ih hms]

theorem spells_compact {n : Nat} {j : Json} (h : Plain n j) : Spells j.compact j := by
  induction h with
  | null => exact tokens_null
  | bool b => exact tokens_boolText b
  | string s => exact tokens_string s
  | @array n items _ ih =>
    intro r
    cases items with
    | nil =>
      simp only [compact, spell, List.cons_append, List.nil_append]
      rw [tokens_punctuation (t := .openArray) rfl, tokens_punctuation (t := .closeArray) rfl]
    | cons v vs =>
      obtain ⟨hv, hvs⟩ := List.forall_mem_cons.1 ih
      simp only [compact, spell, List.cons_append, List.append_assoc]
      rw [tokens_punctuation (t := .openArray) rfl, hv, tokens_compactItems hvs]
  | @object n members _ ih =>
    intro r
    cases members with
    | nil =>
      simp only [compact, spell, List.cons_append, List.nil_append]
      rw [tokens_punctuation (t := .openObject) rfl, tokens_punctuation (t := .closeObject) rfl]
    | cons m ms =>
      obtain ⟨hv, hms⟩ := List.forall_mem_cons.1 ih
      simp only [compact, spell, List.cons_append, List.append_assoc]
      rw [tokens_punctuation (t := .openObject) rfl, tokens_string,
        tokens_punctuation (t := .colon) rfl, hv, tokens_compactMembers hms]

theorem tokens_indentedItems {level : Nat} {vs : List Json}
    (h : ∀ v ∈ vs, ∀ l, Spells (v.indented l) v) (r : List Char) :
    tokens (indentedItems level vs ++ r) = spellItems vs ++ tokens r := by
  induction vs with
  | nil =>
    rw [indentedItems, List.append_assoc, tokens_newline]
    exact tokens_punctuation (t := .closeArray) rfl r
  | cons v vs ih =>
    obtain ⟨hv, hvs⟩ := List.forall_mem_cons.1 h
    simp only [indentedItems, spellItems, List.cons_append, List.append_assoc]
    rw [tokens_punctuation (t := .comma) rfl, tokens_newline, hv, ih hvs]

theorem tokens_indentedMembers {level : Nat} {ms : List (String × Json)}
    (h : ∀ m ∈ ms, ∀ l, Spells (m.2.indented l) m.2) (r : List Char) :
    tokens (indentedMembers level ms ++ r) = spellMembers ms ++ tokens r := by
  induction ms with
  | nil =>
    rw [indentedMembers, List.append_assoc, tokens_newline]
    exact tokens_punctuation (t := .closeObject) rfl r
  | cons m ms ih =>
    obtain ⟨hv, hms⟩ := List.forall_mem_cons.1 h
    simp only [indentedMembers, spellMembers, List.cons_append, List.append_assoc]
    rw [tokens_punctuation (t := .comma) rfl, tokens_newline, tokens_string,
      tokens_punctuation (t := .colon) rfl, tokens_space (.inl rfl), hv, ih hms]

theorem spells_indented {n : Nat} {j : Json} (h : Plain n j) (level : Nat) :
    Spells (j.indented level) j := by
  induction h generalizing level with
  | null => exact tokens_null
  | bool b => exact tokens_boolText b
  | string s => exact tokens_string s
  | @array n items _ ih =>
    intro r
    cases items with
    | nil =>
      simp only [indented, spell, List.cons_append, List.nil_append]
      rw [tokens_punctuation (t := .openArray) rfl, tokens_punctuation (t := .closeArray) rfl]
    | cons v vs =>
      obtain ⟨hv, hvs⟩ := List.forall_mem_cons.1 ih
      simp only [indented, spell, List.cons_append, List.append_assoc]
      rw [tokens_punctuation (t := .openArray) rfl, tokens_newline, hv, tokens_indentedItems hvs]
  | @object n members _ ih =>
    intro r
    cases members with
    | nil =>
      simp only [indented, spell, List.cons_append, List.nil_append]
      rw [tokens_punctuation (t := .openObject) rfl, tokens_punctuation (t := .closeObject) rfl]
    | cons m ms =>
      obtain ⟨hv, hms⟩ := List.forall_mem_cons.1 ih
      simp only [indented, spell, List.cons_append, List.append_assoc]
      rw [tokens_punctuation (t := .openObject) rfl, tokens_newline, tokens_string,
        tokens_punctuation (t := .colon) rfl, tokens_space (.inl rfl), hv,
        tokens_indentedMembers hms]

/-! ## Reading the tokens -/

namespace Draft

theorem ofItems_eq_map (vs : List Json) : ofItems vs = vs.map ofJson := by
  induction vs with
  | nil => rfl
  | cons v vs ih => rw [ofItems, ih, List.map_cons]

theorem ofMembers_eq_map (ms : List (String × Json)) :
    ofMembers ms = ms.map fun m => (some m.1, ofJson m.2) := by
  induction ms with
  | nil => rfl
  | cons m ms ih => rw [ofMembers, ih, List.map_cons]

mutual

theorem sound_ofJson : ∀ j : Json, (ofJson j).sound = true
  | .null | .bool _ | .number _ | .string _ => rfl
  | .array vs => soundItems_ofItems vs
  | .object ms => soundMembers_ofMembers ms

theorem soundItems_ofItems : ∀ vs : List Json, soundItems (ofItems vs) = true
  | [] => rfl
  | v :: vs => by rw [ofItems, soundItems, sound_ofJson v, soundItems_ofItems vs]; rfl

theorem soundMembers_ofMembers : ∀ ms : List (String × Json), soundMembers (ofMembers ms) = true
  | [] => rfl
  | (k, v) :: ms => by
    rw [ofMembers, soundMembers, sound_ofJson v, soundMembers_ofMembers ms]
    rfl

end

/-- Reading the tokens of the value where a value has to come completes the value. -/
def Placed (j : Json) (frames : List Frame) : Prop :=
  (spell j).foldl Reading.next (.value frames) = .placed (ofJson j) frames

/-- The first token of a value ends no array. -/
theorem foldl_openedArray (j : Json) (frames : List Frame) :
    (spell j).foldl Reading.next (.openedArray frames) =
      (spell j).foldl Reading.next (.value (.array [] :: frames)) := by
  unfold spell
  split <;> rfl

theorem foldl_spellItems {vs : List Json} {frames : List Frame} {d : Draft}
    {before : List Draft} (h : ∀ v ∈ vs, ∀ b, Placed v (.array b :: frames)) :
    (spellItems vs).foldl Reading.next (.placed d (.array before :: frames)) =
      .placed (.array (before.reverse ++ d :: ofItems vs)) frames := by
  induction vs generalizing d before with
  | nil =>
    rw [ofItems, ← List.reverse_cons]
    rfl
  | cons v vs ih =>
    obtain ⟨hv, hvs⟩ := List.forall_mem_cons.1 h
    rw [spellItems, List.cons_append, List.foldl_cons, List.foldl_append]
    show (spellItems vs).foldl Reading.next
      ((spell v).foldl Reading.next (.value (.array (d :: before) :: frames))) = _
    rw [hv, ih hvs, ofItems, List.reverse_cons, List.append_assoc, List.singleton_append]

theorem foldl_spellMembers {ms : List (String × Json)} {frames : List Frame} {d : Draft}
    {k : String} {before : List (Option String × Draft)}
    (h : ∀ m ∈ ms, ∀ b l, Placed m.2 (.object b l :: frames)) :
    (spellMembers ms).foldl Reading.next (.placed d (.object before (some k) :: frames)) =
      .placed (.object (before.reverse ++ (some k, d) :: ofMembers ms)) frames := by
  induction ms generalizing d k before with
  | nil =>
    rw [ofMembers, ← List.reverse_cons]
    rfl
  | cons m ms ih =>
    obtain ⟨l, v⟩ := m
    obtain ⟨hv, hms⟩ := List.forall_mem_cons.1 h
    simp only [spellMembers, List.cons_append, List.foldl_cons, List.foldl_append]
    show (spellMembers ms).foldl Reading.next ((spell v).foldl Reading.next
      (.value (.object ((some k, d) :: before) (some l) :: frames))) = _
    rw [hv, ih hms, ofMembers, List.reverse_cons, List.append_assoc, List.singleton_append]

theorem placed_array {items : List Json} {frames : List Frame} (hn : frames.length < depthLimit)
    (h : ∀ v ∈ items, ∀ b, Placed v (.array b :: frames)) : Placed (.array items) frames := by
  have hopen : Reading.next (.value frames) .openArray = .openedArray frames := if_pos hn
  unfold Placed
  cases items with
  | nil =>
    rw [spell, List.foldl_cons, hopen]
    rfl
  | cons v vs =>
    obtain ⟨hv, hvs⟩ := List.forall_mem_cons.1 h
    rw [spell, List.cons_append, List.foldl_cons, hopen, List.foldl_append, foldl_openedArray, hv,
      foldl_spellItems hvs]
    rfl

theorem placed_object {members : List (String × Json)} {frames : List Frame}
    (hn : frames.length < depthLimit)
    (h : ∀ m ∈ members, ∀ b k, Placed m.2 (.object b k :: frames)) :
    Placed (.object members) frames := by
  have hopen : Reading.next (.value frames) .openObject = .openedObject frames := if_pos hn
  unfold Placed
  cases members with
  | nil =>
    rw [spell, List.foldl_cons, hopen]
    rfl
  | cons m ms =>
    obtain ⟨k, v⟩ := m
    obtain ⟨hv, hms⟩ := List.forall_mem_cons.1 h
    simp only [spell, List.cons_append, List.foldl_cons, hopen, List.foldl_append]
    show (spellMembers ms).foldl Reading.next
      ((spell v).foldl Reading.next (.value (.object [] (some k) :: frames))) = _
    rw [hv, foldl_spellMembers hms]
    rfl

/-- A value is read whole where its nesting fits below the open containers. -/
theorem placed_of_plain {n : Nat} {j : Json} (h : Plain n j) {frames : List Frame}
    (hn : frames.length + n ≤ depthLimit) : Placed j frames := by
  induction h generalizing frames with
  | null => rfl
  | bool b => rfl
  | string s => rfl
  | array _ ih =>
    refine placed_array (by omega) fun v hv b => ih v hv ?_
    rw [List.length_cons]
    omega
  | object _ ih =>
    refine placed_object (by omega) fun m hm b k => ih m hm ?_
    rw [List.length_cons]
    omega

/-- Either text of a value is read as the draft of the value, and nothing is left over. -/
theorem read_of_spells {j : Json} {text : List Char} (h : Plain depthLimit j)
    (ht : Spells text j) : read (String.ofList text) = .placed (ofJson j) [] := by
  have htokens : tokens text = spell j := by
    have hnil : tokens [] = [] := by rw [tokens]
    simpa [hnil] using ht []
  rw [read, String.toList_ofList, htokens]
  exact placed_of_plain h (Nat.le_of_eq (Nat.zero_add _))

end Draft

/-! ## Decoding a text -/

/-- A text decodes as what is read of it, if that is all of it. -/
theorem decodeText_eq_ok_iff {α : Type} {decode : Draft → Except DecodeError α} {text : String}
    {a : α} : decodeText decode text = .ok a ↔
      decode (Draft.read text).finish = .ok a ∧ (Draft.read text).isExcess = false := by
  show (decode (Draft.read text).finish >>= fun v =>
    if (Draft.read text).isExcess then throw .malformed else pure v) = _ ↔ _
  cases decode (Draft.read text).finish with
  | error e => exact ⟨nofun, nofun⟩
  | ok b =>
    cases (Draft.read text).isExcess with
    | true => exact ⟨nofun, nofun⟩
    | false => exact ⟨fun h => ⟨h, rfl⟩, fun h => h.1⟩

section Decode

variable {α : Type} {j : Json} (decode : Draft → Except DecodeError α)

theorem decodeText_of_spells {text : List Char} (h : Plain Draft.depthLimit j)
    (ht : Spells text j) : decodeText decode (String.ofList text) = decodeJson decode j := by
  rw [decodeText, Draft.read_of_spells h ht, decodeJson]
  show (decode (Draft.ofJson j) >>= fun v => _) = _
  cases decode (Draft.ofJson j) <;> rfl

/-- A decoder is given the same value by the compact text as by the value. -/
theorem decodeText_toCompact (h : Plain Draft.depthLimit j) :
    decodeText decode j.toCompact = decodeJson decode j :=
  decodeText_of_spells decode h (spells_compact h)

/-- A decoder is given the same value by the indented text as by the value. -/
theorem decodeText_toIndented (h : Plain Draft.depthLimit j) :
    decodeText decode j.toIndented = decodeJson decode j :=
  decodeText_of_spells decode h (spells_indented h 0)

end Decode

/-! ## The characters of a compact text -/

theorem printed_append {s t : List Char} (hs : Printed s) (ht : Printed t) : Printed (s ++ t) := by
  intro c hc
  rcases List.mem_append.1 hc with hc | hc
  · exact hs c hc
  · exact ht c hc

theorem printed_cons {c : Char} {s : List Char} (hc : 0x20 ≤ c.toNat) (hs : Printed s) :
    Printed (c :: s) := List.forall_mem_cons.2 ⟨hc, hs⟩

theorem printed_encode (s : String) : Printed (Quoted.encode s) := by
  refine printed_cons (by decide) (printed_append ?_ ?_)
  · intro c hc
    obtain ⟨d, -, hd⟩ := List.mem_flatMap.1 hc
    exact Quoted.toNat_of_mem_escape hd
  · simp [Printed]

theorem printed_compactItems {vs : List Json} (h : ∀ v ∈ vs, Printed v.compact) :
    Printed (compactItems vs) := by
  induction vs with
  | nil => simp [Printed, compactItems]
  | cons v vs ih =>
    obtain ⟨hv, hvs⟩ := List.forall_mem_cons.1 h
    exact printed_cons (by decide) (printed_append hv (ih hvs))

theorem printed_compactMembers {ms : List (String × Json)} (h : ∀ m ∈ ms, Printed m.2.compact) :
    Printed (compactMembers ms) := by
  induction ms with
  | nil => simp [Printed, compactMembers]
  | cons m ms ih =>
    obtain ⟨hv, hms⟩ := List.forall_mem_cons.1 h
    exact printed_append (printed_append (printed_cons (by decide) (printed_encode m.1))
      (printed_cons (by decide) hv)) (ih hms)

theorem printed_compact {n : Nat} {j : Json} (h : Plain n j) : Printed j.compact := by
  induction h with
  | null => decide
  | bool b => cases b <;> decide
  | string s => exact printed_encode s
  | @array n items _ ih =>
    cases items with
    | nil => decide
    | cons v vs =>
      obtain ⟨hv, hvs⟩ := List.forall_mem_cons.1 ih
      exact printed_cons (by decide) (printed_append hv (printed_compactItems hvs))
  | @object n members _ ih =>
    cases members with
    | nil => decide
    | cons m ms =>
      obtain ⟨hv, hms⟩ := List.forall_mem_cons.1 ih
      exact printed_append (printed_append (printed_cons (by decide) (printed_encode m.1))
        (printed_cons (by decide) hv)) (printed_compactMembers hms)

/-- The compact text is one line. -/
theorem not_mem_toCompact {n : Nat} {j : Json} (h : Plain n j) {c : Char} (hc : c.toNat < 0x20) :
    c ∉ j.toCompact.toList := by
  intro hm
  rw [toCompact, String.toList_ofList] at hm
  have := printed_compact h c hm
  omega

end Gherkin.Json
