import Gherkin.Load
import Mathlib.Order.Bounds.Basic

/-
  Bytes of texts. The encoding of a text is read back whatever follows it (`decodeFrom_encoded`),
  and whatever is read is the encoding of the text that it gives; a reading that fails has read the
  characters before the faulty one and knows whether the bytes from there on begin a character
  (`explains_decodeFrom`). So a fault stands behind the longest beginning that is a text, and an
  incomplete one is what more bytes mend (`encoding_before_grammar`).
-/

namespace Gherkin

namespace Text.Utf8

/-! ## The encoding -/

theorem toList_loop (bytes : ByteArray) (i : Nat) (read : List UInt8) :
    ByteArray.toList.loop bytes i read = read.reverse ++ bytes.data.toList.drop i := by
  fun_induction ByteArray.toList.loop bytes i read with
  | case1 i read h ih =>
    have hi : i < bytes.data.toList.length := h
    rw [ih, List.drop_eq_getElem_cons hi]
    simp [ByteArray.get!, h]
  | case2 i read h =>
    have hend : bytes.data.toList.length ≤ i := Nat.le_of_not_lt h
    rw [List.drop_eq_nil_of_le hend, List.append_nil]

/-- The bytes of characters. -/
def encoded (s : List Char) : List UInt8 := s.flatMap String.utf8EncodeChar

theorem encode_eq (s : String) : encode s = encoded s.toList := by
  have hbytes : s.toByteArray = s.toList.utf8Encode := by
    rw [← String.toByteArray_ofList, String.ofList_toList]
  rw [encode, String.toUTF8_eq_toByteArray, hbytes, ByteArray.toList, toList_loop,
    List.reverse_nil, List.nil_append, List.drop_zero, List.utf8Encode,
    List.toList_data_toByteArray]
  rfl

theorem encoded_cons (c : Char) (s : List Char) :
    encoded (c :: s) = String.utf8EncodeChar c ++ encoded s := List.flatMap_cons

theorem encoded_append (s t : List Char) : encoded (s ++ t) = encoded s ++ encoded t :=
  List.flatMap_append

/-- The bytes are those of a text. -/
def Valid (bytes : List UInt8) : Prop := ∃ s : String, bytes = encode s

theorem valid_encoded (s : List Char) : Valid (encoded s) :=
  ⟨String.ofList s, by rw [encode_eq, String.toList_ofList]⟩

theorem Valid.exists_encoded {bytes : List UInt8} (h : Valid bytes) : ∃ s, bytes = encoded s := by
  obtain ⟨s, rfl⟩ := h
  exact ⟨s.toList, encode_eq s⟩

/-! ## One character -/

theorem toNat_ofNat {n : Nat} (h : n.isValidChar) : (Char.ofNat n).val.toNat = n := by
  rw [Char.ofNat, dif_pos h]
  rfl

theorem begin?_two : ∀ b < 256, 0xc2 ≤ b → b ≤ 0xdf →
    begin? b = some ⟨1, 0x80, 0xbf, b - 0xc0, 1⟩ := by decide +kernel

theorem begin?_three : ∀ b < 256, 0xe0 ≤ b → b ≤ 0xef → begin? b =
    some ⟨2, if b = 0xe0 then 0xa0 else 0x80, if b = 0xed then 0x9f else 0xbf, b - 0xe0, 1⟩ := by
  decide +kernel

theorem begin?_four : ∀ b < 256, 0xf0 ≤ b → b ≤ 0xf4 → begin? b =
    some ⟨3, if b = 0xf0 then 0x90 else 0x80, if b = 0xf4 then 0x8f else 0xbf, b - 0xf0, 1⟩ := by
  decide +kernel

theorem begin?_other : ∀ b < 256, (b < 0xc2 ∨ 0xf4 < b) → begin? b = none := by decide +kernel

/-- The bytes begin a character and do not end it, and this is known of it: the values that it
can have are those of characters that no fewer bytes hold. -/
inductive Opens : List UInt8 → Begun → Prop
  | two (bits : Nat) (least : 0x2 ≤ bits) (most : bits < 0x20) :
    Opens [.ofNat (bits + 0xc0)] ⟨1, 0x80, 0xbf, bits, 1⟩
  | three (bits : Nat) (most : bits < 0x10) : Opens [.ofNat (bits + 0xe0)]
    ⟨2, if bits = 0 then 0xa0 else 0x80, if bits = 0xd then 0x9f else 0xbf, bits, 1⟩
  | threeMore (bits : Nat) (least : 0x20 ≤ bits) (most : bits < 0x400)
    (noSurrogate : bits < 0x360 ∨ 0x380 ≤ bits) :
    Opens [.ofNat (bits / 64 + 0xe0), .ofNat (bits % 64 + 0x80)] ⟨1, 0x80, 0xbf, bits, 2⟩
  | four (bits : Nat) (most : bits < 0x5) : Opens [.ofNat (bits + 0xf0)]
    ⟨3, if bits = 0 then 0x90 else 0x80, if bits = 4 then 0x8f else 0xbf, bits, 1⟩
  | fourMore (bits : Nat) (least : 0x10 ≤ bits) (most : bits < 0x110) :
    Opens [.ofNat (bits / 64 + 0xf0), .ofNat (bits % 64 + 0x80)] ⟨2, 0x80, 0xbf, bits, 2⟩
  | fourMost (bits : Nat) (least : 0x400 ≤ bits) (most : bits < 0x4400) :
    Opens [.ofNat (bits / 4096 + 0xf0), .ofNat (bits / 64 % 64 + 0x80), .ofNat (bits % 64 + 0x80)]
      ⟨1, 0x80, 0xbf, bits, 3⟩

theorem opens_of_begin? {b : UInt8} {c : Begun} (h : begin? b.toNat = some c) : Opens [b] c := by
  have hb : b.toNat < 256 := b.toNat_lt
  have hbyte {n : Nat} (hn : n ≤ b.toNat) : UInt8.ofNat (b.toNat - n + n) = b := by
    rw [Nat.sub_add_cancel hn, UInt8.ofNat_toNat]
  rcases Nat.lt_or_ge b.toNat 0xc2 with hlow | hlow
  · rw [begin?_other _ hb (.inl hlow)] at h
    cases h
  rcases Nat.lt_or_ge 0xf4 b.toNat with hhigh | hhigh
  · rw [begin?_other _ hb (.inr hhigh)] at h
    cases h
  rcases Nat.lt_or_ge b.toNat 0xe0 with hthree | hthree
  · have htwo := Opens.two (b.toNat - 0xc0) (by omega) (by omega)
    rw [begin?_two _ hb hlow (by omega)] at h
    rwa [hbyte (by omega), Option.some.inj h] at htwo
  have hsub (m n : Nat) (hm : m ≤ b.toNat) : (b.toNat - m = n) = (b.toNat = n + m) :=
    propext ⟨by omega, by omega⟩
  rcases Nat.lt_or_ge b.toNat 0xf0 with hfour | hfour
  · have hopens := Opens.three (b.toNat - 0xe0) (by omega)
    rw [begin?_three _ hb hthree (by omega)] at h
    rw [hbyte hthree] at hopens
    simp only [hsub _ _ hthree] at hopens
    rwa [Option.some.inj h] at hopens
  · have hopens := Opens.four (b.toNat - 0xf0) (by omega)
    rw [begin?_four _ hb hfour hhigh] at h
    rw [hbyte hfour] at hopens
    simp only [hsub _ _ hfour] at hopens
    rwa [Option.some.inj h] at hopens

/-- A byte that goes on with a character holds six bits of its value. -/
theorem Opens.exists_tail {head : List UInt8} {c : Begun} {b : UInt8} (h : Opens head c)
    (low : c.low ≤ b.toNat) (high : b.toNat ≤ c.high) :
    ∃ t < 64, b.toNat = t + 0x80 ∧ b = .ofNat (t + 0x80) := by
  have hrange : 0x80 ≤ c.low ∧ c.high ≤ 0xbf := by
    cases h <;> dsimp only <;> (try split_ifs) <;> omega
  refine ⟨b.toNat - 0x80, by omega, by omega, ?_⟩
  rw [Nat.sub_add_cancel (by omega), UInt8.ofNat_toNat]

/-- What is known after one more byte, which does not end the character. -/
def Begun.add (c : Begun) (b : UInt8) : Begun :=
  ⟨c.needs - 1, 0x80, 0xbf, c.bits * 64 + (b.toNat - 0x80), c.length + 1⟩

theorem Opens.add {head : List UInt8} {c : Begun} {b : UInt8} (h : Opens head c)
    (low : c.low ≤ b.toNat) (high : b.toNat ≤ c.high) (more : 1 < c.needs) :
    Opens (head ++ [b]) (c.add b) := by
  obtain ⟨t, ht, hb, rfl⟩ := h.exists_tail low high
  have hdiv (bits : Nat) : (bits * 64 + t) / 64 = bits := by omega
  have hmod (bits : Nat) : (bits * 64 + t) % 64 = t := by omega
  rw [Begun.add, hb, Nat.add_sub_cancel]
  rw [hb] at low high
  cases h with
  | two | threeMore | fourMost => exact absurd more (Nat.lt_irrefl 1)
  | @three bits most =>
    dsimp only at low high
    have hopens := Opens.threeMore (bits * 64 + t) (by split_ifs at low <;> omega)
      (by omega) (by split_ifs at high <;> omega)
    rwa [hdiv, hmod] at hopens
  | @four bits most =>
    dsimp only at low high
    have hopens := Opens.fourMore (bits * 64 + t) (by split_ifs at low <;> omega)
      (by split_ifs at high <;> omega)
    rwa [hdiv, hmod] at hopens
  | @fourMore bits least most =>
    have hopens := Opens.fourMost (bits * 64 + t) (by omega) (by omega)
    have hdivs : (bits * 64 + t) / 4096 = bits / 64 := by omega
    rwa [hdivs, hdiv, hmod] at hopens

/-- The character that a byte ends. -/
theorem Opens.ends {head : List UInt8} {c : Begun} {b : UInt8} (h : Opens head c)
    (low : c.low ≤ b.toNat) (high : b.toNat ≤ c.high) (last : c.needs ≤ 1) :
    String.utf8EncodeChar (Char.ofNat (c.bits * 64 + (b.toNat - 0x80))) = head ++ [b] := by
  obtain ⟨t, ht, hb, rfl⟩ := h.exists_tail low high
  rw [hb, Nat.add_sub_cancel, String.utf8EncodeChar]
  have hdiv (bits : Nat) : (bits * 64 + t) / 64 = bits := by omega
  have hmod (bits : Nat) : (bits * 64 + t) % 64 = t := by omega
  cases h with
  | three | four | fourMore => exact absurd last (by simp)
  | @two bits least most =>
    have hn : (bits * 64 + t).isValidChar := .inl (by omega)
    simp only [toNat_ofNat hn]
    rw [if_neg (by omega), if_pos (by omega), hdiv, hmod, Nat.mod_eq_of_lt most]
    rfl
  | @threeMore bits least most noSurrogate =>
    have hn : (bits * 64 + t).isValidChar := by
      unfold Nat.isValidChar
      omega
    have hlead : (bits * 64 + t) / 4096 % 16 = bits / 64 := by omega
    simp only [toNat_ofNat hn]
    rw [if_neg (by omega), if_neg (by omega), if_pos (by omega), hlead, hdiv, hmod]
    rfl
  | @fourMost bits least most =>
    have hn : (bits * 64 + t).isValidChar := .inr (by omega)
    have hlead : (bits * 64 + t) / 262144 % 8 = bits / 4096 := by omega
    have hnext : (bits * 64 + t) / 4096 % 64 = bits / 64 % 64 := by omega
    simp only [toNat_ofNat hn]
    rw [if_neg (by omega), if_neg (by omega), if_neg (by omega), hlead, hnext, hdiv, hmod]
    rfl

/-! ## Reading a byte -/

section Step

variable {b : UInt8} {c : Begun} (i : Nat) (rest : List UInt8)

theorem decodeFrom_ascii (h : b.toNat < 0x80) : decodeFrom i none (b :: rest) =
    (decodeFrom (i + 1) none rest).map (Char.ofNat b.toNat :: ·) := by
  simp only [decodeFrom, if_pos h]

theorem decodeFrom_begin (h : begin? b.toNat = some c) :
    decodeFrom i none (b :: rest) = decodeFrom i (some c) rest := by
  have hb : ¬b.toNat < 0x80 := by
    intro hlow
    rw [begin?_other _ b.toNat_lt (.inl (by omega))] at h
    cases h
  simp only [decodeFrom, if_neg hb, h]

variable (low : c.low ≤ b.toNat) (high : b.toNat ≤ c.high)
include low high

theorem decodeFrom_add (more : 1 < c.needs) :
    decodeFrom i (some c) (b :: rest) = decodeFrom i (some (c.add b)) rest := by
  simp only [decodeFrom, low, high, decide_true, Bool.and_self, if_true,
    if_neg (Nat.not_le_of_lt more)]
  rfl

theorem decodeFrom_end (last : c.needs ≤ 1) : decodeFrom i (some c) (b :: rest) =
    (decodeFrom (i + c.length + 1) none rest).map
      (Char.ofNat (c.bits * 64 + (b.toNat - 0x80)) :: ·) := by
  simp only [decodeFrom, low, high, decide_true, Bool.and_self, if_true, if_pos last]

end Step

/-! ## Reading what was written -/

section Character

variable {a b d e : UInt8} {w x y z : Nat} (i : Nat) (rest : List UInt8)

theorem decodeFrom_two (ha : a.toNat = w + 0xc0) (hb : b.toNat = x + 0x80) (least : 2 ≤ w)
    (hw : w < 0x20) (hx : x < 64) : decodeFrom i none (a :: b :: rest) =
      (decodeFrom (i + 2) none rest).map (Char.ofNat (w * 64 + x) :: ·) := by
  have hbegin := begin?_two a.toNat a.toNat_lt (by omega) (by omega)
  rw [ha, Nat.add_sub_cancel] at hbegin
  rw [decodeFrom_begin _ _ (ha ▸ hbegin),
    decodeFrom_end _ _ (by dsimp only; omega) (by dsimp only; omega) (Nat.le_refl 1), hb,
    Nat.add_sub_cancel]

theorem decodeFrom_three (ha : a.toNat = w + 0xe0) (hb : b.toNat = x + 0x80)
    (hd : d.toNat = y + 0x80) (hw : w < 0x10) (hx : x < 64) (hy : y < 64)
    (least : w = 0 → 0x20 ≤ x) (noSurrogate : w = 0xd → x < 0x20) :
    decodeFrom i none (a :: b :: d :: rest) =
      (decodeFrom (i + 3) none rest).map (Char.ofNat ((w * 64 + x) * 64 + y) :: ·) := by
  have hbegin := begin?_three a.toNat a.toNat_lt (by omega) (by omega)
  rw [decodeFrom_begin _ _ hbegin,
    decodeFrom_add _ _ (by dsimp only; split_ifs <;> omega) (by dsimp only; split_ifs <;> omega)
      (Nat.lt_succ_self 1), Begun.add,
    decodeFrom_end _ _ (by dsimp only; omega) (by dsimp only; omega) (Nat.le_refl 1)]
  simp only [ha, hb, hd, Nat.add_sub_cancel]

theorem decodeFrom_four (ha : a.toNat = w + 0xf0) (hb : b.toNat = x + 0x80)
    (hd : d.toNat = y + 0x80) (he : e.toNat = z + 0x80) (hw : w < 0x5) (hx : x < 64)
    (hy : y < 64) (hz : z < 64) (least : w = 0 → 0x10 ≤ x) (most : w = 4 → x < 0x10) :
    decodeFrom i none (a :: b :: d :: e :: rest) =
      (decodeFrom (i + 4) none rest).map
        (Char.ofNat (((w * 64 + x) * 64 + y) * 64 + z) :: ·) := by
  have hbegin := begin?_four a.toNat a.toNat_lt (by omega) (by omega)
  rw [decodeFrom_begin _ _ hbegin,
    decodeFrom_add _ _ (by dsimp only; split_ifs <;> omega) (by dsimp only; split_ifs <;> omega)
      (by dsimp only; omega), Begun.add,
    decodeFrom_add _ _ (by dsimp only; omega) (by dsimp only; omega) (Nat.lt_succ_self 1),
    Begun.add, decodeFrom_end _ _ (by dsimp only; omega) (by dsimp only; omega) (Nat.le_refl 1)]
  simp only [ha, hb, hd, he, Nat.add_sub_cancel]

end Character

/-- The bytes of a character are read as that character. -/
theorem decodeFrom_encodeChar (c : Char) (i : Nat) (rest : List UInt8) :
    decodeFrom i none (String.utf8EncodeChar c ++ rest) =
      (decodeFrom (i + (String.utf8EncodeChar c).length) none rest).map (c :: ·) := by
  have hvalid : c.val.toNat.isValidChar := c.valid
  have hc : Char.ofNat c.val.toNat = c := Char.ofNat_toNat c
  have hbyte {n : Nat} (hn : n < 256) : (UInt8.ofNat n).toNat = n := by
    rw [UInt8.toNat_ofNat', Nat.mod_eq_of_lt hn]
  rw [String.utf8EncodeChar]
  generalize c.val.toNat = v at hvalid hc
  unfold Nat.isValidChar at hvalid
  subst hc
  split_ifs with hone htwo hthree
  · have hv := hbyte (n := v) (by omega)
    rw [List.singleton_append, decodeFrom_ascii _ _ (by omega), hv]
    rfl
  · have hv : v / 64 % 32 * 64 + v % 64 = v := by omega
    refine (decodeFrom_two i rest (hbyte (by omega)) (hbyte (by omega)) (by omega) (by omega)
      (by omega)).trans ?_
    rw [hv]
    rfl
  · have hv : (v / 4096 % 16 * 64 + v / 64 % 64) * 64 + v % 64 = v := by omega
    refine (decodeFrom_three i rest (hbyte (by omega)) (hbyte (by omega)) (hbyte (by omega))
      (by omega) (by omega) (by omega) (by omega) (by omega)).trans ?_
    rw [hv]
    rfl
  · have hv : ((v / 262144 % 8 * 64 + v / 4096 % 64) * 64 + v / 64 % 64) * 64 + v % 64 = v := by
      omega
    refine (decodeFrom_four i rest (hbyte (by omega)) (hbyte (by omega)) (hbyte (by omega))
      (hbyte (by omega)) (by omega) (by omega) (by omega) (by omega) (by omega) (by omega)).trans ?_
    rw [hv]
    rfl

theorem decodeFrom_encoded (s : List Char) (i : Nat) (rest : List UInt8) :
    decodeFrom i none (encoded s ++ rest) =
      (decodeFrom (i + (encoded s).length) none rest).map (s ++ ·) := by
  induction s generalizing i with
  | nil =>
    show decodeFrom i none rest = (decodeFrom i none rest).map id
    cases decodeFrom i none rest <;> rfl
  | cons c s ih =>
    rw [encoded_cons, List.append_assoc, decodeFrom_encodeChar, ih, List.length_append,
      Nat.add_assoc]
    cases decodeFrom _ none rest <;> rfl

/-- A text is read from its bytes. -/
theorem decode_encoded (s : List Char) : decode (encoded s) = .ok s := by
  have hread := decodeFrom_encoded s 0 []
  rw [List.append_nil] at hread
  rw [decode, hread]
  exact congrArg Except.ok (List.append_nil s)

/-! ## What a reading tells -/

/-- What a reading from a place between characters tells of the bytes. -/
inductive Explains (i : Nat) (bytes : List UInt8) : Except Fault (List Char) → Prop
  | text {s : List Char} (all : bytes = encoded s) : Explains i bytes (.ok s)
  | invalid {s : List Char} {rest : List UInt8} {n : Nat} (before : bytes = encoded s ++ rest) :
    Explains i bytes (.error (.invalid n (i + (encoded s).length)))
  | incomplete {s : List Char} {head : List UInt8} {c : Begun}
    (before : bytes = encoded s ++ head) (opens : Opens head c) :
    Explains i bytes (.error (.incomplete (i + (encoded s).length)))

theorem Explains.cons {i : Nat} {c : Char} {bytes : List UInt8} {r : Except Fault (List Char)}
    (h : Explains (i + (String.utf8EncodeChar c).length) bytes r) :
    Explains i (String.utf8EncodeChar c ++ bytes) (r.map (c :: ·)) := by
  have hbefore {s : List Char} {rest : List UInt8} (before : bytes = encoded s ++ rest) :
      String.utf8EncodeChar c ++ bytes = encoded (c :: s) ++ rest := by
    rw [before, encoded_cons, List.append_assoc]
  have hlength (s : List Char) : i + (String.utf8EncodeChar c).length + (encoded s).length =
      i + (encoded (c :: s)).length := by
    rw [encoded_cons, List.length_append, Nat.add_assoc]
  cases h with
  | @text s all => exact .text (by rw [all, encoded_cons])
  | @invalid s rest n before =>
    rw [hlength]
    exact .invalid (hbefore before)
  | @incomplete s head k before opens =>
    rw [hlength]
    exact .incomplete (hbefore before) opens

theorem Opens.length {head : List UInt8} {c : Begun} (h : Opens head c) :
    head.length = c.length := by
  cases h <;> rfl

/-- What is read of bytes is there, and where a reading fails no character is there or the bytes end
within one. -/
theorem explains_decodeFrom (bytes : List UInt8) :
    (∀ i, Explains i bytes (decodeFrom i none bytes)) ∧
      ∀ i head c, Opens head c → Explains i (head ++ bytes) (decodeFrom i (some c) bytes) := by
  induction bytes with
  | nil =>
    refine ⟨fun i => .text rfl, fun i head c h => ?_⟩
    rw [List.append_nil]
    exact .incomplete (s := []) rfl h
  | cons b rest ih =>
    obtain ⟨hbetween, hwithin⟩ := ih
    refine ⟨fun i => ?_, fun i head c h => ?_⟩
    · rcases Nat.lt_or_ge b.toNat 0x80 with hb | hb
      · have hvalid : b.toNat.isValidChar := .inl (by omega)
        have hchar : String.utf8EncodeChar (Char.ofNat b.toNat) = [b] := by
          simp only [String.utf8EncodeChar, toNat_ofNat hvalid]
          rw [if_pos (by omega), UInt8.ofNat_toNat]
        have hcons := Explains.cons (i := i) (c := Char.ofNat b.toNat) (hbetween _)
        rw [hchar] at hcons
        rwa [decodeFrom_ascii _ _ hb]
      · cases hbegin : begin? b.toNat with
        | none =>
          simp only [decodeFrom, if_neg (Nat.not_lt_of_ge hb), hbegin]
          exact .invalid (s := []) rfl
        | some c =>
          rw [decodeFrom_begin _ _ hbegin]
          exact hwithin i [b] c (opens_of_begin? hbegin)
    · by_cases hrange : c.low ≤ b.toNat ∧ b.toNat ≤ c.high
      · obtain ⟨low, high⟩ := hrange
        rcases Nat.lt_or_ge 1 c.needs with hneeds | hneeds
        · have hmore := hwithin i _ _ (h.add low high hneeds)
          rwa [List.append_assoc, List.singleton_append, ← decodeFrom_add _ _ low high hneeds]
            at hmore
        · have hchar := h.ends low high hneeds
          have hcons := Explains.cons (i := i)
            (c := Char.ofNat (c.bits * 64 + (b.toNat - 0x80))) (hbetween _)
          rw [hchar, List.length_append, List.length_singleton, h.length, List.append_assoc,
            List.singleton_append, ← Nat.add_assoc] at hcons
          rwa [decodeFrom_end _ _ low high hneeds]
      · have hfault : decodeFrom i (some c) (b :: rest) = .error (.invalid c.length i) := by
          simp only [decodeFrom]
          exact if_neg (by simpa using hrange)
        rw [hfault]
        exact .invalid (s := []) rfl

/-- More bytes can end every character that was begun. -/
theorem Opens.exists_end {head : List UInt8} {c : Begun} (h : Opens head c) :
    ∃ more ch, head ++ more = String.utf8EncodeChar ch := by
  induction hn : c.needs using Nat.strongRecOn generalizing head c with
  | _ n ih =>
    have hrange : c.low < 256 ∧ c.low ≤ c.high := by
      cases h <;> dsimp only <;> (try split_ifs) <;> omega
    have hbyte : (UInt8.ofNat c.low).toNat = c.low := by
      rw [UInt8.toNat_ofNat', Nat.mod_eq_of_lt hrange.1]
    have low : c.low ≤ (UInt8.ofNat c.low).toNat := hbyte.symm.le
    have high : (UInt8.ofNat c.low).toNat ≤ c.high := hbyte.symm ▸ hrange.2
    rcases Nat.lt_or_ge 1 c.needs with hneeds | hneeds
    · have hfewer : (c.add (.ofNat c.low)).needs < n := by
        rw [Begun.add, ← hn]
        exact Nat.sub_lt (by omega) Nat.one_pos
      obtain ⟨more, ch, hmore⟩ := ih _ hfewer (h.add low high hneeds) rfl
      refine ⟨.ofNat c.low :: more, ch, ?_⟩
      rw [← hmore, List.append_assoc, List.singleton_append]
    · exact ⟨[.ofNat c.low], _, (h.ends low high hneeds).symm⟩

/-- A byte that no character can have there is wrong whatever follows. -/
theorem decodeFrom_append_of_invalid {bytes : List UInt8} {i n k : Nat} {st : Option Begun}
    (h : decodeFrom i st bytes = .error (.invalid n k)) (more : List UInt8) :
    decodeFrom i st (bytes ++ more) = .error (.invalid n k) := by
  fun_induction decodeFrom i st bytes with
  | case1 | case2 => cases h
  | case3 i b rest _ hb ih =>
    rw [List.cons_append, decodeFrom_ascii _ _ hb]
    exact Parse.map_eq_error.2 (ih (Parse.map_eq_error.1 h))
  | case4 i b rest code hb hbegin =>
    simp only [List.cons_append, decodeFrom]
    rw [if_neg hb, hbegin]
    exact h
  | case5 i b rest _ hb c hbegin ih =>
    rw [List.cons_append, decodeFrom_begin _ _ hbegin]
    exact ih h
  | case6 i c b rest _ hrange _ hneeds ih =>
    rw [Bool.and_eq_true, decide_eq_true_eq, decide_eq_true_eq] at hrange
    rw [List.cons_append, decodeFrom_end _ _ hrange.1 hrange.2 hneeds]
    exact Parse.map_eq_error.2 (ih (Parse.map_eq_error.1 h))
  | case7 i c b rest _ hrange _ hneeds ih =>
    rw [Bool.and_eq_true, decide_eq_true_eq, decide_eq_true_eq] at hrange
    rw [List.cons_append, decodeFrom_add _ _ hrange.1 hrange.2 (Nat.lt_of_not_le hneeds)]
    exact ih h
  | case8 i c b rest _ hrange =>
    simp only [List.cons_append, decodeFrom]
    rw [if_neg hrange]
    exact h

/-! ## Faults -/

/-- The place of a fault. -/
def Fault.index : Fault → Nat
  | .invalid _ index => index
  | .incomplete index => index

theorem decode_eq_ok_iff {bytes : List UInt8} {s : List Char} :
    decode bytes = .ok s ↔ bytes = encoded s := by
  constructor
  · intro h
    have hexplains := (explains_decodeFrom bytes).1 0
    rw [show decodeFrom 0 none bytes = .ok s from h] at hexplains
    cases hexplains with
    | text all => exact all
  · rintro rfl
    exact decode_encoded s

theorem not_valid_of_error {bytes : List UInt8} {f : Fault} (h : decode bytes = .error f) :
    ¬Valid bytes := by
  intro hvalid
  obtain ⟨s, rfl⟩ := hvalid.exists_encoded
  rw [decode_encoded] at h
  cases h

theorem index_le_of_error {bytes : List UInt8} {i : Nat} {f : Fault}
    (h : decodeFrom i none bytes = .error f) : i ≤ f.index := by
  have hexplains := (explains_decodeFrom bytes).1 i
  rw [h] at hexplains
  cases hexplains <;> exact Nat.le_add_right _ _

/-- A fault stands behind the longest beginning that is a text. -/
theorem isGreatest_index {bytes : List UInt8} {f : Fault} (h : decode bytes = .error f) :
    IsGreatest {n | n ≤ bytes.length ∧ Valid (bytes.take n)} f.index := by
  constructor
  · have hexplains := (explains_decodeFrom bytes).1 0
    rw [show decodeFrom 0 none bytes = .error f from h] at hexplains
    obtain ⟨s, rest, hbytes, hindex⟩ :
        ∃ s rest, bytes = encoded s ++ rest ∧ f.index = (encoded s).length := by
      cases hexplains with
      | invalid before => exact ⟨_, _, before, Nat.zero_add _⟩
      | incomplete before _ => exact ⟨_, _, before, Nat.zero_add _⟩
    rw [hbytes, hindex]
    refine ⟨by rw [List.length_append]; exact Nat.le_add_right _ _, ?_⟩
    rw [List.take_left]
    exact valid_encoded s
  · rintro n ⟨hn, hvalid⟩
    obtain ⟨s, hs⟩ := hvalid.exists_encoded
    have hread := decodeFrom_encoded s 0 (bytes.drop n)
    rw [← hs, List.take_append_drop, List.length_take_of_le hn, Nat.zero_add,
      show decodeFrom 0 none bytes = .error f from h] at hread
    exact index_le_of_error (Parse.map_eq_error.1 hread.symm)

/-- A fault is an incomplete character exactly if the bytes can be continued to a text. -/
theorem incomplete_iff {bytes : List UInt8} {f : Fault} (h : decode bytes = .error f) :
    f = .incomplete f.index ↔ ∃ more, Valid (bytes ++ more) := by
  cases f with
  | invalid n k =>
    refine ⟨nofun, ?_⟩
    rintro ⟨more, hvalid⟩
    obtain ⟨s, hs⟩ := hvalid.exists_encoded
    have hwrong : decode (bytes ++ more) = .error (.invalid n k) :=
      decodeFrom_append_of_invalid h more
    rw [hs, decode_encoded] at hwrong
    cases hwrong
  | incomplete k =>
    refine ⟨fun _ => ?_, fun _ => rfl⟩
    have hexplains := (explains_decodeFrom bytes).1 0
    rw [show decodeFrom 0 none bytes = .error (.incomplete k) from h] at hexplains
    cases hexplains with
    | @incomplete s head c before opens =>
      obtain ⟨more, ch, hch⟩ := opens.exists_end
      refine ⟨more, ?_⟩
      rw [before, List.append_assoc, hch, ← List.append_nil (String.utf8EncodeChar ch)]
      exact (encoded_append s [ch]) ▸ valid_encoded (s ++ [ch])

end Text.Utf8

open Text.Utf8

/-! ## Features from bytes -/

theorem Feature.ofBytes_encode (t : String) : Feature.ofBytes (encode t) =
    (Feature.ofText (String.ofList (dropMark t.toList))).mapError .unparsable := by
  rw [ofBytes, encode_eq, result_readBytes (decode_encoded t.toList)]

/-- Bytes that are a text give what that text gives without one byte order mark before it, be it a
feature or a fault of the text. Any other bytes give a fault of the bytes: it stands behind the
longest beginning of them that is a text, and it is an incomplete character exactly if more bytes
can make them a text. -/
theorem encoding_before_grammar :
    (∀ t : String, Feature.ofBytes (encode ("\ufeff" ++ t)) =
      (Feature.ofText t).mapError .unparsable) ∧
    (∀ t : String, t.toList.head? ≠ some '\ufeff' →
      Feature.ofBytes (encode t) = (Feature.ofText t).mapError .unparsable) ∧
    ∀ bytes : List UInt8, ¬Valid bytes → ∃ fault : Text.Utf8.Fault,
      Feature.ofBytes bytes = .error (.undecodable fault) ∧
        IsGreatest {n | n ≤ bytes.length ∧ Valid (bytes.take n)} fault.index ∧
        (fault = .incomplete fault.index ↔ ∃ more, Valid (bytes ++ more)) := by
  refine ⟨fun t => ?_, fun t ht => ?_, fun bytes hbytes => ?_⟩
  · have hmark : ("\ufeff" ++ t).toList = '\ufeff' :: t.toList := by
      rw [String.toList_append]
      rfl
    rw [Feature.ofBytes_encode, hmark, dropMark, String.ofList_toList]
  · have hdrop : dropMark t.toList = t.toList := by
      unfold dropMark
      split
      · rename_i hmark
        rw [hmark] at ht
        exact absurd rfl ht
      · rfl
    rw [Feature.ofBytes_encode, hdrop, String.ofList_toList]
  · cases hdecode : decode bytes with
    | ok s =>
      have hall := decode_eq_ok_iff.1 hdecode
      exact absurd (hall ▸ valid_encoded s) hbytes
    | error fault =>
      refine ⟨fault, ?_, isGreatest_index hdecode, incomplete_iff hdecode⟩
      rw [Feature.ofBytes, Feature.readBytes, hdecode]
      rfl

/-- A text without a mark, a text that ends within a character behind a mark, and a surrogate. -/
theorem encoding_before_grammar_mark :
    "Feature: F".toList.head? ≠ some '\ufeff' ∧
      Feature.ofBytes (encode "Feature: F") = (Feature.ofText "Feature: F").mapError .unparsable ∧
      ¬Valid [0xef, 0xbb, 0xbf, 0x46, 0xe2, 0x82] ∧
      Feature.ofBytes [0xef, 0xbb, 0xbf, 0x46, 0xe2, 0x82] =
        .error (.undecodable (.incomplete 4)) ∧
      (∃ more, Valid ([0xef, 0xbb, 0xbf, 0x46, 0xe2, 0x82] ++ more)) ∧
      ¬Valid [0x46, 0xed, 0xa0] ∧
      Feature.ofBytes [0x46, 0xed, 0xa0] = .error (.undecodable (.invalid 1 1)) ∧
      ¬∃ more, Valid ([0x46, 0xed, 0xa0] ++ more) := by
  have hundecodable {bytes : List UInt8} {fault : Text.Utf8.Fault}
      (h : decode bytes = .error fault) : Feature.ofBytes bytes = .error (.undecodable fault) := by
    rw [Feature.ofBytes, Feature.readBytes, h]
    rfl
  have hunmarked : "Feature: F".toList.head? ≠ some '\ufeff' := by decide +kernel
  have hshort : decode [0xef, 0xbb, 0xbf, 0x46, 0xe2, 0x82] = .error (.incomplete 4) := by
    decide +kernel
  have hwrong : decode [0x46, 0xed, 0xa0] = .error (.invalid 1 1) := by decide +kernel
  obtain ⟨-, htext, hbytes⟩ := encoding_before_grammar
  obtain ⟨f, hf, -, hmore⟩ := hbytes _ (not_valid_of_error hshort)
  obtain ⟨g, hg, -, hnone⟩ := hbytes _ (not_valid_of_error hwrong)
  rw [hundecodable hshort] at hf
  rw [hundecodable hwrong] at hg
  cases hf
  cases hg
  exact ⟨hunmarked, htext _ hunmarked, not_valid_of_error hshort, hundecodable hshort,
    hmore.1 rfl, not_valid_of_error hwrong, hundecodable hwrong, hnone.not.1 (by decide)⟩

end Gherkin
