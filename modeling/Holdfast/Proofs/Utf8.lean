import Holdfast.Utf8

/-!
# Decoding undoes encoding, encoding undoes decoding and keeps the order

A character is written as one to four octets. Reading starts from the first octet, whose
range says how many follow, so the proof goes through the four lengths one by one
(`decodeOnto_one` to `decodeOnto_four`), then through the characters of a text.

- `Utf8.decodeOnto_encodeChar`: the octets of a character, whatever follows them, are read
  as that character;
- `Utf8.decode_encode`: **the octets of a text are read as that text**;
- `Utf8.encode_of_decode`: **octets that are read as a text are those of the text**;
- `Utf8.encode_lt`: **texts are ordered as their octets are**.
-/

namespace Holdfast.Utf8

/-! ## Octets and character numbers -/

theorem toNat_ofNat_of_lt {n : Nat} (h : n < 256) : (UInt8.ofNat n).toNat = n := by
  simp only [UInt8.toNat_ofNat']
  omega

/-- The range of a character's number leaves out the surrogates. -/
theorem toNat_range (c : Char) :
    c.toNat < 0xD800 ∨ (0xDFFF < c.toNat ∧ c.toNat < 0x110000) := c.valid

theorem isTail_ofNat {n : Nat} (h : n < 64) : isTail (UInt8.ofNat (0x80 + n)) = true := by
  rw [isTail, toNat_ofNat_of_lt (by omega)]
  simp only [Bool.and_eq_true, decide_eq_true_eq]
  omega

theorem tailBits_ofNat {n : Nat} (h : n < 64) : tailBits (UInt8.ofNat (0x80 + n)) = n := by
  have hn : (UInt8.ofNat (0x80 + n)).toNat = 0x80 + n := toNat_ofNat_of_lt (by omega)
  unfold tailBits
  omega

/-! ## One character -/

theorem decodeOnto_one (done : List Char) (index : Nat) {a : UInt8} (rest : Bytes)
    (ha : a.toNat < 0x80) :
    decodeOnto done index (a :: rest) =
      decodeOnto (Char.ofNat a.toNat :: done) (index + 1) rest := by
  conv => lhs; unfold decodeOnto
  simp [ha]

theorem decodeOnto_two (done : List Char) (index : Nat) {a b : UInt8} (rest : Bytes)
    (ha : 0xC2 ≤ a.toNat) (ha' : a.toNat < 0xE0) (hb : isTail b = true) :
    decodeOnto done index (a :: b :: rest) =
      decodeOnto (Char.ofNat ((a.toNat - 0xC0) * 64 + tailBits b) :: done) (index + 2) rest := by
  conv => lhs; unfold decodeOnto
  simp [hb, ha', show ¬ a.toNat < 0x80 by omega, show ¬ a.toNat < 0xC2 by omega]

theorem decodeOnto_three (done : List Char) (index : Nat) {a b c : UInt8} (rest : Bytes)
    (ha : 0xE0 ≤ a.toNat) (ha' : a.toNat < 0xF0) (hb : secondOfThree a b = true)
    (hc : isTail c = true) :
    decodeOnto done index (a :: b :: c :: rest) =
      decodeOnto
        (Char.ofNat (((a.toNat - 0xE0) * 64 + tailBits b) * 64 + tailBits c) :: done)
        (index + 3) rest := by
  conv => lhs; unfold decodeOnto
  simp [hb, hc, ha', show ¬ a.toNat < 0x80 by omega, show ¬ a.toNat < 0xC2 by omega,
    show ¬ a.toNat < 0xE0 by omega]

theorem decodeOnto_four (done : List Char) (index : Nat) {a b c d : UInt8} (rest : Bytes)
    (ha : 0xF0 ≤ a.toNat) (ha' : a.toNat < 0xF5) (hb : secondOfFour a b = true)
    (hc : isTail c = true) (hd : isTail d = true) :
    decodeOnto done index (a :: b :: c :: d :: rest) =
      decodeOnto
        (Char.ofNat ((((a.toNat - 0xF0) * 64 + tailBits b) * 64 + tailBits c) * 64
          + tailBits d) :: done)
        (index + 4) rest := by
  conv => lhs; unfold decodeOnto
  simp [hb, hc, hd, ha', show ¬ a.toNat < 0x80 by omega, show ¬ a.toNat < 0xC2 by omega,
    show ¬ a.toNat < 0xE0 by omega, show ¬ a.toNat < 0xF0 by omega]

/-- The octets of a character are read as that character. -/
theorem decodeOnto_encodeChar (c : Char) (done : List Char) (index : Nat) (rest : Bytes) :
    ∃ after, decodeOnto done index (encodeChar c ++ rest) =
      decodeOnto (c :: done) after rest := by
  have hrange := toNat_range c
  have hback : Char.ofNat c.toNat = c := Char.ofNat_toNat c
  rw [encodeChar]
  generalize c.toNat = n at hrange hback
  subst hback
  by_cases h1 : n < 0x80
  · have hn : (UInt8.ofNat n).toNat = n := toNat_ofNat_of_lt (by omega)
    refine ⟨index + 1, ?_⟩
    simp only [h1, ↓reduceIte, List.cons_append, List.nil_append]
    rw [decodeOnto_one _ _ _ (by omega), hn]
  by_cases h2 : n < 0x800
  · have hn : (UInt8.ofNat (0xC0 + n / 64)).toNat = 0xC0 + n / 64 :=
      toNat_ofNat_of_lt (by omega)
    refine ⟨index + 2, ?_⟩
    simp only [h1, h2, ↓reduceIte, List.cons_append, List.nil_append]
    rw [decodeOnto_two _ _ _ (by omega) (by omega) (isTail_ofNat (by omega)), hn,
      tailBits_ofNat (by omega)]
    congr 3
    omega
  by_cases h3 : n < 0x10000
  · have hn : (UInt8.ofNat (0xE0 + n / 4096)).toNat = 0xE0 + n / 4096 :=
      toNat_ofNat_of_lt (by omega)
    have hm : (UInt8.ofNat (0x80 + n / 64 % 64)).toNat = 0x80 + n / 64 % 64 :=
      toNat_ofNat_of_lt (by omega)
    have hsecond : secondOfThree (UInt8.ofNat (0xE0 + n / 4096))
        (UInt8.ofNat (0x80 + n / 64 % 64)) = true := by
      simp only [secondOfThree, isTail, hn, hm]
      split
      · simp; omega
      · split
        · simp; omega
        · simp; omega
    refine ⟨index + 3, ?_⟩
    simp only [h1, h2, h3, ↓reduceIte, List.cons_append, List.nil_append]
    rw [decodeOnto_three _ _ _ (by omega) (by omega) hsecond (isTail_ofNat (by omega)), hn,
      tailBits_ofNat (by omega), tailBits_ofNat (by omega)]
    congr 3
    omega
  · have hn : (UInt8.ofNat (0xF0 + n / 262144)).toNat = 0xF0 + n / 262144 :=
      toNat_ofNat_of_lt (by omega)
    have hm : (UInt8.ofNat (0x80 + n / 4096 % 64)).toNat = 0x80 + n / 4096 % 64 :=
      toNat_ofNat_of_lt (by omega)
    have hsecond : secondOfFour (UInt8.ofNat (0xF0 + n / 262144))
        (UInt8.ofNat (0x80 + n / 4096 % 64)) = true := by
      simp only [secondOfFour, isTail, hn, hm]
      split
      · simp; omega
      · split
        · simp; omega
        · simp; omega
    refine ⟨index + 4, ?_⟩
    simp only [h1, h2, h3, ↓reduceIte, List.cons_append, List.nil_append]
    rw [decodeOnto_four _ _ _ (by omega) (by omega) hsecond (isTail_ofNat (by omega))
      (isTail_ofNat (by omega)), hn, tailBits_ofNat (by omega), tailBits_ofNat (by omega),
      tailBits_ofNat (by omega)]
    congr 3
    omega

/-! ## Whole texts -/

theorem decodeOnto_encode (cs : List Char) (done : List Char) (index : Nat) :
    decodeOnto done index (cs.flatMap encodeChar) = .ok (done.reverse ++ cs) := by
  induction cs generalizing done index with
  | nil => simp [decodeOnto]
  | cons c cs ih =>
    obtain ⟨after, h⟩ := decodeOnto_encodeChar c done index (cs.flatMap encodeChar)
    rw [List.flatMap_cons, h, ih]
    simp

/-- Decoding undoes encoding. -/
theorem decode_encode (s : String) : decode (encode s) = .ok s := by
  rw [decode, encode, decodeOnto_encode]
  simp [Except.map]

/-! ## Encoding undoes decoding -/

/-- A number outside the surrogates is that of its character. -/
theorem toNat_charOfNat {n : Nat} (h : n < 0xD800 ∨ (0xDFFF < n ∧ n < 0x110000)) :
    (Char.ofNat n).toNat = n := by
  have hvalid : n.isValidChar := h
  rw [Char.ofNat, dif_pos hvalid]
  rfl

theorem isTail_iff {b : UInt8} : isTail b = true ↔ 0x80 ≤ b.toNat ∧ b.toNat < 0xC0 := by
  simp [isTail]

theorem eq_ofNat {b : UInt8} {n : Nat} (h : n = b.toNat) : UInt8.ofNat n = b := by
  subst h
  exact UInt8.ofNat_toNat

theorem encodeChar_one {a : UInt8} (ha : a.toNat < 0x80) :
    encodeChar (Char.ofNat a.toNat) = [a] := by
  have hn := toNat_charOfNat (n := a.toNat) (.inl (by omega))
  simp only [encodeChar, hn, ha, ↓reduceIte]
  rw [eq_ofNat rfl]

theorem encodeChar_two {a b : UInt8} (ha : 0xC2 ≤ a.toNat) (ha' : a.toNat < 0xE0)
    (hb : isTail b = true) :
    encodeChar (Char.ofNat ((a.toNat - 0xC0) * 64 + tailBits b)) = [a, b] := by
  obtain ⟨hb₁, hb₂⟩ := isTail_iff.1 hb
  unfold tailBits
  generalize hn : (a.toNat - 0xC0) * 64 + (b.toNat - 0x80) = n
  have hback := toNat_charOfNat (n := n) (.inl (by omega))
  simp only [encodeChar, hback, show ¬ n < 0x80 by omega, show n < 0x800 by omega, ↓reduceIte]
  rw [eq_ofNat (show 0xC0 + n / 64 = a.toNat by omega),
    eq_ofNat (show 0x80 + n % 64 = b.toNat by omega)]

theorem secondOfThree_iff {a b : UInt8} : secondOfThree a b = true ↔
    0x80 ≤ b.toNat ∧ b.toNat < 0xC0 ∧ (a.toNat = 0xE0 → 0xA0 ≤ b.toNat) ∧
      (a.toNat = 0xED → b.toNat < 0xA0) := by
  unfold secondOfThree isTail
  split
  · simp; omega
  · split
    · simp; omega
    · simp; omega

theorem secondOfFour_iff {a b : UInt8} : secondOfFour a b = true ↔
    0x80 ≤ b.toNat ∧ b.toNat < 0xC0 ∧ (a.toNat = 0xF0 → 0x90 ≤ b.toNat) ∧
      (a.toNat = 0xF4 → b.toNat < 0x90) := by
  unfold secondOfFour isTail
  split
  · simp; omega
  · split
    · simp; omega
    · simp; omega

theorem encodeChar_three {a b c : UInt8} (ha : 0xE0 ≤ a.toNat) (ha' : a.toNat < 0xF0)
    (hb : secondOfThree a b = true) (hc : isTail c = true) :
    encodeChar (Char.ofNat (((a.toNat - 0xE0) * 64 + tailBits b) * 64 + tailBits c)) =
      [a, b, c] := by
  obtain ⟨hb₁, hb₂, hlow, hhigh⟩ := secondOfThree_iff.1 hb
  obtain ⟨hc₁, hc₂⟩ := isTail_iff.1 hc
  unfold tailBits
  generalize hn : ((a.toNat - 0xE0) * 64 + (b.toNat - 0x80)) * 64 + (c.toNat - 0x80) = n
  have hback := toNat_charOfNat (n := n) (by omega)
  simp only [encodeChar, hback, show ¬ n < 0x80 by omega, show ¬ n < 0x800 by omega,
    show n < 0x10000 by omega, ↓reduceIte]
  rw [eq_ofNat (show 0xE0 + n / 4096 = a.toNat by omega),
    eq_ofNat (show 0x80 + n / 64 % 64 = b.toNat by omega),
    eq_ofNat (show 0x80 + n % 64 = c.toNat by omega)]

theorem encodeChar_four {a b c d : UInt8} (ha : 0xF0 ≤ a.toNat) (ha' : a.toNat < 0xF5)
    (hb : secondOfFour a b = true) (hc : isTail c = true) (hd : isTail d = true) :
    encodeChar (Char.ofNat ((((a.toNat - 0xF0) * 64 + tailBits b) * 64 + tailBits c) * 64
      + tailBits d)) = [a, b, c, d] := by
  obtain ⟨hb₁, hb₂, hlow, hhigh⟩ := secondOfFour_iff.1 hb
  obtain ⟨hc₁, hc₂⟩ := isTail_iff.1 hc
  obtain ⟨hd₁, hd₂⟩ := isTail_iff.1 hd
  unfold tailBits
  generalize hn : (((a.toNat - 0xF0) * 64 + (b.toNat - 0x80)) * 64 + (c.toNat - 0x80)) * 64
    + (d.toNat - 0x80) = n
  have hback := toNat_charOfNat (n := n) (by omega)
  simp only [encodeChar, hback, show ¬ n < 0x80 by omega, show ¬ n < 0x800 by omega,
    show ¬ n < 0x10000 by omega, ↓reduceIte]
  rw [eq_ofNat (show 0xF0 + n / 262144 = a.toNat by omega),
    eq_ofNat (show 0x80 + n / 4096 % 64 = b.toNat by omega),
    eq_ofNat (show 0x80 + n / 64 % 64 = c.toNat by omega),
    eq_ofNat (show 0x80 + n % 64 = d.toNat by omega)]

/-- Octets that are read are those of the characters read. -/
theorem flatMap_of_decodeOnto {done : List Char} {index : Nat} {bytes : Bytes} {cs : List Char}
    (h : decodeOnto done index bytes = .ok cs) :
    ∃ more, cs = done.reverse ++ more ∧ bytes = more.flatMap encodeChar := by
  -- one step reads one character: the rest is read on top of it
  have hstep : ∀ {done : List Char} {c : Char} {rest first : Bytes}, encodeChar c = first →
      (∃ more, cs = (c :: done).reverse ++ more ∧ rest = more.flatMap encodeChar) →
      ∃ more, cs = done.reverse ++ more ∧ first ++ rest = more.flatMap encodeChar := by
    rintro done c rest first rfl ⟨more, rfl, rfl⟩
    exact ⟨c :: more, by simp, by simp⟩
  fun_induction decodeOnto done index bytes with
  | case1 done index =>
    cases h
    exact ⟨[], by simp, rfl⟩
  | case2 done index a rest ha ih => exact hstep (encodeChar_one ha) (ih h)
  | case5 done index a ha₀ ha ha' b rest hb ih =>
    exact hstep (encodeChar_two (by omega) ha' hb) (ih h)
  | case9 done index a ha₀ ha₁ ha ha' b hb c rest hc ih =>
    exact hstep (encodeChar_three (by omega) ha' hb hc) (ih h)
  | case15 done index a ha₀ ha₁ ha₂ ha ha' b hb c hc d rest hd ih =>
    exact hstep (encodeChar_four (by omega) ha' hb hc hd) (ih h)
  | _ => cases h

/-- **Octets that are read as a text are those of the text**, so no text has two encodings. -/
theorem encode_of_decode {bytes : Bytes} {s : String} (h : decode bytes = .ok s) :
    encode s = bytes := by
  unfold decode at h
  cases honto : decodeOnto [] 0 bytes with
  | error defect =>
    rw [honto] at h
    cases h
  | ok cs =>
    rw [honto] at h
    cases h
    obtain ⟨more, hmore, rfl⟩ := flatMap_of_decodeOnto honto
    rw [encode, String.toList_ofList, hmore]
    rfl

/-! ## Order -/

theorem octet_lt {a b : Nat} (ha : a < 256) (hb : b < 256) {s t : Bytes}
    (h : a < b ∨ (a = b ∧ s < t)) : UInt8.ofNat a :: s < UInt8.ofNat b :: t := by
  rw [List.cons_lt_cons_iff, UInt8.lt_iff_toNat_lt, toNat_ofNat_of_lt ha, toNat_ofNat_of_lt hb]
  exact h.imp_right fun ⟨heq, hst⟩ => ⟨congrArg _ heq, hst⟩

section Tails

variable {m n : Nat} {s t : Bytes}

theorem lastOctet_lt (h : m % 64 < n % 64) :
    UInt8.ofNat (0x80 + m % 64) :: s < UInt8.ofNat (0x80 + n % 64) :: t :=
  octet_lt (by omega) (by omega) (.inl (by omega))

theorem lastTwo_lt (h : m % 4096 < n % 4096) :
    UInt8.ofNat (0x80 + m / 64 % 64) :: UInt8.ofNat (0x80 + m % 64) :: s <
      UInt8.ofNat (0x80 + n / 64 % 64) :: UInt8.ofNat (0x80 + n % 64) :: t := by
  refine octet_lt (by omega) (by omega) ?_
  by_cases hfirst : m / 64 % 64 = n / 64 % 64
  · exact .inr ⟨by rw [hfirst], lastOctet_lt (by omega)⟩
  · exact .inl (by omega)

theorem lastThree_lt (h : m % 262144 < n % 262144) :
    UInt8.ofNat (0x80 + m / 4096 % 64) :: UInt8.ofNat (0x80 + m / 64 % 64) ::
        UInt8.ofNat (0x80 + m % 64) :: s <
      UInt8.ofNat (0x80 + n / 4096 % 64) :: UInt8.ofNat (0x80 + n / 64 % 64) ::
        UInt8.ofNat (0x80 + n % 64) :: t := by
  refine octet_lt (by omega) (by omega) ?_
  by_cases hfirst : m / 4096 % 64 = n / 4096 % 64
  · exact .inr ⟨by rw [hfirst], lastTwo_lt (by omega)⟩
  · exact .inl (by omega)

end Tails

/-- The octets of characters are ordered as the characters are, whatever follows them: a longer
sequence begins with a higher octet, and sequences of one length differ where the numbers do. -/
theorem encodeChar_lt {c d : Char} (h : c < d) (s t : Bytes) :
    encodeChar c ++ s < encodeChar d ++ t := by
  have hlt : c.toNat < d.toNat := h
  have hrange := toNat_range d
  unfold encodeChar
  generalize c.toNat = m at hlt
  generalize d.toNat = n at hlt hrange
  simp only
  by_cases hn₁ : n < 0x80
  · rw [if_pos hn₁, if_pos (show m < 0x80 by omega)]
    exact octet_lt (by omega) (by omega) (.inl hlt)
  rw [if_neg hn₁]
  by_cases hm₁ : m < 0x80
  · rw [if_pos hm₁]
    split
    · exact octet_lt (by omega) (by omega) (.inl (by omega))
    · split <;> exact octet_lt (by omega) (by omega) (.inl (by omega))
  rw [if_neg hm₁]
  by_cases hn₂ : n < 0x800
  · rw [if_pos hn₂, if_pos (show m < 0x800 by omega)]
    refine octet_lt (by omega) (by omega) ?_
    by_cases hfirst : m / 64 = n / 64
    · exact .inr ⟨by rw [hfirst], lastOctet_lt (by omega)⟩
    · exact .inl (by omega)
  rw [if_neg hn₂]
  by_cases hm₂ : m < 0x800
  · rw [if_pos hm₂]
    split <;> exact octet_lt (by omega) (by omega) (.inl (by omega))
  rw [if_neg hm₂]
  by_cases hn₃ : n < 0x10000
  · rw [if_pos hn₃, if_pos (show m < 0x10000 by omega)]
    refine octet_lt (by omega) (by omega) ?_
    by_cases hfirst : m / 4096 = n / 4096
    · exact .inr ⟨by rw [hfirst], lastTwo_lt (by omega)⟩
    · exact .inl (by omega)
  rw [if_neg hn₃]
  by_cases hm₃ : m < 0x10000
  · rw [if_pos hm₃]
    exact octet_lt (by omega) (by omega) (.inl (by omega))
  rw [if_neg hm₃]
  refine octet_lt (by omega) (by omega) ?_
  by_cases hfirst : m / 262144 = n / 262144
  · exact .inr ⟨by rw [hfirst], lastThree_lt (by omega)⟩
  · exact .inl (by omega)

theorem encodeChar_ne_nil (c : Char) : encodeChar c ≠ [] := by
  unfold encodeChar
  simp only
  split
  · simp
  · split
    · simp
    · split <;> simp

/-- **Texts are ordered as their octets are.** -/
theorem encode_lt {a b : String} (h : a < b) : encode a < encode b := by
  have hlist : a.toList < b.toList := h
  unfold encode
  generalize a.toList = cs at hlist
  generalize b.toList = ds at hlist
  induction cs generalizing ds with
  | nil =>
    cases ds with
    | nil => exact absurd hlist (List.lt_irrefl _)
    | cons d ds =>
      rw [List.flatMap_cons]
      obtain ⟨x, xs, hx⟩ := List.exists_cons_of_ne_nil (encodeChar_ne_nil d)
      rw [hx]
      exact List.nil_lt_cons _ _
  | cons c cs ih =>
    cases ds with
    | nil => exact absurd hlist (List.not_lt_nil _)
    | cons d ds =>
      rw [List.flatMap_cons, List.flatMap_cons]
      rcases List.cons_lt_cons_iff.1 hlist with hcd | ⟨rfl, hrest⟩
      · exact encodeChar_lt hcd _ _
      · exact List.append_left_lt (ih ds hrest)

end Holdfast.Utf8
