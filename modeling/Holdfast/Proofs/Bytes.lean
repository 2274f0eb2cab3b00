import Holdfast.Bytes

/-!
# Words read back

A word is written as a fixed number of octets, most significant first, and a signed value as the
word congruent to it.

- `beNat_beBytes`: a word is read as the number it was written for, modulo its width;
- `beBytes_beNat`: octets are those of the number they write;
- `Fits`: the signed values that have a word of their own;
- `intOfWord_eq_iff`: **the octets of a signed value are the only ones that write it**.
-/

namespace Holdfast

/-! ## Octets -/

/-- Reading the octets of `n` on top of `acc` shifts `acc` by their number. -/
theorem foldl_beBytes (width n acc : Nat) :
    (beBytes width n).foldl (fun acc b => acc * 256 + b.toNat) acc =
      acc * Nat.pow 256 width + n % Nat.pow 256 width := by
  induction width generalizing acc with
  | zero =>
    show acc = acc * 1 + n % 1
    omega
  | succ width ih =>
    have hnext : Nat.pow 256 (width + 1) = Nat.pow 256 width * 256 := rfl
    have hsplit : n % Nat.pow 256 (width + 1) =
        n / Nat.pow 256 width % 256 * Nat.pow 256 width + n % Nat.pow 256 width := by
      rw [hnext, Nat.mod_mul, Nat.mul_comm (Nat.pow 256 width)]
      omega
    have hshift : acc * Nat.pow 256 (width + 1) = acc * 256 * Nat.pow 256 width := by
      rw [hnext, Nat.mul_comm (Nat.pow 256 width), Nat.mul_assoc]
    have hoctet : (UInt8.ofNat (n / Nat.pow 256 width)).toNat = n / Nat.pow 256 width % 256 :=
      UInt8.toNat_ofNat'
    rw [beBytes, List.foldl_cons, ih, hoctet, hsplit, hshift, Nat.add_mul]
    omega

theorem beNat_beBytes (width n : Nat) : beNat (beBytes width n) = n % Nat.pow 256 width := by
  rw [beNat, foldl_beBytes]
  simp

theorem foldl_octets (bytes : Bytes) (acc : Nat) :
    bytes.foldl (fun acc b => acc * 256 + b.toNat) acc =
      acc * Nat.pow 256 bytes.length + beNat bytes := by
  induction bytes generalizing acc with
  | nil =>
    show acc = acc * 1 + 0
    omega
  | cons b bytes ih =>
    have hnext : Nat.pow 256 (bytes.length + 1) = Nat.pow 256 bytes.length * 256 := rfl
    have hshift : acc * Nat.pow 256 (bytes.length + 1) =
        acc * 256 * Nat.pow 256 bytes.length := by
      rw [hnext, Nat.mul_comm (Nat.pow 256 bytes.length), Nat.mul_assoc]
    rw [beNat, List.foldl_cons, List.foldl_cons, ih, ih, List.length_cons, hshift, Nat.add_mul,
      Nat.zero_mul, Nat.zero_add]
    omega

theorem beNat_cons (b : UInt8) (bytes : Bytes) :
    beNat (b :: bytes) = b.toNat * Nat.pow 256 bytes.length + beNat bytes := by
  rw [beNat, List.foldl_cons, foldl_octets]
  simp

theorem beNat_lt (bytes : Bytes) : beNat bytes < Nat.pow 256 bytes.length := by
  induction bytes with
  | nil => exact Nat.one_pos
  | cons b bytes ih =>
    have hoctet : b.toNat + 1 ≤ 256 := b.toNat_lt
    have hnext : Nat.pow 256 (bytes.length + 1) = 256 * Nat.pow 256 bytes.length :=
      Nat.mul_comm _ _
    have hle := Nat.mul_le_mul_right (Nat.pow 256 bytes.length) hoctet
    rw [beNat_cons, List.length_cons, hnext]
    rw [Nat.add_mul] at hle
    omega

/-- The octets of a word do not see what is above them. -/
theorem beBytes_add_mul (width k n : Nat) :
    beBytes width (k * Nat.pow 256 width + n) = beBytes width n := by
  induction width generalizing k with
  | zero => rfl
  | succ width ih =>
    have hpos : 0 < Nat.pow 256 width := Nat.pow_pos (by decide)
    have hshift : k * Nat.pow 256 (width + 1) = k * 256 * Nat.pow 256 width := by
      rw [show Nat.pow 256 (width + 1) = Nat.pow 256 width * 256 from rfl,
        Nat.mul_comm (Nat.pow 256 width), Nat.mul_assoc]
    have hhead : UInt8.ofNat ((k * 256 * Nat.pow 256 width + n) / Nat.pow 256 width) =
        UInt8.ofNat (n / Nat.pow 256 width) := by
      refine UInt8.toNat_inj.1 ?_
      rw [UInt8.toNat_ofNat', UInt8.toNat_ofNat', Nat.add_comm, Nat.add_mul_div_right _ _ hpos]
      omega
    rw [beBytes, beBytes, hshift, hhead, ih]

/-- The octets of the number that octets write are those octets. -/
theorem beBytes_beNat (bytes : Bytes) : beBytes bytes.length (beNat bytes) = bytes := by
  induction bytes with
  | nil => rfl
  | cons b bytes ih =>
    have hpos : 0 < Nat.pow 256 bytes.length := Nat.pow_pos (by decide)
    have hhead : (b.toNat * Nat.pow 256 bytes.length + beNat bytes) / Nat.pow 256 bytes.length =
        b.toNat := by
      rw [Nat.add_comm, Nat.add_mul_div_right _ _ hpos, Nat.div_eq_of_lt (beNat_lt bytes),
        Nat.zero_add]
    rw [List.length_cons, beBytes, beNat_cons, hhead, beBytes_add_mul, ih, UInt8.ofNat_toNat]

/-! ## Signed values -/

/-- A signed value has a word of `width` octets. -/
def Fits (width : Nat) (i : Int) : Prop :=
  -(Nat.pow 256 width / 2 : Nat) ≤ i ∧ i < (Nat.pow 256 width / 2 : Nat)

instance (width : Nat) (i : Int) : Decidable (Fits width i) :=
  inferInstanceAs (Decidable (_ ∧ _))

theorem intOfWord_wordOfInt {width : Nat} {i : Int} (h : Fits width i) :
    intOfWord width (wordOfInt width i) = i := by
  have hpos : (0 : Int) < (Nat.pow 256 width : Nat) := by
    exact_mod_cast (Nat.pow_pos (by decide) : 0 < 256 ^ width)
  obtain ⟨hlow, hhigh⟩ := h
  rw [intOfWord, wordOfInt, Int.toNat_of_nonneg (Int.emod_nonneg _ (by omega)), Int.emod_bmod]
  exact Int.bmod_eq_of_le (by omega) (by omega)

theorem wordOfInt_lt (width : Nat) (i : Int) : wordOfInt width i < Nat.pow 256 width := by
  have hpos : (0 : Int) < (Nat.pow 256 width : Nat) := by
    exact_mod_cast (Nat.pow_pos (by decide) : 0 < 256 ^ width)
  have hlt := Int.emod_lt_of_pos i hpos
  have hnonneg := Int.emod_nonneg i (Int.ne_of_gt hpos)
  rw [wordOfInt]
  omega

theorem wordOfInt_intOfWord {width n : Nat} (h : n < Nat.pow 256 width) :
    wordOfInt width (intOfWord width n) = n := by
  rw [intOfWord, wordOfInt, Int.bmod_emod, Int.emod_eq_of_lt (by omega) (by exact_mod_cast h)]
  rfl

theorem fits_intOfWord (width n : Nat) (hwidth : 0 < width) : Fits width (intOfWord width n) := by
  obtain ⟨width, rfl⟩ := Nat.exists_eq_succ_of_ne_zero (Nat.ne_of_gt hwidth)
  have hnext : Nat.pow 256 (width + 1) = Nat.pow 256 width * 256 := rfl
  have hpos : 0 < Nat.pow 256 width := Nat.pow_pos (by decide)
  rw [intOfWord, Fits]
  have hlow := Int.le_bmod (x := n) (m := Nat.pow 256 (width + 1)) (by omega)
  have hhigh := Int.bmod_lt (x := n) (m := Nat.pow 256 (width + 1)) (by omega)
  rw [Nat.succ_eq_add_one]
  omega

/-- The octets of a signed value are the only ones that write it. -/
theorem intOfWord_eq_iff {width : Nat} (hwidth : 0 < width) {word : Bytes}
    (hlen : word.length = width) {i : Int} :
    intOfWord width (beNat word) = i ↔ Fits width i ∧ word = beBytes width (wordOfInt width i) := by
  constructor
  · rintro rfl
    have hlt := beNat_lt word
    rw [hlen] at hlt
    refine ⟨fits_intOfWord width _ hwidth, ?_⟩
    rw [wordOfInt_intOfWord hlt, ← hlen, beBytes_beNat]
  · rintro ⟨hfits, rfl⟩
    rw [beNat_beBytes, Nat.mod_eq_of_lt (wordOfInt_lt width i), intOfWord_wordOfInt hfits]

end Holdfast
