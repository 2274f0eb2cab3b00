import Holdfast.Operation

/-!
# Tokens that do not collide

A token is made of noise above a low octet that counts. The noise may be anything, so only the
low octet keeps tokens apart, and it does so until it has gone round once.

- `OpToken.lowOctet`: the octet that counts;
- `TokenSource.lowOctet_next`, `TokenSource.next_lt`: **one token**: its low octet is the
  counter's, whatever the noise, and its top bit is clear;
- `TokenSource.issue_eq`: **tokens in a row**: each is the next one of a source that has counted
  up to it;
- `TokenSource.issue_window`: **any 256 tokens in a row differ**, also where the counter begins
  again at zero.
-/

namespace Holdfast

/-- The octet of a token that counts. -/
def OpToken.lowOctet (t : OpToken) : UInt8 := t.value.toUInt8

namespace TokenSource

/-! ## One token -/

/-- No noise reaches the low octet. -/
theorem lowOctet_next (s : TokenSource) (noise : UInt32) :
    (s.next noise).1.lowOctet = s.counter.toUInt8 := by
  show ((noise &&& 0x7fffff00) ||| (s.counter &&& 0xff)).toUInt8 = s.counter.toUInt8
  have hnoise : (noise &&& 0x7fffff00).toUInt8 = 0 := by
    rw [UInt32.toUInt8_and]
    exact UInt8.and_zero
  have hcounter : (s.counter &&& 0xff).toUInt8 = s.counter.toUInt8 := by
    rw [UInt32.toUInt8_and]
    exact UInt8.and_neg_one
  rw [UInt32.toUInt8_or, hnoise, hcounter, UInt8.zero_or]

/-- Both masks leave the top bit clear. -/
theorem next_lt (s : TokenSource) (noise : UInt32) :
    (s.next noise).1.value.toNat < 0x80000000 := by
  show ((noise &&& 0x7fffff00) ||| (s.counter &&& 0xff)).toNat < 0x80000000
  rw [UInt32.toNat_or, UInt32.toNat_and, UInt32.toNat_and]
  exact Nat.or_lt_two_pow (n := 31) (Nat.and_lt_two_pow _ (by decide))
    (Nat.and_lt_two_pow _ (by decide))

/-! ## Tokens in a row -/

theorem issue_cons (s : TokenSource) (word : UInt32) (noise : List UInt32) :
    s.issue (word :: noise) = (s.next word).1 :: issue ⟨s.counter + 1⟩ noise := rfl

/-- Each token of a row is the next one of a source that has counted up to it. -/
theorem issue_eq (s : TokenSource) (noise : List UInt32) :
    s.issue noise = noise.mapIdx fun i word =>
      ((⟨s.counter + UInt32.ofNat i⟩ : TokenSource).next word).1 := by
  -- the counter wraps, so both sides count on in words and not in numbers
  induction noise generalizing s with
  | nil => rfl
  | cons word noise ih =>
    have hstart : s.counter + UInt32.ofNat 0 = s.counter := UInt32.add_zero _
    have hcount : ∀ i, s.counter + 1 + UInt32.ofNat i = s.counter + UInt32.ofNat (i + 1) := by
      intro i
      rw [UInt32.ofNat_add, UInt32.add_assoc, UInt32.add_comm 1]
      rfl
    rw [issue_cons, ih, List.mapIdx_cons, hstart]
    simp only [hcount]

/-- The low octets count up from the counter's. -/
theorem lowOctet_issue (s : TokenSource) (noise : List UInt32) (i : Nat)
    (h : i < (s.issue noise).length) :
    (s.issue noise)[i].lowOctet = s.counter.toUInt8 + UInt8.ofNat i := by
  simp only [issue_eq, List.getElem_mapIdx, lowOctet_next, UInt32.toUInt8_add,
    UInt32.toUInt8_ofNat']

/-- Two tokens with fewer than 256 issued from the one to the other differ in their low octets. -/
theorem issue_ne (s : TokenSource) (noise : List UInt32) {i j : Nat} (hij : i < j)
    (hnear : j < i + 256) (hj : j < (s.issue noise).length) :
    (s.issue noise)[i] ≠ (s.issue noise)[j] := by
  intro heq
  have hoctets : s.counter.toUInt8 + UInt8.ofNat i = s.counter.toUInt8 + UInt8.ofNat j := by
    rw [← lowOctet_issue s noise i (by omega), ← lowOctet_issue s noise j hj, heq]
  have hmod : i % 256 = j % 256 :=
    (UInt8.ofNat_eq_iff_mod_eq_toNat i _).1 ((UInt8.add_right_inj _).1 hoctets)
  omega

/-- **Tokens stay apart.** From any count on, also one about to begin again at zero, and with any
noise, a source issues one token for each noise word. Any 256 of them in a row are distinct, none
is negative as a signed word, and the low octet of each is that of the token before it plus one,
modulo 256. -/
theorem issue_window (s : TokenSource) (noise : List UInt32) (start : Nat) :
    (s.issue noise).length = noise.length ∧
      (((s.issue noise).drop start).take 256).Nodup ∧
      (∀ token ∈ s.issue noise, token.value.toNat < 0x80000000) ∧
      ∀ i (h : i + 1 < (s.issue noise).length),
        (s.issue noise)[i + 1].lowOctet = (s.issue noise)[i].lowOctet + 1 := by
  refine ⟨?_, ?_, ?_, ?_⟩
  · rw [issue_eq, List.length_mapIdx]
  · refine List.pairwise_iff_getElem.2 ?_
    intro i j hi hj hij
    rw [List.length_take, List.length_drop] at hi hj
    rw [List.getElem_take, List.getElem_drop, List.getElem_take, List.getElem_drop]
    exact issue_ne s noise (by omega) (by omega) (by omega)
  · intro token htoken
    rw [issue_eq] at htoken
    obtain ⟨i, hi, rfl⟩ := List.mem_mapIdx.1 htoken
    exact next_lt _ _
  · intro i h
    rw [lowOctet_issue, lowOctet_issue, UInt8.ofNat_add, UInt8.add_assoc]
    rfl

/-- The noise never changes, and the counter begins again at zero after 128 tokens. -/
def wrapping : List OpToken :=
  issue ⟨0xffffff80⟩ (List.replicate 300 0xabcdef01)

theorem issue_window_wrapping :
    ((wrapping.drop 44).take 256).Nodup ∧
      (⟨0x2bcdef80⟩ ∈ wrapping ∧ (0x2bcdef80 : UInt32).toNat < 0x80000000) ∧
      ∃ h : 127 + 1 < wrapping.length,
        wrapping[127 + 1].lowOctet = wrapping[127].lowOctet + 1 := by
  obtain ⟨hlength, hnodup, hsigned, hcount⟩ :=
    issue_window ⟨0xffffff80⟩ (List.replicate 300 0xabcdef01) 44
  have hmem : ⟨0x2bcdef80⟩ ∈ wrapping := .head _
  have hlong : 127 + 1 < wrapping.length := by
    rw [wrapping, hlength, List.length_replicate]
    decide
  exact ⟨hnodup, ⟨hmem, hsigned _ hmem⟩, hlong, hcount 127 hlong⟩

end TokenSource

end Holdfast
