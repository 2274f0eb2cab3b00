import Holdfast.Proofs.Bytes
import Holdfast.Proofs.Utf8
import Holdfast.Record

/-!
# Reading back records

A record is read back by the reader of its kind, and what stands behind it is left to read.
Readers accept nothing else: what they read is the record of the value they answer.

- `Record.Reader.int32_eq_ok_iff`, `int64_eq_ok_iff`, `text_eq_ok_iff`, `textList_eq_ok_iff`: **a
  part is read exactly if its record stands in front**;
- `Record.PrefixFree`: no form of a record stands in front of another, so that no part of a record
  is read;
- `Record.textsOf_putTexts`: **a file of texts reads as those texts followed by whatever its
  tail reads as**, so a torn tail costs none of the records before it;
- `Record.textsOf_prefix`: octets behind a file hide nothing that was read before.
-/

namespace Holdfast

namespace Record

/-! ## Writing -/

/-- A text that can be written is its length followed by its octets. -/
theorem putText_eq_ok {s : String} {bytes : Bytes} (h : putText s = .ok bytes) :
    (Utf8.encode s).length ≤ maxText ∧
      bytes = beBytes 2 (Utf8.encode s).length ++ Utf8.encode s := by
  by_cases hlen : (Utf8.encode s).length ≤ maxText
  · simp only [putText, hlen, if_true, Except.ok.injEq] at h
    exact ⟨hlen, h.symm⟩
  · simp [putText, hlen] at h

/-- A text can be written exactly if it is short enough. -/
theorem exists_putText_iff {s : String} :
    (∃ record, putText s = .ok record) ↔ Utf8.size s ≤ maxText := by
  constructor
  · rintro ⟨record, h⟩
    exact (putText_eq_ok h).1
  · intro h
    rw [Utf8.size] at h
    exact ⟨beBytes 2 (Utf8.encode s).length ++ Utf8.encode s, by simp [putText, h]⟩

/-- The texts of a list can be written one after the other. -/
theorem putTexts_cons {s : String} {names : List String} {bytes : Bytes}
    (h : putTexts (s :: names) = .ok bytes) :
    ∃ first others, putText s = .ok first ∧ putTexts names = .ok others ∧
      bytes = first ++ others := by
  cases hfirst : putText s with
  | error e => simp [putTexts, hfirst, bind, Except.bind] at h
  | ok first =>
    cases hothers : putTexts names with
    | error e => simp [putTexts, hfirst, hothers, bind, Except.bind] at h
    | ok others =>
      simp only [putTexts, hfirst, hothers, bind, Except.bind, pure, Except.pure,
        Except.ok.injEq] at h
      exact ⟨first, others, rfl, rfl, h.symm⟩

/-- The record of a text goes in front of those of the others. -/
theorem putTexts_cons_ok {s : String} {names : List String} {first others : Bytes}
    (hfirst : putText s = .ok first) (hothers : putTexts names = .ok others) :
    putTexts (s :: names) = .ok (first ++ others) := by
  simp [putTexts, hfirst, hothers, bind, Except.bind, pure, Except.pure]

/-- Texts can be written exactly if each of them can. -/
theorem exists_putTexts_iff {names : List String} :
    (∃ records, putTexts names = .ok records) ↔ ∀ s ∈ names, Utf8.size s ≤ maxText := by
  induction names with
  | nil => simp [putTexts]
  | cons s names ih =>
    rw [List.forall_mem_cons, ← ih, ← exists_putText_iff]
    constructor
    · rintro ⟨records, h⟩
      obtain ⟨first, others, hfirst, hothers, -⟩ := putTexts_cons h
      exact ⟨⟨first, hfirst⟩, ⟨others, hothers⟩⟩
    · rintro ⟨⟨first, hfirst⟩, ⟨others, hothers⟩⟩
      exact ⟨first ++ others, putTexts_cons_ok hfirst hothers⟩

/-- One more text goes to the end. -/
theorem putTexts_concat {s : String} {names : List String} {bytes last : Bytes}
    (h : putTexts names = .ok bytes) (hlast : putText s = .ok last) :
    putTexts (names ++ [s]) = .ok (bytes ++ last) := by
  induction names generalizing bytes with
  | nil =>
    cases h
    rw [List.nil_append, List.nil_append, ← List.append_nil last]
    exact putTexts_cons_ok hlast rfl
  | cons name names ih =>
    obtain ⟨first, others, hfirst, hothers, rfl⟩ := putTexts_cons h
    rw [List.cons_append, List.append_assoc]
    exact putTexts_cons_ok hfirst (ih hothers)

/-! ## Forms of a record -/

/-- The numbers of parts that a record can announce. -/
theorem fits_count_iff {n : Nat} : Fits 4 n ↔ n < Nat.pow 2 31 := by
  have hpow : Nat.pow 256 4 / 2 = Nat.pow 2 31 := by decide
  rw [Fits, hpow]
  omega

/-- No form stands in front of another. -/
def PrefixFree (forms : Bytes → Prop) : Prop :=
  ∀ {form form' extra extra' : Bytes}, forms form → forms form' →
    form ++ extra = form' ++ extra' → form = form'

/-- A part of a form has no form in front. -/
theorem PrefixFree.not_in_part {forms : Bytes → Prop} (h : PrefixFree forms) {form cut : Bytes}
    (hform : forms form) (hcut : cut <+: form) (hne : cut ≠ form) {form' : Bytes}
    (hform' : forms form') (extra : Bytes) : cut ≠ form' ++ extra := by
  obtain ⟨more, hmore⟩ := hcut
  intro heq
  -- what stands in front of the part would stand in front of the whole, which is a form itself
  have hfront : form' ++ (extra ++ more) = form ++ [] := by
    rw [← List.append_assoc, ← heq, hmore, List.append_nil]
  obtain rfl : form' = form := h hform' hform hfront
  have hnil : extra ++ more = [] := List.append_cancel_left hfront
  rw [(List.append_eq_nil_iff.1 hnil).1, List.append_nil] at heq
  exact hne heq

/-! ## What readers accept -/

namespace Reader

theorem take_append (file : String) (part : RecordPart) (bytes rest : Bytes) :
    Reader.take ⟨file, bytes ++ rest⟩ part bytes.length = (.ok bytes, ⟨file, rest⟩) := by
  simp [Reader.take, skip]

/-- A written text is read back, and what follows it is left. -/
theorem text_putText {s : String} {bytes : Bytes} (h : putText s = .ok bytes) (file : String)
    (rest : Bytes) : Reader.text ⟨file, bytes ++ rest⟩ = (.ok s, ⟨file, rest⟩) := by
  obtain ⟨hlen, rfl⟩ := putText_eq_ok h
  have hword : beNat (beBytes 2 (Utf8.encode s).length) = (Utf8.encode s).length := by
    have hpow : Nat.pow 256 2 = maxText + 1 := rfl
    rw [beNat_beBytes, hpow]
    exact Nat.mod_eq_of_lt (Nat.lt_succ_of_le hlen)
  have hfirst := take_append file .textLength (beBytes 2 (Utf8.encode s).length)
    (Utf8.encode s ++ rest)
  rw [length_beBytes] at hfirst
  have hsecond := take_append file .textBody (Utf8.encode s) rest
  simp only [Reader.text, List.append_assoc, hfirst, hword, hsecond, Utf8.decode_encode]

/-- Octets of a part are read exactly if they stand in front. -/
theorem take_eq_ok_iff {file : String} {part : RecordPart} {n : Nat} {bytes word : Bytes}
    {r : Reader} : Reader.take ⟨file, bytes⟩ part n = (.ok word, r) ↔
      word.length = n ∧ r.file = file ∧ bytes = word ++ r.rest := by
  constructor
  · intro h
    unfold Reader.take at h
    split at h
    · cases h
    · rename_i hlong
      cases h
      refine ⟨?_, rfl, (List.take_append_drop n bytes).symm⟩
      rw [List.length_take]
      omega
  · rintro ⟨rfl, rfl, rfl⟩
    exact take_append r.file part word r.rest

/-- A signed 32-bit integer is read exactly if its word stands in front. -/
theorem int32_eq_ok_iff {file : String} {bytes : Bytes} {i : Int} {r : Reader} :
    Reader.int32 ⟨file, bytes⟩ = (.ok i, r) ↔
      Fits 4 i ∧ r.file = file ∧ bytes = putInt32 i ++ r.rest := by
  constructor
  · intro h
    unfold Reader.int32 at h
    split at h
    · rename_i word r' htake
      obtain ⟨hvalue, rfl⟩ := Prod.mk.inj h
      obtain ⟨hlen, hfile, rfl⟩ := take_eq_ok_iff.1 htake
      obtain ⟨hfits, hword⟩ := (intOfWord_eq_iff (by decide) hlen).1 (Except.ok.inj hvalue)
      exact ⟨hfits, hfile, by rw [putInt32, ← hword]⟩
    · cases h
  · rintro ⟨hfits, hfile, rfl⟩
    have htake : Reader.take ⟨file, putInt32 i ++ r.rest⟩ .int32 4 = (.ok (putInt32 i), r) :=
      take_eq_ok_iff.2 ⟨length_beBytes 4 _, hfile, rfl⟩
    have hvalue := (intOfWord_eq_iff (by decide) (length_beBytes 4 _)).2 ⟨hfits, rfl⟩
    simp only [Reader.int32, htake]
    rw [putInt32, hvalue]

/-- A signed 64-bit integer is read exactly if its word stands in front. -/
theorem int64_eq_ok_iff {file : String} {bytes : Bytes} {i : Int} {r : Reader} :
    Reader.int64 ⟨file, bytes⟩ = (.ok i, r) ↔
      Fits 8 i ∧ r.file = file ∧ bytes = putInt64 i ++ r.rest := by
  constructor
  · intro h
    unfold Reader.int64 at h
    split at h
    · rename_i word r' htake
      obtain ⟨hvalue, rfl⟩ := Prod.mk.inj h
      obtain ⟨hlen, hfile, rfl⟩ := take_eq_ok_iff.1 htake
      obtain ⟨hfits, hword⟩ := (intOfWord_eq_iff (by decide) hlen).1 (Except.ok.inj hvalue)
      exact ⟨hfits, hfile, by rw [putInt64, ← hword]⟩
    · cases h
  · rintro ⟨hfits, hfile, rfl⟩
    have htake : Reader.take ⟨file, putInt64 i ++ r.rest⟩ .int64 8 = (.ok (putInt64 i), r) :=
      take_eq_ok_iff.2 ⟨length_beBytes 8 _, hfile, rfl⟩
    have hvalue := (intOfWord_eq_iff (by decide) (length_beBytes 8 _)).2 ⟨hfits, rfl⟩
    simp only [Reader.int64, htake]
    rw [putInt64, hvalue]

/-- A text is read exactly if its record stands in front. -/
theorem text_eq_ok_iff {file : String} {bytes : Bytes} {s : String} {r : Reader} :
    Reader.text ⟨file, bytes⟩ = (.ok s, r) ↔
      ∃ record, putText s = .ok record ∧ r.file = file ∧ bytes = record ++ r.rest := by
  constructor
  · intro h
    unfold Reader.text at h
    split at h
    · cases h
    · rename_i word r₁ hword
      split at h
      · cases h
      · rename_i body r₂ hbody
        split at h
        · rename_i hdecode
          cases h
          obtain ⟨file₁, left₁⟩ := r₁
          obtain ⟨hlen₁, rfl, rfl⟩ := take_eq_ok_iff.1 hword
          obtain ⟨hlen₂, hfile, rfl⟩ := take_eq_ok_iff.1 hbody
          have hencode := Utf8.encode_of_decode hdecode
          have hlt := beNat_lt word
          rw [hlen₁] at hlt
          have hshort : (Utf8.encode s).length ≤ maxText := by
            rw [hencode, hlen₂]
            exact Nat.le_of_lt_succ hlt
          refine ⟨word ++ body, ?_, hfile, (List.append_assoc word body r.rest).symm⟩
          rw [putText]
          simp only [hshort, if_true]
          rw [hencode, hlen₂, ← hlen₁, beBytes_beNat]
        · cases h
  · rintro ⟨record, hrecord, rfl, rfl⟩
    exact text_putText hrecord r.file r.rest

/-- As many texts are read exactly if their records stand in front. -/
theorem textList_eq_ok_iff {file : String} {bytes : Bytes} {count : Nat} {names : List String}
    {r : Reader} : Reader.textList ⟨file, bytes⟩ count = (.ok names, r) ↔
      ∃ records, putTexts names = .ok records ∧ names.length = count ∧ r.file = file ∧
        bytes = records ++ r.rest := by
  induction count generalizing file bytes names with
  | zero =>
    constructor
    · intro h
      cases h
      exact ⟨[], rfl, rfl, rfl, rfl⟩
    · rintro ⟨records, hrecords, hlen, rfl, rfl⟩
      obtain rfl := List.eq_nil_of_length_eq_zero hlen
      cases hrecords
      rfl
  | succ count ih =>
    constructor
    · intro h
      rw [Reader.textList] at h
      split at h
      · cases h
      · rename_i s r₁ htext
        split at h
        · cases h
        · rename_i rest r₂ hlist
          cases h
          obtain ⟨file₁, left₁⟩ := r₁
          obtain ⟨first, hfirst, rfl, rfl⟩ := text_eq_ok_iff.1 htext
          obtain ⟨others, hothers, rfl, hfile, rfl⟩ := ih.1 hlist
          exact ⟨first ++ others, putTexts_cons_ok hfirst hothers, rfl, hfile,
            (List.append_assoc first others _).symm⟩
    · rintro ⟨records, hrecords, hlen, hfile, rfl⟩
      obtain ⟨s, rest, rfl⟩ := List.exists_cons_of_length_eq_add_one hlen
      obtain ⟨first, others, hfirst, hothers, rfl⟩ := putTexts_cons hrecords
      have htext := text_putText hfirst file (others ++ r.rest)
      have hlist : Reader.textList ⟨file, others ++ r.rest⟩ count = (.ok rest, r) :=
        ih.2 ⟨others, hothers, Nat.succ.inj hlen, hfile, rfl⟩
      simp only [Reader.textList, List.append_assoc, htext, hlist]

/-! ## Records in front of the same octets -/

/-- A reader gives one answer. -/
theorem answer_unique {α : Type} {answer : Except Fault α × Reader} {a b : α}
    {rest rest' : Bytes} (h : answer = (.ok a, ⟨"", rest⟩)) (h' : answer = (.ok b, ⟨"", rest'⟩)) :
    a = b ∧ rest = rest' := by
  rw [h] at h'
  cases h'
  exact ⟨rfl, rfl⟩

theorem putInt32_append_inj {i j : Int} (hi : Fits 4 i) (hj : Fits 4 j) {rest rest' : Bytes}
    (h : putInt32 i ++ rest = putInt32 j ++ rest') : i = j ∧ rest = rest' :=
  answer_unique (int32_eq_ok_iff.2 ⟨hi, rfl, rfl⟩) (int32_eq_ok_iff.2 ⟨hj, rfl, h⟩)

theorem putInt64_append_inj {i j : Int} (hi : Fits 8 i) (hj : Fits 8 j) {rest rest' : Bytes}
    (h : putInt64 i ++ rest = putInt64 j ++ rest') : i = j ∧ rest = rest' :=
  answer_unique (int64_eq_ok_iff.2 ⟨hi, rfl, rfl⟩) (int64_eq_ok_iff.2 ⟨hj, rfl, h⟩)

theorem putText_append_inj {s s' : String} {record record' rest rest' : Bytes}
    (hrecord : putText s = .ok record) (hrecord' : putText s' = .ok record')
    (h : record ++ rest = record' ++ rest') : s = s' ∧ rest = rest' :=
  answer_unique (text_eq_ok_iff.2 ⟨record, hrecord, rfl, rfl⟩)
    (text_eq_ok_iff.2 ⟨record', hrecord', rfl, h⟩)

theorem putTexts_append_inj {names names' : List String} {records records' rest rest' : Bytes}
    (hrecords : putTexts names = .ok records) (hrecords' : putTexts names' = .ok records')
    (hlength : names.length = names'.length) (h : records ++ rest = records' ++ rest') :
    names = names' ∧ rest = rest' :=
  answer_unique (textList_eq_ok_iff.2 ⟨records, hrecords, rfl, rfl, rfl⟩)
    (textList_eq_ok_iff.2 ⟨records', hrecords', hlength.symm, rfl, h⟩)

/-! ## Files of texts -/

/-- A text that is read takes two octets at least. -/
theorem length_text_lt {r r' : Reader} {s : String} (h : r.text = (.ok s, r')) :
    r'.rest.length < r.rest.length := by
  obtain ⟨record, hrecord, _, hrest⟩ := text_eq_ok_iff.1 h
  obtain ⟨_, rfl⟩ := putText_eq_ok hrecord
  rw [hrest, List.length_append, List.length_append, length_beBytes]
  omega

/-- With fuel for every octet the number of steps does not matter. -/
theorem textsOnto_fuel {r : Reader} {n m : Nat} (hn : r.rest.length ≤ n)
    (hm : r.rest.length ≤ m) (done : List String) :
    textsOnto done r n = textsOnto done r m := by
  induction n generalizing r m done with
  | zero =>
    have hnil : r.rest = [] := List.eq_nil_of_length_eq_zero (by omega)
    cases m with
    | zero => rfl
    | succ m => simp [textsOnto, hasRemaining, hnil]
  | succ n ih =>
    cases m with
    | zero =>
      have hnil : r.rest = [] := List.eq_nil_of_length_eq_zero (by omega)
      simp [textsOnto, hasRemaining, hnil]
    | succ m =>
      simp only [textsOnto]
      split
      · split
        · rename_i s r' htext
          have hlt := length_text_lt htext
          exact ih (by omega) (by omega) _
        · rfl
      · rfl

/-- The texts read before stand in front, and the reader that is left does not depend on them. -/
theorem textsOnto_eq (done : List String) (r : Reader) (fuel : Nat) :
    textsOnto done r fuel =
      (done.reverse ++ (textsOnto [] r fuel).1, (textsOnto [] r fuel).2) := by
  induction fuel generalizing done r with
  | zero => simp [textsOnto]
  | succ fuel ih =>
    simp only [textsOnto]
    split
    · split
      · rename_i s r' _
        rw [ih (s :: done), ih [s]]
        simp
      · simp
    · simp

/-- The texts read before stay in front. -/
theorem textsOnto_done (done : List String) (r : Reader) (fuel : Nat) :
    (textsOnto done r fuel).1 = done.reverse ++ (textsOnto [] r fuel).1 :=
  congrArg Prod.fst (textsOnto_eq done r fuel)

end Reader

/-- A written text in front is the first text read. -/
theorem textsOf_putText {s : String} {bytes : Bytes} (h : putText s = .ok bytes)
    (rest : Bytes) : textsOf (bytes ++ rest) = s :: textsOf rest := by
  have htext := Reader.text_putText h "" rest
  have hlt : rest.length < (bytes ++ rest).length := Reader.length_text_lt htext
  have hleft : Reader.hasRemaining ⟨"", bytes ++ rest⟩ = true := by
    simp only [Reader.hasRemaining, Bool.not_eq_true', List.isEmpty_eq_false_iff]
    intro hnil
    rw [hnil] at hlt
    exact Nat.not_lt_zero _ hlt
  obtain ⟨n, hn⟩ : ∃ n, (bytes ++ rest).length = n + 1 :=
    Nat.exists_eq_succ_of_ne_zero (by intro h0; rw [h0] at hlt; exact Nat.not_lt_zero _ hlt)
  have hstep : Reader.textsOnto [] ⟨"", bytes ++ rest⟩ (n + 1) =
      Reader.textsOnto [s] ⟨"", rest⟩ n := by
    rw [Reader.textsOnto, if_pos hleft, htext]
  have hfuel : Reader.textsOnto [s] ⟨"", rest⟩ n = Reader.textsOnto [s] ⟨"", rest⟩ rest.length :=
    Reader.textsOnto_fuel (by show rest.length ≤ n; omega) (Nat.le_refl _) _
  simp only [textsOf, Reader.texts]
  rw [hn, hstep, hfuel, Reader.textsOnto_done]
  rfl

/-- **A file of texts reads as those texts, then as its tail.** -/
theorem textsOf_putTexts {names : List String} {bytes : Bytes} (h : putTexts names = .ok bytes)
    (rest : Bytes) : textsOf (bytes ++ rest) = names ++ textsOf rest := by
  induction names generalizing bytes with
  | nil =>
    cases h
    rfl
  | cons name names ih =>
    obtain ⟨first, others, hfirst, hothers, rfl⟩ := putTexts_cons h
    rw [List.append_assoc, textsOf_putText hfirst, ih hothers]
    rfl

/-! ## Reading with more behind -/

namespace Reader

/-- A text that is read is read as well with more behind it. -/
theorem text_more {file : String} {rest : Bytes} {s : String} {r : Reader}
    (h : Reader.text ⟨file, rest⟩ = (.ok s, r)) (more : Bytes) :
    r = ⟨file, r.rest⟩ ∧ Reader.text ⟨file, rest ++ more⟩ = (.ok s, ⟨file, r.rest ++ more⟩) := by
  obtain ⟨record, hrecord, rfl, rfl⟩ := text_eq_ok_iff.1 h
  refine ⟨rfl, ?_⟩
  rw [List.append_assoc]
  exact text_putText hrecord r.file (r.rest ++ more)

/-- The texts read from some octets come first when there is more behind them. -/
theorem textsOnto_prefix (rest more : Bytes) (fuel : Nat) :
    (textsOnto [] ⟨"", rest⟩ fuel).1 <+: (textsOnto [] ⟨"", rest ++ more⟩ fuel).1 := by
  induction fuel generalizing rest with
  | zero => exact List.prefix_refl _
  | succ fuel ih =>
    simp only [textsOnto]
    by_cases hleft : Reader.hasRemaining ⟨"", rest⟩ = true
    · have hleft' : Reader.hasRemaining ⟨"", rest ++ more⟩ = true := by
        simp only [hasRemaining, Bool.not_eq_true', List.isEmpty_eq_false_iff] at hleft ⊢
        exact List.append_ne_nil_of_left_ne_nil hleft more
      rw [if_pos hleft, if_pos hleft']
      rcases htext : Reader.text ⟨"", rest⟩ with ⟨outcome, r⟩
      cases outcome with
      | error e => exact List.nil_prefix
      | ok s =>
        obtain ⟨hr, hmore⟩ := text_more htext more
        rw [hmore]
        show (textsOnto [s] r fuel).1 <+: (textsOnto [s] ⟨"", r.rest ++ more⟩ fuel).1
        rw [textsOnto_done [s], textsOnto_done [s] ⟨"", r.rest ++ more⟩, hr]
        exact (List.prefix_append_right_inj _).2 (ih r.rest)
    · rw [if_neg hleft]
      exact List.nil_prefix

end Reader

/-- Octets behind a file hide nothing that was read before. -/
theorem textsOf_prefix (bytes more : Bytes) : textsOf bytes <+: textsOf (bytes ++ more) := by
  have hlong : bytes.length ≤ (bytes ++ more).length := by
    rw [List.length_append]
    omega
  have hfuel : Reader.textsOnto [] ⟨"", bytes⟩ bytes.length =
      Reader.textsOnto [] ⟨"", bytes⟩ (bytes ++ more).length :=
    Reader.textsOnto_fuel (Nat.le_refl _) hlong []
  simp only [textsOf, Reader.texts]
  rw [hfuel]
  exact Reader.textsOnto_prefix bytes more _

end Record

end Holdfast
