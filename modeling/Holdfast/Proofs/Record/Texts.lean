import Holdfast.Proofs.Record

/-!
# What a file of texts reads as

A file of texts is read record by record, until nothing is left or until what is left does not
begin with a complete record. So any octets at all are read as the records in front of them that
are whole, and a file that was cut somewhere loses what the cut is in and what is behind it.

- `Utf8.isValidUTF8_iff`: octets are well-formed exactly if they are those of a text;
- `Record.StartsRecord`: a complete record stands in front, told from the octets alone;
- `Record.Reader.Scans`: the reading of texts without a bound on its rounds. It always comes to
  an end, and `Reader.texts` is what it answers (`Reader.scans_iff`);
- `Record.LongestFitting`: the texts whose records fit into some octets;
- `Record.texts_whole_records`: **octets are read as their longest beginning of whole records**.
-/

namespace Holdfast

/-! ## Well-formed octets -/

namespace Utf8

theorem encodeChar_eq (c : Char) : encodeChar c = String.utf8EncodeChar c := by
  have hrange := toNat_range c
  have hvalue : c.val.toNat = c.toNat := rfl
  unfold encodeChar String.utf8EncodeChar
  rw [hvalue]
  generalize c.toNat = n at hrange
  simp only
  by_cases h₁ : n < 0x80
  · rw [if_pos h₁, if_pos (by omega)]
  rw [if_neg h₁, if_neg (show ¬ n ≤ 127 by omega)]
  have hlast : 0x80 + n % 64 = n % 64 + 128 := by omega
  by_cases h₂ : n < 0x800
  · rw [if_pos h₂, if_pos (by omega), hlast, show 0xC0 + n / 64 = n / 64 % 32 + 192 by omega]
  rw [if_neg h₂, if_neg (show ¬ n ≤ 2047 by omega)]
  have hmiddle : 0x80 + n / 64 % 64 = n / 64 % 64 + 128 := by omega
  by_cases h₃ : n < 0x10000
  · rw [if_pos h₃, if_pos (by omega), hlast, hmiddle,
      show 0xE0 + n / 4096 = n / 4096 % 16 + 224 by omega]
  · rw [if_neg h₃, if_neg (by omega), hlast, hmiddle,
      show 0x80 + n / 4096 % 64 = n / 4096 % 64 + 128 by omega,
      show 0xF0 + n / 262144 = n / 262144 % 8 + 240 by omega]

/-- A text is written as the octets that it is made of. -/
theorem toByteArray_encode (s : String) : (encode s).toByteArray = s.toByteArray := by
  rw [← String.utf8Encode_toList, encode, List.utf8Encode]
  congr 2
  exact funext encodeChar_eq

/-- Octets are well-formed exactly if they are those of a text. -/
theorem isValidUTF8_iff {bytes : Bytes} :
    bytes.toByteArray.IsValidUTF8 ↔ ∃ s : String, encode s = bytes := by
  constructor
  · intro h
    refine ⟨String.ofByteArray bytes.toByteArray h, ?_⟩
    rw [← List.toByteArray_inj, toByteArray_encode]
  · rintro ⟨s, rfl⟩
    rw [toByteArray_encode]
    exact s.isValidUTF8

end Utf8

namespace Record

/-! ## Complete records -/

/-- A complete record stands in front: two octets give the number of those that follow, and so
many follow and are well-formed. -/
def StartsRecord (bytes : Bytes) : Prop :=
  ∃ high low body rest, bytes = high :: low :: (body ++ rest) ∧
    body.length = 256 * high.toNat + low.toNat ∧ body.toByteArray.IsValidUTF8

/-- The number that two octets write. -/
theorem beNat_pair (high low : UInt8) : beNat [high, low] = 256 * high.toNat + low.toNat := by
  simp only [beNat, List.foldl_cons, List.foldl_nil]
  omega

/-- A complete record stands in front exactly if the record of some text does. -/
theorem startsRecord_iff {bytes : Bytes} :
    StartsRecord bytes ↔ ∃ s record rest, putText s = .ok record ∧ bytes = record ++ rest := by
  constructor
  · rintro ⟨high, low, body, rest, rfl, hlength, hvalid⟩
    obtain ⟨s, rfl⟩ := Utf8.isValidUTF8_iff.1 hvalid
    have hword : beBytes 2 (Utf8.encode s).length = [high, low] := by
      rw [hlength, ← beNat_pair]
      exact beBytes_beNat [high, low]
    have hshort : (Utf8.encode s).length ≤ maxText := by
      have hhigh := high.toNat_lt
      have hlow := low.toNat_lt
      rw [hlength, maxText]
      omega
    refine ⟨s, [high, low] ++ Utf8.encode s, rest, ?_, rfl⟩
    rw [← hword, putText]
    simp only [hshort, if_true]
  · rintro ⟨s, record, rest, hrecord, rfl⟩
    obtain ⟨hshort, rfl⟩ := putText_eq_ok hrecord
    obtain ⟨high, low, hpair⟩ : ∃ high low, beBytes 2 (Utf8.encode s).length = [high, low] :=
      ⟨_, _, rfl⟩
    have hnumber : beNat [high, low] = (Utf8.encode s).length := by
      rw [← hpair, beNat_beBytes]
      exact Nat.mod_eq_of_lt (Nat.lt_succ_of_le hshort)
    refine ⟨high, low, Utf8.encode s, rest, by rw [hpair]; rfl, ?_,
      Utf8.isValidUTF8_iff.2 ⟨s, rfl⟩⟩
    rw [← hnumber, beNat_pair]

/-- Nothing shorter than a record begins with one that is a part of it. -/
theorem not_startsRecord_take {s : String} {record : Bytes} (hrecord : putText s = .ok record)
    {k : Nat} (hk : k < record.length) : ¬ StartsRecord (record.take k) := by
  rw [startsRecord_iff]
  rintro ⟨s', record', rest, hrecord', hfront⟩
  have hwhole : record ++ [] = record' ++ (rest ++ record.drop k) := by
    rw [← List.append_assoc, ← hfront, List.take_append_drop, List.append_nil]
  obtain ⟨rfl, hnil⟩ := Reader.putText_append_inj hrecord hrecord' hwhole
  have hdrop : record.drop k = [] := (List.append_eq_nil_iff.1 hnil.symm).2
  have hlength := congrArg List.length hdrop
  rw [List.length_drop, List.length_nil] at hlength
  omega

/-! ## Reading without a bound -/

namespace Reader

/-- A text is read exactly where a complete record stands in front. -/
theorem exists_text_iff {r : Reader} : (∃ s r', r.text = (.ok s, r')) ↔ StartsRecord r.rest := by
  rw [startsRecord_iff]
  constructor
  · rintro ⟨s, r', h⟩
    obtain ⟨record, hrecord, -, hrest⟩ := text_eq_ok_iff.1 h
    exact ⟨s, record, r'.rest, hrecord, hrest⟩
  · rintro ⟨s, record, rest, hrecord, hrest⟩
    exact ⟨s, ⟨r.file, rest⟩, text_eq_ok_iff.2 ⟨record, hrecord, rfl, hrest⟩⟩

/-- The reading of texts until nothing is left or a text cannot be read, however many rounds it
takes. -/
inductive Scans : Reader → List String → Reader → Prop where
  | drained {r : Reader} : r.hasRemaining = false → Scans r [] r
  | torn {r r' : Reader} {e : Fault} :
    r.hasRemaining = true → r.text = (.error e, r') → Scans r [] r'
  | next {r r' r'' : Reader} {s : String} {names : List String} :
    r.hasRemaining = true → r.text = (.ok s, r') → Scans r' names r'' → Scans r (s :: names) r''

/-- With a round for every octet, the reading comes to an end. -/
theorem scans_textsOnto {r : Reader} {fuel : Nat} (hfuel : r.rest.length ≤ fuel) :
    Scans r (textsOnto [] r fuel).1 (textsOnto [] r fuel).2 := by
  induction fuel generalizing r with
  | zero =>
    have hnil : r.rest = [] := List.eq_nil_of_length_eq_zero (Nat.le_zero.1 hfuel)
    exact .drained (by rw [hasRemaining, hnil]; rfl)
  | succ fuel ih =>
    rw [textsOnto]
    cases hleft : r.hasRemaining with
    | false => exact .drained hleft
    | true =>
      rcases htext : r.text with ⟨outcome, r'⟩
      cases outcome with
      | error e => exact .torn hleft htext
      | ok s =>
        have hlt := length_text_lt htext
        have hscans := ih (r := r') (by omega)
        rw [if_pos rfl]
        simp only
        rw [textsOnto_eq]
        exact .next hleft htext hscans

/-- A reading comes to one end. -/
theorem Scans.unique {r r' r'' : Reader} {names names' : List String} (h : Scans r names r')
    (h' : Scans r names' r'') : names = names' ∧ r' = r'' := by
  induction h generalizing names' with
  | drained hleft =>
    cases h' with
    | drained => exact ⟨rfl, rfl⟩
    | torn hleft' | next hleft' => rw [hleft] at hleft'; cases hleft'
  | torn hleft htext =>
    cases h' with
    | drained hleft' => rw [hleft] at hleft'; cases hleft'
    | torn _ htext' => rw [htext] at htext'; cases htext'; exact ⟨rfl, rfl⟩
    | next _ htext' => rw [htext] at htext'; cases htext'
  | next hleft htext _ ih =>
    cases h' with
    | drained hleft' => rw [hleft] at hleft'; cases hleft'
    | torn _ htext' => rw [htext] at htext'; cases htext'
    | next _ htext' hrest =>
      rw [htext] at htext'
      cases htext'
      obtain ⟨rfl, rfl⟩ := ih hrest
      exact ⟨rfl, rfl⟩

/-- **The reading of texts always comes to an end**, with the answer of `texts`. -/
theorem scans_iff {r r' : Reader} {names : List String} :
    Scans r names r' ↔ r.texts = (names, r') := by
  have hscans : Scans r r.texts.1 r.texts.2 := scans_textsOnto (Nat.le_refl _)
  constructor
  · intro h
    obtain ⟨hnames, hleft⟩ := hscans.unique h
    exact Prod.ext hnames hleft
  · intro h
    rw [h] at hscans
    exact hscans

/-! ## Whole records in front -/

/-- What was read are the records in front, and no complete record follows them. -/
theorem Scans.split {r r' : Reader} {names : List String} (h : Scans r names r') :
    ∃ written rest, putTexts names = .ok written ∧ r.rest = written ++ rest ∧
      ¬ StartsRecord rest := by
  induction h with
  | @drained r hleft =>
    refine ⟨[], [], rfl, ?_, ?_⟩
    · rw [hasRemaining, Bool.not_eq_false', List.isEmpty_iff] at hleft
      rw [hleft, List.append_nil]
    · rintro ⟨high, low, body, rest, hcons, -⟩
      cases hcons
  | @torn r r' e hleft htext =>
    refine ⟨[], r.rest, rfl, rfl, ?_⟩
    rw [← exists_text_iff]
    rintro ⟨s, r'', hread⟩
    rw [htext] at hread
    cases hread
  | @next r r' r'' s names hleft htext _ ih =>
    obtain ⟨written, rest, hwritten, hrest, hno⟩ := ih
    obtain ⟨record, hrecord, -, hfront⟩ := text_eq_ok_iff.1 htext
    refine ⟨record ++ written, rest, putTexts_cons_ok hrecord hwritten, ?_, hno⟩
    rw [hfront, hrest, List.append_assoc]

/-- Records in front are read, and nothing else if no complete record follows them. -/
theorem exists_scans {names : List String} {written rest : Bytes}
    (hwritten : putTexts names = .ok written) (hno : ¬ StartsRecord rest) (file : String) :
    ∃ r, Scans ⟨file, written ++ rest⟩ names r := by
  induction names generalizing written with
  | nil =>
    cases hwritten
    cases hleft : hasRemaining ⟨file, [] ++ rest⟩ with
    | false => exact ⟨_, .drained hleft⟩
    | true =>
      rcases htext : Reader.text ⟨file, [] ++ rest⟩ with ⟨outcome, r⟩
      cases outcome with
      | error e => exact ⟨r, .torn hleft htext⟩
      | ok s => exact absurd (exists_text_iff.1 ⟨s, r, htext⟩) hno
  | cons s names ih =>
    obtain ⟨record, others, hrecord, hothers, rfl⟩ := putTexts_cons hwritten
    obtain ⟨r, hscans⟩ := ih hothers
    have htext := text_putText hrecord file (others ++ rest)
    have hlt := length_text_lt htext
    have hleft : hasRemaining ⟨file, record ++ (others ++ rest)⟩ = true := by
      rw [hasRemaining, Bool.not_eq_true', List.isEmpty_eq_false_iff]
      exact List.ne_nil_of_length_pos (Nat.lt_of_le_of_lt (Nat.zero_le _) hlt)
    rw [List.append_assoc]
    exact ⟨r, .next hleft htext hscans⟩

/-- **Octets are read as the texts of the complete records in front of them.** -/
theorem texts_eq_iff {file : String} {bytes : Bytes} {names : List String} :
    (Reader.texts ⟨file, bytes⟩).1 = names ↔
      ∃ written rest, putTexts names = .ok written ∧ bytes = written ++ rest ∧
        ¬ StartsRecord rest := by
  constructor
  · rintro rfl
    exact (scans_iff.2 rfl).split
  · rintro ⟨written, rest, hwritten, rfl, hno⟩
    obtain ⟨r, hscans⟩ := exists_scans hwritten hno file
    rw [scans_iff.1 hscans]

/-- A record in front is read first. -/
theorem texts_cons {s : String} {record : Bytes} (hrecord : putText s = .ok record)
    (file : String) (rest : Bytes) :
    (Reader.texts ⟨file, record ++ rest⟩).1 = s :: (Reader.texts ⟨file, rest⟩).1 := by
  obtain ⟨written, tail, hwritten, hrest, hno⟩ := texts_eq_iff.1 (rfl :
    (Reader.texts ⟨file, rest⟩).1 = _)
  refine texts_eq_iff.2 ⟨record ++ written, tail, putTexts_cons_ok hrecord hwritten, ?_, hno⟩
  rw [List.append_assoc, ← hrest]

end Reader

/-! ## Files that were cut -/

/-- The longest beginning of a list of texts whose records fit into some octets. -/
structure LongestFitting (names : List String) (room : Nat) (front : List String) : Prop where
  isPrefix : front <+: names
  fits : ∃ written, putTexts front = .ok written ∧ written.length ≤ room
  longest : ∀ other, other <+: names →
    (∃ written, putTexts other = .ok written ∧ written.length ≤ room) → other <+: front

/-- Nothing fits where the first record does not. -/
theorem longestFitting_nil {s : String} {names : List String} {record : Bytes}
    (hrecord : putText s = .ok record) {room : Nat} (hroom : room < record.length) :
    LongestFitting (s :: names) room [] where
  isPrefix := List.nil_prefix
  fits := ⟨[], rfl, Nat.zero_le _⟩
  longest := by
    rintro other hother ⟨written, hwritten, hlength⟩
    cases other with
    | nil => exact List.nil_prefix
    | cons s' other =>
      obtain ⟨rfl, -⟩ := List.cons_prefix_cons.1 hother
      obtain ⟨first, others, hfirst, -, rfl⟩ := putTexts_cons hwritten
      rw [hrecord] at hfirst
      cases hfirst
      rw [List.length_append] at hlength
      omega

/-- Where the first record fits, the others have the room that it leaves. -/
theorem LongestFitting.cons {s : String} {names front : List String} {record : Bytes}
    (hrecord : putText s = .ok record) {room : Nat} (hroom : record.length ≤ room)
    (h : LongestFitting names (room - record.length) front) :
    LongestFitting (s :: names) room (s :: front) where
  isPrefix := List.cons_prefix_cons.2 ⟨rfl, h.isPrefix⟩
  fits := by
    obtain ⟨written, hwritten, hlength⟩ := h.fits
    refine ⟨record ++ written, putTexts_cons_ok hrecord hwritten, ?_⟩
    rw [List.length_append]
    omega
  longest := by
    rintro other hother ⟨written, hwritten, hlength⟩
    cases other with
    | nil => exact List.nil_prefix
    | cons s' other =>
      obtain ⟨rfl, htail⟩ := List.cons_prefix_cons.1 hother
      obtain ⟨first, others, hfirst, hothers, rfl⟩ := putTexts_cons hwritten
      rw [hrecord] at hfirst
      cases hfirst
      rw [List.length_append] at hlength
      exact List.cons_prefix_cons.2 ⟨rfl, h.longest other htail ⟨others, hothers, by omega⟩⟩

/-- A file of texts that was cut reads as the texts whose records are whole. -/
theorem longestFitting_texts {names : List String} {written : Bytes}
    (hwritten : putTexts names = .ok written) (file : String) (k : Nat) :
    LongestFitting names k (Reader.texts ⟨file, written.take k⟩).1 := by
  induction names generalizing written k with
  | nil =>
    cases hwritten
    rw [List.take_nil]
    exact ⟨List.prefix_refl _, ⟨[], rfl, Nat.zero_le _⟩, fun other hother _ => hother⟩
  | cons s names ih =>
    obtain ⟨record, others, hrecord, hothers, rfl⟩ := putTexts_cons hwritten
    rcases Nat.lt_or_ge k record.length with hk | hk
    · -- the cut is in the first record, so there is none in front
      have hnone : (Reader.texts ⟨file, (record ++ others).take k⟩).1 = [] := by
        rw [List.take_append_of_le_length (Nat.le_of_lt hk)]
        exact Reader.texts_eq_iff.2 ⟨[], record.take k, rfl, rfl, not_startsRecord_take hrecord hk⟩
      rw [hnone]
      exact longestFitting_nil hrecord hk
    · have hcut : (record ++ others).take k = record ++ others.take (k - record.length) := by
        rw [List.take_append, List.take_of_length_le hk]
      rw [hcut, Reader.texts_cons hrecord]
      exact (ih hothers _).cons hrecord hk

/-- **Octets are read as their longest beginning of whole records.** The reading of any octets comes
to an end. It answers the only texts whose records stand in front of the octets with nothing behind
them that begins with a complete record. Texts that fit a record can be written, and what was
written, cut anywhere, reads as the texts whose records fit into what is there; so a record that was
cut costs no text but its own. -/
theorem texts_whole_records (file : String) :
    (∀ bytes names left, Reader.Scans ⟨file, bytes⟩ names left ↔
        Reader.texts ⟨file, bytes⟩ = (names, left)) ∧
      (∀ bytes names, (Reader.texts ⟨file, bytes⟩).1 = names ↔
        ∃ written rest, putTexts names = .ok written ∧ bytes = written ++ rest ∧
          ¬ StartsRecord rest) ∧
      ∀ names : List String, (∀ s ∈ names, Utf8.size s ≤ maxText) →
        ∃ written, putTexts names = .ok written ∧
          (∀ k, LongestFitting names k (Reader.texts ⟨file, written.take k⟩).1) ∧
          ∀ s record k, putText s = .ok record → k < record.length →
            (Reader.texts ⟨file, written ++ record.take k⟩).1 = names := by
  refine ⟨fun _ _ _ => Reader.scans_iff, fun _ _ => Reader.texts_eq_iff, fun names hnames => ?_⟩
  obtain ⟨written, hwritten⟩ := exists_putTexts_iff.2 hnames
  refine ⟨written, hwritten, longestFitting_texts hwritten file, ?_⟩
  intro s record k hrecord hk
  exact Reader.texts_eq_iff.2
    ⟨written, record.take k, hwritten, rfl, not_startsRecord_take hrecord hk⟩

/-- A file of three texts that was cut inside the last character of the second one. -/
theorem texts_whole_records_cut :
    (∀ s ∈ ["app", "caf\u00e9", ""], Utf8.size s ≤ maxText) ∧
      ∃ written, putTexts ["app", "caf\u00e9", ""] = .ok written ∧
        LongestFitting ["app", "caf\u00e9", ""] 11 ["app"] ∧
        (Reader.texts ⟨"processed", written.take 11⟩).1 = ["app"] := by
  have hnames : ∀ s ∈ ["app", "caf\u00e9", ""], Utf8.size s ≤ maxText := by decide +kernel
  refine ⟨hnames, ?_⟩
  obtain ⟨written, hwritten, hcut, -⟩ := (texts_whole_records "processed").2.2 _ hnames
  have hread : (Reader.texts ⟨"processed", written.take 11⟩).1 = ["app"] := by
    have hvalue : putTexts ["app", "caf\u00e9", ""] = .ok
        [0, 3, 97, 112, 112, 0, 5, 99, 97, 102, 195, 169, 0, 0] := by rfl
    obtain rfl : [0, 3, 97, 112, 112, 0, 5, 99, 97, 102, 195, 169, 0, 0] = written :=
      Except.ok.inj (hvalue.symm.trans hwritten)
    decide +kernel
  exact ⟨written, hwritten, hread ▸ hcut 11, hread⟩

end Record

end Holdfast
