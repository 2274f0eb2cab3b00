import Holdfast.Proofs.Record.Texts
import Holdfast.Record.Field

/-!
# Fields read back

Each read is told from the octets that are left. Either the octets of a field of the asked kind
stand in front, or some part of it is missing or is no text. What a read that fails has used up
decides what every later read sees, so it is part of the telling.

- `Record.Field.octets`: the octets of a field;
- `Record.Reader.Answers`: what one read answers and leaves; `Reader.field_eq_iff`: **a read does
  this and nothing else**;
- `Record.fields_read_back`: **reading undoes writing, whatever follows**, with the same for rows of
  reads over any octets.
-/

namespace Holdfast.Record

/-! ## Writing -/

namespace Field

/-- A field has a form in records. -/
def Fits : Field → Prop
  | .int32 i => Holdfast.Fits 4 i
  | .int64 i => Holdfast.Fits 8 i
  | .text s => Utf8.size s ≤ maxText

instance (f : Field) : Decidable f.Fits :=
  match f with
  | .int32 i => inferInstanceAs (Decidable (Holdfast.Fits 4 i))
  | .int64 i => inferInstanceAs (Decidable (Holdfast.Fits 8 i))
  | .text s => inferInstanceAs (Decidable (Utf8.size s ≤ maxText))

/-- The octets of a field: a word with the most significant octet first, or a text behind its
length. -/
def octets : Field → Bytes
  | .int32 i => beBytes 4 (wordOfInt 4 i)
  | .int64 i => beBytes 8 (wordOfInt 8 i)
  | .text s => beBytes 2 (Utf8.size s) ++ Utf8.encode s

end Field

/-- A text has its form as soon as it is short enough, and else it has none. -/
theorem putText_eq (s : String) :
    putText s =
      if Utf8.size s ≤ maxText then .ok (Field.text s).octets
      else .error (.textTooLong (Utf8.size s)) := rfl

theorem putText_of_size {s : String} (h : Utf8.size s ≤ maxText) :
    putText s = .ok (Field.text s).octets := by
  rw [putText_eq, if_pos h]

theorem put_text (buffer : Bytes) (s : String) :
    put buffer (.text s) =
      if Utf8.size s ≤ maxText then (.ok (), buffer ++ (Field.text s).octets)
      else (.error (.textTooLong (Utf8.size s)), buffer) := by
  rw [put, putText_eq]
  by_cases h : Utf8.size s ≤ maxText
  · rw [if_pos h, if_pos h]
  · rw [if_neg h, if_neg h]

/-- A field that fits is added to the buffer. -/
theorem put_of_fits {f : Field} (h : f.Fits) (buffer : Bytes) :
    put buffer f = (.ok (), buffer ++ f.octets) := by
  cases f with
  | int32 i => rfl
  | int64 i => rfl
  | text s => rw [put, putText_of_size h]

theorem putAll_of_fits {fields : List Field} (h : ∀ f ∈ fields, f.Fits) (buffer : Bytes) :
    putAll buffer fields = (.ok (), buffer ++ fields.flatMap Field.octets) := by
  induction fields generalizing buffer with
  | nil => rw [putAll, List.flatMap_nil, List.append_nil]
  | cons f fields ih =>
    obtain ⟨hf, hfields⟩ := List.forall_mem_cons.1 h
    rw [putAll, put_of_fits hf]
    simp only
    rw [ih hfields, List.flatMap_cons, List.append_assoc]

/-! ## One read -/

namespace Reader

/-- What one read answers, and the reader that it leaves. -/
inductive Answers (r : Reader) : Field.Kind → Except Fault Field → Reader → Prop where
  /-- The octets of the answer stand in front, and those are used up. -/
  | value {f : Field} {rest : Bytes} :
    f.Fits → r.rest = f.octets ++ rest → Answers r f.kind (.ok f) { r with rest }
  | cutInt32 : r.rest.length < 4 →
    Answers r .int32 (.error (.corrupt r.file (.truncated .int32 4 r.rest.length))) r
  | cutInt64 : r.rest.length < 8 →
    Answers r .int64 (.error (.corrupt r.file (.truncated .int64 8 r.rest.length))) r
  | cutLength : r.rest.length < 2 →
    Answers r .text (.error (.corrupt r.file (.truncated .textLength 2 r.rest.length))) r
  /-- The length of a text is used up although its octets are not all there. -/
  | cutBody {word rest : Bytes} :
    word.length = 2 → r.rest = word ++ rest → rest.length < beNat word →
    Answers r .text (.error (.corrupt r.file (.truncated .textBody (beNat word) rest.length)))
      { r with rest }
  /-- All of a record is used up although its octets are those of no text. -/
  | badText {word body rest : Bytes} {defect : Utf8.Defect} :
    word.length = 2 → r.rest = word ++ (body ++ rest) → body.length = beNat word →
    ¬ body.toByteArray.IsValidUTF8 → Utf8.decode body = .error defect →
    Answers r .text (.error (.corrupt r.file (.badText defect))) { r with rest }

/-- Octets of a part are missing exactly if there are too few, and then none is used up. -/
theorem take_eq_error_iff {r r' : Reader} {part : RecordPart} {n : Nat} {e : Fault} :
    r.take part n = (.error e, r') ↔
      r.rest.length < n ∧ e = .corrupt r.file (.truncated part n r.rest.length) ∧ r' = r := by
  unfold Reader.take
  split
  · rename_i hshort
    simp only [Prod.mk.injEq, Except.error.injEq, hshort, true_and, fault]
    exact ⟨fun h => ⟨h.1.symm, h.2.symm⟩, fun h => ⟨h.1.symm, h.2.symm⟩⟩
  · rename_i hlong
    simp [hlong]

/-- Octets that are refused are those of no text. -/
theorem not_isValidUTF8_of_error {body : Bytes} {defect : Utf8.Defect}
    (h : Utf8.decode body = .error defect) : ¬ body.toByteArray.IsValidUTF8 := by
  rw [Utf8.isValidUTF8_iff]
  rintro ⟨s, rfl⟩
  rw [Utf8.decode_encode] at h
  cases h

theorem int32_eq_error_iff {r r' : Reader} {e : Fault} :
    r.int32 = (.error e, r') ↔
      r.rest.length < 4 ∧ e = .corrupt r.file (.truncated .int32 4 r.rest.length) ∧ r' = r := by
  rw [← take_eq_error_iff]
  constructor
  · intro h
    unfold Reader.int32 at h
    split at h
    · cases h
    · rename_i htake
      cases h
      exact htake
  · intro h
    rw [Reader.int32, h]

theorem int64_eq_error_iff {r r' : Reader} {e : Fault} :
    r.int64 = (.error e, r') ↔
      r.rest.length < 8 ∧ e = .corrupt r.file (.truncated .int64 8 r.rest.length) ∧ r' = r := by
  rw [← take_eq_error_iff]
  constructor
  · intro h
    unfold Reader.int64 at h
    split at h
    · cases h
    · rename_i htake
      cases h
      exact htake
  · intro h
    rw [Reader.int64, h]

/-- What one read does is one of its answers. -/
theorem answers_field (r : Reader) (kind : Field.Kind) :
    Answers r kind (r.field kind).1 (r.field kind).2 := by
  obtain ⟨file, bytes⟩ := r
  cases kind with
  | int32 =>
    rw [Reader.field]
    rcases hread : Reader.int32 ⟨file, bytes⟩ with ⟨_ | i, r'⟩
    · obtain ⟨hshort, rfl, rfl⟩ := int32_eq_error_iff.1 hread
      exact .cutInt32 hshort
    · obtain ⟨hfits, rfl, hrest⟩ := int32_eq_ok_iff.1 hread
      exact .value (f := .int32 i) hfits hrest
  | int64 =>
    rw [Reader.field]
    rcases hread : Reader.int64 ⟨file, bytes⟩ with ⟨_ | i, r'⟩
    · obtain ⟨hshort, rfl, rfl⟩ := int64_eq_error_iff.1 hread
      exact .cutInt64 hshort
    · obtain ⟨hfits, rfl, hrest⟩ := int64_eq_ok_iff.1 hread
      exact .value (f := .int64 i) hfits hrest
  | text =>
    rw [Reader.field]
    rcases hread : Reader.text ⟨file, bytes⟩ with ⟨_ | s, r'⟩
    · unfold Reader.text at hread
      split at hread
      · rename_i htake
        cases hread
        obtain ⟨hshort, rfl, rfl⟩ := take_eq_error_iff.1 htake
        exact .cutLength hshort
      · rename_i word r₁ hword
        obtain ⟨hlength, rfl, hbytes⟩ := take_eq_ok_iff.1 hword
        split at hread
        · rename_i htake
          cases hread
          obtain ⟨hshort, rfl, rfl⟩ := take_eq_error_iff.1 htake
          exact .cutBody hlength hbytes hshort
        · rename_i body r₂ hbody
          obtain ⟨hcount, hfile, hrest⟩ := take_eq_ok_iff.1 hbody
          split at hread
          · cases hread
          · rename_i defect hdecode
            obtain ⟨file₂, rest⟩ := r₂
            obtain rfl : file₂ = r₁.file := hfile
            cases hread
            rw [hrest] at hbytes
            exact .badText hlength hbytes hcount (not_isValidUTF8_of_error hdecode) hdecode
    · obtain ⟨record, hrecord, rfl, hrest⟩ := text_eq_ok_iff.1 hread
      obtain ⟨hshort, rfl⟩ := putText_eq_ok hrecord
      exact .value (f := .text s) hshort hrest

/-- A field that fits is read back, and what follows it is left. -/
theorem field_octets {f : Field} (h : f.Fits) (file : String) (rest : Bytes) :
    Reader.field ⟨file, f.octets ++ rest⟩ f.kind = (.ok f, ⟨file, rest⟩) := by
  cases f with
  | int32 i =>
    have hread : Reader.int32 ⟨file, (Field.int32 i).octets ++ rest⟩ = (.ok i, ⟨file, rest⟩) :=
      int32_eq_ok_iff.2 ⟨h, rfl, rfl⟩
    rw [Field.kind, Reader.field, hread]
    rfl
  | int64 i =>
    have hread : Reader.int64 ⟨file, (Field.int64 i).octets ++ rest⟩ = (.ok i, ⟨file, rest⟩) :=
      int64_eq_ok_iff.2 ⟨h, rfl, rfl⟩
    rw [Field.kind, Reader.field, hread]
    rfl
  | text s =>
    rw [Field.kind, Reader.field, text_putText (putText_of_size h)]
    rfl

theorem Answers.field_eq {r r' : Reader} {kind : Field.Kind} {answer : Except Fault Field}
    (h : Answers r kind answer r') : r.field kind = (answer, r') := by
  obtain ⟨file, bytes⟩ := r
  cases h with
  | @value f rest hfits hrest =>
    obtain rfl : bytes = f.octets ++ rest := hrest
    exact field_octets hfits file rest
  | cutInt32 hshort =>
    rw [Reader.field, int32_eq_error_iff.2 ⟨hshort, rfl, rfl⟩]
    rfl
  | cutInt64 hshort =>
    rw [Reader.field, int64_eq_error_iff.2 ⟨hshort, rfl, rfl⟩]
    rfl
  | cutLength hshort =>
    have hword : Reader.take ⟨file, bytes⟩ .textLength 2 = _ :=
      take_eq_error_iff.2 ⟨hshort, rfl, rfl⟩
    rw [Reader.field, Reader.text, hword]
    rfl
  | @cutBody word rest hlength hrest hshort =>
    obtain rfl : bytes = word ++ rest := hrest
    have hword : Reader.take ⟨file, word ++ rest⟩ .textLength 2 = (.ok word, ⟨file, rest⟩) :=
      take_eq_ok_iff.2 ⟨hlength, rfl, rfl⟩
    have hbody : Reader.take ⟨file, rest⟩ .textBody (beNat word) = _ :=
      take_eq_error_iff.2 ⟨hshort, rfl, rfl⟩
    rw [Reader.field, Reader.text, hword]
    simp only [hbody]
    rfl
  | @badText word body rest defect hlength hrest hcount _ hdecode =>
    obtain rfl : bytes = word ++ (body ++ rest) := hrest
    have hword : Reader.take ⟨file, word ++ (body ++ rest)⟩ .textLength 2 =
        (.ok word, ⟨file, body ++ rest⟩) := take_eq_ok_iff.2 ⟨hlength, rfl, rfl⟩
    have hbody : Reader.take ⟨file, body ++ rest⟩ .textBody (beNat word) =
        (.ok body, ⟨file, rest⟩) := take_eq_ok_iff.2 ⟨hcount, rfl, rfl⟩
    rw [Reader.field, Reader.text, hword]
    simp only [hbody, hdecode]
    rfl

/-- **What one read does**: the answers above and nothing else. -/
theorem field_eq_iff {r r' : Reader} {kind : Field.Kind} {answer : Except Fault Field} :
    r.field kind = (answer, r') ↔ Answers r kind answer r' := by
  constructor
  · intro h
    have hanswers := r.answers_field kind
    rw [h] at hanswers
    exact hanswers
  · exact Answers.field_eq

/-! ## Rows of reads -/

/-- What a row of reads answers, one after the other. -/
inductive AnswersAll : Reader → List Field.Kind → List (Except Fault Field) → Reader → Prop where
  | nil (r : Reader) : AnswersAll r [] [] r
  | cons {r r' r'' : Reader} {kind : Field.Kind} {kinds : List Field.Kind}
    {answer : Except Fault Field} {answers : List (Except Fault Field)} :
    Answers r kind answer r' → AnswersAll r' kinds answers r'' →
    AnswersAll r (kind :: kinds) (answer :: answers) r''

/-- **What a row of reads does.** -/
theorem fields_eq_iff {r r' : Reader} {kinds : List Field.Kind}
    {answers : List (Except Fault Field)} :
    r.fields kinds = (answers, r') ↔ AnswersAll r kinds answers r' := by
  constructor
  · intro h
    induction kinds generalizing r answers with
    | nil =>
      cases h
      exact .nil _
    | cons kind kinds ih =>
      cases h
      exact .cons (answers_field _ kind) (ih rfl)
  · intro h
    induction h with
    | nil => rfl
    | cons hanswer _ ih =>
      rw [Reader.fields, hanswer.field_eq]
      simp only
      rw [ih]

/-- A read that fails blames the reader's file, and no read renames it. -/
theorem Answers.blames {r r' : Reader} {kind : Field.Kind} {answer : Except Fault Field}
    (h : Answers r kind answer r') :
    r'.file = r.file ∧ ∀ e, answer = .error e → ∃ defect, e = .corrupt r.file defect := by
  cases h with
  | value => exact ⟨rfl, fun e he => nomatch he⟩
  | _ => exact ⟨rfl, fun e he => ⟨_, (Except.error.inj he).symm⟩⟩

theorem AnswersAll.blames {r r' : Reader} {kinds : List Field.Kind}
    {answers : List (Except Fault Field)} (h : AnswersAll r kinds answers r') {e : Fault}
    (he : .error e ∈ answers) : ∃ defect, e = .corrupt r.file defect := by
  induction h with
  | nil => cases he
  | cons hanswer _ ih =>
    obtain ⟨hfile, hblames⟩ := hanswer.blames
    rcases List.mem_cons.1 he with heq | hmem
    · exact hblames e heq.symm
    · rw [← hfile]
      exact ih hmem

/-- Fields that fit are read back one after the other, and what follows them is left. -/
theorem fields_octets {fields : List Field} (h : ∀ f ∈ fields, f.Fits) (file : String)
    (rest : Bytes) :
    Reader.fields ⟨file, fields.flatMap Field.octets ++ rest⟩ (fields.map Field.kind) =
      (fields.map .ok, ⟨file, rest⟩) := by
  induction fields with
  | nil => rfl
  | cons f fields ih =>
    obtain ⟨hf, hfields⟩ := List.forall_mem_cons.1 h
    rw [List.map_cons, Reader.fields, List.flatMap_cons, List.append_assoc, field_octets hf]
    simp only
    rw [ih hfields]
    rfl

end Reader

/-- **Reading undoes writing, and a read that fails uses up a known part.** Fields that fit are
written as their octets, and read back from them whatever follows. Over any octets, a row of reads
answers one of `Answers` for each, and whatever fails blames the file. Only a text above the
greatest length is refused by a buffer, which then stays as it was. -/
theorem fields_read_back (file : String) :
    (∀ fields : List Field, (∀ f ∈ fields, f.Fits) →
      (∀ buffer, putAll buffer fields = (.ok (), buffer ++ fields.flatMap Field.octets)) ∧
      ∀ rest, Reader.fields ⟨file, fields.flatMap Field.octets ++ rest⟩ (fields.map Field.kind) =
        (fields.map .ok, ⟨file, rest⟩)) ∧
    (∀ bytes kinds answers left, Reader.fields ⟨file, bytes⟩ kinds = (answers, left) ↔
      Reader.AnswersAll ⟨file, bytes⟩ kinds answers left) ∧
    (∀ bytes kinds e, .error e ∈ (Reader.fields ⟨file, bytes⟩ kinds).1 →
      ∃ defect, e = .corrupt file defect) ∧
    ∀ buffer s, put buffer (.text s) =
      if maxText < Utf8.size s then (.error (.textTooLong (Utf8.size s)), buffer)
      else (.ok (), buffer ++ (Field.text s).octets) := by
  refine ⟨fun fields hfits => ⟨putAll_of_fits hfits, Reader.fields_octets hfits file⟩,
    fun bytes kinds answers left => Reader.fields_eq_iff, ?_, ?_⟩
  · intro bytes kinds e he
    exact (Reader.fields_eq_iff.1 rfl).blames he
  · intro buffer s
    rw [put_text]
    by_cases hlong : maxText < Utf8.size s
    · rw [if_pos hlong, if_neg (Nat.not_le_of_lt hlong)]
    · rw [if_neg hlong, if_pos (Nat.le_of_not_lt hlong)]

/-- Three fields with an octet behind them. -/
theorem fields_read_back_three :
    (∀ f ∈ [Field.int32 (-2), .text "caf\u00e9", .int64 258], f.Fits) ∧
      putAll [7] [.int32 (-2), .text "caf\u00e9", .int64 258] =
        (.ok (), [7, 255, 255, 255, 254, 0, 5, 99, 97, 102, 195, 169, 0, 0, 0, 0, 0, 0, 1, 2]) ∧
      Reader.fields
          ⟨"state", [255, 255, 255, 254, 0, 5, 99, 97, 102, 195, 169, 0, 0, 0, 0, 0, 0, 1, 2, 9]⟩
          [.int32, .text, .int64] =
        ([.ok (.int32 (-2)), .ok (.text "caf\u00e9"), .ok (.int64 258)], ⟨"state", [9]⟩) := by
  have hfits : ∀ f ∈ [Field.int32 (-2), .text "caf\u00e9", .int64 258], f.Fits := by
    decide +kernel
  have hoctets : [Field.int32 (-2), .text "caf\u00e9", .int64 258].flatMap Field.octets =
      [255, 255, 255, 254, 0, 5, 99, 97, 102, 195, 169, 0, 0, 0, 0, 0, 0, 1, 2] := by
    decide +kernel
  obtain ⟨hput, hread⟩ := (fields_read_back "state").1 _ hfits
  refine ⟨hfits, ?_, ?_⟩
  · rw [hput [7], hoctets]
    rfl
  · have hread := hread [9]
    rw [hoctets] at hread
    exact hread

end Holdfast.Record
