import Holdfast.Datasets
import Holdfast.Proofs.Disk.Files
import Holdfast.Proofs.Record

/-!
# The record of dataset tokens, written and read

A record has one written form, and a file is read as a record exactly if a form of the record
stands at its beginning. Reading is all or nothing: there is no way to read a part.

- `Datasets.Storable`: the records that have a written form;
- `Datasets.Form`: the octets that are read as a record, among them the written form. They may
  list a package twice or out of order, and any negative number stands for unknown packages;
- `Datasets.decode_eq_ok_iff`: **a file is read as a record exactly if a form of it stands in
  front**;
- `Datasets.prefixFree_form`: no form stands in front of another;
- `Datasets.record_round_trip`: what is written is loaded, and damaged files load as the empty
  record.
-/

namespace Holdfast

namespace NameSet

@[simp] theorem ofList_toList (s : NameSet) : ofList s.toList = s :=
  ext fun _ => mem_ofList

/-- The increasing order of names. -/
def inOrder (a b : String) : Bool := decide (a ≤ b)

/-- However its members are listed, sorting them gives the listing of the set. -/
theorem sortBy_inOrder {s : NameSet} {listing : List String} (hnodup : listing.Nodup)
    (hmem : ∀ x, x ∈ listing ↔ x ∈ s) : sortBy inOrder listing = s.toList := by
  have hle : (sortBy inOrder listing).Pairwise (· ≤ ·) := by
    refine (pairwise_sortBy (fun a b => ?_) (fun a b c hab hbc => ?_) listing).imp
      fun h => of_decide_eq_true h
    · simpa [inOrder] using String.le_total a b
    · exact decide_eq_true (String.le_trans (of_decide_eq_true hab) (of_decide_eq_true hbc))
  have hne : (sortBy inOrder listing).Pairwise (· ≠ ·) :=
    (sortBy_perm inOrder listing).nodup_iff.2 hnodup
  refine eq_of_mem_iff ?_ s.sorted fun x => mem_sortBy.trans (hmem x)
  exact (hle.and hne).imp fun ⟨hle, hne⟩ => Std.lt_of_le_of_ne hle hne

theorem length_insertSorted_le (x : String) (ys : List String) :
    (insertSorted x ys).length ≤ ys.length + 1 := by
  induction ys with
  | nil => exact Nat.le_refl 1
  | cons y ys ih =>
    rw [insertSorted]
    split
    · exact Nat.le_refl _
    · split
      · exact Nat.le_succ _
      · exact Nat.succ_le_succ ih

theorem size_foldl_insert_le (xs : List String) (s : NameSet) :
    (xs.foldl insert s).size ≤ s.size + xs.length := by
  induction xs generalizing s with
  | nil => exact Nat.le_refl _
  | cons x xs ih =>
    have hinsert : (s.insert x).size ≤ s.size + 1 := length_insertSorted_le x s.toList
    have hrest := ih (s.insert x)
    rw [List.foldl_cons, List.length_cons]
    omega

theorem size_ofList_le (xs : List String) : (ofList xs).size ≤ xs.length := by
  have h := size_foldl_insert_le xs empty
  rwa [show empty.size = 0 from rfl, Nat.zero_add] at h

end NameSet

namespace Datasets

open Record

/-! ## Tokens -/

/-- The signed value that stands for a token. -/
def intOfToken (token : UInt64) : Int := intOfWord 8 token.toNat

theorem putToken_eq (token : UInt64) : putToken token = putInt64 (intOfToken token) := by
  rw [putToken, putInt64, intOfToken, wordOfInt_intOfWord token.toNat_lt]

theorem tokenOfInt_intOfToken (token : UInt64) : tokenOfInt (intOfToken token) = token := by
  rw [tokenOfInt, intOfToken, wordOfInt_intOfWord token.toNat_lt, UInt64.ofNat_toNat]

theorem putToken_tokenOfInt (i : Int) : putToken (tokenOfInt i) = putInt64 i := by
  rw [putToken, putInt64, tokenOfInt, UInt64.toNat_ofNat_of_lt' (wordOfInt_lt 8 i)]

/-- A token of any size is read back from its eight octets. -/
theorem int64_putToken (file : String) (token : UInt64) (rest : Bytes) :
    Reader.int64 ⟨file, putToken token ++ rest⟩ = (.ok (intOfToken token), ⟨file, rest⟩) := by
  rw [putToken_eq]
  exact Reader.int64_eq_ok_iff.2 ⟨fits_intOfWord 8 _ (by decide), rfl, rfl⟩

/-! ## Forms -/

/-- The records that can be written: unless the packages are unknown, there are fewer than
`2 ^ 31` of them with at most 65535 octets each. -/
def Storable (t : Datasets) : Prop :=
  ∀ names, t.packages = some names →
    names.size < Nat.pow 2 31 ∧ ∀ name ∈ names, Utf8.size name ≤ maxText

/-- The octets in front of the packages. -/
def header (ancestral current : UInt64) : Bytes :=
  putInt32 version ++ putToken ancestral ++ putToken current

/-- Octets are read as the packages of a record, all of them. -/
inductive Listed : Option NameSet → Bytes → Prop
  | unknown {count : Int} (hfits : Fits 4 count) (hneg : count < 0) : Listed none (putInt32 count)
  | known {names : List String} {texts : Bytes} (hfew : names.length < Nat.pow 2 31)
      (htexts : putTexts names = .ok texts) :
      Listed (some (NameSet.ofList names)) (putInt32 names.length ++ texts)

/-- Octets are read as a record, all of them. -/
def Form (t : Datasets) (form : Bytes) : Prop :=
  ∃ tail, Listed t.packages tail ∧ form = header t.ancestral t.current ++ tail

theorem readPackages_of_listed {packages : Option NameSet} {tail : Bytes}
    (h : Listed packages tail) (file : String) (extra : Bytes) :
    readPackages ⟨file, tail ++ extra⟩ = .ok packages := by
  cases h with
  | @unknown count hfits hneg =>
    have hcount : Reader.int32 ⟨file, putInt32 count ++ extra⟩ = (.ok count, ⟨file, extra⟩) :=
      Reader.int32_eq_ok_iff.2 ⟨hfits, rfl, rfl⟩
    simp only [readPackages, hcount, hneg, if_true]
  | @known names texts hfew htexts =>
    have hcount : Reader.int32 ⟨file, putInt32 names.length ++ (texts ++ extra)⟩ =
        (.ok (names.length : Int), ⟨file, texts ++ extra⟩) :=
      Reader.int32_eq_ok_iff.2 ⟨fits_count_iff.2 hfew, rfl, rfl⟩
    have hlist : Reader.textList ⟨file, texts ++ extra⟩ names.length = (.ok names, ⟨file, extra⟩) :=
      Reader.textList_eq_ok_iff.2 ⟨texts, htexts, rfl, rfl, rfl⟩
    have hpos : ¬ (names.length : Int) < 0 := by omega
    rw [List.append_assoc]
    simp only [readPackages, hcount, hpos, if_false, Int.toNat_natCast, hlist]

theorem listed_of_readPackages {file : String} {bytes : Bytes} {packages : Option NameSet}
    (h : readPackages ⟨file, bytes⟩ = .ok packages) :
    ∃ tail extra, Listed packages tail ∧ bytes = tail ++ extra := by
  unfold readPackages at h
  split at h
  · cases h
  · rename_i count r hcount
    obtain ⟨file', rest⟩ := r
    obtain ⟨hfits, -, rfl⟩ := Reader.int32_eq_ok_iff.1 hcount
    split at h
    · rename_i hneg
      cases h
      exact ⟨putInt32 count, rest, .unknown hfits hneg, rfl⟩
    · split at h
      · cases h
      · rename_i names r' hlist
        cases h
        obtain ⟨texts, htexts, hlength, -, rfl⟩ := Reader.textList_eq_ok_iff.1 hlist
        obtain rfl : count = names.length := by omega
        exact ⟨_, r'.rest, .known (fits_count_iff.1 hfits) htexts,
          (List.append_assoc _ _ _).symm⟩

/-- **A file is read as a record exactly if a form of the record stands in front.** -/
theorem decode_eq_ok_iff {bytes : Bytes} {file : String} {t : Datasets} :
    decode bytes file = .ok t ↔ ∃ form extra, Form t form ∧ bytes = form ++ extra := by
  constructor
  · intro h
    simp only [decode] at h
    split at h
    · cases h
    · rename_i found r₁ hversion
      obtain ⟨file₁, rest₁⟩ := r₁
      obtain ⟨-, -, rfl⟩ := Reader.int32_eq_ok_iff.1 hversion
      split at h
      · cases h
      · rename_i hfound
        split at h
        · cases h
        · rename_i ancestral r₂ hancestral
          obtain ⟨file₂, rest₂⟩ := r₂
          obtain ⟨-, -, rfl⟩ := Reader.int64_eq_ok_iff.1 hancestral
          split at h
          · cases h
          · rename_i current r₃ hcurrent
            obtain ⟨file₃, rest₃⟩ := r₃
            obtain ⟨-, -, rfl⟩ := Reader.int64_eq_ok_iff.1 hcurrent
            split at h
            · cases h
            · rename_i packages hpackages
              cases h
              obtain ⟨tail, extra, htail, rfl⟩ := listed_of_readPackages hpackages
              refine ⟨_, extra, ⟨tail, htail, rfl⟩, ?_⟩
              simp only [header, putToken_tokenOfInt, Decidable.not_not.1 hfound,
                List.append_assoc]
  · rintro ⟨form, extra, ⟨tail, htail, rfl⟩, rfl⟩
    have hversion : ∀ rest, Reader.int32 ⟨file, putInt32 version ++ rest⟩ =
        (.ok version, ⟨file, rest⟩) := fun rest =>
      Reader.int32_eq_ok_iff.2 ⟨by decide, rfl, rfl⟩
    simp only [decode, header, List.append_assoc, hversion, ne_eq, not_true_eq_false, if_false,
      int64_putToken, readPackages_of_listed htail, tokenOfInt_intOfToken]

theorem length_header (ancestral current : UInt64) : (header ancestral current).length = 20 := by
  simp [header, putInt32, putToken]

theorem Listed.unique {packages packages' : Option NameSet} {tail tail' extra extra' : Bytes}
    (h : Listed packages tail) (h' : Listed packages' tail')
    (heq : tail ++ extra = tail' ++ extra') : extra = extra' := by
  cases h with
  | unknown hfits hneg =>
    cases h' with
    | unknown hfits' hneg' => exact (Reader.putInt32_append_inj hfits hfits' heq).2
    | known hfew' htexts' =>
      rw [List.append_assoc] at heq
      have hcount := (Reader.putInt32_append_inj hfits (fits_count_iff.2 hfew') heq).1
      omega
  | known hfew htexts =>
    rw [List.append_assoc] at heq
    cases h' with
    | unknown hfits' hneg' =>
      have hcount := (Reader.putInt32_append_inj (fits_count_iff.2 hfew) hfits' heq).1
      omega
    | known hfew' htexts' =>
      rw [List.append_assoc] at heq
      obtain ⟨hcount, hrest⟩ :=
        Reader.putInt32_append_inj (fits_count_iff.2 hfew) (fits_count_iff.2 hfew') heq
      exact (Reader.putTexts_append_inj htexts htexts' (by omega) hrest).2

theorem prefixFree_form : PrefixFree fun form => ∃ t, Form t form := by
  rintro form form' extra extra' ⟨t, tail, htail, rfl⟩ ⟨t', tail', htail', rfl⟩ heq
  have hextra : extra = extra' := by
    rw [List.append_assoc, List.append_assoc] at heq
    have hlength := (length_header t.ancestral t.current).trans
      (length_header t'.ancestral t'.current).symm
    exact htail.unique htail' (List.append_inj heq hlength).2
  rw [hextra] at heq
  exact List.append_cancel_right heq

/-! ## Writing -/

/-- A record that can be written has a form. -/
theorem Storable.encode {t : Datasets} (h : t.Storable) :
    ∃ record, t.encode = .ok record ∧ Form t record ∧
      (t.packages = none → record = header t.ancestral t.current ++ putInt32 (-1)) ∧
      ∀ names, t.packages = some names → ∃ texts, putTexts names.toList = .ok texts ∧
        record = header t.ancestral t.current ++ putInt32 names.size ++ texts := by
  obtain ⟨ancestral, current, packages⟩ := t
  cases packages with
  | none =>
    refine ⟨header ancestral current ++ putInt32 (-1), rfl, ⟨_, .unknown (by decide) (by decide),
      rfl⟩, fun _ => rfl, nofun⟩
  | some names =>
    obtain ⟨hfew, hshort⟩ := h names rfl
    obtain ⟨texts, htexts⟩ := exists_putTexts_iff.2 hshort
    have hlisted : Listed (some names) (putInt32 names.size ++ texts) := by
      have hknown := Listed.known hfew htexts
      rwa [NameSet.ofList_toList] at hknown
    have hpackages : putPackages (some names) = .ok (putInt32 names.size ++ texts) := by
      rw [putPackages, if_pos hfew, htexts]
      rfl
    refine ⟨header ancestral current ++ (putInt32 names.size ++ texts), ?_, ⟨_, hlisted, rfl⟩,
      nofun, ?_⟩
    · rw [Datasets.encode, hpackages]
      rfl
    · intro names' hnames'
      cases hnames'
      exact ⟨texts, htexts, (List.append_assoc _ _ _).symm⟩

/-- What has a form can be written. -/
theorem Form.storable {t : Datasets} {form : Bytes} (h : Form t form) : t.Storable := by
  obtain ⟨tail, htail, -⟩ := h
  obtain ⟨ancestral, current, packages⟩ := t
  intro names hnames
  cases htail with
  | unknown => cases hnames
  | @known listed texts hfew htexts =>
    cases hnames
    refine ⟨Nat.lt_of_le_of_lt (NameSet.size_ofList_le listed) hfew, fun name hname => ?_⟩
    exact exists_putTexts_iff.1 ⟨texts, htexts⟩ name (NameSet.mem_ofList.1 hname)

/-! ## Files -/

/-- A file with these octets loads as a record. -/
def Loads (bytes : Bytes) (t : Datasets) : Prop :=
  ∀ (d : Disk) (path : Path), d.look path = .file bytes → load d path = t

theorem Form.loads {t : Datasets} {form : Bytes} (h : Form t form) (extra : Bytes) :
    Loads (form ++ extra) t := by
  intro d path hfile
  have hdecode : decode (form ++ extra) fileName = .ok t :=
    decode_eq_ok_iff.2 ⟨form, extra, h, rfl⟩
  simp only [load, Store.read_file hfile, hdecode]

/-- A file that does not begin with a form loads as the empty record. -/
theorem loads_empty {bytes : Bytes}
    (h : ∀ t form extra, Form t form → bytes ≠ form ++ extra) : Loads bytes {} := by
  intro d path hfile
  simp only [load, Store.read_file hfile]
  cases hdecode : decode bytes fileName with
  | error e => rfl
  | ok t =>
    obtain ⟨form, extra, hform, rfl⟩ := decode_eq_ok_iff.1 hdecode
    exact absurd rfl (h t form extra hform)

/-- Whatever is on the disk, what is loaded can be written. -/
theorem storable_load (d : Disk) (path : Path) : (load d path).Storable := by
  have hempty : Storable {} := fun names hnames => by cases hnames
  unfold load
  split
  · split
    · rename_i bytes _ t hdecode
      obtain ⟨form, extra, hform, -⟩ := decode_eq_ok_iff.1 hdecode
      exact hform.storable
    · exact hempty
  · exact hempty
  · exact hempty

/-- No part of a form is read. -/
theorem Form.loads_cut {t : Datasets} {form cut : Bytes} (h : Form t form) (hcut : cut <+: form)
    (hne : cut ≠ form) : Loads cut {} := by
  refine loads_empty fun t' form' extra hform' => ?_
  exact prefixFree_form.not_in_part ⟨t, h⟩ hcut hne ⟨t', hform'⟩ extra

theorem loads_foreign {found : Int} (hfits : Fits 4 found) (hfound : found ≠ version)
    (rest : Bytes) : Loads (putInt32 found ++ rest) {} := by
  refine loads_empty fun t form extra hform heq => hfound ?_
  obtain ⟨tail, -, rfl⟩ := hform
  rw [header, List.append_assoc, List.append_assoc, List.append_assoc] at heq
  exact (Reader.putInt32_append_inj hfits (by decide) heq).1

/-- A file with fewer packages than it announces loads as the empty record. -/
theorem loads_short {count : Nat} {rest : Bytes} (hcount : count < Nat.pow 2 31)
    (hshort : (textsOf rest).length < count) (ancestral current : UInt64) :
    Loads (header ancestral current ++ putInt32 count ++ rest) {} := by
  refine loads_empty fun t form extra hform heq => ?_
  obtain ⟨tail, htail, rfl⟩ := hform
  obtain ⟨ancestral', current', packages⟩ := t
  rw [List.append_assoc, List.append_assoc] at heq
  have hrest := (List.append_inj heq ((length_header _ _).trans (length_header _ _).symm)).2
  cases htail with
  | unknown hfits hneg =>
    have hcount' := (Reader.putInt32_append_inj (fits_count_iff.2 hcount) hfits hrest).1
    omega
  | known hfew htexts =>
    rw [List.append_assoc] at hrest
    obtain ⟨hcount', rfl⟩ :=
      Reader.putInt32_append_inj (fits_count_iff.2 hcount) (fits_count_iff.2 hfew) hrest
    rw [textsOf_putTexts htexts, List.length_append] at hshort
    omega

/-- **Records of tokens are kept.** A record that can be written is written in one way, whatever
the order in which its packages are listed; it is loaded after it was saved, also with octets
behind it, but no part of it is. Foreign versions and files with fewer packages than announced
load as the empty record. What is loaded from any file can be written, and loads as itself. -/
theorem record_round_trip :
    (∀ t : Datasets, t.Storable → ∃ record, t.encode = .ok record ∧
      (t.packages = none → record = header t.ancestral t.current ++ putInt32 (-1)) ∧
      (∀ (names : NameSet) (listing : List String), t.packages = some names → listing.Nodup →
        (∀ x, x ∈ listing ↔ x ∈ names) →
        ∃ texts, putTexts (sortBy NameSet.inOrder listing) = .ok texts ∧
          record = header t.ancestral t.current ++ putInt32 listing.length ++ texts) ∧
      (∀ (d : Disk) (path : Path), d.Replaceable path → ∃ d', t.save d path = (.ok (), d')) ∧
      (∀ (d d' : Disk) (path : Path), t.save d path = (.ok (), d') → load d' path = t) ∧
      (∀ extra, Loads (record ++ extra) t) ∧
      (∀ cut, cut <+: record → cut ≠ record → Loads cut {})) ∧
    (∀ found rest, Fits 4 found → found ≠ version → Loads (putInt32 found ++ rest) {}) ∧
    (∀ ancestral current (count : Nat) rest, count < Nat.pow 2 31 → (textsOf rest).length < count →
      Loads (header ancestral current ++ putInt32 count ++ rest) {}) ∧
    (∀ (d : Disk) (path : Path), ∃ record,
      (load d path).encode = .ok record ∧ Loads record (load d path)) := by
  refine ⟨fun t ht => ?_, ?_, ?_, fun d path => ?_⟩
  · obtain ⟨record, hrecord, hform, hnone, hsome⟩ := ht.encode
    refine ⟨record, hrecord, hnone, ?_, ?_, ?_, hform.loads, ?_⟩
    · intro names listing hnames hnodup hmem
      obtain ⟨texts, htexts, hlayout⟩ := hsome names hnames
      have hsort := NameSet.sortBy_inOrder hnodup hmem
      have hlength : listing.length = names.size := by
        rw [← (sortBy_perm NameSet.inOrder listing).length_eq, hsort]
        rfl
      exact ⟨texts, hsort ▸ htexts, hlength ▸ hlayout⟩
    · intro d path hplace
      rw [save, hrecord]
      exact Store.replace_of_replaceable hplace record
    · intro d d' path hsave
      rw [save] at hsave
      obtain ⟨stored, hstored, hfile⟩ := Store.replace_ok hsave
      obtain rfl : record = stored := Except.ok.inj (hrecord.symm.trans hstored)
      rw [← List.append_nil record] at hfile
      exact hform.loads [] d' path hfile
    · intro cut hcut hne
      exact hform.loads_cut hcut hne
  · intro found rest hfits hfound
    exact loads_foreign hfits hfound rest
  · intro ancestral current count rest hcount hshort
    exact loads_short hcount hshort ancestral current
  · obtain ⟨record, hrecord, hform, -⟩ := (storable_load d path).encode
    have hloads := hform.loads []
    rw [List.append_nil] at hloads
    exact ⟨record, hrecord, hloads⟩

/-- A device restored from the dataset with the highest token. -/
def restored : Datasets := ⟨18446744073709551615, 5, some (NameSet.ofList ["com.y", "com.x"])⟩

theorem storable_restored : restored.Storable := by
  intro names hnames
  cases hnames
  exact ⟨by decide, by decide⟩

theorem record_round_trip_restored :
    restored.Storable ∧ ∃ record, restored.encode = .ok record ∧ Loads record restored ∧
      Loads (record.take 23) {} := by
  refine ⟨storable_restored, ?_⟩
  obtain ⟨record, hrecord, -, hlayout, -, -, hloads, hcut⟩ :=
    record_round_trip.1 restored storable_restored
  refine ⟨record, hrecord, ?_, hcut _ (List.take_prefix 23 record) ?_⟩
  · have hwhole := hloads []
    rwa [List.append_nil] at hwhole
  · obtain ⟨texts, -, rfl⟩ := hlayout _ ["com.y", "com.x"] rfl (by decide)
      (fun x => NameSet.mem_ofList.symm)
    intro heq
    have hlength := congrArg List.length heq
    simp only [List.length_take, List.length_append, length_header, putInt32, length_beBytes]
      at hlength
    omega

end Datasets

end Holdfast
