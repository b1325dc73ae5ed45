import Taskman.Installer.Payload
import Taskman.Numeric.Ranges

/-!
# What the payload reader accepts

`Archive.parse` takes the bytes of an executable that anybody may have written.

* `Archive.WellFormed` : the archives it accepts;
* `parse_eq_ok_iff` : **the files it accepts**, each with the archive it finds in them;
* `parse_total` : it never slices out of range, overflows or fails to convert;
* `parse_safe` : **a parsed payload is safe**: ranges lie inside the blobs, two of them never
  overlap, names are flat, and no entry read later indexes outside the data.
-/

namespace Taskman.Payload

open Checked

variable {crates : Crates}

/-! ### Names -/

/-- A flat file name: no separator, no drive marker, no parent directory. -/
structure FlatName (name : Text) : Prop where
  ne_nil : name ≠ []
  utf8Len_le : Text.utf8Len name ≤ 128
  slash : '/' ∉ name
  backslash : '\\' ∉ name
  colon : ':' ∉ name
  dots : ¬ ['.', '.'] <:+: name
  dot : name.head? ≠ some '.'
  trimmed : Text.trim name = name

theorem validateName_eq_ok_iff {name : Text} {u : Unit} :
    validateName crates name = .ok u ↔ FlatName name := by
  unfold validateName
  split_ifs with h
  · refine iff_of_false nofun fun hf => ?_
    rcases h with h | h | h | h | h | h | h | h
    · exact hf.ne_nil (List.isEmpty_iff.mp h)
    · exact absurd hf.utf8Len_le (not_le_of_gt h)
    · exact hf.slash h
    · exact hf.backslash h
    · exact hf.colon h
    · exact hf.dots h
    · exact hf.dot h
    · exact h hf.trimmed
  · simp only [not_or, not_lt, not_not, List.isEmpty_iff] at h
    obtain ⟨h₁, h₂, h₃, h₄, h₅, h₆, h₇, h₈⟩ := h
    exact iff_of_true rfl ⟨h₁, h₂, h₃, h₄, h₅, h₆, h₇, h₈⟩

/-! ### The footer -/

/-- **The footer the reader accepts is the one the writer writes**, after at least as many bytes
as the manifest has. -/
theorem readFooter_eq_ok_iff {data : Bytes} (hdata : data.length < u64Bound) {r : ℕ × ℕ} :
    readFooter data = .ok r ↔
      ∃ front : Bytes, data = front ++ (Bytes.toLe 8 r.2 ++ magicBytes) ∧ r.1 = front.length ∧
        2 ≤ r.2 ∧ r.2 ≤ r.1 ∧ r.2 < 256 ^ 8 := by
  simp only [readFooter, bind_eq_ok, ensure_eq_ok, sub_eq_ok, add_eq_ok, slice_eq_ok,
    array_eq_ok, Bytes.slice?_eq_some_iff_append]
  constructor
  · rintro ⟨_, hlen, _, ⟨_, rfl⟩, _, ⟨_, rfl⟩, _, ⟨_, rfl⟩, _, ⟨front, rest, hdata₁, hfront, _⟩,
      len, ⟨hlen₈, rfl⟩, _, ⟨front', rest', hdata₂, hfront', _⟩, mag, ⟨hmag₈, rfl⟩, _, hmag, _,
      ⟨h₂, hle⟩, hr⟩
    cases hr
    -- the two slices are neighbours, and nothing is left behind the second
    have hsplit : front ++ len = front' ∧ rest = mag ++ rest' := by
      refine List.append_inj (by rw [← hdata₁, hdata₂, List.append_assoc]) ?_
      rw [List.length_append]
      omega
    have hrest' : rest' = [] := by
      have h := congrArg List.length hdata₂
      simp only [List.length_append] at h
      simp only [footerLen] at *
      exact List.length_eq_zero_iff.mp (by omega)
    have hlenBytes : Bytes.toLe 8 len.ofLe = len := by rw [← hlen₈, Bytes.toLe_ofLe]
    have hmagBytes : mag = magicBytes := (Bytes.ofLe_inj hmag₈).mp hmag
    have hlt := Bytes.ofLe_lt len
    rw [hlen₈] at hlt
    refine ⟨front, ?_, hfront.symm, h₂, hle, hlt⟩
    rw [hlenBytes, hdata₁, hsplit.2, hrest', hmagBytes, List.append_nil, List.append_assoc]
  · rcases r with ⟨footerAt, manifestLen⟩
    rintro ⟨front, rfl, rfl, h₂, hle, hlt⟩
    have hlen₈ : (Bytes.toLe 8 manifestLen).length = 8 := Bytes.length_toLe 8 manifestLen
    have hlen : (front ++ (Bytes.toLe 8 manifestLen ++ magicBytes)).length = front.length + 16 := by
      rw [List.length_append, List.length_append, hlen₈]
      rfl
    rw [hlen] at hdata ⊢
    have hofLe : (Bytes.toLe 8 manifestLen).ofLe = manifestLen := Bytes.ofLe_toLe_of_lt hlt
    refine ⟨(), Nat.le_add_left .., front.length, ⟨Nat.le_add_left .., rfl⟩, _,
      ⟨by omega, rfl⟩, _, ⟨hdata, rfl⟩, Bytes.toLe 8 manifestLen,
      ⟨front, magicBytes, (List.append_assoc ..).symm, rfl, by rw [hlen₈]⟩, _, ⟨hlen₈, rfl⟩,
      magicBytes, ⟨front ++ Bytes.toLe 8 manifestLen, [], ?_, ?_, rfl⟩, _, ⟨rfl, rfl⟩, (), rfl, (),
      ?_, ?_⟩
    · rw [List.append_nil, List.append_assoc]
    · rw [List.length_append, hlen₈]
    · rw [hofLe]
      exact ⟨h₂, hle⟩
    · rw [hofLe]

/-! ### The manifest -/

theorem readManifest_eq_ok_iff {json : Bytes} {manifest : Manifest} :
    readManifest crates json = .ok manifest ↔
      crates.manifestFromSlice json = .ok manifest ∧ manifest.version = formatVersion ∧
        manifest.entries ≠ [] := by
  simp only [readManifest, bind_eq_ok, ensure_eq_ok, ofExcept_eq_ok]
  constructor
  · rintro ⟨m, hm, _, hv, _, he, hr⟩
    cases hr
    cases hjson : crates.manifestFromSlice json with
    | error e =>
      rw [hjson] at hm
      cases hm
    | ok m' =>
      rw [hjson] at hm
      cases hm
      exact ⟨rfl, hv, he⟩
  · rintro ⟨hm, hv, he⟩
    exact ⟨manifest, by rw [hm]; rfl, (), hv, (), he, rfl⟩

/-- The end of an entry's range, as a number. -/
def Entry.stop (e : Entry) : ℕ := e.offset.toNat + e.compressed.toNat

theorem entryEnd_eq_ok_iff {e : Entry} {stop : ℕ} :
    entryEnd e = .ok stop ↔ e.stop < u64Bound ∧ stop = e.stop := by
  unfold entryEnd checkedAdd Entry.stop
  split_ifs with h
  · exact ⟨fun he => by cases he; exact ⟨h, rfl⟩, fun he => by rw [he.2]⟩
  · exact iff_of_false nofun fun he => h he.1

/-- What the reader asks of one entry. -/
structure Entry.WellFormed (e : Entry) : Prop where
  name : FlatName e.name
  uncompressed_ne : e.uncompressed ≠ 0
  compressed_ne : e.compressed ≠ 0

theorem Entry.WellFormed.offset_lt_stop {e : Entry} (h : e.WellFormed) :
    e.offset.toNat < e.stop := by
  have hne : e.compressed.toNat ≠ 0 := fun h0 => h.compressed_ne (UInt64.toNat_inj.mp h0)
  unfold Entry.stop
  omega

/-- **The furthest end** of the ranges, of well-formed entries only. -/
theorem blobLenFrom_eq_ok_iff {entries : List Entry} {n blobLen : ℕ} :
    blobLenFrom crates entries n = .ok blobLen ↔
      (∀ e ∈ entries, e.WellFormed ∧ e.stop < u64Bound) ∧
        blobLen = (entries.map Entry.stop).foldl max n := by
  induction entries generalizing n with
  | nil =>
    rw [blobLenFrom]
    constructor
    · intro h
      cases h
      exact ⟨nofun, rfl⟩
    · rintro ⟨_, rfl⟩
      rfl
  | cons e entries ih =>
    simp only [blobLenFrom, bind_eq_ok, ensure_eq_ok, ofExcept_eq_ok, entryEnd_eq_ok_iff,
      validateName_eq_ok_iff, ih, List.forall_mem_cons, List.map_cons, List.foldl_cons]
    constructor
    · rintro ⟨_, hname, _, ⟨hu, hc⟩, _, ⟨hstop, rfl⟩, hall, rfl⟩
      exact ⟨⟨⟨⟨hname, hu, hc⟩, hstop⟩, hall⟩, rfl⟩
    · rintro ⟨⟨⟨⟨hname, hu, hc⟩, hstop⟩, hall⟩, rfl⟩
      exact ⟨(), hname, (), ⟨hu, hc⟩, e.stop, ⟨hstop, rfl⟩, hall, rfl⟩

/-! ### Disjoint ranges -/

/-- The range of an entry, whose end is a `u64`. -/
def Entry.range (e : Entry) : Range := (e.offset.toNat, e.stop, e.name)

theorem rangeOf_eq {e : Entry} (h : e.stop < u64Bound) : rangeOf e = .ok e.range := by
  have hadd : (add u64Bound e.offset.toNat e.compressed.toNat : Checked TmError ℕ) = .ok e.stop :=
    add_eq_ok.mpr ⟨h, rfl⟩
  rw [rangeOf, hadd]
  rfl

theorem mapM_rangeOf {entries : List Entry} (h : ∀ e ∈ entries, e.stop < u64Bound) :
    entries.mapM rangeOf = .ok (entries.map Entry.range) :=
  mapM_eq_ok_of fun e he => rangeOf_eq (h e he)

/-- The order of tuples is the lexicographic one. -/
def rangeCompare : Range → Range → Ordering :=
  compareLex (compareOn fun r => r.1)
    (compareLex (compareOn fun r => r.2.1) (compareOn fun r => r.2.2))

theorem rangeLe_eq (a b : Range) : rangeLe a b = (rangeCompare a b).isLE := rfl

instance : Std.TransCmp rangeCompare := by
  unfold rangeCompare
  infer_instance

theorem rangeLe_trans {a b c : Range} (hab : rangeLe a b) (hbc : rangeLe b c) : rangeLe a c := by
  rw [rangeLe_eq] at hab hbc ⊢
  exact Std.TransCmp.isLE_trans hab hbc

theorem rangeLe_total (a b : Range) : (rangeLe a b || rangeLe b a) = true := by
  have hswap : rangeCompare a b = (rangeCompare b a).swap := Std.OrientedCmp.eq_swap
  rw [rangeLe_eq, rangeLe_eq, hswap]
  cases rangeCompare b a <;> rfl

theorem rangeLe_start {a b : Range} (h : rangeLe a b) : a.1 ≤ b.1 := by
  have hle : (compare a.1 b.1).isLE = true := (Ordering.isLE_then_iff_and.mp h).1
  exact Nat.isLE_compare.mp hle

theorem pairwise_mergeSort_rangeLe (ranges : List Range) :
    (ranges.mergeSort rangeLe).Pairwise fun a b => a.1 ≤ b.1 := by
  have htrans : ∀ a b c : Range, rangeLe a b → rangeLe b c → rangeLe a c :=
    fun _ _ _ => rangeLe_trans
  have h := List.pairwise_mergeSort htrans rangeLe_total ranges
  exact h.imp rangeLe_start

theorem checkNeighbours_eq_ok_iff {ranges : List Range} {u : Unit} :
    checkNeighbours ranges = .ok u ↔ ranges.IsChain fun a b => a.2.1 ≤ b.1 := by
  induction ranges with
  | nil => exact iff_of_true rfl .nil
  | cons a ranges ih =>
    cases ranges with
    | nil => exact iff_of_true rfl (.singleton a)
    | cons b ranges =>
      simp only [checkNeighbours, bind_eq_ok, ensure_eq_ok, ih, List.isChain_cons_cons]
      exact ⟨fun ⟨_, h⟩ => h, fun h => ⟨(), h⟩⟩

/-- Two entries whose ranges do not overlap. -/
def Entry.Apart : Entry → Entry → Prop := Ranges.Apart (fun e => e.offset.toNat) Entry.stop

instance : DecidableRel Entry.Apart := fun a b =>
  inferInstanceAs (Decidable (a.stop ≤ b.offset.toNat ∨ b.stop ≤ a.offset.toNat))

/-- **The neighbours of the sorted ranges are enough**: the check passes just if any two entries
are apart. -/
theorem checkNeighbours_mergeSort_eq_ok_iff {entries : List Entry} {u : Unit}
    (hentries : ∀ e ∈ entries, e.WellFormed) :
    checkNeighbours ((entries.map Entry.range).mergeSort rangeLe) = .ok u ↔
      entries.Pairwise Entry.Apart := by
  have hlt : ∀ r ∈ entries.map Entry.range, r.1 < r.2.1 := by
    intro r hr
    obtain ⟨e, he, rfl⟩ := List.mem_map.mp hr
    exact (hentries e he).offset_lt_stop
  have hsorted := pairwise_mergeSort_rangeLe (entries.map Entry.range)
  rw [checkNeighbours_eq_ok_iff,
    Ranges.isChain_iff_pairwise_apart (List.mergeSort_perm _ _) hlt hsorted, List.pairwise_map]
  exact Iff.rfl

/-! ### Accepted files -/

/-- The archives the reader accepts. -/
structure Archive.WellFormed (archive : Archive) : Prop where
  version : archive.manifest.version = formatVersion
  entries_ne_nil : archive.manifest.entries ≠ []
  entries : ∀ e ∈ archive.manifest.entries, e.WellFormed
  /-- The blobs end where the last of the ranges ends. -/
  blobs_length : archive.blobs.length = (archive.manifest.entries.map Entry.stop).foldl max 0
  apart : archive.manifest.entries.Pairwise Entry.Apart

theorem Archive.WellFormed.stop_le {archive : Archive} (h : archive.WellFormed) {e : Entry}
    (he : e ∈ archive.manifest.entries) : e.stop ≤ archive.blobs.length := by
  rw [h.blobs_length]
  exact Ranges.le_foldl_max (List.mem_map_of_mem he) 0

/-- **The files the reader accepts**: anything, then the blobs, a manifest and the footer. -/
theorem parse_eq_ok_iff {data : ByteVec} {archive : Archive} :
    parse crates data = .ok archive ↔
      ∃ front json : Bytes,
        data.bytes = front ++ archive.blobs ++ json ++ (Bytes.toLe 8 json.length ++ magicBytes) ∧
        2 ≤ json.length ∧ crates.manifestFromSlice json = .ok archive.manifest ∧
        archive.WellFormed := by
  have hdata : data.bytes.length < u64Bound := data.length_lt.trans (by norm_num)
  simp only [parse, bind_eq_ok, ensure_eq_ok, sub_eq_ok, slice_eq_ok,
    readFooter_eq_ok_iff hdata, readManifest_eq_ok_iff, blobLenFrom_eq_ok_iff,
    Bytes.slice?_eq_some_iff_append]
  constructor
  · rintro ⟨⟨footerAt, manifestLen⟩, ⟨front, hfooter, hfront, h₂, hle, hlt⟩, manifestStart,
      ⟨_, hstart⟩, json, ⟨xs, zs, hjson, hxs, hzs⟩, manifest, ⟨hman, hver, hne⟩, blobLen,
      ⟨hentries, hblob⟩, _, hfit, blobStart, ⟨_, hbs⟩, ranges, hranges, _, hcheck, blobs,
      ⟨ys, ws, hblobs, hys, hws⟩, hr⟩
    cases hr
    -- the manifest lies before the footer, and the blobs before the manifest
    have hxs' : xs ++ json = front ∧ zs = Bytes.toLe 8 manifestLen ++ magicBytes := by
      refine List.append_inj (hjson.symm.trans hfooter) ?_
      rw [List.length_append]
      omega
    have hys' : ys ++ blobs = xs := by
      refine List.append_inj_left (hblobs.symm.trans (hjson.trans (List.append_assoc ..))) ?_
      rw [List.length_append]
      omega
    have hlen : json.length = manifestLen := by omega
    rw [mapM_rangeOf fun e he => (hentries e he).2] at hranges
    cases hranges
    have hwf : ∀ e ∈ manifest.entries, e.WellFormed := fun e he => (hentries e he).1
    refine ⟨ys, json, ?_, by omega, hman, hver, hne, hwf, ?_, ?_⟩
    · rw [hjson, hxs'.2, hlen, hys']
    · show blobs.length = (manifest.entries.map Entry.stop).foldl max 0
      omega
    · exact (checkNeighbours_mergeSort_eq_ok_iff hwf).mp hcheck
  · rintro ⟨front, json, hbytes, h₂, hman, hwf⟩
    have hlen := congrArg List.length hbytes
    simp only [List.length_append, Bytes.length_toLe] at hlen
    have hjson : json.length < 256 ^ 8 := by
      have hbound : u64Bound = 256 ^ 8 := by norm_num
      omega
    have hstop : ∀ e ∈ archive.manifest.entries, e.stop < u64Bound := fun e he => by
      have := hwf.stop_le he
      omega
    refine ⟨(front.length + archive.blobs.length + json.length, json.length),
      ⟨front ++ archive.blobs ++ json, hbytes, by simp [Nat.add_assoc], h₂, by simp, hjson⟩,
      front.length + archive.blobs.length, ⟨by simp, by simp⟩, json,
      ⟨front ++ archive.blobs, _, hbytes, by simp, rfl⟩, archive.manifest,
      ⟨hman, hwf.version, hwf.entries_ne_nil⟩, archive.blobs.length,
      ⟨fun e he => ⟨hwf.entries e he, hstop e he⟩, hwf.blobs_length⟩, (), by simp,
      front.length, ⟨by simp, by simp⟩, _, mapM_rangeOf hstop, (),
      (checkNeighbours_mergeSort_eq_ok_iff hwf.entries).mpr hwf.apart, archive.blobs,
      ⟨front, json ++ (Bytes.toLe 8 json.length ++ magicBytes), ?_, rfl, rfl⟩, rfl⟩
    rw [hbytes, List.append_assoc]

/-- What lies before the footer and what the footer covers are determined by the bytes. -/
theorem footer_inj {front front' json json' : Bytes} (hlen : json.length < 256 ^ 8)
    (hlen' : json'.length < 256 ^ 8)
    (h : front ++ json ++ (Bytes.toLe 8 json.length ++ magicBytes) =
      front' ++ json' ++ (Bytes.toLe 8 json'.length ++ magicBytes)) :
    front = front' ∧ json = json' := by
  obtain ⟨hfront, hfooter⟩ := List.append_inj' h (by simp only [List.length_append,
    Bytes.length_toLe])
  have hlens : Bytes.toLe 8 json.length = Bytes.toLe 8 json'.length :=
    List.append_cancel_right hfooter
  have hjson : json.length = json'.length := by
    rw [← Bytes.ofLe_toLe_of_lt hlen, hlens, Bytes.ofLe_toLe_of_lt hlen']
  exact List.append_inj' hfront hjson

/-! ### No panic -/

theorem total_readFooter {data : Bytes} (hdata : data.length < u64Bound) :
    Total (readFooter data) := by
  refine (total_ensure _ _).bind fun _ hlen => ?_
  have hlen : 16 ≤ data.length := ensure_eq_ok.mp hlen
  refine (total_sub hlen).bind fun footerAt hfooter => ?_
  have hat : footerAt = data.length - 16 := (sub_eq_ok.mp hfooter).2
  refine (total_add (by omega)).bind fun magicAt hmagic => ?_
  refine (total_add (by omega)).bind fun footerEnd hend => ?_
  obtain ⟨_, rfl⟩ := add_eq_ok.mp hmagic
  obtain ⟨_, rfl⟩ := add_eq_ok.mp hend
  refine (total_slice (by omega) (by omega)).bind fun len hlen' => ?_
  refine (total_array ?_).bind fun _ _ => ?_
  · have := Bytes.length_of_slice?_eq_some (slice_eq_ok.mp hlen')
    omega
  refine (total_slice (by omega) (by omega)).bind fun mag hmag => ?_
  refine (total_array ?_).bind fun _ _ => ?_
  · have := Bytes.length_of_slice?_eq_some (slice_eq_ok.mp hmag)
    omega
  refine (total_ensure _ _).bind fun _ _ => ?_
  exact (total_ensure _ _).bind fun _ _ => total_ok _

theorem total_readManifest (json : Bytes) : Total (readManifest crates json) := by
  refine (total_ofExcept _).bind fun manifest _ => ?_
  refine (total_ensure _ _).bind fun _ _ => ?_
  exact (total_ensure _ _).bind fun _ _ => total_ok manifest

theorem total_blobLenFrom (entries : List Entry) (n : ℕ) :
    Total (blobLenFrom crates entries n) := by
  induction entries generalizing n with
  | nil => exact total_ok n
  | cons e entries ih =>
    refine (total_ofExcept _).bind fun _ _ => ?_
    refine (total_ensure _ _).bind fun _ _ => ?_
    exact (total_ofExcept _).bind fun stop _ => ih (max n stop)

theorem total_checkNeighbours (ranges : List Range) : Total (checkNeighbours ranges) := by
  induction ranges with
  | nil => exact total_ok ()
  | cons a ranges ih =>
    cases ranges with
    | nil => exact total_ok ()
    | cons b ranges => exact (total_ensure _ _).bind fun _ _ => ih

/-- **The reader does not panic**, whatever the bytes are. -/
theorem parse_total (data : ByteVec) : Total (parse crates data) := by
  have hdata : data.bytes.length < u64Bound := data.length_lt.trans (by norm_num)
  refine (total_readFooter hdata).bind fun ⟨footerAt, manifestLen⟩ hfooter => ?_
  obtain ⟨front, hbytes, hat, -, hle, -⟩ := (readFooter_eq_ok_iff hdata).mp hfooter
  have hlen : footerAt ≤ data.bytes.length := by
    rw [hbytes, List.length_append]
    exact hat.le.trans (Nat.le_add_right ..)
  refine (total_sub hle).bind fun manifestStart hstart => ?_
  obtain ⟨-, rfl⟩ := sub_eq_ok.mp hstart
  refine (total_slice (Nat.sub_le ..) hlen).bind fun json _ => ?_
  refine (total_readManifest json).bind fun manifest _ => ?_
  refine (total_blobLenFrom _ 0).bind fun blobLen hblob => ?_
  have hentries := (blobLenFrom_eq_ok_iff.mp hblob).1
  refine (total_ensure _ _).bind fun _ hfit => ?_
  refine (total_sub (ensure_eq_ok.mp hfit)).bind fun blobStart hbs => ?_
  obtain ⟨-, rfl⟩ := sub_eq_ok.mp hbs
  -- the end of a range was checked to be a `u64`
  rw [mapM_rangeOf fun e he => (hentries e he).2, bind_ok]
  refine (total_checkNeighbours _).bind fun _ _ => ?_
  exact (total_slice (Nat.sub_le ..) ((Nat.sub_le ..).trans hlen)).bind fun _ _ => total_ok _

/-! ### Reading entries -/

theorem readEntry_eq_ok_iff {archive : Archive} {e : Entry} {out : Bytes} :
    readEntry crates archive e = .ok out ↔
      e.stop < u64Bound ∧ ∃ stream, archive.blobs.slice? e.offset.toNat e.stop = some stream ∧
        inflateBounded crates stream e.name e.uncompressed = .ok out ∧
        hexSha256 crates out = e.sha256 := by
  simp only [readEntry, bind_eq_ok, add_eq_ok]
  constructor
  · rintro ⟨_, ⟨hstop, rfl⟩, h⟩
    cases hslice : archive.blobs.slice? e.offset.toNat e.stop with
    | none =>
      rw [Entry.stop] at hslice
      rw [hslice] at h
      cases h
    | some stream =>
      rw [Entry.stop] at hslice
      rw [hslice] at h
      simp only [bind_eq_ok, ofExcept_eq_ok, ensure_eq_ok] at h
      obtain ⟨_, hinflate, _, hsha, hr⟩ := h
      cases hr
      exact ⟨hstop, stream, rfl, hinflate, hsha⟩
  · rintro ⟨hstop, stream, hslice, hinflate, hsha⟩
    rw [Entry.stop] at hslice
    refine ⟨_, ⟨hstop, rfl⟩, ?_⟩
    simp only [hslice, bind_eq_ok, ofExcept_eq_ok, ensure_eq_ok]
    exact ⟨out, hinflate, (), hsha, rfl⟩

theorem total_readEntry {archive : Archive} {e : Entry} (h : e.stop < u64Bound) :
    Total (readEntry crates archive e) := by
  refine (total_add h).bind fun stop _ => ?_
  cases archive.blobs.slice? e.offset.toNat stop with
  | none => exact total_error _
  | some stream =>
    refine (total_ofExcept _).bind fun out _ => ?_
    exact (total_ensure _ _).bind fun _ _ => total_ok out

/-- Reading an entry that is not one of the manifest may overflow, but it never slices outside
the blobs. -/
theorem readEntry_ne_slice (archive : Archive) (e : Entry) :
    readEntry crates archive e ≠ .error (.panic .slice) := by
  by_cases h : e.stop < u64Bound
  · exact total_readEntry h .slice
  · have hadd : (add u64Bound e.offset.toNat e.compressed.toNat : Checked TmError ℕ) =
        .error (.panic .overflow) := if_neg h
    rw [readEntry, hadd]
    exact nofun

theorem total_verifyAll {archive : Archive}
    (h : ∀ e ∈ archive.manifest.entries, e.stop < u64Bound) : Total (verifyAll crates archive) :=
  (total_mapM fun e he => total_readEntry (h e he)).bind fun _ _ => total_ok _

/-- **A parsed payload is safe.**  Parsing does not panic.  If it succeeds then the range of every
entry lies inside the blobs, two ranges never overlap, every name is flat, reading an entry of
the manifest neither panics nor misses the blobs, and reading any entry stays inside them. -/
theorem parse_safe (crates : Crates) (data : ByteVec) :
    Total (parse crates data) ∧ ∀ archive, parse crates data = .ok archive →
      (∀ e ∈ archive.manifest.entries, e.stop ≤ archive.blobs.length ∧ FlatName e.name ∧
        Total (readEntry crates archive e) ∧
        ∃ stream, archive.blobs.slice? e.offset.toNat e.stop = some stream) ∧
      archive.manifest.entries.Pairwise Entry.Apart ∧
      ∀ e, readEntry crates archive e ≠ .error (.panic .slice) := by
  refine ⟨parse_total data, fun archive h => ?_⟩
  obtain ⟨front, json, hbytes, -, -, hwf⟩ := parse_eq_ok_iff.mp h
  refine ⟨fun e he => ?_, hwf.apart, readEntry_ne_slice archive⟩
  have hstop := hwf.stop_le he
  have hlen : archive.blobs.length < u64Bound := by
    have hbytes' := congrArg List.length hbytes
    simp only [List.length_append] at hbytes'
    have hdata : data.bytes.length < u64Bound := data.length_lt.trans (by norm_num)
    omega
  refine ⟨hstop, (hwf.entries e he).name, total_readEntry (hstop.trans_lt hlen), ?_⟩
  exact ⟨_, Bytes.slice?_eq_some_iff.mpr ⟨Nat.le_add_right .., hstop, rfl⟩⟩

end Taskman.Payload
