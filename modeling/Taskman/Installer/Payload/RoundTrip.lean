import Taskman.Binary.Codec
import Taskman.Installer.Payload.Reader

/-!
# The payload writer against the reader

`build_payload` lays out the compressed files from the start of the blob region, and `parse` finds
that region from the end of an executable of any length.

* `Crates.Lawful` : what is taken for granted of the deflate and JSON code;
* `buildPayload_eq_ok_iff` : what the writer accepts, and the bytes it produces;
* `parse_buildPayload` : **the round trip** of non-empty files;
* `parse_buildPayload_iff` : **the reader opens what the writer built just if** there is a file and
  no file is empty: these two checks the writer does not make.
-/

namespace Taskman.Payload

open Checked

variable {crates : Crates}

/-- Deflate and JSON can be read back. -/
structure Crates.Lawful (crates : Crates) : Prop where
  inflate_deflate : ∀ data limit, crates.inflate (crates.deflate data) limit =
    .ok (data.take limit)
  /-- A deflate stream has at least one block. -/
  deflate_ne_nil : ∀ data, crates.deflate data ≠ []
  manifestFromSlice_toVec : ∀ manifest,
    crates.manifestFromSlice (crates.manifestToVec manifest) = .ok manifest
  /-- A JSON object has two brackets. -/
  two_le_length_manifestToVec : ∀ manifest, 2 ≤ (crates.manifestToVec manifest).length

/-! ### Crates for small files

The deflate streams, digests and manifests of a few files are the real ones; anything else is
written in some way that can be read back. -/

/-- The contents `A`. -/
def letterA : ByteVec := ⟨[0x41], by decide⟩

/-- The contents `B`. -/
def letterB : ByteVec := ⟨[0x42], by decide⟩

/-- No contents. -/
def noLetter : ByteVec := ⟨[], by decide⟩

/-- The digest of `A`. -/
def digestOfA : Bytes :=
  [0x55, 0x9a, 0xea, 0xd0, 0x82, 0x64, 0xd5, 0x79, 0x5d, 0x39, 0x09, 0x71, 0x8c, 0xdd, 0x05,
    0xab, 0xd4, 0x95, 0x72, 0xe8, 0x4f, 0xe5, 0x55, 0x90, 0xee, 0xf3, 0x1a, 0x88, 0xa0, 0x8f,
    0xdf, 0xfd]

/-- The digest of `B`. -/
def digestOfB : Bytes :=
  [0xdf, 0x7e, 0x70, 0xe5, 0x02, 0x15, 0x44, 0xf4, 0x83, 0x4b, 0xbe, 0xe6, 0x4a, 0x9e, 0x37,
    0x89, 0xfe, 0xbc, 0x4b, 0xe8, 0x14, 0x70, 0xdf, 0x62, 0x9c, 0xad, 0x6d, 0xdb, 0x03, 0x32,
    0x0a, 0x5c]

/-- The digest of no contents. -/
def digestOfNothing : Bytes :=
  [0xe3, 0xb0, 0xc4, 0x42, 0x98, 0xfc, 0x1c, 0x14, 0x9a, 0xfb, 0xf4, 0xc8, 0x99, 0x6f, 0xb9,
   0x24, 0x27, 0xae, 0x41, 0xe4, 0x64, 0x9b, 0x93, 0x4c, 0xa4, 0x95, 0x99, 0x1b, 0x78, 0x52,
   0xb8, 0x55]

/-- The fields of an entry, as numbers. -/
def Entry.fields (e : Entry) : List ℕ × ℕ × ℕ × ℕ × List ℕ :=
  (e.name.map Char.toNat, e.offset.toNat, e.compressed.toNat, e.uncompressed.toNat,
    e.sha256.map Char.toNat)

/-- The entry with some fields. -/
def Entry.ofFields (f : List ℕ × ℕ × ℕ × ℕ × List ℕ) : Entry :=
  { name := f.1.map Char.ofNat
    offset := UInt64.ofNat f.2.1
    compressed := UInt64.ofNat f.2.2.1
    uncompressed := UInt64.ofNat f.2.2.2.1
    sha256 := f.2.2.2.2.map Char.ofNat }

theorem map_ofNat_toNat (t : Text) : (t.map Char.toNat).map Char.ofNat = t := by
  have h : Char.ofNat ∘ Char.toNat = id := by
    funext c
    exact Char.ofNat_toNat c
  rw [List.map_map, h, List.map_id]

theorem Entry.ofFields_fields (e : Entry) : Entry.ofFields e.fields = e := by
  rw [Entry.ofFields, Entry.fields, map_ofNat_toNat, map_ofNat_toNat]
  simp only [UInt64.ofNat_toNat]

instance : Encodable Entry :=
  Encodable.ofLeftInverse Entry.fields Entry.ofFields Entry.ofFields_fields

instance : Encodable Manifest :=
  Encodable.ofLeftInverse (fun m : Manifest => (m.version.toNat, m.entries))
    (fun p => { version := UInt32.ofNat p.1, entries := p.2 })
    (fun m => by rw [UInt32.ofNat_toNat])

/-- The entry of a file with a name of one letter. -/
def entryOf (name : Char) (offset compressed uncompressed : UInt64) (digest : Bytes) : Entry :=
  { name := [name], offset, compressed, uncompressed, sha256 := digest.flatMap hexByte }

/-- The manifest of the files `A` and `B`, with their names for contents. -/
def pairManifest : Manifest :=
  { version := 1, entries := [entryOf 'A' 0 3 1 digestOfA, entryOf 'B' 3 3 1 digestOfB] }

/-- The manifest of an empty file `A`. -/
def hollowManifest : Manifest := { version := 1, entries := [entryOf 'A' 0 2 0 digestOfNothing] }

/-- A manifest with two files `A`. -/
def twiceManifest : Manifest :=
  { version := 1, entries := [entryOf 'A' 0 3 1 digestOfA, entryOf 'A' 3 3 1 digestOfB] }

/-- `{"version":1,"entries":[` -/
def jsonStart : Bytes :=
  [0x7b, 0x22, 0x76, 0x65, 0x72, 0x73, 0x69, 0x6f, 0x6e, 0x22, 0x3a, 0x31, 0x2c, 0x22, 0x65,
   0x6e, 0x74, 0x72, 0x69, 0x65, 0x73, 0x22, 0x3a, 0x5b]

/-- `{"name":"` -/
def jsonName : Bytes := [0x7b, 0x22, 0x6e, 0x61, 0x6d, 0x65, 0x22, 0x3a, 0x22]

/-- `","offset":` -/
def jsonOffset : Bytes := [0x22, 0x2c, 0x22, 0x6f, 0x66, 0x66, 0x73, 0x65, 0x74, 0x22, 0x3a]

/-- `,"compressed":` -/
def jsonCompressed : Bytes :=
  [0x2c, 0x22, 0x63, 0x6f, 0x6d, 0x70, 0x72, 0x65, 0x73, 0x73, 0x65, 0x64, 0x22, 0x3a]

/-- `,"uncompressed":` -/
def jsonUncompressed : Bytes :=
  [0x2c, 0x22, 0x75, 0x6e, 0x63, 0x6f, 0x6d, 0x70, 0x72, 0x65, 0x73, 0x73, 0x65, 0x64, 0x22,
   0x3a]

/-- `,"sha256":"` -/
def jsonSha256 : Bytes :=
  [0x2c, 0x22, 0x73, 0x68, 0x61, 0x32, 0x35, 0x36, 0x22, 0x3a, 0x22]

/-- The entry of a file as JSON, with a name of one letter and numbers of one digit. -/
def jsonOf (name offset compressed uncompressed : UInt8) (digest : Bytes) : Bytes :=
  jsonName ++ [name] ++ jsonOffset ++ [offset] ++ jsonCompressed ++ [compressed] ++
    jsonUncompressed ++ [uncompressed] ++ jsonSha256 ++
    (digest.flatMap hexByte).map (fun c => UInt8.ofNat c.toNat) ++ [0x22, 0x7d]

/-- The manifest of `A` and `B`, as JSON. -/
def pairJson : Bytes :=
  jsonStart ++ jsonOf 0x41 0x30 0x33 0x31 digestOfA ++ [0x2c] ++
    jsonOf 0x42 0x33 0x33 0x31 digestOfB ++ [0x5d, 0x7d]

/-- The manifest of an empty `A`, as JSON. -/
def hollowJson : Bytes := jsonStart ++ jsonOf 0x41 0x30 0x32 0x30 digestOfNothing ++ [0x5d, 0x7d]

/-- The manifest of two files `A`, as JSON. -/
def twiceJson : Bytes :=
  jsonStart ++ jsonOf 0x41 0x30 0x33 0x31 digestOfA ++ [0x2c] ++
    jsonOf 0x41 0x33 0x33 0x31 digestOfB ++ [0x5d, 0x7d]

/-- The deflate streams of the three contents. -/
def deflateTable : List (Bytes × Bytes) :=
  [(letterA.bytes, [0x73, 0x04, 0x00]), (letterB.bytes, [0x73, 0x02, 0x00]),
   (noLetter.bytes, [0x03, 0x00])]

/-- The manifests of the sample files, as JSON. -/
def jsonTable : List (Manifest × Bytes) :=
  [(pairManifest, pairJson), (hollowManifest, hollowJson), (twiceManifest, twiceJson)]

theorem head?_deflateTable : ∀ p ∈ deflateTable, p.2.head? ≠ some 0x01 := by decide

theorem head?_jsonTable : ∀ p ∈ jsonTable, p.2.head? ≠ some 0x00 := by decide +kernel

/-- Deflate for small files. -/
def sampleDeflate : Codec Bytes :=
  (Codec.tagged 0x01).overridden deflateTable (by decide)
    fun p hp => Codec.encode_tagged_ne (head?_deflateTable p hp)

/-- JSON for their manifests. -/
def sampleJson : Codec Manifest :=
  (Codec.encodable 0x00).overridden jsonTable (by decide +kernel)
    fun p hp => Codec.encode_encodable_ne (head?_jsonTable p hp)

/-- The crates for small files. -/
def sampleCrates : Crates where
  deflate := sampleDeflate.encode
  inflate stream limit :=
    match sampleDeflate.decode stream with
    | some data => .ok (data.take limit)
    | none => .error "corrupt deflate stream".toList
  sha256 data :=
    if data = letterA.bytes then digestOfA
    else if data = letterB.bytes then digestOfB
    else if data = noLetter.bytes then digestOfNothing
    else []
  manifestToVec := sampleJson.encode
  manifestFromSlice json :=
    match sampleJson.decode json with
    | some manifest => .ok manifest
    | none => .error "expected value at line 1 column 1".toList
  debug name := ['"'] ++ name ++ ['"']

theorem sampleDeflate_ne_nil (data : Bytes) : sampleDeflate.encode data ≠ [] := by
  unfold sampleDeflate
  exact Codec.encode_overridden _ deflateTable (P := fun stream => stream ≠ []) (by decide)
    (fun _ => List.cons_ne_nil _ _) data

theorem two_le_length_sampleJson (manifest : Manifest) :
    2 ≤ (sampleJson.encode manifest).length := by
  unfold sampleJson
  exact Codec.encode_overridden _ jsonTable (P := fun json => 2 ≤ json.length)
    (by decide +kernel) (fun _ => Nat.le_add_left ..) manifest

theorem sampleCrates_lawful : sampleCrates.Lawful where
  inflate_deflate data limit := by
    simp only [sampleCrates, sampleDeflate.decode_encode]
  deflate_ne_nil := sampleDeflate_ne_nil
  manifestFromSlice_toVec manifest := by
    simp only [sampleCrates, sampleJson.decode_encode]
  two_le_length_manifestToVec := two_le_length_sampleJson

/-! ### What the writer writes -/

variable (crates) in
/-- The blob region of some files. -/
def blobsOf (files : List (Text × ByteVec)) : Bytes :=
  files.flatMap fun file => crates.deflate file.2.bytes

variable (crates) in
/-- The manifest entry of a file whose stream starts at `offset`. -/
def entryAt (offset : UInt64) (file : Text × ByteVec) : Entry :=
  { name := file.1
    offset
    compressed := UInt64.ofNat (crates.deflate file.2.bytes).length
    uncompressed := UInt64.ofNat file.2.bytes.length
    sha256 := hexSha256 crates file.2.bytes }

variable (crates) in
/-- The manifest entries of some files, the first of which is stored at `offset`. -/
def layoutFrom : UInt64 → List (Text × ByteVec) → List Entry
  | _, [] => []
  | offset, file :: files =>
    entryAt crates offset file ::
      layoutFrom (offset + UInt64.ofNat (crates.deflate file.2.bytes).length) files

variable (crates) in
/-- The archive of some files. -/
def archiveOf (files : List (Text × ByteVec)) : Archive :=
  { manifest := { version := formatVersion, entries := layoutFrom crates 0 files }
    blobs := blobsOf crates files }

variable (crates) in
/-- The manifest of some files, as the writer puts it into the payload. -/
def manifestOf (files : List (Text × ByteVec)) : Bytes :=
  crates.manifestToVec (archiveOf crates files).manifest

variable (crates) in
/-- The payload of some files. -/
def payloadOf (files : List (Text × ByteVec)) : Bytes :=
  blobsOf crates files ++ manifestOf crates files ++
    (Bytes.toLe 8 (manifestOf crates files).length ++ magicBytes)

/-- Two files, `A` and `B`, with their names for contents. -/
def pairFiles : List (Text × ByteVec) := [(['A'], letterA), (['B'], letterB)]

/-- What is built from them. -/
def pairPayload : ByteVec := ⟨payloadOf sampleCrates pairFiles, by decide +kernel⟩

/-- One file, `A`, without contents. -/
def hollowFiles : List (Text × ByteVec) := [(['A'], noLetter)]

/-- What is built from it. -/
def hollowPayload : ByteVec := ⟨payloadOf sampleCrates hollowFiles, by decide +kernel⟩

theorem blobsOf_cons (file : Text × ByteVec) (files : List (Text × ByteVec)) :
    blobsOf crates (file :: files) = crates.deflate file.2.bytes ++ blobsOf crates files := rfl

theorem map_name_layoutFrom (offset : UInt64) (files : List (Text × ByteVec)) :
    (layoutFrom crates offset files).map Entry.name = files.map Prod.fst := by
  induction files generalizing offset with
  | nil => rfl
  | cons file files ih => rw [layoutFrom, List.map_cons, List.map_cons, ih, entryAt]

/-- **The writer's loop** accepts flat names, each different from the ones before it. -/
theorem writeBlobsFrom_eq_ok_iff {files : List (Text × ByteVec)} {out : Bytes}
    {entries : List Entry} {offset : UInt64} {r : Bytes × List Entry} :
    writeBlobsFrom crates files out entries offset = .ok r ↔
      (∀ file ∈ files, FlatName file.1) ∧ (files.map Prod.fst).Nodup ∧
        (∀ file ∈ files, ∀ e ∈ entries, e.name ≠ file.1) ∧
        r = (out ++ blobsOf crates files, entries ++ layoutFrom crates offset files) := by
  induction files generalizing out entries offset with
  | nil =>
    rw [writeBlobsFrom, blobsOf, layoutFrom, List.flatMap_nil, List.append_nil, List.append_nil]
    constructor
    · intro h
      cases h
      exact ⟨nofun, List.nodup_nil, nofun, rfl⟩
    · rintro ⟨-, -, -, rfl⟩
      rfl
  | cons file files ih =>
    rcases file with ⟨name, data⟩
    simp only [writeBlobsFrom, bind_eq_ok, validateName_eq_ok_iff, List.map_cons, List.nodup_cons,
      List.forall_mem_cons]
    by_cases hdup : entries.any fun entry => entry.name = name
    · -- an entry of the name was written before
      rw [if_pos hdup]
      obtain ⟨e, he, hname⟩ := List.any_eq_true.mp hdup
      refine iff_of_false (fun ⟨_, _, h⟩ => nomatch h) fun ⟨_, _, ⟨hne, _⟩, _⟩ => ?_
      exact hne e he (of_decide_eq_true hname)
    · rw [if_neg hdup, ih]
      -- the entry of this file joins those the rest of the loop compares with
      have hfresh : ∀ e ∈ entries, e.name ≠ name := fun e he hname =>
        hdup (List.any_eq_true.mpr ⟨e, he, decide_eq_true hname⟩)
      rw [layoutFrom, blobsOf_cons]
      simp only [List.forall_mem_append, List.forall_mem_singleton, List.append_assoc,
        List.singleton_append]
      constructor
      · rintro ⟨_, hflat, hflats, hnodup, hnew, rfl⟩
        refine ⟨⟨hflat, hflats⟩, ⟨fun hmem => ?_, hnodup⟩,
          ⟨hfresh, fun file hf => (hnew file hf).1⟩, rfl⟩
        obtain ⟨file, hfile, hname⟩ := List.mem_map.mp hmem
        exact (hnew file hfile).2 hname.symm
      · rintro ⟨⟨hflat, hflats⟩, ⟨hmem, hnodup⟩, ⟨-, hold⟩, rfl⟩
        refine ⟨(), hflat, hflats, hnodup, fun file hfile =>
          ⟨hold file hfile, fun hname => ?_⟩, rfl⟩
        exact hmem (List.mem_map.mpr ⟨file, hfile, hname.symm⟩)

/-- **What the writer accepts**, and the bytes it produces. -/
theorem buildPayload_eq_ok_iff {files : List (Text × ByteVec)} {payload : Bytes} :
    buildPayload crates files = .ok payload ↔
      (∀ file ∈ files, FlatName file.1) ∧ (files.map Prod.fst).Nodup ∧
        payload = payloadOf crates files := by
  have hmagic : Bytes.toLe 8 magic = magicBytes := Bytes.toLe_ofLe magicBytes
  simp only [buildPayload, writeBlobs, bind_eq_ok, writeBlobsFrom_eq_ok_iff, hmagic]
  constructor
  · rintro ⟨_, ⟨_, ⟨hflat, hnodup, -, rfl⟩, hr⟩, hpayload⟩
    cases hr
    cases hpayload
    exact ⟨hflat, hnodup, List.append_assoc ..⟩
  · rintro ⟨hflat, hnodup, rfl⟩
    refine ⟨_, ⟨_, ⟨hflat, hnodup, nofun, rfl⟩, rfl⟩, ?_⟩
    exact congrArg Except.ok (List.append_assoc ..)

/-! ### The layout -/

theorem layoutFrom_ofNat_cons (n : ℕ) (file : Text × ByteVec) (files : List (Text × ByteVec)) :
    layoutFrom crates (UInt64.ofNat n) (file :: files) = entryAt crates (UInt64.ofNat n) file ::
      layoutFrom crates (UInt64.ofNat (n + (crates.deflate file.2.bytes).length)) files := by
  rw [layoutFrom, UInt64.ofNat_add]

theorem offset_entryAt {n : ℕ} (hn : n < u64Bound) (file : Text × ByteVec) :
    (entryAt crates (UInt64.ofNat n) file).offset.toNat = n := UInt64.toNat_ofNat_of_lt' hn

theorem stop_entryAt {n : ℕ} {file : Text × ByteVec}
    (h : n + (crates.deflate file.2.bytes).length < u64Bound) :
    (entryAt crates (UInt64.ofNat n) file).stop = n + (crates.deflate file.2.bytes).length := by
  have hcompressed : (entryAt crates (UInt64.ofNat n) file).compressed.toNat =
      (crates.deflate file.2.bytes).length :=
    UInt64.toNat_ofNat_of_lt' (lt_of_le_of_lt (Nat.le_add_left ..) h)
  rw [Entry.stop, offset_entryAt (lt_of_le_of_lt (Nat.le_add_right ..) h), hcompressed]

theorem uncompressed_entryAt (offset : UInt64) (file : Text × ByteVec) :
    (entryAt crates offset file).uncompressed.toNat = file.2.bytes.length :=
  UInt64.toNat_ofNat_of_lt' (file.2.length_lt.trans (by norm_num))

/-- An entry describes a file whose deflate stream lies in the blobs. -/
structure Stores (crates : Crates) (blobs : Bytes) (file : Text × ByteVec) (e : Entry) : Prop where
  name : e.name = file.1
  uncompressed : e.uncompressed.toNat = file.2.bytes.length
  sha256 : e.sha256 = hexSha256 crates file.2.bytes
  stream : blobs.slice? e.offset.toNat e.stop = some (crates.deflate file.2.bytes)

/-- **Every file is stored**, behind whatever was laid out before. -/
theorem layoutFrom_stores (front : Bytes) (files : List (Text × ByteVec))
    (hlen : front.length + (blobsOf crates files).length < u64Bound) :
    List.Forall₂ (Stores crates (front ++ blobsOf crates files)) files
      (layoutFrom crates (UInt64.ofNat front.length) files) := by
  induction files generalizing front with
  | nil => exact .nil
  | cons file files ih =>
    rw [blobsOf_cons, List.length_append, ← Nat.add_assoc] at hlen
    have hstop : front.length + (crates.deflate file.2.bytes).length < u64Bound :=
      lt_of_le_of_lt (Nat.le_add_right ..) hlen
    rw [layoutFrom_ofNat_cons, blobsOf_cons, ← List.append_assoc, ← List.length_append]
    refine .cons ⟨rfl, uncompressed_entryAt _ file, rfl, ?_⟩ ?_
    · rw [stop_entryAt hstop, offset_entryAt (lt_of_le_of_lt (Nat.le_add_right ..) hstop)]
      exact Bytes.slice?_append_append ..
    · exact ih (front ++ crates.deflate file.2.bytes) (by rwa [List.length_append])

theorem stores_archiveOf {files : List (Text × ByteVec)}
    (hlen : (blobsOf crates files).length < u64Bound) :
    List.Forall₂ (Stores crates (archiveOf crates files).blobs) files
      (archiveOf crates files).manifest.entries :=
  layoutFrom_stores [] files (by rwa [List.length_nil, Nat.zero_add])

/-- The ranges lie between the first offset and the end of the blobs. -/
theorem layoutFrom_bounds {n : ℕ} {files : List (Text × ByteVec)}
    (hlen : n + (blobsOf crates files).length < u64Bound) :
    ∀ e ∈ layoutFrom crates (UInt64.ofNat n) files,
      n ≤ e.offset.toNat ∧ e.stop ≤ n + (blobsOf crates files).length := by
  induction files generalizing n with
  | nil => exact nofun
  | cons file files ih =>
    rw [blobsOf_cons, List.length_append, ← Nat.add_assoc] at hlen ⊢
    rw [layoutFrom_ofNat_cons, List.forall_mem_cons, stop_entryAt (by omega),
      offset_entryAt (by omega)]
    refine ⟨⟨le_rfl, Nat.le_add_right ..⟩, fun e he => ?_⟩
    have htail := ih hlen e he
    exact ⟨(Nat.le_add_right ..).trans htail.1, htail.2⟩

/-- The last range ends where the blobs end. -/
theorem exists_stop_layoutFrom {n : ℕ} {files : List (Text × ByteVec)}
    (hlen : n + (blobsOf crates files).length < u64Bound) (hne : files ≠ []) :
    ∃ e ∈ layoutFrom crates (UInt64.ofNat n) files,
      e.stop = n + (blobsOf crates files).length := by
  induction files generalizing n with
  | nil => exact absurd rfl hne
  | cons file files ih =>
    rw [blobsOf_cons, List.length_append, ← Nat.add_assoc] at hlen ⊢
    rw [layoutFrom_ofNat_cons]
    by_cases hfiles : files = []
    · refine ⟨_, List.mem_cons_self, ?_⟩
      rw [stop_entryAt (by omega), hfiles]
      rfl
    · obtain ⟨e, he, hstop⟩ := ih hlen hfiles
      exact ⟨e, List.mem_cons_of_mem _ he, hstop⟩

/-- The ranges are apart: each starts where the one before it ends. -/
theorem layoutFrom_apart {n : ℕ} {files : List (Text × ByteVec)}
    (hlen : n + (blobsOf crates files).length < u64Bound) :
    (layoutFrom crates (UInt64.ofNat n) files).Pairwise Entry.Apart := by
  induction files generalizing n with
  | nil => exact .nil
  | cons file files ih =>
    rw [blobsOf_cons, List.length_append, ← Nat.add_assoc] at hlen
    rw [layoutFrom_ofNat_cons]
    refine .cons (fun e he => ?_) (ih hlen)
    have hoffset := (layoutFrom_bounds hlen e he).1
    exact Or.inl ((stop_entryAt (by omega)).trans_le hoffset)

theorem wellFormed_entryAt_iff (laws : crates.Lawful) {offset : UInt64} {file : Text × ByteVec}
    (hlen : (crates.deflate file.2.bytes).length < u64Bound) :
    (entryAt crates offset file).WellFormed ↔ FlatName file.1 ∧ file.2.bytes ≠ [] := by
  have hcompressed : (entryAt crates offset file).compressed ≠ 0 := by
    intro h
    have h' : (entryAt crates offset file).compressed.toNat = 0 := by rw [h]; rfl
    rw [entryAt, UInt64.toNat_ofNat_of_lt' hlen] at h'
    exact laws.deflate_ne_nil _ (List.length_eq_zero_iff.mp h')
  have huncompressed : (entryAt crates offset file).uncompressed ≠ 0 ↔ file.2.bytes ≠ [] := by
    rw [Ne, ← UInt64.toNat_inj, uncompressed_entryAt]
    exact List.length_eq_zero_iff.not
  constructor
  · exact fun h => ⟨h.name, huncompressed.mp h.uncompressed_ne⟩
  · exact fun h => ⟨h.1, huncompressed.mpr h.2, hcompressed⟩

theorem wellFormed_layoutFrom_iff (laws : crates.Lawful) {offset : UInt64}
    {files : List (Text × ByteVec)} (hlen : (blobsOf crates files).length < u64Bound) :
    (∀ e ∈ layoutFrom crates offset files, e.WellFormed) ↔
      ∀ file ∈ files, FlatName file.1 ∧ file.2.bytes ≠ [] := by
  induction files generalizing offset with
  | nil => exact iff_of_true nofun nofun
  | cons file files ih =>
    rw [blobsOf_cons, List.length_append] at hlen
    rw [layoutFrom, List.forall_mem_cons, List.forall_mem_cons, ih (by omega),
      wellFormed_entryAt_iff laws (by omega)]

/-- If the reader accepts the entries of some files then there is a file, and none is empty. -/
theorem contents_ne_nil (laws : crates.Lawful) {files : List (Text × ByteVec)}
    (hlen : (blobsOf crates files).length < u64Bound) (hne : layoutFrom crates 0 files ≠ [])
    (hentries : ∀ e ∈ layoutFrom crates 0 files, e.WellFormed) :
    files ≠ [] ∧ ∀ file ∈ files, file.2.bytes ≠ [] := by
  have hfiles := (wellFormed_layoutFrom_iff laws hlen).mp hentries
  refine ⟨?_, fun file hfile => (hfiles file hfile).2⟩
  rintro rfl
  exact hne rfl

/-- **The archive of some files is one the reader accepts** just if there is a file and no file
is empty. -/
theorem archiveOf_wellFormed_iff (laws : crates.Lawful) {files : List (Text × ByteVec)}
    (hflat : ∀ file ∈ files, FlatName file.1)
    (hlen : (blobsOf crates files).length < u64Bound) :
    (archiveOf crates files).WellFormed ↔ files ≠ [] ∧ ∀ file ∈ files, file.2.bytes ≠ [] := by
  have hlen₀ : 0 + (blobsOf crates files).length < u64Bound := by rwa [Nat.zero_add]
  constructor
  · exact fun h => contents_ne_nil laws hlen h.entries_ne_nil h.entries
  · rintro ⟨hne, hcontents⟩
    obtain ⟨last, hlast, hstop⟩ := exists_stop_layoutFrom hlen₀ hne
    rw [Nat.zero_add] at hstop
    refine ⟨rfl, List.ne_nil_of_mem hlast, ?_, le_antisymm ?_ ?_, layoutFrom_apart hlen₀⟩
    · exact (wellFormed_layoutFrom_iff laws hlen).mpr fun file hfile =>
        ⟨hflat file hfile, hcontents file hfile⟩
    · exact hstop.symm.le.trans (Ranges.le_foldl_max (List.mem_map_of_mem hlast) 0)
    · refine Ranges.foldl_max_le_iff.mpr ⟨Nat.zero_le _, fun stop hmem => ?_⟩
      obtain ⟨e, he, rfl⟩ := List.mem_map.mp hmem
      exact (layoutFrom_bounds hlen₀ e he).2.trans (Nat.zero_add _).le

/-! ### Reading back -/

theorem inflateBounded_deflate (laws : crates.Lawful) (name : Text) {data : ByteVec}
    {declared : UInt64} (h : declared.toNat = data.bytes.length) :
    inflateBounded crates (crates.deflate data.bytes) name declared = .ok data.bytes := by
  have hdata : data.bytes.length + 1 < u64Bound :=
    lt_of_le_of_lt data.length_lt (by norm_num)
  have htake : crates.inflate (crates.deflate data.bytes) (saturatingAdd declared.toNat 1) =
      .ok data.bytes := by
    rw [laws.inflate_deflate, h, saturatingAdd_of_lt hdata, List.take_of_length_le (Nat.le_succ _)]
  simp only [inflateBounded, htake]
  rw [if_neg (not_not.mpr h.symm)]

theorem Stores.readEntry (laws : crates.Lawful) {archive : Archive} {file : Text × ByteVec}
    {e : Entry} (h : Stores crates archive.blobs file e)
    (hlen : archive.blobs.length < u64Bound) :
    readEntry crates archive e = .ok file.2.bytes := by
  have hstop := (Bytes.slice?_eq_some_iff.mp h.stream).2.1
  exact readEntry_eq_ok_iff.mpr ⟨hstop.trans_lt hlen, _, h.stream,
    inflateBounded_deflate laws e.name h.uncompressed, h.sha256.symm⟩

/-- What the writer built verifies: every entry can be read. -/
theorem verifyAll_archiveOf (laws : crates.Lawful) {files : List (Text × ByteVec)}
    (hlen : (blobsOf crates files).length < u64Bound) :
    verifyAll crates (archiveOf crates files) = .ok files.length := by
  have hstores := stores_archiveOf hlen
  have hread : List.Forall₂ (fun e out => readEntry crates (archiveOf crates files) e = .ok out)
      (archiveOf crates files).manifest.entries (files.map fun file => file.2.bytes) := by
    rw [List.forall₂_map_right_iff]
    exact hstores.flip.imp fun e file h => h.readEntry laws hlen
  rw [verifyAll, mapM_eq_ok_iff.mpr hread, bind_ok, hstores.length_eq]

/-- The entry of a name, where no two entries have the same one. -/
theorem entry_eq_ok_of_mem {archive : Archive}
    (hnodup : (archive.manifest.entries.map Entry.name).Nodup) {e : Entry}
    (he : e ∈ archive.manifest.entries) : archive.entry e.name = .ok e := by
  have hfind : archive.manifest.entries.find? (·.name = e.name) = some e := by
    revert hnodup he
    induction archive.manifest.entries with
    | nil => exact fun _ he => nomatch he
    | cons e' entries ih =>
      intro hnodup he
      rw [List.map_cons, List.nodup_cons] at hnodup
      rcases List.mem_cons.mp he with rfl | he
      · exact List.find?_cons_of_pos (decide_eq_true rfl)
      · have hne : e'.name ≠ e.name := fun h =>
          hnodup.1 (List.mem_map.mpr ⟨e, he, h.symm⟩)
        rw [List.find?_cons_of_neg (by simpa using hne), ih hnodup.2 he]
  rw [Archive.entry, hfind]

theorem bytes_eq {files : List (Text × ByteVec)} {exe : Bytes} {data : ByteVec}
    (hdata : data.bytes = exe ++ payloadOf crates files) :
    data.bytes = exe ++ blobsOf crates files ++ manifestOf crates files ++
      (Bytes.toLe 8 (manifestOf crates files).length ++ magicBytes) := by
  rw [hdata, payloadOf]
  simp only [List.append_assoc]

/-- **An executable with a payload opens** just if the archive in it is one the reader accepts, and
then it opens as that archive. -/
theorem parse_of_wellFormed (laws : crates.Lawful) {files : List (Text × ByteVec)} {exe : Bytes}
    {data : ByteVec} (hdata : data.bytes = exe ++ payloadOf crates files)
    (h : (archiveOf crates files).WellFormed) :
    parse crates data = .ok (archiveOf crates files) := by
  exact parse_eq_ok_iff.mpr ⟨exe, manifestOf crates files, bytes_eq hdata,
    laws.two_le_length_manifestToVec _, laws.manifestFromSlice_toVec _, h⟩

theorem length_payloadOf_lt {files : List (Text × ByteVec)} {exe : Bytes} {data : ByteVec}
    (hdata : data.bytes = exe ++ payloadOf crates files) :
    (blobsOf crates files).length < u64Bound ∧
      (manifestOf crates files).length < 256 ^ 8 := by
  have hlen := congrArg List.length hdata
  simp only [payloadOf, List.length_append] at hlen
  have hvec := data.length_lt
  have hbound : u64Bound = 2 ^ 64 := rfl
  constructor <;> omega

/-- **The writer and the reader agree**, apart from the empty list and empty files. -/
theorem exists_parse_iff (laws : crates.Lawful) {files : List (Text × ByteVec)} {exe : Bytes}
    (hflat : ∀ file ∈ files, FlatName file.1) {data : ByteVec}
    (hdata : data.bytes = exe ++ payloadOf crates files) :
    (∃ archive, parse crates data = .ok archive) ↔
      files ≠ [] ∧ ∀ file ∈ files, file.2.bytes ≠ [] := by
  obtain ⟨hblobs, hmanifest⟩ := length_payloadOf_lt hdata
  constructor
  · rintro ⟨archive, h⟩
    obtain ⟨front, json, hbytes, -, hjson, hwf⟩ := parse_eq_ok_iff.mp h
    have hlen : json.length < 256 ^ 8 := by
      have hlen := congrArg List.length hbytes
      simp only [List.length_append] at hlen
      have hvec := data.length_lt
      omega
    -- the reader finds the manifest the writer wrote
    have hsame : json = manifestOf crates files :=
      (footer_inj hlen hmanifest (hbytes.symm.trans (bytes_eq hdata))).2
    rw [hsame, manifestOf, laws.manifestFromSlice_toVec] at hjson
    have hentries : archive.manifest.entries = layoutFrom crates 0 files :=
      congrArg Manifest.entries (Except.ok.inj hjson).symm
    exact contents_ne_nil laws hblobs (hentries ▸ hwf.entries_ne_nil) (hentries ▸ hwf.entries)
  · intro h
    exact ⟨_, parse_of_wellFormed laws hdata ((archiveOf_wellFormed_iff laws hflat hblobs).mpr h)⟩

/-- **The round trip.**  Flat names, all different, with contents that are not empty: the writer
builds a payload, and behind any executable it is parsed to an archive that lists just these
names, where looking up a name and reading its entry gives the contents of the file. -/
theorem parse_buildPayload (laws : crates.Lawful) {files : List (Text × ByteVec)}
    (hne : files ≠ []) (hnames : ∀ file ∈ files, validateName crates file.1 = .ok ())
    (hnodup : (files.map Prod.fst).Nodup) (hcontents : ∀ file ∈ files, file.2.bytes ≠ []) :
    ∃ payload, buildPayload crates files = .ok payload ∧
      ∀ (exe : Bytes) (data : ByteVec), data.bytes = exe ++ payload →
        ∃ archive, parse crates data = .ok archive ∧
          archive.manifest.entries.map Entry.name = files.map Prod.fst ∧
          List.Forall₂ (fun file e => archive.entry file.1 = .ok e ∧
            readEntry crates archive e = .ok file.2.bytes) files archive.manifest.entries := by
  have hflat : ∀ file ∈ files, FlatName file.1 := fun file hfile =>
    validateName_eq_ok_iff.mp (hnames file hfile)
  refine ⟨_, buildPayload_eq_ok_iff.mpr ⟨hflat, hnodup, rfl⟩, fun exe data hdata => ?_⟩
  have hblobs := (length_payloadOf_lt hdata).1
  have hwf := (archiveOf_wellFormed_iff laws hflat hblobs).mpr ⟨hne, hcontents⟩
  have hmap : (archiveOf crates files).manifest.entries.map Entry.name = files.map Prod.fst :=
    map_name_layoutFrom 0 files
  have hentry : ∀ e ∈ (archiveOf crates files).manifest.entries,
      (archiveOf crates files).entry e.name = .ok e := fun e he =>
    entry_eq_ok_of_mem (hmap ▸ hnodup) he
  have hstores := stores_archiveOf hblobs
  refine ⟨_, parse_of_wellFormed laws hdata hwf, hmap, ?_⟩
  refine ((List.forall₂_and_left _ _).mpr ⟨hentry, hstores.flip⟩).flip.imp fun file e h => ?_
  exact ⟨h.2.name ▸ h.1, h.2.readEntry laws hblobs⟩

/-- The second of two files starts where the first ends, behind any executable. -/
theorem parse_buildPayload_pair :
    ∃ payload, buildPayload sampleCrates pairFiles = .ok payload ∧
      ∀ (exe : Bytes) (data : ByteVec), data.bytes = exe ++ payload →
        ∃ archive, parse sampleCrates data = .ok archive ∧
          archive.manifest.entries.map Entry.name = pairFiles.map Prod.fst ∧
          List.Forall₂ (fun file e => archive.entry file.1 = .ok e ∧
            readEntry sampleCrates archive e = .ok file.2.bytes) pairFiles
              archive.manifest.entries :=
  parse_buildPayload sampleCrates_lawful (by decide) (by decide) (by decide) (by decide)

/-- **The reader opens what the writer built** just if there is a file and no file is empty. -/
theorem parse_buildPayload_iff (laws : crates.Lawful) {files : List (Text × ByteVec)}
    {payload : Bytes} (hpayload : buildPayload crates files = .ok payload) {exe : Bytes}
    {data : ByteVec} (hdata : data.bytes = exe ++ payload) :
    (∃ archive, parse crates data = .ok archive) ↔
      files ≠ [] ∧ ∀ file ∈ files, file.2.bytes ≠ [] := by
  obtain ⟨hflat, -, rfl⟩ := buildPayload_eq_ok_iff.mp hpayload
  exact exists_parse_iff laws hflat hdata

/-- What is built from two files opens. -/
theorem parse_buildPayload_iff_pair :
    ∃ archive, parse sampleCrates pairPayload = .ok archive := by
  have hbuild : buildPayload sampleCrates pairFiles = .ok pairPayload.bytes := by decide +kernel
  have hdata : pairPayload.bytes = [] ++ pairPayload.bytes := rfl
  exact (parse_buildPayload_iff sampleCrates_lawful hbuild hdata).mpr ⟨by decide, by decide⟩

/-- The writer builds a payload with an empty file, and the reader refuses to open it. -/
theorem built_and_refused :
    ¬ ∀ (crates : Crates), crates.Lawful → ∀ (files : List (Text × ByteVec)) (payload : Bytes),
      buildPayload crates files = .ok payload →
        ∀ (exe : Bytes) (data : ByteVec), data.bytes = exe ++ payload →
          ∃ archive, parse crates data = .ok archive := by
  intro h
  have hbuild : buildPayload sampleCrates hollowFiles = .ok hollowPayload.bytes := by
    decide +kernel
  have hparse := h sampleCrates sampleCrates_lawful hollowFiles hollowPayload.bytes hbuild []
    hollowPayload rfl
  have hrefused : parse sampleCrates hollowPayload = .error (.error (err "payload"
      ("entry ".toList ++ ['A'] ++ " is empty".toList))) := by
    decide +kernel
  obtain ⟨archive, harchive⟩ := hparse
  rw [hrefused] at harchive
  cases harchive

end Taskman.Payload
