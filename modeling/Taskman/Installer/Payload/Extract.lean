import Taskman.Installer.Payload.RoundTrip

/-!
# Extraction against lookup

`Archive.entry` finds the first entry of a name; `extract_to` writes all entries one after the
other, each over the file that is there.  The writer never builds a payload with a name twice, but
the reader accepts one, and two names may denote one file (on Windows, if they differ in case).

* `writeFiles_eq_ok` : the last file written wins;
* `extractTo_eq_ok` : what is in the directory after an extraction;
* `extractTo_agrees_iff` : **extraction agrees with lookup just if**, for every name, the last entry
  that denotes the same file stores the same bytes as the first entry of the name;
* `extractTo_buildPayload` : **from the files to the directory**, if their names denote different
  files.
-/

namespace Taskman.Payload

open Checked

variable {crates : Crates} {κ : Type} [DecidableEq κ] {host : DirHost κ}

/-! ### Writing -/

/-- **The last file written wins**; the files that are not written stay as they were. -/
theorem writeFiles_eq_ok {files : List (Text × Bytes)} {dir dir' : κ → Option Bytes}
    {paths : List Text} (h : writeFiles host files dir = .ok (paths, dir')) (k : κ) :
    dir' k =
      ((files.reverse.find? fun file => host.fileOf file.1 = k).map Prod.snd).or (dir k) := by
  induction files generalizing dir paths with
  | nil =>
    cases h
    rfl
  | cons file files ih =>
    rcases file with ⟨name, data⟩
    simp only [writeFiles, bind_eq_ok] at h
    obtain ⟨_, -, ⟨paths', dir''⟩, hrest, hr⟩ := h
    cases hr
    rw [ih hrest, List.reverse_cons, List.find?_append]
    cases files.reverse.find? fun file => host.fileOf file.1 = k with
    | some file => rfl
    | none =>
      by_cases hk : host.fileOf name = k
      · simp [hk]
      · simp [hk, Function.update_of_ne (Ne.symm hk)]

/-! ### Stored bytes -/

variable (crates) in
/-- The bytes that the deflate stream at the range of an entry stores. -/
def Archive.stored (archive : Archive) (e : Entry) : Option Bytes :=
  (archive.blobs.slice? e.offset.toNat e.stop).bind fun stream =>
    (crates.inflate stream (saturatingAdd e.uncompressed.toNat 1)).toOption

theorem stored_of_readEntry {archive : Archive} {e : Entry} {out : Bytes}
    (h : readEntry crates archive e = .ok out) : archive.stored crates e = some out := by
  obtain ⟨-, stream, hslice, hinflate, -⟩ := readEntry_eq_ok_iff.mp h
  rw [Archive.stored, hslice, Option.bind_some]
  unfold inflateBounded at hinflate
  cases hout : crates.inflate stream (saturatingAdd e.uncompressed.toNat 1) with
  | error error =>
    simp only [hout] at hinflate
    cases hinflate
  | ok bytes =>
    simp only [hout] at hinflate
    split_ifs at hinflate
    cases hinflate
    rfl

variable (host) in
/-- The last entry that denotes the same file as a name. -/
def Archive.last? (archive : Archive) (name : Text) : Option Entry :=
  archive.manifest.entries.reverse.find? fun e => host.fileOf e.name = host.fileOf name

/-! ### Extraction -/

/-- **What an extraction leaves behind**: every entry could be read, and the file of a name holds
what the last entry that denotes it stores. -/
theorem extractTo_eq_ok {archive : Archive} {dir dir' : κ → Option Bytes} {paths : List Text}
    (h : extractTo crates host archive dir = .ok (paths, dir')) :
    (∀ e ∈ archive.manifest.entries, ∃ out, readEntry crates archive e = .ok out) ∧
      ∀ name last, archive.last? host name = some last →
        dir' (host.fileOf name) = archive.stored crates last := by
  simp only [extractTo, bind_eq_ok, ofExcept_eq_ok, mapM_eq_ok_iff] at h
  obtain ⟨verified, hverified, _, -, hwrite⟩ := h
  let contents : Entry → Text × Bytes := fun e => (e.name, (archive.stored crates e).getD [])
  -- what is verified is what each entry stores
  have hpairs : List.Forall₂
      (fun e file => (∃ out, readEntry crates archive e = .ok out) ∧ contents e = file)
      archive.manifest.entries verified := by
    refine hverified.imp fun e file hfile => ?_
    obtain ⟨out, hout, hr⟩ := hfile
    cases hr
    exact ⟨⟨out, hout⟩, by simp only [contents, stored_of_readEntry hout, Option.getD_some]⟩
  obtain ⟨hread, hmap⟩ := (List.forall₂_and_left _ _).mp hpairs
  rw [← List.forall₂_map_left_iff, List.forall₂_eq_eq_eq] at hmap
  subst hmap
  refine ⟨hread, fun name last hlast => ?_⟩
  have hmem : last ∈ archive.manifest.entries :=
    List.mem_reverse.mp (List.mem_of_find?_eq_some hlast)
  obtain ⟨out, hout⟩ := hread last hmem
  -- the last write to the file is that of the last entry that denotes it
  have hfind : ((archive.manifest.entries.map contents).reverse.find? fun file =>
      host.fileOf file.1 = host.fileOf name) = some (contents last) := by
    rw [← List.map_reverse, List.find?_map]
    exact congrArg (Option.map contents) hlast
  rw [writeFiles_eq_ok hwrite, hfind, stored_of_readEntry hout]
  simp only [contents, stored_of_readEntry hout]
  rfl

variable (host) in
theorem exists_last {archive : Archive} {e : Entry} (he : e ∈ archive.manifest.entries) :
    ∃ last, archive.last? host e.name = some last := by
  cases hlast : archive.last? host e.name with
  | some last => exact ⟨last, rfl⟩
  | none =>
    have hnone := List.find?_eq_none.mp hlast e (List.mem_reverse.mpr he)
    exact absurd (decide_eq_true rfl) hnone

theorem exists_entry {archive : Archive} {e : Entry} (he : e ∈ archive.manifest.entries) :
    ∃ first ∈ archive.manifest.entries, archive.entry e.name = .ok first := by
  cases hfirst : archive.manifest.entries.find? (·.name = e.name) with
  | some first => exact ⟨first, List.mem_of_find?_eq_some hfirst, by rw [Archive.entry, hfirst]⟩
  | none => exact absurd (decide_eq_true rfl) (List.find?_eq_none.mp hfirst e he)

/-- **Extraction agrees with lookup** just if, for every name in the manifest, the last entry that
denotes the same file stores the same bytes as the first entry of that name. -/
theorem extractTo_agrees_iff {archive : Archive} {dir dir' : κ → Option Bytes} {paths : List Text}
    (h : extractTo crates host archive dir = .ok (paths, dir')) :
    (∀ name ∈ archive.manifest.entries.map Entry.name, ∃ e bytes, archive.entry name = .ok e ∧
        readEntry crates archive e = .ok bytes ∧ dir' (host.fileOf name) = some bytes) ↔
      ∀ name ∈ archive.manifest.entries.map Entry.name, ∀ first last,
        archive.entry name = .ok first → archive.last? host name = some last →
          archive.stored crates last = archive.stored crates first := by
  obtain ⟨hread, hdir⟩ := extractTo_eq_ok h
  constructor
  · intro hagrees name hname first last hfirst hlast
    obtain ⟨e, bytes, he, hbytes, hfile⟩ := hagrees name hname
    cases hfirst.symm.trans he
    rw [← hdir name last hlast, hfile, stored_of_readEntry hbytes]
  · intro hsame name hname
    obtain ⟨e, he, rfl⟩ := List.mem_map.mp hname
    obtain ⟨first, hmem, hfirst⟩ := exists_entry he
    obtain ⟨last, hlast⟩ := exists_last host he
    obtain ⟨bytes, hbytes⟩ := hread first hmem
    refine ⟨first, bytes, hfirst, hbytes, ?_⟩
    rw [hdir e.name last hlast, hsame e.name hname first last hfirst hlast,
      stored_of_readEntry hbytes]

/-- A directory where every name denotes a file of its own, and writing succeeds. -/
def plainHost : DirHost Text :=
  { fileOf := id, createDirAll := .ok (), write := fun _ _ => .ok () }

/-- The archive of two files. -/
def pairArchive : Archive := archiveOf sampleCrates pairFiles

/-- Two files in a directory. -/
def pairDir : Text → Option Bytes :=
  Function.update (Function.update (fun _ => none) ['A'] (some letterA.bytes)) ['B']
    (some letterB.bytes)

/-- Two files of different names are extracted as they are looked up. -/
theorem extractTo_agrees_iff_pair :
    extractTo sampleCrates plainHost pairArchive (fun _ => none) = .ok ([['A'], ['B']], pairDir) ∧
      ∀ name ∈ pairArchive.manifest.entries.map Entry.name, ∃ e bytes,
        pairArchive.entry name = .ok e ∧ readEntry sampleCrates pairArchive e = .ok bytes ∧
          pairDir (plainHost.fileOf name) = some bytes := by
  have h : extractTo sampleCrates plainHost pairArchive (fun _ => none) =
      .ok ([['A'], ['B']], pairDir) := rfl
  have hlast : ∀ name ∈ pairArchive.manifest.entries.map Entry.name,
      (pairArchive.entry name).toOption = pairArchive.last? plainHost name := by
    decide +kernel
  refine ⟨h, (extractTo_agrees_iff h).mpr fun name hname e last he hl => ?_⟩
  have heq := hlast name hname
  rw [he, hl] at heq
  rw [Option.some.inj heq]

/-- The archive with two files `A`, the second with the contents `B`. -/
def twiceArchive : Archive :=
  { manifest := twiceManifest
    blobs := sampleDeflate.encode letterA.bytes ++ sampleDeflate.encode letterB.bytes }

/-- The bytes it is read from. -/
def twicePayload : ByteVec :=
  ⟨twiceArchive.blobs ++ twiceJson ++ (Bytes.toLe 8 twiceJson.length ++ magicBytes),
    by decide +kernel⟩

theorem twiceArchive_wellFormed : twiceArchive.WellFormed where
  version := rfl
  entries_ne_nil := by decide
  entries e he := by
    have hname : validateName sampleCrates ['A'] = .ok () := by decide
    rcases List.mem_pair.mp he with rfl | rfl
    · exact ⟨validateName_eq_ok_iff.mp hname, by decide, by decide⟩
    · exact ⟨validateName_eq_ok_iff.mp hname, by decide, by decide⟩
  blobs_length := by decide +kernel
  apart := by decide

/-- The reader accepts the archive with two files `A`: looking up `A` gives the first of them, and
the second is what an extraction leaves behind. -/
theorem second_entry_extracted :
    ¬ ∀ (crates : Crates) (host : DirHost Text) (data : ByteVec) (archive : Archive)
      (dir dir' : Text → Option Bytes) (paths : List Text), crates.Lawful →
      parse crates data = .ok archive → extractTo crates host archive dir = .ok (paths, dir') →
        ∀ name ∈ archive.manifest.entries.map Entry.name, ∃ e bytes, archive.entry name = .ok e ∧
          readEntry crates archive e = .ok bytes ∧ dir' (host.fileOf name) = some bytes := by
  intro h
  have hmanifest : sampleCrates.manifestFromSlice twiceJson = .ok twiceManifest := by
    decide +kernel
  have hparse : parse sampleCrates twicePayload = .ok twiceArchive :=
    parse_eq_ok_iff.mpr ⟨[], twiceJson, rfl, by decide +kernel, hmanifest, twiceArchive_wellFormed⟩
  have hextract : extractTo sampleCrates plainHost twiceArchive (fun _ => none) =
      .ok ([['A'], ['A']], Function.update (Function.update (fun _ => none) ['A']
        (some letterA.bytes)) ['A'] (some letterB.bytes)) := rfl
  obtain ⟨e, bytes, he, hbytes, hfile⟩ := h sampleCrates plainHost twicePayload twiceArchive _ _ _
    sampleCrates_lawful hparse hextract ['A'] (by decide)
  have hfirst : twiceArchive.entry ['A'] = .ok (entryOf 'A' 0 3 1 digestOfA) := by decide +kernel
  have hread : readEntry sampleCrates twiceArchive (entryOf 'A' 0 3 1 digestOfA) =
      .ok letterA.bytes := by
    decide +kernel
  cases hfirst.symm.trans he
  cases hread.symm.trans hbytes
  revert hfile
  decide

/-! ### Different names, different files -/

/-- If different entries denote different files, the file of an entry holds what it stores. -/
theorem extractTo_of_nodup {archive : Archive} {dir dir' : κ → Option Bytes} {paths : List Text}
    (h : extractTo crates host archive dir = .ok (paths, dir'))
    (hnodup : (archive.manifest.entries.map fun e => host.fileOf e.name).Nodup) {e : Entry}
    (he : e ∈ archive.manifest.entries) :
    dir' (host.fileOf e.name) = archive.stored crates e := by
  obtain ⟨last, hlast⟩ := exists_last host he
  have hmem : last ∈ archive.manifest.entries :=
    List.mem_reverse.mp (List.mem_of_find?_eq_some hlast)
  have hfile : host.fileOf last.name = host.fileOf e.name := by
    simpa using List.find?_some hlast
  rw [(extractTo_eq_ok h).2 e.name last hlast,
    List.inj_on_of_nodup_map hnodup hmem he hfile]

/-- **From the files to the directory**: what was built from files whose names denote different
files, put behind any executable, parsed and extracted, is these files. -/
theorem extractTo_buildPayload (laws : crates.Lawful) {files : List (Text × ByteVec)}
    {payload : Bytes} (hpayload : buildPayload crates files = .ok payload)
    (hnodup : (files.map fun file => host.fileOf file.1).Nodup) {exe : Bytes} {data : ByteVec}
    (hdata : data.bytes = exe ++ payload) {archive : Archive}
    (hparse : parse crates data = .ok archive) {dir dir' : κ → Option Bytes} {paths : List Text}
    (h : extractTo crates host archive dir = .ok (paths, dir')) :
    ∀ file ∈ files, dir' (host.fileOf file.1) = some file.2.bytes := by
  intro file hfile
  obtain ⟨hflat, -, rfl⟩ := buildPayload_eq_ok_iff.mp hpayload
  have hblobs := (length_payloadOf_lt hdata).1
  have hcontents := (exists_parse_iff laws hflat hdata).mp ⟨archive, hparse⟩
  have hwf := (archiveOf_wellFormed_iff laws hflat hblobs).mpr hcontents
  cases hparse.symm.trans (parse_of_wellFormed laws hdata hwf)
  have hstores := stores_archiveOf hblobs
  have hnames : (archiveOf crates files).manifest.entries.map (fun e => host.fileOf e.name) =
      files.map fun file => host.fileOf file.1 := by
    have hmap : (layoutFrom crates 0 files).map Entry.name = files.map Prod.fst :=
      map_name_layoutFrom 0 files
    have hfiles := congrArg (List.map host.fileOf) hmap
    rwa [List.map_map, List.map_map] at hfiles
  obtain ⟨i, rfl⟩ := List.mem_iff_get.mp hfile
  have hi : i.1 < (archiveOf crates files).manifest.entries.length := hstores.length_eq ▸ i.2
  have hstore := hstores.get i.2 hi
  rw [← hstore.name, extractTo_of_nodup h (hnames ▸ hnodup) (List.get_mem _ ⟨i.1, hi⟩)]
  exact stored_of_readEntry (hstore.readEntry laws hblobs)

end Taskman.Payload
