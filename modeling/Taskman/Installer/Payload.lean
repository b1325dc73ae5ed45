import Taskman.Binary.Checked
import Taskman.Core.Model
import Taskman.Text.Decimal
import Taskman.Text.Scan

/-!
# The payload archive of the setup executable

The setup executable carries a region `[deflate blobs][manifest JSON][footer]` at its end, where
the footer is the length of the manifest and a magic number.  `build_payload` writes it, `parse`
reads it out of untrusted bytes, `read_entry` inflates and checks one file and `extract_to` writes
all of them into a directory.

Byte vectors of the source never exceed `isize::MAX` bytes (`ByteVec`).  The deflate, SHA-256 and
JSON code is a parameter (`Crates`); so is what the file system makes of a file name (`DirHost`).
Sums of the writer wrap, as in a release build; the reader's additions, subtractions and slices
are checked, so that it can be said that none of them fails.
-/

namespace Taskman.Payload

/-- A `Vec<u8>`: at most `isize::MAX` bytes. -/
structure ByteVec where
  bytes : Bytes
  length_lt : bytes.length < 2 ^ 63

/-- The ASCII bytes of `TMSUPAYL`. -/
def magicBytes : Bytes := [0x54, 0x4D, 0x53, 0x55, 0x50, 0x41, 0x59, 0x4C]

/-- The number a payload ends with. -/
def magic : ℕ := magicBytes.ofLe

/-- The length of the footer. -/
def footerLen : ℕ := 16

/-- The version of the format. -/
def formatVersion : UInt32 := 1

/-- One embedded file.  Offsets are relative to the start of the blob region. -/
structure Entry where
  name : Text
  offset : UInt64
  compressed : UInt64
  uncompressed : UInt64
  /-- Lowercase hex SHA-256 of the uncompressed bytes. -/
  sha256 : Text
  deriving DecidableEq

/-- What a payload says about its files. -/
structure Manifest where
  version : UInt32
  entries : List Entry
  deriving DecidableEq

/-- A parsed payload region of a setup executable. -/
structure Archive where
  manifest : Manifest
  /-- The complete deflate blob region, still compressed. -/
  blobs : Bytes
  deriving DecidableEq

/-- What the payload code takes from other crates. -/
structure Crates where
  /-- `DeflateEncoder`, at the default level. -/
  deflate : Bytes → Bytes
  /-- `DeflateDecoder::new(stream).take(limit).read_to_end`: at most `limit` bytes of what the
  stream inflates to. -/
  inflate : Bytes → ℕ → Except Text Bytes
  /-- `Sha256::digest`. -/
  sha256 : Bytes → Bytes
  /-- `serde_json::to_vec` of a manifest. -/
  manifestToVec : Manifest → Bytes
  /-- `serde_json::from_slice` to a manifest. -/
  manifestFromSlice : Bytes → Except Text Manifest
  /-- `format!("{s:?}")`. -/
  debug : Text → Text

variable (crates : Crates)

/-- An error, with its context. -/
def err (context : String) (detail : Text) : TmError := .platform context.toList detail

/-! ### Names and contents -/

/-- Reject entry names that could escape the extraction directory. -/
def validateName (name : Text) : Except TmError Unit :=
  if name.isEmpty ∨ 128 < Text.utf8Len name ∨ '/' ∈ name ∨ '\\' ∈ name ∨ ':' ∈ name ∨
      ['.', '.'] <:+: name ∨ name.head? = some '.' ∨ Text.trim name ≠ name then
    .error (err "payload entry name" ("unsafe entry name: ".toList ++ crates.debug name))
  else .ok ()

/-- Inflate one entry, never producing more than `declared + 1` bytes. -/
def inflateBounded (stream : Bytes) (name : Text) (declared : UInt64) : Except TmError Bytes :=
  match crates.inflate stream (saturatingAdd declared.toNat 1) with
  | .error e => .error (.io e)
  | .ok out =>
    if out.length ≠ declared.toNat then
      let actual := if declared.toNat < out.length then
          "more than ".toList ++ Text.digits declared.toNat
        else Text.digits out.length
      .error (err "payload" ("entry ".toList ++ name ++ " inflates to ".toList ++ actual ++
        " bytes, manifest says ".toList ++ Text.digits declared.toNat))
    else .ok out

/-- A byte as two lowercase hex digits. -/
def hexByte (b : UInt8) : Text := [Nat.digitChar (b.toNat / 16), Nat.digitChar (b.toNat % 16)]

/-- A digest in hexadecimal digits. -/
def hexSha256 (data : Bytes) : Text := (crates.sha256 data).flatMap hexByte

/-! ### The writer -/

/-- Compress the files one after the other: the blob region and the manifest entries. -/
def writeBlobsFrom : List (Text × ByteVec) → Bytes → List Entry → UInt64 →
    Except TmError (Bytes × List Entry)
  | [], out, entries, _ => .ok (out, entries)
  | (name, data) :: files, out, entries, offset => do
    validateName crates name
    if entries.any fun entry => entry.name = name then
      .error (err "payload entry" ("duplicate entry name: ".toList ++ name))
    else
      let compressed := crates.deflate data.bytes
      let entry : Entry :=
        { name
          offset
          compressed := UInt64.ofNat compressed.length
          uncompressed := UInt64.ofNat data.bytes.length
          sha256 := hexSha256 crates data.bytes }
      writeBlobsFrom files (out ++ compressed) (entries ++ [entry])
        (offset + UInt64.ofNat compressed.length)

/-- The compressed files, and the manifest that goes with them. -/
def writeBlobs (files : List (Text × ByteVec)) : Except TmError (Bytes × Manifest) := do
  let (out, entries) ← writeBlobsFrom crates files [] [] 0
  .ok (out, { version := formatVersion, entries })

/-- Build the complete payload region (blobs, manifest and footer). -/
def buildPayload (files : List (Text × ByteVec)) : Except TmError Bytes := do
  let (blobs, manifest) ← writeBlobs crates files
  let manifestJson := crates.manifestToVec manifest
  .ok (blobs ++ manifestJson ++ Bytes.toLe 8 manifestJson.length ++ Bytes.toLe 8 magic)

/-! ### The reader -/

/-- The start of the footer, and the length of the manifest it gives. -/
def readFooter (data : Bytes) : Checked TmError (ℕ × ℕ) := do
  let len := data.length
  Checked.ensure (footerLen ≤ len) (err "payload" "file is too small to carry a payload".toList)
  let footerAt ← Checked.sub len footerLen
  let magicAt ← Checked.add u64Bound footerAt 8
  let footerEnd ← Checked.add u64Bound footerAt 16
  let manifestLen := (← Checked.array 8 (← Checked.slice data footerAt magicAt)).ofLe
  let magic' := (← Checked.array 8 (← Checked.slice data magicAt footerEnd)).ofLe
  Checked.ensure (magic' = magic) (err "payload"
    ("no embedded payload found (bad footer magic): this is a bare taskman-setup build output, " ++
      "not the packaged installer - run taskman-v<version>-windows-<arch>-setup.exe from dist/ " ++
      "(or append the payload with taskman-payload)").toList)
  Checked.ensure (2 ≤ manifestLen ∧ manifestLen ≤ footerAt)
    (err "payload" ("implausible manifest length ".toList ++ Text.digits manifestLen))
  .ok (footerAt, manifestLen)

/-- The manifest of a payload of the understood version, with at least one entry. -/
def readManifest (json : Bytes) : Checked TmError Manifest := do
  let manifest ← Checked.ofExcept <| (crates.manifestFromSlice json).mapError fun error =>
    err "payload" ("manifest is not valid JSON: ".toList ++ error)
  Checked.ensure (manifest.version = formatVersion) (err "payload"
    ("unsupported payload format ".toList ++ Text.digits manifest.version.toNat ++
      " (this setup understands ".toList ++ Text.digits formatVersion.toNat ++ ")".toList))
  Checked.ensure (manifest.entries ≠ []) (err "payload" "payload manifest has no entries".toList)
  .ok manifest

/-- The end of an entry's range, if it is a `u64`: `checked_add`. -/
def entryEnd (entry : Entry) : Except TmError ℕ :=
  match checkedAdd entry.offset.toNat entry.compressed.toNat with
  | some stop => .ok stop
  | none => .error (err "payload" ("entry ".toList ++ entry.name ++ " overflows".toList))

/-- Check every entry, and take the furthest end of a range. -/
def blobLenFrom : List Entry → ℕ → Checked TmError ℕ
  | [], blobLen => .ok blobLen
  | entry :: entries, blobLen => do
    Checked.ofExcept (validateName crates entry.name)
    Checked.ensure (entry.uncompressed ≠ 0 ∧ entry.compressed ≠ 0)
      (err "payload" ("entry ".toList ++ entry.name ++ " is empty".toList))
    let stop ← Checked.ofExcept (entryEnd entry)
    blobLenFrom entries (max blobLen stop)

/-- The range and the name of an entry. -/
abbrev Range := ℕ × ℕ × Text

/-- Where the blob of an entry begins and ends. -/
def rangeOf (entry : Entry) : Checked TmError Range := do
  let stop ← Checked.add u64Bound entry.offset.toNat entry.compressed.toNat
  .ok (entry.offset.toNat, stop, entry.name)

/-- The order of tuples. -/
def rangeLe (a b : Range) : Bool :=
  ((compare a.1 b.1).then ((compare a.2.1 b.2.1).then (compare a.2.2 b.2.2))).isLE

/-- No two neighbours overlap. -/
def checkNeighbours : List Range → Checked TmError Unit
  | a :: b :: ranges => do
    Checked.ensure (a.2.1 ≤ b.1) (err "payload"
      ("entries ".toList ++ a.2.2 ++ " and ".toList ++ b.2.2 ++ " overlap".toList))
    checkNeighbours (b :: ranges)
  | _ => .ok ()

/-- Parse the payload region out of the complete setup executable bytes. -/
def parse (data : ByteVec) : Checked TmError Archive := do
  let (footerAt, manifestLen) ← readFooter data.bytes
  let manifestStart ← Checked.sub footerAt manifestLen
  let manifest ← readManifest crates (← Checked.slice data.bytes manifestStart footerAt)
  let blobLen ← blobLenFrom crates manifest.entries 0
  Checked.ensure (blobLen ≤ manifestStart)
    (err "payload" "payload manifest overlaps the blob region".toList)
  let blobStart ← Checked.sub manifestStart blobLen
  let ranges ← manifest.entries.mapM rangeOf
  checkNeighbours (ranges.mergeSort rangeLe)
  let blobs ← Checked.slice data.bytes blobStart manifestStart
  .ok { manifest, blobs }

/-- The first entry of a name. -/
def Archive.entry (archive : Archive) (name : Text) : Except TmError Entry :=
  match archive.manifest.entries.find? (·.name = name) with
  | some entry => .ok entry
  | none => .error (err "payload" ("payload has no entry named ".toList ++ name))

/-- Inflate and hash-verify one entry. -/
def readEntry (archive : Archive) (entry : Entry) : Checked TmError Bytes := do
  let start := entry.offset.toNat
  let stop ← Checked.add u64Bound entry.offset.toNat entry.compressed.toNat
  -- `get` answers a range outside the blobs with `None`
  match archive.blobs.slice? start stop with
  | none =>
    .error (.error (err "payload" ("entry ".toList ++ entry.name ++ " out of range".toList)))
  | some stream =>
    let out ← Checked.ofExcept (inflateBounded crates stream entry.name entry.uncompressed)
    Checked.ensure (hexSha256 crates out = entry.sha256)
      (err "payload" ("entry ".toList ++ entry.name ++ " fails its SHA-256 check".toList))
    .ok out

/-- Inflate and hash-verify every entry without writing anything to disk. -/
def verifyAll (archive : Archive) : Checked TmError ℕ := do
  let _ ← archive.manifest.entries.mapM (readEntry crates archive)
  .ok archive.manifest.entries.length

/-! ### Extraction -/

/-- The directory files are extracted into, whose files are `κ`. -/
structure DirHost (κ : Type*) where
  /-- The file that a name denotes in the directory. -/
  fileOf : Text → κ
  createDirAll : Except Text Unit
  /-- Whether a file can be written. -/
  write : Text → Bytes → Except Text Unit

variable {κ : Type} [DecidableEq κ] (host : DirHost κ)

/-- Write files in order; a file that is there is overwritten. -/
def writeFiles : List (Text × Bytes) → (κ → Option Bytes) →
    Except TmError (List Text × (κ → Option Bytes))
  | [], dir => .ok ([], dir)
  | (name, data) :: files, dir => do
    (host.write name data).mapError .io
    let (paths, dir) ← writeFiles files (Function.update dir (host.fileOf name) (some data))
    .ok (name :: paths, dir)

/-- Extract every entry: the written paths, and the contents of the directory.  All entries are
inflated and verified first. -/
def extractTo (archive : Archive) (dir : κ → Option Bytes) :
    Checked TmError (List Text × (κ → Option Bytes)) := do
  let verified ← archive.manifest.entries.mapM fun entry => do
    let data ← readEntry crates archive entry
    .ok (entry.name, data)
  Checked.ofExcept (host.createDirAll.mapError .io)
  Checked.ofExcept (writeFiles host verified dir)

end Taskman.Payload
