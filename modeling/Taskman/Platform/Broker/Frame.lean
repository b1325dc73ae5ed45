import Taskman.Binary.Reader
import Taskman.Text.Basic

/-!
# Broker frames

A frame is a header of twelve bytes (magic, protocol version, kind, payload length) and a payload.
Requests and answers are frames of different kinds with different limits.

* `writeFrame`, `readFrame` : the two ends of the pipe;
* `frameHeader` : the header of a payload;
* `readFrame_eq_ok` : what `readFrame` accepts;
* `frame_codec` : **what is written is read back whatever follows it, only frames are accepted, and
  nothing after a frame is read**.
-/

namespace Taskman

namespace Broker

/-- `std::io::Error`, as the frame functions make them. -/
inductive IoError where
  | unexpectedEof
  | invalidData (detail : String)
  deriving DecidableEq

/-- `PROTOCOL_VERSION`. -/
def protocolVersion : ℕ := 9

/-- `*b"TMB1"` -/
def frameMagic : Bytes := [84, 77, 66, 49]

/-- The kind of a frame that holds a request. -/
def frameRequest : UInt16 := 1

/-- The kind of a frame that holds a response. -/
def frameResponse : UInt16 := 2

/-- The length of the header of a frame. -/
def frameHeaderLen : ℕ := 12

/-- The longest request. -/
def maxRequestBytes : ℕ := 64 * 1024

/-- `u32::MAX`. -/
def u32Max : ℕ := 2 ^ 32 - 1

/-- The header of a payload of `length` bytes. -/
def frameHeader (kind : UInt16) (length : ℕ) : Bytes :=
  frameMagic ++ Bytes.toLe 2 protocolVersion ++ Bytes.toLe 2 kind.toNat ++ Bytes.toLe 4 length

/-- The bytes `write_frame` puts into a writer that takes them all. -/
def writeFrame (kind : UInt16) (payload : Bytes) (maximum : ℕ) : Except IoError Bytes :=
  if payload.length > maximum ∨ payload.length > u32Max then
    .error (.invalidData "broker frame exceeds limit")
  else .ok (frameHeader kind payload.length ++ payload)

/-- The `width` bytes of a header at `offset`, as a little-endian number. -/
def headerField (header : Bytes) (offset width : ℕ) : ℕ :=
  Bytes.ofLe ((header.drop offset).take width)

/-- `read_frame` -/
def readFrame (expectedKind : UInt16) (maximum : ℕ) : Reader IoError Bytes := do
  let header ← Reader.readExact .unexpectedEof frameHeaderLen
  Reader.ensure (header.take 4 = frameMagic) (.invalidData "invalid broker frame magic")
  Reader.ensure (headerField header 4 2 = protocolVersion)
    (.invalidData "unsupported broker protocol version")
  Reader.ensure (headerField header 6 2 = expectedKind.toNat)
    (.invalidData "unexpected broker frame kind")
  Reader.ensure (headerField header 8 4 ≤ maximum) (.invalidData "broker frame exceeds limit")
  Reader.readExact .unexpectedEof (headerField header 8 4)

/-! ### Headers -/

@[simp]
theorem length_frameHeader (kind : UInt16) (length : ℕ) :
    (frameHeader kind length).length = frameHeaderLen := by
  simp [frameHeader, frameMagic, frameHeaderLen]

theorem headerField_append (xs zs : Bytes) (width n : ℕ) (hn : n < 256 ^ width) :
    headerField (xs ++ Bytes.toLe width n ++ zs) xs.length width = n := by
  rw [headerField, List.append_assoc, List.drop_left, List.take_left' (Bytes.length_toLe width n),
    Bytes.ofLe_toLe_of_lt hn]

theorem toLe_headerField {header : Bytes} {offset width : ℕ} (h : offset + width ≤ header.length) :
    Bytes.toLe width (headerField header offset width) = (header.drop offset).take width := by
  have hlen : ((header.drop offset).take width).length = width := by
    rw [List.length_take, List.length_drop]
    omega
  have h := Bytes.toLe_ofLe ((header.drop offset).take width)
  rwa [hlen] at h

theorem fields_frameHeader (kind : UInt16) {length : ℕ} (hlen : length ≤ u32Max) :
    (frameHeader kind length).take 4 = frameMagic ∧
      headerField (frameHeader kind length) 4 2 = protocolVersion ∧
        headerField (frameHeader kind length) 6 2 = kind.toNat ∧
          headerField (frameHeader kind length) 8 4 = length := by
  have hkind : kind.toNat < 256 ^ 2 := kind.toNat_lt
  refine ⟨by simp [frameHeader, frameMagic], ?_, ?_, ?_⟩
  · rw [frameHeader, List.append_assoc]
    exact headerField_append frameMagic _ 2 protocolVersion (by decide)
  · exact headerField_append (frameMagic ++ Bytes.toLe 2 protocolVersion) _ 2 kind.toNat hkind
  · rw [frameHeader, ← List.append_nil (_ ++ Bytes.toLe 4 length)]
    refine headerField_append (frameMagic ++ Bytes.toLe 2 protocolVersion ++
      Bytes.toLe 2 kind.toNat) [] 4 length ?_
    unfold u32Max at hlen
    omega

/-- A header of the right size is the one of its fields. -/
theorem eq_frameHeader {header : Bytes} {kind : UInt16} (hlen : header.length = frameHeaderLen)
    (hmagic : header.take 4 = frameMagic) (hversion : headerField header 4 2 = protocolVersion)
    (hkind : headerField header 6 2 = kind.toNat) :
    header = frameHeader kind (headerField header 8 4) := by
  unfold frameHeaderLen at hlen
  rw [frameHeader, ← hmagic, ← hversion, ← hkind, toLe_headerField (by omega),
    toLe_headerField (by omega), toLe_headerField (by omega),
    List.take_of_length_le (l := header.drop 8) (by rw [List.length_drop]; omega)]
  have h₁ : header.drop 4 = (header.drop 4).take 2 ++ header.drop 6 := by
    rw [← List.drop_drop (i := 2) (j := 4), List.take_append_drop]
  have h₂ : header.drop 6 = (header.drop 6).take 2 ++ header.drop 8 := by
    rw [← List.drop_drop (i := 2) (j := 6), List.take_append_drop]
  rw [List.append_assoc, ← h₂, List.append_assoc, ← h₁, List.take_append_drop]

theorem headerField_le (header : Bytes) (offset : ℕ) : headerField header offset 4 ≤ u32Max := by
  have h := Bytes.ofLe_lt ((header.drop offset).take 4)
  have hpow : (256 : ℕ) ^ ((header.drop offset).take 4).length ≤ 256 ^ 4 :=
    Nat.pow_le_pow_right (by norm_num) (List.length_take_le _ _)
  unfold headerField u32Max
  omega

/-! ### What is accepted -/

/-- **The streams `readFrame` accepts**: a header with the kind and a length within the limit, and
the bytes it announces. -/
theorem readFrame_eq_ok {kind : UInt16} {maximum : ℕ} {stream payload rest : Bytes} :
    (readFrame kind maximum).read stream = (.ok payload, rest) ↔
      stream = frameHeader kind payload.length ++ payload ++ rest ∧
        payload.length ≤ maximum ∧ payload.length ≤ u32Max := by
  simp only [readFrame, Reader.read_bind_eq_ok, Reader.readExact_eq_ok, Reader.ensure_eq_ok]
  constructor
  · rintro ⟨header, _, ⟨rfl, hlen⟩, _, _, ⟨hmagic, rfl⟩, _, _, ⟨hversion, rfl⟩, _, _, ⟨hkind, rfl⟩,
      _, _, ⟨hmax, rfl⟩, rfl, hpayload⟩
    have hheader := eq_frameHeader hlen hmagic hversion hkind
    refine ⟨?_, hpayload ▸ hmax, hpayload ▸ headerField_le header 8⟩
    rw [hpayload, ← hheader, List.append_assoc]
  · rintro ⟨rfl, hmax, hlen⟩
    obtain ⟨hmagic, hversion, hkind, hlength⟩ := fields_frameHeader kind hlen
    refine ⟨_, payload ++ rest, ⟨List.append_assoc _ _ _, length_frameHeader _ _⟩, (), _,
      ⟨hmagic, rfl⟩, (), _, ⟨hversion, rfl⟩, (), _, ⟨hkind, rfl⟩, (), _, ⟨?_, rfl⟩, rfl, ?_⟩
    · rwa [hlength]
    · rw [hlength]

/-- The payload length in the header a stream begins with. -/
def declaredLength (stream : Bytes) : ℕ := headerField (stream.take frameHeaderLen) 8 4

/-- No more is read than the header and the bytes it announces. -/
theorem reads_readFrame (kind : UInt16) (maximum : ℕ) (stream : Bytes) :
    (readFrame kind maximum).Reads stream (frameHeaderLen + declaredLength stream) := by
  refine (Reader.reads_readExact _ _ _).bind fun header rest hheader => ?_
  have hlength : headerField header 8 4 = declaredLength stream := by
    obtain ⟨rfl, hlen⟩ := Reader.readExact_eq_ok.mp hheader
    rw [declaredLength, ← hlen, List.take_left]
  rw [← hlength]
  exact .ensure_bind <| .ensure_bind <| .ensure_bind <| .ensure_bind <|
    Reader.reads_readExact _ _ _

/-- **The frame codec**: a payload within the limits of both ends is read back whatever follows it,
only a frame of the kind within the limit is accepted, and nothing after the frame is read. -/
theorem frame_codec (kind : UInt16) (maximum : ℕ) :
    (∀ (limit : ℕ) (payload rest : Bytes), payload.length ≤ limit → payload.length ≤ u32Max →
      payload.length ≤ maximum →
        ∃ bytes, writeFrame kind payload limit = .ok bytes ∧
          (readFrame kind maximum).read (bytes ++ rest) = (.ok payload, rest)) ∧
    (∀ stream payload rest : Bytes, (readFrame kind maximum).read stream = (.ok payload, rest) →
      stream = frameMagic ++ Bytes.toLe 2 protocolVersion ++ Bytes.toLe 2 kind.toNat ++
          Bytes.toLe 4 payload.length ++ payload ++ rest ∧
        payload.length ≤ maximum ∧ payload.length ≤ u32Max) ∧
    ∀ stream : Bytes,
      (readFrame kind maximum).Reads stream (frameHeaderLen + declaredLength stream) := by
  refine ⟨fun limit payload rest hlimit hlen hmax => ?_,
    fun stream payload rest h => readFrame_eq_ok.mp h, reads_readFrame kind maximum⟩
  refine ⟨frameHeader kind payload.length ++ payload, ?_, ?_⟩
  · rw [writeFrame, if_neg (by omega)]
  · exact readFrame_eq_ok.mpr ⟨rfl, hmax, hlen⟩

/-- A request of two bytes, with one byte of the next one behind it. -/
theorem frame_codec_request :
    ∃ bytes, writeFrame frameRequest [123, 125] maxRequestBytes = .ok bytes ∧
      (readFrame frameRequest maxRequestBytes).read (bytes ++ [84]) = (.ok [123, 125], [84]) :=
  (frame_codec frameRequest maxRequestBytes).1 maxRequestBytes [123, 125] [84] (by decide)
    (by decide) (by decide)

end Broker

end Taskman
