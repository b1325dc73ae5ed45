import Taskman.Binary.Bytes
import Taskman.Text.Utf16

/-!
# UTF-8

A text is read from octets by a machine that holds the octets of one character back until it is
complete.  Octets that cannot be part of a character, or that end too early, give `U+FFFD`.

* `Bytes.octets` : the numbers of a byte string;
* `Text.Pending`, `Text.utf8Step` : what is still missing of a character, and one octet;
* `Text.fromUtf8Lossy` : the text of a list of octets;
* `Text.encodeUtf8` : the octets of a text, **from which the text is read back**
  (`fromUtf8Lossy_encodeUtf8`).
-/

/-- Bytes as numbers. -/
def Bytes.octets (bs : Bytes) : List ℕ := bs.map UInt8.toNat

namespace Text

/-- A character of which octets are missing: how many, between which bounds the next one lies, and
the bits so far. -/
structure Pending where
  owed : ℕ
  low : ℕ
  high : ℕ
  bits : ℕ

/-- The first octet of a character: the character itself, what is missing of it, or a replacement
for an octet that begins none. -/
def utf8First (octet : ℕ) : Text × Option Pending :=
  if octet < 0x80 then ([Char.ofNat octet], none)
  else if octet < 0xC2 then (['\uFFFD'], none)
  else if octet < 0xE0 then ([], some ⟨1, 0x80, 0xBF, octet - 0xC0⟩)
  else if octet = 0xE0 then ([], some ⟨2, 0xA0, 0xBF, 0⟩)
  else if octet = 0xED then ([], some ⟨2, 0x80, 0x9F, 0xD⟩)
  else if octet < 0xF0 then ([], some ⟨2, 0x80, 0xBF, octet - 0xE0⟩)
  else if octet = 0xF0 then ([], some ⟨3, 0x90, 0xBF, 0⟩)
  else if octet < 0xF4 then ([], some ⟨3, 0x80, 0xBF, octet - 0xF0⟩)
  else if octet = 0xF4 then ([], some ⟨3, 0x80, 0x8F, 4⟩)
  else (['\uFFFD'], none)

/-- One octet. -/
def utf8Step : Option Pending → ℕ → Text × Option Pending
  | none, octet => utf8First octet
  | some p, octet =>
    if p.low ≤ octet ∧ octet ≤ p.high then
      let bits := p.bits * 0x40 + (octet - 0x80)
      if p.owed = 1 then ([Char.ofNat bits], none)
      else ([], some ⟨p.owed - 1, 0x80, 0xBF, bits⟩)
    else
      -- what was held back is replaced, and the octet begins the next character
      ('\uFFFD' :: (utf8First octet).1, (utf8First octet).2)

/-- The machine from a state on. -/
def utf8From : Option Pending → List ℕ → Text
  | none, [] => []
  | some _, [] => ['\uFFFD']
  | state, octet :: rest => (utf8Step state octet).1 ++ utf8From (utf8Step state octet).2 rest

/-- `String::from_utf8_lossy`. -/
def fromUtf8Lossy (octets : List ℕ) : Text := utf8From none octets

/-- The octets of a character. -/
def utf8Octets (c : Char) : List ℕ :=
  let n := c.toNat
  if n < 0x80 then [n]
  else if n < 0x800 then [0xC0 + n / 0x40, 0x80 + n % 0x40]
  else if n < 0x10000 then [0xE0 + n / 0x1000, 0x80 + n / 0x40 % 0x40, 0x80 + n % 0x40]
  else [0xF0 + n / 0x40000, 0x80 + n / 0x1000 % 0x40, 0x80 + n / 0x40 % 0x40, 0x80 + n % 0x40]

/-- `str::as_bytes`. -/
def encodeUtf8 (t : Text) : List ℕ := t.flatMap utf8Octets

/-! ### Reading back -/

theorem utf8From_cons (state : Option Pending) (octet : ℕ) (rest : List ℕ) :
    utf8From state (octet :: rest) =
      (utf8Step state octet).1 ++ utf8From (utf8Step state octet).2 rest := by
  cases state <;> rfl

/-- An octet that is expected, but not the last one. -/
theorem utf8From_pending {p : Pending} {octet : ℕ} (hlow : p.low ≤ octet) (hhigh : octet ≤ p.high)
    (howed : p.owed ≠ 1) (rest : List ℕ) :
    utf8From (some p) (octet :: rest) =
      utf8From (some ⟨p.owed - 1, 0x80, 0xBF, p.bits * 0x40 + (octet - 0x80)⟩) rest := by
  rw [utf8From_cons, utf8Step, if_pos ⟨hlow, hhigh⟩]
  dsimp only
  rw [if_neg howed]
  rfl

/-- The last octet of a character. -/
theorem utf8From_last {p : Pending} {octet : ℕ} (hlow : p.low ≤ octet) (hhigh : octet ≤ p.high)
    (howed : p.owed = 1) (rest : List ℕ) :
    utf8From (some p) (octet :: rest) =
      Char.ofNat (p.bits * 0x40 + (octet - 0x80)) :: utf8From none rest := by
  rw [utf8From_cons, utf8Step, if_pos ⟨hlow, hhigh⟩]
  dsimp only
  rw [if_pos howed]
  rfl

theorem utf8First_two {lead : ℕ} (hlo : 0xC2 ≤ lead) (hhi : lead < 0xE0) :
    utf8First lead = ([], some ⟨1, 0x80, 0xBF, lead - 0xC0⟩) := by
  rw [utf8First, if_neg (by omega), if_neg (by omega), if_pos hhi]

/-- The first of three octets: the bounds of the second one leave out what is shorter, and the
surrogates. -/
theorem utf8First_three {n : ℕ} (hlo : 0x800 ≤ n) (hhi : n < 0x10000)
    (hscalar : n < 0xD800 ∨ 0xDFFF < n) :
    ∃ low high, utf8First (0xE0 + n / 0x1000) = ([], some ⟨2, low, high, n / 0x1000⟩) ∧
      low ≤ 0x80 + n / 0x40 % 0x40 ∧ 0x80 + n / 0x40 % 0x40 ≤ high := by
  rw [utf8First, if_neg (by omega), if_neg (by omega), if_neg (by omega)]
  split_ifs with he0 hed hlast
  · exact ⟨0xA0, 0xBF, by rw [show n / 0x1000 = 0 by omega], by omega, by omega⟩
  · exact ⟨0x80, 0x9F, by rw [show n / 0x1000 = 0xD by omega], by omega, by omega⟩
  · exact ⟨0x80, 0xBF, by rw [Nat.add_sub_cancel_left], by omega, by omega⟩
  all_goals omega

/-- The first of four octets. -/
theorem utf8First_four {n : ℕ} (hlo : 0x10000 ≤ n) (hhi : n < 0x110000) :
    ∃ low high, utf8First (0xF0 + n / 0x40000) = ([], some ⟨3, low, high, n / 0x40000⟩) ∧
      low ≤ 0x80 + n / 0x1000 % 0x40 ∧ 0x80 + n / 0x1000 % 0x40 ≤ high := by
  rw [utf8First, if_neg (by omega), if_neg (by omega), if_neg (by omega), if_neg (by omega),
    if_neg (by omega), if_neg (by omega)]
  split_ifs with hf0 hmid hf4
  · exact ⟨0x90, 0xBF, by rw [show n / 0x40000 = 0 by omega], by omega, by omega⟩
  · exact ⟨0x80, 0xBF, by rw [Nat.add_sub_cancel_left], by omega, by omega⟩
  · exact ⟨0x80, 0x8F, by rw [show n / 0x40000 = 4 by omega], by omega, by omega⟩
  · omega

theorem utf8From_first {lead : ℕ} {p : Pending} (h : utf8First lead = ([], some p))
    (rest : List ℕ) : utf8From none (lead :: rest) = utf8From (some p) rest := by
  rw [utf8From_cons, utf8Step, h]
  rfl

/-- A character is complete with its last octet. -/
theorem utf8From_octets (c : Char) (rest : List ℕ) :
    utf8From none (utf8Octets c ++ rest) = c :: utf8From none rest := by
  have hc := toNat_lt_or_gt c
  conv_rhs => rw [← Char.ofNat_toNat c]
  unfold utf8Octets
  generalize c.toNat = n at hc ⊢
  dsimp only
  split_ifs with hone htwo hthree
  · rw [List.singleton_append, utf8From_cons, utf8Step, utf8First, if_pos hone]
    rfl
  · rw [List.cons_append, utf8From_first (utf8First_two (by omega) (by omega)),
      List.singleton_append, utf8From_last (by dsimp only; omega) (by dsimp only; omega) rfl]
    exact congrArg (fun m => Char.ofNat m :: utf8From none rest) (by dsimp only; omega)
  · obtain ⟨low, high, hlead, hlow, hhigh⟩ := utf8First_three (n := n) (by omega) hthree (by omega)
    rw [List.cons_append, utf8From_first hlead, List.cons_append,
      utf8From_pending hlow hhigh (by simp), List.singleton_append,
      utf8From_last (by dsimp only; omega) (by dsimp only; omega) rfl]
    exact congrArg (fun m => Char.ofNat m :: utf8From none rest) (by dsimp only; omega)
  · obtain ⟨low, high, hlead, hlow, hhigh⟩ := utf8First_four (n := n) (by omega) (by omega)
    rw [List.cons_append, utf8From_first hlead, List.cons_append,
      utf8From_pending hlow hhigh (by simp), List.cons_append,
      utf8From_pending (by dsimp only; omega) (by dsimp only; omega) (by simp),
      List.singleton_append, utf8From_last (by dsimp only; omega) (by dsimp only; omega) rfl]
    exact congrArg (fun m => Char.ofNat m :: utf8From none rest) (by dsimp only; omega)

/-- **A text is read back from its octets.** -/
theorem fromUtf8Lossy_encodeUtf8 (t : Text) : fromUtf8Lossy (encodeUtf8 t) = t := by
  induction t with
  | nil => rfl
  | cons c t ih => rw [encodeUtf8, List.flatMap_cons, fromUtf8Lossy, utf8From_octets, ← encodeUtf8,
      ← fromUtf8Lossy, ih]

end Text
