import Taskman.Binary.Bytes
import Taskman.Text.Basic

/-!
# UTF-16

* `Bytes.utf16Units` : the little-endian code units of a byte string, a last odd byte left out;
* `Text.fromUtf16Lossy` : the text of a list of code units, with `U+FFFD` for every unpaired
  surrogate;
* `Text.encodeUtf16` : the code units of a text, **from which the text is read back**
  (`fromUtf16Lossy_encodeUtf16`).
-/

/-- The little-endian 16-bit units of a byte string. -/
def Bytes.utf16Units : Bytes → List ℕ
  | lo :: hi :: rest => (lo.toNat + 256 * hi.toNat) :: Bytes.utf16Units rest
  | _ => []

namespace Text

/-- The first unit of a pair. -/
def isHighSurrogate (unit : ℕ) : Bool := decide (0xD800 ≤ unit ∧ unit < 0xDC00)

/-- The second unit of a pair. -/
def isLowSurrogate (unit : ℕ) : Bool := decide (0xDC00 ≤ unit ∧ unit < 0xE000)

/-- The scalar value of a surrogate pair. -/
def surrogatePair (high low : ℕ) : ℕ := 0x10000 + (high - 0xD800) * 0x400 + (low - 0xDC00)

/-- `String::from_utf16_lossy`. -/
def fromUtf16Lossy : List ℕ → Text
  | [] => []
  | [unit] =>
    if isHighSurrogate unit || isLowSurrogate unit then ['\uFFFD'] else [Char.ofNat unit]
  | unit :: next :: rest =>
    if isHighSurrogate unit then
      if isLowSurrogate next then Char.ofNat (surrogatePair unit next) :: fromUtf16Lossy rest
      else '\uFFFD' :: fromUtf16Lossy (next :: rest)
    else if isLowSurrogate unit then '\uFFFD' :: fromUtf16Lossy (next :: rest)
    else Char.ofNat unit :: fromUtf16Lossy (next :: rest)

/-- The units of a character: itself, or a surrogate pair. -/
def utf16Units (c : Char) : List ℕ :=
  if c.toNat < 0x10000 then [c.toNat]
  else [0xD800 + (c.toNat - 0x10000) / 0x400, 0xDC00 + (c.toNat - 0x10000) % 0x400]

/-- `str::encode_utf16`. -/
def encodeUtf16 (t : Text) : List ℕ := t.flatMap utf16Units

/-- A unit outside the surrogate range is a character of its own. -/
theorem fromUtf16Lossy_cons {unit : ℕ} (h : ¬(0xD800 ≤ unit ∧ unit < 0xE000)) (rest : List ℕ) :
    fromUtf16Lossy (unit :: rest) = Char.ofNat unit :: fromUtf16Lossy rest := by
  have hhigh : isHighSurrogate unit = false := by
    rw [isHighSurrogate, decide_eq_false_iff_not]
    omega
  have hlow : isLowSurrogate unit = false := by
    rw [isLowSurrogate, decide_eq_false_iff_not]
    omega
  cases rest with
  | nil => simp [fromUtf16Lossy, hhigh, hlow]
  | cons next rest => simp [fromUtf16Lossy, hhigh, hlow]

/-- A text outside the surrogates and the supplementary planes is read back from its units. -/
theorem fromUtf16Lossy_map {t : Text} (h : ∀ c ∈ t, c.toNat < 0xD800) :
    fromUtf16Lossy (t.map Char.toNat) = t := by
  induction t with
  | nil => rfl
  | cons c t ih =>
    have hc := h c List.mem_cons_self
    have ht : ∀ d ∈ t, d.toNat < 0xD800 := fun d hd => h d (List.mem_cons_of_mem c hd)
    rw [List.map_cons, fromUtf16Lossy_cons (by omega), ih ht, Char.ofNat_toNat]

theorem fromUtf16Lossy_pair {high low : ℕ} (hhigh : isHighSurrogate high)
    (hlow : isLowSurrogate low) (rest : List ℕ) :
    fromUtf16Lossy (high :: low :: rest) =
      Char.ofNat (surrogatePair high low) :: fromUtf16Lossy rest := by
  simp [fromUtf16Lossy, hhigh, hlow]

theorem toNat_lt_or_gt (c : Char) : c.toNat < 0xD800 ∨ 0xDFFF < c.toNat ∧ c.toNat < 0x110000 :=
  c.valid

theorem surrogatePair_split {n : ℕ} (h : 0x10000 ≤ n) :
    surrogatePair (0xD800 + (n - 0x10000) / 0x400) (0xDC00 + (n - 0x10000) % 0x400) = n := by
  unfold surrogatePair
  omega

theorem le_surrogatePair (high low : ℕ) : 0x10000 ≤ surrogatePair high low := by
  unfold surrogatePair
  omega

/-- **A text is read back from its units.** -/
theorem fromUtf16Lossy_encodeUtf16 (t : Text) : fromUtf16Lossy (encodeUtf16 t) = t := by
  induction t with
  | nil => rfl
  | cons c t ih =>
    have hc := toNat_lt_or_gt c
    rw [encodeUtf16, List.flatMap_cons, ← encodeUtf16, utf16Units]
    split_ifs with hsmall
    · rw [List.singleton_append, fromUtf16Lossy_cons (by omega), ih, Char.ofNat_toNat]
    · rw [List.cons_append, List.singleton_append, fromUtf16Lossy_pair
        (by rw [isHighSurrogate, decide_eq_true_eq]; omega)
        (by rw [isLowSurrogate, decide_eq_true_eq]; omega),
        surrogatePair_split (by omega), ih, Char.ofNat_toNat]

/-- A character below the surrogates stands for its own unit only. -/
theorem toNat_mem_of_mem_fromUtf16Lossy {c : Char} (hpos : 0 < c.toNat) (hlt : c.toNat < 0xD800)
    {units : List ℕ} (h : c ∈ fromUtf16Lossy units) : c.toNat ∈ units := by
  have hof {n : ℕ} (hn : c = Char.ofNat n) : n = c.toNat := by
    by_cases hvalid : n.isValidChar
    · rw [hn, Char.ofNat, dif_pos hvalid]
      rfl
    · -- an invalid number reads as the character 0
      rw [hn, Char.ofNat, dif_neg hvalid] at hpos
      exact absurd hpos (by decide)
  have hreplacement : c ≠ '\uFFFD' := by
    rintro rfl
    exact absurd hlt (by decide)
  fun_induction fromUtf16Lossy units with
  | case1 => cases h
  | case2 unit hsur => simp_all
  | case3 unit hsur =>
    rw [List.mem_singleton] at h
    exact hof h ▸ List.mem_cons_self
  | case4 unit next rest hhigh hlow ih =>
    rcases List.mem_cons.mp h with h | h
    · -- the character of a pair lies above every unit
      have hle := le_surrogatePair unit next
      rw [hof h] at hle
      omega
    · exact List.mem_cons_of_mem _ (List.mem_cons_of_mem _ (ih h))
  | case5 unit next rest hhigh hlow ih =>
    rcases List.mem_cons.mp h with h | h
    · exact absurd h hreplacement
    · exact List.mem_cons_of_mem _ (ih h)
  | case6 unit next rest hhigh hlow ih =>
    rcases List.mem_cons.mp h with h | h
    · exact absurd h hreplacement
    · exact List.mem_cons_of_mem _ (ih h)
  | case7 unit next rest hhigh hlow ih =>
    rcases List.mem_cons.mp h with h | h
    · exact hof h ▸ List.mem_cons_self
    · exact List.mem_cons_of_mem _ (ih h)

theorem lt_of_mem_encodeUtf16 {t : Text} {u : ℕ} (h : u ∈ encodeUtf16 t) : u < 2 ^ 16 := by
  obtain ⟨c, -, hu⟩ := List.mem_flatMap.mp h
  have hc := toNat_lt_or_gt c
  unfold utf16Units at hu
  split_ifs at hu with hsmall
  · rw [List.mem_singleton] at hu
    omega
  · simp only [List.mem_cons, List.not_mem_nil, or_false] at hu
    omega

/-- Cut at the first NUL, before or after the encoding. -/
theorem takeWhile_encodeUtf16 (t : Text) :
    (encodeUtf16 t ++ [0]).takeWhile (· ≠ 0) = encodeUtf16 (t.takeWhile (· ≠ '\x00')) := by
  induction t with
  | nil => rfl
  | cons c t ih =>
    rw [encodeUtf16, List.flatMap_cons, ← encodeUtf16, List.append_assoc]
    by_cases hc : c = '\x00'
    · subst hc
      rfl
    · have hunits : ∀ u ∈ utf16Units c, u ≠ 0 := by
        have hpos : c.toNat ≠ 0 := fun h => hc (Char.toNat_inj.mp h)
        intro u hu
        unfold utf16Units at hu
        split_ifs at hu
        · rw [List.mem_singleton] at hu
          omega
        · simp only [List.mem_cons, List.not_mem_nil, or_false] at hu
          omega
      rw [List.takeWhile_append_of_pos (by simpa using hunits), ih, List.takeWhile_cons,
        if_pos (by simpa using hc), encodeUtf16, encodeUtf16, List.flatMap_cons]

end Text
