import Taskman.Text.Utf16
import Mathlib.Data.List.TakeWhile

/-!
# Registry values

What the program writes to the Windows registry and reads from it: value names, which the system
takes up to the first NUL, and data, which for a text are its UTF-16 units with a NUL behind them.

* `RegValue` : the type and the data of a value;
* `RegValue.units` : the text of a value as Windows takes it, up to the first NUL;
* `RegValue.units_text` : **a text that is written is read back**.
-/

namespace Taskman

/-- The name of a registry value; the system takes names up to the first NUL. -/
abbrev RegName := { t : Text // '\x00' ∉ t }

/-- A name handed to the system, `wstr`. -/
def wstr (t : Text) : RegName :=
  ⟨t.takeWhile (· ≠ '\x00'), fun h => by simpa using List.mem_takeWhile_imp h⟩

theorem wstr_val (n : RegName) : wstr n.val = n := by
  refine Subtype.ext (List.takeWhile_eq_self_iff.mpr fun c hc => ?_)
  rw [decide_eq_true_iff]
  rintro rfl
  exact n.property hc

/-- The type and the data of a registry value. -/
structure RegValue where
  kind : ℕ
  data : Bytes
  deriving DecidableEq

/-- `REG_SZ`. -/
def REG_SZ : ℕ := 1

/-- `REG_EXPAND_SZ`. -/
def REG_EXPAND_SZ : ℕ := 2

/-- `REG_BINARY`. -/
def REG_BINARY : ℕ := 3

/-- A text value, of either kind. -/
def RegValue.isText (v : RegValue) : Bool := v.kind == REG_SZ || v.kind == REG_EXPAND_SZ

/-- The code of a registry call that failed, other than for a missing value. -/
structure RegFault where
  code : ℕ
  failed : code ≠ 0 ∧ code ≠ 2

/-- `{status:?}`. -/
def RegFault.display (f : RegFault) : Text :=
  "WIN32_ERROR(".toList ++ Nat.toDigits 10 f.code ++ ")".toList

namespace RegValue

/-- The units of the data, up to the first NUL. -/
def units (v : RegValue) : List ℕ := (Bytes.utf16Units v.data).takeWhile (· ≠ 0)

/-- A text as a value, `wstr` with its NUL. -/
def text (t : Text) : RegValue where
  kind := REG_SZ
  data := (Text.encodeUtf16 t ++ [0]).flatMap (Bytes.toLe 2)

theorem utf16Units_flatMap_toLe {units : List ℕ} (h : ∀ u ∈ units, u < 2 ^ 16) :
    Bytes.utf16Units (units.flatMap (Bytes.toLe 2)) = units := by
  induction units with
  | nil => rfl
  | cons u units ih =>
    have hu := h u List.mem_cons_self
    have hpair : Bytes.toLe 2 u = [UInt8.ofNat u, UInt8.ofNat (u / 256)] := rfl
    have hword : (UInt8.ofNat u).toNat + 256 * (UInt8.ofNat (u / 256)).toNat = u := by
      simp only [UInt8.toNat_ofNat']
      omega
    rw [List.flatMap_cons, hpair, List.cons_append, List.singleton_append, Bytes.utf16Units, hword,
      ih fun w hw => h w (List.mem_cons_of_mem u hw)]

theorem length_data_text (t : Text) :
    (text t).data.length = 2 * ((Text.encodeUtf16 t).length + 1) := by
  have hlen (l : List ℕ) : (l.flatMap (Bytes.toLe 2)).length = 2 * l.length := by
    induction l with
    | nil => rfl
    | cons u l ih =>
      rw [List.flatMap_cons, List.length_append, Bytes.length_toLe, ih, List.length_cons]
      omega
  rw [text, hlen, List.length_append, List.length_singleton]

/-- **A text that is written is read back, up to its first NUL.** -/
theorem units_text (t : Text) :
    (text t).units = Text.encodeUtf16 (t.takeWhile (· ≠ '\x00')) := by
  have hbound : ∀ u ∈ Text.encodeUtf16 t ++ [0], u < 2 ^ 16 := by
    intro u hu
    rcases List.mem_append.mp hu with hu | hu
    · exact Text.lt_of_mem_encodeUtf16 hu
    · rw [List.mem_singleton] at hu
      omega
  rw [units, text, utf16Units_flatMap_toLe hbound, Text.takeWhile_encodeUtf16]

end RegValue

end Taskman
