import Taskman.Binary.Bytes
import Mathlib.Logic.Encodable.Basic
import Mathlib.Logic.Equiv.List

/-!
# Codecs

A codec writes values as byte strings and reads them back.

* `Codec` : an encoder and a decoder, with the law that relates them;
* `Codec.tagged`, `Codec.encodable` : codecs that put a tag before the value;
* `Codec.overridden` : a codec that writes some values in a way of its own.
-/

/-- An encoder with its decoder. -/
structure Codec (α : Type*) where
  encode : α → Bytes
  decode : Bytes → Option α
  decode_encode : ∀ a, decode (encode a) = some a

namespace Codec

variable {α : Type*}

/-- The bytes themselves, behind a tag. -/
def tagged (tag : UInt8) : Codec Bytes where
  encode bs := tag :: bs
  decode
    | [] => none
    | b :: bs => if b = tag then some bs else none
  decode_encode _ := if_pos rfl

/-- As many bytes as the number of the value, behind two tags. -/
def encodable [Encodable α] (tag : UInt8) : Codec α where
  encode a := tag :: tag :: List.replicate (Encodable.encode a) tag
  decode bs := Encodable.decode (bs.length - 2)
  decode_encode a := by
    rw [List.length_cons, List.length_cons, List.length_replicate]
    exact Encodable.encodek a

theorem encode_tagged_ne {tag : UInt8} {bs' : Bytes} (h : bs'.head? ≠ some tag) (bs : Bytes) :
    (tagged tag).encode bs ≠ bs' := by
  rintro rfl
  exact h rfl

theorem encode_encodable_ne [Encodable α] {tag : UInt8} {bs : Bytes} (h : bs.head? ≠ some tag)
    (a : α) : (encodable tag).encode a ≠ bs := by
  rintro rfl
  exact h rfl

variable [DecidableEq α] (c : Codec α) (table : List (α × Bytes))

/-- The values of a table are written as the table says, and all others by the codec `c`. -/
def overridden (htable : ∀ p ∈ table, ∀ q ∈ table, p.2 = q.2 → p.1 = q.1)
    (hother : ∀ p ∈ table, ∀ a, c.encode a ≠ p.2) : Codec α where
  encode a :=
    match table.find? (·.1 = a) with
    | some p => p.2
    | none => c.encode a
  decode bs :=
    match table.find? (·.2 = bs) with
    | some p => some p.1
    | none => c.decode bs
  decode_encode a := by
    cases hfind : table.find? (·.1 = a) with
    | some p =>
      have hp := List.mem_of_find?_eq_some hfind
      have ha : p.1 = a := by simpa using List.find?_some hfind
      cases hback : table.find? (·.2 = p.2) with
      | some q =>
        have hq : q.2 = p.2 := by simpa using List.find?_some hback
        show some q.1 = some a
        rw [htable q (List.mem_of_find?_eq_some hback) p hp hq, ha]
      | none => exact absurd (decide_eq_true rfl) (List.find?_eq_none.mp hback p hp)
    | none =>
      have hback : table.find? (·.2 = c.encode a) = none := by
        refine List.find?_eq_none.mpr fun p hp h => ?_
        exact hother p hp a (of_decide_eq_true h).symm
      simp only [hback]
      exact c.decode_encode a

/-- What is true of the bytes in the table and of the codec's own is true of all encodings. -/
theorem encode_overridden {P : Bytes → Prop}
    {htable : ∀ p ∈ table, ∀ q ∈ table, p.2 = q.2 → p.1 = q.1}
    {hother : ∀ p ∈ table, ∀ a, c.encode a ≠ p.2} (hP : ∀ p ∈ table, P p.2)
    (hc : ∀ a, P (c.encode a)) (a : α) : P ((c.overridden table htable hother).encode a) := by
  simp only [overridden]
  cases hfind : table.find? (·.1 = a) with
  | some p => exact hP p (List.mem_of_find?_eq_some hfind)
  | none => exact hc a

end Codec
