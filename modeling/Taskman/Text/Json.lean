import Taskman.Text.Basic
import Mathlib.Algebra.Group.Action.Defs
import Mathlib.Algebra.Order.BigOperators.Group.List
import Mathlib.Data.Nat.Digits.Defs
import Mathlib.Tactic.NormNum

/-!
# JSON as text

The compact JSON a serializer writes, and how long it is.  Every part is written as the text of its
own parts, so the length of a value is a sum over them.

* `Json.str`, `Json.nat`, `Json.int`, `Json.array`, `Json.object` : the writers;
* `Text.utf8` : the bytes of a text;
* `Json.utf8Len_array_le`, `Json.utf8Len_object_le` : **the length of a list and of a record, from
  the lengths of its items and of its fields**.
-/

namespace Text

theorem utf8Len_append (s t : Text) : utf8Len (s ++ t) = utf8Len s + utf8Len t := by
  rw [utf8Len, List.map_append, List.sum_append]
  rfl

theorem utf8Len_cons (c : Char) (t : Text) : utf8Len (c :: t) = c.utf8Size + utf8Len t := by
  rw [utf8Len, List.map_cons, List.sum_cons]
  rfl

/-- A text in UTF-8. -/
def utf8 (t : Text) : List UInt8 := t.flatMap String.utf8EncodeChar

theorem length_utf8 (t : Text) : t.utf8.length = utf8Len t := by
  simp [utf8, utf8Len, List.length_flatMap]

theorem utf8Len_of_ascii {t : Text} (h : ∀ c ∈ t, c.toNat < 128) : utf8Len t = t.length := by
  have hone : ∀ c ∈ t, c.utf8Size = 1 := fun c hc =>
    Char.utf8Size_eq_one_iff.mpr (UInt32.le_iff_toNat_le.mpr (Nat.le_of_lt_succ (h c hc)))
  rw [utf8Len, List.map_congr_left hone, List.map_const', List.sum_replicate, smul_eq_mul, mul_one]

end Text

namespace Json

open Text

/-! ### Writers -/

/-- The digits of an escape. -/
def hexDigits : List Char :=
  ['0', '1', '2', '3', '4', '5', '6', '7', '8', '9', 'a', 'b', 'c', 'd', 'e', 'f']

/-- A hexadecimal digit. -/
def hexDigit (n : ℕ) : Char := hexDigits[n]?.getD '0'

/-- A character inside the quotes of a string. -/
def escape (c : Char) : Text :=
  if c = '\x22' then ['\\', '\x22']
  else if c = '\\' then ['\\', '\\']
  else if c.toNat = 8 then ['\\', 'b']
  else if c.toNat = 9 then ['\\', 't']
  else if c.toNat = 10 then ['\\', 'n']
  else if c.toNat = 12 then ['\\', 'f']
  else if c.toNat = 13 then ['\\', 'r']
  else if c.toNat < 32 then
    ['\\', 'u', '0', '0', hexDigit (c.toNat / 16), hexDigit (c.toNat % 16)]
  else [c]

/-- A string, quoted. -/
def str (t : Text) : Text := '\x22' :: t.flatMap escape ++ ['\x22']

/-- A number without a sign. -/
def nat (n : ℕ) : Text := Nat.toDigits 10 n

/-- A number. -/
def int (z : ℤ) : Text := if z < 0 then '-' :: nat z.natAbs else nat z.natAbs

/-- A truth value. -/
def bool (b : Bool) : Text := if b then "true".toList else "false".toList

/-- A value that may be missing. -/
def option {α : Type} (f : α → Text) : Option α → Text
  | none => "null".toList
  | some a => f a

/-- A list of values. -/
def array (items : List Text) : Text := '[' :: [','].intercalate items ++ [']']

/-- One field of a record. -/
def field (f : String × Text) : Text := str f.1.toList ++ ':' :: f.2

/-- A list of fields. -/
def object (fields : List (String × Text)) : Text :=
  '\x7b' :: [','].intercalate (fields.map field) ++ ['\x7d']

/-! ### Lengths -/

theorem utf8Len_nat_le {n w : ℕ} (hw : 0 < w) (h : n < 10 ^ w) : utf8Len (nat n) ≤ w := by
  have hdigit : ∀ c ∈ nat n, c.toNat < 128 := by
    intro c hc
    have h := Nat.isDigit_of_mem_toDigits (by norm_num) (by norm_num) hc
    have hle := (Char.isDigit_iff_toNat.mp h).2
    have hnine : '9'.toNat = 57 := rfl
    omega
  rw [utf8Len_of_ascii hdigit]
  exact (Nat.length_toDigits_le_iff (by norm_num) hw).mpr h

theorem utf8Len_bool_le (b : Bool) : utf8Len (bool b) ≤ 5 := by cases b <;> decide

theorem utf8Size_hexDigit (n : ℕ) : (hexDigit n).utf8Size = 1 := by
  have hall : hexDigits.all (fun c => c.utf8Size = 1) := by decide
  unfold hexDigit
  cases h : hexDigits[n]? with
  | none => rfl
  | some c => exact of_decide_eq_true (List.all_eq_true.mp hall c (List.mem_of_getElem? h))

theorem utf8Len_escape_le (c : Char) : utf8Len (escape c) ≤ 6 * c.utf8Size := by
  have hpos := c.utf8Size_pos
  have hlen : utf8Len (escape c) ≤ 6 ∨ escape c = [c] := by
    unfold escape
    split_ifs
    · exact Or.inl (by decide)
    · exact Or.inl (by decide)
    · exact Or.inl (by decide)
    · exact Or.inl (by decide)
    · exact Or.inl (by decide)
    · exact Or.inl (by decide)
    · exact Or.inl (by decide)
    · left
      have hfront : utf8Len ['\\', 'u', '0', '0'] = 4 := by decide
      rw [show ∀ a b : Char, (['\\', 'u', '0', '0', a, b] : Text) = ['\\', 'u', '0', '0'] ++ [a, b]
        from fun _ _ => rfl, utf8Len_append, hfront, utf8Len_cons, utf8Len_cons, utf8Size_hexDigit,
        utf8Size_hexDigit]
      rfl
    · exact Or.inr rfl
  rcases hlen with hlen | hlen
  · omega
  · rw [hlen, utf8Len_cons]
    have hnil : utf8Len [] = 0 := rfl
    omega

/-- A string is at most six times as long as its text, and its quotes. -/
theorem utf8Len_str_le (t : Text) : utf8Len (str t) ≤ 6 * utf8Len t + 2 := by
  have hbody : utf8Len (t.flatMap escape) ≤ 6 * utf8Len t := by
    induction t with
    | nil => exact le_rfl
    | cons c t ih =>
      have hc := utf8Len_escape_le c
      rw [List.flatMap_cons, utf8Len_append, utf8Len_cons]
      omega
  have hopen : Char.utf8Size '\x22' = 1 := rfl
  have hclose : utf8Len ['\x22'] = 1 := rfl
  rw [str, List.cons_append, utf8Len_cons, utf8Len_append]
  omega

theorem utf8Len_commas (items : List Text) :
    utf8Len ([','].intercalate items) + 1 ≤ (items.map fun t => utf8Len t + 1).sum + 1 := by
  induction items with
  | nil => exact le_rfl
  | cons t items ih =>
    cases items with
    | nil => simp
    | cons u items =>
      rw [List.intercalate_cons_cons, utf8Len_append, utf8Len_append, List.map_cons, List.sum_cons]
      have hcomma : utf8Len [','] = 1 := rfl
      omega

/-- **A list**: its items, a comma after each, and the two brackets. -/
theorem utf8Len_array_le (items : List Text) :
    utf8Len (array items) ≤ (items.map fun t => utf8Len t + 1).sum + 2 := by
  have h := utf8Len_commas items
  have hopen : Char.utf8Size '[' = 1 := rfl
  have hclose : utf8Len [']'] = 1 := rfl
  rw [array, List.cons_append, utf8Len_cons, utf8Len_append]
  omega

/-- **A record**: its fields, each with its name, a colon and a comma, and the two braces. -/
theorem utf8Len_object_le (fields : List (String × Text)) :
    utf8Len (object fields) ≤
      (fields.map fun f => utf8Len (str f.1.toList) + utf8Len f.2 + 2).sum + 2 := by
  have h := utf8Len_commas (fields.map field)
  have hopen : Char.utf8Size '\x7b' = 1 := rfl
  have hclose : utf8Len ['\x7d'] = 1 := rfl
  have hfield : ∀ f : String × Text,
      utf8Len (field f) + 1 = utf8Len (str f.1.toList) + utf8Len f.2 + 2 := by
    intro f
    have hcolon : Char.utf8Size ':' = 1 := rfl
    rw [field, utf8Len_append, utf8Len_cons]
    omega
  rw [List.map_map, Function.comp_def] at h
  simp only [hfield] at h
  rw [object, List.cons_append, utf8Len_cons, utf8Len_append]
  omega

/-- A list of items that are all small. -/
theorem utf8Len_array_le_of_forall {items : List Text} {b : ℕ}
    (h : ∀ t ∈ items, utf8Len t ≤ b) : utf8Len (array items) ≤ items.length * (b + 1) + 2 := by
  have hsum : (items.map fun t => utf8Len t + 1).sum ≤ items.length * (b + 1) := by
    rw [← smul_eq_mul, ← List.length_map (f := fun t => utf8Len t + 1)]
    refine List.sum_le_card_nsmul _ _ fun n hn => ?_
    obtain ⟨t, ht, rfl⟩ := List.mem_map.mp hn
    exact Nat.succ_le_succ (h t ht)
  exact (utf8Len_array_le items).trans (Nat.add_le_add_right hsum 2)

end Json
