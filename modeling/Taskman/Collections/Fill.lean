import Mathlib.Data.List.Basic
import Mathlib.Data.List.Infix

/-!
# Filling in a text

A text with marks is filled in by replacing, for one argument after the other, the first mark that
the text then has.  The text searched holds the arguments put in before, so this is the simultaneous
substitution only as long as none of them brings a mark of its own.

* `Marker` : a pattern no two occurrences of which overlap;
* `fill`, `places` : the replacements one after the other, and where they happen;
* `interleave`, `ownPlaces` : the simultaneous substitution, and where its marks are;
* `places_eq_ownPlaces_iff` : **the replacements happen at the marks of the text itself exactly if
  what the last of them leaves in front of it is free of marks**;
* `fill_eq_interleave` : then the text is filled in as by the simultaneous substitution.
-/

namespace Taskman

/-- A pattern no two occurrences of which overlap. -/
structure Marker (α : Type*) where
  text : List α
  text_ne_nil : text ≠ []
  /-- No part at its end is also at its beginning. -/
  unbordered : ∀ {u v w : List α}, text = u ++ v → text = v ++ w → u ≠ [] → v = []

namespace Fill

variable {α : Type*} [DecidableEq α]

/-- `s.replacen(mark, new, 1)` -/
def replaceFirst (mark new s : List α) : List α :=
  (s.dropInfix? mark).elim s fun split => split.1 ++ new ++ split.2

/-- Every argument replaces the first mark that is there at its turn. -/
def fill (mark s : List α) (args : List (List α)) : List α :=
  args.foldl (fun s new => replaceFirst mark new s) s

/-- Where each argument is put at its turn. -/
def places (mark : List α) : List α → List (List α) → List (Option ℕ)
  | _, [] => []
  | s, new :: args =>
    ((s.dropInfix? mark).map fun split => split.1.length) ::
      places mark (replaceFirst mark new s) args

/-- The pieces in order, with an argument after each one as long as there are any. -/
def interleave : List (List α) → List (List α) → List α
  | [], _ => []
  | piece :: pieces, args => piece ++ (args.headD [] ++ interleave pieces args.tail)

/-- Where the marks between the pieces are, from a position on, once the arguments in front of them
are in place. -/
def ownPlaces (start : ℕ) : List (List α) → List (List α) → List (Option ℕ)
  | piece :: pieces, new :: args =>
    some (start + piece.length) :: ownPlaces (start + piece.length + new.length) pieces args
  | _, _ => []

/-! ### The first occurrence -/

/-- What stands in front of a mark has none exactly if the mark is the first one. -/
theorem dropInfix?_append_iff (mark : Marker α) (x y : List α) :
    (x ++ mark.text ++ y).dropInfix? mark.text = some (x, y) ↔ ¬ mark.text <:+: x := by
  rw [List.dropInfix?_eq_some_iff]
  constructor
  · rintro ⟨-, hfirst⟩ ⟨u, v, rfl⟩
    have hle := hfirst u mark.text (v ++ (mark.text ++ y)) (by simp [List.append_assoc]) (by simp)
    have hpos := List.length_pos_iff.mpr mark.text_ne_nil
    simp only [List.length_append] at hle
    omega
  · intro hfree
    refine ⟨⟨mark.text, rfl, by simp⟩, fun u m v h hm => ?_⟩
    obtain rfl : m = mark.text := eq_of_beq hm
    by_contra hlt
    rw [List.append_assoc, List.append_assoc] at h
    obtain ⟨w, rfl, -⟩ | ⟨w, rfl, hw⟩ := List.append_eq_append_iff.mp h
    · simp only [List.length_append] at hlt
      omega
    · have hne : w ≠ [] := by
        rintro rfl
        simp at hlt
      obtain ⟨z, hz, hz'⟩ | ⟨z, rfl, -⟩ := List.append_eq_append_iff.mp hw.symm
      · -- the earlier mark ends within the mark: a part at its end is also at its beginning
        obtain ⟨r, hr⟩ : z <+: mark.text := by
          refine List.prefix_of_prefix_length_le ⟨v, rfl⟩ (hz' ▸ List.prefix_append _ _) ?_
          rw [hz, List.length_append]
          omega
        obtain rfl := mark.unbordered hz hr.symm hne
        rw [List.append_nil] at hz
        exact hfree ⟨u, [], by rw [hz, List.append_nil]⟩
      · -- it ends in front of it
        exact hfree ⟨u, z, by rw [List.append_assoc]⟩

/-- Where the first mark is, for a text with one at its place. -/
theorem dropInfix?_length_iff (mark : Marker α) (x y : List α) :
    ((x ++ mark.text ++ y).dropInfix? mark.text).map (fun split => split.1.length) =
      some x.length ↔ ¬ mark.text <:+: x := by
  rw [← dropInfix?_append_iff mark x y, Option.map_eq_some_iff]
  constructor
  · rintro ⟨⟨before, after⟩, hsplit, hlen⟩
    obtain ⟨⟨m, hm, hmark⟩, -⟩ := List.dropInfix?_eq_some_iff.mp hsplit
    obtain rfl : m = mark.text := eq_of_beq hmark
    rw [List.append_assoc, List.append_assoc] at hm
    obtain ⟨rfl, hrest⟩ := List.append_inj hm hlen.symm
    obtain rfl := List.append_cancel_left hrest
    exact hsplit
  · intro h
    exact ⟨(x, y), h, rfl⟩

theorem replaceFirst_append {mark : Marker α} {x : List α} (h : ¬ mark.text <:+: x)
    (new y : List α) : replaceFirst mark.text new (x ++ mark.text ++ y) = x ++ new ++ y := by
  rw [replaceFirst, (dropInfix?_append_iff mark x y).mpr h]
  rfl

/-! ### One argument after the other -/

omit [DecidableEq α] in
theorem intercalate_cons_cons (mark p q : List α) (ps : List (List α)) :
    mark.intercalate (p :: q :: ps) = p ++ mark ++ mark.intercalate (q :: ps) := by
  simp [List.intercalate, List.intersperse]

omit [DecidableEq α] in
theorem intercalate_cons_append (mark : List α) (c : α) (p : List α) (ps : List (List α)) :
    mark.intercalate ((c :: p) :: ps) = c :: mark.intercalate (p :: ps) := by
  cases ps with
  | nil => simp
  | cons q ps => simp only [intercalate_cons_cons, List.cons_append]

omit [DecidableEq α] in
theorem prefix_intercalate (mark p : List α) (ps : List (List α)) :
    p <+: mark.intercalate (p :: ps) := by
  cases ps with
  | nil => simp
  | cons q ps =>
    rw [intercalate_cons_cons, List.append_assoc]
    exact List.prefix_append _ _

omit [DecidableEq α] in
theorem interleave_cons_nil (p : List α) : interleave [p] ([] : List (List α)) = p := by
  simp [interleave]

omit [DecidableEq α] in
theorem mem_interleave {c : α} {ps args : List (List α)} (h : c ∈ interleave ps args) :
    (∃ p ∈ ps, c ∈ p) ∨ ∃ a ∈ args, c ∈ a := by
  induction ps generalizing args with
  | nil => cases h
  | cons p ps ih =>
    rw [interleave, List.mem_append, List.mem_append] at h
    rcases h with hp | ha | hrest
    · exact Or.inl ⟨p, List.mem_cons_self, hp⟩
    · cases args with
      | nil => cases ha
      | cons a args => exact Or.inr ⟨a, List.mem_cons_self, ha⟩
    · rcases ih hrest with ⟨q, hq, hc⟩ | ⟨a, ha, hc⟩
      · exact Or.inl ⟨q, List.mem_cons_of_mem p hq, hc⟩
      · exact Or.inr ⟨a, List.mem_of_mem_tail ha, hc⟩

/-- What a step leaves: the text in front of the next mark has grown by the argument and a piece. -/
theorem places_step (mark : Marker α) (x p q new : List α) (ps args : List (List α)) :
    places mark.text (x ++ mark.text.intercalate (p :: q :: ps)) (new :: args) =
        ownPlaces x.length (p :: q :: ps) (new :: args) ↔
      ¬ mark.text <:+: x ++ p ∧
        places mark.text (x ++ p ++ new ++ mark.text.intercalate (q :: ps)) args =
          ownPlaces (x ++ p ++ new).length (q :: ps) args := by
  have hsplit : x ++ mark.text.intercalate (p :: q :: ps) =
      x ++ p ++ mark.text ++ mark.text.intercalate (q :: ps) := by
    rw [intercalate_cons_cons]
    simp only [List.append_assoc]
  have hplace := dropInfix?_length_iff mark (x ++ p) (mark.text.intercalate (q :: ps))
  rw [hsplit, places, ownPlaces, List.cons.injEq, ← List.length_append, hplace,
    ← List.length_append]
  refine and_congr_right fun hfree => ?_
  rw [replaceFirst_append hfree]

/-- **The replacements happen at the marks of the text itself exactly if what the last of them
leaves in front of it is free of marks.** -/
theorem places_eq_ownPlaces_iff (mark : Marker α) (x p q new : List α) {ps args : List (List α)}
    (h : ps.length = args.length) :
    places mark.text (x ++ mark.text.intercalate (p :: q :: ps)) (new :: args) =
        ownPlaces x.length (p :: q :: ps) (new :: args) ↔
      ¬ mark.text <:+: x ++ interleave (p :: q :: ps).dropLast (new :: args).dropLast := by
  induction args generalizing x p q new ps with
  | nil =>
    obtain rfl := List.eq_nil_of_length_eq_zero h
    rw [places_step, List.dropLast_cons_cons, List.dropLast_singleton, List.dropLast_singleton,
      interleave_cons_nil]
    simp [places, ownPlaces]
  | cons next args ih =>
    obtain ⟨r, ps, rfl⟩ := List.exists_cons_of_length_eq_add_one h
    have hrest := ih (x ++ p ++ new) q r next (Nat.succ.inj h)
    rw [places_step, hrest]
    simp only [List.dropLast_cons_cons, interleave, List.headD_cons, List.tail_cons,
      List.append_assoc]
    refine ⟨fun h => h.2, fun hfree => ⟨fun hmark => hfree ?_, hfree⟩⟩
    rw [← List.append_assoc]
    exact List.infix_append_of_infix_left hmark

/-- **Then the text is filled in as by the simultaneous substitution.** -/
theorem fill_eq_interleave (mark : Marker α) (x : List α) {ps args : List (List α)}
    (h : ps.length = args.length + 1)
    (hplaces : places mark.text (x ++ mark.text.intercalate ps) args =
      ownPlaces x.length ps args) :
    fill mark.text (x ++ mark.text.intercalate ps) args = x ++ interleave ps args := by
  induction args generalizing x ps with
  | nil =>
    obtain ⟨p, rfl⟩ := List.length_eq_one_iff.mp h
    rw [interleave_cons_nil]
    simp [fill]
  | cons new args ih =>
    obtain ⟨p, ps, rfl⟩ := List.exists_cons_of_length_eq_add_one h
    obtain ⟨q, ps, rfl⟩ := List.exists_cons_of_length_eq_add_one (Nat.succ.inj h)
    obtain ⟨hfree, hrest⟩ := (places_step mark x p q new ps args).mp hplaces
    have hnext := ih (x ++ p ++ new) (Nat.succ.inj h) hrest
    calc fill mark.text (x ++ mark.text.intercalate (p :: q :: ps)) (new :: args)
      _ = fill mark.text (x ++ p ++ new ++ mark.text.intercalate (q :: ps)) args := by
        rw [fill, List.foldl_cons, intercalate_cons_cons, ← List.append_assoc,
          ← List.append_assoc, replaceFirst_append hfree]
        rfl
      _ = x ++ p ++ new ++ interleave (q :: ps) args := hnext
      _ = x ++ interleave (p :: q :: ps) (new :: args) := by
        simp only [interleave, List.headD_cons, List.tail_cons, List.append_assoc]

end Fill

end Taskman
