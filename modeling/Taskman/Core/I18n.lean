import Taskman.Collections.Fill
import Taskman.Text.Basic

/-!
# Messages

A message is a text of the table, in German and in English, with placeholders `{}` for its
arguments.  Process, service and file names are arguments, and may hold any text.

* `I18n.trf` : the message with its arguments;
* `I18n.pieces` : what stands between the placeholders of a template;
* `I18n.Positional` : every argument takes the place of its own placeholder, so the message is the
  pieces with the arguments between them;
* `I18n.positional_iff` : **this holds exactly if no placeholder arises in front of the last one**,
  out of the arguments before it.
-/

namespace Taskman

namespace I18n

/-- The languages of the program. -/
inductive Lang where
  | de
  | en
  deriving DecidableEq

/-- A translatable text: German and English. -/
abbrev Entry := Text × Text

/-- The text of an entry in an explicit language. -/
def trIn (lang : Lang) (entry : Entry) : Text :=
  match lang with
  | .de => entry.1
  | .en => entry.2

/-- What a value is put in the place of. -/
def PLACEHOLDER : Text := "\x7b\x7d".toList

/-- Translate and substitute each placeholder with the given arguments in order. -/
def trf (lang : Lang) (entry : Entry) (args : List Text) : Text :=
  args.foldl (fun s a => Fill.replaceFirst PLACEHOLDER a s) (trIn lang entry)

/-- The literal pieces of a template: what stands between its placeholders. -/
def pieces : Text → List Text
  | [] => [[]]
  | '{' :: '}' :: rest => [] :: pieces rest
  | c :: rest => (pieces rest).modifyHead (c :: ·)

/-- The `i`-th argument is put, unchanged, at the `i`-th placeholder of the template, so that the
message is the pieces in order with the arguments between them. -/
structure Positional (lang : Lang) (entry : Entry) (args : List Text) : Prop where
  message : trf lang entry args = Fill.interleave (pieces (trIn lang entry)) args
  places : Fill.places PLACEHOLDER (trIn lang entry) args =
    Fill.ownPlaces 0 (pieces (trIn lang entry)) args

/-- What the message has in front of the last placeholder, with the arguments in place. -/
def beforeLast (template : Text) (args : List Text) : Text :=
  Fill.interleave (pieces template).dropLast args.dropLast

/-- The placeholder as a pattern. -/
def placeholder : Marker Char where
  text := PLACEHOLDER
  text_ne_nil := by decide
  unbordered := by
    intro u v w hu hw hne
    obtain ⟨c, u, rfl⟩ := List.exists_cons_of_ne_nil hne
    cases v with
    | nil => rfl
    | cons d v =>
      have hfirst : '{' = d := (List.cons.inj hw).1
      have hlast : ['}'] = u ++ d :: v := (List.cons.inj hu).2
      have hmem : d ∈ ['}'] := hlast ▸ List.mem_append_right u List.mem_cons_self
      rw [← hfirst] at hmem
      exact absurd hmem (by decide)

/-! ### Pieces -/

theorem pieces_ne_nil (s : Text) : pieces s ≠ [] := by
  fun_induction pieces s with
  | case1 => exact List.cons_ne_nil _ _
  | case2 => exact List.cons_ne_nil _ _
  | case3 c rest _ ih =>
    rw [Ne, List.modifyHead_eq_nil_iff]
    exact ih

/-- The pieces with placeholders between them are the template. -/
theorem intercalate_pieces (s : Text) : PLACEHOLDER.intercalate (pieces s) = s := by
  fun_induction pieces s with
  | case1 => rfl
  | case2 rest ih =>
    obtain ⟨p, ps, hps⟩ := List.exists_cons_of_ne_nil (pieces_ne_nil rest)
    rw [hps, Fill.intercalate_cons_cons, ← hps, ih]
    rfl
  | case3 c rest _ ih =>
    obtain ⟨p, ps, hps⟩ := List.exists_cons_of_ne_nil (pieces_ne_nil rest)
    rw [hps] at ih ⊢
    rw [List.modifyHead_cons, Fill.intercalate_cons_append, ih]

/-- No piece has a placeholder. -/
theorem not_infix_of_mem_pieces {s p : Text} (h : p ∈ pieces s) : ¬ PLACEHOLDER <:+: p := by
  fun_induction pieces s generalizing p with
  | case1 =>
    obtain rfl := List.mem_singleton.mp h
    decide
  | case2 rest ih =>
    obtain rfl | h := List.mem_cons.mp h
    · decide
    · exact ih h
  | case3 c rest hne ih =>
    obtain ⟨q, qs, hqs⟩ := List.exists_cons_of_ne_nil (pieces_ne_nil rest)
    rw [hqs, List.modifyHead_cons] at h
    obtain rfl | h := List.mem_cons.mp h
    · intro hmark
      rcases List.infix_cons_iff.mp hmark with hfront | hrest
      · -- then the template has a placeholder here
        obtain ⟨rfl, hclose⟩ := List.cons_prefix_cons.mp hfront
        have hq : q <+: rest := by
          rw [← intercalate_pieces rest, hqs]
          exact Fill.prefix_intercalate _ _ _
        obtain ⟨t, rfl⟩ := hclose.trans hq
        exact hne t rfl rfl
      · exact ih (hqs ▸ List.mem_cons_self) hrest
    · exact ih (hqs ▸ List.mem_cons_of_mem _ h)

/-! ### The message -/

/-- **Every argument takes the place of its own placeholder exactly if no placeholder arises in
front of the last one.** -/
theorem positional_iff (lang : Lang) (entry : Entry) (args : List Text)
    (h : (pieces (trIn lang entry)).length = args.length + 1) :
    Positional lang entry args ↔ ¬ PLACEHOLDER <:+: beforeLast (trIn lang entry) args := by
  have htemplate := intercalate_pieces (trIn lang entry)
  have hplaces : Fill.places PLACEHOLDER (trIn lang entry) args =
      Fill.ownPlaces 0 (pieces (trIn lang entry)) args ↔
        ¬ PLACEHOLDER <:+: beforeLast (trIn lang entry) args := by
    rw [beforeLast]
    cases args with
    | nil =>
      obtain ⟨p, hp⟩ := List.length_eq_one_iff.mp h
      have hfree : ¬ PLACEHOLDER <:+: [] := by decide
      rw [hp]
      exact iff_of_true rfl hfree
    | cons a args =>
      obtain ⟨p, ps, hps⟩ := List.exists_cons_of_length_eq_add_one h
      rw [hps] at h htemplate ⊢
      obtain ⟨q, ps, rfl⟩ := List.exists_cons_of_length_eq_add_one (Nat.succ.inj h)
      have hiff := Fill.places_eq_ownPlaces_iff placeholder [] p q a
        (Nat.succ.inj (Nat.succ.inj h))
      rwa [List.nil_append, List.nil_append, List.length_nil, placeholder, htemplate] at hiff
  rw [← hplaces]
  refine ⟨Positional.places, fun hown => ⟨?_, hown⟩⟩
  have hfill := Fill.fill_eq_interleave placeholder [] h
  rw [List.nil_append, List.nil_append, List.length_nil, placeholder, htemplate] at hfill
  exact hfill hown

/-- A message whose template and arguments in front of the last placeholder have no opening brace
is always put together this way. -/
theorem positional_of_notMem {lang : Lang} {entry : Entry} {args : List Text}
    (h : (pieces (trIn lang entry)).length = args.length + 1)
    (hpieces : ∀ p ∈ (pieces (trIn lang entry)).dropLast, '{' ∉ p)
    (hargs : ∀ a ∈ args.dropLast, '{' ∉ a) : Positional lang entry args := by
  refine (positional_iff lang entry args h).mpr fun hmark => ?_
  have hbrace : '{' ∈ beforeLast (trIn lang entry) args :=
    hmark.subset List.mem_cons_self
  rcases Fill.mem_interleave hbrace with ⟨p, hp, hc⟩ | ⟨a, ha, hc⟩
  · exact hpieces p hp hc
  · exact hargs a ha hc

/-- The question before a process is ended: its name and its id. -/
def endProcessConfirm : Entry :=
  ("\"\x7b\x7d\" (PID \x7b\x7d) wirklich beenden? ".toList ++
      "Nicht gespeicherte Daten dieses Prozesses gehen verloren.".toList,
    "End \"\x7b\x7d\" (PID \x7b\x7d)? Unsaved data in this process will be lost.".toList)

theorem positional_notepad :
    Positional .en endProcessConfirm ["notepad.exe".toList, "7".toList] :=
  (positional_iff .en endProcessConfirm ["notepad.exe".toList, "7".toList]
    (by decide +kernel)).mpr (by decide +kernel)

/-- The id is put into a name with a placeholder, and the placeholder of the id stays. -/
theorem not_positional_braces :
    trf .en endProcessConfirm ["a\x7b\x7db.exe".toList, "7".toList] =
        "End \"a7b.exe\" (PID \x7b\x7d)? Unsaved data in this process will be lost.".toList ∧
      ¬ Positional .en endProcessConfirm ["a\x7b\x7db.exe".toList, "7".toList] :=
  ⟨by decide +kernel, fun h => absurd h.message (by decide +kernel)⟩

end I18n

end Taskman
