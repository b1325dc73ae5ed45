import Taskman.Text.Basic
import Mathlib.Algebra.Order.Group.Nat
import Mathlib.Data.List.Count

/-!
# Arguments of a Windows command line

The rules by which a command line becomes a list of arguments: spaces and tabs outside quotes
separate arguments, a run of backslashes stands for itself unless a quote follows it, and before a
quote two backslashes stand for one and an odd one makes the quote literal.  Where the parsers in
use differ (two quotes in a row inside quotes) the plain rule is taken.

* `Text.Splitter` : a parser in the middle of a text;
* `Text.splitArgs` : the arguments of a text;
* `Text.countP_splitArgs` : **the arguments hold every character without a role, as often as the
  text does**.
-/

namespace Text

/-- Separates arguments outside quotes. -/
def isSeparator (c : Char) : Bool := c == ' ' || c == '\t'

/-- A parser in the middle of a text. -/
structure Splitter where
  /-- The arguments that are complete. -/
  done : List Text
  /-- The argument being read, without the backslashes at its end. -/
  current : Option Text
  /-- Backslashes whose meaning depends on what follows. -/
  slashes : ℕ
  quoted : Bool

namespace Splitter

/-- Nothing read. -/
def start : Splitter := ⟨[], none, 0, false⟩

/-- The argument being read, if the text ended here. -/
def pending (s : Splitter) : Text := s.current.getD [] ++ List.replicate s.slashes '\\'

/-- The arguments, if the text ended here. -/
def finish (s : Splitter) : List Text :=
  match s.current with
  | none => s.done
  | some _ => s.done ++ [s.pending]

/-- The next character. -/
def feed (s : Splitter) (c : Char) : Splitter :=
  if c = '\\' then { s with current := some (s.current.getD []), slashes := s.slashes + 1 }
  else if c = '"' then
    let text := s.current.getD [] ++ List.replicate (s.slashes / 2) '\\'
    if s.slashes % 2 = 1 then { s with current := some (text ++ ['"']), slashes := 0 }
    else { s with current := some text, slashes := 0, quoted := !s.quoted }
  else if isSeparator c && !s.quoted then ⟨s.finish, none, 0, false⟩
  else { s with current := some (s.pending ++ [c]), slashes := 0 }

end Splitter

/-- The arguments of a text. -/
def splitArgs (t : Text) : List Text := (t.foldl Splitter.feed Splitter.start).finish

namespace Splitter

/-! ### What a character does -/

variable (s : Splitter)

theorem finish_of_isSome (h : s.current.isSome) : s.finish = s.done ++ [s.pending] := by
  obtain ⟨text, htext⟩ := Option.isSome_iff_exists.mp h
  rw [finish, htext]

theorem feed_backslash :
    s.feed '\\' = { s with current := some (s.current.getD []), slashes := s.slashes + 1 } := by
  simp [feed]

theorem feed_quote_odd (h : s.slashes % 2 = 1) :
    s.feed '"' = { s with
      current := some (s.current.getD [] ++ List.replicate (s.slashes / 2) '\\' ++ ['"'])
      slashes := 0 } := by
  simp [feed, h]

theorem feed_quote_even (h : s.slashes % 2 = 0) :
    s.feed '"' = { s with
      current := some (s.current.getD [] ++ List.replicate (s.slashes / 2) '\\')
      slashes := 0
      quoted := !s.quoted } := by
  simp [feed, h]

theorem feed_separator {c : Char} (hc : isSeparator c) (hq : s.quoted = false) :
    s.feed c = ⟨s.finish, none, 0, false⟩ := by
  have hchar : c ≠ '\\' ∧ c ≠ '"' := by
    constructor <;> rintro rfl <;> exact absurd hc (by decide)
  simp [feed, hchar, hc, hq]

theorem feed_literal {c : Char} (hslash : c ≠ '\\') (hquote : c ≠ '"')
    (hsep : s.quoted = false → isSeparator c = false) :
    s.feed c = { s with current := some (s.pending ++ [c]), slashes := 0 } := by
  have hcond : (isSeparator c && !s.quoted) = false := by
    cases hq : s.quoted
    · simp [hsep hq]
    · simp
  simp [feed, hslash, hquote, hcond]

/-! ### Backslashes -/

theorem foldl_feed_replicate (k : ℕ) (text : Text) (d : List Text) (n : ℕ) (q : Bool) :
    (List.replicate k '\\').foldl feed ⟨d, some text, n, q⟩ = ⟨d, some text, n + k, q⟩ := by
  induction k generalizing n with
  | zero => rfl
  | succ k ih =>
    rw [List.replicate_succ, List.foldl_cons, feed_backslash, Option.getD_some, ih]
    simp only [Splitter.mk.injEq, true_and, and_true]
    omega

theorem foldl_feed_doubled (n : ℕ) (text : Text) (d : List Text) (q : Bool) :
    (List.replicate n '\\' ++ ['"']).foldl feed ⟨d, some text, n, q⟩ =
      ⟨d, some (text ++ List.replicate n '\\'), 0, !q⟩ := by
  rw [List.foldl_append, foldl_feed_replicate, List.foldl_cons, List.foldl_nil,
    feed_quote_even _ (by simp; omega)]
  have hhalf : (n + n) / 2 = n := by omega
  simp [hhalf]

theorem foldl_feed_escaped (n : ℕ) (text : Text) (d : List Text) (q : Bool) :
    (List.replicate n '\\' ++ ['\\', '"']).foldl feed ⟨d, some text, n, q⟩ =
      ⟨d, some (text ++ List.replicate n '\\' ++ ['"']), 0, q⟩ := by
  rw [List.foldl_append, foldl_feed_replicate, List.foldl_cons, List.foldl_cons, List.foldl_nil,
    feed_backslash, feed_quote_odd _ (by simp; omega)]
  have hhalf : (n + n + 1) / 2 = n := by omega
  simp [hhalf]

/-! ### Arguments without quotes -/

/-- An argument without separators or quotes, in the middle of a text. -/
theorem foldl_feed_plain {t : Text} (hsep : ∀ c ∈ t, isSeparator c = false) (hquote : '"' ∉ t)
    (hs : s.quoted = false) :
    (t.foldl feed s).done = s.done ∧ (t.foldl feed s).quoted = false ∧
      (t.foldl feed s).pending = s.pending ++ t ∧
      ((t.foldl feed s).current.isSome = (s.current.isSome || !t.isEmpty)) := by
  induction t generalizing s with
  | nil => simp [hs]
  | cons c t ih =>
    have hc : c ≠ '"' := fun h => hquote (h ▸ List.mem_cons_self)
    have hone : (s.feed c).done = s.done ∧ (s.feed c).quoted = false ∧
        (s.feed c).pending = s.pending ++ [c] ∧ (s.feed c).current.isSome := by
      by_cases hslash : c = '\\'
      · subst hslash
        rw [feed_backslash]
        exact ⟨rfl, hs, by simp [pending, List.replicate_succ'], rfl⟩
      · rw [s.feed_literal hslash hc fun _ => hsep c List.mem_cons_self]
        exact ⟨rfl, hs, by simp [pending], rfl⟩
    obtain ⟨hdone, hq, hpending, hsome⟩ := hone
    obtain ⟨ihdone, ihq, ihpending, ihsome⟩ := ih (s.feed c)
      (fun d hd => hsep d (List.mem_cons_of_mem c hd))
      (fun h => hquote (List.mem_cons_of_mem c h)) hq
    rw [List.foldl_cons]
    refine ⟨ihdone.trans hdone, ihq, ?_, ?_⟩
    · rw [ihpending, hpending, List.append_assoc, List.singleton_append]
    · simp [ihsome, hsome]

/-! ### Characters without a role -/

/-- How many characters of a kind the arguments hold, if the text ended here. -/
def held (p : Char → Bool) (s : Splitter) : ℕ := s.finish.flatten.countP p

/-- Backslashes, quotes and separators are of another kind. -/
structure Inert (p : Char → Bool) : Prop where
  backslash : p '\\' = false
  quote : p '"' = false
  separator : ∀ c, isSeparator c → p c = false

variable {p : Char → Bool} (hp : Inert p)

include hp in
theorem held_eq : held p s = s.done.flatten.countP p + (s.current.getD []).countP p := by
  have hrun : (List.replicate s.slashes '\\').countP p = 0 := by
    simp [List.countP_eq_zero, List.mem_replicate, hp.backslash]
  cases hcur : s.current with
  | none => simp [held, finish, hcur]
  | some text => simp [held, finish, hcur, pending, hrun]

include hp in
/-- A character adds itself. -/
theorem held_feed (c : Char) : held p (s.feed c) = held p s + [c].countP p := by
  have hrun (n : ℕ) : (List.replicate n '\\').countP p = 0 := by
    simp [List.countP_eq_zero, List.mem_replicate, hp.backslash]
  have hpending : s.pending.countP p = (s.current.getD []).countP p := by
    simp [pending, hrun]
  by_cases hslash : c = '\\'
  · subst hslash
    rw [feed_backslash]
    simp [held_eq _ hp, hp.backslash]
  by_cases hquote : c = '"'
  · subst hquote
    rcases Nat.mod_two_eq_zero_or_one s.slashes with h | h
    · rw [feed_quote_even _ h]
      simp [held_eq _ hp, hp.quote, hrun]
    · rw [feed_quote_odd _ h]
      simp [held_eq _ hp, hp.quote, hrun]
  by_cases hsep : isSeparator c ∧ s.quoted = false
  · rw [feed_separator _ hsep.1 hsep.2]
    simp [held, finish, hp.separator c hsep.1]
  · have hlit : s.quoted = false → isSeparator c = false := by
      intro hq
      exact Bool.eq_false_iff.mpr fun h => hsep ⟨h, hq⟩
    rw [feed_literal _ hslash hquote hlit]
    simp [held_eq _ hp, hpending, List.countP_cons, Nat.add_assoc]

end Splitter

/-- **The arguments hold every character without a role, as often as the text does.** -/
theorem countP_splitArgs {p : Char → Bool} (hp : Splitter.Inert p) (t : Text) :
    (splitArgs t).flatten.countP p = t.countP p := by
  suffices h : ∀ s : Splitter, Splitter.held p (t.foldl Splitter.feed s) =
      Splitter.held p s + t.countP p by
    have hstart := h Splitter.start
    simpa [Splitter.held, Splitter.start, Splitter.finish, splitArgs] using hstart
  intro s
  induction t generalizing s with
  | nil => simp
  | cons c t ih =>
    rw [List.foldl_cons, ih, Splitter.held_feed s hp, Nat.add_assoc, ← List.countP_append,
      List.singleton_append]

end Text
