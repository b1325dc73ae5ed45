import Taskman.Collections.Worklist

/-!
# Outlines

The listing of a graph as an outline: a depth-first walk over a stack of items with their depths.
An item that was listed before is passed over, and an item that is not opened hides what is under
it; what is hidden is not recorded anywhere.

* `Outline.lines` : the lines, each with its depth and whether there is anything under it to open;
* `Outline.Run` : the walk as a relation, and `Outline.run_lines` : **the lines are those of the
  complete walk**;
* `Outline.Run.placed` : **a line is a root's, or nested directly under its parent's line**;
* `Outline.top_iff` : **a root is listed at depth 0 exactly when no earlier root reaches it through
  open items**.
-/

namespace Taskman

namespace Outline

variable {α κ : Type*} [DecidableEq κ]

/-- A line of an outline. -/
structure Line (α : Type*) where
  item : α
  depth : ℕ
  /-- Whether the line can be opened. -/
  children : Bool
  deriving DecidableEq

/-! ### The walk -/

section Defs

variable (key : α → κ) (kids : α → List α) (opened : α → Bool)

/-- What is under an item and was not listed before. -/
def fresh (seen : Finset κ) (a : α) : List α :=
  (kids a).filter fun b => decide (key b ∉ insert (key a) seen)

/-- The line of an element, at a depth. -/
def lineOf (seen : Finset κ) (a : α) (d : ℕ) : Line α :=
  { item := a, depth := d, children := !(fresh key kids seen a).isEmpty }

/-- What an item puts on the stack, the first of it on top. -/
def pushed (seen : Finset κ) (a : α) (d : ℕ) : List (α × ℕ) :=
  if opened a then (fresh key kids seen a).map fun b => (b, d + 1) else []

/-- One turn of the walk: an element that was met before gets no second line. -/
def visit (s : Finset κ × List (Line α)) (x : α × ℕ) :
    (Finset κ × List (Line α)) × List (α × ℕ) :=
  if key x.1 ∈ s.1 then (s, [])
  else
    ((insert (key x.1) s.1, s.2 ++ [lineOf key kids s.1 x.1 x.2]),
      (pushed key kids opened s.1 x.1 x.2).reverse)

/-- The roots on the stack, the first on top. -/
def start (roots : List α) : List (α × ℕ) := roots.map fun r => (r, 0)

/-- The lines of the walk over the trees of some roots. -/
def lines (fuel : ℕ) (roots : List α) : List (Line α) :=
  (Worklist.drain (visit key kids opened) fuel (∅, []) (start roots)).2

/-- A part of the walk: from the keys seen and a stack, by some lines, to the keys seen and the
stack after them. -/
inductive Run : Finset κ → List (α × ℕ) → List (Line α) → Finset κ → List (α × ℕ) → Prop
  | refl {V : Finset κ} {st : List (α × ℕ)} : Run V st [] V st
  | skip {V V' : Finset κ} {a : α} {d : ℕ} {st st' : List (α × ℕ)} {ls : List (Line α)}
      (h : key a ∈ V) (run : Run V st ls V' st') : Run V ((a, d) :: st) ls V' st'
  | shown {V V' : Finset κ} {a : α} {d : ℕ} {st st' : List (α × ℕ)} {ls : List (Line α)}
      (h : key a ∉ V)
      (run : Run (insert (key a) V) (pushed key kids opened V a d ++ st) ls V' st') :
      Run V ((a, d) :: st) (lineOf key kids V a d :: ls) V' st'

/-- Something is directly under an item that is open. -/
def Link (a b : α) : Prop := opened a = true ∧ b ∈ kids a

/-- What is reached through open items. -/
abbrev Reaches : α → α → Prop := Relation.ReflTransGen (Link kids opened)

end Defs

variable {key : α → κ} {kids : α → List α} {opened : α → Bool}
  {V V' : Finset κ} {st st' : List (α × ℕ)} {ls : List (Line α)}

theorem mem_pushed {a : α} {d : ℕ} {x : α × ℕ} :
    x ∈ pushed key kids opened V a d ↔
      opened a = true ∧ (x.1 ∈ kids a ∧ key x.1 ∉ insert (key a) V) ∧ x.2 = d + 1 := by
  unfold pushed fresh
  by_cases hopen : opened a = true
  · simp only [hopen, if_true, List.mem_map, List.mem_filter, decide_eq_true_eq, true_and]
    constructor
    · rintro ⟨b, hb, rfl⟩
      exact ⟨hb, rfl⟩
    · rintro ⟨hb, hd⟩
      exact ⟨x.1, hb, Prod.ext rfl hd.symm⟩
  · simp [hopen]

/-! ### Putting runs together -/

theorem Run.trans {V₁ V₂ : Finset κ} {st₁ st₂ : List (α × ℕ)} {ls₁ ls₂ : List (Line α)}
    (h : Run key kids opened V st ls₁ V₁ st₁) (h' : Run key kids opened V₁ st₁ ls₂ V₂ st₂) :
    Run key kids opened V st (ls₁ ++ ls₂) V₂ st₂ := by
  induction h with
  | refl => exact h'
  | skip hmem _ ih => exact Run.skip hmem (ih h')
  | shown hmem _ ih => exact Run.shown hmem (ih h')

/-- What lies below on the stack does not matter. -/
theorem Run.frame (h : Run key kids opened V st ls V' st') (rest : List (α × ℕ)) :
    Run key kids opened V (st ++ rest) ls V' (st' ++ rest) := by
  induction h with
  | refl => exact Run.refl
  | skip hmem _ ih => exact Run.skip hmem ih
  | shown hmem _ ih =>
    rw [List.append_assoc] at ih
    exact Run.shown hmem ih

/-- A complete run goes through the upper part of the stack first. -/
theorem Run.split (xs ys : List (α × ℕ)) (h : Run key kids opened V (xs ++ ys) ls V' []) :
    ∃ ls₁ V₁ ls₂, ls = ls₁ ++ ls₂ ∧ Run key kids opened V xs ls₁ V₁ [] ∧
      Run key kids opened V₁ ys ls₂ V' [] := by
  generalize hst : xs ++ ys = st at h
  generalize hend : ([] : List (α × ℕ)) = st' at h
  induction h generalizing xs with
  | @refl V st =>
    subst hend
    obtain ⟨rfl, rfl⟩ := List.append_eq_nil_iff.mp hst
    exact ⟨[], V, [], rfl, Run.refl, Run.refl⟩
  | @skip V V' a d st st' ls hmem run ih =>
    cases xs with
    | nil =>
      subst hend hst
      exact ⟨[], V, ls, rfl, Run.refl, Run.skip hmem run⟩
    | cons x xs =>
      have htail : xs ++ ys = st := (List.cons.inj hst).2
      obtain rfl : x = (a, d) := (List.cons.inj hst).1
      obtain ⟨ls₁, V₁, ls₂, rfl, h₁, h₂⟩ := ih _ htail hend
      exact ⟨ls₁, V₁, ls₂, rfl, Run.skip hmem h₁, h₂⟩
  | @shown V V' a d st st' ls hmem run ih =>
    cases xs with
    | nil =>
      subst hend hst
      exact ⟨[], V, _, rfl, Run.refl, Run.shown hmem run⟩
    | cons x xs =>
      have htail : xs ++ ys = st := (List.cons.inj hst).2
      obtain rfl : x = (a, d) := (List.cons.inj hst).1
      obtain ⟨ls₁, V₁, ls₂, rfl, h₁, h₂⟩ :=
        ih (pushed key kids opened V a d ++ xs) (by rw [List.append_assoc, htail]) hend
      exact ⟨lineOf key kids V a d :: ls₁, V₁, ls₂, rfl, Run.shown hmem h₁, h₂⟩

/-- The walk has only one course. -/
theorem Run.unique {V₁ V₂ : Finset κ} {ls₁ ls₂ : List (Line α)}
    (h₁ : Run key kids opened V st ls₁ V₁ []) (h₂ : Run key kids opened V st ls₂ V₂ []) :
    ls₁ = ls₂ ∧ V₁ = V₂ := by
  generalize hend : ([] : List (α × ℕ)) = st' at h₁
  induction h₁ generalizing ls₂ with
  | refl =>
    subst hend
    cases h₂
    exact ⟨rfl, rfl⟩
  | skip hmem _ ih =>
    cases h₂ with
    | skip _ h₂ => exact ih h₂ hend
    | shown hnot _ => exact absurd hmem hnot
  | shown hmem _ ih =>
    cases h₂ with
    | skip hnot _ => exact absurd hnot hmem
    | shown _ h₂ =>
      obtain ⟨rfl, rfl⟩ := ih h₂ hend
      exact ⟨rfl, rfl⟩

variable (key kids opened) in
theorem length_pushed_le (V : Finset κ) (a : α) (d : ℕ) :
    (pushed key kids opened V a d).length ≤ (kids a).length := by
  unfold pushed fresh
  split
  · rw [List.length_map]
    exact List.length_filter_le _ _
  · exact Nat.zero_le _

variable (opened st) in
/-- **On enough turns the loop is the complete walk.** -/
theorem exists_run {budget : Finset κ → ℕ} (hbudget : Worklist.Budget key kids budget) {n : ℕ}
    (hn : budget V + st.length ≤ n) :
    ∃ ls V', Run key kids opened V st ls V' [] ∧
      ∀ out, Worklist.drain (visit key kids opened) n (V, out) st = (V', out ++ ls) := by
  induction n generalizing V st with
  | zero =>
    obtain rfl := List.length_eq_zero_iff.mp (by omega : st.length = 0)
    exact ⟨[], V, Run.refl, fun out => by simp [Worklist.drain, While.run]⟩
  | succ n ih =>
    cases st with
    | nil =>
      refine ⟨[], V, Run.refl, fun out => ?_⟩
      have hpop : Worklist.pop (visit key kids opened) ((V, out), []) = none := rfl
      rw [Worklist.drain, While.run_of_none hpop, List.append_nil]
    | cons x st =>
      obtain ⟨a, d⟩ := x
      rw [List.length_cons] at hn
      by_cases hmem : key a ∈ V
      · -- an item seen before is dropped
        obtain ⟨ls, V', hrun, hdrain⟩ := ih (V := V) st (by omega)
        refine ⟨ls, V', Run.skip hmem hrun, fun out => ?_⟩
        rw [← hdrain out]
        have hpop : Worklist.pop (visit key kids opened) ((V, out), (a, d) :: st) =
            some ((V, out), st) := by
          simp [Worklist.pop, visit, hmem]
        unfold Worklist.drain
        rw [While.run_of_some hpop]
      · -- a new item is paid for out of the budget, with the children it pushes
        have hpay := hbudget V a hmem
        have hlen := length_pushed_le key kids opened V a d
        obtain ⟨ls, V', hrun, hdrain⟩ := ih (V := insert (key a) V)
          (pushed key kids opened V a d ++ st) (by rw [List.length_append]; omega)
        refine ⟨_, V', Run.shown hmem hrun, fun out => ?_⟩
        have hpop : Worklist.pop (visit key kids opened) ((V, out), (a, d) :: st) =
            some ((insert (key a) V, out ++ [lineOf key kids V a d]),
              pushed key kids opened V a d ++ st) := by
          simp [Worklist.pop, visit, hmem]
        have hrest := hdrain (out ++ [lineOf key kids V a d])
        unfold Worklist.drain at hrest ⊢
        rw [While.run_of_some hpop, hrest, List.append_assoc, List.singleton_append]

/-- **The lines are those of the complete walk.** -/
theorem run_lines {budget : Finset κ → ℕ} (hbudget : Worklist.Budget key kids budget)
    {roots : List α} {n : ℕ} (hn : budget ∅ + roots.length ≤ n) :
    ∃ V, Run key kids opened ∅ (start roots) (lines key kids opened n roots) V [] := by
  obtain ⟨ls, V, hrun, hdrain⟩ := exists_run opened (start roots) hbudget
    (by simpa [start] using hn)
  have hlines : lines key kids opened n roots = ls := by
    rw [lines, hdrain []]
    rfl
  exact ⟨V, hlines ▸ hrun⟩

/-- **On enough turns the loop ends.** -/
theorem walk_ends {budget : Finset κ → ℕ} (hbudget : Worklist.Budget key kids budget)
    {roots : List α} {n : ℕ} (hn : budget ∅ + roots.length ≤ n) :
    (While.run (Worklist.pop (visit key kids opened)) n ((∅, []), start roots)).2 = [] := by
  refine Worklist.drain_ends (fun _ _ => True) (fun s st => budget s.1 + st.length)
    (fun _ _ _ _ => trivial) ?_ trivial (by simpa [start] using hn)
  rintro ⟨V, out⟩ ⟨a, d⟩ st -
  by_cases hmem : key a ∈ V
  · simp [visit, hmem]
  · have hpay := hbudget V a hmem
    have hlen := length_pushed_le key kids opened V a d
    simp only [visit, hmem, if_false, List.reverse_reverse, List.length_append, List.length_cons]
    omega

/-! ### What a run lists -/

theorem Run.mem_seen (h : Run key kids opened V st ls V' st') {k : κ} :
    k ∈ V' ↔ k ∈ V ∨ ∃ line ∈ ls, key line.item = k := by
  induction h with
  | refl => simp
  | skip _ _ ih => exact ih
  | @shown V V' a d st st' ls _ _ ih =>
    rw [ih, Finset.mem_insert]
    constructor
    · rintro ((rfl | hk) | ⟨line, hline, hk⟩)
      · exact Or.inr ⟨lineOf key kids V a d, List.mem_cons_self, rfl⟩
      · exact Or.inl hk
      · exact Or.inr ⟨line, List.mem_cons_of_mem _ hline, hk⟩
    · rintro (hk | ⟨line, hline, hk⟩)
      · exact Or.inl (Or.inr hk)
      · rcases List.mem_cons.mp hline with rfl | hline
        · exact Or.inl (Or.inl hk.symm)
        · exact Or.inr ⟨line, hline, hk⟩

/-- A line's key was not seen before. -/
theorem Run.not_mem (h : Run key kids opened V st ls V' st') :
    ∀ line ∈ ls, key line.item ∉ V := by
  induction h with
  | refl => exact fun _ hline => absurd hline List.not_mem_nil
  | skip _ _ ih => exact ih
  | shown hmem _ ih =>
    intro line hline
    rcases List.mem_cons.mp hline with rfl | hline
    · exact hmem
    · exact fun hk => ih line hline (Finset.mem_insert_of_mem hk)

/-- No key is listed twice. -/
theorem Run.nodup (h : Run key kids opened V st ls V' st') :
    (ls.map fun line => key line.item).Nodup := by
  induction h with
  | refl => exact List.nodup_nil
  | skip _ _ ih => exact ih
  | shown hmem run ih =>
    rw [List.map_cons]
    refine List.nodup_cons.mpr ⟨fun hk => ?_, ih⟩
    obtain ⟨line, hline, hkey⟩ := List.mem_map.mp hk
    exact run.not_mem line hline (hkey ▸ Finset.mem_insert_self _ _)

theorem Run.mono (h : Run key kids opened V st ls V' st') {k : κ} (hk : k ∈ V) : k ∈ V' :=
  h.mem_seen.mpr (Or.inl hk)

/-- A complete run has seen all that was on the stack. -/
theorem Run.stack_seen (h : Run key kids opened V st ls V' []) : ∀ x ∈ st, key x.1 ∈ V' := by
  generalize hend : ([] : List (α × ℕ)) = st' at h
  induction h with
  | refl =>
    subst hend
    exact fun _ hx => absurd hx List.not_mem_nil
  | skip hmem run ih =>
    intro x hx
    rcases List.mem_cons.mp hx with rfl | hx
    · exact run.mono hmem
    · exact ih hend x hx
  | shown _ run ih =>
    intro x hx
    rcases List.mem_cons.mp hx with rfl | hx
    · exact run.mono (Finset.mem_insert_self _ _)
    · exact ih hend x (List.mem_append_right _ hx)

/-- A complete run has seen all that is under the open items it lists. -/
theorem Run.closed (h : Run key kids opened V st ls V' []) :
    ∀ line ∈ ls, ∀ b, Link kids opened line.item b → key b ∈ V' := by
  generalize hend : ([] : List (α × ℕ)) = st' at h
  induction h with
  | refl => exact fun _ hline => absurd hline List.not_mem_nil
  | skip _ _ ih => exact ih hend
  | @shown V V' a d st st' ls _ run ih =>
    intro line hline b hlink
    rcases List.mem_cons.mp hline with rfl | hline
    · by_cases hseen : key b ∈ insert (key a) V
      · exact run.mono hseen
      · subst hend
        exact run.stack_seen (b, d + 1) (List.mem_append_left _
          (mem_pushed.mpr ⟨hlink.1, ⟨hlink.2, hseen⟩, rfl⟩))
    · exact ih hend line hline b hlink

/-- A line comes from the stack, or from a line before it that it is directly under. -/
theorem Run.origin (h : Run key kids opened V st ls V' st') :
    ∀ pre line post, ls = pre ++ line :: post →
      (line.item, line.depth) ∈ st ∨ ∃ up ∈ pre, Link kids opened up.item line.item := by
  induction h with
  | refl =>
    intro pre line post hsplit
    simp at hsplit
  | skip _ _ ih =>
    intro pre line post hsplit
    exact (ih pre line post hsplit).imp_left (List.mem_cons_of_mem _)
  | @shown V V' a d st st' ls _ _ ih =>
    intro pre line post hsplit
    cases pre with
    | nil =>
      obtain ⟨rfl, rfl⟩ := List.cons.inj hsplit
      exact Or.inl List.mem_cons_self
    | cons first pre =>
      have htail : ls = pre ++ line :: post := (List.cons.inj hsplit).2
      obtain rfl : lineOf key kids V a d = first := (List.cons.inj hsplit).1
      rcases ih pre line post htail with hst | ⟨up, hup, hlink⟩
      · rcases List.mem_append.mp hst with hpushed | hst
        · obtain ⟨hopen, ⟨hkid, -⟩, -⟩ := mem_pushed.mp hpushed
          exact Or.inr ⟨_, List.mem_cons_self, hopen, hkid⟩
        · exact Or.inl (List.mem_cons_of_mem _ hst)
      · exact Or.inr ⟨up, List.mem_cons_of_mem _ hup, hlink⟩

/-- What waits was waiting, or is directly under a line. -/
theorem Run.waits (h : Run key kids opened V st ls V' st') :
    ∀ x ∈ st', x ∈ st ∨ ∃ up ∈ ls, Link kids opened up.item x.1 := by
  induction h with
  | refl => exact fun x hx => Or.inl hx
  | skip _ _ ih => exact fun x hx => (ih x hx).imp_left (List.mem_cons_of_mem _)
  | @shown V V' a d st st' ls _ _ ih =>
    intro x hx
    rcases ih x hx with hst | ⟨up, hup, hlink⟩
    · rcases List.mem_append.mp hst with hpushed | hst
      · obtain ⟨hopen, ⟨hkid, -⟩, -⟩ := mem_pushed.mp hpushed
        exact Or.inr ⟨_, List.mem_cons_self, hopen, hkid⟩
      · exact Or.inl (List.mem_cons_of_mem _ hst)
    · exact Or.inr ⟨up, List.mem_cons_of_mem _ hup, hlink⟩

/-- A line is reached from the stack. -/
theorem Run.reaches (h : Run key kids opened V st ls V' st') :
    ∀ line ∈ ls, ∃ x ∈ st, Reaches kids opened x.1 line.item := by
  induction h with
  | refl => exact fun _ hline => absurd hline List.not_mem_nil
  | skip _ _ ih =>
    intro line hline
    obtain ⟨x, hx, hreach⟩ := ih line hline
    exact ⟨x, List.mem_cons_of_mem _ hx, hreach⟩
  | @shown V V' a d st st' ls _ _ ih =>
    intro line hline
    rcases List.mem_cons.mp hline with rfl | hline
    · exact ⟨(a, d), List.mem_cons_self, Relation.ReflTransGen.refl⟩
    · obtain ⟨x, hx, hreach⟩ := ih line hline
      rcases List.mem_append.mp hx with hpushed | hx
      · obtain ⟨hopen, ⟨hkid, -⟩, -⟩ := mem_pushed.mp hpushed
        exact ⟨(a, d), List.mem_cons_self, Relation.ReflTransGen.head ⟨hopen, hkid⟩ hreach⟩
      · exact ⟨x, List.mem_cons_of_mem _ hx, hreach⟩

/-! ### Depths -/

theorem Run.le_depth (h : Run key kids opened V st ls V' st') {m : ℕ} (hst : ∀ x ∈ st, m ≤ x.2) :
    ∀ line ∈ ls, m ≤ line.depth := by
  induction h with
  | refl => exact fun _ hline => absurd hline List.not_mem_nil
  | skip _ _ ih => exact ih fun x hx => hst x (List.mem_cons_of_mem _ hx)
  | @shown V V' a d st st' ls _ _ ih =>
    have ha : m ≤ d := hst (a, d) List.mem_cons_self
    intro line hline
    rcases List.mem_cons.mp hline with rfl | hline
    · exact ha
    · refine ih (fun x hx => ?_) line hline
      rcases List.mem_append.mp hx with hpushed | hx
      · rw [(mem_pushed.mp hpushed).2.2]
        omega
      · exact hst x (List.mem_cons_of_mem _ hx)

/-- Where an item belongs in a listing: at depth 0 as a root, or directly under the last line that
is less deep, which is its parent's. -/
def Placed (kids : α → List α) (opened : α → Bool) (roots : List α) (before : List (Line α))
    (a : α) (d : ℕ) : Prop :=
  d = 0 ∧ a ∈ roots ∨
    ∃ up, (before.filter fun line => line.depth < d).getLast? = some up ∧ up.depth + 1 = d ∧
      Link kids opened up.item a

/-- Depths do not grow down the stack. -/
abbrev Descending (st : List (α × ℕ)) : Prop := st.Pairwise fun x y => y.2 ≤ x.2

theorem descending_pushed {a : α} {d : ℕ} (h : Descending ((a, d) :: st)) :
    Descending (pushed key kids opened V a d ++ st) := by
  refine List.pairwise_append.mpr ⟨?_, (List.pairwise_cons.mp h).2, ?_⟩
  · refine List.Pairwise.imp_of_mem (R := fun _ _ => True) ?_ (List.pairwise_of_forall (by simp))
    intro x y hx hy _
    rw [(mem_pushed.mp hx).2.2, (mem_pushed.mp hy).2.2]
  · intro x hx y hy
    have hle : y.2 ≤ d := (List.pairwise_cons.mp h).1 y hy
    rw [(mem_pushed.mp hx).2.2]
    omega

/-- **Every line is placed with respect to the lines before it.** -/
theorem Run.placed (h : Run key kids opened V st ls V' st') {roots : List α}
    (before : List (Line α)) (hdesc : Descending st)
    (hst : ∀ x ∈ st, Placed kids opened roots before x.1 x.2) :
    ∀ pre line post, ls = pre ++ line :: post →
      Placed kids opened roots (before ++ pre) line.item line.depth := by
  induction h generalizing before with
  | refl =>
    intro pre line post hsplit
    simp at hsplit
  | skip _ _ ih =>
    exact ih _ (List.pairwise_cons.mp hdesc).2 fun x hx => hst x (List.mem_cons_of_mem _ hx)
  | @shown V V' a d st st' ls _ _ ih =>
    intro pre line post hsplit
    cases pre with
    | nil =>
      obtain ⟨rfl, rfl⟩ := List.cons.inj hsplit
      rw [List.append_nil]
      exact hst (a, d) List.mem_cons_self
    | cons first pre =>
      have htail : ls = pre ++ line :: post := (List.cons.inj hsplit).2
      obtain rfl : lineOf key kids V a d = first := (List.cons.inj hsplit).1
      rw [List.append_cons]
      refine ih _ (descending_pushed hdesc) (fun x hx => ?_) pre line post htail
      rcases List.mem_append.mp hx with hpushed | hx
      · -- what was just put on the stack is directly under the line just listed
        obtain ⟨hopen, ⟨hkid, -⟩, hdepth⟩ := mem_pushed.mp hpushed
        refine Or.inr ⟨lineOf key kids V a d, ?_, hdepth.symm, hopen, hkid⟩
        rw [List.filter_append, hdepth, List.filter_cons_of_pos (by simp [lineOf]),
          List.filter_nil, List.getLast?_concat]
      · -- the line just listed is too deep to matter for what lies below on the stack
        have hle : x.2 ≤ d := (List.pairwise_cons.mp hdesc).1 x hx
        have hkeep : ((before ++ [lineOf key kids V a d]).filter
            fun line => decide (line.depth < x.2)) =
              before.filter fun line => decide (line.depth < x.2) := by
          have hdeep : [lineOf key kids V a d].filter (fun line => decide (line.depth < x.2)) =
              [] :=
            List.filter_eq_nil_iff.mpr fun line hline => by
              rw [List.mem_singleton.mp hline, decide_eq_true_iff]
              exact Nat.not_lt.mpr hle
          rw [List.filter_append, hdeep, List.append_nil]
        rw [Placed, hkeep]
        exact hst x (List.mem_cons_of_mem _ hx)

/-! ### Blocks of roots -/

section Blocks

variable {l : List α}

/-- What a complete run from no keys has seen is closed under open links. -/
theorem Run.reaches_seen (hl : (l.map key).Nodup) (hkids : ∀ a, ∀ b ∈ kids a, b ∈ l)
    {roots : List α} (hroots : ∀ r ∈ roots, r ∈ l)
    (h : Run key kids opened ∅ (start roots) ls V' []) {a : α} (ha : a ∈ l) :
    key a ∈ V' ↔ ∃ r ∈ roots, Reaches kids opened r a := by
  have hwithin : ∀ {r b : α}, r ∈ roots → Reaches kids opened r b → b ∈ l := by
    intro r b hr hreach
    rcases Relation.ReflTransGen.cases_tail hreach with rfl | ⟨c, -, hc⟩
    · exact hroots _ hr
    · exact hkids c b hc.2
  have hitem : ∀ line ∈ ls, ∃ r ∈ roots, Reaches kids opened r line.item := by
    intro line hline
    obtain ⟨x, hx, hreach⟩ := h.reaches line hline
    obtain ⟨r, hr, rfl⟩ := List.mem_map.mp hx
    exact ⟨r, hr, hreach⟩
  constructor
  · intro hseen
    obtain ⟨line, hline, hkey⟩ := (h.mem_seen.mp hseen).resolve_left (Finset.notMem_empty _)
    obtain ⟨r, hr, hreach⟩ := hitem line hline
    have heq : line.item = a := List.inj_on_of_nodup_map hl (hwithin hr hreach) ha hkey
    exact ⟨r, hr, heq ▸ hreach⟩
  · rintro ⟨r, hr, hreach⟩
    have hseen : ∀ b, Reaches kids opened r b → key b ∈ V' := by
      intro b hb
      induction hb with
      | refl => exact h.stack_seen (r, 0) (List.mem_map_of_mem hr)
      | @tail b c hb hlink ih =>
        obtain ⟨line, hline, hkey⟩ := (h.mem_seen.mp ih).resolve_left (Finset.notMem_empty _)
        obtain ⟨r', hr', hreach'⟩ := hitem line hline
        have heq : line.item = b :=
          List.inj_on_of_nodup_map hl (hwithin hr' hreach') (hwithin hr hb) hkey
        exact h.closed line hline c (heq ▸ hlink)
    exact hseen a hreach

/-- A line belongs to the block of one root. -/
theorem Run.block {roots : List α} (h : Run key kids opened V (start roots) ls V' [])
    {line : Line α} (hline : line ∈ ls) :
    ∃ done r rest ls₁ V₁ ls₂ V₂ ls₃, roots = done ++ r :: rest ∧ ls = ls₁ ++ ls₂ ++ ls₃ ∧
      Run key kids opened V (start done) ls₁ V₁ [] ∧
      Run key kids opened V₁ [(r, 0)] ls₂ V₂ [] ∧
      Run key kids opened V₂ (start rest) ls₃ V' [] ∧ line ∈ ls₂ := by
  induction roots generalizing V ls with
  | nil =>
    cases h
    exact absurd hline List.not_mem_nil
  | cons r roots ih =>
    obtain ⟨ls₁, V₁, ls₂, rfl, h₁, h₂⟩ := Run.split [(r, 0)] (start roots) h
    rcases List.mem_append.mp hline with hline | hline
    · exact ⟨[], r, roots, [], V, ls₁, V₁, ls₂, rfl, rfl, Run.refl, h₁, h₂, hline⟩
    · obtain ⟨done, r', rest, ls₃, V₃, ls₄, V₄, ls₅, rfl, rfl, h₃, h₄, h₅, hmem⟩ := ih h₂ hline
      refine ⟨r :: done, r', rest, ls₁ ++ ls₃, V₃, ls₄, V₄, ls₅, rfl, ?_, ?_, h₄, h₅, hmem⟩
      · simp only [List.append_assoc]
      · exact (h₁.frame (start done)).trans h₃

/-- In the block of a root, only the root is at depth 0. -/
theorem Run.eq_root {r : α} (h : Run key kids opened V [(r, 0)] ls V' []) {line : Line α}
    (hline : line ∈ ls) (hdepth : line.depth = 0) : line.item = r := by
  cases h with
  | skip _ run =>
    cases run
    exact absurd hline List.not_mem_nil
  | shown _ run =>
    rcases List.mem_cons.mp hline with rfl | hline
    · rfl
    · have hle := run.le_depth (m := 1) (fun x hx => by
        rw [List.append_nil] at hx
        rw [(mem_pushed.mp hx).2.2]) line hline
      omega

/-- **A root is listed at depth 0 exactly when no root before it reaches it through open items.** -/
theorem top_iff (hl : (l.map key).Nodup) (hkids : ∀ a, ∀ b ∈ kids a, b ∈ l) {roots : List α}
    (hroots : ∀ r ∈ roots, r ∈ l) (h : Run key kids opened ∅ (start roots) ls V' []) {a : α} :
    (∃ line ∈ ls, line.item = a ∧ line.depth = 0) ↔
      ∃ done rest, roots = done ++ a :: rest ∧ ∀ q ∈ done, ¬ Reaches kids opened q a := by
  constructor
  · rintro ⟨line, hline, rfl, hdepth⟩
    obtain ⟨done, r, rest, ls₁, V₁, ls₂, V₂, ls₃, rfl, rfl, h₁, h₂, -, hmem⟩ := h.block hline
    have heq : line.item = r := h₂.eq_root hmem hdepth
    refine ⟨done, rest, by rw [heq], fun q hq hreach => ?_⟩
    refine h₂.not_mem line hmem ?_
    refine (h₁.reaches_seen hl hkids (fun r hr => hroots r (List.mem_append_left _ hr)) ?_).mpr
      ⟨q, hq, hreach⟩
    rw [heq]
    exact hroots r (List.mem_append_right _ List.mem_cons_self)
  · rintro ⟨done, rest, rfl, hnot⟩
    have hstart : start (done ++ a :: rest) = start done ++ ([(a, 0)] ++ start rest) := by
      simp [start]
    rw [hstart] at h
    obtain ⟨ls₁, V₁, ls₂, rfl, h₁, h₂⟩ := Run.split _ _ h
    have ha : a ∈ l := hroots a (List.mem_append_right _ List.mem_cons_self)
    have hnew : key a ∉ V₁ := by
      rw [h₁.reaches_seen hl hkids (fun r hr => hroots r (List.mem_append_left _ hr)) ha]
      rintro ⟨q, hq, hreach⟩
      exact hnot q hq hreach
    cases h₂ with
    | skip hmem _ => exact absurd hmem hnew
    | shown _ _ =>
      exact ⟨lineOf key kids V₁ a 0, List.mem_append_right _ List.mem_cons_self, rfl, rfl⟩

end Blocks

end Outline

end Taskman
