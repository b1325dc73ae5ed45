import Taskman.Collections.Outline

/-!
# Collapsing an item of an outline

Two outlines of one graph that differ in one item, open in the first and collapsed in the second.
What is nested under the item in the first is not seen by the second, so that a root among it is
listed later, at depth 0.

* `Outline.dropNested` : a listing without what is nested under an item;
* `Outline.Moment` : a walk, taken apart at the line of an item;
* `Outline.Passes` : what is under an item, through open items and past no other root;
* `Outline.collapse_iff` : **collapsing an item drops what is nested under it, and does nothing
  else, exactly when no root that comes after it passes under it**.
-/

namespace Taskman

namespace Outline

variable {α κ : Type*} [DecidableEq κ]

/-- A listing without the lines nested under the line of a key. -/
def dropNested (key : α → κ) (k : κ) : List (Line α) → List (Line α)
  | [] => []
  | line :: rest =>
    if key line.item = k then line :: rest.dropWhile fun below => decide (line.depth < below.depth)
    else line :: dropNested key k rest

/-- What was open, but for one item. -/
def collapse (key : α → κ) (opened : α → Bool) (k : κ) (a : α) : Bool :=
  opened a && decide (key a ≠ k)

/-- What is under an item through open items, with no root in between. -/
def Passes (kids : α → List α) (opened : α → Bool) (roots : List α) (p t : α) : Prop :=
  ∃ z, Relation.ReflTransGen (fun a b => Link kids opened a b ∧ b ∉ roots) p z ∧
    Link kids opened z t

variable {key : α → κ} {kids : α → List α} {opened opened' : α → Bool}
  {V V' : Finset κ} {st st' : List (α × ℕ)} {ls ls' : List (Line α)}

/-! ### Comparing runs -/

variable (opened') in
/-- A run depends on what is open only where it lists something. -/
theorem Run.agree (h : Run key kids opened V st ls V' st')
    (heq : ∀ line ∈ ls, opened' line.item = opened line.item) :
    Run key kids opened' V st ls V' st' := by
  induction h with
  | refl => exact Run.refl
  | skip hmem _ ih => exact Run.skip hmem (ih heq)
  | @shown V V' a d st st' ls hmem _ ih =>
    have ha : opened' a = opened a := heq _ List.mem_cons_self
    have hpushed : pushed key kids opened V a d = pushed key kids opened' V a d := by
      rw [pushed, pushed, ha]
    rw [hpushed] at ih
    exact Run.shown hmem (ih fun line hline => heq line (List.mem_cons_of_mem _ hline))

/-- A complete run goes on from every part of it. -/
theorem Run.rest {V₁ : Finset κ} {st₁ : List (α × ℕ)} {ls₁ : List (Line α)}
    (h₁ : Run key kids opened V st ls₁ V₁ st₁) (h : Run key kids opened V st ls V' []) :
    ∃ ls₂, ls = ls₁ ++ ls₂ ∧ Run key kids opened V₁ st₁ ls₂ V' [] := by
  induction h₁ generalizing ls with
  | refl => exact ⟨ls, rfl, h⟩
  | skip hmem _ ih =>
    cases h with
    | skip _ h => exact ih h
    | shown hnot _ => exact absurd hmem hnot
  | shown hmem _ ih =>
    cases h with
    | skip hnot _ => exact absurd hnot hmem
    | shown _ h =>
      obtain ⟨ls₂, rfl, h₂⟩ := ih h
      exact ⟨ls₂, rfl, h₂⟩

/-- A run that has seen more goes the same way when it never meets what it saw in excess: nothing
of it waits, and nothing of it is under what it has not seen. -/
theorem Run.forget {W W' : Finset κ} (h : Run key kids opened W st ls W' []) (hsub : V ⊆ W)
    (hst : ∀ x ∈ st, key x.1 ∈ V ∨ key x.1 ∉ W)
    (hback : ∀ a, ∀ b ∈ kids a, key b ∈ W → key b ∉ V → key a ∈ W) :
    ∃ V', Run key kids opened V st ls V' [] := by
  generalize hend : ([] : List (α × ℕ)) = st' at h
  induction h generalizing V with
  | refl =>
    subst hend
    exact ⟨V, Run.refl⟩
  | @skip W W' a d st st' ls hmem _ ih =>
    obtain ⟨V', h'⟩ := ih hsub (fun x hx => hst x (List.mem_cons_of_mem _ hx)) hback hend
    exact ⟨V', Run.skip ((hst (a, d) List.mem_cons_self).resolve_right fun hn => hn hmem) h'⟩
  | @shown W W' a d st st' ls hmem _ ih =>
    have hfresh : fresh key kids V a = fresh key kids W a := by
      refine List.filter_congr fun b hb => decide_eq_decide.mpr (not_congr ?_)
      rw [Finset.mem_insert, Finset.mem_insert]
      refine or_congr_right ⟨fun hV => hsub hV, fun hW => ?_⟩
      by_contra hV
      exact hmem (hback a b hb hW hV)
    have hpushed : pushed key kids opened V a d = pushed key kids opened W a d := by
      rw [pushed, pushed, hfresh]
    have hline : lineOf key kids V a d = lineOf key kids W a d := by
      rw [lineOf, lineOf, hfresh]
    have hst' : ∀ x ∈ pushed key kids opened W a d ++ st,
        key x.1 ∈ insert (key a) V ∨ key x.1 ∉ insert (key a) W := by
      intro x hx
      rcases List.mem_append.mp hx with hx | hx
      · exact Or.inr (mem_pushed.mp hx).2.1.2
      · rcases hst x (List.mem_cons_of_mem _ hx) with hV | hW
        · exact Or.inl (Finset.mem_insert_of_mem hV)
        · by_cases hkey : key x.1 = key a
          · exact Or.inl (Finset.mem_insert.mpr (Or.inl hkey))
          · exact Or.inr fun hmem' => (Finset.mem_insert.mp hmem').elim hkey hW
    have hback' : ∀ c, ∀ b ∈ kids c, key b ∈ insert (key a) W → key b ∉ insert (key a) V →
        key c ∈ insert (key a) W := by
      intro c b hb hW hV
      rcases Finset.mem_insert.mp hW with heq | hW
      · exact absurd (Finset.mem_insert.mpr (Or.inl heq)) hV
      · exact Finset.mem_insert_of_mem
          (hback c b hb hW fun h => hV (Finset.mem_insert_of_mem h))
    obtain ⟨V', h'⟩ := ih (Finset.insert_subset_insert _ hsub) hst' hback' hend
    rw [← hpushed] at h'
    exact ⟨V', hline ▸ Run.shown (fun hV => hmem (hsub hV)) h'⟩

theorem Run.descending (h : Run key kids opened V st ls V' st') (hst : Descending st) :
    Descending st' := by
  induction h with
  | refl => exact hst
  | skip _ _ ih => exact ih (List.pairwise_cons.mp hst).2
  | shown _ _ ih => exact ih (descending_pushed hst)

theorem Run.top_seen {x : α × ℕ} (h : Run key kids opened V (x :: st) ls V' st') :
    st' = x :: st ∨ key x.1 ∈ V' := by
  cases h with
  | refl => exact Or.inl rfl
  | skip hmem run => exact Or.inr (run.mono hmem)
  | shown _ run => exact Or.inr (run.mono (Finset.mem_insert_self _ _))

/-- A complete run, taken apart where it lists a line. -/
theorem Run.at_line (h : Run key kids opened V st ls V' []) {line : Line α} (hline : line ∈ ls) :
    ∃ ls₁ V₁ st₁ ls₂, ls = ls₁ ++ lineOf key kids V₁ line.item line.depth :: ls₂ ∧
      Run key kids opened V st ls₁ V₁ ((line.item, line.depth) :: st₁) ∧ key line.item ∉ V₁ ∧
      Run key kids opened (insert (key line.item) V₁)
        (pushed key kids opened V₁ line.item line.depth ++ st₁) ls₂ V' [] := by
  generalize hend : ([] : List (α × ℕ)) = st' at h
  induction h with
  | refl => exact absurd hline List.not_mem_nil
  | skip hmem _ ih =>
    obtain ⟨ls₁, V₁, st₁, ls₂, rfl, h₁, hnew, h₂⟩ := ih hline hend
    exact ⟨ls₁, V₁, st₁, ls₂, rfl, Run.skip hmem h₁, hnew, h₂⟩
  | @shown V V' a d st st' ls hmem run ih =>
    subst hend
    rcases List.mem_cons.mp hline with rfl | hline
    · exact ⟨[], V, st, ls, rfl, Run.refl, hmem, run⟩
    · obtain ⟨ls₁, V₁, st₁, ls₂, rfl, h₁, hnew, h₂⟩ := ih hline rfl
      exact ⟨lineOf key kids V a d :: ls₁, V₁, st₁, ls₂, rfl, Run.shown hmem h₁, hnew, h₂⟩

/-! ### The moment an item is listed -/

/-- A complete walk over `roots`, taken apart at the line of `p`: the roots done before, the block
of the root that is under way, what is listed under `p`, and what comes after. -/
structure Moment (key : α → κ) (kids : α → List α) (opened : α → Bool) (roots : List α) (p : α)
    where
  done : List α
  root : α
  rest : List α
  doneLines : List (Line α)
  doneSeen : Finset κ
  /-- The lines of the block before `p`. -/
  before : List (Line α)
  seen : Finset κ
  depth : ℕ
  /-- What waits in the block. -/
  waiting : List (α × ℕ)
  under : List (Line α)
  underSeen : Finset κ
  after : List (Line α)
  final : Finset κ
  roots_eq : roots = done ++ root :: rest
  runDone : Run key kids opened ∅ (start done) doneLines doneSeen []
  runBefore : Run key kids opened doneSeen [(root, 0)] before seen ((p, depth) :: waiting)
  new : key p ∉ seen
  runUnder : Run key kids opened (insert (key p) seen) (pushed key kids opened seen p depth) under
    underSeen []
  runAfter : Run key kids opened underSeen (waiting ++ start rest) after final []

/-- The lines up to the line of `p`, and that line. -/
def Moment.upTo {roots : List α} {p : α} (m : Moment key kids opened roots p) : List (Line α) :=
  m.doneLines ++ m.before ++ [lineOf key kids m.seen p m.depth]

/-- Every listed item has its moment. -/
theorem exists_moment {roots : List α} (h : Run key kids opened ∅ (start roots) ls V [])
    {line : Line α} (hline : line ∈ ls) :
    ∃ m : Moment key kids opened roots line.item, ls = m.upTo ++ (m.under ++ m.after) := by
  obtain ⟨done, r, rest, ls₁, V₁, ls₂, V₂, ls₃, hroots, rfl, h₁, h₂, h₃, hmem⟩ := h.block hline
  obtain ⟨ls₄, V₄, st₄, ls₅, rfl, h₄, hnew, h₅⟩ := h₂.at_line hmem
  obtain ⟨ls₆, V₆, ls₇, rfl, h₆, h₇⟩ := h₅.split
  refine ⟨{ done := done, root := r, rest := rest, doneLines := ls₁, doneSeen := V₁,
            before := ls₄, seen := V₄, depth := line.depth, waiting := st₄, under := ls₆,
            underSeen := V₆, after := ls₇ ++ ls₃, final := V, roots_eq := hroots, runDone := h₁,
            runBefore := h₄, new := hnew, runUnder := h₆,
            runAfter := (h₇.frame (start rest)).trans h₃ }, ?_⟩
  simp [Moment.upTo]

namespace Moment

variable {roots : List α} {p : α} (m : Moment key kids opened roots p)

theorem mem_roots_iff {x : α} : x ∈ roots ↔ x ∈ m.done ∨ x = m.root ∨ x ∈ m.rest := by
  have h : x ∈ roots ↔ x ∈ m.done ++ m.root :: m.rest := iff_of_eq (congrArg (x ∈ ·) m.roots_eq)
  rw [h, List.mem_append, List.mem_cons]

/-- The run up to the line of `p`. -/
theorem runUpTo : Run key kids opened ∅ (start roots) (m.doneLines ++ m.before) m.seen
    ((p, m.depth) :: m.waiting ++ start m.rest) := by
  have hstart : start roots = start m.done ++ ([(m.root, 0)] ++ start m.rest) := by
    conv_lhs => rw [m.roots_eq]
    simp [start]
  rw [hstart]
  exact (m.runDone.frame _).trans (m.runBefore.frame _)

theorem doneSeen_subset : m.doneSeen ⊆ m.seen := fun _ hk => m.runBefore.mono hk

theorem root_seen : key m.root ∈ insert (key p) m.seen := by
  rcases m.runBefore.top_seen with heq | hmem
  · obtain ⟨heq, -⟩ := List.cons.inj heq
    have hroot : p = m.root := congrArg Prod.fst heq
    exact Finset.mem_insert.mpr (Or.inl (congrArg key hroot.symm))
  · exact Finset.mem_insert_of_mem hmem

theorem done_seen {q : α} (hq : q ∈ m.done) : key q ∈ m.seen :=
  m.doneSeen_subset (m.runDone.stack_seen (q, 0) (List.mem_map_of_mem hq))

/-- The lines before that of `p` are of other items. -/
theorem ne_of_mem_upTo : ∀ line ∈ m.doneLines ++ m.before, key line.item ≠ key p := by
  intro line hline heq
  exact m.new (m.runUpTo.mem_seen.mpr (Or.inr ⟨line, hline, heq⟩))

/-- What is listed under `p` is deeper than `p`. -/
theorem lt_depth_of_mem_under : ∀ line ∈ m.under, m.depth < line.depth :=
  m.runUnder.le_depth fun x hx => by rw [(mem_pushed.mp hx).2.2]

theorem depth_le_of_mem_waiting {x : α × ℕ} (hx : x ∈ m.waiting ++ start m.rest) :
    x.2 ≤ m.depth := by
  rcases List.mem_append.mp hx with hx | hx
  · exact (List.pairwise_cons.mp (m.runBefore.descending (List.pairwise_singleton _ _))).1 x hx
  · obtain ⟨q, -, rfl⟩ := List.mem_map.mp hx
    exact Nat.zero_le _

/-- **Dropping what is nested under `p` drops the lines under it.** -/
theorem dropNested_eq :
    dropNested key (key p) (m.upTo ++ (m.under ++ m.after)) = m.upTo ++ m.after := by
  have hdrop : (m.under ++ m.after).dropWhile (fun below => decide (m.depth < below.depth)) =
      m.after := by
    rw [List.dropWhile_append_of_pos fun line hline =>
      decide_eq_true (m.lt_depth_of_mem_under line hline)]
    have hrun := m.runAfter
    generalize m.after = after at hrun
    cases after with
    | nil => rfl
    | cons line after =>
      rcases hrun.origin [] line after rfl with hwait | ⟨up, hup, -⟩
      · refine List.dropWhile_cons_of_neg ?_
        rw [decide_eq_true_iff, Nat.not_lt]
        exact m.depth_le_of_mem_waiting hwait
      · cases hup
  have hskip : ∀ pre : List (Line α), (∀ line ∈ pre, key line.item ≠ key p) → ∀ post,
      dropNested key (key p) (pre ++ post) = pre ++ dropNested key (key p) post := by
    intro pre hpre post
    induction pre with
    | nil => rfl
    | cons line pre ih =>
      rw [List.cons_append, dropNested, if_neg (hpre line List.mem_cons_self),
        ih fun line hline => hpre line (List.mem_cons_of_mem _ hline), List.cons_append]
  have hline : dropNested key (key p) (lineOf key kids m.seen p m.depth :: (m.under ++ m.after)) =
      lineOf key kids m.seen p m.depth :: m.after :=
    (if_pos rfl).trans (congrArg _ hdrop)
  rw [upTo, List.append_assoc, hskip _ m.ne_of_mem_upTo, List.singleton_append, hline,
    List.append_assoc _ _ m.after, List.singleton_append]

/-- The walk with `p` collapsed is the same up to the line of `p`, and goes on with what waits. -/
theorem collapsed_eq {ls' : List (Line α)}
    (h' : Run key kids (collapse key opened (key p)) ∅ (start roots) ls' V' []) :
    ∃ after', ls' = m.upTo ++ after' ∧ Run key kids (collapse key opened (key p))
      (insert (key p) m.seen) (m.waiting ++ start m.rest) after' V' [] := by
  have hupTo := m.runUpTo.agree (collapse key opened (key p)) fun line hline => by
    simp [collapse, m.ne_of_mem_upTo line hline]
  obtain ⟨ls₂, rfl, h₂⟩ := hupTo.rest h'
  cases h₂ with
  | skip hmem _ => exact absurd hmem m.new
  | @shown _ _ _ _ _ _ ls₃ _ h₃ =>
    have hpushed : pushed key kids (collapse key opened (key p)) m.seen p m.depth = [] := by
      rw [pushed, if_neg (by simp [collapse])]
    rw [hpushed, List.nil_append] at h₃
    exact ⟨ls₃, by simp [upTo], h₃⟩

end Moment

/-! ### What comes back -/

section Back

variable {l : List α} (hl : (l.map key).Nodup) (hkids : ∀ a, ∀ b ∈ kids a, b ∈ l)

include hkids in
theorem mem_of_reaches {a b : α} (ha : a ∈ l) (h : Reaches kids opened a b) : b ∈ l := by
  rcases Relation.ReflTransGen.cases_tail h with rfl | ⟨c, -, hc⟩
  · exact ha
  · exact hkids c b hc.2

include hkids in
theorem Run.mem_of_mem (h : Run key kids opened V st ls V' st') (hst : ∀ x ∈ st, x.1 ∈ l) :
    ∀ line ∈ ls, line.item ∈ l := by
  intro line hline
  obtain ⟨x, hx, hreach⟩ := h.reaches line hline
  exact mem_of_reaches hkids (hst x hx) hreach

variable (hparent : ∀ a a' b, b ∈ kids a → b ∈ kids a' → key a = key a') {roots : List α}
  (hroots : ∀ r ∈ roots, r ∈ l) {p : α} (hp : p ∈ l) (m : Moment key kids opened roots p)

namespace Moment

include hkids in
theorem mem_of_mem_under : ∀ line ∈ m.under, line.item ∈ l :=
  m.runUnder.mem_of_mem hkids fun x hx => hkids p x.1 (mem_pushed.mp hx).2.1.1

/-- An item under `p` has its parent there, or `p` itself. -/
theorem exists_parent {pre post : List (Line α)} {line : Line α}
    (hsplit : m.under = pre ++ line :: post) :
    ∃ c, (c = p ∨ ∃ up ∈ pre, up.item = c) ∧ Link kids opened c line.item := by
  rcases m.runUnder.origin pre line post hsplit with hpushed | ⟨up, hup, hlink⟩
  · obtain ⟨hopen, ⟨hkid, -⟩, -⟩ := mem_pushed.mp hpushed
    exact ⟨p, Or.inl rfl, hopen, hkid⟩
  · exact ⟨up.item, Or.inr ⟨up, hup, rfl⟩, hlink⟩

/-- `p` and what is under it was not seen before, and is seen afterwards. -/
theorem new_of_under {z : α} (hz : z = p ∨ ∃ line ∈ m.under, line.item = z) :
    key z ∉ m.seen ∧ key z ∈ m.underSeen := by
  rcases hz with rfl | ⟨line, hline, rfl⟩
  · exact ⟨m.new, m.runUnder.mono (Finset.mem_insert_self _ _)⟩
  · exact ⟨fun h => m.runUnder.not_mem line hline (Finset.mem_insert_of_mem h),
      m.runUnder.mem_seen.mpr (Or.inr ⟨line, hline, rfl⟩)⟩

include hl hkids hroots in
/-- What was listed before `p` is a root whose turn has come, or has its parent there too. -/
theorem seen_cases {y : α} (hy : y ∈ l) (hseen : key y ∈ m.seen) :
    y ∈ m.done ∨ y = m.root ∨ ∃ c, key c ∈ m.seen ∧ y ∈ kids c := by
  have hmem : ∀ line ∈ m.doneLines ++ m.before, line.item ∈ l := by
    refine m.runUpTo.mem_of_mem hkids fun x hx => ?_
    obtain ⟨r, hr, rfl⟩ := List.mem_map.mp hx
    exact hroots r hr
  obtain ⟨line, hline, hkey⟩ :=
    (m.runUpTo.mem_seen.mp hseen).resolve_left (Finset.notMem_empty _)
  obtain rfl : line.item = y := List.inj_on_of_nodup_map hl (hmem line hline) hy hkey
  rcases List.mem_append.mp hline with hline | hline
  · obtain ⟨pre, post, hsplit⟩ := List.append_of_mem hline
    rcases m.runDone.origin pre line post hsplit with hstart | ⟨up, hup, hlink⟩
    · obtain ⟨r, hr, heq⟩ := List.mem_map.mp hstart
      obtain rfl : r = line.item := congrArg Prod.fst heq
      exact Or.inl hr
    · refine Or.inr (Or.inr ⟨up.item, m.doneSeen_subset ?_, hlink.2⟩)
      refine m.runDone.mem_seen.mpr (Or.inr ⟨up, ?_, rfl⟩)
      rw [hsplit]
      exact List.mem_append_left _ hup
  · obtain ⟨pre, post, hsplit⟩ := List.append_of_mem hline
    rcases m.runBefore.origin pre line post hsplit with hstart | ⟨up, hup, hlink⟩
    · exact Or.inr (Or.inl (congrArg Prod.fst (List.mem_singleton.mp hstart)))
    · refine Or.inr (Or.inr ⟨up.item, m.runBefore.mem_seen.mpr (Or.inr ⟨up, ?_, rfl⟩), hlink.2⟩)
      rw [hsplit]
      exact List.mem_append_left _ hup

include hl hkids hparent hroots hp in
/-- What is directly under an open item under `p` is under `p`, unless it is `p` or a root whose
turn has come. -/
theorem under_step {z y : α} (hz : z = p ∨ ∃ line ∈ m.under, line.item = z)
    (hlink : Link kids opened z y) (hne : y ≠ p) (hdone : y ∉ m.done) (hroot : y ≠ m.root) :
    ∃ line ∈ m.under, line.item = y := by
  have hy : y ∈ l := hkids z y hlink.2
  have hnew : key y ∉ insert (key p) m.seen := by
    intro hmem
    rcases Finset.mem_insert.mp hmem with heq | hseen
    · exact hne (List.inj_on_of_nodup_map hl hy hp heq)
    · rcases m.seen_cases hl hkids hroots hy hseen with h | h | ⟨c, hc, hkid⟩
      · exact hdone h
      · exact hroot h
      · exact (m.new_of_under hz).1 (hparent c z y hkid hlink.2 ▸ hc)
  have hseen : key y ∈ m.underSeen := by
    rcases hz with rfl | ⟨line, hline, rfl⟩
    · exact m.runUnder.stack_seen (y, m.depth + 1)
        (mem_pushed.mpr ⟨hlink.1, ⟨hlink.2, hnew⟩, rfl⟩)
    · exact m.runUnder.closed line hline y hlink
  obtain ⟨line, hline, hkey⟩ := (m.runUnder.mem_seen.mp hseen).resolve_left hnew
  exact ⟨line, hline,
    List.inj_on_of_nodup_map hl (m.mem_of_mem_under hkids line hline) hy hkey⟩

/-- On the way from `p` to an item under it there is a root under `p`, or none at all. -/
theorem root_or_path {line : Line α} (hline : line ∈ m.under) :
    (∃ t ∈ roots, (∃ below ∈ m.under, below.item = t) ∧ Passes kids opened roots p t) ∨
      Relation.ReflTransGen (fun a b => Link kids opened a b ∧ b ∉ roots) p line.item := by
  obtain ⟨pre, post, hsplit⟩ := List.append_of_mem hline
  generalize hn : pre.length = n
  induction n using Nat.strong_induction_on generalizing line pre post with
  | _ n ih =>
    obtain ⟨c, hc, hlink⟩ := m.exists_parent hsplit
    have hway : (∃ t ∈ roots, (∃ below ∈ m.under, below.item = t) ∧
        Passes kids opened roots p t) ∨
          Relation.ReflTransGen (fun a b => Link kids opened a b ∧ b ∉ roots) p c := by
      rcases hc with rfl | ⟨up, hup, rfl⟩
      · exact Or.inr Relation.ReflTransGen.refl
      · obtain ⟨pre₁, pre₂, rfl⟩ := List.append_of_mem hup
        have hsplit' : m.under = pre₁ ++ up :: (pre₂ ++ line :: post) := by
          rw [hsplit, List.append_assoc, List.cons_append]
        have hmem : up ∈ m.under := by
          rw [hsplit']
          exact List.mem_append_right _ List.mem_cons_self
        refine ih pre₁.length ?_ hmem pre₁ _ hsplit' rfl
        rw [← hn, List.length_append, List.length_cons]
        omega
    rcases hway with hfound | hpath
    · exact Or.inl hfound
    · by_cases hroot : line.item ∈ roots
      · exact Or.inl ⟨line.item, hroot, ⟨line, hline, rfl⟩, c, hpath, hlink⟩
      · exact Or.inr (hpath.tail ⟨hlink, hroot⟩)

/-- Of two roots one after the other, the second is still to come when the first is not done. -/
theorem mem_rest {r t : α} (hsub : [r, t].Sublist roots) (hr : r ∉ m.done) : t ∈ m.rest := by
  have hsub' : [r, t].Sublist (m.done ++ m.root :: m.rest) :=
    (iff_of_eq (congrArg ([r, t].Sublist ·) m.roots_eq)).mp hsub
  obtain ⟨xs, ys, hxy, hxs, hys⟩ := List.sublist_append_iff.mp hsub'
  cases xs with
  | cons x xs =>
    obtain rfl : r = x := (List.cons.inj hxy).1
    exact absurd (hxs.subset List.mem_cons_self) hr
  | nil =>
    rw [List.nil_append] at hxy
    subst hxy
    cases hys with
    | cons _ hys => exact hys.subset (by simp)
    | cons_cons _ hys => exact hys.subset List.mem_cons_self

include hl hkids hparent hroots hp in
/-- **A root still to come is under `p` exactly when a root reaches `p` that comes before one which
passes under `p`.** -/
theorem comes_back_iff (hnodup : roots.Nodup) :
    (∃ t ∈ m.rest, ∃ line ∈ m.under, line.item = t) ↔
      ∃ r ∈ roots, ∃ t ∈ roots, t ≠ p ∧ Reaches kids opened r p ∧ Passes kids opened roots p t ∧
        [r, t].Sublist roots := by
  constructor
  · rintro ⟨t, ht, line, hline, rfl⟩
    have hroot : line.item ∈ roots := m.mem_roots_iff.mpr (Or.inr (Or.inr ht))
    obtain ⟨t, ht, hbelow, hpass⟩ : ∃ t ∈ roots, (∃ below ∈ m.under, below.item = t) ∧
        Passes kids opened roots p t := by
      rcases m.root_or_path hline with hfound | hpath
      · exact hfound
      · rcases Relation.ReflTransGen.cases_tail hpath with heq | ⟨z, -, hz⟩
        · exact absurd (Finset.mem_insert.mpr (Or.inl (congrArg key heq)))
            (m.runUnder.not_mem line hline)
        · exact absurd hroot hz.2
    obtain ⟨below, hbelow, rfl⟩ := hbelow
    have hnew := m.runUnder.not_mem below hbelow
    -- a root below the row is a later one: the earlier ones and `m.root` were seen before
    have hrest : below.item ∈ m.rest := by
      rcases m.mem_roots_iff.mp ht with hdone | heq | hrest
      · exact absurd (Finset.mem_insert_of_mem (m.done_seen hdone)) hnew
      · exact absurd (heq ▸ m.root_seen) hnew
      · exact hrest
    refine ⟨m.root, m.mem_roots_iff.mpr (Or.inr (Or.inl rfl)), below.item, ht, ?_, ?_, hpass, ?_⟩
    · exact fun heq => hnew (Finset.mem_insert.mpr (Or.inl (congrArg key heq)))
    · have hrun := m.runBefore.trans (Run.shown (d := m.depth) m.new Run.refl)
      obtain ⟨x, hx, hreach⟩ := hrun.reaches _ (List.mem_append_right _ List.mem_cons_self)
      rw [List.mem_singleton.mp hx] at hreach
      exact hreach
    · have hpair : [m.root, below.item].Sublist (m.root :: m.rest) :=
        (List.singleton_sublist.mpr hrest).cons_cons _
      have heq : roots = m.done ++ m.root :: m.rest := m.roots_eq
      exact (iff_of_eq (congrArg ([m.root, below.item].Sublist ·) heq)).mpr
        (hpair.trans (List.sublist_append_right _ _))
  · rintro ⟨r, hr, t, ht, hne, hreach, ⟨z, hz, hzt⟩, hsub⟩
    have hdoneRoots : ∀ q ∈ m.done, q ∈ roots := fun q hq => m.mem_roots_iff.mpr (Or.inl hq)
    have hrootMem : m.root ∈ roots := m.mem_roots_iff.mpr (Or.inr (Or.inl rfl))
    -- no root that was done before reaches the row
    have hr' : r ∉ m.done := by
      intro hdone
      refine m.new (m.doneSeen_subset ?_)
      exact (m.runDone.reaches_seen hl hkids (fun q hq => hroots q (hdoneRoots q hq)) hp).mpr
        ⟨r, hdone, hreach⟩
    have hrest := m.mem_rest hsub hr'
    -- what is passed on the way is drawn below the row
    have hz' : z = p ∨ ∃ line ∈ m.under, line.item = z := by
      clear hzt
      induction hz with
      | refl => exact Or.inl rfl
      | @tail x y _ hstep ih =>
        by_cases hyp : y = p
        · exact Or.inl hyp
        · exact Or.inr (m.under_step hl hkids hparent hroots hp ih hstep.1 hyp
            (fun h => hstep.2 (hdoneRoots y h)) fun h => hstep.2 (h ▸ hrootMem))
    have hsplit := List.nodup_append.mp
      ((iff_of_eq (congrArg List.Nodup m.roots_eq)).mp hnodup)
    refine ⟨t, hrest, m.under_step hl hkids hparent hroots hp hz' hzt hne ?_ ?_⟩
    · exact fun hdone => hsplit.2.2 t hdone t (List.mem_cons_of_mem _ hrest) rfl
    · exact fun heq => (List.nodup_cons.mp hsplit.2.1).1 (heq ▸ hrest)

include hl hkids hparent hroots in
/-- What waits when `p` is listed and is not a root still to come is not under `p`. -/
theorem waiting_apart (hback : ¬ ∃ t ∈ m.rest, ∃ line ∈ m.under, line.item = t) :
    ∀ x ∈ m.waiting ++ start m.rest,
      key x.1 ∈ insert (key p) m.seen ∨ key x.1 ∉ m.underSeen := by
  have hunder : ∀ y ∈ l, key y ∈ m.underSeen → key y ∈ insert (key p) m.seen ∨
      ∃ line ∈ m.under, line.item = y := by
    intro y hy hseen
    rcases m.runUnder.mem_seen.mp hseen with h | ⟨line, hline, hkey⟩
    · exact Or.inl h
    · exact Or.inr ⟨line, hline,
        List.inj_on_of_nodup_map hl (m.mem_of_mem_under hkids line hline) hy hkey⟩
  intro x hx
  by_cases hseen : key x.1 ∈ m.underSeen
  swap
  · exact Or.inr hseen
  left
  rcases List.mem_append.mp hx with hwait | hstart
  · rcases m.runBefore.waits x (List.mem_cons_of_mem _ hwait) with hroot | ⟨up, hup, hlink⟩
    · rw [List.mem_singleton.mp hroot]
      exact m.root_seen
    · refine (hunder x.1 (hkids _ _ hlink.2) hseen).resolve_right ?_
      rintro ⟨line, hline, heq⟩
      obtain ⟨pre, post, hsplit⟩ := List.append_of_mem hline
      obtain ⟨c, hc, hlink'⟩ := m.exists_parent hsplit
      have hc' : c = p ∨ ∃ line ∈ m.under, line.item = c := by
        refine hc.imp_right fun ⟨above, habove, heq⟩ => ⟨above, ?_, heq⟩
        rw [hsplit]
        exact List.mem_append_left _ habove
      have hkey : key up.item = key c := hparent up.item c x.1 hlink.2 (heq ▸ hlink'.2)
      exact (m.new_of_under hc').1
        (hkey ▸ m.runBefore.mem_seen.mpr (Or.inr ⟨up, hup, rfl⟩))
  · obtain ⟨t, ht, rfl⟩ := List.mem_map.mp hstart
    have htl : t ∈ l := hroots t (m.mem_roots_iff.mpr (Or.inr (Or.inr ht)))
    exact (hunder t htl hseen).resolve_right fun h => hback ⟨t, ht, h⟩

include hl hkids hparent hroots in
/-- What follows the line of `p` is the same with `p` collapsed exactly when nothing comes back. -/
theorem after_eq_iff {after' : List (Line α)}
    (h' : Run key kids (collapse key opened (key p)) (insert (key p) m.seen)
      (m.waiting ++ start m.rest) after' V' []) :
    after' = m.after ↔ ¬ ∃ t ∈ m.rest, ∃ line ∈ m.under, line.item = t := by
  constructor
  · rintro rfl ⟨t, ht, line, hline, rfl⟩
    have hseen := h'.stack_seen (line.item, 0)
      (List.mem_append_right _ (List.mem_map_of_mem ht))
    obtain ⟨again, hagain, hkey⟩ :=
      (h'.mem_seen.mp hseen).resolve_left (m.runUnder.not_mem line hline)
    refine m.runAfter.not_mem again hagain ?_
    rw [hkey]
    exact (m.new_of_under (Or.inr ⟨line, hline, rfl⟩)).2
  · intro hback
    obtain ⟨V₁, hrun⟩ := m.runAfter.forget (fun k hk => m.runUnder.mono hk)
      (m.waiting_apart hl hkids hparent hroots hback) fun a b hb hseen hnew => by
        -- what is under something listed under `p` has its parent there
        obtain ⟨line, hline, hkey⟩ := (m.runUnder.mem_seen.mp hseen).resolve_left hnew
        have heq : line.item = b := List.inj_on_of_nodup_map hl
          (m.mem_of_mem_under hkids line hline) (hkids a b hb) hkey
        obtain ⟨pre, post, hsplit⟩ := List.append_of_mem hline
        obtain ⟨c, hc, hlink⟩ := m.exists_parent hsplit
        have hc' : c = p ∨ ∃ line ∈ m.under, line.item = c := by
          refine hc.imp_right fun ⟨above, habove, heq⟩ => ⟨above, ?_, heq⟩
          rw [hsplit]
          exact List.mem_append_left _ habove
        rw [hparent a c b hb (heq ▸ hlink.2)]
        exact (m.new_of_under hc').2
    have hclosed := hrun.agree (collapse key opened (key p)) fun line hline => by
      have hne : key line.item ≠ key p := fun heq =>
        hrun.not_mem line hline (heq ▸ Finset.mem_insert_self _ _)
      simp [collapse, hne]
    exact (h'.unique hclosed).1

end Moment

/-- Collapsing what is not listed changes nothing. -/
theorem collapse_unlisted {k : κ} (h : Run key kids opened V st ls V' [])
    (hkey : ∀ line ∈ ls, key line.item ≠ k) {W : Finset κ}
    (h' : Run key kids (collapse key opened k) V st ls' W []) : ls' = dropNested key k ls := by
  have hclosed := h.agree (collapse key opened k) fun line hline => by
    simp [collapse, hkey line hline]
  have hdrop : dropNested key k ls = ls := by
    clear h hclosed
    induction ls with
    | nil => rfl
    | cons line ls ih =>
      rw [dropNested, if_neg (hkey line List.mem_cons_self),
        ih fun line hline => hkey line (List.mem_cons_of_mem _ hline)]
  rw [hdrop]
  exact (h'.unique hclosed).1

include hl hkids hparent hroots in
/-- **Collapsing an item drops the lines nested under it and does nothing else, exactly when no
root that comes after a root which reaches the item passes under it.** -/
theorem collapse_iff (hnodup : roots.Nodup) (h : Run key kids opened ∅ (start roots) ls V [])
    (hp : p ∈ l)
    (h' : Run key kids (collapse key opened (key p)) ∅ (start roots) ls' V' []) :
    ls' = dropNested key (key p) ls ↔
      ¬ ∃ r ∈ roots, ∃ t ∈ roots, t ≠ p ∧ Reaches kids opened r p ∧
        Passes kids opened roots p t ∧ [r, t].Sublist roots := by
  by_cases hlisted : ∃ line ∈ ls, line.item = p
  · obtain ⟨line, hline, rfl⟩ := hlisted
    obtain ⟨m, rfl⟩ := exists_moment h hline
    obtain ⟨after', rfl, hafter⟩ := m.collapsed_eq h'
    rw [m.dropNested_eq, List.append_cancel_left_eq, ← m.comes_back_iff hl hkids hparent hroots hp
      hnodup]
    exact m.after_eq_iff hl hkids hparent hroots hafter
  · have hmem : ∀ line ∈ ls, line.item ∈ l := by
      refine h.mem_of_mem hkids fun x hx => ?_
      obtain ⟨r, hr, rfl⟩ := List.mem_map.mp hx
      exact hroots r hr
    have hkey : ∀ line ∈ ls, key line.item ≠ key p := fun line hline heq =>
      hlisted ⟨line, hline, List.inj_on_of_nodup_map hl (hmem line hline) hp heq⟩
    refine iff_of_true (collapse_unlisted h hkey h') ?_
    rintro ⟨r, hr, t, -, -, hreach, -, -⟩
    have hseen : key p ∈ V :=
      (h.reaches_seen hl hkids hroots hp).mpr ⟨r, hr, hreach⟩
    obtain ⟨line, hline, heq⟩ := (h.mem_seen.mp hseen).resolve_left (Finset.notMem_empty _)
    exact hkey line hline heq

end Back

end Outline

end Taskman
