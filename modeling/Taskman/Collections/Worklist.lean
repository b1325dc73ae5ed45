import Taskman.LTS.While
import Mathlib.Data.Finset.Basic
import Mathlib.Data.List.Nodup
import Mathlib.Logic.Relation

/-!
# Loops over a stack

A loop that pops an item, updates its state and pushes further items, until the stack is empty.
The top of the stack is the head of the list; what one visit pushes is listed in the order it is
pushed, so the last of it is popped first.

* `Worklist.drain` : the loop, on a number of turns;
* `Worklist.drain_induct` : **an invariant every visit keeps holds of the state left when the stack
  is empty**, from a number of turns that covers the rank;
* `Worklist.walk` : the traversal that skips an item whose key it has already popped;
* `Worklist.walk_spec` : **it pops every key reachable from its seeds, once**;
* `Worklist.gather` : the traversal that records an item when it is pushed, if it is accepted;
* `Worklist.gather_spec` : **it gathers what is reachable through accepted items, once**.
-/

namespace Taskman

namespace Worklist

variable {σ α κ : Type*}

/-! ### Draining a stack -/

/-- Pop the top of the stack, visit it, and push what the visit pushes. -/
def pop (visit : σ → α → σ × List α) : σ × List α → Option (σ × List α)
  | (_, []) => none
  | (s, a :: stack) => some ((visit s a).1, (visit s a).2.reverse ++ stack)

/-- `while let Some(a) = stack.pop() { .. }`, for at most `fuel` turns. -/
def drain (visit : σ → α → σ × List α) (fuel : ℕ) (s : σ) (stack : List α) : σ :=
  (While.run (pop visit) fuel (s, stack)).1

variable {visit : σ → α → σ × List α}

/-- A visit that keeps the invariant and lowers the rank makes the loop a ranked one. -/
theorem ranked_pop {Inv : σ → List α → Prop} {rank : σ → List α → ℕ}
    (hkeep : ∀ s a stack, Inv s (a :: stack) →
      Inv (visit s a).1 ((visit s a).2.reverse ++ stack))
    (hdrop : ∀ s a stack, Inv s (a :: stack) →
      rank (visit s a).1 ((visit s a).2.reverse ++ stack) < rank s (a :: stack)) :
    While.Ranked (pop visit) (fun x => Inv x.1 x.2) fun x => rank x.1 x.2 where
  keeps := by
    rintro ⟨s, stack⟩ s' hs hpop
    cases stack with
    | nil => cases hpop
    | cons a stack =>
      obtain rfl := Option.some.inj hpop
      exact hkeep s a stack hs
  drops := by
    rintro ⟨s, stack⟩ s' hs hpop
    cases stack with
    | nil => cases hpop
    | cons a stack =>
      obtain rfl := Option.some.inj hpop
      exact hdrop s a stack hs

/-- **What every visit keeps holds of the final state, with nothing left on the stack.** -/
theorem drain_induct (Inv : σ → List α → Prop) (rank : σ → List α → ℕ)
    (hkeep : ∀ s a stack, Inv s (a :: stack) →
      Inv (visit s a).1 ((visit s a).2.reverse ++ stack))
    (hdrop : ∀ s a stack, Inv s (a :: stack) →
      rank (visit s a).1 ((visit s a).2.reverse ++ stack) < rank s (a :: stack))
    {fuel : ℕ} {s : σ} {stack : List α} (hs : Inv s stack) (hfuel : rank s stack ≤ fuel) :
    Inv (drain visit fuel s stack) [] := by
  obtain ⟨hinv, hstop⟩ := (ranked_pop hkeep hdrop).run_stops (s := (s, stack)) hs hfuel
  unfold drain
  generalize While.run (pop visit) fuel (s, stack) = x at hinv hstop ⊢
  obtain ⟨s', stack'⟩ := x
  cases stack' with
  | nil => exact hinv
  | cons a stack' => cases hstop

/-- Loops whose visits correspond, states and items alike, run alike. -/
theorem run_pop_map {τ α' : Type*} (visit : σ → α → σ × List α)
    (visit' : τ → α' → τ × List α') (f : σ → τ) (g : α → α')
    (h : ∀ s a, visit' (f s) (g a) = (f (visit s a).1, (visit s a).2.map g)) (fuel : ℕ) (s : σ)
    (stack : List α) :
    While.run (pop visit') fuel (f s, stack.map g) =
      Prod.map f (List.map g) (While.run (pop visit) fuel (s, stack)) := by
  refine While.run_map (Prod.map f (List.map g)) ?_ fuel (s, stack)
  rintro ⟨s, stack⟩
  cases stack with
  | nil => rfl
  | cons a stack => simp [pop, h]

/-- What the loop leaves depends on the visits only through what they do to `f` of the state. -/
theorem drain_map {τ : Type*} (visit : σ → α → σ × List α) (visit' : τ → α → τ × List α) (f : σ → τ)
    (h : ∀ s a, visit' (f s) a = (f (visit s a).1, (visit s a).2)) (fuel : ℕ) (s : σ)
    (stack : List α) : drain visit' fuel (f s) stack = f (drain visit fuel s stack) := by
  have hrun := run_pop_map visit visit' f id (by simpa using h) fuel s stack
  rw [List.map_id] at hrun
  rw [drain, hrun, drain, Prod.map_fst]

/-- The loop ends with nothing on the stack. -/
theorem drain_ends (Inv : σ → List α → Prop) (rank : σ → List α → ℕ)
    (hkeep : ∀ s a stack, Inv s (a :: stack) →
      Inv (visit s a).1 ((visit s a).2.reverse ++ stack))
    (hdrop : ∀ s a stack, Inv s (a :: stack) →
      rank (visit s a).1 ((visit s a).2.reverse ++ stack) < rank s (a :: stack))
    {fuel : ℕ} {s : σ} {stack : List α} (hs : Inv s stack) (hfuel : rank s stack ≤ fuel) :
    (While.run (pop visit) fuel (s, stack)).2 = [] := by
  have hstop := ((ranked_pop hkeep hdrop).run_stops (s := (s, stack)) hs hfuel).2
  generalize While.run (pop visit) fuel (s, stack) = x at hstop ⊢
  obtain ⟨s', stack'⟩ := x
  cases stack' with
  | nil => rfl
  | cons a stack' => cases hstop

/-- What every visit keeps of the state alone holds after any number of turns. -/
theorem drain_keeps {Inv : σ → Prop} (hkeep : ∀ s a, Inv s → Inv (visit s a).1)
    {fuel : ℕ} {s : σ} (stack : List α) (hs : Inv s) : Inv (drain visit fuel s stack) := by
  refine While.run_induct (fun x : σ × List α => Inv x.1) ?_ fuel (s := (s, stack)) hs
  rintro ⟨s, stack⟩ s' hs hpop
  cases stack with
  | nil => cases hpop
  | cons a stack =>
    obtain rfl := Option.some.inj hpop
    exact hkeep s a hs

/-! ### Walking over keys -/

variable [DecidableEq κ]

/-- One visit of a walk: an item whose key was popped before is skipped. -/
def visitNew (key : α → κ) (kids : α → List α) (s : Finset κ × List α) (a : α) :
    (Finset κ × List α) × List α :=
  if key a ∈ s.1 then (s, []) else ((insert (key a) s.1, s.2 ++ [a]), kids a)

/-- The keys popped and the items visited, in order, by a walk from `seeds` that knows `seen`. -/
def walk (key : α → κ) (kids : α → List α) (fuel : ℕ) (seen : Finset κ) (seeds : List α) :
    Finset κ × List α :=
  drain (visitNew key kids) fuel (seen, []) seeds.reverse

/-- A bound on the pushes still to come: visiting a new key pays for what it pushes. -/
def Budget (key : α → κ) (kids : α → List α) (budget : Finset κ → ℕ) : Prop :=
  ∀ seen a, key a ∉ seen → budget (insert (key a) seen) + (kids a).length ≤ budget seen

/-- The keys a walk can reach from a key. -/
abbrev Reach (next : κ → List κ) : κ → κ → Prop := Relation.ReflTransGen fun k j => j ∈ next k

variable {key : α → κ} {kids : α → List α} {budget : Finset κ → ℕ}

/-- Every visit of a walk lowers the budget by what it pushes, and the stack by one. -/
theorem Budget.drop (h : Budget key kids budget) (s : Finset κ × List α) (a : α)
    (stack : List α) :
    budget (visitNew key kids s a).1.1 +
        ((visitNew key kids s a).2.reverse ++ stack).length <
      budget s.1 + (a :: stack).length := by
  by_cases hseen : key a ∈ s.1
  · simp [visitNew, hseen]
  · have hpay := h s.1 a hseen
    simp only [visitNew, hseen, if_false, List.length_append, List.length_reverse,
      List.length_cons]
    omega

theorem walk_ends (h : Budget key kids budget) {seen : Finset κ} (seeds : List α) {fuel : ℕ}
    (hfuel : budget seen + seeds.length ≤ fuel) :
    (While.run (pop (visitNew key kids)) fuel ((seen, []), seeds.reverse)).2 = [] :=
  drain_ends (fun _ _ => True) (fun s stack => budget s.1 + stack.length)
    (fun _ _ _ _ => trivial) (fun s a stack _ => h.drop s a stack) trivial
    (by rwa [List.length_reverse])

/-- What holds between two pops of a walk. -/
structure Walked (key : α → κ) (next : κ → List κ) (seen₀ : Finset κ) (seeds : List α)
    (s : Finset κ × List α) (stack : List α) : Prop where
  /-- Nothing known is forgotten. -/
  known : seen₀ ⊆ s.1
  /-- What was popped was known or is reachable. -/
  sound : ∀ k ∈ s.1, k ∈ seen₀ ∨ ∃ a ∈ seeds, Reach next (key a) k
  /-- What waits is reachable. -/
  waits : ∀ b ∈ stack, ∃ a ∈ seeds, Reach next (key a) (key b)
  /-- What follows a popped key was popped or waits. -/
  closed : ∀ k ∈ s.1, ∀ j ∈ next k, j ∈ s.1 ∨ j ∈ stack.map key
  seeded : ∀ a ∈ seeds, key a ∈ s.1 ∨ key a ∈ stack.map key
  nodup : (s.2.map key).Nodup
  /-- The items visited are those of the new keys. -/
  visited : ∀ k, k ∈ s.2.map key ↔ k ∈ s.1 ∧ k ∉ seen₀

/-- A visit keeps what holds between two pops. -/
theorem Walked.visitNew {next : κ → List κ} {seen₀ : Finset κ} {seeds : List α}
    (hnext : ∀ a j, j ∈ (kids a).map key ↔ j ∈ next (key a))
    (s : Finset κ × List α) (a : α) (stack : List α)
    (h : Walked key next seen₀ seeds s (a :: stack)) :
    Walked key next seen₀ seeds (visitNew key kids s a).1
      ((visitNew key kids s a).2.reverse ++ stack) := by
  by_cases hseen : key a ∈ s.1
  · -- a key popped again is dropped: it was seen, and so nothing that waited for it is lost
    simp only [Worklist.visitNew, hseen, if_true, List.reverse_nil, List.nil_append]
    refine ⟨h.known, h.sound, fun b hb => h.waits b (List.mem_cons_of_mem _ hb), ?_, ?_, h.nodup,
      h.visited⟩
    · intro k hk j hj
      rcases h.closed k hk j hj with hs | hstack
      · exact Or.inl hs
      · rcases List.mem_cons.mp hstack with rfl | hstack
        · exact Or.inl hseen
        · exact Or.inr hstack
    · intro b hb
      rcases h.seeded b hb with hs | hstack
      · exact Or.inl hs
      · rcases List.mem_cons.mp hstack with heq | hstack
        · exact Or.inl (heq ▸ hseen)
        · exact Or.inr hstack
  · simp only [Worklist.visitNew, hseen, if_false]
    -- a new key is seen from now on, and its children wait on the stack
    obtain ⟨seed, hseed, hreach⟩ := h.waits a List.mem_cons_self
    have hpushed : ∀ j, j ∈ ((kids a).reverse ++ stack).map key ↔
        j ∈ next (key a) ∨ j ∈ stack.map key := by
      intro j
      rw [List.map_append, List.mem_append, ← hnext a j, List.map_reverse, List.mem_reverse]
    refine ⟨fun k hk => Finset.mem_insert_of_mem (h.known hk), ?_, ?_, ?_, ?_, ?_, ?_⟩
    · intro k hk
      rcases Finset.mem_insert.mp hk with rfl | hk
      · exact Or.inr ⟨seed, hseed, hreach⟩
      · exact h.sound k hk
    · intro b hb
      rcases List.mem_append.mp hb with hb | hb
      · have hj : key b ∈ next (key a) :=
          (hnext a (key b)).mp (List.mem_map_of_mem (List.mem_reverse.mp hb))
        exact ⟨seed, hseed, hreach.tail hj⟩
      · exact h.waits b (List.mem_cons_of_mem _ hb)
    · intro k hk j hj
      rw [hpushed]
      rcases Finset.mem_insert.mp hk with rfl | hk
      · exact Or.inr (Or.inl hj)
      · rcases h.closed k hk j hj with hs | hstack
        · exact Or.inl (Finset.mem_insert_of_mem hs)
        · rcases List.mem_cons.mp hstack with rfl | hstack
          · exact Or.inl (Finset.mem_insert_self _ _)
          · exact Or.inr (Or.inr hstack)
    · intro b hb
      rw [hpushed]
      rcases h.seeded b hb with hs | hstack
      · exact Or.inl (Finset.mem_insert_of_mem hs)
      · rcases List.mem_cons.mp hstack with heq | hstack
        · exact Or.inl (heq ▸ Finset.mem_insert_self _ _)
        · exact Or.inr (Or.inr hstack)
    · have hnew : key a ∉ s.2.map key := fun hmem => hseen ((h.visited _).mp hmem).1
      rw [List.map_append, List.map_singleton]
      exact h.nodup.append (List.nodup_singleton _) (List.disjoint_singleton.mpr hnew)
    · intro k
      have hold : key a ∉ seen₀ := fun hmem => hseen (h.known hmem)
      rw [List.map_append, List.mem_append, List.map_singleton, List.mem_singleton, h.visited,
        Finset.mem_insert]
      constructor
      · rintro (⟨hk, hne⟩ | rfl)
        · exact ⟨Or.inr hk, hne⟩
        · exact ⟨Or.inl rfl, hold⟩
      · rintro ⟨rfl | hk, hne⟩
        · exact Or.inr rfl
        · exact Or.inl ⟨hk, hne⟩

/-- **A walk from a closed set of known keys pops every key reachable from its seeds, visits the
new ones once, and nothing else.** -/
theorem walk_spec (next : κ → List κ) (seen₀ : Finset κ) {seeds : List α} {fuel : ℕ}
    (hbudget : Budget key kids budget)
    (hnext : ∀ a j, j ∈ (kids a).map key ↔ j ∈ next (key a))
    (hclosed : ∀ k ∈ seen₀, ∀ j ∈ next k, j ∈ seen₀)
    (hfuel : budget seen₀ + seeds.length ≤ fuel) :
    (∀ k, k ∈ (walk key kids fuel seen₀ seeds).1 ↔
      k ∈ seen₀ ∨ ∃ a ∈ seeds, Reach next (key a) k) ∧
    ((walk key kids fuel seen₀ seeds).2.map key).Nodup ∧
    ∀ k, k ∈ (walk key kids fuel seen₀ seeds).2.map key ↔
      k ∈ (walk key kids fuel seen₀ seeds).1 ∧ k ∉ seen₀ := by
  have hstart : Walked key next seen₀ seeds (seen₀, []) seeds.reverse := by
    refine ⟨fun k hk => hk, fun k hk => Or.inl hk, ?_, fun k hk j hj => Or.inl (hclosed k hk j hj),
      ?_, List.nodup_nil, ?_⟩
    · exact fun b hb => ⟨b, List.mem_reverse.mp hb, Relation.ReflTransGen.refl⟩
    · exact fun a ha => Or.inr (List.mem_map_of_mem (List.mem_reverse.mpr ha))
    · intro k
      simp
  have hend : Walked key next seen₀ seeds (walk key kids fuel seen₀ seeds) [] :=
    drain_induct _ (fun s stack => budget s.1 + stack.length)
      (Walked.visitNew hnext) (fun s a stack _ => hbudget.drop s a stack) hstart
      (by simpa using hfuel)
  have hreach : ∀ k j, Reach next k j → k ∈ (walk key kids fuel seen₀ seeds).1 →
      j ∈ (walk key kids fuel seen₀ seeds).1 := by
    intro k j hkj hk
    induction hkj with
    | refl => exact hk
    | tail _ hstep ih => exact (hend.closed _ ih _ hstep).resolve_right (by simp)
  refine ⟨fun k => ⟨hend.sound k, ?_⟩, hend.nodup, hend.visited⟩
  rintro (hk | ⟨a, ha, hak⟩)
  · exact hend.known hk
  · exact hreach _ _ hak ((hend.seeded a ha).resolve_right (by simp))

/-- What holds of the seeds and of everything a visit pushes holds of every item visited. -/
theorem walk_forall (P : α → Prop) (seen₀ : Finset κ) {seeds : List α} {fuel : ℕ}
    (hbudget : Budget key kids budget) (hseeds : ∀ a ∈ seeds, P a)
    (hkids : ∀ a, P a → ∀ b ∈ kids a, P b) (hfuel : budget seen₀ + seeds.length ≤ fuel) :
    ∀ a ∈ (walk key kids fuel seen₀ seeds).2, P a := by
  have hend : (∀ a ∈ (walk key kids fuel seen₀ seeds).2, P a) ∧ ∀ a ∈ [], P a :=
    drain_induct (fun s stack => (∀ a ∈ s.2, P a) ∧ ∀ a ∈ stack, P a)
      (fun s stack => budget s.1 + stack.length) ?_ (fun s a stack _ => hbudget.drop s a stack)
      ⟨by simp, fun a ha => hseeds a (List.mem_reverse.mp ha)⟩ (by simpa using hfuel)
  · exact hend.1
  · rintro s a stack ⟨hvisited, hstack⟩
    have ha : P a := hstack a List.mem_cons_self
    have hrest : ∀ b ∈ stack, P b := fun b hb => hstack b (List.mem_cons_of_mem _ hb)
    by_cases hseen : key a ∈ s.1
    · simp only [visitNew, hseen, if_true, List.reverse_nil, List.nil_append]
      exact ⟨hvisited, hrest⟩
    · simp only [visitNew, hseen, if_false]
      refine ⟨fun b hb => ?_, fun b hb => ?_⟩
      · rcases List.mem_append.mp hb with hb | hb
        · exact hvisited b hb
        · exact List.mem_singleton.mp hb ▸ ha
      · rcases List.mem_append.mp hb with hb | hb
        · exact hkids a ha b (List.mem_reverse.mp hb)
        · exact hrest b hb

/-- The items of a walk are those with the keys it popped, where a key tells the items apart. -/
theorem mem_walk_iff (next : κ → List κ) (U : α → Prop) {seeds : List α} {fuel : ℕ}
    (hbudget : Budget key kids budget)
    (hnext : ∀ a j, j ∈ (kids a).map key ↔ j ∈ next (key a))
    (hinj : ∀ a b, U a → U b → key a = key b → a = b) (hseeds : ∀ a ∈ seeds, U a)
    (hkids : ∀ a, U a → ∀ b ∈ kids a, U b) (hfuel : budget ∅ + seeds.length ≤ fuel) {a : α} :
    a ∈ (walk key kids fuel ∅ seeds).2 ↔ U a ∧ ∃ b ∈ seeds, Reach next (key b) (key a) := by
  obtain ⟨hkeys, -, hvisited⟩ := walk_spec next ∅ hbudget hnext (by simp) hfuel
  have hU := walk_forall U ∅ hbudget hseeds hkids hfuel
  have hmem : ∀ k, k ∈ (walk key kids fuel ∅ seeds).2.map key ↔
      ∃ b ∈ seeds, Reach next (key b) k := by
    intro k
    rw [hvisited, hkeys]
    simp
  constructor
  · intro ha
    exact ⟨hU a ha, (hmem _).mp (List.mem_map_of_mem ha)⟩
  · rintro ⟨haU, hreach⟩
    obtain ⟨b, hb, hkey⟩ := List.mem_map.mp ((hmem _).mpr hreach)
    rwa [hinj a b haU (hU b hb) hkey.symm]

/-! ### Gathering items -/

/-- An item that was not met before is recorded as met, and gathered and pushed if accepted. -/
def gatherStep (key : α → κ) (accept : α → Bool) (t : (Finset κ × List α) × List α) (kid : α) :
    (Finset κ × List α) × List α :=
  if key kid ∈ t.1.1 then t
  else if accept kid then ((insert (key kid) t.1.1, t.1.2 ++ [kid]), t.2 ++ [kid])
  else ((insert (key kid) t.1.1, t.1.2), t.2)

/-- One turn of the walk that gathers: the accepted children are followed. -/
def gatherVisit (key : α → κ) (kids : α → List α) (accept : α → Bool) (s : Finset κ × List α)
    (a : α) : (Finset κ × List α) × List α :=
  (kids a).foldl (gatherStep key accept) (s, [])

/-- What is reachable from `root` through accepted items, `root` first. -/
def gather (key : α → κ) (kids : α → List α) (accept : α → Bool) (fuel : ℕ) (root : α) : List α :=
  (drain (gatherVisit key kids accept) fuel ({key root}, [root]) [root]).2

variable {accept : α → Bool} {U : α → Prop}

/-- What going through some items adds. -/
structure Gathered (key : α → κ) (accept : α → Bool) (U : α → Prop) (budget : Finset κ → ℕ)
    (s : Finset κ × List α) (items new : List α) (s' : Finset κ × List α) : Prop where
  out : s'.2 = s.2 ++ new
  accepted : ∀ x ∈ new, x ∈ items ∧ accept x = true
  mono : s.1 ⊆ s'.1
  met : ∀ b ∈ items, key b ∈ s'.1
  nodup : (new.map key).Nodup
  fresh : ∀ x ∈ new, key x ∉ s.1 ∧ key x ∈ s'.1
  /-- What is newly met is gathered if it is accepted. -/
  complete : ∀ b, U b → accept b = true → key b ∈ s'.1 → key b ∈ s.1 ∨ b ∈ new
  paid : budget s'.1 + new.length ≤ budget s.1

variable (accept budget) in
theorem gathered_foldl (hinj : ∀ a b, U a → U b → key a = key b → a = b) :
    ∀ (items : List α), (∀ b ∈ items, U b) →
      (∀ b ∈ items, ∀ seen, key b ∉ seen → budget (insert (key b) seen) < budget seen) →
      ∀ (s : Finset κ × List α) (pushed : List α), ∃ new,
        (items.foldl (gatherStep key accept) (s, pushed)).2 = pushed ++ new ∧
        Gathered key accept U budget s items new
          (items.foldl (gatherStep key accept) (s, pushed)).1 := by
  intro items
  induction items with
  | nil =>
    intro _ _ s pushed
    refine ⟨[], (List.append_nil _).symm, (List.append_nil _).symm, by simp, fun _ h => h, by simp,
      by simp, by simp, fun b _ _ hb => Or.inl hb, le_refl _⟩
  | cons kid items ih =>
    intro hU hpay s pushed
    have hkidU : U kid := hU kid List.mem_cons_self
    have ih' := ih (fun b hb => hU b (List.mem_cons_of_mem _ hb))
      fun b hb => hpay b (List.mem_cons_of_mem _ hb)
    rw [List.foldl_cons]
    by_cases hseen : key kid ∈ s.1
    · -- a key that was met before changes nothing
      have hstep : gatherStep key accept (s, pushed) kid = (s, pushed) := if_pos hseen
      rw [hstep]
      obtain ⟨new, hpushed, h⟩ := ih' s pushed
      refine ⟨new, hpushed, h.out, fun x hx => ?_, h.mono, ?_, h.nodup, h.fresh, h.complete, h.paid⟩
      · exact ⟨List.mem_cons_of_mem _ (h.accepted x hx).1, (h.accepted x hx).2⟩
      · intro b hb
        rcases List.mem_cons.mp hb with rfl | hb
        · exact h.mono hseen
        · exact h.met b hb
    · have hbudget := hpay kid List.mem_cons_self s.1 hseen
      have hinsert : ∀ k, k ∈ s.1 → k ∈ insert (key kid) s.1 :=
        fun k hk => Finset.mem_insert_of_mem hk
      -- a new key is paid for out of the budget, accepted or not
      cases haccept : accept kid with
      | false =>
        have hstep : gatherStep key accept (s, pushed) kid =
            ((insert (key kid) s.1, s.2), pushed) := by
          simp [gatherStep, hseen, haccept]
        rw [hstep]
        obtain ⟨new, hpushed, h⟩ := ih' (insert (key kid) s.1, s.2) pushed
        refine ⟨new, hpushed, h.out, fun x hx => ?_, fun k hk => h.mono (hinsert k hk), ?_, h.nodup,
          fun x hx => ⟨fun hk => (h.fresh x hx).1 (hinsert _ hk), (h.fresh x hx).2⟩, ?_, ?_⟩
        · exact ⟨List.mem_cons_of_mem _ (h.accepted x hx).1, (h.accepted x hx).2⟩
        · intro b hb
          rcases List.mem_cons.mp hb with rfl | hb
          · exact h.mono (Finset.mem_insert_self _ _)
          · exact h.met b hb
        · intro b hb hbaccept hbseen
          rcases h.complete b hb hbaccept hbseen with hk | hnew
          · rcases Finset.mem_insert.mp hk with heq | hk
            · -- two items of one key are the same item
              rw [hinj b kid hb hkidU heq, haccept] at hbaccept
              cases hbaccept
            · exact Or.inl hk
          · exact Or.inr hnew
        · have hpaid := h.paid
          dsimp only at hpaid
          omega
      | true =>
        have hstep : gatherStep key accept (s, pushed) kid =
            ((insert (key kid) s.1, s.2 ++ [kid]), pushed ++ [kid]) := by
          simp [gatherStep, hseen, haccept]
        rw [hstep]
        obtain ⟨new, hpushed, h⟩ := ih' (insert (key kid) s.1, s.2 ++ [kid]) (pushed ++ [kid])
        -- the rest meets this key as a known one
        have hkid : key kid ∉ new.map key := by
          intro hmem
          obtain ⟨x, hx, hkey⟩ := List.mem_map.mp hmem
          exact (h.fresh x hx).1 (hkey ▸ Finset.mem_insert_self _ _)
        refine ⟨kid :: new, ?_, ?_, fun x hx => ?_, fun k hk => h.mono (hinsert k hk), ?_, ?_, ?_,
          ?_, ?_⟩
        · rw [hpushed, List.append_assoc, List.singleton_append]
        · rw [h.out, List.append_assoc, List.singleton_append]
        · rcases List.mem_cons.mp hx with rfl | hx
          · exact ⟨List.mem_cons_self, haccept⟩
          · exact ⟨List.mem_cons_of_mem _ (h.accepted x hx).1, (h.accepted x hx).2⟩
        · intro b hb
          rcases List.mem_cons.mp hb with rfl | hb
          · exact h.mono (Finset.mem_insert_self _ _)
          · exact h.met b hb
        · rw [List.map_cons]
          exact List.nodup_cons.mpr ⟨hkid, h.nodup⟩
        · intro x hx
          rcases List.mem_cons.mp hx with rfl | hx
          · exact ⟨hseen, h.mono (Finset.mem_insert_self _ _)⟩
          · exact ⟨fun hk => (h.fresh x hx).1 (hinsert _ hk), (h.fresh x hx).2⟩
        · intro b hb hbaccept hbseen
          rcases h.complete b hb hbaccept hbseen with hk | hnew
          · rcases Finset.mem_insert.mp hk with heq | hk
            · exact Or.inr (hinj b kid hb hkidU heq ▸ List.mem_cons_self)
            · exact Or.inl hk
          · exact Or.inr (List.mem_cons_of_mem _ hnew)
        · have hpaid := h.paid
          dsimp only at hpaid
          rw [List.length_cons]
          omega

/-- What holds between two pops of a gathering. -/
structure Gathering (key : α → κ) (kids : α → List α) (accept : α → Bool) (U : α → Prop) (root : α)
    (s : Finset κ × List α) (stack : List α) : Prop where
  head : ∃ rest, s.2 = root :: rest
  nodup : (s.2.map key).Nodup
  within : ∀ x ∈ s.2, U x ∧ key x ∈ s.1
  sound : ∀ x ∈ s.2, Relation.ReflTransGen (fun a b => b ∈ kids a ∧ accept b = true) root x
  complete : ∀ b, U b → accept b = true → key b ∈ s.1 → b ∈ s.2
  waits : ∀ x ∈ stack, x ∈ s.2
  /-- What follows a popped item was met. -/
  closed : ∀ x ∈ s.2, x ∈ stack ∨ ∀ b ∈ kids x, key b ∈ s.1

theorem Gathering.turn (hinj : ∀ a b, U a → U b → key a = key b → a = b)
    (hkids : ∀ a, U a → ∀ b ∈ kids a, U b)
    (hpay : ∀ a, U a → ∀ b ∈ kids a, ∀ seen, key b ∉ seen →
      budget (insert (key b) seen) < budget seen)
    {root : α} (s : Finset κ × List α) (a : α) (stack : List α)
    (h : Gathering key kids accept U root s (a :: stack)) :
    Gathering key kids accept U root (gatherVisit key kids accept s a).1
        ((gatherVisit key kids accept s a).2.reverse ++ stack) ∧
      budget (gatherVisit key kids accept s a).1.1 +
          ((gatherVisit key kids accept s a).2.reverse ++ stack).length <
        budget s.1 + (a :: stack).length := by
  have ha : a ∈ s.2 := h.waits a List.mem_cons_self
  have haU : U a := (h.within a ha).1
  -- `new` are the accepted children of `a` whose keys were not met yet
  obtain ⟨new, hpushed, hnew⟩ := gathered_foldl budget accept hinj (kids a)
    (hkids a haU) (hpay a haU) s []
  rw [List.nil_append] at hpushed
  unfold gatherVisit
  generalize (kids a).foldl (gatherStep key accept) (s, []) = t at hpushed hnew ⊢
  rw [hpushed]
  have hmem : ∀ x, x ∈ t.1.2 ↔ x ∈ s.2 ∨ x ∈ new := by
    intro x
    rw [hnew.out, List.mem_append]
  refine ⟨⟨?_, ?_, ?_, ?_, ?_, ?_, ?_⟩, ?_⟩
  · obtain ⟨rest, hrest⟩ := h.head
    exact ⟨rest ++ new, by rw [hnew.out, hrest, List.cons_append]⟩
  · rw [hnew.out, List.map_append]
    refine h.nodup.append hnew.nodup ?_
    intro k hk hknew
    obtain ⟨x, hx, rfl⟩ := List.mem_map.mp hk
    obtain ⟨y, hy, hkey⟩ := List.mem_map.mp hknew
    exact (hnew.fresh y hy).1 (hkey ▸ (h.within x hx).2)
  · intro x hx
    rcases (hmem x).mp hx with hx | hx
    · exact ⟨(h.within x hx).1, hnew.mono (h.within x hx).2⟩
    · exact ⟨hkids a haU x (hnew.accepted x hx).1, (hnew.fresh x hx).2⟩
  · intro x hx
    rcases (hmem x).mp hx with hx | hx
    · exact h.sound x hx
    · exact (h.sound a ha).tail (hnew.accepted x hx)
  · intro b hb haccept hseen
    rw [hmem]
    rcases hnew.complete b hb haccept hseen with hk | hb'
    · exact Or.inl (h.complete b hb haccept hk)
    · exact Or.inr hb'
  · intro x hx
    rw [hmem]
    rcases List.mem_append.mp hx with hx | hx
    · exact Or.inr (List.mem_reverse.mp hx)
    · exact Or.inl (h.waits x (List.mem_cons_of_mem _ hx))
  · intro x hx
    rcases (hmem x).mp hx with hx | hx
    · rcases h.closed x hx with hstack | hmet
      · rcases List.mem_cons.mp hstack with rfl | hstack
        · exact Or.inr hnew.met
        · exact Or.inl (List.mem_append_right _ hstack)
      · exact Or.inr fun b hb => hnew.mono (hmet b hb)
    · exact Or.inl (List.mem_append_left _ (List.mem_reverse.mpr hx))
  · -- what is pushed is paid for out of the budget, and `a` is popped
    have hpaid := hnew.paid
    rw [List.length_append, List.length_reverse, List.length_cons]
    omega

variable (key kids budget accept U) in
/-- **A gathering finds what is reachable through accepted items, each once, its root first.** -/
theorem gather_spec (hinj : ∀ a b, U a → U b → key a = key b → a = b)
    (hkids : ∀ a, U a → ∀ b ∈ kids a, U b)
    (hpay : ∀ a, U a → ∀ b ∈ kids a, ∀ seen, key b ∉ seen →
      budget (insert (key b) seen) < budget seen)
    {root : α} (hroot : U root) {fuel : ℕ} (hfuel : budget {key root} + 1 ≤ fuel) :
    (∃ rest, gather key kids accept fuel root = root :: rest) ∧
    ((gather key kids accept fuel root).map key).Nodup ∧
    ∀ x, x ∈ gather key kids accept fuel root ↔
      Relation.ReflTransGen (fun a b => b ∈ kids a ∧ accept b = true) root x := by
  have hstart : Gathering key kids accept U root ({key root}, [root]) [root] := by
    refine ⟨⟨[], rfl⟩, by simp, ?_, ?_, ?_, fun x hx => hx, fun x hx => Or.inl hx⟩
    · intro x hx
      rw [List.mem_singleton.mp hx]
      exact ⟨hroot, Finset.mem_singleton_self _⟩
    · intro x hx
      rw [List.mem_singleton.mp hx]
    · intro b hb _ hseen
      rw [hinj b root hb hroot (Finset.mem_singleton.mp hseen)]
      exact List.mem_singleton_self root
  have hend : Gathering key kids accept U root
      (drain (gatherVisit key kids accept) fuel ({key root}, [root]) [root]) [] :=
    drain_induct _ (fun s stack => budget s.1 + stack.length)
      (fun s a stack h => (Gathering.turn hinj hkids hpay s a stack h).1)
      (fun s a stack h => (Gathering.turn hinj hkids hpay s a stack h).2) hstart
      (by simpa using hfuel)
  refine ⟨hend.head, hend.nodup, fun x => ⟨hend.sound x, fun hreach => ?_⟩⟩
  induction hreach with
  | refl =>
    obtain ⟨rest, hrest⟩ := hend.head
    rw [gather, hrest]
    exact List.mem_cons_self
  | @tail y z _ hstep ih =>
    have hmet := (hend.closed y ih).resolve_left List.not_mem_nil z hstep.1
    exact hend.complete z (hkids y (hend.within y ih).1 z hstep.1) hstep.2 hmet

end Worklist

end Taskman
