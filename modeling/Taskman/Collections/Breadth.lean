import Taskman.LTS.While
import Mathlib.Data.Finset.Card
import Mathlib.Data.List.Nodup

/-!
# Searching breadth first

A loop over a queue of nodes: pop the front, go through its items, and record and enqueue each item
whose key was not met before.

* `Breadth.search` : the items found, in the order they were met;
* `Breadth.Reached` : what is reachable from the start by following items;
* `Breadth.search_spec` : **the search finds what is reachable, each key once, and every item after
  the one it was found through**.
-/

namespace Taskman

namespace Breadth

variable {α β κ : Type*} [DecidableEq κ]

/-- The keys met, the items found so far, and the nodes waiting. -/
structure State (α β κ : Type*) where
  seen : Finset κ
  found : List β
  queue : List α

/-- An item whose key is new is recorded, and its node waits at the end of the queue. -/
def record (key : β → κ) (node : β → α) (s : State α β κ) (b : β) : State α β κ :=
  if key b ∈ s.seen then s
  else { seen := insert (key b) s.seen, found := s.found ++ [b], queue := s.queue ++ [node b] }

/-- `while let Some(a) = queue.pop_front() { for b in items(a) { .. } }`: one turn. -/
def turn (key : β → κ) (node : β → α) (items : α → List β) (s : State α β κ) :
    Option (State α β κ) :=
  match s.queue with
  | [] => none
  | a :: rest => some ((items a).foldl (record key node) { s with queue := rest })

/-- The items found from a start node, whose own key counts as met. -/
def search (key : β → κ) (node : β → α) (items : α → List β) (fuel : ℕ) (k : κ) (a : α) : List β :=
  (While.run (turn key node items) fuel { seen := {k}, found := [], queue := [a] }).found

/-- What is reachable from a node by following items. -/
inductive Reached (node : β → α) (items : α → List β) (a : α) : β → Prop
  | first {b : β} (h : b ∈ items a) : Reached node items a b
  | next {b c : β} (hb : Reached node items a b) (h : c ∈ items (node b)) : Reached node items a c

variable {key : β → κ} {node : β → α} {items : α → List β}

/-! ### One turn -/

/-- What going through the items of one node adds. -/
structure Admitted (key : β → κ) (node : β → α) (keys : Finset κ) (s : State α β κ)
    (bs new : List β) (s' : State α β κ) : Prop where
  found : s'.found = s.found ++ new
  queue : s'.queue = s.queue ++ new.map node
  seen : ∀ j, j ∈ s'.seen ↔ j ∈ s.seen ∨ j ∈ new.map key
  among : ∀ b ∈ new, b ∈ bs
  nodup : (new.map key).Nodup
  fresh : ∀ b ∈ new, key b ∉ s.seen
  met : ∀ b ∈ bs, key b ∈ s'.seen
  /-- Every new item uses up one key of the universe. -/
  paid : (keys \ s'.seen).card + new.length = (keys \ s.seen).card

theorem admitted_foldl (keys : Finset κ) (bs : List β) (hkeys : ∀ b ∈ bs, key b ∈ keys)
    (s : State α β κ) :
    ∃ new, Admitted key node keys s bs new (bs.foldl (record key node) s) := by
  induction bs generalizing s with
  | nil =>
    exact ⟨[], by simp, by simp, by simp, by simp, by simp, by simp, by simp, by simp⟩
  | cons b bs ih =>
    have ih' := ih fun c hc => hkeys c (List.mem_cons_of_mem _ hc)
    rw [List.foldl_cons]
    -- a key that was seen before changes nothing
    by_cases hseen : key b ∈ s.seen
    · have hstep : record key node s b = s := if_pos hseen
      rw [hstep]
      obtain ⟨new, h⟩ := ih' s
      refine ⟨new, h.found, h.queue, h.seen, fun c hc => List.mem_cons_of_mem _ (h.among c hc),
        h.nodup, h.fresh, ?_, h.paid⟩
      intro c hc
      rcases List.mem_cons.mp hc with rfl | hc
      · exact (h.seen _).mpr (Or.inl hseen)
      · exact h.met c hc
    · have hstep : record key node s b =
          { seen := insert (key b) s.seen, found := s.found ++ [b],
            queue := s.queue ++ [node b] } := if_neg hseen
      rw [hstep]
      obtain ⟨new, h⟩ := ih' _
      have hseen' : ∀ j, j ∈ (bs.foldl (record key node)
          { seen := insert (key b) s.seen, found := s.found ++ [b],
            queue := s.queue ++ [node b] }).seen ↔ j ∈ s.seen ∨ j ∈ (b :: new).map key := by
        intro j
        rw [h.seen, Finset.mem_insert, List.map_cons, List.mem_cons]
        tauto
      refine ⟨b :: new, ?_, ?_, hseen', ?_, ?_, ?_, ?_, ?_⟩
      · rw [h.found, List.append_assoc, List.singleton_append]
      · rw [h.queue, List.append_assoc, List.singleton_append, List.map_cons]
      · intro c hc
        rcases List.mem_cons.mp hc with rfl | hc
        · exact List.mem_cons_self
        · exact List.mem_cons_of_mem _ (h.among c hc)
      · rw [List.map_cons]
        refine List.nodup_cons.mpr ⟨fun hmem => ?_, h.nodup⟩
        obtain ⟨c, hc, hkey⟩ := List.mem_map.mp hmem
        exact h.fresh c hc (hkey ▸ Finset.mem_insert_self _ _)
      · intro c hc
        rcases List.mem_cons.mp hc with rfl | hc
        · exact hseen
        · exact fun hmem => h.fresh c hc (Finset.mem_insert_of_mem hmem)
      · intro c hc
        rw [hseen']
        rcases List.mem_cons.mp hc with rfl | hc
        · exact Or.inr List.mem_cons_self
        · have hmet := h.met c hc
          rwa [hseen'] at hmet
      · have hpaid := h.paid
        have hmem : key b ∈ keys \ s.seen :=
          Finset.mem_sdiff.mpr ⟨hkeys b List.mem_cons_self, hseen⟩
        rw [Finset.sdiff_insert, Finset.card_erase_of_mem hmem] at hpaid
        have hpos : 0 < (keys \ s.seen).card := Finset.card_pos.mpr ⟨_, hmem⟩
        rw [List.length_cons]
        omega

/-! ### The whole search -/

/-- What holds between two turns of a search from `a`. -/
structure Searching (key : β → κ) (node : β → α) (items : α → List β) (k : κ) (a : α)
    (s : State α β κ) : Prop where
  seen : ∀ j, j ∈ s.seen ↔ j = k ∨ j ∈ s.found.map key
  nodup : (s.found.map key).Nodup
  fresh : k ∉ s.found.map key
  sound : ∀ b ∈ s.found, Reached node items a b
  /-- An item comes after the one it was found through. -/
  through : ∀ pre b post, s.found = pre ++ b :: post →
    b ∈ items a ∨ ∃ p ∈ pre, b ∈ items (node p)
  waits : ∀ x ∈ s.queue, x = a ∨ x ∈ s.found.map node
  /-- The items of a node that no longer waits were met. -/
  closed : ∀ x, x = a ∨ x ∈ s.found.map node →
    x ∈ s.queue ∨ ∀ b ∈ items x, key b ∈ s.seen

/-- The splits of a list that was extended. -/
theorem split_append {γ : Type*} {xs ys pre post : List γ} {c : γ}
    (h : xs ++ ys = pre ++ c :: post) :
    (∃ post', xs = pre ++ c :: post') ∨ c ∈ ys ∧ ∀ x ∈ xs, x ∈ pre := by
  rcases List.append_eq_append_iff.mp h with ⟨as, hpre, hys⟩ | ⟨cs, hxs, hcs⟩
  · refine Or.inr ⟨?_, fun x hx => ?_⟩
    · rw [hys]
      exact List.mem_append_right _ List.mem_cons_self
    · rw [hpre]
      exact List.mem_append_left _ hx
  · cases cs with
    | nil =>
      rw [List.nil_append] at hcs
      rw [List.append_nil] at hxs
      refine Or.inr ⟨hcs ▸ List.mem_cons_self, fun x hx => hxs ▸ hx⟩
    | cons d cs =>
      rw [List.cons_append] at hcs
      injection hcs with hd hcs
      subst hd
      exact Or.inl ⟨cs, hxs⟩

variable {keys : Finset κ} {k : κ} {a : α}

/-- A turn keeps what holds between two turns. -/
theorem Searching.turn (hkeys : ∀ x, ∀ b ∈ items x, key b ∈ keys) {s s' : State α β κ}
    (h : Searching key node items k a s) (hturn : turn key node items s = some s') :
    Searching key node items k a s' ∧
      (keys \ s'.seen).card + s'.queue.length < (keys \ s.seen).card + s.queue.length := by
  obtain ⟨seen, found, queue⟩ := s
  cases queue with
  | nil => cases hturn
  | cons x rest =>
    obtain rfl := Option.some.inj hturn
    -- `new` are the items of `x` whose keys were not seen yet
    obtain ⟨new, hnew⟩ := admitted_foldl keys (items x) (hkeys x)
      ({ seen := seen, found := found, queue := rest } : State α β κ)
    generalize (items x).foldl (record key node) _ = s' at hnew ⊢
    have hx := h.waits x List.mem_cons_self
    have hfound := hnew.found
    have hqueue := hnew.queue
    have hseen := hnew.seen
    have hseen₀ := h.seen
    dsimp only at hfound hqueue hseen hseen₀
    have hreach : ∀ b ∈ items x, Reached node items a b := by
      intro b hb
      rcases hx with rfl | hx
      · exact Reached.first hb
      · obtain ⟨p, hp, rfl⟩ := List.mem_map.mp hx
        exact Reached.next (h.sound p hp) hb
    refine ⟨⟨?_, ?_, ?_, ?_, ?_, ?_, ?_⟩, ?_⟩
    · intro j
      rw [hseen, hseen₀, hfound, List.map_append, List.mem_append, or_assoc]
    · rw [hfound, List.map_append]
      refine h.nodup.append hnew.nodup ?_
      intro j hj hjnew
      obtain ⟨b, hb, rfl⟩ := List.mem_map.mp hjnew
      exact hnew.fresh b hb ((hseen₀ _).mpr (Or.inr hj))
    · rw [hfound, List.map_append, List.mem_append]
      rintro (hk | hk)
      · exact h.fresh hk
      · obtain ⟨b, hb, hkey⟩ := List.mem_map.mp hk
        exact hnew.fresh b hb ((hseen₀ _).mpr (Or.inl hkey))
    · intro b hb
      rw [hfound] at hb
      rcases List.mem_append.mp hb with hb | hb
      · exact h.sound b hb
      · exact hreach b (hnew.among b hb)
    · intro pre b post hsplit
      rw [hfound] at hsplit
      -- an item found before keeps its way, a new one hangs on `x`
      rcases split_append hsplit with ⟨post', hold⟩ | ⟨hb, hpre⟩
      · exact h.through pre b post' hold
      · rcases hx with rfl | hx
        · exact Or.inl (hnew.among b hb)
        · obtain ⟨p, hp, rfl⟩ := List.mem_map.mp hx
          exact Or.inr ⟨p, hpre p hp, hnew.among b hb⟩
    · intro y hy
      rw [hqueue] at hy
      rw [hfound, List.map_append, List.mem_append]
      rcases List.mem_append.mp hy with hy | hy
      · exact (h.waits y (List.mem_cons_of_mem _ hy)).imp_right Or.inl
      · exact Or.inr (Or.inr hy)
    · intro y hy
      rw [hfound, List.map_append, List.mem_append, ← or_assoc] at hy
      rw [hqueue, List.mem_append]
      rcases hy with hy | hy
      · rcases h.closed y hy with hwait | hmet
        · rcases List.mem_cons.mp hwait with rfl | hwait
          · exact Or.inr hnew.met
          · exact Or.inl (Or.inl hwait)
        · exact Or.inr fun b hb => (hseen _).mpr (Or.inl (hmet b hb))
      · exact Or.inl (Or.inr hy)
    · -- every new key is one less that can still be seen
      have hpaid := hnew.paid
      dsimp only at hpaid
      show (keys \ s'.seen).card + s'.queue.length < (keys \ seen).card + (x :: rest).length
      rw [hqueue, List.length_append, List.length_map, List.length_cons]
      omega

variable (key node items keys) in
/-- **A search finds what is reachable: each key once, the start's key never, and every item after
the one it was found through.** -/
theorem search_spec (hkeys : ∀ x, ∀ b ∈ items x, key b ∈ keys)
    (hinj : ∀ b c, Reached node items a b → Reached node items a c → key b = key c → b = c)
    (hback : ∀ b, Reached node items a b → key b = k → ∀ c ∈ items (node b), c ∈ items a)
    {fuel : ℕ} (hfuel : keys.card < fuel) :
    ((search key node items fuel k a).map key).Nodup ∧
    (∀ b, b ∈ search key node items fuel k a ↔ Reached node items a b ∧ key b ≠ k) ∧
    ∀ pre b post, search key node items fuel k a = pre ++ b :: post →
      b ∈ items a ∨ ∃ p ∈ pre, b ∈ items (node p) := by
  have hranked : While.Ranked (turn key node items) (Searching key node items k a)
      fun s => (keys \ s.seen).card + s.queue.length :=
    ⟨fun s s' h hturn => (h.turn hkeys hturn).1, fun s s' h hturn => (h.turn hkeys hturn).2⟩
  have hrank : (keys \ {k}).card + [a].length ≤ fuel := by
    have hle := Finset.card_le_card (Finset.sdiff_subset (s := keys) (t := {k}))
    rw [List.length_singleton]
    omega
  have hstart : Searching key node items k a { seen := {k}, found := [], queue := [a] } := by
    refine ⟨by simp, by simp, by simp, by simp, by simp, by simp, ?_⟩
    intro x hx
    rcases hx with rfl | hx
    · exact Or.inl List.mem_cons_self
    · cases hx
  obtain ⟨hend, hstop⟩ := hranked.run_stops hstart hrank
  unfold search
  generalize While.run (turn key node items) fuel _ = s at hend hstop ⊢
  have hempty : s.queue = [] := by
    obtain ⟨seen, found, queue⟩ := s
    cases queue with
    | nil => rfl
    | cons x rest => cases hstop
  have hclosed : ∀ x, x = a ∨ x ∈ s.found.map node → ∀ b ∈ items x, key b ∈ s.seen := by
    intro x hx
    refine (hend.closed x hx).resolve_left ?_
    rw [hempty]
    exact List.not_mem_nil
  -- a reachable item is found, or it is the start met again, whose items are the start's
  have hfound : ∀ b, Reached node items a b → key b = k ∨ b ∈ s.found := by
    intro b hb
    have hseen : key b ∈ s.seen := by
      induction hb with
      | first h => exact hclosed a (Or.inl rfl) _ h
      | @next b c hb h ih =>
        rcases (hend.seen _).mp ih with hk | hmem
        · exact hclosed a (Or.inl rfl) c (hback b hb hk c h)
        · obtain ⟨b', hb', hkey⟩ := List.mem_map.mp hmem
          obtain rfl := hinj b' b (hend.sound b' hb') hb hkey
          exact hclosed _ (Or.inr (List.mem_map_of_mem hb')) c h
    rcases (hend.seen _).mp hseen with hk | hmem
    · exact Or.inl hk
    · obtain ⟨b', hb', hkey⟩ := List.mem_map.mp hmem
      exact Or.inr (hinj b' b (hend.sound b' hb') hb hkey ▸ hb')
  refine ⟨hend.nodup, fun b => ⟨fun hb => ⟨hend.sound b hb, ?_⟩, fun hb => ?_⟩, hend.through⟩
  · exact fun hk => hend.fresh (hk ▸ List.mem_map_of_mem hb)
  · exact (hfound b hb.1).resolve_left hb.2

end Breadth

end Taskman
