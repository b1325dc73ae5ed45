import Taskman.Core.Model
import Taskman.Collections.HashOrder
import Taskman.Numeric.Ranges
import Mathlib.Algebra.Order.Ring.Rat
import Mathlib.Algebra.Order.BigOperators.Group.List
import Mathlib.Data.List.Nodup
import Mathlib.Data.List.Basic
import Mathlib.Tactic.Ring

/-!
# Load of a group of processes

Disks and GPU engines are shared by time slicing.  Shares of one resource add up across the members
of a group, different resources do not, and the busiest resource is the group's load.  A member
without a breakdown keeps the plain sum.

* `BusiestShare`, `BusiestShare.pct` : the accumulator and the busiest resource, at most 100; the
  sums are those of a given arithmetic, and exact ones in what is proved;
* `BusiestShare.pct_eq` : the order in which the resources are visited does not matter;
* `BusiestShare.le_pct` : **the load of a group is at least that of each member** whose own load is
  one of its shares and at most 100;
* `BusiestShare.pct_le`, `BusiestShare.pct_le_of_subperm` : **it is at most what bounds the sum of
  the members on every resource**;
* `DiskGroupLoad`, `GpuGroupLoad` : the two uses.
-/

namespace Taskman

/-- Load of a group on resources shared by time slicing. -/
structure BusiestShare (κ : Type*) where
  perResource : List (κ × ℚ) := []
  /-- Load of the members whose backend reports no breakdown. -/
  unattributed : ℚ := 0
  known : Bool := false

namespace BusiestShare

variable {κ α : Type*} [DecidableEq κ]

/-- `*per_resource.entry(resource).or_insert(0.0) += pct`, where `round` is what is left of a
sum. -/
def addShareBy (round : ℚ → ℚ) (per : List (κ × ℚ)) (share : κ × ℚ) : List (κ × ℚ) :=
  match per with
  | [] => [(share.1, round (0 + share.2))]
  | (resource, pct) :: per =>
    if resource = share.1 then (resource, round (pct + share.2)) :: per
    else (resource, pct) :: addShareBy round per share

/-- One member is added. -/
def addBy (round : ℚ → ℚ) (s : BusiestShare κ) (own : Option ℚ) (shares : List (κ × ℚ)) :
    BusiestShare κ :=
  match own with
  | none => s
  | some own =>
    if shares.length = 0 then { s with known := true, unattributed := round (s.unattributed + own) }
    else { s with known := true, perResource := shares.foldl (addShareBy round) s.perResource }

/-- The busiest resource; `none` when no member was measured. -/
def pct (s : BusiestShare κ) (iteration : HashOrder (κ × ℚ)) : Option ℚ :=
  if s.known then
    some (max 0 (min 100
      (((iteration.order s.perResource).map Prod.snd).foldl max s.unattributed)))
  else none

/-- The load of the members of a group. -/
def ofBy (round : ℚ → ℚ) (own : α → Option ℚ) (shares : α → List (κ × ℚ)) (members : List α) :
    BusiestShare κ :=
  members.foldl (fun s p => s.addBy round (own p) (shares p)) {}

/-! ### Exact arithmetic -/

/-- A share is added exactly. -/
def addShare : List (κ × ℚ) → κ × ℚ → List (κ × ℚ) := addShareBy id

/-- A member is added exactly. -/
def add (s : BusiestShare κ) (own : Option ℚ) (shares : List (κ × ℚ)) : BusiestShare κ :=
  s.addBy id own shares

/-- The load of the members of a group, added exactly. -/
def of (own : α → Option ℚ) (shares : α → List (κ × ℚ)) (members : List α) : BusiestShare κ :=
  ofBy id own shares members

@[simp]
theorem addShare_nil (share : κ × ℚ) : addShare [] share = [(share.1, 0 + share.2)] := rfl

theorem addShare_cons (x : κ × ℚ) (per : List (κ × ℚ)) (share : κ × ℚ) :
    addShare (x :: per) share =
      if x.1 = share.1 then (x.1, x.2 + share.2) :: per else x :: addShare per share := rfl

@[simp]
theorem add_none (s : BusiestShare κ) (shares : List (κ × ℚ)) : s.add none shares = s := rfl

theorem add_some (s : BusiestShare κ) (own : ℚ) (shares : List (κ × ℚ)) :
    s.add (some own) shares =
      if shares.length = 0 then { s with known := true, unattributed := s.unattributed + own }
      else { s with known := true, perResource := shares.foldl addShare s.perResource } := rfl

theorem of_eq_foldl (own : α → Option ℚ) (shares : α → List (κ × ℚ)) (members : List α) :
    of own shares members = members.foldl (fun s p => s.add (own p) (shares p)) {} := rfl

/-- Shares of distinct resources are listed as they are, where no single one is rounded. -/
theorem foldl_addShareBy_of_nodup {round : ℚ → ℚ} {shares : List (κ × ℚ)}
    (hround : ∀ x ∈ shares, round x.2 = x.2) :
    ∀ {per : List (κ × ℚ)}, ((per ++ shares).map Prod.fst).Nodup →
      shares.foldl (addShareBy round) per = per ++ shares := by
  have hnew : ∀ (share : κ × ℚ) (per : List (κ × ℚ)), round share.2 = share.2 →
      share.1 ∉ per.map Prod.fst → addShareBy round per share = per ++ [share] := by
    intro share per hshare
    induction per with
    | nil =>
      intro _
      rw [addShareBy, zero_add, hshare]
      rfl
    | cons x per ih =>
      intro hnot
      rw [List.map_cons, List.mem_cons, not_or] at hnot
      rw [addShareBy, if_neg fun heq => hnot.1 heq.symm, ih hnot.2]
      rfl
  induction shares with
  | nil => simp
  | cons share shares ih =>
    intro per hkeys
    have hnot : share.1 ∉ per.map Prod.fst := by
      rw [List.map_append, List.map_cons] at hkeys
      exact fun hmem => List.disjoint_of_nodup_append hkeys hmem List.mem_cons_self
    rw [List.foldl_cons, hnew share per (hround share List.mem_cons_self) hnot,
      ih (fun x hx => hround x (List.mem_cons_of_mem _ hx)) (by simpa using hkeys),
      List.append_assoc]
    rfl

/-- A group of one is not rounded, where none of its shares is. -/
theorem ofBy_singleton {round : ℚ → ℚ} {own : α → Option ℚ} {shares : α → List (κ × ℚ)} {p : α}
    (hown : ∀ v, own p = some v → round v = v) (hround : ∀ x ∈ shares p, round x.2 = x.2)
    (hkeys : ((shares p).map Prod.fst).Nodup) : ofBy round own shares [p] = of own shares [p] := by
  have hlist : ∀ r : ℚ → ℚ, (∀ x ∈ shares p, r x.2 = x.2) →
      (shares p).foldl (addShareBy r) [] = shares p := by
    intro r hr
    exact (foldl_addShareBy_of_nodup hr (by simpa using hkeys)).trans (List.nil_append _)
  unfold of ofBy
  rw [List.foldl_cons, List.foldl_cons, List.foldl_nil, List.foldl_nil]
  cases hv : own p with
  | none => rfl
  | some v =>
    unfold addBy
    dsimp only
    rw [zero_add, hown v hv, id, hlist round hround, hlist id fun _ _ => rfl]

/-! ### The order of the resources -/

omit [DecidableEq κ] in
/-- The order in which the resources are visited does not matter. -/
theorem pct_eq (s : BusiestShare κ) (h h' : HashOrder (κ × ℚ)) : s.pct h = s.pct h' := by
  have hmax : ∀ (x y : ℚ) (b : ℚ), max (max b x) y = max (max b y) x := by
    intro x y b
    exact max_right_comm b x y
  have horder : ∀ i : HashOrder (κ × ℚ),
      ((i.order s.perResource).map Prod.snd).foldl max s.unattributed =
        (s.perResource.map Prod.snd).foldl max s.unattributed := by
    intro i
    exact ((i.perm _).map Prod.snd).foldl_eq' (fun x _ y _ b => hmax x y b) _
  rw [pct, pct, horder h, horder h']

/-! ### The group against its members -/

/-- A load of `v` is accounted for: without a breakdown, or on one resource. -/
def Holds (s : BusiestShare κ) (v : ℚ) : Prop :=
  v ≤ s.unattributed ∨ ∃ x ∈ s.perResource, v ≤ x.2

theorem exists_mem_addShare (per : List (κ × ℚ)) (share : κ × ℚ)
    (hper : ∀ x ∈ per, 0 ≤ x.2) : ∃ x ∈ addShare per share, share.2 ≤ x.2 := by
  induction per with
  | nil => exact ⟨_, List.mem_singleton_self _, by simp⟩
  | cons x per ih =>
    have hx : 0 ≤ x.2 := hper x List.mem_cons_self
    rw [addShare_cons]
    by_cases heq : x.1 = share.1
    · rw [if_pos heq]
      exact ⟨_, List.mem_cons_self, le_add_of_nonneg_left hx⟩
    · rw [if_neg heq]
      obtain ⟨y, hy, hle⟩ := ih fun y hy => hper y (List.mem_cons_of_mem _ hy)
      exact ⟨y, List.mem_cons_of_mem _ hy, hle⟩

/-- Adding a share lowers no resource. -/
theorem exists_mem_addShare_of_mem {per : List (κ × ℚ)} {share : κ × ℚ} (hshare : 0 ≤ share.2)
    {x : κ × ℚ} (hx : x ∈ per) : ∃ y ∈ addShare per share, x.2 ≤ y.2 := by
  induction per with
  | nil => cases hx
  | cons z per ih =>
    rw [addShare_cons]
    by_cases heq : z.1 = share.1
    · rw [if_pos heq]
      rcases List.mem_cons.mp hx with rfl | hx
      · exact ⟨_, List.mem_cons_self, le_add_of_nonneg_right hshare⟩
      · exact ⟨x, List.mem_cons_of_mem _ hx, le_refl _⟩
    · rw [if_neg heq]
      rcases List.mem_cons.mp hx with rfl | hx
      · exact ⟨_, List.mem_cons_self, le_refl _⟩
      · obtain ⟨y, hy, hle⟩ := ih hx
        exact ⟨y, List.mem_cons_of_mem _ hy, hle⟩

theorem addShare_nonneg {per : List (κ × ℚ)} {share : κ × ℚ} (hshare : 0 ≤ share.2)
    (hper : ∀ x ∈ per, 0 ≤ x.2) : ∀ x ∈ addShare per share, 0 ≤ x.2 := by
  induction per with
  | nil =>
    intro x hx
    rw [List.mem_singleton.mp hx]
    simpa using hshare
  | cons z per ih =>
    have hz : 0 ≤ z.2 := hper z List.mem_cons_self
    have hrest : ∀ x ∈ per, 0 ≤ x.2 := fun x hx => hper x (List.mem_cons_of_mem _ hx)
    intro x hx
    rw [addShare_cons] at hx
    split at hx
    · rcases List.mem_cons.mp hx with rfl | hx
      · exact add_nonneg hz hshare
      · exact hrest x hx
    · rcases List.mem_cons.mp hx with rfl | hx
      · exact hz
      · exact ih hrest x hx

/-- A process's loads as the sampler reports them: nothing negative, and its own load, when there
is a breakdown, is the share of its busiest resource. -/
structure Reported (own : Option ℚ) (shares : List (κ × ℚ)) : Prop where
  own_nonneg : ∀ v, own = some v → 0 ≤ v
  share_nonneg : ∀ x ∈ shares, 0 ≤ x.2
  busiest : ∀ v, own = some v → shares ≠ [] → ∃ x ∈ shares, x.2 = v

/-- What a group has accumulated: nothing negative. -/
structure Nonneg (s : BusiestShare κ) : Prop where
  unattributed : 0 ≤ s.unattributed
  share : ∀ x ∈ s.perResource, 0 ≤ x.2

/-- Adding shares keeps every load accounted for and accounts for each of them. -/
theorem foldl_addShare {shares : List (κ × ℚ)} (hshares : ∀ x ∈ shares, 0 ≤ x.2) :
    ∀ {per : List (κ × ℚ)}, (∀ x ∈ per, 0 ≤ x.2) →
      (∀ x ∈ shares.foldl addShare per, 0 ≤ x.2) ∧
      (∀ x ∈ per, ∃ y ∈ shares.foldl addShare per, x.2 ≤ y.2) ∧
      ∀ x ∈ shares, ∃ y ∈ shares.foldl addShare per, x.2 ≤ y.2 := by
  induction shares with
  | nil =>
    intro per hper
    exact ⟨hper, fun x hx => ⟨x, hx, le_refl _⟩, by simp⟩
  | cons share shares ih =>
    intro per hper
    have hshare : 0 ≤ share.2 := hshares share List.mem_cons_self
    obtain ⟨hnonneg, hkeep, hadd⟩ := ih (fun x hx => hshares x (List.mem_cons_of_mem _ hx))
      (addShare_nonneg hshare hper)
    refine ⟨hnonneg, fun x hx => ?_, fun x hx => ?_⟩
    · obtain ⟨y, hy, hxy⟩ := exists_mem_addShare_of_mem hshare hx
      obtain ⟨z, hz, hyz⟩ := hkeep y hy
      exact ⟨z, hz, hxy.trans hyz⟩
    · rcases List.mem_cons.mp hx with rfl | hx
      · obtain ⟨y, hy, hxy⟩ := exists_mem_addShare per x hper
        obtain ⟨z, hz, hyz⟩ := hkeep y hy
        exact ⟨z, hz, hxy.trans hyz⟩
      · exact hadd x hx

/-- Adding a member keeps every load accounted for and accounts for the member's own. -/
theorem Nonneg.add {s : BusiestShare κ} (hs : s.Nonneg) {own : Option ℚ} {shares : List (κ × ℚ)}
    (h : Reported own shares) :
    (s.add own shares).Nonneg ∧ (∀ v, s.Holds v → (s.add own shares).Holds v) ∧
      ∀ v, own = some v → (s.add own shares).Holds v ∧ (s.add own shares).known = true := by
  cases own with
  | none =>
    refine ⟨hs, fun v hv => hv, ?_⟩
    intro v hv
    cases hv
  | some own =>
    have hown : 0 ≤ own := h.own_nonneg own rfl
    by_cases hempty : shares.length = 0
    · rw [add_some, if_pos hempty]
      refine ⟨⟨add_nonneg hs.unattributed hown, hs.share⟩, ?_, ?_⟩
      · rintro v (hv | hv)
        · exact Or.inl (hv.trans (le_add_of_nonneg_right hown))
        · exact Or.inr hv
      · rintro v hv
        obtain rfl := Option.some.inj hv
        exact ⟨Or.inl (le_add_of_nonneg_left hs.unattributed), rfl⟩
    · rw [add_some, if_neg hempty]
      obtain ⟨hnonneg, hkeep, hadd⟩ := foldl_addShare h.share_nonneg hs.share
      refine ⟨⟨hs.unattributed, hnonneg⟩, ?_, ?_⟩
      · rintro v (hv | ⟨x, hx, hv⟩)
        · exact Or.inl hv
        · obtain ⟨y, hy, hxy⟩ := hkeep x hx
          exact Or.inr ⟨y, hy, hv.trans hxy⟩
      · rintro v hv
        obtain rfl := Option.some.inj hv
        have hne : shares ≠ [] := fun heq => hempty (by rw [heq, List.length_nil])
        obtain ⟨x, hx, rfl⟩ := h.busiest _ rfl hne
        obtain ⟨y, hy, hxy⟩ := hadd x hx
        exact ⟨Or.inr ⟨y, hy, hxy⟩, rfl⟩

theorem known_add (s : BusiestShare κ) (own : Option ℚ) (shares : List (κ × ℚ)) :
    (s.add own shares).known = (s.known || own.isSome) := by
  cases own with
  | none => simp
  | some own =>
    rw [add_some]
    split <;> simp

theorem known_foldl_add (own : α → Option ℚ) (shares : α → List (κ × ℚ)) (members : List α) :
    ∀ s : BusiestShare κ, (members.foldl (fun s p => s.add (own p) (shares p)) s).known =
      (s.known || members.any fun p => (own p).isSome) := by
  induction members with
  | nil => simp
  | cons p members ih =>
    intro s
    rw [List.foldl_cons, ih, known_add, List.any_cons, Bool.or_assoc]

theorem known_of (own : α → Option ℚ) (shares : α → List (κ × ℚ)) (members : List α) :
    (of own shares members).known = members.any fun p => (own p).isSome := by
  rw [of_eq_foldl, known_foldl_add]
  rfl

theorem holds_foldl_add {own : α → Option ℚ} {shares : α → List (κ × ℚ)} {members : List α}
    (h : ∀ p ∈ members, Reported (own p) (shares p)) :
    ∀ {s : BusiestShare κ}, s.Nonneg →
      (∀ v, s.Holds v → (members.foldl (fun s p => s.add (own p) (shares p)) s).Holds v) ∧
      ∀ p ∈ members, ∀ v, own p = some v →
        (members.foldl (fun s p => s.add (own p) (shares p)) s).Holds v := by
  induction members with
  | nil =>
    intro s hs
    exact ⟨fun v hv => hv, by simp⟩
  | cons p members ih =>
    intro s hs
    obtain ⟨hnonneg, hkeep, hadd⟩ := hs.add (h p List.mem_cons_self)
    obtain ⟨ihkeep, ihadd⟩ := ih (fun q hq => h q (List.mem_cons_of_mem _ hq)) hnonneg
    refine ⟨fun v hv => ihkeep v (hkeep v hv), fun q hq v hv => ?_⟩
    rcases List.mem_cons.mp hq with rfl | hq
    · exact ihkeep v (hadd v hv).1
    · exact ihadd q hq v hv

theorem le_foldl_max {l : List ℚ} {a v : ℚ} (h : v ≤ a ∨ ∃ x ∈ l, v ≤ x) :
    v ≤ l.foldl max a := by
  induction l generalizing a with
  | nil => simpa using h
  | cons x l ih =>
    rw [List.foldl_cons]
    refine ih ?_
    rcases h with h | ⟨y, hy, h⟩
    · exact Or.inl (h.trans (le_max_left _ _))
    · rcases List.mem_cons.mp hy with rfl | hy
      · exact Or.inl (h.trans (le_max_right _ _))
      · exact Or.inr ⟨y, hy, h⟩

/-- **The load of a group is at least that of each of its members.** -/
theorem le_pct {own : α → Option ℚ} {shares : α → List (κ × ℚ)} {members : List α}
    (h : ∀ p ∈ members, Reported (own p) (shares p)) (iteration : HashOrder (κ × ℚ)) {p : α}
    (hp : p ∈ members) {v : ℚ} (hv : own p = some v) (hmax : v ≤ 100) :
    ∃ u, (of own shares members).pct iteration = some u ∧ v ≤ u := by
  have hknown : (of own shares members).known = true := by
    rw [known_of, List.any_eq_true]
    exact ⟨p, hp, by rw [hv, Option.isSome_some]⟩
  have hholds : (of own shares members).Holds v :=
    (holds_foldl_add h ⟨le_refl 0, by simp⟩).2 p hp v hv
  refine ⟨_, if_pos hknown, ?_⟩
  refine le_max_of_le_right (le_min hmax (le_foldl_max ?_))
  rcases hholds with hle | ⟨x, hx, hle⟩
  · exact Or.inl hle
  · exact Or.inr ⟨x.2, List.mem_map_of_mem (iteration.mem_order.mpr hx), hle⟩

/-! ### The group against the resources -/

/-- What a breakdown says about one resource. -/
def shareOf (shares : List (κ × ℚ)) (resource : κ) : ℚ :=
  ((shares.filter fun x => decide (x.1 = resource)).map Prod.snd).sum

@[simp]
theorem shareOf_nil (resource : κ) : shareOf ([] : List (κ × ℚ)) resource = 0 := rfl

theorem shareOf_cons (x : κ × ℚ) (shares : List (κ × ℚ)) (resource : κ) :
    shareOf (x :: shares) resource =
      (if x.1 = resource then x.2 else 0) + shareOf shares resource := by
  unfold shareOf
  by_cases h : x.1 = resource
  · simp [h]
  · simp [h]

theorem shareOf_append (shares shares' : List (κ × ℚ)) (resource : κ) :
    shareOf (shares ++ shares') resource = shareOf shares resource + shareOf shares' resource := by
  rw [shareOf, List.filter_append, List.map_append, List.sum_append, shareOf, shareOf]

theorem shareOf_nonneg {shares : List (κ × ℚ)} (h : ∀ x ∈ shares, 0 ≤ x.2) (resource : κ) :
    0 ≤ shareOf shares resource := by
  refine List.sum_nonneg fun v hv => ?_
  obtain ⟨x, hx, rfl⟩ := List.mem_map.mp hv
  exact h x (List.mem_filter.mp hx).1

theorem le_shareOf {shares : List (κ × ℚ)} (h : ∀ x ∈ shares, 0 ≤ x.2) {x : κ × ℚ}
    (hx : x ∈ shares) : x.2 ≤ shareOf shares x.1 := by
  refine List.single_le_sum ?_ _
    (List.mem_map_of_mem (List.mem_filter.mpr ⟨hx, decide_eq_true rfl⟩))
  intro v hv
  obtain ⟨y, hy, rfl⟩ := List.mem_map.mp hv
  exact h y (List.mem_filter.mp hy).1

theorem keys_addShare (per : List (κ × ℚ)) (share : κ × ℚ) :
    ((addShare per share).map Prod.fst) =
      if share.1 ∈ per.map Prod.fst then per.map Prod.fst else per.map Prod.fst ++ [share.1] := by
  induction per with
  | nil => simp
  | cons x per ih =>
    rw [addShare_cons]
    by_cases heq : x.1 = share.1
    · simp [heq]
    · rw [if_neg heq, List.map_cons, ih, List.map_cons]
      by_cases hmem : share.1 ∈ per.map Prod.fst
      · rw [if_pos hmem, if_pos (List.mem_cons_of_mem _ hmem)]
      · have hnot : share.1 ∉ x.1 :: per.map Prod.fst := by
          rw [List.mem_cons]
          rintro (h | h)
          · exact heq h.symm
          · exact hmem h
        rw [if_neg hmem, if_neg hnot, List.cons_append]

/-- Adding a share adds to its resource. -/
theorem shareOf_addShare (per : List (κ × ℚ)) (share : κ × ℚ) (resource : κ)
    (hnodup : (per.map Prod.fst).Nodup) :
    shareOf (addShare per share) resource =
      shareOf per resource + if share.1 = resource then share.2 else 0 := by
  induction per with
  | nil => simp [shareOf_cons]
  | cons x per ih =>
    rw [List.map_cons, List.nodup_cons] at hnodup
    rw [addShare_cons]
    by_cases heq : x.1 = share.1
    · rw [if_pos heq, shareOf_cons, shareOf_cons, heq]
      split <;> ring
    · rw [if_neg heq, shareOf_cons, shareOf_cons, ih hnodup.2, add_assoc]

/-- What a member says about one resource. -/
def memberShare (own : Option ℚ) (shares : List (κ × ℚ)) (resource : κ) : ℚ :=
  if own.isSome then shareOf shares resource else 0

/-- What a member without a breakdown adds. -/
def memberPlain (own : Option ℚ) (shares : List (κ × ℚ)) : ℚ :=
  if shares.length = 0 then own.getD 0 else 0

/-- Adding shares adds each of them to its resource, and every resource is listed once. -/
theorem foldl_addShare_spec (shares : List (κ × ℚ)) :
    ∀ {per : List (κ × ℚ)}, (per.map Prod.fst).Nodup →
      ((shares.foldl addShare per).map Prod.fst).Nodup ∧
        ∀ resource, shareOf (shares.foldl addShare per) resource =
          shareOf per resource + shareOf shares resource := by
  induction shares with
  | nil =>
    intro per hper
    exact ⟨hper, fun resource => (add_zero _).symm⟩
  | cons share shares ih =>
    intro per hper
    have hkeys : ((addShare per share).map Prod.fst).Nodup := by
      rw [keys_addShare]
      split
      · exact hper
      · rename_i hnot
        exact hper.append (List.nodup_singleton _) (List.disjoint_singleton.mpr hnot)
    obtain ⟨ihnodup, ihsum⟩ := ih hkeys
    refine ⟨ihnodup, fun resource => ?_⟩
    rw [List.foldl_cons, ihsum, shareOf_addShare _ _ _ hper, shareOf_cons, add_assoc]

/-- Where every resource is listed once, its entry is all it has. -/
theorem shareOf_of_mem {per : List (κ × ℚ)} (hkeys : (per.map Prod.fst).Nodup) {x : κ × ℚ}
    (hx : x ∈ per) : shareOf per x.1 = x.2 := by
  have hfilter : per.filter (fun y => decide (y.1 = x.1)) = [x] := by
    refine List.perm_singleton.mp ((List.perm_ext_iff_of_nodup
      ((List.Nodup.of_map _ hkeys).filter _) (List.nodup_singleton x)).mpr fun y => ?_)
    rw [List.mem_filter, decide_eq_true_iff, List.mem_singleton]
    constructor
    · rintro ⟨hy, heq⟩
      exact List.inj_on_of_nodup_map hkeys hy hx heq
    · rintro rfl
      exact ⟨hx, rfl⟩
  rw [shareOf, hfilter, List.map_singleton, List.sum_singleton]

theorem shareOf_eq_zero {shares : List (κ × ℚ)} {resource : κ}
    (h : resource ∉ shares.map Prod.fst) : shareOf shares resource = 0 := by
  have hfilter : shares.filter (fun x => decide (x.1 = resource)) = [] := by
    refine List.filter_eq_nil_iff.mpr fun x hx => ?_
    rw [decide_eq_true_iff]
    rintro rfl
    exact h (List.mem_map_of_mem hx)
  rw [shareOf, hfilter, List.map_nil, List.sum_nil]

omit [DecidableEq κ] in
theorem memberPlain_eq_zero {own : Option ℚ} {shares : List (κ × ℚ)}
    (h : shares = [] → own.getD 0 = 0) : memberPlain own shares = 0 := by
  unfold memberPlain
  split
  · rename_i hempty
    exact h (List.length_eq_zero_iff.mp hempty)
  · rfl

/-- What a group has accumulated: each resource once. -/
theorem add_spec (s : BusiestShare κ) (own : Option ℚ) (shares : List (κ × ℚ))
    (hnodup : (s.perResource.map Prod.fst).Nodup) :
    ((s.add own shares).perResource.map Prod.fst).Nodup ∧
      (∀ resource, shareOf (s.add own shares).perResource resource =
        shareOf s.perResource resource + memberShare own shares resource) ∧
      (s.add own shares).unattributed = s.unattributed + memberPlain own shares := by
  cases own with
  | none =>
    refine ⟨hnodup, fun resource => (add_zero _).symm, ?_⟩
    simp [memberPlain]
  | some own =>
    by_cases hempty : shares.length = 0
    · obtain rfl := List.length_eq_zero_iff.mp hempty
      refine ⟨hnodup, fun resource => (add_zero _).symm, ?_⟩
      simp [add_some, memberPlain]
    · obtain ⟨hkeys, hsum⟩ := foldl_addShare_spec shares hnodup
      simp only [add_some, if_neg hempty, memberShare, memberPlain, Option.isSome_some, if_true,
        add_zero]
      exact ⟨hkeys, hsum, trivial⟩

/-- What a group has accumulated is the sum over its members. -/
theorem of_spec (own : α → Option ℚ) (shares : α → List (κ × ℚ)) (members : List α) :
    ((of own shares members).perResource.map Prod.fst).Nodup ∧
      (∀ resource, shareOf (of own shares members).perResource resource =
        (members.map fun p => memberShare (own p) (shares p) resource).sum) ∧
      (of own shares members).unattributed =
        (members.map fun p => memberPlain (own p) (shares p)).sum := by
  have hfold : ∀ s : BusiestShare κ, (s.perResource.map Prod.fst).Nodup →
      ((members.foldl (fun s p => s.add (own p) (shares p)) s).perResource.map Prod.fst).Nodup ∧
        (∀ resource, shareOf (members.foldl (fun s p => s.add (own p) (shares p)) s).perResource
            resource = shareOf s.perResource resource +
              (members.map fun p => memberShare (own p) (shares p) resource).sum) ∧
        (members.foldl (fun s p => s.add (own p) (shares p)) s).unattributed =
          s.unattributed + (members.map fun p => memberPlain (own p) (shares p)).sum := by
    induction members with
    | nil =>
      intro s hs
      exact ⟨hs, fun resource => (add_zero _).symm, (add_zero _).symm⟩
    | cons p members ih =>
      intro s hs
      obtain ⟨hkeys, hsum, hplain⟩ := s.add_spec (own p) (shares p) hs
      obtain ⟨ihkeys, ihsum, ihplain⟩ := ih _ hkeys
      refine ⟨ihkeys, fun resource => ?_, ?_⟩
      · rw [List.foldl_cons, ihsum, hsum, List.map_cons, List.sum_cons, add_assoc]
      · rw [List.foldl_cons, ihplain, hplain, List.map_cons, List.sum_cons, add_assoc]
  obtain ⟨hkeys, hsum, hplain⟩ := hfold {} List.nodup_nil
  exact ⟨hkeys, fun resource => (hsum resource).trans (zero_add _), hplain.trans (zero_add _)⟩

/-- **The load of a group is at most what bounds each resource and the plain sum.** -/
theorem pct_le {own : α → Option ℚ} {shares : α → List (κ × ℚ)} {members : List α} {bound : ℚ}
    (hbound : 0 ≤ bound)
    (hshare : ∀ resource,
      (members.map fun p => memberShare (own p) (shares p) resource).sum ≤ bound)
    (hplain : (members.map fun p => memberPlain (own p) (shares p)).sum ≤ bound)
    (iteration : HashOrder (κ × ℚ)) {v : ℚ}
    (hv : (of own shares members).pct iteration = some v) : v ≤ bound := by
  obtain ⟨hkeys, hsum, hunattributed⟩ := of_spec own shares members
  obtain ⟨-, hv⟩ := Option.ite_none_right_eq_some.mp hv
  obtain rfl := Option.some.inj hv
  refine max_le hbound ((min_le_right _ _).trans (Ranges.foldl_max_le_iff.mpr ⟨?_, ?_⟩))
  · rw [hunattributed]
    exact hplain
  · intro v hv
    obtain ⟨x, hx, rfl⟩ := List.mem_map.mp hv
    rw [← shareOf_of_mem hkeys (iteration.mem_order.mp hx), hsum]
    exact hshare x.1

/-- **A group never exceeds what bounds the sum over all rows**, resource by resource. -/
theorem pct_le_of_subperm {own : α → Option ℚ} {shares : α → List (κ × ℚ)} {rows members : List α}
    {bound : ℚ} (hmembers : members.Subperm rows)
    (hnonneg : ∀ p ∈ rows, ∀ x ∈ shares p, 0 ≤ x.2)
    (hplain : ∀ p ∈ rows, memberPlain (own p) (shares p) = 0) (hbound : 0 ≤ bound)
    (hsum : ∀ resource, (rows.map fun p => shareOf (shares p) resource).sum ≤ bound)
    (iteration : HashOrder (κ × ℚ)) {v : ℚ}
    (hv : (of own shares members).pct iteration = some v) : v ≤ bound := by
  have hmem : ∀ p ∈ members, p ∈ rows := fun p hp => hmembers.subset hp
  refine pct_le hbound (fun resource => ?_) ?_ iteration hv
  · have hmember : ∀ p ∈ members,
        memberShare (own p) (shares p) resource ≤ shareOf (shares p) resource := by
      intro p hp
      unfold memberShare
      split
      · exact le_refl _
      · exact shareOf_nonneg (hnonneg p (hmem p hp)) resource
    refine (List.sum_le_sum hmember).trans ?_
    obtain ⟨members', hperm, hsub⟩ := hmembers
    rw [← (hperm.map _).sum_eq]
    refine (List.Sublist.sum_le_sum (hsub.map _) fun y hy => ?_).trans (hsum resource)
    obtain ⟨p, hp, rfl⟩ := List.mem_map.mp hy
    exact shareOf_nonneg (hnonneg p hp) resource
  · rw [List.sum_eq_zero]
    · exact hbound
    · intro x hx
      obtain ⟨p, hp, rfl⟩ := List.mem_map.mp hx
      exact hplain p (hmem p hp)

end BusiestShare

/-! ### Disks and GPU engines -/

/-- Disk active time of a group of processes. -/
def DiskGroupLoad (members : List ProcessEntry) : BusiestShare ℕ :=
  BusiestShare.of ProcessEntry.diskActivePct
    (fun p => p.diskActiveByDisk.map fun share => (share.disk, share.activePct)) members

/-- GPU utilization of a group of processes, where `round` is what is left of a sum. -/
def GpuGroupLoadBy (round : ℚ → ℚ) (members : List ProcessEntry) : BusiestShare (ℕ × ℕ) :=
  BusiestShare.ofBy round ProcessEntry.gpuUtilPct
    (fun p => p.gpuEngines.map fun share => ((share.adapter, share.engine), share.utilPct)) members

/-- GPU utilization of a group of processes, added exactly. -/
def GpuGroupLoad (members : List ProcessEntry) : BusiestShare (ℕ × ℕ) :=
  BusiestShare.of ProcessEntry.gpuUtilPct
    (fun p => p.gpuEngines.map fun share => ((share.adapter, share.engine), share.utilPct)) members

/-- Exact sums are those that nothing rounds. -/
theorem gpuGroupLoadBy_id : GpuGroupLoadBy id = GpuGroupLoad := rfl

end Taskman
