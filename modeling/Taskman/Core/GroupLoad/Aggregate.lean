import Taskman.Core.GroupLoad

/-!
# The busiest-resource aggregate

A group's load is read off two kinds of sums over its members, one for each resource and one of the
loads without a breakdown, so a bound on these sums is a bound on the load and conversely.

* `BusiestShare.pct_mono` : where no sum shrinks, the load does not;
* `Sampled` : a measurement as the samplers report it, within 0..100 and the largest of its shares;
* `GroupLaws` : the laws of the aggregate, one field each;
* `group_loads_lawful` : **`DiskGroupLoad` and `GpuGroupLoad` obey them**;
* `overfull_group_load` : a member measured above 100, or with two shares of one resource, is not
  reproduced by a group of its own.
-/

namespace Taskman

namespace BusiestShare

variable {κ α : Type*} [DecidableEq κ] {own : α → Option ℚ} {shares : α → List (κ × ℚ)}
  {members members' : List α} {iteration : HashOrder (κ × ℚ)} {v : ℚ}

/-! ### The load and the sums -/

/-- What the members put on one resource. -/
def total (own : α → Option ℚ) (shares : α → List (κ × ℚ)) (members : List α) (resource : κ) : ℚ :=
  (members.map fun p => memberShare (own p) (shares p) resource).sum

/-- What the members without a breakdown put on the group. -/
def plain (own : α → Option ℚ) (shares : α → List (κ × ℚ)) (members : List α) : ℚ :=
  (members.map fun p => memberPlain (own p) (shares p)).sum

theorem pct_range (hv : (of own shares members).pct iteration = some v) : 0 ≤ v ∧ v ≤ 100 := by
  obtain ⟨-, hv⟩ := Option.ite_none_right_eq_some.mp hv
  obtain rfl := Option.some.inj hv
  exact ⟨le_max_left _ _, max_le (by norm_num) (min_le_left _ _)⟩

theorem pct_eq_none_iff :
    (of own shares members).pct iteration = none ↔ ∀ p ∈ members, own p = none := by
  rw [pct, known_of]
  simp

theorem exists_pct {p : α} (hp : p ∈ members) {u : ℚ} (hu : own p = some u) :
    ∃ v, (of own shares members).pct iteration = some v := by
  refine Option.ne_none_iff_exists'.mp fun hnone => ?_
  rw [pct_eq_none_iff.mp hnone p hp] at hu
  cases hu

theorem plain_le_pct (hv : (of own shares members).pct iteration = some v) {u : ℚ} (hu : u ≤ 100)
    (hle : u ≤ plain own shares members) : u ≤ v := by
  obtain ⟨-, hv⟩ := Option.ite_none_right_eq_some.mp hv
  obtain rfl := Option.some.inj hv
  refine le_max_of_le_right (le_min hu (BusiestShare.le_foldl_max (Or.inl ?_)))
  rw [(of_spec own shares members).2.2]
  exact hle

/-- The load is at least the sum of each resource. -/
theorem total_le_pct (hv : (of own shares members).pct iteration = some v) {u : ℚ} (hu : u ≤ 100)
    {resource : κ} (hle : u ≤ total own shares members resource) : u ≤ v := by
  obtain ⟨hkeys, hsum, -⟩ := of_spec own shares members
  have hnonneg : 0 ≤ v := (pct_range hv).1
  obtain ⟨-, hv⟩ := Option.ite_none_right_eq_some.mp hv
  have hle : u ≤ shareOf (of own shares members).perResource resource := by
    rw [hsum]
    exact hle
  by_cases hmem : resource ∈ (of own shares members).perResource.map Prod.fst
  · obtain ⟨x, hx, rfl⟩ := List.mem_map.mp hmem
    rw [shareOf_of_mem hkeys hx] at hle
    obtain rfl := Option.some.inj hv
    refine le_max_of_le_right (le_min hu (BusiestShare.le_foldl_max (Or.inr ⟨x.2, ?_, hle⟩)))
    exact List.mem_map_of_mem (iteration.mem_order.mpr hx)
  · -- a resource nobody used carries nothing, and a load is not negative
    rw [shareOf_eq_zero hmem] at hle
    exact hle.trans hnonneg

/-- **Where no sum shrinks, the load does not.** -/
theorem pct_mono {iteration' : HashOrder (κ × ℚ)}
    (hshare : ∀ resource, total own shares members resource ≤ total own shares members' resource)
    (hplain : plain own shares members ≤ plain own shares members') {v' : ℚ}
    (hv : (of own shares members).pct iteration = some v)
    (hv' : (of own shares members').pct iteration' = some v') : v ≤ v' := by
  rcases lt_or_ge v' 100 with hlt | hge
  · have hbelow : ∀ u : ℚ, v' < u → v' < min u 100 := fun u hu => lt_min hu hlt
    refine pct_le (pct_range hv').1 (fun resource => ?_) ?_ iteration hv
    · by_contra hgt
      have hgt : v' < total own shares members' resource :=
        (not_le.mp hgt).trans_le (hshare resource)
      exact absurd (total_le_pct hv' (min_le_right _ _) (min_le_left _ _))
        (not_le.mpr (hbelow _ hgt))
    · by_contra hgt
      have hgt : v' < plain own shares members' := (not_le.mp hgt).trans_le hplain
      exact absurd (plain_le_pct hv' (min_le_right _ _) (min_le_left _ _))
        (not_le.mpr (hbelow _ hgt))
  · exact (pct_range hv).2.trans hge

/-- The members may be added in any order. -/
theorem pct_perm {iteration' : HashOrder (κ × ℚ)} (hperm : members.Perm members') :
    (of own shares members).pct iteration = (of own shares members').pct iteration' := by
  have hshare : total own shares members = total own shares members' :=
    funext fun resource => (hperm.map _).sum_eq
  have hplain : plain own shares members = plain own shares members' := (hperm.map _).sum_eq
  cases hv : (of own shares members).pct iteration with
  | none =>
    refine (pct_eq_none_iff.mpr fun p hp => ?_).symm
    exact pct_eq_none_iff.mp hv p (hperm.mem_iff.mpr hp)
  | some v =>
    cases hv' : (of own shares members').pct iteration' with
    | none =>
      have hnone : (of own shares members).pct iteration = none :=
        pct_eq_none_iff.mpr fun p hp => pct_eq_none_iff.mp hv' p (hperm.mem_iff.mp hp)
      rw [hv] at hnone
      cases hnone
    | some v' =>
      refine congrArg some (le_antisymm ?_ ?_)
      · exact pct_mono (fun resource => (congrFun hshare resource).le) hplain.le hv hv'
      · exact pct_mono (fun resource => (congrFun hshare resource).ge) hplain.ge hv' hv

end BusiestShare

/-! ### What the samplers report -/

/-- A measured process: its own load is within 0..100 and the largest of its shares, which are of
distinct resources; without shares it is the plain load. -/
structure Sampled {κ : Type*} (own : Option ℚ) (shares : List (κ × ℚ)) : Prop where
  range : ∀ v, own = some v → 0 ≤ v ∧ v ≤ 100
  nonneg : ∀ v, own = some v → ∀ x ∈ shares, 0 ≤ x.2
  distinct : ∀ v, own = some v → (shares.map Prod.fst).Nodup
  largest : ∀ v, own = some v → shares ≠ [] → v ∈ shares.map Prod.snd ∧ ∀ x ∈ shares, x.2 ≤ v

namespace Sampled

variable {κ : Type*} [DecidableEq κ] {own : Option ℚ} {shares : List (κ × ℚ)}

theorem memberShare_nonneg (h : Sampled own shares) (resource : κ) :
    0 ≤ BusiestShare.memberShare own shares resource := by
  cases own with
  | none => exact le_refl 0
  | some v => exact BusiestShare.shareOf_nonneg (h.nonneg v rfl) resource

omit [DecidableEq κ] in
theorem memberPlain_nonneg (h : Sampled own shares) : 0 ≤ BusiestShare.memberPlain own shares := by
  unfold BusiestShare.memberPlain
  split
  · cases own with
    | none => exact le_refl 0
    | some v => exact (h.range v rfl).1
  · exact le_refl 0

omit [DecidableEq κ] in
theorem getD_nonneg (h : Sampled own shares) : 0 ≤ own.getD 0 := by
  cases own with
  | none => exact le_refl 0
  | some v => exact (h.range v rfl).1

/-- No resource carries more of a process than its own load. -/
theorem memberShare_le (h : Sampled own shares) (resource : κ) :
    BusiestShare.memberShare own shares resource ≤ own.getD 0 := by
  cases own with
  | none => exact le_refl 0
  | some v =>
    change BusiestShare.shareOf shares resource ≤ v
    by_cases hmem : resource ∈ shares.map Prod.fst
    · obtain ⟨x, hx, rfl⟩ := List.mem_map.mp hmem
      rw [BusiestShare.shareOf_of_mem (h.distinct v rfl) hx]
      exact (h.largest v rfl (List.ne_nil_of_mem hx)).2 x hx
    · rw [BusiestShare.shareOf_eq_zero hmem]
      exact (h.range v rfl).1

omit [DecidableEq κ] in
theorem memberPlain_le (h : Sampled own shares) :
    BusiestShare.memberPlain own shares ≤ own.getD 0 := by
  unfold BusiestShare.memberPlain
  split
  · exact le_refl _
  · exact h.getD_nonneg

/-- A measured process puts its own load on a resource, or on the plain sum. -/
theorem own_le (h : Sampled own shares) {v : ℚ} (hv : own = some v) :
    v ≤ BusiestShare.memberPlain own shares ∨
      ∃ resource, v ≤ BusiestShare.memberShare own shares resource := by
  subst hv
  cases shares with
  | nil => exact Or.inl (le_refl v)
  | cons x rest =>
    obtain ⟨hmem, -⟩ := h.largest v rfl (List.cons_ne_nil _ _)
    obtain ⟨y, hy, rfl⟩ := List.mem_map.mp hmem
    exact Or.inr ⟨y.1, BusiestShare.le_shareOf (h.nonneg _ rfl) hy⟩

end Sampled

/-! ### The laws -/

/-- The laws of a group load `load`, for processes whose loads are `own` and `shares`; `load` may
depend on the order in which a hash table iterates. -/
structure GroupLaws {κ α : Type*} (own : α → Option ℚ) (shares : α → List (κ × ℚ))
    (load : HashOrder (κ × ℚ) → List α → Option ℚ) : Prop where
  /-- The order in which members are added does not matter, nor that of the iteration. -/
  perm : ∀ h h' {members members'}, members.Perm members' → load h members = load h' members'
  /-- Nothing is known exactly when no member was measured. -/
  none_iff : ∀ h members, load h members = none ↔ ∀ p ∈ members, own p = none
  range : ∀ h members v, load h members = some v → 0 ≤ v ∧ v ≤ 100
  /-- One more member never lowers the load. -/
  grows : ∀ h members p v, Sampled (own p) (shares p) → load h members = some v →
    ∃ v', load h (members ++ [p]) = some v' ∧ v ≤ v'
  /-- A member alone is reproduced. -/
  single : ∀ h p, Sampled (own p) (shares p) → load h [p] = own p
  /-- The group is at least each member. -/
  lower : ∀ h members, (∀ p ∈ members, Sampled (own p) (shares p)) →
    ∀ p ∈ members, ∀ u, own p = some u → ∃ v, load h members = some v ∧ u ≤ v
  /-- The group is at most the sum of its members. -/
  upper : ∀ h members v, (∀ p ∈ members, Sampled (own p) (shares p)) →
    load h members = some v → v ≤ (members.filterMap own).sum

namespace BusiestShare

variable {κ α : Type*} [DecidableEq κ] {own : α → Option ℚ} {shares : α → List (κ × ℚ)}
  {members : List α}

theorem total_append (members members' : List α) (resource : κ) :
    total own shares (members ++ members') resource =
      total own shares members resource + total own shares members' resource := by
  rw [total, List.map_append, List.sum_append, total, total]

omit [DecidableEq κ] in
theorem plain_append (members members' : List α) :
    plain own shares (members ++ members') =
      plain own shares members + plain own shares members' := by
  rw [plain, List.map_append, List.sum_append, plain, plain]

theorem memberShare_le_total (h : ∀ p ∈ members, Sampled (own p) (shares p)) {p : α}
    (hp : p ∈ members) (resource : κ) :
    memberShare (own p) (shares p) resource ≤ total own shares members resource := by
  refine List.single_le_sum (fun u hu => ?_) _ (List.mem_map_of_mem hp)
  obtain ⟨q, hq, rfl⟩ := List.mem_map.mp hu
  exact (h q hq).memberShare_nonneg resource

omit [DecidableEq κ] in
theorem memberPlain_le_plain (h : ∀ p ∈ members, Sampled (own p) (shares p)) {p : α}
    (hp : p ∈ members) : memberPlain (own p) (shares p) ≤ plain own shares members := by
  refine List.single_le_sum (fun u hu => ?_) _ (List.mem_map_of_mem hp)
  obtain ⟨q, hq, rfl⟩ := List.mem_map.mp hu
  exact (h q hq).memberPlain_nonneg

/-- The sum of the loads that were measured. -/
theorem sum_filterMap_eq (own : α → Option ℚ) (members : List α) :
    (members.filterMap own).sum = (members.map fun p => (own p).getD 0).sum := by
  induction members with
  | nil => rfl
  | cons p members ih =>
    rw [List.map_cons, List.sum_cons, ← ih]
    cases hown : own p with
    | none => simp [List.filterMap_cons_none hown]
    | some v => simp [List.filterMap_cons_some hown]

/-- **The busiest-resource aggregate obeys the laws.** -/
theorem groupLaws (own : α → Option ℚ) (shares : α → List (κ × ℚ)) :
    GroupLaws own shares fun h members => (of own shares members).pct h := by
  -- a member counts whole in the sum of the plain loads, or on its busiest resource
  have hlower : ∀ h members, (∀ p ∈ members, Sampled (own p) (shares p)) → ∀ p ∈ members,
      ∀ u, own p = some u → ∃ v, (of own shares members).pct h = some v ∧ u ≤ v := by
    intro h members hall p hp u hu
    obtain ⟨v, hv⟩ : ∃ v, (of own shares members).pct h = some v := exists_pct hp hu
    have hmax : u ≤ 100 := ((hall p hp).range u hu).2
    refine ⟨v, hv, ?_⟩
    rcases (hall p hp).own_le hu with hle | ⟨resource, hle⟩
    · exact plain_le_pct hv hmax (hle.trans (memberPlain_le_plain hall hp))
    · exact total_le_pct hv hmax (hle.trans (memberShare_le_total hall hp resource))
  -- neither sum takes more of a member than its own load
  have hupper : ∀ h members v, (∀ p ∈ members, Sampled (own p) (shares p)) →
      (of own shares members).pct h = some v → v ≤ (members.filterMap own).sum := by
    intro h members v hall hv
    rw [sum_filterMap_eq]
    refine pct_le (List.sum_nonneg fun u hu => ?_) (fun resource => ?_) ?_ h hv
    · obtain ⟨p, hp, rfl⟩ := List.mem_map.mp hu
      exact (hall p hp).getD_nonneg
    · exact List.sum_le_sum fun p hp => (hall p hp).memberShare_le resource
    · exact List.sum_le_sum fun p hp => (hall p hp).memberPlain_le
  refine ⟨fun h h' _ _ hperm => pct_perm hperm, fun h members => pct_eq_none_iff,
    fun h members v hv => pct_range hv, ?_, ?_, hlower, hupper⟩
  · intro h members p v hp hv
    have hsome : ∃ v', (of own shares (members ++ [p])).pct h = some v' := by
      refine Option.ne_none_iff_exists'.mp fun hnone => ?_
      have hmembers : ∀ q ∈ members, own q = none := fun q hq =>
        pct_eq_none_iff.mp hnone q (List.mem_append_left _ hq)
      rw [pct_eq_none_iff.mpr hmembers] at hv
      cases hv
    obtain ⟨v', hv'⟩ := hsome
    refine ⟨v', hv', pct_mono (fun resource => ?_) ?_ hv hv'⟩
    · rw [total_append]
      refine le_add_of_nonneg_right ?_
      simpa [total] using hp.memberShare_nonneg resource
    · rw [plain_append]
      refine le_add_of_nonneg_right ?_
      simpa [plain] using hp.memberPlain_nonneg
  · intro h p hp
    have hall : ∀ q ∈ [p], Sampled (own q) (shares q) := by
      intro q hq
      rw [List.mem_singleton.mp hq]
      exact hp
    cases hown : own p with
    | none =>
      refine pct_eq_none_iff.mpr fun q hq => ?_
      rw [List.mem_singleton.mp hq, hown]
    | some u =>
      obtain ⟨v, hv, huv⟩ := hlower h [p] hall p (List.mem_singleton_self p) u hown
      have hvu : v ≤ ([p].filterMap own).sum := hupper h [p] v hall hv
      rw [List.filterMap_cons_some hown, List.filterMap_nil, List.sum_singleton] at hvu
      exact hv.trans (congrArg some (le_antisymm hvu huv))

end BusiestShare

/-- **Disk and GPU loads of a group obey the laws of the busiest resource.** -/
theorem group_loads_lawful :
    GroupLaws ProcessEntry.diskActivePct
        (fun p => p.diskActiveByDisk.map fun share => (share.disk, share.activePct))
        (fun h members => (DiskGroupLoad members).pct h) ∧
      GroupLaws ProcessEntry.gpuUtilPct
        (fun p => p.gpuEngines.map fun share => ((share.adapter, share.engine), share.utilPct))
        (fun h members => (GpuGroupLoad members).pct h) :=
  ⟨BusiestShare.groupLaws _ _, BusiestShare.groupLaws _ _⟩

/-- A process measured above 100 is cut off in a group of its own, and two shares of one resource
add up to more than the process's own load. -/
theorem overfull_group_load :
    let busy : ProcessEntry :=
      { pid := 1, name := [], diskActivePct := some 150,
        diskActiveByDisk := [⟨0, 150⟩] }
    let twice : ProcessEntry :=
      { pid := 2, name := [], diskActivePct := some 40,
        diskActiveByDisk := [⟨0, 40⟩, ⟨0, 40⟩] }
    (DiskGroupLoad [busy]).pct .inserted = some 100 ∧ busy.diskActivePct ≠ some 100 ∧
      (DiskGroupLoad [twice]).pct .inserted = some 80 ∧ twice.diskActivePct ≠ some 80 := by
  decide +kernel

/-- Two disks are not added up, two shares of one disk are. -/
example :
    (DiskGroupLoad [{ pid := 1, name := [], diskActivePct := some 60,
                      diskActiveByDisk := [⟨0, 60⟩] },
                    { pid := 2, name := [], diskActivePct := some 60,
                      diskActiveByDisk := [⟨1, 60⟩] },
                    { pid := 3, name := [], diskActivePct := some 15,
                      diskActiveByDisk := [⟨0, 15⟩, ⟨1, 5⟩] }]).pct .inserted = some 75 := by
  decide +kernel

end Taskman
