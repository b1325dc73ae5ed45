import Taskman.Collections.Forest
import Taskman.LTS.While
import Mathlib.Data.Finset.Basic
import Mathlib.Dynamics.PeriodicPts.Lemmas

/-!
# Climbing to a root and owning downwards

Every element has at most one element above it.  A climb goes up until it would meet an element a
second time; where it ends is the top of where it began.  From the tops of some elements ownership
spreads back down, but some elements own nothing.

* `Ascent.Above` : what a climb can come to;
* `Ascent.OnCycle.eq_of_up` : the elements of a cycle that have one element above are one;
* `Ascent.TopOf` : where a climb ends, characterised;
* `Ascent.topOf_run` : **the loop that climbs ends at the top**;
* `Ascent.owned_iff` : **all elements that climb are owned exactly when every barren element on
  their way up climbs itself, and comes back to the element below it.**
-/

namespace Taskman

namespace Ascent

open Forest (Below OnCycle)

variable {α : Type*} {up : α → Option α}

/-- `y` is directly above `x`. -/
def Rises (up : α → Option α) (y x : α) : Prop := up x = some y

/-- A climb from `x` can come to `y`. -/
abbrev Above (up : α → Option α) (y x : α) : Prop := Below (Rises up) y x

theorem leftUnique_rises : Relator.LeftUnique (Rises up) := fun _ _ _ h h' =>
  Option.some.inj (h.symm.trans h')

theorem Above.of_up {x y : α} (h : up x = some y) : Above up y x :=
  Relation.ReflTransGen.single (show Rises up y x from h)

/-! ### Cycles -/

/-- The steps of a climb are those of a function. -/
theorem exists_iterate_of_above {y x : α} (h : Above up y x) :
    ∃ n, (fun z => (up z).getD z)^[n] x = y := by
  induction h using Relation.ReflTransGen.head_induction_on with
  | refl => exact ⟨0, rfl⟩
  | @head y z hyz _ ih =>
    obtain ⟨n, hn⟩ := ih
    refine ⟨n + 1, ?_⟩
    rw [Function.iterate_succ_apply', hn]
    show (up z).getD z = y
    rw [show up z = some y from hyz, Option.getD_some]

theorem mem_periodicPts {x : α} (h : OnCycle (Rises up) x) :
    x ∈ Function.periodicPts fun z => (up z).getD z := by
  obtain ⟨y, hyx⟩ := h.parent
  have hxy : Above up x y := h.below leftUnique_rises (Above.of_up hyx)
  obtain ⟨n, hn⟩ := exists_iterate_of_above hxy
  refine Function.mk_mem_periodicPts n.succ_pos ?_
  show (fun z => (up z).getD z)^[n + 1] x = x
  rw [Function.iterate_succ_apply, show up x = some y from hyx, Option.getD_some, hn]

theorem eq_of_onCycle {x w y : α} (hx : OnCycle (Rises up) x) (hw : OnCycle (Rises up) w)
    (hxy : up x = some y) (hwy : up w = some y) : x = w := by
  refine (Function.bijOn_periodicPts _).injOn (mem_periodicPts hx) (mem_periodicPts hw) ?_
  show (up x).getD x = (up w).getD w
  rw [hxy, hwy, Option.getD_some, Option.getD_some]

/-! ### The top -/

/-- Where a climb from `q` ends: there is nothing above, or the climb has been there, at its
beginning or coming from another element. -/
structure TopOf (up : α → Option α) (q y : α) : Prop where
  reached : Above up y q
  all : ∀ x, Above up x q → Above up y x
  stops : ∀ z, up y = some z → z = q ∨ ∃ w, w ≠ y ∧ Above up w q ∧ up w = some z

theorem TopOf.onCycle {q y z : α} (h : TopOf up q y) (hz : up y = some z) :
    OnCycle (Rises up) y := by
  have hzq : Above up z q := (Above.of_up hz).trans h.reached
  exact Relation.TransGen.tail' (h.all z hzq) hz

/-- If a climb from `s` can come to an element directly below `s`, it ends there. -/
theorem TopOf.eq_of_closes {s x y : α} (h : TopOf up s y) (hx : up x = some s)
    (hxs : Above up x s) : y = x := by
  have hcycle : OnCycle (Rises up) x := Relation.TransGen.tail' hxs hx
  have hall : ∀ w, Above up w s → OnCycle (Rises up) w := fun w hw =>
    hcycle.of_below leftUnique_rises (hw.trans (Above.of_up hx))
  have hy := hall y h.reached
  obtain ⟨z, hz⟩ := hy.parent
  rcases h.stops z hz with rfl | ⟨w, hne, hw, hwz⟩
  · exact eq_of_onCycle hy hcycle hz hx
  · exact absurd (eq_of_onCycle (hall w hw) hy hwz hz) hne

/-! ### The loop -/

variable {κ : Type*} [DecidableEq κ]

/-- One turn of a climb: up, unless the element above has been met. -/
def turn (up : α → Option α) (key : α → κ) (c : α × Finset κ) : Option (α × Finset κ) :=
  match up c.1 with
  | none => none
  | some y => if key y ∈ c.2 then none else some (y, insert (key y) c.2)

theorem turn_eq_some_iff {key : α → κ} {c c' : α × Finset κ} :
    turn up key c = some c' ↔
      ∃ y, up c.1 = some y ∧ key y ∉ c.2 ∧ c' = (y, insert (key y) c.2) := by
  unfold turn
  cases hup : up c.1 with
  | none => simp
  | some y =>
    by_cases hy : key y ∈ c.2
    · simp [hy]
    · simp [hy, eq_comm]

theorem turn_eq_none_iff {key : α → κ} {c : α × Finset κ} :
    turn up key c = none ↔ ∀ y, up c.1 = some y → key y ∈ c.2 := by
  unfold turn
  cases hup : up c.1 with
  | none => simp
  | some y => by_cases hy : key y ∈ c.2 <;> simp [hy]

/-- What holds on the way up from `q`, where a key tells the elements of `U` apart. -/
structure Climbing (up : α → Option α) (key : α → κ) (U : α → Prop) (q : α) (c : α × Finset κ) :
    Prop where
  inside : U c.1
  reached : Above up c.1 q
  here : key c.1 ∈ c.2
  begun : key q ∈ c.2
  /-- What was met lies above the beginning and below the climb. -/
  met : ∀ x, U x → key x ∈ c.2 → Above up x q ∧ Above up c.1 x
  /-- What was met and left was left for the element above. -/
  left : ∀ x, U x → key x ∈ c.2 → x ≠ c.1 → ∃ y, up x = some y ∧ key y ∈ c.2
  /-- What was met was the beginning, or was entered from an element that was left. -/
  entered : ∀ y, U y → key y ∈ c.2 →
    y = q ∨ ∃ w, U w ∧ key w ∈ c.2 ∧ w ≠ c.1 ∧ up w = some y

variable {key : α → κ} {U : α → Prop}

omit [DecidableEq κ] in
theorem Climbing.start {q : α} (hq : U q) (hinj : ∀ a b, U a → U b → key a = key b → a = b) :
    Climbing up key U q (q, {key q}) := by
  have honly : ∀ x, U x → key x ∈ ({key q} : Finset κ) → x = q := fun x hx hkey =>
    hinj x q hx hq (Finset.mem_singleton.mp hkey)
  refine ⟨hq, Relation.ReflTransGen.refl, Finset.mem_singleton_self _,
    Finset.mem_singleton_self _, fun x hx hkey => ?_, fun x hx hkey hne => ?_, fun y hy hkey => ?_⟩
  · rw [honly x hx hkey]
    exact ⟨Relation.ReflTransGen.refl, Relation.ReflTransGen.refl⟩
  · exact absurd (honly x hx hkey) hne
  · exact .inl (honly y hy hkey)

/-- A turn of the climb. -/
theorem Climbing.turn (hinj : ∀ a b, U a → U b → key a = key b → a = b)
    (hup : ∀ x y, up x = some y → U y) {q : α} {c c' : α × Finset κ}
    (h : Climbing up key U q c) (hturn : Ascent.turn up key c = some c') :
    Climbing up key U q c' := by
  obtain ⟨y, hy, hnew, rfl⟩ := turn_eq_some_iff.mp hturn
  have hyU := hup c.1 y hy
  have hcy : c.1 ≠ y := fun heq => hnew (heq ▸ h.here)
  -- an element met now is the new one or was met before
  have hcases : ∀ x, U x → key x ∈ insert (key y) c.2 → x = y ∨ key x ∈ c.2 := by
    intro x hx hkey
    rcases Finset.mem_insert.mp hkey with heq | hold
    · exact .inl (hinj x y hx hyU heq)
    · exact .inr hold
  refine ⟨hyU, (Above.of_up hy).trans h.reached, Finset.mem_insert_self _ _,
    Finset.mem_insert_of_mem h.begun, fun x hx hkey => ?_, fun x hx hkey hne => ?_,
    fun x hx hkey => ?_⟩
  · rcases hcases x hx hkey with rfl | hold
    · exact ⟨(Above.of_up hy).trans h.reached, Relation.ReflTransGen.refl⟩
    · obtain ⟨hxq, hcx⟩ := h.met x hx hold
      exact ⟨hxq, (Above.of_up hy).trans hcx⟩
  · have hold := (hcases x hx hkey).resolve_left hne
    by_cases hxc : x = c.1
    · exact ⟨y, hxc ▸ hy, Finset.mem_insert_self _ _⟩
    · obtain ⟨z, hz, hzold⟩ := h.left x hx hold hxc
      exact ⟨z, hz, Finset.mem_insert_of_mem hzold⟩
  · rcases hcases x hx hkey with rfl | hold
    · exact .inr ⟨c.1, h.inside, Finset.mem_insert_of_mem h.here, hcy, hy⟩
    · rcases h.entered x hx hold with rfl | ⟨w, hw, hwold, -, hwx⟩
      · exact .inl rfl
      · refine .inr ⟨w, hw, Finset.mem_insert_of_mem hwold, ?_, hwx⟩
        rintro rfl
        exact hnew hwold

/-- A climb that cannot go on has come to the top. -/
theorem Climbing.topOf (hup : ∀ x y, up x = some y → U y) {q : α} (hq : U q) {c : α × Finset κ}
    (h : Climbing up key U q c) (hstop : Ascent.turn up key c = none) : TopOf up q c.1 := by
  have hstop := turn_eq_none_iff.mp hstop
  -- what lies above the beginning has been met
  have hmet : ∀ x, Above up x q → U x ∧ key x ∈ c.2 := by
    intro x hx
    induction hx using Relation.ReflTransGen.head_induction_on with
    | refl => exact ⟨hq, h.begun⟩
    | @head y x hyx _ ih =>
      refine ⟨hup x y hyx, ?_⟩
      by_cases hxc : x = c.1
      · exact hstop y (hxc ▸ hyx)
      · obtain ⟨z, hz, hzmet⟩ := h.left x ih.1 ih.2 hxc
        obtain rfl : y = z := leftUnique_rises hyx hz
        exact hzmet
  refine ⟨h.reached, fun x hx => (h.met x (hmet x hx).1 (hmet x hx).2).2, fun z hz => ?_⟩
  rcases h.entered z (hup c.1 z hz) (hstop z hz) with rfl | ⟨w, hw, hwmet, hne, hwz⟩
  · exact .inl rfl
  · exact .inr ⟨w, hne, (h.met w hw hwmet).1, hwz⟩

/-- **The loop that climbs ends at the top.** -/
theorem topOf_run (hinj : ∀ a b, U a → U b → key a = key b → a = b)
    (hup : ∀ x y, up x = some y → U y) {q : α} (hq : U q) {n : ℕ}
    (hstop : turn up key (While.run (turn up key) n (q, {key q})) = none) :
    TopOf up q (While.run (turn up key) n (q, {key q})).1 := by
  refine Climbing.topOf hup hq ?_ hstop
  exact While.run_induct _ (fun _ _ h hturn => h.turn hinj hup hturn) n
    (Climbing.start hq hinj)

/-! ### Owning -/

/-- `a` owns `b` directly: `b` hangs off `a`, `a` is not barren, and `b` is not a top itself. -/
def Owns (link : α → Option α) (ok barren top : α → Prop) (a b : α) : Prop :=
  link b = some a ∧ ok a ∧ ok b ∧ ¬barren a ∧ ¬top b

/-- What the tops own. -/
def Owned (link : α → Option α) (ok barren top : α → Prop) (x : α) : Prop :=
  ∃ r, top r ∧ Relation.ReflTransGen (Owns link ok barren top) r x

/-- The tops of the elements that climb. -/
def IsTop (climbs : α → Prop) (topOf : α → α) (x : α) : Prop := ∃ q, climbs q ∧ topOf q = x

section

variable {link : α → Option α} {ok barren climbs : α → Prop} {topOf : α → α}

theorem Owned.of_top {x : α} (h : IsTop climbs topOf x) :
    Owned link ok barren (IsTop climbs topOf) x := ⟨x, h, Relation.ReflTransGen.refl⟩

theorem Owned.parent {x : α} (h : Owned link ok barren (IsTop climbs topOf) x)
    (hx : ¬IsTop climbs topOf x) :
    ∃ y, link x = some y ∧ ¬barren y ∧ Owned link ok barren (IsTop climbs topOf) y := by
  obtain ⟨r, hr, hrx⟩ := h
  rcases Relation.ReflTransGen.cases_tail hrx with rfl | ⟨y, hry, hyx⟩
  · exact absurd hr hx
  · exact ⟨y, hyx.1, hyx.2.2.2.1, r, hr, hry⟩

variable (hup : ∀ x y, up x = some y → link x = some y ∧ ok y)

include hup

theorem Owned.directly_above {x y : α} (h : Owned link ok barren (IsTop climbs topOf) x)
    (hx : ¬IsTop climbs topOf x) (hxy : up x = some y) :
    Owned link ok barren (IsTop climbs topOf) y := by
  obtain ⟨z, hz, -, howned⟩ := h.parent hx
  obtain rfl := Option.some.inj ((hup x y hxy).1.symm.trans hz)
  exact howned

variable (htop : ∀ q, climbs q → TopOf up q (topOf q))

include htop

/-- On the way up from an owned element, what is on no cycle is owned and not a top. -/
theorem Owned.off_cycle {q w v : α} (h : Owned link ok barren (IsTop climbs topOf) q)
    (hwq : Above up w q) (hw : ¬OnCycle (Rises up) w) (hwv : up w = some v) :
    Owned link ok barren (IsTop climbs topOf) w ∧ ¬IsTop climbs topOf w := by
  have hnot : ∀ d e, ¬OnCycle (Rises up) d → up d = some e → ¬IsTop climbs topOf d := by
    rintro d e hd hde ⟨q', hq', rfl⟩
    exact hd ((htop q' hq').onCycle hde)
  refine ⟨?_, hnot w v hw hwv⟩
  clear hwv
  induction hwq using Relation.ReflTransGen.head_induction_on with
  | refl => exact h
  | @head y x hyx hxq ih =>
    have hx : ¬OnCycle (Rises up) x := fun hcycle =>
      hw (hcycle.of_below leftUnique_rises (Above.of_up hyx))
    exact (ih hx).directly_above hup (hnot x y hx hyx) hyx

/-- Where all elements that climb are owned, so is all that is above an owned element. -/
theorem Owned.above (hall : ∀ q, climbs q → Owned link ok barren (IsTop climbs topOf) q)
    {x y : α} (h : Owned link ok barren (IsTop climbs topOf) x) (hyx : Above up y x) :
    Owned link ok barren (IsTop climbs topOf) y := by
  induction hyx using Relation.ReflTransGen.head_induction_on with
  | refl => exact h
  | @head z y hzy _ ih =>
    by_cases hytop : IsTop climbs topOf y
    · obtain ⟨q, hq, rfl⟩ := hytop
      rcases (htop q hq).stops z hzy with rfl | ⟨w, hne, hwq, hwz⟩
      · exact hall z hq
      · -- the climb entered the cycle of the top from outside
        have hw : ¬OnCycle (Rises up) w := fun hcycle =>
          hne (eq_of_onCycle hcycle ((htop q hq).onCycle hzy) hwz hzy)
        obtain ⟨howned, hwtop⟩ := (hall q hq).off_cycle hup htop hwq hw hwz
        exact howned.directly_above hup hwtop hwz
    · exact ih.directly_above hup hytop hzy

variable (hok : ∀ q, climbs q → ok q)

include hok

/-- Where every barren element on the way up climbs back, all elements that climb are owned. -/
theorem owned_of_returns
    (h : ∀ p x s, climbs p → Above up x p → up x = some s → barren s → climbs s ∧ Above up x s)
    {p : α} (hp : climbs p) : Owned link ok barren (IsTop climbs topOf) p := by
  have hdown : ∀ x, Above up (topOf p) x → Above up x p →
      Owned link ok barren (IsTop climbs topOf) x := by
    intro x hx
    induction hx with
    | refl => exact fun _ => Owned.of_top ⟨p, hp, rfl⟩
    | @tail y x _ hyx ih =>
      intro hxp
      have hyx : up x = some y := hyx
      obtain ⟨hlink, hy⟩ := hup x y hyx
      by_cases hxtop : IsTop climbs topOf x
      · exact Owned.of_top hxtop
      by_cases hbarren : barren y
      · -- the barren element climbs and ends right below itself
        obtain ⟨hclimbs, hxy⟩ := h p x y hp hxp hyx hbarren
        exact absurd ⟨y, hclimbs, (htop y hclimbs).eq_of_closes hyx hxy⟩ hxtop
      · have hxok : ok x := by
          rcases Relation.ReflTransGen.cases_head hxp with rfl | ⟨z, hxz, -⟩
          · exact hok x hp
          · exact (hup z x hxz).2
        obtain ⟨r, hr, hry⟩ := ih ((Above.of_up hyx).trans hxp)
        exact ⟨r, hr, hry.tail ⟨hlink, hy, hxok, hbarren, hxtop⟩⟩
  exact hdown p (htop p hp).reached Relation.ReflTransGen.refl

/-- **All elements that climb are owned exactly when every barren element on their way up climbs
itself, and comes back to the element below it.** -/
theorem owned_iff :
    (∀ p, climbs p → Owned link ok barren (IsTop climbs topOf) p) ↔
      ∀ p x s, climbs p → Above up x p → up x = some s → barren s →
        climbs s ∧ Above up x s := by
  refine ⟨fun hall p x s hp hxp hxs hs => ?_, fun h p hp => owned_of_returns hup htop hok h hp⟩
  -- an owned element below a barren one is a top
  have hbelow : ∀ w, up w = some s → Owned link ok barren (IsTop climbs topOf) w →
      IsTop climbs topOf w := by
    intro w hws howned
    by_contra hw
    obtain ⟨y, hy, hbarren, -⟩ := howned.parent hw
    obtain rfl := Option.some.inj ((hup w s hws).1.symm.trans hy)
    exact hbarren hs
  have hxowned := (hall p hp).above hup htop hall hxp
  obtain ⟨q, hq, rfl⟩ := hbelow x hxs hxowned
  have hcycle := (htop q hq).onCycle hxs
  rcases (htop q hq).stops s hxs with rfl | ⟨w, hne, hwq, hws⟩
  · exact ⟨hq, (htop s hq).reached⟩
  · -- another element below the barren one would be a top, too, on the same cycle
    obtain ⟨q', hq', rfl⟩ := hbelow w hws ((hall q hq).above hup htop hall hwq)
    exact absurd (eq_of_onCycle ((htop q' hq').onCycle hws) hcycle hws hxs) hne

end

end Ascent

end Taskman
