import Taskman.App.Details.Tree

/-!
# What a search keeps

A search of the hierarchical order keeps the matches and everything recorded above them, whatever
its age.  The way up from a match stops at a process that was met before, so a cycle of recorded
parents is kept as a whole.

* `Details.mem_ancestors_iff` : **the way up leads to what is recorded above a process**;
* `Details.mem_members_iff` : **what the tree shows is recorded above a match**;
* `Details.onCycle_attached_iff` : **a cycle is shown where it is recorded above a match**.
-/

namespace Taskman

namespace Details

open Search

/-- `a` is recorded as the parent of `b`, and both are running. -/
def RecordedParent (snap : Snapshot) (a b : ProcessEntry) : Prop :=
  a ∈ realProcesses snap ∧ b ∈ realProcesses snap ∧ b.ppid = some a.pid

theorem ParentOf.recorded {snap : Snapshot} {a b : ProcessEntry} (h : ParentOf snap a b) :
    RecordedParent snap a b :=
  ⟨h.1, h.2.1, h.2.2.1⟩

/-- A process is recorded above a match, or is one. -/
def Kept (host : PageHost) (snap : Snapshot) (q : Query) (p : ProcessEntry) : Prop :=
  ∃ m ∈ realProcesses snap, q.matchesProcess host m = true ∧
    Relation.ReflTransGen (RecordedParent snap) p m

variable {host : PageHost} {snap : Snapshot} {q : Query}

/-! ### The way up -/

/-- How far the way up from a process has come. -/
structure Ascended (snap : Snapshot) (p : ProcessEntry) (s : Ascent) : Prop where
  /-- The pids met, the last one included, are the first one and those added. -/
  met : ∀ k, k ∈ s.seen ∨ k = s.cursor ↔ k = p.pid ∨ k ∈ s.visible
  sound : ∀ k, k ∈ s.seen ∨ k = s.cursor →
    ∃ a ∈ realProcesses snap, a.pid = k ∧ Relation.ReflTransGen (RecordedParent snap) a p
  /-- The parent of a pid that was left was met. -/
  left : ∀ a b, RecordedParent snap a b → b.pid ∈ s.seen → a.pid ∈ s.seen ∨ a.pid = s.cursor

variable (h : Processes.Distinct snap.processes)

include h

/-- The running process recorded as the parent of the one under the cursor. -/
theorem parent_eq_some_iff {b a : ProcessEntry} (hb : b ∈ realProcesses snap) :
    ((Processes.byPid (realProcesses snap) b.pid).bind ProcessEntry.ppid).bind
        (Processes.byPid (realProcesses snap)) = some a ↔ RecordedParent snap a b := by
  rw [byPid_realProcesses h hb, Option.bind_some]
  constructor
  · intro hparent
    obtain ⟨k, hk, hbyPid⟩ := Option.bind_eq_some_iff.mp hparent
    obtain ⟨ha, rfl⟩ := Processes.mem_of_byPid hbyPid
    exact ⟨ha, hb, hk⟩
  · rintro ⟨ha, -, hk⟩
    rw [hk, Option.bind_some, byPid_realProcesses h ha]

/-- One step of the way up. -/
theorem Ascended.step {p : ProcessEntry} {s s' : Ascent} (hs : Ascended snap p s)
    (hstep : ascend (realProcesses snap) s = some s') : Ascended snap p s' := by
  unfold ascend at hstep
  split at hstep
  · cases hstep
  · split at hstep
    · cases hstep
    · rename_i parent hparent
      obtain rfl := Option.some.inj hstep
      obtain ⟨b, hb, hpid, hbelow⟩ := hs.sound s.cursor (Or.inr rfl)
      rw [← hpid] at hparent
      have hlink : RecordedParent snap parent b := (parent_eq_some_iff h hb).mp hparent
      refine
        { met := fun k => ?_
          sound := fun k hk => ?_
          left := fun a c hac hc => ?_ }
      · have hmet := hs.met k
        simp only [Finset.mem_insert, List.mem_append, List.mem_singleton]
        tauto
      · simp only [Finset.mem_insert] at hk
        rcases hk with (rfl | hk) | rfl
        · exact hs.sound _ (Or.inr rfl)
        · exact hs.sound k (Or.inl hk)
        · exact ⟨parent, hlink.1, rfl, hbelow.head hlink⟩
      · simp only [Finset.mem_insert] at hc ⊢
        rcases hc with hc | hc
        · -- the process that is left now: its parent is the next one
          obtain rfl : c = b :=
            Multimap.eq_of_key (distinct_realProcesses h) hac.2.1 hb (hc.trans hpid.symm)
          exact Or.inr (Option.some.inj (hac.2.2.symm.trans hlink.2.2))
        · have hmet := hs.left a c hac hc
          tauto

/-- **The way up from a process leads to what is recorded above it.** -/
theorem mem_ancestors_iff {p : ProcessEntry} (hp : p ∈ realProcesses snap) {k : ℕ} :
    k = p.pid ∨ k ∈ ancestors (realProcesses snap) p.pid ↔
      ∃ a ∈ realProcesses snap, a.pid = k ∧
        Relation.ReflTransGen (RecordedParent snap) a p := by
  have hstart : Ascended snap p { cursor := p.pid } := by
    refine
      { met := fun k => by simp
        sound := fun k hk => ?_
        left := fun a b _ hb => absurd hb (Finset.notMem_empty _) }
    obtain rfl := hk.resolve_left (Finset.notMem_empty k)
    exact ⟨p, hp, rfl, Relation.ReflTransGen.refl⟩
  have hend := While.run_induct (Ascended snap p) (fun s s' hs hstep => hs.step h hstep)
    (realProcesses snap).length hstart
  have hstop := ascend_ends (realProcesses snap) p.pid
  rw [ancestors]
  generalize While.run _ _ _ = s at hend hstop ⊢
  rw [← hend.met k]
  refine ⟨hend.sound k, ?_⟩
  rintro ⟨a, ha, rfl, hbelow⟩
  -- at the end nothing is left to go to, so what was met is closed under parents
  have hclosed : ∀ b c, RecordedParent snap b c → c.pid ∈ s.seen ∨ c.pid = s.cursor →
      b.pid ∈ s.seen ∨ b.pid = s.cursor := by
    intro b c hbc hc
    rcases hc with hc | hc
    · exact hend.left b c hbc hc
    · unfold ascend at hstop
      split at hstop
      · rename_i hseen
        exact hend.left b c hbc (hc ▸ hseen)
      · split at hstop
        · rename_i hnone
          rw [← hc, (parent_eq_some_iff h hbc.2.1).mpr hbc] at hnone
          cases hnone
        · cases hstop
  induction hbelow using Relation.ReflTransGen.head_induction_on with
  | refl => exact (hend.met p.pid).mpr (Or.inl rfl)
  | head hbc _ ih => exact hclosed _ _ hbc (ih hbc.2.1)

/-! ### The processes shown -/

theorem mem_visiblePids_iff {p : ProcessEntry} (hp : p ∈ realProcesses snap) :
    p.pid ∈ visiblePids host (realProcesses snap) q ↔ Kept host snap q p := by
  have hself : ∀ {a : ProcessEntry}, a ∈ realProcesses snap → a.pid = p.pid → a = p :=
    fun ha => Multimap.eq_of_key (distinct_realProcesses h) ha hp
  unfold visiblePids
  by_cases hq : q.isEmpty = true
  · have hmatch : q.matchesProcess host p = true := matchesProcess_of_isEmpty hq p
    simp only [hq, if_true, List.mem_toFinset, List.mem_map, List.mem_filter]
    exact ⟨fun _ => ⟨p, hp, hmatch, Relation.ReflTransGen.refl⟩, fun _ => ⟨p, ⟨hp, hmatch⟩, rfl⟩⟩
  · simp only [hq, if_false, List.mem_toFinset, List.mem_append, List.mem_map, List.mem_filter,
      List.mem_flatMap, Bool.false_eq_true]
    constructor
    · rintro (⟨m, ⟨hm, hmatch⟩, hpid⟩ | ⟨_, ⟨m, ⟨hm, hmatch⟩, rfl⟩, hmem⟩)
      · exact ⟨m, hm, hmatch, hself hm hpid ▸ Relation.ReflTransGen.refl⟩
      · obtain ⟨a, ha, hpid, hbelow⟩ := (mem_ancestors_iff h hm).mp (Or.inr hmem)
        exact ⟨m, hm, hmatch, hself ha hpid ▸ hbelow⟩
    · rintro ⟨m, hm, hmatch, hbelow⟩
      rcases (mem_ancestors_iff h hm).mpr ⟨p, hp, rfl, hbelow⟩ with hpid | hmem
      · exact Or.inl ⟨m, ⟨hm, hmatch⟩, hpid.symm⟩
      · exact Or.inr ⟨m.pid, ⟨m, ⟨hm, hmatch⟩, rfl⟩, hmem⟩

/-- **The tree shows the matches and what is recorded above them.** -/
theorem mem_members_iff {p : ProcessEntry} :
    p ∈ members host snap q ↔ p ∈ realProcesses snap ∧ Kept host snap q p := by
  rw [members, List.mem_filter]
  refine and_congr_right fun hp => ?_
  rw [decide_eq_true_iff, mem_visiblePids_iff h hp]

theorem parent_mem_members {a b : ProcessEntry} (hab : RecordedParent snap a b)
    (hb : b ∈ members host snap q) : a ∈ members host snap q := by
  obtain ⟨m, hm, hmatch, hbelow⟩ := ((mem_members_iff h).mp hb).2
  exact (mem_members_iff h).mpr ⟨hab.1, m, hm, hmatch, hbelow.head hab⟩

theorem attached_iff {a b : ProcessEntry} :
    Attached host snap q a b ↔ ParentOf snap a b ∧ b ∈ members host snap q := by
  rw [linked_iff h]
  exact ⟨fun hab => ⟨hab.1, hab.2.2⟩,
    fun hab => ⟨hab.1, parent_mem_members h hab.1.recorded hab.2, hab.2⟩⟩

/-- **A cycle is shown where it is recorded above a match.** -/
theorem onCycle_attached_iff {c : ProcessEntry} :
    Forest.OnCycle (Attached host snap q) c ↔
      Forest.OnCycle (ParentOf snap) c ∧ Kept host snap q c := by
  constructor
  · intro hc
    obtain ⟨y, hy⟩ := hc.parent
    exact ⟨Relation.TransGen.mono (fun a b hab => ((attached_iff h).mp hab).1) c c hc,
      ((mem_members_iff h).mp hy.2.1).2⟩
  · rintro ⟨hc, hkept⟩
    have hup : ∀ {a b}, Relation.TransGen (ParentOf snap) a b → b ∈ members host snap q →
        Relation.TransGen (Attached host snap q) a b := by
      intro a b hab
      induction hab with
      | single hstep => exact fun hb => Relation.TransGen.single ((attached_iff h).mpr ⟨hstep, hb⟩)
      | tail _ hstep ih =>
        intro hb
        exact (ih (parent_mem_members h hstep.recorded hb)).tail ((attached_iff h).mpr ⟨hstep, hb⟩)
    obtain ⟨y, hy⟩ := hc.parent
    exact hup hc ((mem_members_iff h).mpr ⟨hy.2.1, hkept⟩)

end Details

end Taskman
