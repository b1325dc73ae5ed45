import Taskman.App.Rules.Apply

/-!
# Saved rules are applied once

A job that is under way is remembered, until a snapshot misses its process: the page then forgets
it, and hands over a second one when the process comes back.

* `ProcessRules.Calm` : no snapshot brings back a process whose forgotten job is still under way;
* `ProcessRules.Tidy` : what then holds between any two steps (`ProcessRules.Tidy.step`);
* `ProcessRules.Over` : what keeps a process from getting another job;
* `ProcessRules.applied_once` : **in a run of calm snapshots every rule is applied once**.
-/

namespace Taskman

namespace ProcessRules

open Processes (ProcessIdentity)

/-! ### What is read with a snapshot -/

section Read

variable {s : RuleState} {snapshot : Snapshot} {x : ProcessIdentity}

theorem foldl_record {P : RuleState → Prop} {results : List RuleResult} (h : P s)
    (hstep : ∀ s, P s → ∀ r ∈ results, P (s.record r)) : P (results.foldl RuleState.record s) :=
  List.foldlRecOn results RuleState.record h hstep

@[simp]
theorem jobs_record (s : RuleState) (r : RuleResult) : (s.record r).jobs = s.jobs := by
  unfold RuleState.record
  split <;> rfl

@[simp]
theorem results_record (s : RuleState) (r : RuleResult) : (s.record r).results = s.results := by
  unfold RuleState.record
  split <;> rfl

theorem mem_inflight_record {r : RuleResult} :
    x ∈ (s.record r).inflight ↔ x ∈ s.inflight ∧ x ≠ r.identity := by
  unfold RuleState.record
  split <;> simp [and_comm]

theorem mem_applied_record {r : RuleResult} :
    x ∈ (s.record r).applied ↔ x ∈ s.applied ∨ r.error = none ∧ x = r.identity := by
  unfold RuleState.record
  split
  · rename_i h
    simp [h]
  · rename_i h
    simp [h, or_comm]

theorem jobs_read : (s.read snapshot).jobs = s.jobs :=
  foldl_record (P := fun t => t.jobs = s.jobs) rfl fun _ h _ _ => (jobs_record _ _).trans h

theorem results_read : (s.read snapshot).results = [] :=
  foldl_record (P := fun t => t.results = []) rfl fun _ h _ _ => (results_record _ _).trans h

theorem mem_inflight_read (hx : x ∈ s.inflight) (hlive : x ∈ live snapshot)
    (hunread : ∀ r ∈ s.results, r.identity ≠ x) : x ∈ (s.read snapshot).inflight := by
  refine foldl_record (P := fun t => x ∈ t.inflight) ?_ fun t ht r hr => ?_
  · exact Finset.mem_filter.mpr ⟨hx, hlive⟩
  · exact mem_inflight_record.mpr ⟨ht, (hunread r hr).symm⟩

/-- A process needs no further job: its rule was applied, or failed three times. -/
def RuleState.Finished (s : RuleState) (x : ProcessIdentity) : Prop :=
  x ∈ s.applied ∨ 3 ≤ (s.failures x).getD 0

theorem RuleState.Finished.settled (h : s.Finished x) : s.Settled x :=
  h.imp_right Or.inr

/-- No report takes that back. -/
theorem RuleState.Finished.record (h : s.Finished x) (r : RuleResult) :
    (s.record r).Finished x := by
  by_cases hx : x ∈ (s.record r).applied
  · exact Or.inl hx
  rw [mem_applied_record, not_or] at hx
  have hfailures : 3 ≤ (s.failures x).getD 0 := h.resolve_left hx.1
  refine Or.inr ?_
  unfold RuleState.record
  by_cases hr : x = r.identity
  · subst hr
    cases herror : r.error with
    | none => exact absurd ⟨herror, rfl⟩ hx.2
    | some error =>
      simp only [Function.update_self, Option.getD_some]
      omega
  · split <;> simpa only [Function.update_of_ne hr] using hfailures

/-- What was finished stays so while the process is listed. -/
theorem finished_read (h : s.Finished x) (hlive : x ∈ live snapshot) :
    (s.read snapshot).Finished x := by
  refine foldl_record (P := fun t => t.Finished x) ?_ fun t ht r _ => ht.record r
  refine h.imp (fun happlied => Finset.mem_filter.mpr ⟨happlied, hlive⟩) fun hfailures => ?_
  simpa [RuleState.prune, hlive] using hfailures

theorem applied_read {r : RuleResult} (hr : r ∈ s.results) (hok : r.error = none) :
    r.identity ∈ (s.read snapshot).applied := by
  obtain ⟨before, after, hsplit⟩ := List.append_of_mem hr
  rw [RuleState.read, hsplit, List.foldl_append, List.foldl_cons]
  refine foldl_record (P := fun t => r.identity ∈ t.applied) ?_ fun t ht q _ => ?_
  · exact mem_applied_record.mpr (Or.inr ⟨hok, rfl⟩)
  · exact mem_applied_record.mpr (Or.inl ht)

/-- The page remembers something of a process. -/
def RuleState.Entry (s : RuleState) (x : ProcessIdentity) : Prop :=
  x ∈ s.applied ∨ x ∈ s.inflight ∨ (s.failures x).isSome

/-- A report makes an entry for its own process only. -/
theorem entry_record {r : RuleResult} (h : (s.record r).Entry x) : s.Entry x ∨ r.identity = x := by
  by_cases hr : r.identity = x
  · exact Or.inr hr
  refine Or.inl ?_
  rcases h with h | h | h
  · exact Or.inl ((mem_applied_record.mp h).resolve_right fun h => hr h.2.symm)
  · exact Or.inr (Or.inl (mem_inflight_record.mp h).1)
  · refine Or.inr (Or.inr ?_)
    unfold RuleState.record at h
    split at h <;> simpa only [Function.update_of_ne (Ne.symm hr)] using h

/-- What the page remembers after a snapshot is in it, or was reported on with it. -/
theorem entry_read (h : (s.read snapshot).Entry x) :
    x ∈ live snapshot ∨ ∃ r ∈ s.results, r.identity = x := by
  revert h
  refine foldl_record
    (P := fun t => t.Entry x → x ∈ live snapshot ∨ ∃ r ∈ s.results, r.identity = x) ?_ ?_
  · rintro (h | h | h)
    · exact Or.inl (Finset.mem_filter.mp h).2
    · exact Or.inl (Finset.mem_filter.mp h).2
    · refine Or.inl ?_
      by_contra hlive
      simp [RuleState.prune, hlive] at h
  · intro t ht r hr hentry
    rcases entry_record hentry with h | h
    · exact ht h
    · exact Or.inr ⟨r, hr, h⟩

theorem RuleState.remembered (s : RuleState) (r : RuleResult) :
    r.identity ∈ (s.record r).applied ∨ ((s.record r).failures r.identity).isSome := by
  unfold RuleState.record
  cases r.error with
  | none => exact Or.inl (Finset.mem_insert_self _ _)
  | some error => exact Or.inr (by simp)

/-- A memory of an outcome stays while reports are read. -/
theorem remembered_record (r : RuleResult) (h : x ∈ s.applied ∨ (s.failures x).isSome) :
    x ∈ (s.record r).applied ∨ ((s.record r).failures x).isSome := by
  by_cases hr : x = r.identity
  · subst hr
    exact s.remembered r
  · refine h.imp (fun h => mem_applied_record.mpr (Or.inl h)) fun h => ?_
    unfold RuleState.record
    split <;> simpa only [Function.update_of_ne hr] using h

theorem entry_of_result {r : RuleResult} (hr : r ∈ s.results) :
    (s.read snapshot).Entry r.identity := by
  obtain ⟨before, after, hsplit⟩ := List.append_of_mem hr
  have hkept : r.identity ∈ (s.read snapshot).applied ∨
      ((s.read snapshot).failures r.identity).isSome := by
    rw [RuleState.read, hsplit, List.foldl_append, List.foldl_cons]
    exact foldl_record
      (P := fun t => r.identity ∈ t.applied ∨ (t.failures r.identity).isSome)
      (RuleState.remembered _ r) fun t ht q _ => remembered_record q ht
  exact hkept.imp_right Or.inr

end Read

/-! ### The jobs of a snapshot -/

section Due

variable {cfg : RuleConfig} {rules : OrdMap Text ProcessRule} {snapshot : Snapshot}
  {s : RuleState} {job : RuleJob}

/-- A saved rule is about a listed process, which is not the program itself. -/
def Ruled (cfg : RuleConfig) (rules : OrdMap Text ProcessRule) (snapshot : Snapshot)
    (job : RuleJob) : Prop :=
  ∃ p ∈ snapshot.processes, p.pid ≠ cfg.ownPid ∧ startedIdentity p = some job.identity ∧
    ∃ path, p.exePath = some path ∧ rules[processRuleKey cfg.keyHost path]? = some job.rule ∧
      job.rule.isEmpty = false

/-- What a rule makes of a process. -/
theorem ruleOf_eq_some {p : ProcessEntry} (h : ruleOf cfg rules p = some job) :
    p.pid ≠ cfg.ownPid ∧ startedIdentity p = some job.identity ∧
      ∃ path, p.exePath = some path ∧ rules[processRuleKey cfg.keyHost path]? = some job.rule ∧
        job.rule.isEmpty = false := by
  unfold ruleOf at h
  split_ifs at h with hown
  split at h
  · rename_i start path hstart hpath
    split at h
    · rename_i rule hrule
      split_ifs at h with hempty
      obtain rfl := Option.some.inj h
      refine ⟨hown, ?_, path, hpath, hrule, Bool.eq_false_iff.mpr hempty⟩
      rw [startedIdentity, hstart, Option.map_some]
    · cases h
  · cases h

/-- The processes of a snapshot that a saved rule is about. -/
def candidates (cfg : RuleConfig) (rules : OrdMap Text ProcessRule) (snapshot : Snapshot) :
    List RuleJob :=
  snapshot.processes.filterMap (ruleOf cfg rules)

theorem mem_candidates (h : job ∈ candidates cfg rules snapshot) :
    Ruled cfg rules snapshot job := by
  obtain ⟨p, hp, hjob⟩ := List.mem_filterMap.mp h
  exact ⟨p, hp, ruleOf_eq_some hjob⟩

theorem Ruled.live (h : Ruled cfg rules snapshot job) : job.identity ∈ live snapshot := by
  obtain ⟨p, hp, -, hidentity, -⟩ := h
  exact List.mem_toFinset.mpr (List.mem_filterMap.mpr ⟨p, hp, hidentity⟩)

theorem candidates_sublist :
    ((candidates cfg rules snapshot).map RuleJob.identity).Sublist
      (snapshot.processes.filterMap startedIdentity) := by
  unfold candidates
  induction snapshot.processes with
  | nil => exact List.Sublist.slnil
  | cons p ps ih =>
    rw [List.filterMap_cons, List.filterMap_cons]
    cases hrule : ruleOf cfg rules p with
    | none =>
      cases startedIdentity p with
      | none => exact ih
      | some x => exact ih.cons x
    | some job =>
      rw [(ruleOf_eq_some hrule).2.1]
      exact ih.cons_cons _

theorem mem_due : job ∈ due cfg rules s snapshot ↔
    job ∈ candidates cfg rules snapshot ∧ ¬ s.Settled job.identity := by
  rw [due, List.mem_filter, decide_eq_true_iff, candidates]

end Due

/-! ### One job at a time -/

/-- The identities of some jobs. -/
def identities (jobs : List RuleJob) : List ProcessIdentity := jobs.map RuleJob.identity

/-- **A snapshot lists no process twice, and brings back none, with a rule, that the page has
forgotten while its job is under way.** -/
def Calm (cfg : RuleConfig) (s : RuleState) : Action → Prop
  | .tick snapshot rules =>
    (snapshot.processes.filterMap startedIdentity).Nodup ∧
      ∀ job ∈ candidates cfg rules snapshot,
        job.identity ∈ identities s.jobs → job.identity ∈ s.inflight
  | .dispatch _ => True
  | .finish _ _ => True

instance (cfg : RuleConfig) (s : RuleState) : ∀ a, Decidable (Calm cfg s a)
  | .tick _ _ => inferInstanceAs (Decidable (_ ∧ _))
  | .dispatch _ => inferInstanceAs (Decidable True)
  | .finish _ _ => inferInstanceAs (Decidable True)

/-- What holds between two steps of a calm run. -/
structure Tidy (cfg : RuleConfig) (s : RuleState) : Prop where
  /-- No process has two jobs under way. -/
  once : (identities s.jobs).Nodup
  /-- No process is to get two jobs. -/
  apart : (identities s.pending).Nodup
  /-- What was reported and not read is not under way. -/
  unread : ∀ r ∈ s.results, r.identity ∉ identities s.jobs
  /-- What is to get a job has none, and neither a report nor an outcome. -/
  fresh : ∀ job ∈ s.pending, job.identity ∉ identities s.jobs ∧
    (∀ r ∈ s.results, r.identity ≠ job.identity) ∧ ¬ s.Finished job.identity
  /-- Nothing happens where the rules are off. -/
  idle : cfg.enabled = false → s = {}

section Tidy

variable {cfg : RuleConfig} {s s' : RuleState}

theorem tick_of_disabled (h : cfg.enabled = false) {snapshot : Snapshot}
    {rules : OrdMap Text ProcessRule} : tick cfg snapshot rules s = s := by
  simp [tick, h]

theorem tick_of_enabled (h : cfg.enabled = true) {snapshot : Snapshot}
    {rules : OrdMap Text ProcessRule} :
    tick cfg snapshot rules s =
      { s.read snapshot with pending := due cfg rules (s.read snapshot) snapshot } := by
  simp [tick, h]

theorem jobs_tick (h : cfg.enabled = true) (snapshot : Snapshot) (rules : OrdMap Text ProcessRule)
    (s : RuleState) : (tick cfg snapshot rules s).jobs = s.jobs := by
  rw [tick_of_enabled h]
  exact jobs_read

theorem results_tick (h : cfg.enabled = true) (snapshot : Snapshot)
    (rules : OrdMap Text ProcessRule) (s : RuleState) :
    (tick cfg snapshot rules s).results = [] := by
  rw [tick_of_enabled h]
  exact results_read

theorem pending_tick (h : cfg.enabled = true) (snapshot : Snapshot)
    (rules : OrdMap Text ProcessRule) (s : RuleState) :
    (tick cfg snapshot rules s).pending = due cfg rules (s.read snapshot) snapshot := by
  rw [tick_of_enabled h]

theorem Tidy.start (cfg : RuleConfig) : Tidy cfg {} where
  once := List.nodup_nil
  apart := List.nodup_nil
  unread := by simp
  fresh := by simp
  idle := fun _ => rfl

/-- A calm snapshot makes jobs for processes that have none. -/
theorem Tidy.tick (h : Tidy cfg s) {snapshot : Snapshot} {rules : OrdMap Text ProcessRule}
    (hcalm : Calm cfg s (.tick snapshot rules)) : Tidy cfg (tick cfg snapshot rules s) := by
  cases henabled : cfg.enabled with
  | false => exact (tick_of_disabled henabled).symm ▸ h
  | true =>
    obtain ⟨hnodup, hforgotten⟩ := hcalm
    have hjobs := jobs_tick henabled snapshot rules s
    have hresults := results_tick henabled snapshot rules s
    have hpending := pending_tick henabled snapshot rules s
    refine ⟨hjobs.symm ▸ h.once, ?_, ?_, fun job hjob => ?_, fun hoff => ?_⟩
    · rw [hpending]
      exact (hnodup.sublist candidates_sublist).sublist (List.filter_sublist.map _)
    · simp [hresults]
    · rw [hpending] at hjob
      obtain ⟨hcandidate, hunsettled⟩ := mem_due.mp hjob
      rw [hjobs, hresults]
      refine ⟨fun hin => hunsettled ?_, by simp, fun hfinished => hunsettled ?_⟩
      · -- a job under way that the page knows of has not been reported on
        have hinflight := hforgotten job hcandidate hin
        refine Or.inr (Or.inl (mem_inflight_read hinflight (mem_candidates hcandidate).live ?_))
        intro r hr hidentity
        exact h.unread r hr (hidentity ▸ hin)
      · refine RuleState.Finished.settled ?_
        rwa [RuleState.Finished, tick_of_enabled henabled] at hfinished
    · rw [henabled] at hoff
      cases hoff

/-- What is to be handed over after a snapshot has a rule. -/
theorem Tidy.ruled_tick (h : Tidy cfg s) {snapshot : Snapshot} {rules : OrdMap Text ProcessRule}
    {job : RuleJob} (hjob : job ∈ (ProcessRules.tick cfg snapshot rules s).pending) :
    Ruled cfg rules snapshot job := by
  cases henabled : cfg.enabled with
  | false =>
    rw [tick_of_disabled henabled, h.idle henabled] at hjob
    cases hjob
  | true =>
    rw [pending_tick henabled] at hjob
    exact mem_candidates (mem_due.mp hjob).1

/-- What is remembered after a snapshot is listed or was reported on. -/
theorem Tidy.entry_tick (h : Tidy cfg s) {snapshot : Snapshot} {rules : OrdMap Text ProcessRule}
    {x : ProcessIdentity} (hx : (ProcessRules.tick cfg snapshot rules s).Entry x) :
    x ∈ live snapshot ∨ ∃ r ∈ s.results, r.identity = x := by
  cases henabled : cfg.enabled with
  | false =>
    rw [tick_of_disabled henabled, h.idle henabled] at hx
    simp [RuleState.Entry] at hx
  | true =>
    rw [tick_of_enabled henabled] at hx
    exact entry_read hx

/-- What was reported on is remembered. -/
theorem Tidy.entry_tick_of_result (h : Tidy cfg s) {snapshot : Snapshot}
    {rules : OrdMap Text ProcessRule} {r : RuleResult} (hr : r ∈ s.results) :
    (ProcessRules.tick cfg snapshot rules s).Entry r.identity := by
  cases henabled : cfg.enabled with
  | false =>
    rw [h.idle henabled] at hr
    cases hr
  | true =>
    rw [tick_of_enabled henabled]
    exact entry_of_result hr

/-- The job that is handed over is the only one of its process. -/
theorem Tidy.dispatch (h : Tidy cfg s) {executor : Option ActionExecutor} {job : RuleJob}
    {rest : List RuleJob} (hpending : s.pending = job :: rest) :
    Tidy cfg (dispatch cfg executor s job rest) := by
  have hapart := h.apart
  rw [hpending, identities, List.map_cons, List.nodup_cons] at hapart
  have hother : ∀ k ∈ rest, k.identity ≠ job.identity := fun k hk heq =>
    hapart.1 (heq ▸ List.mem_map_of_mem hk)
  obtain ⟨hjob, hunread, -⟩ := h.fresh job (hpending ▸ List.mem_cons_self)
  have hrest : ∀ k ∈ rest, k ∈ s.pending := fun k hk => hpending ▸ List.mem_cons_of_mem _ hk
  have hidle (t : RuleState) (hoff : cfg.enabled = false) : t = {} := by
    rw [h.idle hoff] at hpending
    cases hpending
  rcases dispatch_cases cfg executor s job rest with heq | ⟨error, heq⟩
  · have hids : identities (s.jobs ++ [job]) = identities s.jobs ++ [job.identity] :=
      List.map_append
    rw [heq, RuleState.queue]
    refine ⟨?_, hapart.2, fun r hr => ?_, fun k hk => ?_, hidle _⟩
    · rw [hids, ← List.concat_eq_append]
      exact h.once.concat hjob
    · rw [hids, List.mem_append, List.mem_singleton, not_or]
      exact ⟨h.unread r hr, hunread r hr⟩
    · obtain ⟨hkjobs, hkunread, hkfinished⟩ := h.fresh k (hrest k hk)
      refine ⟨?_, hkunread, hkfinished⟩
      rw [hids, List.mem_append, List.mem_singleton, not_or]
      exact ⟨hkjobs, hother k hk⟩
  · rw [heq, RuleState.reject]
    refine ⟨h.once, hapart.2, fun r hr => ?_, fun k hk => ?_, hidle _⟩
    · rcases List.mem_append.mp hr with hr | hr
      · exact h.unread r hr
      · obtain rfl := List.mem_singleton.mp hr
        exact hjob
    · obtain ⟨hkjobs, hkunread, hkfinished⟩ := h.fresh k (hrest k hk)
      refine ⟨hkjobs, fun r hr => ?_, hkfinished⟩
      rcases List.mem_append.mp hr with hr | hr
      · exact hkunread r hr
      · obtain rfl := List.mem_singleton.mp hr
        exact (hother k hk).symm

/-- A job that finishes was the only one of its process. -/
theorem Tidy.finish (h : Tidy cfg s) {index : ℕ} {job : RuleJob}
    (hjob : s.jobs[index]? = some job) {r : RuleResult} (hr : r.identity = job.identity) :
    Tidy cfg { s with jobs := s.jobs.eraseIdx index, results := s.results ++ [r] } := by
  have hmem : job ∈ s.jobs := List.mem_of_getElem? hjob
  have hsub : (identities (s.jobs.eraseIdx index)).Sublist (identities s.jobs) :=
    (List.eraseIdx_sublist _ _).map _
  have hgone : job.identity ∉ identities (s.jobs.eraseIdx index) := by
    obtain ⟨hlt, hget⟩ := List.getElem?_eq_some_iff.mp hjob
    have hsplit : s.jobs = s.jobs.take index ++ job :: s.jobs.drop (index + 1) := by
      rw [← hget, ← List.drop_eq_getElem_cons hlt, List.take_append_drop]
    have honce := h.once
    rw [hsplit, identities, List.map_append, List.map_cons, List.nodup_middle,
      List.nodup_cons] at honce
    rw [List.eraseIdx_eq_take_drop_succ, identities, List.map_append]
    exact honce.1
  refine ⟨h.once.sublist hsub, h.apart, fun q hq => ?_, fun k hk => ?_, fun hoff => ?_⟩
  · rcases List.mem_append.mp hq with hq | hq
    · exact fun hin => h.unread q hq (hsub.subset hin)
    · obtain rfl := List.mem_singleton.mp hq
      exact hr ▸ hgone
  · obtain ⟨hkjobs, hkunread, hkfinished⟩ := h.fresh k hk
    refine ⟨fun hin => hkjobs (hsub.subset hin), fun q hq => ?_, hkfinished⟩
    rcases List.mem_append.mp hq with hq | hq
    · exact hkunread q hq
    · obtain rfl := List.mem_singleton.mp hq
      exact fun heq => hkjobs (heq ▸ hr ▸ List.mem_map_of_mem hmem)
  · rw [h.idle hoff] at hmem
    cases hmem

/-- **A calm step keeps it.** -/
theorem Tidy.step (h : Tidy cfg s) {a : Action} (hcalm : Calm cfg s a)
    (hstep : step cfg s a = some s') : Tidy cfg s' := by
  cases a with
  | tick snapshot rules =>
    obtain ⟨-, hs'⟩ := Option.ite_none_right_eq_some.mp hstep
    obtain rfl := Option.some.inj hs'
    exact h.tick hcalm
  | dispatch executor =>
    cases hpending : s.pending with
    | nil => simp [ProcessRules.step, hpending] at hstep
    | cons job rest =>
      simp only [ProcessRules.step, hpending, Option.some.injEq] at hstep
      exact hstep ▸ h.dispatch hpending
  | finish index platform =>
    cases hjob : s.jobs[index]? with
    | none => simp [ProcessRules.step, hjob] at hstep
    | some job =>
      simp only [ProcessRules.step, hjob, Option.some.injEq] at hstep
      exact hstep ▸ h.finish hjob rfl

end Tidy

/-! ### What keeps a process from another job -/

/-- A process whose rule was applied, perhaps not read yet, or failed three times, and that is to
get no job. -/
structure Over (x : ProcessIdentity) (s : RuleState) : Prop where
  outcome : s.Finished x ∨ ∃ r ∈ s.results, r.identity = x ∧ r.error = none
  unpending : x ∉ identities s.pending

/-- An action is no snapshot without the process. -/
def Lists (x : ProcessIdentity) : Action → Prop
  | .tick snapshot _ => x ∈ live snapshot
  | .dispatch _ => True
  | .finish _ _ => True

section Over

variable {cfg : RuleConfig} {s s' : RuleState} {x : ProcessIdentity}

/-- **It stays so while the process is listed.** -/
theorem Over.step (h : Over x s) {a : Action} (hlists : Lists x a)
    (hstep : step cfg s a = some s') : Over x s' := by
  cases a with
  | tick snapshot rules =>
    obtain ⟨-, hs'⟩ := Option.ite_none_right_eq_some.mp hstep
    obtain rfl := Option.some.inj hs'
    cases henabled : cfg.enabled with
    | false => exact (tick_of_disabled henabled).symm ▸ h
    | true =>
      have hfinished : (s.read snapshot).Finished x := by
        rcases h.outcome with hfinished | ⟨r, hr, rfl, hok⟩
        · exact finished_read hfinished hlists
        · exact Or.inl (applied_read hr hok)
      rw [tick_of_enabled henabled]
      refine ⟨Or.inl hfinished, fun hmem => ?_⟩
      obtain ⟨job, hjob, rfl⟩ := List.mem_map.mp hmem
      exact (mem_due.mp hjob).2 hfinished.settled
  | dispatch executor =>
    cases hpending : s.pending with
    | nil => simp [ProcessRules.step, hpending] at hstep
    | cons job rest =>
      simp only [ProcessRules.step, hpending, Option.some.injEq] at hstep
      obtain ⟨houtcome, hunpending⟩ := h
      rw [hpending, identities, List.map_cons, List.mem_cons, not_or] at hunpending
      rcases dispatch_cases cfg executor s job rest with heq | ⟨error, heq⟩
      · rw [← hstep, heq]
        exact ⟨houtcome, hunpending.2⟩
      · rw [← hstep, heq]
        refine ⟨houtcome.imp_right ?_, hunpending.2⟩
        rintro ⟨r, hr, hx⟩
        exact ⟨r, List.mem_append_left _ hr, hx⟩
  | finish index platform =>
    cases hjob : s.jobs[index]? with
    | none => simp [ProcessRules.step, hjob] at hstep
    | some job =>
      simp only [ProcessRules.step, hjob, Option.some.injEq] at hstep
      rw [← hstep]
      refine ⟨h.outcome.imp_right ?_, h.unpending⟩
      rintro ⟨r, hr, hx⟩
      exact ⟨r, List.mem_append_left _ hr, hx⟩

/-- It stays so over a run whose snapshots all list the process. -/
theorem Over.run (h : Over x s) {as : List Action} (hlists : ∀ a ∈ as, Lists x a)
    (hrun : Machine.exec (ProcessRules.step cfg) s as = some s') : Over x s' := by
  refine Machine.invariant_of_along (C := fun _ a => Lists x a) (fun s a s' h hlists hstep =>
    h.step hlists hstep) h ?_ hrun
  exact Machine.along_of_invariant (I := fun _ => True) (fun _ _ _ _ _ _ => trivial)
    (fun _ _ _ ha => ha) trivial hlists

/-- A success makes it so. -/
theorem Over.of_success (h : Tidy cfg s) {index : ℕ} {platform : RulePlatform} {job : RuleJob}
    (hjob : s.jobs[index]? = some job) (hok : (runRule platform job).error = none)
    (hstep : ProcessRules.step cfg s (.finish index platform) = some s') :
    Over job.identity s' := by
  simp only [ProcessRules.step, hjob, Option.some.injEq] at hstep
  rw [← hstep]
  refine ⟨Or.inr ⟨_, List.mem_append_right _ (List.mem_singleton_self _), rfl, hok⟩, fun hmem => ?_⟩
  obtain ⟨next, hnext, hidentity⟩ := List.mem_map.mp hmem
  exact (h.fresh next hnext).1 (hidentity ▸ List.mem_map_of_mem (List.mem_of_getElem? hjob))

theorem Over.of_failures (h : Tidy cfg s) (hfailures : 3 ≤ (s.failures x).getD 0) : Over x s := by
  refine ⟨Or.inl (Or.inr hfailures), fun hmem => ?_⟩
  obtain ⟨next, hnext, rfl⟩ := List.mem_map.mp hmem
  exact (h.fresh next hnext).2.2 (Or.inr hfailures)

end Over

/-! ### Between two snapshots -/

/-- An action is no snapshot. -/
def Action.Between : Action → Prop
  | .tick _ _ => False
  | .dispatch _ => True
  | .finish _ _ => True

section Between

variable {cfg : RuleConfig} {s s' : RuleState}

/-- **Until the next snapshot** the jobs to hand over only get fewer, and only their processes are
remembered anew. -/
theorem between_step {a : Action} (ha : a.Between) (hstep : step cfg s a = some s') :
    (∀ job ∈ s'.pending, job ∈ s.pending) ∧
      ∀ x, s'.Entry x → s.Entry x ∨ x ∈ identities s.pending := by
  cases a with
  | tick => exact ha.elim
  | dispatch executor =>
    cases hpending : s.pending with
    | nil => simp [ProcessRules.step, hpending] at hstep
    | cons job rest =>
      simp only [ProcessRules.step, hpending, Option.some.injEq] at hstep
      have hhead : job.identity ∈ identities (job :: rest) := List.mem_map_of_mem List.mem_cons_self
      rcases dispatch_cases cfg executor s job rest with heq | ⟨error, heq⟩
      · rw [← hstep, heq]
        refine ⟨fun k hk => List.mem_cons_of_mem _ hk, ?_⟩
        rintro x (h | h | h)
        · exact Or.inl (Or.inl h)
        · rcases Finset.mem_insert.mp h with rfl | h
          · exact Or.inr hhead
          · exact Or.inl (Or.inr (Or.inl h))
        · exact Or.inl (Or.inr (Or.inr h))
      · rw [← hstep, heq]
        refine ⟨fun k hk => List.mem_cons_of_mem _ hk, ?_⟩
        rintro x (h | h | h)
        · exact Or.inl (Or.inl h)
        · obtain ⟨hne, h⟩ := Finset.mem_erase.mp h
          exact Or.inl (Or.inr (Or.inl ((Finset.mem_insert.mp h).resolve_left hne)))
        · exact Or.inl (Or.inr (Or.inr h))
  | finish index platform =>
    cases hjob : s.jobs[index]? with
    | none => simp [ProcessRules.step, hjob] at hstep
    | some job =>
      simp only [ProcessRules.step, hjob, Option.some.injEq] at hstep
      rw [← hstep]
      exact ⟨fun _ hk => hk, fun _ hx => Or.inl hx⟩

theorem between_run {as : List Action} (ha : ∀ a ∈ as, a.Between)
    (hrun : Machine.exec (step cfg) s as = some s') :
    (∀ job ∈ s'.pending, job ∈ s.pending) ∧
      ∀ x, s'.Entry x → s.Entry x ∨ x ∈ identities s.pending := by
  refine Machine.invariant_of_along (C := fun _ a => Action.Between a)
    (I := fun t => (∀ job ∈ t.pending, job ∈ s.pending) ∧
      ∀ x, t.Entry x → s.Entry x ∨ x ∈ identities s.pending) ?_ ⟨fun _ h => h, fun _ h => Or.inl h⟩
    ?_ hrun
  · rintro t a t' ⟨hpending, hentry⟩ hbetween hstep
    obtain ⟨hpending', hentry'⟩ := between_step hbetween hstep
    refine ⟨fun job hjob => hpending job (hpending' job hjob), fun x hx => ?_⟩
    rcases hentry' x hx with h | h
    · exact hentry x h
    · obtain ⟨job, hjob, rfl⟩ := List.mem_map.mp h
      exact Or.inr (List.mem_map_of_mem (hpending job hjob))
  · exact Machine.along_of_invariant (I := fun _ => True) (fun _ _ _ _ _ _ => trivial)
      (fun _ _ _ ha => ha) trivial ha

end Between

/-! ### Whole runs -/

/-- The run leads from the start to `s`. -/
abbrev Leads (cfg : RuleConfig) (as : List Action) (s : RuleState) : Prop :=
  Machine.exec (step cfg) {} as = some s

/-- **Saved rules are applied once per process**, in a run and everything that leads up to it. -/
structure AppliedOnce (cfg : RuleConfig) (as : List Action) : Prop where
  /-- No process ever has two jobs under way. -/
  once : ∀ pre s, pre <+: as → Leads cfg pre s → (identities s.jobs).Nodup
  /-- After a success no job is made for the process while it is listed. -/
  succeeded : ∀ pre index platform mid s job s', pre ++ .finish index platform :: mid <+: as →
    Leads cfg pre s → s.jobs[index]? = some job → (runRule platform job).error = none →
      (∀ a ∈ mid, Lists job.identity a) →
        Leads cfg (pre ++ .finish index platform :: mid) s' →
          job.identity ∉ identities s'.pending
  /-- After three recorded failures neither. -/
  failed : ∀ pre mid s x s', pre ++ mid <+: as → Leads cfg pre s →
    3 ≤ (s.failures x).getD 0 → (∀ a ∈ mid, Lists x a) → Leads cfg (pre ++ mid) s' →
      x ∉ identities s'.pending
  /-- What is handed over is about a process of the last snapshot that has the rule. -/
  ruled : ∀ pre snapshot rules mid s', pre ++ .tick snapshot rules :: mid <+: as →
    (∀ a ∈ mid, a.Between) → Leads cfg (pre ++ .tick snapshot rules :: mid) s' →
      ∀ job ∈ s'.pending, Ruled cfg rules snapshot job
  /-- What is remembered after a snapshot is listed in it, or was reported on with it. -/
  kept : ∀ pre snapshot rules mid s s', pre ++ .tick snapshot rules :: mid <+: as →
    (∀ a ∈ mid, a.Between) → Leads cfg pre s → Leads cfg (pre ++ .tick snapshot rules :: mid) s' →
      ∀ x, s'.Entry x → x ∈ live snapshot ∨ ∃ r ∈ s.results, r.identity = x
  /-- Nothing but what is listed is remembered right after a snapshot, exactly where all that was
  reported on is listed. -/
  exactly : ∀ pre snapshot rules s s', pre ++ [.tick snapshot rules] <+: as → Leads cfg pre s →
    Leads cfg (pre ++ [.tick snapshot rules]) s' →
      ((∀ x, s'.Entry x → x ∈ live snapshot) ↔ ∀ r ∈ s.results, r.identity ∈ live snapshot)

/-- **In a run whose snapshots are all calm, saved rules are applied once per process.** -/
theorem applied_once (cfg : RuleConfig) (as : List Action)
    (h : Machine.Along (step cfg) (Calm cfg) {} as) : AppliedOnce cfg as := by
  -- a calm run is tidy after each of its steps
  have htidy : ∀ pre s, pre <+: as → Leads cfg pre s → Tidy cfg s := by
    rintro pre s ⟨post, rfl⟩ hrun
    exact Machine.invariant_of_along (fun _ _ _ ht hc => ht.step hc) (Tidy.start cfg)
      (Machine.along_append.mp h).1 hrun
  have hsplit : ∀ {pre mid : List Action} {s'}, Leads cfg (pre ++ mid) s' →
      ∃ s, Leads cfg pre s ∧ Machine.exec (step cfg) s mid = some s' := by
    intro pre mid s' hrun
    exact Option.bind_eq_some_iff.mp ((Machine.exec_append _ _ _).symm.trans hrun)
  -- a tick happens only where its guard holds, and then does what `tick` says
  have htick : ∀ {pre mid : List Action} {snapshot rules s'},
      Leads cfg (pre ++ .tick snapshot rules :: mid) s' →
        ∃ s, Leads cfg pre s ∧
          Machine.exec (step cfg) (tick cfg snapshot rules s) mid = some s' := by
    intro pre mid snapshot rules s' hrun
    obtain ⟨s, hs, hrest⟩ := hsplit hrun
    obtain ⟨t, ht, hmid⟩ := Machine.exec_cons_eq_some.mp hrest
    obtain ⟨-, ht⟩ := Option.ite_none_right_eq_some.mp ht
    obtain rfl := Option.some.inj ht
    exact ⟨s, hs, hmid⟩
  refine ⟨fun pre s hpre hrun => (htidy pre s hpre hrun).once, ?_, ?_, ?_, ?_, ?_⟩
  · intro pre index platform mid s job s' hpre hrun hjob hok hlists hrun'
    obtain ⟨t, ht, hrest⟩ := hsplit hrun'
    obtain rfl := Option.some.inj (hrun.symm.trans ht)
    obtain ⟨u, hu, hmid⟩ := Machine.exec_cons_eq_some.mp hrest
    have hs := htidy pre s ((List.prefix_append _ _).trans hpre) hrun
    exact ((Over.of_success hs hjob hok hu).run hlists hmid).unpending
  · intro pre mid s x s' hpre hrun hfailures hlists hrun'
    obtain ⟨t, ht, hmid⟩ := hsplit hrun'
    obtain rfl := Option.some.inj (hrun.symm.trans ht)
    have hs := htidy pre s ((List.prefix_append _ _).trans hpre) hrun
    exact ((Over.of_failures hs hfailures).run hlists hmid).unpending
  · intro pre snapshot rules mid s' hpre hbetween hrun job hjob
    obtain ⟨s, hs, hmid⟩ := htick hrun
    have hs' := htidy pre s ((List.prefix_append _ _).trans hpre) hs
    exact hs'.ruled_tick ((between_run hbetween hmid).1 job hjob)
  · intro pre snapshot rules mid s s' hpre hbetween hrun hrun' x hx
    obtain ⟨t, ht, hmid⟩ := htick hrun'
    obtain rfl := Option.some.inj (hrun.symm.trans ht)
    have hs := htidy pre s ((List.prefix_append _ _).trans hpre) hrun
    rcases (between_run hbetween hmid).2 x hx with hentry | hpending
    · exact hs.entry_tick hentry
    · obtain ⟨job, hjob, rfl⟩ := List.mem_map.mp hpending
      exact Or.inl (hs.ruled_tick hjob).live
  · intro pre snapshot rules s s' hpre hrun hrun'
    obtain ⟨t, ht, hmid⟩ := htick hrun'
    obtain rfl := Option.some.inj (hrun.symm.trans ht)
    obtain rfl := Option.some.inj hmid
    have hs := htidy pre s ((List.prefix_append _ _).trans hpre) hrun
    constructor
    · exact fun hentries r hr => hentries _ (hs.entry_tick_of_result hr)
    · intro hresults x hx
      rcases hs.entry_tick hx with hlive | ⟨r, hr, rfl⟩
      · exact hlive
      · exact hresults r hr

/-! ### A process that is missing from one snapshot -/

/-- A page with the rules switched on. -/
def demoConfig : RuleConfig where
  enabled := true
  ownPid := 1
  keyHost := { windows := false, toLowercase := id }
  actionQueueFull := "queue full".toList
  actionFailed := "failed".toList

/-- A rule for one image. -/
def demoRules : OrdMap Text ProcessRule :=
  (∅ : OrdMap Text ProcessRule).insert "/bin/tool".toList { priority := some .low }

/-- A snapshot with a process of that image. -/
def toolListed : Snapshot :=
  { processes := [{ pid := 7, startEpochS := some 5, name := "tool".toList,
                    exePath := some "/bin/tool".toList }] }

/-- A snapshot without it. -/
def toolMissed : Snapshot := { processes := [] }

/-- An executor without jobs. -/
def idleExecutor : ActionExecutor := ⟨[.ready, .ready], 0, by decide⟩

/-- A platform on which every call succeeds. -/
def willingPlatform : RulePlatform where
  setPriorityChecked _ _ _ := .ok ()
  systemAffinityMask := .ok 3
  setAffinityMaskChecked _ _ _ := .ok ()

/-- The job for the process finishes before it is missed. -/
def finishedFirst : List Action :=
  [.tick toolListed demoRules, .dispatch (some idleExecutor), .finish 0 willingPlatform,
    .tick toolMissed demoRules, .tick toolListed demoRules, .dispatch (some idleExecutor)]

theorem applied_once_finishedFirst : AppliedOnce demoConfig finishedFirst :=
  applied_once demoConfig finishedFirst (by decide +kernel)

/-- The job for the process is still under way when the process is missed. -/
def missedFirst : List Action :=
  [.tick toolListed demoRules, .dispatch (some idleExecutor), .tick toolMissed demoRules,
    .tick toolListed demoRules, .dispatch (some idleExecutor)]

/-- The process then has two jobs under way. -/
theorem not_applied_once_missedFirst : ¬ AppliedOnce demoConfig missedFirst := by
  intro h
  have hjobs : (Machine.exec (step demoConfig) {} missedFirst).map
      (fun s => identities s.jobs) = some [⟨7, some 5⟩, ⟨7, some 5⟩] := by decide +kernel
  obtain ⟨s, hrun, hids⟩ := Option.map_eq_some_iff.mp hjobs
  have honce := h.once missedFirst s List.prefix_rfl hrun
  rw [hids] at honce
  exact absurd honce (by decide)

end ProcessRules

end Taskman
