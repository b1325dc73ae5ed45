import Taskman.LTS.Machine
import Mathlib.Data.Finset.Card
import Mathlib.Data.List.Perm.Basic

/-!
# The icon cache

Icons are extracted by a worker thread, which is started with the first request.  `get` takes what
the worker has finished, uploads a few results, puts the rest back, and requests the icon it is
asked for if it is neither cached nor queued.  The worker runs between any two steps of `get`.

* `IconCache.step` : one step of `get`, or one of the worker;
* `IconCache.Answered` : the counters, the queue and the results agree, and no result was dropped;
* `IconCache.Prompt` : finished results are uploaded within as many calls as there are batches of
  them;
* `IconCache.served_iff` : **every request is answered exactly in the runs in which nothing is
  finished while a backlog is put back, and nothing is requested while there is no worker**.

Times are in nanoseconds.  `pending_repaint` and the textures' pixels are left out.
-/

namespace Taskman

/-- A result of the worker: the icon, if it could be extracted. -/
structure Decoded (π ι : Type*) where
  path : π
  icon : Option ι
  deriving DecidableEq

namespace IconCache

/-- A cached entry. -/
inductive Entry (ι : Type*) where
  | ready (texture : ι)
  /-- Extraction failed at that time. -/
  | failed (at_ : ℕ)
  deriving DecidableEq

/-- Where a call of `get` is. -/
inductive Phase (π ι : Type*) where
  | idle
  /-- It has taken these results. -/
  | draining (path : π) (ready : List (Decoded π ι))
  /-- It has put back what it did not upload. -/
  | drained (path : π)
  deriving DecidableEq

end IconCache

open IconCache in
/-- The cache, what it shares with its worker, and the worker. -/
structure IconCache (π ι : Type*) where
  now : ℕ := 0
  tex : List (π × Entry ι) := []
  /-- Paths queued or awaiting upload. -/
  queued : Finset π := ∅
  /-- Whether there is a channel to the worker. -/
  tx : Bool := false
  workerStarted : Bool := false
  /-- What was sent and not received. -/
  channel : List π := []
  /-- What the worker is extracting. -/
  extracting : Option π := none
  results : List (Decoded π ι) := []
  inFlight : ℕ := 0
  phase : Phase π ι := .idle
  /-- All results of the worker, in their order. -/
  pushed : List (Decoded π ι) := []
  /-- Those that were uploaded or marked failed. -/
  uploads : List (Decoded π ι) := []

namespace IconCache

/-- Textures kept alive. -/
def CACHE_CAP : ℕ := 512
/-- Texture uploads allowed in one call. -/
def UPLOAD_BUDGET : ℕ := 6
/-- Requests allowed at a time. -/
def IN_FLIGHT_CAP : ℕ := 64
/-- Retry window for icons whose extraction failed. -/
def FAILURE_RETRY_TTL : ℕ := 30 * 1000000000

variable {π ι : Type*}

section Definitions

variable [DecidableEq π]

/-- `ensure_worker`; where the thread cannot be spawned the channel is dropped. -/
def ensureWorker (s : IconCache π ι) (spawned : Bool) : IconCache π ι :=
  if s.workerStarted then s
  else if spawned then { s with workerStarted := true, tx := true }
  else { s with tx := false }

/-- Writes one result to the cache. -/
def upload (s : IconCache π ι) (d : Decoded π ι) : IconCache π ι :=
  let entry := match d.icon with
    | some icon => .ready icon
    | none => .failed s.now
  { s with
    queued := s.queued.erase d.path
    tex := (d.path, entry) :: s.tex.filter fun e => e.1 ≠ d.path
    uploads := s.uploads ++ [d] }

/-- Drops failures that are old enough to retry. -/
def expire (s : IconCache π ι) : IconCache π ι :=
  { s with
    tex := s.tex.filter fun e => match e.2 with
      | .failed at_ => decide (s.now - at_ < FAILURE_RETRY_TTL)
      | .ready _ => true }

/-- Keeps to the cap; `keys` is how the map lists its keys. -/
def evict (s : IconCache π ι) (keys : List π) : IconCache π ι :=
  { s with tex := s.tex.filter fun e => e.1 ∉ keys.take (s.tex.length - CACHE_CAP) }

/-- `drain_results`, after the results were taken. -/
def drainResults (s : IconCache π ι) (ready : List (Decoded π ι)) (keys : List π) :
    IconCache π ι :=
  if ready.isEmpty then s
  else
    let s := (((ready.take UPLOAD_BUDGET).foldl upload s).expire).evict keys
    let s := { s with inFlight := s.inFlight - (ready.take UPLOAD_BUDGET).length }
    let leftover := ready.drop UPLOAD_BUDGET
    if leftover.isEmpty then s else { s with results := leftover }

/-- `send_request`; `sent` is whether the channel took it. -/
def sendRequest (s : IconCache π ι) (path : π) (sent : Bool) : IconCache π ι :=
  if s.tx then
    if sent then { s with inFlight := s.inFlight + 1, channel := s.channel ++ [path] }
    else { s with queued := s.queued.erase path }
  else s

/-- The path may be requested: it is not queued, and not too much is in flight. -/
def mayRequest (s : IconCache π ι) (path : π) : Bool :=
  path ∉ s.queued && s.inFlight < IN_FLIGHT_CAP

/-- Ask the worker for an icon, unless it was asked already. -/
def request (s : IconCache π ι) (path : π) (sent : Bool) : IconCache π ι :=
  if s.mayRequest path then
    { s with queued := insert path s.queued }.sendRequest path sent
  else s

/-- Neither an icon nor a recent failure is cached. -/
def misses (s : IconCache π ι) (path : π) : Bool :=
  match s.tex.lookup path with
  | some (.ready _) => false
  | some (.failed at_) => FAILURE_RETRY_TTL ≤ s.now - at_
  | none => true

/-- The rest of `get`: a failure that is old enough is dropped. -/
def lookup (s : IconCache π ι) (path : π) (sent : Bool) : IconCache π ι :=
  match s.tex.lookup path with
  | some (.ready _) => s
  | some (.failed at_) =>
    if FAILURE_RETRY_TTL ≤ s.now - at_ then
      { s with tex := s.tex.filter fun e => e.1 ≠ path }.request path sent
    else s
  | none => s.request path sent

/-- What can happen next: a step of the page, or of the worker. -/
inductive Action (π ι : Type*) where
  /-- Time passes. -/
  | advance (ns : ℕ)
  /-- `get` is called and takes the results; whether a worker can be spawned if there is none. -/
  | get (path : π) (spawned : Bool)
  /-- It uploads and puts back the rest. -/
  | drain (keys : List π)
  /-- It looks the path up and may request it. -/
  | lookup (sent : Bool)
  /-- The worker receives a path. -/
  | receive
  /-- The worker has finished a path. -/
  | finish (icon : Option ι)
  deriving DecidableEq

/-- One step, where it is enabled. -/
def step (s : IconCache π ι) : Action π ι → Option (IconCache π ι)
  | .advance ns => some { s with now := s.now + ns }
  | .get path spawned =>
    match s.phase with
    | .idle => some { s.ensureWorker spawned with results := [], phase := .draining path s.results }
    | _ => none
  | .drain keys =>
    match s.phase with
    | .draining path ready => some { s.drainResults ready keys with phase := .drained path }
    | _ => none
  | .lookup sent =>
    match s.phase with
    | .drained path => some { s.lookup path sent with phase := .idle }
    | _ => none
  | .receive =>
    match s.channel, s.extracting with
    | path :: rest, none => some { s with channel := rest, extracting := some path }
    | _, _ => none
  | .finish icon =>
    match s.extracting with
    | some path =>
      some { s with
        extracting := none
        results := s.results ++ [⟨path, icon⟩]
        pushed := s.pushed ++ [⟨path, icon⟩] }
    | none => none

/-! ### What is promised -/

/-- The results a call of `get` has taken. -/
def held (s : IconCache π ι) : List (Decoded π ι) :=
  match s.phase with
  | .draining _ ready => ready
  | _ => []

/-- The paths for which there will be an answer. -/
def awaited (s : IconCache π ι) : List π :=
  s.channel ++ s.extracting.toList ++ (s.held ++ s.results).map (·.path)

/-- The queue, the counter and the results agree. -/
structure Answered (s : IconCache π ι) : Prop where
  /-- In flight is what is queued. -/
  inFlight : s.inFlight = s.queued.card
  /-- A path is queued exactly if an answer to it is awaited. -/
  queued : ∀ path, path ∈ s.queued ↔ path ∈ s.awaited
  once : s.awaited.Nodup
  /-- No result was dropped. -/
  kept : s.pushed = s.uploads ++ (s.held ++ s.results)

/-- The page looks for an icon. -/
def Action.isGet : Action π ι → Bool
  | .get .. => true
  | _ => false

/-- Whatever the worker has finished is uploaded or marked failed by later calls of `get`, as many
in each as the budget allows. -/
def Prompt (as : List (Action π ι)) : Prop :=
  ∀ pre post s₀ s, pre ++ post <+: as → Machine.exec step ({} : IconCache π ι) pre = some s₀ →
    Machine.exec step s₀ post = some s → s.phase = .idle →
      min s₀.pushed.length (s₀.uploads.length + UPLOAD_BUDGET * post.countP Action.isGet) ≤
        s.uploads.length

/-- Where a backlog is put back nothing was finished meanwhile, and where a path is requested there
is a channel to the worker. -/
def Orderly (s : IconCache π ι) : Action π ι → Prop
  | .drain _ => UPLOAD_BUDGET < s.held.length → s.results = []
  | .lookup _ => ∀ path, s.phase = .drained path →
      s.misses path = true → s.mayRequest path = true → s.tx = true
  | _ => True

instance (s : IconCache π ι) : ∀ a, Decidable (Orderly s a)
  | .drain _ => inferInstanceAs (Decidable (UPLOAD_BUDGET < s.held.length → s.results = []))
  | .lookup _ =>
    match hphase : s.phase with
    | .drained path =>
      decidable_of_iff (s.misses path = true → s.mayRequest path = true → s.tx = true)
        ⟨fun h _ hpath => by cases hphase.symm.trans hpath; exact h, fun h => h path hphase⟩
    | .idle => .isTrue fun _ hpath => nomatch hphase.symm.trans hpath
    | .draining .. => .isTrue fun _ hpath => nomatch hphase.symm.trans hpath
  | .advance _ | .get .. | .receive | .finish _ => inferInstanceAs (Decidable True)

end Definitions

/-! ### What one step does -/

section Functions

variable [DecidableEq π]

/-- Uploading writes to the cache and takes the paths out of the queue. -/
theorem foldl_upload (s : IconCache π ι) (ds : List (Decoded π ι)) :
    ∃ tex, ds.foldl upload s =
      { s with
        tex
        queued := s.queued \ (ds.map (·.path)).toFinset
        uploads := s.uploads ++ ds } := by
  induction ds generalizing s with
  | nil => exact ⟨s.tex, by simp⟩
  | cons d ds ih =>
    obtain ⟨tex, htex⟩ := ih (s.upload d)
    refine ⟨tex, htex.trans ?_⟩
    have hqueued : s.queued.erase d.path \ (ds.map (·.path)).toFinset =
        s.queued \ ((d :: ds).map (·.path)).toFinset := by
      ext path
      simp only [List.map_cons, List.toFinset_cons, Finset.mem_sdiff, Finset.mem_erase,
        Finset.mem_insert, not_or]
      tauto
    rw [List.append_cons, ← hqueued]
    rfl

theorem drainResults_eq (s : IconCache π ι) (ready : List (Decoded π ι)) (keys : List π) :
    ∃ tex, s.drainResults ready keys =
      { s with
        tex
        queued := s.queued \ ((ready.take UPLOAD_BUDGET).map (·.path)).toFinset
        uploads := s.uploads ++ ready.take UPLOAD_BUDGET
        inFlight := s.inFlight - (ready.take UPLOAD_BUDGET).length
        results :=
          if (ready.drop UPLOAD_BUDGET).isEmpty then s.results else ready.drop UPLOAD_BUDGET } := by
  obtain ⟨tex, htex⟩ := foldl_upload s (ready.take UPLOAD_BUDGET)
  unfold drainResults
  split
  · next hempty =>
    rw [List.isEmpty_iff.mp hempty]
    exact ⟨s.tex, by simp⟩
  · rw [htex]
    dsimp only
    split
    · exact ⟨_, rfl⟩
    · exact ⟨_, rfl⟩

theorem lookup_eq (s : IconCache π ι) (path : π) (sent : Bool) :
    ∃ tex, s.lookup path sent =
      if s.misses path = true ∧ s.mayRequest path = true then
        { s with tex, queued := insert path s.queued }.sendRequest path sent
      else { s with tex } := by
  unfold lookup misses
  split
  · exact ⟨s.tex, by simp⟩
  · next at_ _ =>
    by_cases hold : FAILURE_RETRY_TTL ≤ s.now - at_
    · refine ⟨s.tex.filter fun e => e.1 ≠ path, ?_⟩
      simp only [hold, decide_true, true_and]
      rfl
    · refine ⟨s.tex, ?_⟩
      simp [hold]
  · refine ⟨s.tex, ?_⟩
    simp only [true_and]
    rfl

end Functions

section Step

variable {s s' : IconCache π ι}

theorem Answered.moved (h : Answered s) (hinFlight : s'.inFlight = s.inFlight)
    (hqueued : s'.queued = s.queued) (hawaited : s'.awaited.Perm s.awaited)
    (hkept : s'.pushed = s'.uploads ++ (s'.held ++ s'.results)) : Answered s' where
  inFlight := by rw [hinFlight, hqueued, h.inFlight]
  queued path := by rw [hqueued, h.queued path, hawaited.mem_iff]
  once := hawaited.nodup_iff.mpr h.once
  kept := hkept

theorem Answered.get (h : Answered s) {path : π} {spawned : Bool} (hphase : s.phase = .idle) :
    Answered
      { s.ensureWorker spawned with results := [], phase := .draining path s.results } := by
  have hheld : s.held = [] := by rw [held, hphase]
  have hworker : ∃ started tx, s.ensureWorker spawned =
      { s with workerStarted := started, tx } := by
    unfold ensureWorker
    split
    · exact ⟨_, _, rfl⟩
    · split
      · exact ⟨_, _, rfl⟩
      · exact ⟨_, _, rfl⟩
  obtain ⟨started, tx, hworker⟩ := hworker
  rw [hworker]
  refine h.moved rfl rfl ?_ ?_
  · simp [awaited, hheld]
    simp [held]
  · have hkept := h.kept
    rw [hheld] at hkept
    simpa [held] using hkept

theorem Answered.receive (h : Answered s) {path : π} {rest : List π}
    (hchannel : s.channel = path :: rest) (hextracting : s.extracting = none) :
    Answered { s with channel := rest, extracting := some path } := by
  refine h.moved rfl rfl ?_ h.kept
  simp only [awaited, hchannel, hextracting, Option.toList_some, Option.toList_none,
    List.append_nil]
  exact (List.perm_append_singleton path rest).append_right _

theorem Answered.finish (h : Answered s) {path : π} (icon : Option ι)
    (hextracting : s.extracting = some path) :
    Answered { s with
      extracting := none
      results := s.results ++ [⟨path, icon⟩]
      pushed := s.pushed ++ [⟨path, icon⟩] } := by
  refine h.moved rfl rfl ?_ ?_
  · have hheld : (s.held ++ (s.results ++ [(⟨path, icon⟩ : Decoded π ι)])).map Decoded.path =
        (s.held ++ s.results).map Decoded.path ++ [path] := by
      rw [← List.append_assoc, List.map_append, List.map_singleton]
    simp only [awaited, hextracting, Option.toList_some, Option.toList_none, List.append_nil,
      List.append_assoc]
    refine List.Perm.append_left _ ?_
    exact (List.Perm.of_eq hheld).trans List.perm_append_comm
  · dsimp only
    rw [h.kept]
    simp [held]

/-- What is put back, where it does not overwrite anything. -/
theorem leftover_eq {ready results : List (Decoded π ι)}
    (hempty : UPLOAD_BUDGET < ready.length → results = []) :
    (if (ready.drop UPLOAD_BUDGET).isEmpty then results else ready.drop UPLOAD_BUDGET) =
      ready.drop UPLOAD_BUDGET ++ results := by
  split
  · next hdrop => rw [List.isEmpty_iff.mp hdrop, List.nil_append]
  · next hdrop =>
    have hlong : UPLOAD_BUDGET < ready.length := by
      by_contra hle
      exact hdrop (by rw [List.drop_eq_nil_of_le (not_lt.mp hle)]; rfl)
    rw [hempty hlong, List.append_nil]

variable [DecidableEq π]

theorem answered_drain_iff (h : Answered s) {path : π} {ready : List (Decoded π ι)}
    {keys : List π} (hphase : s.phase = .draining path ready) :
    Answered { s.drainResults ready keys with phase := .drained path } ↔
      (UPLOAD_BUDGET < ready.length → s.results = []) := by
  have hheld : s.held = ready := by rw [held, hphase]
  obtain ⟨tex, hdrain⟩ := drainResults_eq s ready keys
  rw [hdrain]
  have hsplit : ready.take UPLOAD_BUDGET ++ ready.drop UPLOAD_BUDGET = ready :=
    List.take_append_drop _ _
  have hkept : s.pushed = s.uploads ++ ready.take UPLOAD_BUDGET ++
      (ready.drop UPLOAD_BUDGET ++ s.results) := by
    rw [h.kept, hheld, List.append_assoc, ← List.append_assoc (ready.take _), hsplit]
  constructor
  · intro h' hlong
    have hdrop : (ready.drop UPLOAD_BUDGET).isEmpty = false := by
      rw [List.isEmpty_eq_false_iff, ← List.length_pos_iff, List.length_drop]
      omega
    have hkept' := h'.kept
    simp only [held, hdrop, Bool.false_eq_true, if_false, List.nil_append] at hkept'
    rw [hkept, List.append_cancel_left_eq] at hkept'
    exact List.self_eq_append_right.mp hkept'.symm
  · intro hempty
    rw [leftover_eq hempty]
    have hperm : s.awaited.Perm ((ready.take UPLOAD_BUDGET).map Decoded.path ++
        (s.channel ++ s.extracting.toList ++
          (ready.drop UPLOAD_BUDGET ++ s.results).map Decoded.path)) := by
      rw [awaited, hheld]
      nth_rewrite 1 [← hsplit]
      rw [List.append_assoc (ready.take _), List.map_append, ← List.append_assoc,
        ← List.append_assoc]
      exact List.perm_append_comm.append_right _
    have hnodup := hperm.nodup_iff.mp h.once
    have htaken : ((ready.take UPLOAD_BUDGET).map Decoded.path).toFinset ⊆ s.queued := by
      intro p hp
      rw [h.queued, hperm.mem_iff]
      exact List.mem_append_left _ (List.mem_toFinset.mp hp)
    constructor
    case inFlight =>
      dsimp only
      rw [Finset.card_sdiff_of_subset htaken, List.toFinset_card_of_nodup hnodup.of_append_left,
        List.length_map, h.inFlight]
    case queued =>
      intro p
      have hdisjoint := List.disjoint_of_nodup_append hnodup (a := p)
      rw [Finset.mem_sdiff, h.queued p, hperm.mem_iff, List.mem_append, List.mem_toFinset]
      constructor
      · rintro ⟨hmem, hother⟩
        exact hmem.resolve_left hother
      · intro hrest
        exact ⟨.inr hrest, fun htake => hdisjoint htake hrest⟩
    case once => exact hnodup.of_append_right
    case kept =>
      simpa [held] using hkept

theorem answered_lookup_iff (h : Answered s) {path : π} {sent : Bool}
    (hphase : s.phase = .drained path) :
    Answered { s.lookup path sent with phase := .idle } ↔
      (s.misses path = true → s.mayRequest path = true → s.tx = true) := by
  have hheld : s.held = [] := by rw [held, hphase]
  have hkept : s.pushed = s.uploads ++ s.results := by rw [h.kept, hheld, List.nil_append]
  have hawaited : s.awaited =
      s.channel ++ s.extracting.toList ++ s.results.map Decoded.path := by
    rw [awaited, hheld, List.nil_append]
  obtain ⟨tex, hlookup⟩ := lookup_eq s path sent
  rw [hlookup]
  by_cases hrequest : s.misses path = true ∧ s.mayRequest path = true
  · rw [if_pos hrequest]
    have hnew : path ∉ s.queued := by
      have hmay := hrequest.2
      rw [mayRequest, Bool.and_eq_true, decide_eq_true_eq] at hmay
      exact hmay.1
    unfold sendRequest
    by_cases htx : s.tx = true
    · refine iff_of_true ?_ fun _ _ => htx
      rw [if_pos htx]
      cases sent with
      | true =>
        rw [if_pos rfl]
        have hperm : (s.channel ++ [path] ++ s.extracting.toList ++
            s.results.map Decoded.path).Perm (path :: s.awaited) := by
          rw [hawaited]
          simp only [List.append_assoc, List.singleton_append]
          exact List.perm_middle
        constructor
        case inFlight =>
          dsimp only
          rw [Finset.card_insert_of_notMem hnew, h.inFlight]
        case queued =>
          intro p
          rw [Finset.mem_insert, h.queued, ← List.mem_cons]
          exact hperm.mem_iff.symm
        case once =>
          refine hperm.nodup_iff.mpr (List.nodup_cons.mpr ⟨?_, h.once⟩)
          rwa [← h.queued]
        case kept => exact hkept
      | false =>
        rw [if_neg Bool.false_ne_true]
        refine h.moved rfl ?_ ?_ hkept
        · exact Finset.erase_insert hnew
        · rw [hawaited]
          exact List.Perm.refl _
    · refine iff_of_false (fun h' => ?_) fun hsent => htx (hsent hrequest.1 hrequest.2)
      rw [if_neg htx] at h'
      have hcard := h'.inFlight
      dsimp only at hcard
      rw [Finset.card_insert_of_notMem hnew, h.inFlight] at hcard
      omega
  · rw [if_neg hrequest]
    refine iff_of_true (h.moved rfl rfl ?_ hkept) fun hmiss hmay => absurd ⟨hmiss, hmay⟩ hrequest
    rw [hawaited]
    exact List.Perm.refl _

/-- **A step keeps the counters, the queue and the results in agreement exactly if it is
orderly.** -/
theorem answered_step_iff (h : Answered s) {a : Action π ι} (hs : step s a = some s') :
    Answered s' ↔ Orderly s a := by
  cases a with
  | advance ns =>
    cases hs
    exact iff_of_true ⟨h.inFlight, h.queued, h.once, h.kept⟩ trivial
  | get path spawned =>
    unfold step at hs
    dsimp only at hs
    split at hs
    · next hphase =>
      cases hs
      exact iff_of_true (h.get hphase) trivial
    · cases hs
  | drain keys =>
    unfold step at hs
    dsimp only at hs
    split at hs
    · next path ready hphase =>
      cases hs
      rw [answered_drain_iff h hphase, Orderly, held, hphase]
    · cases hs
  | lookup sent =>
    unfold step at hs
    dsimp only at hs
    split at hs
    · next path hphase =>
      cases hs
      rw [answered_lookup_iff h hphase, Orderly, hphase]
      constructor
      · rintro hsent _ ⟨⟩
        exact hsent
      · exact fun hsent => hsent path rfl
    · cases hs
  | receive =>
    unfold step at hs
    dsimp only at hs
    split at hs
    · next hchannel hextracting =>
      cases hs
      exact iff_of_true (h.receive hchannel hextracting) trivial
    · cases hs
  | finish icon =>
    unfold step at hs
    dsimp only at hs
    split at hs
    · next hextracting =>
      cases hs
      exact iff_of_true (h.finish icon hextracting) trivial
    · cases hs

/-! ### Uploads -/

/-- What is uploaded, with what the call that is running will upload. -/
def progress (s : IconCache π ι) : ℕ :=
  s.uploads.length + min UPLOAD_BUDGET s.held.length

/-- What a step uploads, and what the call that is running holds then. -/
def Effect (s s' : IconCache π ι) : Action π ι → Prop
  | .get .. => s.held = [] ∧ s'.uploads = s.uploads ∧ s'.held = s.results
  | .drain _ => s'.uploads = s.uploads ++ s.held.take UPLOAD_BUDGET ∧ s'.held = []
  | .advance _ | .lookup _ | .receive | .finish _ =>
    s'.uploads = s.uploads ∧ s'.held = s.held

theorem effect_step {a : Action π ι} (hs : step s a = some s') :
    s.pushed <+: s'.pushed ∧ Effect s s' a := by
  cases a with
  | advance ns =>
    cases hs
    exact ⟨List.prefix_rfl, rfl, rfl⟩
  -- only `finish` pushes an answer, every other step leaves what was pushed as it is
  | get path spawned =>
    unfold step at hs
    dsimp only at hs
    split at hs
    · next hphase =>
      cases hs
      have hheld : s.held = [] := by rw [held, hphase]
      unfold ensureWorker
      split
      · exact ⟨List.prefix_rfl, hheld, rfl, rfl⟩
      · split
        · exact ⟨List.prefix_rfl, hheld, rfl, rfl⟩
        · exact ⟨List.prefix_rfl, hheld, rfl, rfl⟩
    · cases hs
  | drain keys =>
    unfold step at hs
    dsimp only at hs
    split at hs
    · next path ready hphase =>
      cases hs
      obtain ⟨tex, hdrain⟩ := drainResults_eq s ready keys
      have hheld : s.held = ready := by rw [held, hphase]
      rw [hdrain, Effect, hheld]
      exact ⟨List.prefix_rfl, rfl, rfl⟩
    · cases hs
  | lookup sent =>
    unfold step at hs
    dsimp only at hs
    split at hs
    · next path hphase =>
      cases hs
      obtain ⟨tex, hlookup⟩ := lookup_eq s path sent
      have hheld : s.held = [] := by rw [held, hphase]
      rw [hlookup, Effect, hheld]
      unfold sendRequest
      split
      · split
        · split
          · exact ⟨List.prefix_rfl, rfl, rfl⟩
          · exact ⟨List.prefix_rfl, rfl, rfl⟩
        · exact ⟨List.prefix_rfl, rfl, rfl⟩
      · exact ⟨List.prefix_rfl, rfl, rfl⟩
    · cases hs
  | receive =>
    unfold step at hs
    dsimp only at hs
    split at hs
    · cases hs
      exact ⟨List.prefix_rfl, rfl, rfl⟩
    · cases hs
  | finish icon =>
    unfold step at hs
    dsimp only at hs
    split at hs
    · cases hs
      exact ⟨List.prefix_append _ _, rfl, rfl⟩
    · cases hs

theorem Answered.progress_step (h : Answered s) {a : Action π ι} (hs : step s a = some s') :
    min s.pushed.length (s.progress + if a.isGet then UPLOAD_BUDGET else 0) ≤ s'.progress := by
  have hkept : s.pushed.length = s.uploads.length + (s.held.length + s.results.length) := by
    rw [h.kept, List.length_append, List.length_append]
  obtain ⟨-, heffect⟩ := effect_step hs
  unfold progress
  cases a with
  | get path spawned =>
    obtain ⟨hheld, huploads, hheld'⟩ := heffect
    rw [hheld, List.length_nil] at hkept
    rw [huploads, hheld', hheld, List.length_nil, if_pos (by rfl)]
    omega
  | drain keys =>
    obtain ⟨huploads, hheld⟩ := heffect
    rw [huploads, hheld, List.length_append, List.length_take, List.length_nil,
      if_neg (by exact Bool.false_ne_true)]
    omega
  | advance | lookup | receive | finish =>
    obtain ⟨huploads, hheld⟩ := heffect
    rw [huploads, hheld, if_neg (by exact Bool.false_ne_true)]
    exact min_le_right _ _

theorem progress_run {as : List (Action π ι)} (h : Machine.Throughout step Answered s as)
    (hrun : Machine.exec step s as = some s') {n : ℕ} (hn : n ≤ s.pushed.length) :
    min n (s.progress + UPLOAD_BUDGET * as.countP Action.isGet) ≤ s'.progress := by
  induction as generalizing s with
  | nil =>
    cases hrun
    simp
  | cons a as ih =>
    obtain ⟨t, ht, hrest⟩ := Machine.exec_cons_eq_some.mp hrun
    have hone : Machine.exec step s [a] = some t := by rw [Machine.exec_cons, ht]; rfl
    have hstep := (h [] s List.nil_prefix rfl).progress_step ht
    have hmore := ih (h.after List.prefix_rfl hone) hrest
      (hn.trans (effect_step ht).1.length_le)
    have hbudget : UPLOAD_BUDGET * (as.countP Action.isGet + if a.isGet = true then 1 else 0) =
        UPLOAD_BUDGET * as.countP Action.isGet + if a.isGet = true then UPLOAD_BUDGET else 0 := by
      rw [Nat.mul_add, apply_ite (UPLOAD_BUDGET * ·), Nat.mul_one, Nat.mul_zero]
    rw [List.countP_cons, hbudget]
    omega

end Step

/-! ### Whole runs -/

variable [DecidableEq π]

/-- Where no result is dropped, finished results are uploaded by the calls that follow. -/
theorem prompt_of_throughout {as : List (Action π ι)}
    (h : Machine.Throughout step Answered ({} : IconCache π ι) as) : Prompt as := by
  intro pre post s₀ s hpre hrun hpost hidle
  have hprogress := progress_run (h.after hpre hrun) hpost le_rfl
  have hheld : s.held = [] := by rw [held, hidle]
  unfold progress at hprogress
  rw [hheld] at hprogress
  simp only [List.length_nil] at hprogress
  omega

/-- **Every request is answered, and in time, exactly in the runs whose steps are orderly.** -/
theorem served_iff {as : List (Action π ι)} {s : IconCache π ι}
    (hrun : Machine.exec step {} as = some s) :
    (Machine.Throughout step Answered ({} : IconCache π ι) as ∧ Prompt as) ↔
      Machine.Along step Orderly ({} : IconCache π ι) as := by
  have hstart : Answered ({} : IconCache π ι) :=
    ⟨rfl, fun _ => by simp [awaited, held], List.nodup_nil, rfl⟩
  have hiff := Machine.throughout_iff_along (I := fun _ => True) (fun _ _ _ _ _ => trivial)
    (fun s a s' _ h hs => answered_step_iff h hs) trivial hstart hrun
  rw [← hiff]
  exact and_iff_left_of_imp prompt_of_throughout

/-! ### More results than one call uploads -/

/-- So many icons are requested, of paths named by numbers. -/
def requested (n : ℕ) : List (Action ℕ Unit) :=
  (List.range n).flatMap fun path => [.get path true, .drain [], .lookup true]

/-- So many are extracted. -/
def extracted (n : ℕ) : List (Action ℕ Unit) :=
  (List.replicate n [.receive, .finish (some ())]).flatten

/-- Eight icons are extracted and uploaded by two calls. -/
def uploadedInTurn : List (Action ℕ Unit) :=
  requested 8 ++ extracted 8 ++
    [.get 0 true, .drain [], .lookup true, .get 0 true, .drain [], .lookup true]

theorem served_iff_uploadedInTurn :
    (∃ s ∈ Machine.exec step {} uploadedInTurn, s.uploads.length = 8 ∧ s.queued = ∅) ∧
      Machine.Throughout step Answered {} uploadedInTurn ∧ Prompt uploadedInTurn := by
  have hrun : Machine.exec step {} uploadedInTurn =
      some ((Machine.exec step {} uploadedInTurn).get (by decide +kernel)) :=
    (Option.some_get _).symm
  exact ⟨by decide +kernel, (served_iff hrun).mpr (by decide +kernel)⟩

/-- The eighth is finished while the other seven are being uploaded. -/
def overwritten : List (Action ℕ Unit) :=
  requested 8 ++ extracted 7 ++ [.receive, .get 0 true, .finish (some ()), .drain []]

/-- An icon is requested while no worker can be started, and again once one can. -/
def blocked : List (Action ℕ Unit) :=
  [.get 0 false, .drain [], .lookup true, .get 0 true, .drain [], .lookup true]

/-- The eighth icon is lost, and the one requested too early never reaches the worker. -/
theorem not_answered_overwritten :
    (∃ s ∈ Machine.exec step {} overwritten, 7 ∈ s.queued ∧ ¬ s.Answered) ∧
      (∃ s ∈ Machine.exec step {} blocked, 0 ∈ s.queued ∧ s.inFlight = 0 ∧ ¬ s.Answered) := by
  have hlost : ∃ s ∈ Machine.exec step {} overwritten, 7 ∈ s.queued ∧ 7 ∉ s.awaited := by
    decide +kernel
  have hunsent : ∃ s ∈ Machine.exec step {} blocked,
      0 ∈ s.queued ∧ s.inFlight = 0 ∧ 0 ∉ s.awaited := by
    decide +kernel
  constructor
  · obtain ⟨s, hs, hqueued, hawaited⟩ := hlost
    exact ⟨s, hs, hqueued, fun h => hawaited ((h.queued 7).mp hqueued)⟩
  · obtain ⟨s, hs, hqueued, hinFlight, hawaited⟩ := hunsent
    exact ⟨s, hs, hqueued, hinFlight, fun h => hawaited ((h.queued 0).mp hqueued)⟩

end IconCache

end Taskman
