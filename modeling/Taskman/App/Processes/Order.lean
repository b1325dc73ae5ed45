import Taskman.App.Processes.Page

/-!
# The page does not depend on enumeration order

Processes are listed in whatever order the operating system enumerates them, and the hash tables
used on the way iterate in whatever order their seeds give.  Creation time and pid order the
processes, and every walk over a hash table comes to one result.

* `Processes.byCreation_eq` : **two enumerations of the same processes sort to one list**;
* `Processes.enumeration_order_irrelevant` : **the page is the same for both, under every order of
  iteration**.
-/

namespace Taskman

namespace Processes

/-! ### Enumeration -/

instance : Std.TransCmp creationOrder :=
  inferInstanceAs (Std.TransCmp (compareLex (compareOn ProcessEntry.startEpochS)
    (compareOn ProcessEntry.pid)))

theorem pid_eq_of_creationOrder {a b : ProcessEntry} (h : creationOrder a b = .eq) :
    a.pid = b.pid := by
  have hpid : compare a.pid b.pid = .eq := (compareLex_eq_eq.mp h).2
  exact compare_eq_iff_eq.mp hpid

/-- **Two enumerations of the same processes sort to one list.** -/
theorem byCreation_eq {snap snap' : Snapshot} (hperm : snap.processes.Perm snap'.processes)
    (h : Distinct snap.processes) : byCreation snap = byCreation snap' :=
  sortBy_eq_of_perm hperm fun _ ha _ hb heq =>
    Multimap.eq_of_key h ha hb (pid_eq_of_creationOrder heq)

/-! ### Iteration -/

theorem pageInput_congr (hash hash' : PageHash) {snap snap' : Snapshot}
    (hperm : snap.processes.Perm snap'.processes) (h : Distinct snap.processes) (sortCol : ℕ)
    (ascending : Bool) :
    pageInput hash snap sortCol ascending = pageInput hash' snap' sortCol ascending := by
  dsimp only [pageInput]
  rw [byCreation_eq hperm h, deriveDisplayGroups_congr hash hash']

theorem treeTables_congr (hash hash' : PageHash) (roots : List ProcessEntry)
    (children : Multimap ℕ ProcessEntry) :
    treeTables hash roots children = treeTables hash' roots children := by
  have hvalues : ∀ root, treeValues hash root (treeGroupMembers root children) =
      treeValues hash' root (treeGroupMembers root children) := by
    intro root
    rw [treeValues, treeValues, familyValues_eq hash hash']
  simp only [treeTables, hvalues]

theorem representedValues_congr (hash hash' : PageHash) (members : List ProcessEntry)
    (table : FamilyTable) :
    representedValues hash members table = representedValues hash' members table := by
  have hvalues : ∀ p, represented hash table p = represented hash' table p := by
    intro p
    rw [represented, represented]
    cases table.heads p.pid with
    | none => rfl
    | some fam =>
      dsimp only
      rw [familyValues_eq hash hash']
  simp only [representedValues, hvalues]

/-- The rows of a section do not depend on the orders of iteration. -/
theorem emitSection_congr (host : PageHost) (hash hash' : PageHash) {x : PageInput}
    (h : Distinct x.all) (expanded : Finset ℕ) (cat : ProcCategory) :
    emitSection host hash x expanded cat = emitSection host hash' x expanded cat := by
  unfold emitSection
  by_cases hcat : cat = .app
  · rw [if_pos hcat, if_pos hcat]
    dsimp only [emitTree]
    rw [treeTables_congr hash hash']
  · rw [if_neg hcat, if_neg hcat]
    dsimp only [emitFlatWithFamilyGroups]
    have htable : familyTable host hash (x.members cat) (x.children cat) =
        familyTable host hash' (x.members cat) (x.children cat) :=
      familyTable_congr (distinct_members h cat) hash hash'
    rw [htable, representedValues_congr hash hash']

/-- **The page is the same for every enumeration of the processes and under every order of
iteration.** -/
theorem enumeration_order_irrelevant (host : PageHost) (hash hash' : PageHash)
    {snap snap' : Snapshot} (hperm : snap.processes.Perm snap'.processes)
    (h : Distinct snap.processes) (rawSearch : Text) (sortCol : ℕ) (ascending : Bool)
    (expanded : Finset ℕ) (groupCollapsed : ℕ → Bool) :
    buildDisplayRows host hash snap rawSearch sortCol ascending expanded groupCollapsed =
      buildDisplayRows host hash' snap' rawSearch sortCol ascending expanded groupCollapsed := by
  have hall : Distinct (pageInput hash' snap' sortCol ascending).all :=
    distinct_byCreation ((hperm.map ProcessEntry.pid).nodup_iff.mp h)
  have hsections : sectionRows host hash (pageInput hash snap sortCol ascending) expanded
      groupCollapsed = sectionRows host hash' (pageInput hash' snap' sortCol ascending) expanded
        groupCollapsed := by
    rw [pageInput_congr hash hash' hperm h]
    simp only [sectionRows, emitSection_congr host hash hash' hall]
  have hmatches : ∀ q, searchMatches host snap q sortCol ascending =
      searchMatches host snap' q sortCol ascending := by
    intro q
    dsimp only [searchMatches]
    rw [byCreation_eq hperm h]
  dsimp only [buildDisplayRows]
  rw [hsections, hmatches]

/-- Two enumerations of an application with two helpers and two runs of one tool. -/
theorem enumeration_order_irrelevant_example :
    let app : ProcessEntry := { pid := 1, name := "app.exe".toList, hasWindow := true }
    let helper : ProcessEntry := { pid := 2, ppid := some 1, name := "helper.exe".toList }
    let tool : ProcessEntry :=
      { pid := 3, ppid := some 9, name := "tool.exe".toList, category := .background }
    let tool' : ProcessEntry := { tool with pid := 4 }
    buildDisplayRows asciiHost insertedHash { processes := [app, helper, tool, tool'] } [] 2 false
        {1} (fun _ => false) =
      buildDisplayRows asciiHost reversedHash { processes := [tool', tool, helper, app] } [] 2 false
        {1} fun _ => false := by
  intro app helper tool tool'
  exact enumeration_order_irrelevant asciiHost insertedHash reversedHash
    (List.reverse_perm [app, helper, tool, tool']).symm (by decide) [] 2 false {1} fun _ => false

end Processes

end Taskman
