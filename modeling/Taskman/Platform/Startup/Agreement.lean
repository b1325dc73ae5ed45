import Taskman.Platform.Startup.Windows

/-!
# The startup toggle and the list on Windows

A section of the list is one Run key or one folder, and has an approval key of its own.  An item of
the list is a name of one section, and its id names both.

* `WinStartup.Section` : the five sections;
* `WinStartup.mem_listStartup_iff` : **what the list shows**;
* `WinStartup.target_id` : the toggle of an item writes under the item's name to the approval key of
  its section;
* `WinStartup.toggle_agrees_iff` : **the toggle and the list agree with the registry exactly while
  the walks over the keys get to every entry that matters, under the spelling of its item**.
-/

namespace Taskman

namespace WinStartup

variable {fold : RegName → RegName}

/-! ### Sections -/

/-- One Run key or one startup folder. -/
inductive Section where
  | run (loc : RunLocation)
  | folder (scope : FolderScope)
  deriving DecidableEq

/-- All sections of the list. -/
def sections : List Section :=
  LOCATIONS.map .run ++ [FolderScope.user, FolderScope.common].map .folder

namespace Section

/-- What the ids of a section have in front of the name. -/
def tag : Section → Text
  | .run _ => []
  | .folder _ => FOLDER_TAG

/-- The hive of a section. -/
def hive : Section → Hive
  | .run loc => loc.hive
  | .folder scope => scope.hive

/-- The path of the approval key. -/
def path : Section → Text
  | .run loc => approvedPath loc.approvedSubkey
  | .folder _ => approvedPath FOLDER_SUBKEY

/-- The label of a section. -/
def label : Section → Text
  | .run loc => loc.label
  | .folder scope => startupFolderLabel scope

/-- The name of a file as the name of a value. -/
def ofFile (f : FileName) : RegName := ⟨f.val, f.property.2⟩

variable (host : StartupHost) (reg : Registry fold)

/-- The directory of a folder. -/
def dir (scope : FolderScope) : Text := (host.dirPath scope).getD []

/-- The names of the items. -/
def names : Section → List RegName
  | .run loc => ((reg loc.hive loc.subkey).map RegKey.enumerated).getD []
  | .folder scope =>
    ((host.dirPath scope).bind fun dir => (host.readDir dir).map fun files =>
      (files.filter isStartupFile).map ofFile).getD []

/-- The id of the item with a name. -/
def id : Section → RegName → Text
  | .run loc, n => REG_PREFIX ++ (loc.label ++ ':' :: n.val)
  | .folder scope, n =>
    FOLDER_PREFIX ++ (scope.display ++ ':' :: (dir host scope ++ '\\' :: n.val))

/-- The name shown for a name. -/
def shownName : Section → RegName → Text
  | .run _, n => n.val
  | .folder _, n => fileStem n.val

/-- The command of an entry of a section. -/
def command : Section → RegName → Text
  | .run loc, n => valueText ((reg loc.hive loc.subkey).bind fun key => key.query n.val)
  | .folder scope, n => dir host scope ++ '\\' :: n.val

/-- The approvals of a section; a key that does not exist has none. -/
def approvals (s : Section) : RegKey fold := (reg s.hive s.path).getD .empty

/-- The item with a name. -/
def item (s : Section) (n : RegName) (enabled : Bool) : StartupItem :=
  newItem host (s.id host n) (s.shownName n) (s.command host reg n) s.label enabled

theorem toggled_item (s : Section) (n : RegName) (shown : Bool) (id : Text) (enabled : Bool) :
    (s.item host reg n shown).toggled id enabled =
      s.item host reg n (if s.id host n = id then enabled else shown) := by
  unfold StartupItem.toggled
  by_cases h : s.id host n = id
  · rw [if_pos h, if_pos (show (s.item host reg n shown).id = id from h)]
    rfl
  · rw [if_neg h, if_neg (show ¬(s.item host reg n shown).id = id from h)]

/-- The items of a section. -/
def items (s : Section) : List StartupItem :=
  (s.names host reg).map fun n => s.item host reg n (RegKey.showsEnabled (s.approvals reg) n)

theorem approvalSaysEnabled_readRegistryBinary (s : Section) (n : RegName) :
    approvalSaysEnabled (readRegistryBinary (reg s.hive s.path) n.val) =
      RegKey.showsEnabled (s.approvals reg) n := by
  rw [approvals, RegKey.showsEnabled]
  cases reg s.hive s.path with
  | none => rfl
  | some key => rfl

theorem items_run (loc : RunLocation) :
    (Section.run loc).items host reg = runItems host reg loc := by
  have hshown := approvalSaysEnabled_readRegistryBinary reg (.run loc)
  rw [items, runItems, names]
  cases hkey : reg loc.hive loc.subkey with
  | none => rfl
  | some key =>
    rw [Option.map_some, Option.getD_some, readRegistryValues, List.map_map]
    refine List.map_congr_left fun n _ => ?_
    rw [item, ← hshown]
    simp only [id, shownName, command, label, hive, path, hkey, Option.bind_some,
      Function.comp_apply]

theorem items_folder (scope : FolderScope) :
    (Section.folder scope).items host reg = folderItems host reg scope := by
  have hshown := approvalSaysEnabled_readRegistryBinary reg (.folder scope)
  rw [items, folderItems, names]
  cases hdir : host.dirPath scope with
  | none => rfl
  | some place =>
    cases hfiles : host.readDir place with
    | none => simp only [Option.bind_some, hfiles, Option.map_none, Option.getD_none, List.map_nil]
    | some files =>
      simp only [Option.bind_some, hfiles, Option.map_some, Option.getD_some, List.map_map]
      refine List.map_congr_left fun f _ => ?_
      rw [Function.comp_apply, item, ← hshown]
      simp only [id, shownName, command, label, hive, path, dir, hdir, ofFile, Option.getD_some]

end Section

section

variable (host : StartupHost) (reg : Registry fold)

theorem listStartup_eq :
    listStartup host reg =
      sortBy (nameOrder host) (sections.flatMap fun s => s.items host reg) := by
  have hrun : (fun loc => (Section.run loc).items host reg) = runItems host reg := by
    funext loc
    exact Section.items_run host reg loc
  have hfolder : (fun scope => (Section.folder scope).items host reg) = folderItems host reg := by
    funext scope
    exact Section.items_folder host reg scope
  rw [listStartup, sections, List.flatMap_append, List.flatMap_map, List.flatMap_map, hrun, hfolder]

/-- **What the list shows.** -/
theorem mem_listStartup_iff {item : StartupItem} :
    item ∈ listStartup host reg ↔ ∃ s ∈ sections, ∃ n ∈ s.names host reg,
      s.item host reg n (RegKey.showsEnabled (s.approvals reg) n) = item := by
  simp [listStartup_eq, Section.items]

end

/-! ### Ids -/

theorem mem_LOCATIONS_of_mem_sections {loc : RunLocation} (h : Section.run loc ∈ sections) :
    loc ∈ LOCATIONS := by
  rw [sections, List.mem_append] at h
  rcases h with h | h
  · obtain ⟨l, hl, heq⟩ := List.mem_map.mp h
    exact Section.run.inj heq ▸ hl
  · obtain ⟨scope, -, heq⟩ := List.mem_map.mp h
    cases heq

theorem stripPrefix_reg_folder (rest : Text) :
    Text.stripPrefix (FOLDER_PREFIX ++ rest) REG_PREFIX = none := by
  rw [Option.eq_none_iff_forall_ne_some]
  intro r h
  have hhead := congrArg List.head? (Text.stripPrefix_eq_some_iff.mp h)
  have hf : FOLDER_PREFIX.head? = some 'f' := by decide
  have hr : REG_PREFIX.head? = some 'r' := by decide
  rw [List.head?_append, List.head?_append, hf, hr, Option.some_or, Option.some_or] at hhead
  exact absurd hhead (by decide)

/-- **No two entries of the tables share what they are looked up by.** -/
theorem tables_apart :
    (∀ s ∈ sections, ∀ s' ∈ sections,
      (s.hive = s'.hive ∧ s.path = s'.path) ∨ s.label = s'.label → s = s') ∧
    (∀ s ∈ sections, ∀ loc ∈ LOCATIONS, ¬(loc.hive = s.hive ∧ loc.subkey = s.path)) ∧
    (∀ loc ∈ LOCATIONS,
      LOCATIONS.find? (fun l => l.label = loc.label) = some loc ∧ ':' ∉ loc.label) ∧
    ∀ scope ∈ [FolderScope.user, FolderScope.common],
      [FolderScope.user, FolderScope.common].find? (fun s => s.display = scope.display) =
        some scope ∧ ':' ∉ scope.display := by
  decide +kernel

theorem sections_slot_inj {s s' : Section} (hs : s ∈ sections) (hs' : s' ∈ sections)
    (hhive : s.hive = s'.hive) (hpath : s.path = s'.path) : s = s' :=
  tables_apart.1 s hs s' hs' (Or.inl ⟨hhive, hpath⟩)

theorem sections_label_inj {s s' : Section} (hs : s ∈ sections) (hs' : s' ∈ sections)
    (hlabel : s.label = s'.label) : s = s' :=
  tables_apart.1 s hs s' hs' (Or.inr hlabel)

theorem sections_path_ne :
    ∀ s ∈ sections, ∀ loc ∈ LOCATIONS, ¬(loc.hive = s.hive ∧ loc.subkey = s.path) :=
  tables_apart.2.1

theorem find?_label : ∀ loc ∈ LOCATIONS, LOCATIONS.find? (fun l => l.label = loc.label) = some loc ∧
    ':' ∉ loc.label :=
  tables_apart.2.2.1

theorem find?_display (scope : FolderScope) :
    [FolderScope.user, FolderScope.common].find? (fun s => s.display = scope.display) = some scope ∧
      ':' ∉ scope.display :=
  tables_apart.2.2.2 scope (by cases scope <;> simp)

theorem lastComponent_append {name : Text} (h : '\\' ∉ name) (dir : Text) :
    lastComponent (dir ++ '\\' :: name) = name := by
  rw [lastComponent, Text.rsplitOnce_append_cons dir h]

theorem ne_nil_of_isStartupFile {f : FileName} (h : isStartupFile f) : f.val ≠ [] := by
  intro hnil
  rw [isStartupFile, hnil] at h
  revert h
  decide

/-- **The toggle of an item writes under its name to the approval key of its section.** -/
theorem target_id (host : StartupHost) (reg : Registry fold) {s : Section} (hs : s ∈ sections)
    {n : RegName} (hn : n ∈ s.names host reg) :
    target (s.id host n) = .ok ⟨s.tag, s.hive, s.path, n.val⟩ := by
  cases s with
  | run loc =>
    obtain ⟨hfind, hcolon⟩ := find?_label loc (mem_LOCATIONS_of_mem_sections hs)
    simp only [target, Section.id, Text.stripPrefix_append, regTarget,
      Text.splitOnce_append_cons hcolon, hfind, Section.tag, Section.hive, Section.path]
  | folder scope =>
    obtain ⟨hfind, hcolon⟩ := find?_display scope
    have hfile : ∃ f, isStartupFile f ∧ Section.ofFile f = n := by
      rw [Section.names] at hn
      cases hdir : host.dirPath scope with
      | none => simp [hdir] at hn
      | some dir =>
        cases hfiles : host.readDir dir with
        | none => simp [hdir, hfiles] at hn
        | some files =>
          simp only [hdir, hfiles, Option.bind_some, Option.map_some, Option.getD_some] at hn
          obtain ⟨f, hf, rfl⟩ := List.mem_map.mp hn
          exact ⟨f, (List.mem_filter.mp hf).2, rfl⟩
    obtain ⟨f, hf, rfl⟩ := hfile
    have hlast := lastComponent_append f.property.1 (Section.dir host scope)
    have hne := ne_nil_of_isStartupFile hf
    have hnonempty : f.val.isEmpty = false := List.isEmpty_eq_false_iff.mpr hne
    simp only [target, Section.id, stripPrefix_reg_folder, Text.stripPrefix_append, folderTarget,
      Text.splitOnce_append_cons hcolon, hfind, Section.ofFile, hlast, hnonempty, Section.tag,
      Section.hive, Section.path, Bool.false_eq_true, if_false]

theorem id_inj (host : StartupHost) (reg : Registry fold) {s s' : Section} (hs : s ∈ sections)
    (hs' : s' ∈ sections) {n n' : RegName} (hn : n ∈ s.names host reg)
    (hn' : n' ∈ s'.names host reg) (h : s.id host n = s'.id host n') : s = s' ∧ n = n' := by
  have htarget := target_id host reg hs hn
  rw [h, target_id host reg hs' hn', Except.ok.injEq, Target.mk.injEq] at htarget
  obtain ⟨-, hhive, hpath, hname⟩ := htarget
  exact ⟨(sections_slot_inj hs' hs hhive hpath).symm, Subtype.ext hname.symm⟩

/-! ### The toggle -/

/-- The value that disables an item. -/
def disabledApproval (time : Option ℕ) : RegValue := ⟨REG_BINARY, disabledApprovalBlob time⟩

theorem disabledApproval_small (time : Option ℕ) :
    (disabledApproval time).data.length ≤ DATA_BUFFER := by
  simp [disabledApproval, disabledApprovalBlob, DATA_BUFFER]

theorem disabledApproval_disables (time : Option ℕ) :
    approvalSaysEnabled (some (disabledApproval time).data) = false := by
  rfl

/-- An approval key once an item is enabled or disabled. -/
def RegKey.approve (key : RegKey fold) (time : Option ℕ) (n : RegName) (enabled : Bool) :
    RegKey fold :=
  if enabled then key.erase n else key.insert n (disabledApproval time)

theorem setStartupEnabled_eq (host : StartupHost) (reg : Registry fold) {s : Section}
    (hs : s ∈ sections) {n : RegName} (hn : n ∈ s.names host reg) {faults : Faults}
    {time : Option ℕ} {enabled : Bool}
    (hok : (setStartupEnabled faults time (s.id host n) enabled reg).1 = .ok ()) :
    (setStartupEnabled faults time (s.id host n) enabled reg).2 =
      reg.put s.hive s.path (RegKey.approve (s.approvals reg) time n enabled) := by
  have hname := wstr_val n
  simp only [setStartupEnabled, target_id host reg hs hn, writeApproval, hname] at hok ⊢
  cases hcreate : faults.create with
  | some f => simp [hcreate] at hok
  | none =>
    simp only [hcreate] at hok ⊢
    cases enabled with
    | true =>
      cases hdelete : faults.delete with
      | some f => simp [hdelete] at hok
      | none => rfl
    | false =>
      cases hset : faults.set with
      | some f => simp [hset] at hok
      | none => rfl

theorem setStartupEnabled_ok (host : StartupHost) (reg : Registry fold) {s : Section}
    (hs : s ∈ sections) {n : RegName} (hn : n ∈ s.names host reg) (time : Option ℕ)
    (enabled : Bool) : (setStartupEnabled {} time (s.id host n) enabled reg).1 = .ok () := by
  simp only [setStartupEnabled, target_id host reg hs hn, writeApproval]
  cases enabled <;> rfl

section

variable (host : StartupHost) (reg : Registry fold) {s s' : Section} (hs : s ∈ sections)
  (hs' : s' ∈ sections) (key : RegKey fold)

include hs in
theorem put_run {loc : RunLocation} (hloc : loc ∈ LOCATIONS) :
    reg.put s.hive s.path key loc.hive loc.subkey = reg loc.hive loc.subkey :=
  if_neg (sections_path_ne s hs loc hloc)

include hs hs' in
theorem names_put : s'.names host (reg.put s.hive s.path key) = s'.names host reg := by
  cases s' with
  | run loc =>
    rw [Section.names, Section.names, put_run reg hs key (mem_LOCATIONS_of_mem_sections hs')]
  | folder scope => rfl

include hs hs' in
theorem item_put (n : RegName) (enabled : Bool) :
    s'.item host (reg.put s.hive s.path key) n enabled = s'.item host reg n enabled := by
  cases s' with
  | run loc =>
    simp only [Section.item, Section.command,
      put_run reg hs key (mem_LOCATIONS_of_mem_sections hs')]
  | folder scope => rfl

theorem approvals_put_self : s.approvals (reg.put s.hive s.path key) = key := by
  simp [Section.approvals, Registry.put]

include hs hs' in
theorem approvals_put_of_ne (hne : s' ≠ s) :
    s'.approvals (reg.put s.hive s.path key) = s'.approvals reg := by
  have hslot : ¬(s'.hive = s.hive ∧ s'.path = s.path) :=
    fun h => hne (sections_slot_inj hs' hs h.1 h.2)
  rw [Section.approvals, Registry.put, if_neg hslot, Section.approvals]

end

/-- A toggle is seen by its own item and by no other one. -/
theorem items_approve (host : StartupHost) (reg : Registry fold)
    (hreach : ∀ s ∈ sections, ∀ n ∈ s.names host reg, RegKey.Reachable (s.approvals reg) n)
    {s s' : Section} (hs : s ∈ sections) (hs' : s' ∈ sections) {n : RegName}
    (hn : n ∈ s.names host reg) (time : Option ℕ) (enabled : Bool) :
    s'.items host (reg.put s.hive s.path (RegKey.approve (s.approvals reg) time n enabled)) =
      (s'.items host reg).map (StartupItem.toggled (s.id host n) enabled) := by
  rw [Section.items, Section.items, names_put host reg hs hs', List.map_map]
  refine List.map_congr_left fun m hm => ?_
  rw [Function.comp_apply, item_put host reg hs hs', Section.toggled_item]
  by_cases hsame : s'.id host m = s.id host n
  · obtain ⟨rfl, rfl⟩ := id_inj host reg hs' hs hm hn hsame
    have hshown : RegKey.showsEnabled (RegKey.approve (s'.approvals reg) time m enabled) m =
        enabled := by
      cases enabled with
      | true => exact RegKey.showsEnabled_erase_self _ m
      | false =>
        exact (RegKey.reachable_iff _ (disabledApproval_small time)
          (disabledApproval_disables time)).mp (hreach s' hs' m hm)
    rw [approvals_put_self, hshown, if_pos rfl]
  · have hkept : RegKey.showsEnabled (s'.approvals
        (reg.put s.hive s.path (RegKey.approve (s.approvals reg) time n enabled))) m =
          RegKey.showsEnabled (s'.approvals reg) m := by
      by_cases hsec : s' = s
      · subst hsec
        have hne : m ≠ n := fun h => hsame (h ▸ rfl)
        rw [approvals_put_self]
        cases enabled with
        | true =>
          exact RegKey.showsEnabled_erase_of_ne _ (hreach s' hs n hn) (hreach s' hs' m hm) hne
        | false => exact RegKey.showsEnabled_insert_of_ne _ (hreach s' hs n hn) hne _
      · rw [approvals_put_of_ne reg hs hs' _ hsec]
    rw [hkept, if_neg hsame]

/-- **A toggle of a reachable item changes that item in the list, and nothing else.** -/
theorem listStartup_toggled (host : StartupHost) (reg : Registry fold)
    (hreach : ∀ s ∈ sections, ∀ n ∈ s.names host reg, RegKey.Reachable (s.approvals reg) n)
    {s : Section} (hs : s ∈ sections) {n : RegName} (hn : n ∈ s.names host reg)
    {faults : Faults} {time : Option ℕ} {enabled : Bool}
    (hok : (setStartupEnabled faults time (s.id host n) enabled reg).1 = .ok ()) :
    listStartup host (setStartupEnabled faults time (s.id host n) enabled reg).2 =
      (listStartup host reg).map (StartupItem.toggled (s.id host n) enabled) := by
  have horder : (fun a b => nameOrder host (StartupItem.toggled (s.id host n) enabled a)
      (StartupItem.toggled (s.id host n) enabled b)) = nameOrder host := by
    funext a b
    simp [nameOrder]
  have hsort := map_sortBy (StartupItem.toggled (s.id host n) enabled) (nameOrder host)
    (sections.flatMap fun s => s.items host reg)
  rw [horder] at hsort
  rw [setStartupEnabled_eq host reg hs hn hok, listStartup_eq, listStartup_eq, hsort,
    List.map_flatMap]
  exact congrArg _ (List.flatMap_congr fun s' hs' => items_approve host reg hreach hs hs' hn time _)

/-! ### Agreement with the registry -/

/-- The toggle does what it reports, and the list shows what the registry says. -/
structure Agrees (host : StartupHost) (reg : Registry fold) : Prop where
  toggled : ∀ item ∈ listStartup host reg, ∀ faults time enabled,
    (setStartupEnabled faults time item.id enabled reg).1 = .ok () →
      listStartup host (setStartupEnabled faults time item.id enabled reg).2 =
        (listStartup host reg).map (StartupItem.toggled item.id enabled)
  shown : ∀ loc ∈ LOCATIONS, ∀ key, reg loc.hive loc.subkey = some key →
    ∀ e ∈ key.entries, e.2.isText → ∃ item ∈ listStartup host reg,
      item.location = loc.label ∧ item.name = e.1.val ∧
        (item.enabled = false ↔
          RegKey.saysEnabled ((Section.run loc).approvals reg) e.1 = false)

/-- The walks over the keys get to every entry that matters, under the spelling of its item. -/
structure Walked (host : StartupHost) (reg : Registry fold) : Prop where
  /-- Every text value of a Run key is listed. -/
  listed : ∀ loc ∈ LOCATIONS, ∀ key, reg loc.hive loc.subkey = some key →
    ∀ e ∈ key.entries, e.2.isText → RegKey.Listed key e.1
  /-- The approval of every item has the item's spelling and is listed, or there is none and room
  for one. -/
  reachable : ∀ s ∈ sections, ∀ n ∈ s.names host reg, RegKey.Reachable (s.approvals reg) n
  /-- No approval disables a text value with more data than are read. -/
  small : ∀ loc ∈ LOCATIONS, ∀ key, reg loc.hive loc.subkey = some key →
    ∀ e ∈ key.entries, e.2.isText →
      ∀ a, ((Section.run loc).approvals reg).find? e.1 = some a →
        approvalSaysEnabled (some a.2.data) = false → a.2.data.length ≤ DATA_BUFFER

theorem run_mem_sections {loc : RunLocation} (h : loc ∈ LOCATIONS) : Section.run loc ∈ sections :=
  List.mem_append_left _ (List.mem_map_of_mem h)

theorem names_run {reg : Registry fold} {loc : RunLocation} {key : RegKey fold}
    (h : reg loc.hive loc.subkey = some key) (host : StartupHost) (n : RegName) :
    n ∈ (Section.run loc).names host reg ↔ RegKey.Listed key n := by
  rw [Section.names, h, Option.map_some, Option.getD_some, RegKey.mem_enumerated_iff]

section

variable {host : StartupHost} {reg : Registry fold}

/-- A toggle that is seen went to a reachable entry. -/
theorem Agrees.reachable (h : Agrees host reg) {s : Section} (hs : s ∈ sections) {n : RegName}
    (hn : n ∈ s.names host reg) : RegKey.Reachable (s.approvals reg) n := by
  have hmem := (mem_listStartup_iff host reg).mpr ⟨s, hs, n, hn, rfl⟩
  have hok := setStartupEnabled_ok host reg hs hn none false
  have hlist : listStartup host (setStartupEnabled {} none (s.id host n) false reg).2 =
      (listStartup host reg).map (StartupItem.toggled (s.id host n) false) :=
    h.toggled _ hmem {} none false hok
  have hnext := List.mem_map_of_mem (f := StartupItem.toggled (s.id host n) false) hmem
  rw [← hlist, setStartupEnabled_eq host reg hs hn hok, mem_listStartup_iff] at hnext
  obtain ⟨s', hs', m, hm, heq⟩ := hnext
  rw [names_put host reg hs hs'] at hm
  rw [item_put host reg hs hs', Section.toggled_item, if_pos rfl] at heq
  obtain ⟨rfl, rfl⟩ := id_inj host reg hs' hs hm hn (congrArg StartupItem.id heq)
  have hshown := congrArg StartupItem.enabled heq
  rw [approvals_put_self] at hshown
  exact (RegKey.reachable_iff _ (disabledApproval_small none)
    (disabledApproval_disables none)).mpr hshown

/-- The item that shows a text value. -/
theorem Agrees.run_item (h : Agrees host reg) {loc : RunLocation} (hloc : loc ∈ LOCATIONS)
    {key : RegKey fold} (hkey : reg loc.hive loc.subkey = some key) {e : RegName × RegValue}
    (he : e ∈ key.entries) (htext : e.2.isText) :
    e.1 ∈ (Section.run loc).names host reg ∧
      RegKey.showsEnabled ((Section.run loc).approvals reg) e.1 =
        RegKey.saysEnabled ((Section.run loc).approvals reg) e.1 := by
  obtain ⟨item, hitem, hlocation, hname, henabled⟩ := h.shown loc hloc key hkey e he htext
  obtain ⟨s, hs, n, hn, rfl⟩ := (mem_listStartup_iff host reg).mp hitem
  obtain rfl := sections_label_inj hs (run_mem_sections hloc) hlocation
  obtain rfl : n = e.1 := Subtype.ext hname
  exact ⟨hn, Bool.eq_iff_iff.mpr (by simpa [Section.item, newItem] using not_congr henabled)⟩

/-- **The toggle and the list agree with the registry exactly while the walks over the keys get to
every entry that matters, under the spelling of its item.** -/
theorem toggle_agrees_iff (host : StartupHost) (reg : Registry fold) :
    Agrees host reg ↔ Walked host reg := by
  constructor
  · intro h
    have hreach : ∀ s ∈ sections, ∀ n ∈ s.names host reg, RegKey.Reachable (s.approvals reg) n :=
      fun s hs n hn => h.reachable hs hn
    refine ⟨?_, hreach, ?_⟩
    · intro loc hloc key hkey e he htext
      exact (names_run hkey host e.1).mp (h.run_item hloc hkey he htext).1
    · intro loc hloc key hkey e he htext
      obtain ⟨hmem, hshown⟩ := h.run_item hloc hkey he htext
      have hr := hreach _ (run_mem_sections hloc) e.1 hmem
      exact (RegKey.Reachable.showsEnabled_eq_iff _ hr).mp hshown
  · intro h
    constructor
    · intro item hitem faults time enabled hok
      obtain ⟨s, hs, n, hn, rfl⟩ := (mem_listStartup_iff host reg).mp hitem
      exact listStartup_toggled host reg h.reachable hs hn hok
    · intro loc hloc key hkey e he htext
      have hsec := run_mem_sections hloc
      have hmem := (names_run hkey host e.1).mpr (h.listed loc hloc key hkey e he htext)
      have hr := h.reachable _ hsec e.1 hmem
      have hshown := (RegKey.Reachable.showsEnabled_eq_iff _ hr).mpr
        (h.small loc hloc key hkey e he htext)
      refine ⟨_, (mem_listStartup_iff host reg).mpr ⟨_, hsec, e.1, hmem, rfl⟩, rfl, rfl, ?_⟩
      rw [← hshown]
      rfl

end

/-! ### Two spellings -/

/-- Names compared without regard to the case of ASCII letters. -/
def foldCase (n : RegName) : RegName := wstr (Text.toAsciiLowercase n.val)

/-- A system with no startup folders. -/
def bareHost : StartupHost where
  toLowercase := Text.toAsciiLowercase
  resolvePublisher := fun _ => none
  env := fun _ => none
  readDir := fun _ => none

/-- A Run value whose approval was written under another spelling. -/
def spelledApart : Registry foldCase := fun hive path =>
  if hive = .hkcu ∧ path = RUN_KEY then
    some ⟨[(wstr "Steam".toList, ⟨REG_SZ, []⟩)], List.nodup_singleton _⟩
  else if hive = .hkcu ∧ path = approvedPath "Run".toList then
    some ⟨[(wstr "STEAM".toList, ⟨REG_BINARY, [3]⟩)], List.nodup_singleton _⟩
  else none

/-- The item is shown as enabled although its approval disables it, and disabling it changes nothing
that is shown. -/
theorem disabled_shown_enabled :
    ∃ item ∈ listStartup bareHost spelledApart, item.enabled = true ∧
      (∃ loc ∈ LOCATIONS, item.location = loc.label ∧
        RegKey.saysEnabled ((Section.run loc).approvals spelledApart) (wstr item.name) = false) ∧
      (setStartupEnabled {} none item.id false spelledApart).1 = .ok () ∧
      item ∈ listStartup bareHost (setStartupEnabled {} none item.id false spelledApart).2 := by
  decide +kernel

end WinStartup

end Taskman
