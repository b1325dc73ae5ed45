import Taskman.Platform.Startup.Autostart

/-!
# The autostart toggle does what it reports

When the toggle reports success, is the item then listed as it was asked for?  Unless links lead to
or from the user's file, the files of other names and the system directories are never touched;
what is listed of the item itself depends on the files below the user's.

* `Autostart.hiddenOf_layers` : **the user's file decides, and where it says nothing the files below
  it**;
* `Autostart.file_setEnabled` : what a successful toggle leaves of the user's file;
* `Autostart.setEnabled_of_link` : **disabling a link changes the file it leads to**;
* `Autostart.toggle_right_iff` : **the toggle does what it reports exactly when the files below the
  user's do not hide what it shows**.
-/

namespace Taskman

namespace Autostart

/-! ### The items of the list -/

section Items

variable {toLowercase : Text → Text} {env : Env} {disk disk' : Disk}

instance : Std.TransCmp (nameOrder toLowercase) :=
  inferInstanceAs (Std.TransCmp (compareOn fun a : StartupItem => toLowercase a.name))

theorem fileId_inj {k name : FileName} : fileId k = fileId name ↔ k = name :=
  ⟨fun h => Subtype.ext (List.append_cancel_left h), fun h => h ▸ rfl⟩

/-- The items of the list: one for each name with a file. -/
theorem mem_listAutostart_iff {item : StartupItem} :
    item ∈ listAutostart toLowercase env disk ↔
      ∃ name file, isDesktopName name.val ∧
        stack (layers disk (autostartDirsLowToHigh env) name) = some file ∧
          newItem name file = item := by
  rw [listAutostart, mem_sortBy, List.mem_map]
  constructor
  · rintro ⟨⟨name, file⟩, hmem, rfl⟩
    rw [Std.ExtTreeMap.mem_toList_iff_getElem?_eq_some, getElem?_merged,
      Option.ite_none_right_eq_some] at hmem
    exact ⟨name, file, hmem.1, hmem.2, rfl⟩
  · rintro ⟨name, file, hname, hstack, rfl⟩
    refine ⟨(name, file), ?_, rfl⟩
    rw [Std.ExtTreeMap.mem_toList_iff_getElem?_eq_some, getElem?_merged,
      Option.ite_none_right_eq_some]
    exact ⟨hname, hstack⟩

/-- The list shows an item for the files of a name. -/
def Shown (toLowercase : Text → Text) (env : Env) (disk : Disk) (name : FileName) : Prop :=
  ∃ item ∈ listAutostart toLowercase env disk, item.id = fileId name

instance (name : FileName) : Decidable (Shown toLowercase env disk name) :=
  List.decidableBEx _ _

theorem shown_iff {name : FileName} :
    Shown toLowercase env disk name ↔
      isDesktopName name.val ∧ layers disk (autostartDirsLowToHigh env) name ≠ [] := by
  constructor
  · rintro ⟨item, hitem, hid⟩
    obtain ⟨k, file, hname, hstack, rfl⟩ := mem_listAutostart_iff.mp hitem
    obtain rfl := fileId_inj.mp hid
    refine ⟨hname, fun hnil => ?_⟩
    rw [stack_eq_none_iff.mpr hnil] at hstack
    cases hstack
  · rintro ⟨hname, hne⟩
    obtain ⟨file, hstack⟩ := Option.ne_none_iff_exists'.mp (mt stack_eq_none_iff.mp hne)
    exact ⟨_, mem_listAutostart_iff.mpr ⟨name, file, hname, hstack, rfl⟩, rfl⟩

/-- An item is enabled unless the highest value for `Hidden` says otherwise. -/
theorem enabled_iff {name : FileName} {item : StartupItem}
    (hitem : item ∈ listAutostart toLowercase env disk) (hid : item.id = fileId name) :
    item.enabled = true ↔ hiddenOf (layers disk (autostartDirsLowToHigh env) name) ≠ some true := by
  obtain ⟨k, file, -, hstack, rfl⟩ := mem_listAutostart_iff.mp hitem
  obtain rfl := fileId_inj.mp hid
  rw [← hidden_stack hstack]
  exact decide_eq_true_iff

/-- The items of other names, in their order, are those of other names' files. -/
theorem filter_listAutostart {name : FileName}
    (h : ∀ dir k, k ≠ name → disk'.file dir k = disk.file dir k) :
    (listAutostart toLowercase env disk').filter (fun item => item.id ≠ fileId name) =
      (listAutostart toLowercase env disk).filter fun item => item.id ≠ fileId name := by
  have hmaps : (merged env disk').filter (fun k _ => decide (k ≠ name)) =
      (merged env disk).filter fun k _ => decide (k ≠ name) := by
    refine OrdMap.ext fun k => ?_
    rw [Std.ExtTreeMap.getElem?_filter', Std.ExtTreeMap.getElem?_filter']
    by_cases hk : k = name
    · simp [hk]
    · have hlayers : layers disk' (autostartDirsLowToHigh env) k =
          layers disk (autostartDirsLowToHigh env) k := by
        unfold layers
        simp only [h _ k hk]
      rw [getElem?_merged, getElem?_merged, hlayers]
  have hlists := congrArg (fun m => m.toList.map fun e => newItem e.1 e.2) hmaps
  have hids : ((fun item : StartupItem => decide (item.id ≠ fileId name)) ∘
      fun e : FileName × DesktopFile => newItem e.1 e.2) = fun e => decide (e.1 ≠ name) := by
    funext e
    exact decide_eq_decide.mpr (not_congr fileId_inj)
  rw [listAutostart, listAutostart, filter_sortBy, filter_sortBy, List.filter_map, List.filter_map,
    hids]
  simp only [Std.ExtTreeMap.toList_filter] at hlists
  rw [hlists]

end Items

/-! ### The files below the user's -/

/-- What a file says about `Hidden`. -/
def hiddenIn (text : Option Text) : Option Bool := text.bind fun text => (parseText text).hidden

theorem hidden_parseDesktop (path : Text) (text : Option Text) :
    (parseDesktop path text).hidden = hiddenIn text := by
  cases text <;> rfl

/-- The user's directory, whatever path leads to it. -/
def realUserDir (env : Env) (disk : Disk) : Option Text := (userDir env).map disk.real

/-- What the files of a name outside of the user's directory say. -/
def below (env : Env) (disk : Disk) (name : FileName) : List DesktopFile :=
  layers disk
    ((systemDirs env).reverse.filter fun dir => some (disk.real dir) ≠ realUserDir env disk) name

/-- The user's file of a name. -/
def userFile (env : Env) (disk : Disk) (name : FileName) : Option (Option Text) :=
  (userDir env).bind fun dir => disk.file dir name

section Below

variable {env : Env} {disk : Disk} {name : FileName} {dir : Text}

theorem below_of_userDir (h : userDir env = some dir) :
    below env disk name =
      layers disk ((systemDirs env).reverse.filter fun d => disk.real d ≠ disk.real dir) name := by
  simp only [below, realUserDir, h, Option.map_some, ne_eq, Option.some.injEq]

theorem file_of_real_eq {d : Text} (h : disk.real d = disk.real dir) :
    disk.file d name = disk.file dir name := by
  simp only [Disk.file, Disk.place, h]

theorem userFile_of_userDir (h : userDir env = some dir) :
    userFile env disk name = disk.file dir name := by
  rw [userFile, h, Option.bind_some]

theorem layers_of_userDir (h : userDir env = some dir) :
    layers disk (autostartDirsLowToHigh env) name =
      layers disk (systemDirs env).reverse name ++
        ((userFile env disk name).map (parseDesktop (joinPath dir name.val))).toList := by
  rw [autostartDirsLowToHigh, layers_append, userFile_of_userDir h, h]
  cases hfile : disk.file dir name <;> simp [layers, hfile]

/-- The values for `Hidden`, from low to high. -/
theorem hiddenOf_layers_eq (disk : Disk) (dirs : List Text) (name : FileName) :
    hiddenOf (layers disk dirs name) =
      (dirs.filterMap fun d => (disk.file d name).bind hiddenIn).getLast? := by
  rw [hiddenOf, layers, List.filterMap_filterMap]
  refine congrArg List.getLast? (List.filterMap_congr fun d _ => ?_)
  cases disk.file d name with
  | none => rfl
  | some text => exact hidden_parseDesktop _ text

/-- Without a value in one directory, it does not matter whether that directory is looked at. -/
theorem hiddenOf_layers_filter {dirs : List Text} (h : (disk.file dir name).bind hiddenIn = none) :
    hiddenOf (layers disk (dirs.filter fun d => disk.real d ≠ disk.real dir) name) =
      hiddenOf (layers disk dirs name) := by
  rw [hiddenOf_layers_eq, hiddenOf_layers_eq, List.filterMap_filter]
  refine congrArg List.getLast? (List.filterMap_congr fun d _ => ?_)
  by_cases hd : disk.real d = disk.real dir
  · simp [hd, file_of_real_eq hd, h]
  · simp [hd]

/-- **The user's file decides, and where it says nothing the files below it.** -/
theorem hiddenOf_layers (h : userDir env = some dir) :
    hiddenOf (layers disk (autostartDirsLowToHigh env) name) =
      ((userFile env disk name).bind hiddenIn).or (hiddenOf (below env disk name)) := by
  rw [layers_of_userDir h, below_of_userDir h]
  cases huser : userFile env disk name with
  | none =>
    rw [userFile_of_userDir h] at huser
    rw [hiddenOf_layers_filter (by rw [huser]; rfl)]
    simp
  | some text =>
    rw [Option.map_some, Option.toList_some, hiddenOf_concat, hidden_parseDesktop, Option.bind_some]
    rw [userFile_of_userDir h] at huser
    cases hvalue : hiddenIn text with
    | none => rw [hiddenOf_layers_filter (by rw [huser]; exact hvalue)]
    | some value => rfl

/-- There is an item exactly when there is a file. -/
theorem layers_ne_nil_iff (h : userDir env = some dir) :
    layers disk (autostartDirsLowToHigh env) name ≠ [] ↔
      userFile env disk name ≠ none ∨ below env disk name ≠ [] := by
  rw [layers_of_userDir h, below_of_userDir h]
  cases huser : userFile env disk name with
  | some text => simp
  | none =>
    have hsame : layers disk
        ((systemDirs env).reverse.filter fun d => disk.real d ≠ disk.real dir) name =
          layers disk (systemDirs env).reverse name := by
      rw [userFile_of_userDir h] at huser
      rw [layers, layers, List.filterMap_filter]
      refine List.filterMap_congr fun d _ => ?_
      by_cases hd : disk.real d = disk.real dir
      · simp [hd, file_of_real_eq hd, huser]
      · simp [hd]
    rw [Option.map_none, Option.toList_none, List.append_nil, hsame]
    simp only [ne_eq, not_true_eq_false, false_or]

end Below

/-! ### What a toggle leaves -/

section Toggle

variable {env : Env} {faults : Faults} {disk : Disk} {dir : Text} {name : FileName} {p : Place}
  {enabled : Bool}

theorem confined_write (hun : disk.Unlinked p) (hdir : (disk.dirs p.1).isSome) (text : Text) :
    ∃ disk', disk.write p text = some disk' ∧ Confined p disk disk' ∧
      disk'.lookup p = some (some text) := by
  have hconfined : Confined p disk (disk.put p (some (.file (some text)))) :=
    Confined.put hdir nofun
  refine ⟨_, Disk.write_of_not_link hun.1 hdir text, hconfined, ?_⟩
  have hentry := Disk.entry_eq_lookup hconfined.own
  rw [Disk.entry_put_self _ hdir] at hentry
  cases hread : (disk.put p (some (.file (some text)))).lookup p with
  | none =>
    rw [hread] at hentry
    cases hentry
  | some read =>
    rw [hread] at hentry
    cases hentry
    rfl

theorem lookup_remove (hdir : (disk.dirs p.1).isSome) : (disk.remove p).lookup p = none := by
  have hentry : (disk.remove p).entry p = none := Disk.entry_put_self none hdir
  have hplain : ∀ target, (disk.remove p).entry p ≠ some (.link target) := by simp [hentry]
  have hread := Disk.entry_eq_lookup hplain
  rw [hentry] at hread
  exact Option.map_eq_none_iff.mp hread.symm

theorem confined_writeFile (hun : disk.Unlinked p) (hdir : (disk.dirs p.1).isSome)
    (context text : Text) : Confined p disk (writeFile faults disk context p text).2 := by
  have hwrite (text : Text) : Confined p disk ((disk.write p text).getD disk) := by
    obtain ⟨disk', hdisk, hconfined, -⟩ := confined_write hun hdir text
    rwa [hdisk]
  unfold writeFile
  cases faults.write with
  | none =>
    obtain ⟨disk', hdisk, hconfined, -⟩ := confined_write hun hdir text
    simpa only [hdisk] using hconfined
  | some fault =>
    obtain ⟨e, part⟩ := fault
    cases part with
    | none => exact Confined.refl hun
    | some part => exact hwrite part

theorem confined_removeFile (hun : disk.Unlinked p) (hdir : (disk.dirs p.1).isSome) :
    Confined p disk (removeFile faults disk p).2 := by
  unfold removeFile
  split
  · exact Confined.put hdir nofun
  · exact Confined.refl hun

theorem confined_setHiddenInFile (hun : disk.Unlinked p) (hdir : (disk.dirs p.1).isSome)
    (text : Option Text) (hidden : Bool) :
    Confined p disk (setHiddenInFile faults disk p text hidden).2 := by
  unfold setHiddenInFile
  split
  · exact Confined.refl hun
  · exact confined_writeFile hun hdir _ _

theorem confined_toggleFile (hun : disk.Unlinked p) (hdir : (disk.dirs p.1).isSome) :
    Confined p disk (toggleFile faults disk p enabled).2 := by
  unfold toggleFile
  split
  · split_ifs
    · exact confined_removeFile hun hdir
    · exact confined_setHiddenInFile hun hdir _ _
  · split_ifs
    · exact confined_writeFile hun hdir _ _
    · exact Confined.refl hun

/-- The toggle of an item goes to its file in the user's directory. -/
theorem setEnabled_eq (hname : isDesktopName name.val) (h : userDir env = some dir) :
    setEnabled env faults disk (fileId name) enabled =
      match faults.createDir with
      | some e => (.error (.platform "create autostart dir".toList e), disk)
      | none => toggleFile faults (disk.make dir) (disk.place dir name) enabled := by
  rw [setEnabled, fileId, Text.stripPrefix_append]
  simp only [h]
  exact dif_pos ⟨name.2.1, name.2.2, hname⟩

/-- **A toggle, successful or not, touches one file of the user's directory.** -/
theorem confined_setEnabled (hname : isDesktopName name.val) (h : userDir env = some dir)
    (hun : disk.Unlinked (disk.place dir name)) :
    Confined (disk.place dir name) disk (setEnabled env faults disk (fileId name) enabled).2 := by
  rw [setEnabled_eq hname h]
  split
  · exact Confined.refl hun
  · have hmade : Confined (disk.place dir name) disk (disk.make dir) := Confined.make dir hun
    exact hmade.trans (confined_toggleFile (hmade.unlinked hun) (Disk.dirs_make_self disk dir))

/-- The user's file after a successful toggle. -/
def toggledFile (name : FileName) (enabled : Bool) :
    Option (Option Text) → Option (Option Text)
  | some text =>
    if enabled && text.any isTaskmanOverride then none
    else some (text.map (setHiddenText (!enabled)))
  | none =>
    if enabled then none
    else some (some (overrideText (Text.trimEndMatches DESKTOP_SUFFIX name.val)))

theorem lookup_writeFile {context text : Text} (hun : disk.Unlinked p)
    (hdir : (disk.dirs p.1).isSome) (h : (writeFile faults disk context p text).1 = .ok ()) :
    (writeFile faults disk context p text).2.lookup p = some (some text) := by
  obtain ⟨disk', hdisk, -, hread⟩ := confined_write hun hdir text
  unfold writeFile at h ⊢
  cases hfault : faults.write with
  | none => simpa only [hdisk] using hread
  | some fault =>
    rw [hfault] at h
    cases h

theorem lookup_toggleFile (hun : disk.Unlinked p) (hdir : (disk.dirs p.1).isSome)
    (h : (toggleFile faults disk p enabled).1 = .ok ()) :
    disk.lookup p ≠ some none ∧
      (toggleFile faults disk p enabled).2.lookup p = toggledFile p.2 enabled (disk.lookup p) := by
  unfold toggleFile at h ⊢
  cases hfile : disk.lookup p with
  | none =>
    simp only [hfile] at h ⊢
    cases enabled with
    | false => exact ⟨by simp, lookup_writeFile hun hdir h⟩
    | true => exact ⟨by simp, hfile⟩
  | some text =>
    simp only [hfile, toggledFile] at h ⊢
    split_ifs at h ⊢ with hoverride
    · unfold removeFile at h ⊢
      split at h
      · refine ⟨fun hnone => ?_, lookup_remove hdir⟩
        rw [Option.some.inj hnone] at hoverride
        simp at hoverride
      · cases h
    · cases text with
      | none => cases h
      | some text => exact ⟨by simp, lookup_writeFile hun hdir h⟩

/-- Without a failing call, a readable file is toggled. -/
theorem toggleFile_ok (hun : disk.Unlinked p) (hdir : (disk.dirs p.1).isSome)
    (h : disk.lookup p ≠ some none) : (toggleFile {} disk p enabled).1 = .ok () := by
  have hwrite (context text : Text) : (writeFile {} disk context p text).1 = .ok () := by
    obtain ⟨disk', hdisk, -, -⟩ := confined_write hun hdir text
    simp only [writeFile, hdisk]
  unfold toggleFile
  split
  · split_ifs
    · rfl
    · rename_i text hfile _
      cases text with
      | none => exact absurd hfile h
      | some text => exact hwrite _ _
  · split_ifs
    · exact hwrite _ _
    · rfl

theorem userFile_eq_lookup (hdir : userDir env = some dir)
    (hun : disk.Unlinked (disk.place dir name)) :
    userFile env disk name = disk.lookup (disk.place dir name) := by
  rw [userFile_of_userDir hdir, Disk.file_eq_lookup hun.1]

/-- **What a successful toggle leaves of the user's file.** -/
theorem file_setEnabled (hname : isDesktopName name.val) (hdir : userDir env = some dir)
    (hun : disk.Unlinked (disk.place dir name))
    (h : (setEnabled env faults disk (fileId name) enabled).1 = .ok ()) :
    userFile env disk name ≠ some none ∧
      userFile env (setEnabled env faults disk (fileId name) enabled).2 name =
        toggledFile name enabled (userFile env disk name) := by
  have hconfined : Confined (disk.place dir name) disk
      (setEnabled env faults disk (fileId name) enabled).2 := confined_setEnabled hname hdir hun
  have hafter : (setEnabled env faults disk (fileId name) enabled).2.Unlinked
      ((setEnabled env faults disk (fileId name) enabled).2.place dir name) :=
    hconfined.place dir name ▸ hconfined.unlinked hun
  rw [userFile_eq_lookup hdir hun, userFile_eq_lookup hdir hafter, hconfined.place]
  rw [setEnabled_eq hname hdir] at h ⊢
  have hmade : (disk.make dir).Unlinked (disk.place dir name) :=
    (Confined.make dir hun).unlinked hun
  split at h
  · cases h
  · have hfile := lookup_toggleFile hmade (Disk.dirs_make_self disk dir) h
    rwa [Disk.lookup_make] at hfile

theorem setEnabled_ok (hname : isDesktopName name.val) (hdir : userDir env = some dir)
    (hun : disk.Unlinked (disk.place dir name)) (h : userFile env disk name ≠ some none) :
    (setEnabled env {} disk (fileId name) enabled).1 = .ok () := by
  rw [setEnabled_eq hname hdir]
  rw [userFile_eq_lookup hdir hun] at h
  exact toggleFile_ok ((Confined.make dir hun).unlinked hun) (Disk.dirs_make_self disk dir)
    (by rwa [Disk.lookup_make])

/-- What lies below the user's file stays. -/
theorem below_setEnabled (hname : isDesktopName name.val) (hdir : userDir env = some dir)
    (hun : disk.Unlinked (disk.place dir name)) :
    below env (setEnabled env faults disk (fileId name) enabled).2 name = below env disk name := by
  have hconfined : Confined (disk.place dir name) disk
      (setEnabled env faults disk (fileId name) enabled).2 := confined_setEnabled hname hdir hun
  rw [below_of_userDir hdir, below_of_userDir hdir, hconfined.real, layers, layers]
  refine List.filterMap_congr fun d hd => ?_
  have hne : disk.real d ≠ disk.real dir := by simpa using (List.mem_filter.mp hd).2
  rw [hconfined.file hun fun heq => hne (congrArg Prod.fst heq)]

end Toggle

/-! ### A linked file -/

section Linked

variable {env : Env} {disk : Disk} {dir : Text} {name : FileName} {target : Place}

/-- **Disabling an entry that is a link changes the file it leads to**, or makes one there. -/
theorem setEnabled_of_link (hname : isDesktopName name.val) (hdir : userDir env = some dir)
    (hlink : disk.entry (disk.place dir name) = some (.link target))
    (hplain : ∀ q, disk.entry target ≠ some (.link q)) (htarget : (disk.dirs target.1).isSome)
    (hread : disk.lookup target ≠ some none) :
    (setEnabled env {} disk (fileId name) false).1 = .ok () ∧
      (setEnabled env {} disk (fileId name) false).2.entry target =
        (toggledFile name false (disk.lookup target)).map .file := by
  have hmade : (disk.make dir).entry (disk.place dir name) = some (.link target) := by
    rwa [Disk.entry_make]
  have hresolve : (disk.make dir).resolve (disk.place dir name) = some target :=
    Disk.resolve_of_link hmade (by rwa [Disk.entry_make])
  have hlookup : (disk.make dir).lookup (disk.place dir name) = disk.lookup target := by
    rw [Disk.lookup_of_link hmade (by rwa [Disk.entry_make]), Disk.lookup_make]
  have hthere : ((disk.make dir).dirs target.1).isSome := Disk.dirs_make_isSome dir htarget
  have hwrite (context text : Text) :
      writeFile {} (disk.make dir) context (disk.place dir name) text =
        (.ok (), (disk.make dir).put target (some (.file (some text)))) := by
    simp only [writeFile, Disk.write, hresolve, Option.bind_some, if_pos hthere]
  rw [setEnabled_eq hname hdir]
  simp only [toggleFile, hlookup]
  cases hfile : disk.lookup target with
  | none =>
    simp only [Bool.not_false, if_true, hwrite]
    exact ⟨trivial, Disk.entry_put_self _ hthere⟩
  | some text =>
    cases text with
    | none => exact absurd hfile hread
    | some text =>
      simp only [Bool.false_and, Bool.false_eq_true, if_false, setHiddenInFile, hwrite]
      exact ⟨trivial, Disk.entry_put_self _ hthere⟩

end Linked

/-! ### What the toggle reports -/

/-- The entries of a directory. -/
def Disk.contents (disk : Disk) (dir : Text) : Directory := (disk.dirs dir).getD ∅

/-- **The toggle does what it reports**, for the item of a name. -/
structure ToggleRight (toLowercase : Text → Text) (env : Env) (disk : Disk) (name : FileName) :
    Prop where
  /-- The item is shown as its file of the highest precedence says. -/
  shown : ∀ item ∈ listAutostart toLowercase env disk, item.id = fileId name →
    (item.enabled = true ↔
      ∀ file, (layers disk (autostartDirsLowToHigh env) name).getLast? = some file →
        file.hidden ≠ some true)
  /-- After a successful toggle the item is shown as was asked for. -/
  toggled : ∀ faults enabled,
    (setEnabled env faults disk (fileId name) enabled).1 = .ok () →
      ∃ item ∈ listAutostart toLowercase env (setEnabled env faults disk (fileId name) enabled).2,
        item.id = fileId name ∧ item.enabled = enabled
  /-- The other items stay, in their order. -/
  others : ∀ faults enabled,
    (listAutostart toLowercase env (setEnabled env faults disk (fileId name) enabled).2).filter
        (fun item => item.id ≠ fileId name) =
      (listAutostart toLowercase env disk).filter fun item => item.id ≠ fileId name
  /-- No other directory than the user's changes. -/
  outside : ∀ faults enabled dir, some dir ≠ realUserDir env disk →
    (setEnabled env faults disk (fileId name) enabled).2.dirs dir = disk.dirs dir
  /-- An enabled item without a file of the user's is as before once disabled and enabled. -/
  restored : ∀ item ∈ listAutostart toLowercase env disk, item.id = fileId name →
    item.enabled = true → userFile env disk name = none → ∀ faults faults',
      (setEnabled env faults disk (fileId name) false).1 = .ok () →
        (setEnabled env faults' (setEnabled env faults disk (fileId name) false).2 (fileId name)
          true).1 = .ok () →
          ∀ dir, (setEnabled env faults' (setEnabled env faults disk (fileId name) false).2
            (fileId name) true).2.contents dir = disk.contents dir

/-- Where some file of a name hides it, the highest one has a value of its own. -/
def TopDecides (files : List DesktopFile) : Prop :=
  hiddenOf files = some true → ∀ file, files.getLast? = some file → file.hidden ≠ none

/-- The files below the user's are there, and do not hide the item. -/
def FreeBelow (env : Env) (disk : Disk) (name : FileName) : Prop :=
  below env disk name ≠ [] ∧ hiddenOf (below env disk name) ≠ some true

/-- What a toggle needs of the user's file, or of the files below and the name where there is none
or where it is only an override. -/
def Toggleable (env : Env) (disk : Disk) (name : FileName) : Prop :=
  match userFile env disk name with
  | none =>
    FreeBelow env disk name ∧ Hideable (Text.trimEndMatches DESKTOP_SUFFIX name.val)
  | some none => True
  | some (some text) => HasEntry text ∧ (isTaskmanOverride text → FreeBelow env disk name)

/-- **What the files of a name must be for the toggle to be right.** -/
def Sound (env : Env) (disk : Disk) (name : FileName) : Prop :=
  TopDecides (layers disk (autostartDirsLowToHigh env) name) ∧
    (userDir env ≠ none → Toggleable env disk name)

section Right

variable {toLowercase : Text → Text} {env : Env} {disk : Disk} {name : FileName} {dir : Text}

/-- The highest file says what the list shows exactly when it decides. -/
theorem topDecides_iff (files : List DesktopFile) :
    (hiddenOf files ≠ some true ↔
        ∀ file, files.getLast? = some file → file.hidden ≠ some true) ↔ TopDecides files := by
  induction files using List.reverseRecOn with
  | nil => simp [TopDecides, hiddenOf]
  | append_singleton files top _ =>
    simp only [TopDecides, hiddenOf_concat, List.getLast?_concat, Option.some.injEq, forall_eq']
    cases top.hidden <;> simp

/-- What is listed after a successful toggle. -/
theorem listed_setEnabled_iff {faults : Faults} {enabled : Bool} (hname : isDesktopName name.val)
    (hdir : userDir env = some dir) (hun : disk.Unlinked (disk.place dir name))
    (h : (setEnabled env faults disk (fileId name) enabled).1 = .ok ()) :
    (∃ item ∈ listAutostart toLowercase env (setEnabled env faults disk (fileId name) enabled).2,
        item.id = fileId name ∧ item.enabled = enabled) ↔
      (toggledFile name enabled (userFile env disk name) ≠ none ∨ below env disk name ≠ []) ∧
        decide (((toggledFile name enabled (userFile env disk name)).bind hiddenIn).or
          (hiddenOf (below env disk name)) ≠ some true) = enabled := by
  set disk' := (setEnabled env faults disk (fileId name) enabled).2
  have hfile : userFile env disk' name = _ := (file_setEnabled hname hdir hun h).2
  have hbelow : below env disk' name = _ := below_setEnabled hname hdir hun
  have hlayers : layers disk' (autostartDirsLowToHigh env) name ≠ [] ↔ _ := layers_ne_nil_iff hdir
  have hhidden : hiddenOf (layers disk' (autostartDirsLowToHigh env) name) = _ :=
    hiddenOf_layers hdir
  rw [hfile, hbelow] at hlayers hhidden
  rw [← hlayers, ← hhidden]
  constructor
  · rintro ⟨item, hitem, hid, henabled⟩
    refine ⟨(shown_iff.mp ⟨item, hitem, hid⟩).2, ?_⟩
    rw [← henabled, Bool.eq_iff_iff, decide_eq_true_iff, enabled_iff hitem hid]
  · rintro ⟨hne, henabled⟩
    obtain ⟨item, hitem, hid⟩ := shown_iff.mpr ⟨hname, hne⟩
    refine ⟨item, hitem, hid, ?_⟩
    rw [← henabled, Bool.eq_iff_iff, decide_eq_true_iff, enabled_iff hitem hid]

/-- What a toggle reports for a readable file, in terms of the file it leaves. -/
def Reported (env : Env) (disk : Disk) (name : FileName) (enabled : Bool) : Prop :=
  (toggledFile name enabled (userFile env disk name) ≠ none ∨ below env disk name ≠ []) ∧
    decide (((toggledFile name enabled (userFile env disk name)).bind hiddenIn).or
      (hiddenOf (below env disk name)) ≠ some true) = enabled

theorem hiddenIn_setHiddenText (hidden : Bool) (text : Text) :
    hiddenIn (some (setHiddenText hidden text)) = if HasEntry text then some hidden else none :=
  congrArg DesktopFile.hidden (parseText_setHiddenText hidden text)

theorem hiddenIn_override :
    hiddenIn (some (overrideText (Text.trimEndMatches DESKTOP_SUFFIX name.val))) = some true ↔
      Hideable (Text.trimEndMatches DESKTOP_SUFFIX name.val) :=
  hidden_overrideText_iff _

/-- Without a file of the user's, the files below decide, or the override over them. -/
theorem reported_iff_of_none (huser : userFile env disk name = none)
    (hbelow : below env disk name ≠ []) :
    (∀ enabled, Reported env disk name enabled) ↔ Toggleable env disk name := by
  have htrue : Reported env disk name true ↔ hiddenOf (below env disk name) ≠ some true := by
    rw [Reported, huser]
    exact (and_iff_right (Or.inr hbelow)).trans decide_eq_true_iff
  have hfalse : Reported env disk name false ↔
      (hiddenIn (some (overrideText (Text.trimEndMatches DESKTOP_SUFFIX name.val)))).or
        (hiddenOf (below env disk name)) = some true := by
    rw [Reported, huser]
    refine (and_iff_right (Or.inr hbelow)).trans ?_
    exact decide_eq_false_iff_not.trans not_not
  rw [Bool.forall_bool, htrue, hfalse, Toggleable, huser]
  simp only [FreeBelow, ← hiddenIn_override]
  generalize hiddenIn (some (overrideText (Text.trimEndMatches DESKTOP_SUFFIX name.val))) = value
  constructor
  · rintro ⟨hor, hfree⟩
    refine ⟨⟨hbelow, hfree⟩, ?_⟩
    cases value with
    | none => exact absurd hor hfree
    | some value => exact hor
  · rintro ⟨⟨-, hfree⟩, rfl⟩
    exact ⟨rfl, hfree⟩

/-- With a file of the user's, the file decides where it has the section; an override that is
removed leaves it to the files below. -/
theorem reported_iff_of_some {text : Text} (huser : userFile env disk name = some (some text)) :
    (∀ enabled, Reported env disk name enabled) ↔ Toggleable env disk name := by
  have hkept (hidden : Bool) (B : Option Bool) :
      (((some (some (setHiddenText hidden text))).bind hiddenIn).or B = some true) ↔
        if HasEntry text then hidden = true else B = some true := by
    rw [Option.bind_some, hiddenIn_setHiddenText]
    split_ifs <;> simp
  have hfalse : Reported env disk name false ↔
      (HasEntry text ∨ hiddenOf (below env disk name) = some true) := by
    rw [Reported, huser]
    refine (and_iff_right (Or.inl (by simp [toggledFile]))).trans ?_
    refine (decide_eq_false_iff_not.trans not_not).trans ((hkept true _).trans ?_)
    split_ifs with hentry <;> simp [hentry]
  have htrue : Reported env disk name true ↔
      if isTaskmanOverride text then FreeBelow env disk name
      else HasEntry text ∨ hiddenOf (below env disk name) ≠ some true := by
    rw [Reported, huser]
    cases hoverride : isTaskmanOverride text with
    | true =>
      have hnone : toggledFile name true (some (some text)) = none := by
        simp [toggledFile, hoverride]
      rw [hnone, decide_eq_true_iff]
      exact and_congr_left fun _ => or_iff_right fun h => h rfl
    | false =>
      have hsome : toggledFile name true (some (some text)) =
          some (some (setHiddenText false text)) := by
        simp [toggledFile, hoverride]
      rw [hsome]
      refine (and_iff_right (Or.inl (by simp))).trans ?_
      refine decide_eq_true_iff.trans ((not_congr (hkept false _)).trans ?_)
      by_cases hentry : HasEntry text <;> simp [hentry]
  rw [Bool.forall_bool, htrue, hfalse, Toggleable, huser]
  simp only [FreeBelow]
  cases isTaskmanOverride text <;> simp <;> tauto

variable (toLowercase) in
/-- **The toggles of an item are right exactly when it is toggleable.** -/
theorem toggled_iff (hname : isDesktopName name.val) (hdir : userDir env = some dir)
    (hun : disk.Unlinked (disk.place dir name))
    (hshown : layers disk (autostartDirsLowToHigh env) name ≠ []) :
    (∀ faults enabled, (setEnabled env faults disk (fileId name) enabled).1 = .ok () →
      ∃ item ∈ listAutostart toLowercase env (setEnabled env faults disk (fileId name) enabled).2,
        item.id = fileId name ∧ item.enabled = enabled) ↔ Toggleable env disk name := by
  by_cases hread : userFile env disk name = some none
  · -- no toggle of an unreadable file succeeds
    rw [Toggleable, hread]
    exact iff_of_true (fun faults enabled h => absurd hread (file_setEnabled hname hdir hun h).1)
      trivial
  · have hreported : (∀ enabled, Reported env disk name enabled) ↔ Toggleable env disk name := by
      cases huser : userFile env disk name with
      | none =>
        refine reported_iff_of_none huser ?_
        exact ((layers_ne_nil_iff hdir).mp hshown).resolve_left fun h => h huser
      | some text =>
        cases text with
        | none => exact absurd huser hread
        | some text => exact reported_iff_of_some huser
    rw [← hreported]
    refine ⟨fun h enabled => ?_, fun h faults enabled hok => ?_⟩
    · have hok : (setEnabled env {} disk (fileId name) enabled).1 = .ok () :=
        setEnabled_ok hname hdir hun hread
      exact (listed_setEnabled_iff hname hdir hun hok).mp (h {} enabled hok)
    · exact (listed_setEnabled_iff hname hdir hun hok).mpr (h enabled)

theorem setEnabled_of_homeless (hname : isDesktopName name.val) (hdir : userDir env = none)
    (faults : Faults) (enabled : Bool) :
    ∃ e, setEnabled env faults disk (fileId name) enabled = (.error e, disk) := by
  rw [setEnabled, fileId, Text.stripPrefix_append]
  simp only [hdir]
  rw [dif_pos ⟨name.2.1, name.2.2, hname⟩]
  exact ⟨_, rfl⟩

theorem contents_ext {disk' : Disk} (h : disk'.entry = disk.entry) (d : Text) :
    disk'.contents d = disk.contents d := by
  refine OrdMap.ext fun k => ?_
  have hentry (x : Disk) : (x.contents d)[k]? = x.entry (d, k) := by
    unfold Disk.contents Disk.entry
    cases x.dirs d <;> simp
  rw [hentry, hentry, h]

/-- **Disabling and enabling restores all.** -/
theorem contents_restored (hname : isDesktopName name.val) (hdir : userDir env = some dir)
    (hun : disk.Unlinked (disk.place dir name)) (huser : userFile env disk name = none)
    {faults faults' : Faults}
    (h : (setEnabled env faults disk (fileId name) false).1 = .ok ())
    (h' : (setEnabled env faults' (setEnabled env faults disk (fileId name) false).2 (fileId name)
      true).1 = .ok ()) (d : Text) :
    (setEnabled env faults' (setEnabled env faults disk (fileId name) false).2 (fileId name)
      true).2.contents d = disk.contents d := by
  have hfirst := (file_setEnabled hname hdir hun h).2
  have hdisabled : Confined (disk.place dir name) disk
      (setEnabled env faults disk (fileId name) false).2 := confined_setEnabled hname hdir hun
  generalize (setEnabled env faults disk (fileId name) false).2 = disk₁ at *
  have hun₁ : disk₁.Unlinked (disk₁.place dir name) :=
    hdisabled.place dir name ▸ hdisabled.unlinked hun
  have hsecond := (file_setEnabled hname hdir hun₁ h').2
  have henabled : Confined (disk₁.place dir name) disk₁
      (setEnabled env faults' disk₁ (fileId name) true).2 := confined_setEnabled hname hdir hun₁
  generalize (setEnabled env faults' disk₁ (fileId name) true).2 = disk₂ at *
  rw [hdisabled.place] at henabled
  have hconfined : Confined (disk.place dir name) disk disk₂ := hdisabled.trans henabled
  rw [huser] at hfirst
  rw [hfirst] at hsecond
  simp only [toggledFile, Option.any_some, isTaskmanOverride_overrideText, Bool.and_self,
    Bool.false_eq_true, if_true, if_false] at hsecond
  -- neither disk has the user's entry
  have hnone (x : Disk) (hfile : userFile env x name = none) :
      x.entry (x.place dir name) = none := by
    rw [userFile_of_userDir hdir] at hfile
    exact Option.map_eq_none_iff.mp hfile
  refine contents_ext (funext fun q => ?_) d
  by_cases hq : q = disk.place dir name
  · rw [hq, hnone disk huser, ← hconfined.place, hnone disk₂ hsecond]
  · exact hconfined.entries q hq

end Right

/-- **The toggle does what it reports exactly when the files of the name are sound**, where no link
is at the user's file of that name and none leads to it. -/
theorem toggle_right_iff (toLowercase : Text → Text) (env : Env) (disk : Disk) (name : FileName)
    (h : Shown toLowercase env disk name)
    (hlinks : ∀ dir, userDir env = some dir → disk.Unlinked (disk.place dir name)) :
    ToggleRight toLowercase env disk name ↔ Sound env disk name := by
  obtain ⟨hname, hlayers⟩ := shown_iff.mp h
  -- the id of an item is that of its name, so that the list has one item to ask
  have htop : (∀ item ∈ listAutostart toLowercase env disk, item.id = fileId name →
      (item.enabled = true ↔
        ∀ file, (layers disk (autostartDirsLowToHigh env) name).getLast? = some file →
          file.hidden ≠ some true)) ↔
      TopDecides (layers disk (autostartDirsLowToHigh env) name) := by
    rw [← topDecides_iff]
    obtain ⟨item, hitem, hid⟩ := h
    constructor
    · intro hall
      exact (enabled_iff hitem hid).symm.trans (hall item hitem hid)
    · intro hiff other hother hoid
      exact (enabled_iff hother hoid).trans hiff
  rw [Sound, ← htop]
  cases hdir : userDir env with
  | none =>
    simp only [ne_eq, not_true_eq_false, false_imp_iff, and_true]
    -- without a config home every toggle fails before it touches a file
    have hfails (faults : Faults) (enabled : Bool) :
        ∃ e, setEnabled env faults disk (fileId name) enabled = (.error e, disk) :=
      setEnabled_of_homeless hname hdir faults enabled
    refine ⟨fun hright => hright.shown, fun hshown => ⟨hshown, ?_, ?_, ?_, ?_⟩⟩
    · intro faults enabled hok
      obtain ⟨e, he⟩ := hfails faults enabled
      rw [he] at hok
      cases hok
    · intro faults enabled
      obtain ⟨e, he⟩ := hfails faults enabled
      rw [he]
    · intro faults enabled d _
      obtain ⟨e, he⟩ := hfails faults enabled
      rw [he]
    · intro item _ _ _ _ faults faults' hok
      obtain ⟨e, he⟩ := hfails faults false
      rw [he] at hok
      cases hok
  | some dir =>
    have hun := hlinks dir hdir
    rw [← toggled_iff toLowercase hname hdir hun hlayers]
    simp only [ne_eq, reduceCtorEq, not_false_eq_true, true_imp_iff]
    refine ⟨fun hright => ⟨hright.shown, hright.toggled⟩, fun hsound => ?_⟩
    refine ⟨hsound.1, hsound.2, fun faults enabled => ?_, fun faults enabled d hd => ?_, ?_⟩
    · refine filter_listAutostart fun d k hk => (confined_setEnabled hname hdir hun).file hun ?_
      exact fun heq => hk (congrArg Prod.snd heq)
    · refine (confined_setEnabled hname hdir hun).outside d fun heq => hd ?_
      rw [heq, realUserDir, hdir]
      rfl
    · intro item _ _ _ huser faults faults' hok hok' d
      exact contents_restored hname hdir hun huser hok hok' d

/-! ### A system entry -/

/-- An environment with a home directory and the default system directory. -/
def homeEnv : Env := { home := some "/home/u".toList }

/-- The name of a system entry. -/
def toolName : FileName := ⟨"tool.desktop".toList, by decide⟩

/-- The system directory with one entry. -/
def systemDisk (text : Text) : Disk where
  dirs := Function.update (fun _ => none) "/etc/xdg/autostart".toList
    (some ((∅ : Directory).insert toolName (.file (some text))))

/-- The system directory has no links. -/
theorem entry_systemDisk_ne_link (text : Text) (p target : Place) :
    (systemDisk text).entry p ≠ some (.link target) := by
  simp only [systemDisk, Disk.entry]
  by_cases hd : p.1 = "/etc/xdg/autostart".toList
  · rw [hd, Function.update_self, Option.bind_some, OrdMap.getElem?_insert]
    split_ifs <;> simp
  · rw [Function.update_of_ne hd]
    simp

/-- The text of an entry that is enabled. -/
def plainEntry : Text := "[Desktop Entry]\nName=Tool\nExec=tool\n".toList

/-- The text of an entry that the system disables. -/
def hiddenEntry : Text := "[Desktop Entry]\nName=Tool\nExec=tool\nHidden=true\n".toList

/-- The toggle of an enabled system entry without a file of the user's does what it reports. -/
theorem toggle_right_plain : ToggleRight id homeEnv (systemDisk plainEntry) toolName := by
  have huser : userFile homeEnv (systemDisk plainEntry) toolName = none := by decide +kernel
  refine (toggle_right_iff id homeEnv (systemDisk plainEntry) toolName (by decide +kernel)
    fun dir _ => ⟨entry_systemDisk_ne_link plainEntry _,
      fun q => entry_systemDisk_ne_link plainEntry q _⟩).mpr
    ⟨fun h => absurd h (by decide +kernel), fun _ => ?_⟩
  rw [Toggleable, huser]
  exact ⟨⟨by decide +kernel, by decide +kernel⟩, by decide +kernel⟩

/-- The user's directory with a link to an entry elsewhere. -/
def linkedDisk : Disk where
  dirs := Function.update
    (Function.update (fun _ => none) "/home/u/.config/autostart".toList
      (some ((∅ : Directory).insert toolName (.link ("/opt/tool".toList, toolName)))))
    "/opt/tool".toList (some ((∅ : Directory).insert toolName (.file (some plainEntry))))

/-- The toggle of a link to an entry elsewhere rewrites that entry, sound as the files are. -/
theorem linked_entry_rewritten :
    Shown id homeEnv linkedDisk toolName ∧ Sound homeEnv linkedDisk toolName ∧
      ¬ ToggleRight id homeEnv linkedDisk toolName := by
  have huser : userFile homeEnv linkedDisk toolName = some (some plainEntry) := by decide +kernel
  refine ⟨by decide +kernel, ⟨fun h => absurd h (by decide +kernel), fun _ => ?_⟩, fun h => ?_⟩
  · rw [Toggleable, huser]
    exact ⟨by decide +kernel, fun hoverride => absurd hoverride (by decide +kernel)⟩
  · have houtside := h.outside {} false "/opt/tool".toList (by decide +kernel)
    have hentry : (setEnabled homeEnv {} linkedDisk (fileId toolName) false).2.entry
        ("/opt/tool".toList, toolName) = linkedDisk.entry ("/opt/tool".toList, toolName) := by
      rw [Disk.entry, Disk.entry, houtside]
    revert hentry
    decide +kernel

/-- A system entry with `Hidden=true` is enabled with success, and listed as disabled. -/
theorem enabled_stays_hidden :
    Shown id homeEnv (systemDisk hiddenEntry) toolName ∧
      ¬ ToggleRight id homeEnv (systemDisk hiddenEntry) toolName := by
  refine ⟨by decide +kernel, fun h => ?_⟩
  have hlisted := h.toggled {} true (by decide +kernel)
  revert hlisted
  decide +kernel

end Autostart

end Taskman
