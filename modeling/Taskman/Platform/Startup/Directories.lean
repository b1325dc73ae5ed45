import Taskman.Collections.SortBy
import Taskman.Core.Model
import Taskman.Platform.Startup.DesktopFile

/-!
# Directories with symbolic links

The part of a file system that the autostart entries live in.  A name of a directory stands for a
file or for a symbolic link to another place.  A look at a place and a write go through the links;
a removal takes the entry itself, link or not.

* `Disk.follow` : the place that a place leads to;
* `Disk.lookup` : what is read there;
* `Disk.write`, `Disk.remove` : the changes;
* `Disk.Unlinked` : no link is at a place, and none leads to it;
* `Confined.lookup` : **a change at an unlinked place is seen at no other place**.
-/

namespace Taskman

namespace Autostart

/-- The name of a file in a directory. -/
abbrev FileName := { t : Text // t ≠ [] ∧ '/' ∉ t }

instance : Ord FileName := ⟨compareOn Subtype.val⟩

instance : Std.TransOrd FileName := inferInstanceAs (Std.TransCmp (compareOn Subtype.val))

instance : Std.LawfulEqOrd FileName where
  eq_of_compare {a b} h := Subtype.ext (Std.LawfulEqCmp.eq_of_compare h : a.val = b.val)

/-- A name in a directory. -/
abbrev Place := Text × FileName

/-- What a directory holds under a name: a file, whose text is absent where it cannot be read, or a
symbolic link to a place. -/
inductive Entry where
  | file (text : Option Text)
  | link (target : Place)
  deriving DecidableEq

/-- The entries of a directory. -/
abbrev Directory := OrdMap FileName Entry

/-- The directories that exist, and the one that a path leads to: two paths of one directory lead
to the same.  Different places hold different files. -/
structure Disk where
  real : Text → Text := id
  dirs : Text → Option Directory

namespace Disk

/-- The place of a name in the directory that a path leads to. -/
def place (disk : Disk) (path : Text) (name : FileName) : Place := (disk.real path, name)

/-- What is at a place. -/
def entry (disk : Disk) (p : Place) : Option Entry := (disk.dirs p.1).bind fun d => d[p.2]?

/-- How many links are followed before they count as a loop. -/
def MAX_LINKS : ℕ := 40

/-- The place that a place leads to over its links; there is none where they do not end. -/
def follow (disk : Disk) : ℕ → Place → Option Place
  | 0, _ => none
  | n + 1, p =>
    match disk.entry p with
    | some (.link target) => disk.follow n target
    | _ => some p

/-- The place that is read and written in place of another. -/
def resolve (disk : Disk) (p : Place) : Option Place := disk.follow (MAX_LINKS + 1) p

/-- The file at a place.  It is the same for a place without an entry, and for one whose links lead
nowhere: `Path::exists` is false. -/
def lookup (disk : Disk) (p : Place) : Option (Option Text) :=
  (disk.resolve p).bind fun target =>
    match disk.entry target with
    | some (.file text) => some text
    | _ => none

/-- An entry as the list sees it: it is there, and can perhaps be read. -/
def file (disk : Disk) (path : Text) (name : FileName) : Option (Option Text) :=
  (disk.entry (disk.place path name)).map fun _ => (disk.lookup (disk.place path name)).join

/-- `create_dir_all`. -/
def make (disk : Disk) (path : Text) : Disk :=
  { disk with
    dirs := Function.update disk.dirs (disk.real path)
      (some ((disk.dirs (disk.real path)).getD ∅)) }

/-- The entry of a place, in a directory that exists, replaced. -/
def put (disk : Disk) (p : Place) (e : Option Entry) : Disk :=
  { disk with
    dirs := Function.update disk.dirs p.1 ((disk.dirs p.1).map (·.alter p.2 fun _ => e)) }

/-- `std::fs::write`: the text goes where the place leads to, if there is a directory for it. -/
def write (disk : Disk) (p : Place) (text : Text) : Option Disk :=
  (disk.resolve p).bind fun target =>
    if (disk.dirs target.1).isSome then some (disk.put target (some (.file (some text)))) else none

/-- `std::fs::remove_file`: the entry itself goes. -/
def remove (disk : Disk) (p : Place) : Disk := disk.put p none

/-- There is no link at a place, and none to it. -/
def Unlinked (disk : Disk) (p : Place) : Prop :=
  (∀ target, disk.entry p ≠ some (.link target)) ∧ ∀ q, disk.entry q ≠ some (.link p)

end Disk

/-! ### What is read of an unlinked place -/

section Unlinked

variable {disk disk' : Disk} {p : Place}

namespace Disk

theorem resolve_of_not_link (h : ∀ target, disk.entry p ≠ some (.link target)) :
    disk.resolve p = some p := by
  unfold resolve MAX_LINKS follow
  split
  · rename_i target hlink
    exact absurd hlink (h target)
  · rfl

theorem resolve_of_link {q : Place} (h : disk.entry p = some (.link q))
    (hq : ∀ target, disk.entry q ≠ some (.link target)) : disk.resolve p = some q := by
  unfold resolve MAX_LINKS follow
  simp only [h]
  unfold follow
  split
  · rename_i target hlink
    exact absurd hlink (hq target)
  · rfl

theorem lookup_of_link {q : Place} (h : disk.entry p = some (.link q))
    (hq : ∀ target, disk.entry q ≠ some (.link target)) : disk.lookup p = disk.lookup q := by
  rw [lookup, lookup, resolve_of_link h hq, resolve_of_not_link hq]

/-- What is at a place without a link is what is read there. -/
theorem entry_eq_lookup (h : ∀ target, disk.entry p ≠ some (.link target)) :
    disk.entry p = (disk.lookup p).map .file := by
  rw [lookup, resolve_of_not_link h, Option.bind_some]
  cases hentry : disk.entry p with
  | none => rfl
  | some e =>
    cases e with
    | file text => rfl
    | link target => exact absurd hentry (h target)

theorem file_eq_lookup {path : Text} {name : FileName}
    (h : ∀ target, disk.entry (disk.place path name) ≠ some (.link target)) :
    disk.file path name = disk.lookup (disk.place path name) := by
  rw [file, entry_eq_lookup h]
  cases disk.lookup (disk.place path name) <;> rfl

/-- What a place leads to depends on the entries alone. -/
theorem follow_congr (h : disk'.entry = disk.entry) (n : ℕ) (q : Place) :
    disk'.follow n q = disk.follow n q := by
  induction n generalizing q with
  | zero => rfl
  | succ n ih =>
    rw [follow, follow, h]
    split
    · exact ih _
    · rfl

theorem lookup_congr (h : disk'.entry = disk.entry) (q : Place) :
    disk'.lookup q = disk.lookup q := by
  unfold lookup resolve
  rw [follow_congr h, h]

end Disk

/-! ### The entries after a change -/

namespace Disk

@[simp]
theorem entry_make (disk : Disk) (path : Text) : (disk.make path).entry = disk.entry := by
  funext q
  unfold make entry
  by_cases hd : q.1 = disk.real path
  · simp only [hd, Function.update_self]
    cases disk.dirs (disk.real path) <;> simp
  · simp only [Function.update_of_ne hd]

@[simp]
theorem real_make (disk : Disk) (path : Text) : (disk.make path).real = disk.real := rfl

theorem dirs_make_self (disk : Disk) (path : Text) :
    ((disk.make path).dirs (disk.real path)).isSome := by
  simp [make]

theorem dirs_make_isSome (path : Text) {d : Text} (h : (disk.dirs d).isSome) :
    ((disk.make path).dirs d).isSome := by
  by_cases hd : d = disk.real path
  · rw [hd]
    exact dirs_make_self disk path
  · have hsame : (disk.make path).dirs d = disk.dirs d := Function.update_of_ne hd _ _
    rwa [hsame]

@[simp]
theorem lookup_make (disk : Disk) (path : Text) (q : Place) :
    (disk.make path).lookup q = disk.lookup q :=
  lookup_congr (entry_make disk path) q

@[simp]
theorem file_make (disk : Disk) (path d : Text) (k : FileName) :
    (disk.make path).file d k = disk.file d k := by
  simp only [file, place, entry_make, real_make, lookup_make]

theorem entry_put_of_ne {q : Place} (e : Option Entry) (h : q ≠ p) :
    (disk.put p e).entry q = disk.entry q := by
  unfold put entry
  by_cases hd : q.1 = p.1
  · have hname : p.2 ≠ q.2 := fun h' => h (Prod.ext hd h'.symm)
    simp only [hd, Function.update_self]
    cases disk.dirs p.1 with
    | none => rfl
    | some files => simp [Std.ExtTreeMap.getElem?_alter, hname]
  · simp only [Function.update_of_ne hd]

theorem entry_put_self (e : Option Entry) (h : (disk.dirs p.1).isSome) :
    (disk.put p e).entry p = e := by
  obtain ⟨files, hfiles⟩ := Option.isSome_iff_exists.mp h
  simp [put, entry, hfiles]

theorem write_of_not_link (h : ∀ target, disk.entry p ≠ some (.link target))
    (hdir : (disk.dirs p.1).isSome) (text : Text) :
    disk.write p text = some (disk.put p (some (.file (some text)))) := by
  rw [write, resolve_of_not_link h, Option.bind_some, if_pos hdir]

end Disk

/-- Two disks are alike apart from the entry of one place, which is no link. -/
structure Confined (p : Place) (disk disk' : Disk) : Prop where
  real : disk'.real = disk.real
  outside : ∀ d, d ≠ p.1 → disk'.dirs d = disk.dirs d
  entries : ∀ q, q ≠ p → disk'.entry q = disk.entry q
  own : ∀ target, disk'.entry p ≠ some (.link target)

namespace Confined

theorem refl (h : disk.Unlinked p) : Confined p disk disk :=
  ⟨rfl, fun _ _ => rfl, fun _ _ => rfl, h.1⟩

theorem trans {disk'' : Disk} (h : Confined p disk disk') (h' : Confined p disk' disk'') :
    Confined p disk disk'' :=
  ⟨h'.real.trans h.real, fun d hd => (h'.outside d hd).trans (h.outside d hd),
    fun q hq => (h'.entries q hq).trans (h.entries q hq), h'.own⟩

theorem place (h : Confined p disk disk') (path : Text) (name : FileName) :
    disk'.place path name = disk.place path name := by
  rw [Disk.place, Disk.place, h.real]

theorem unlinked (h : Confined p disk disk') (hun : disk.Unlinked p) : disk'.Unlinked p := by
  refine ⟨h.own, fun q => ?_⟩
  by_cases hq : q = p
  · rw [hq]
    exact h.own p
  · rw [h.entries q hq]
    exact hun.2 q

/-- No way over the links comes by a place that no link leads to. -/
theorem follow (h : Confined p disk disk') (hun : disk.Unlinked p) (n : ℕ) {q : Place}
    (hq : q ≠ p) : disk'.follow n q = disk.follow n q ∧ disk.follow n q ≠ some p := by
  induction n generalizing q with
  | zero => exact ⟨rfl, nofun⟩
  | succ n ih =>
    rw [Disk.follow, Disk.follow, h.entries q hq]
    split
    · rename_i target hlink
      refine ih fun htarget => ?_
      rw [htarget] at hlink
      exact hun.2 q hlink
    · exact ⟨rfl, fun heq => hq (Option.some.inj heq)⟩

/-- **A change at an unlinked place is seen at no other place.** -/
theorem lookup (h : Confined p disk disk') (hun : disk.Unlinked p) {q : Place} (hq : q ≠ p) :
    disk'.lookup q = disk.lookup q := by
  obtain ⟨hsame, hne⟩ := h.follow hun (Disk.MAX_LINKS + 1) hq
  unfold Disk.lookup Disk.resolve
  rw [hsame]
  cases htarget : disk.follow (Disk.MAX_LINKS + 1) q with
  | none => rfl
  | some target =>
    have htp : target ≠ p := fun heq => hne (heq ▸ htarget)
    rw [Option.bind_some, Option.bind_some, h.entries target htp]

theorem file (h : Confined p disk disk') (hun : disk.Unlinked p) {path : Text} {name : FileName}
    (hne : disk.place path name ≠ p) : disk'.file path name = disk.file path name := by
  rw [Disk.file, Disk.file, h.place, h.entries _ hne, h.lookup hun hne]

theorem put {e : Option Entry} (hdir : (disk.dirs p.1).isSome)
    (he : ∀ target, e ≠ some (.link target)) : Confined p disk (disk.put p e) := by
  refine ⟨rfl, fun d hd => Function.update_of_ne hd _ _, fun q hq => Disk.entry_put_of_ne e hq,
    fun target => ?_⟩
  rw [Disk.entry_put_self e hdir]
  exact he target

theorem make (path : Text) {name : FileName} (hun : disk.Unlinked (disk.place path name)) :
    Confined (disk.place path name) disk (disk.make path) := by
  refine ⟨rfl, fun d hd => Function.update_of_ne hd _ _, fun q _ => by rw [Disk.entry_make],
    fun target => ?_⟩
  rw [Disk.entry_make]
  exact hun.1 target

end Confined

end Unlinked

end Autostart

end Taskman
