import Mathlib.Data.List.Perm.Basic
import Mathlib.Data.List.Nodup

/-!
# Handles that are acquired and released

What an environment keeps of the handles it has given out: the live ones, and how often a handle
was released that was not live.  A program that keeps its handles in slots is right about them when
the live handles are exactly the contents of its slots.

* `HandleTable.acquire`, `HandleTable.release` : the two operations;
* `HandleTable.Holds` : the live handles are those listed, each once, and no release went astray;
* `HandleTable.Holds.acquire`, `HandleTable.Holds.release` : **both operations keep a correct list
  correct**.
-/

/-- The handles given out, newest first. -/
structure HandleTable (α : Type*) where
  live : List α := []
  /-- Releases of a handle that was not live. -/
  stray : ℕ := 0
  deriving DecidableEq

namespace HandleTable

variable {α : Type*}

/-- A handle is opened. -/
def acquire (t : HandleTable α) (h : α) : HandleTable α :=
  { t with live := h :: t.live }

/-- A handle is closed; one that is not open goes astray. -/
def release [DecidableEq α] (t : HandleTable α) (h : α) : HandleTable α :=
  if h ∈ t.live then { t with live := t.live.erase h } else { t with stray := t.stray + 1 }

/-- The live handles are those of `slots`, each once, and none was released in vain. -/
structure Holds (t : HandleTable α) (slots : List α) : Prop where
  perm : t.live.Perm slots
  nodup : slots.Nodup
  stray : t.stray = 0

theorem holds_empty : Holds ({} : HandleTable α) [] := ⟨.nil, List.nodup_nil, rfl⟩

namespace Holds

variable {t : HandleTable α} {slots slots' : List α} {h : α}

theorem mem_iff (ht : t.Holds slots) : h ∈ t.live ↔ h ∈ slots := ht.perm.mem_iff

theorem live_nodup (ht : t.Holds slots) : t.live.Nodup := ht.perm.nodup_iff.mpr ht.nodup

theorem reorder (ht : t.Holds slots) (hp : slots.Perm slots') : t.Holds slots' :=
  ⟨ht.perm.trans hp, hp.nodup_iff.mp ht.nodup, ht.stray⟩

theorem acquire (ht : t.Holds slots) (hnew : h ∉ t.live) : (t.acquire h).Holds (h :: slots) :=
  ⟨ht.perm.cons h, List.nodup_cons.mpr ⟨fun hm => hnew (ht.mem_iff.mpr hm), ht.nodup⟩, ht.stray⟩

theorem release [DecidableEq α] (ht : t.Holds (h :: slots)) : (t.release h).Holds slots := by
  have hmem : h ∈ t.live := ht.mem_iff.mpr List.mem_cons_self
  rw [HandleTable.release, if_pos hmem]
  refine ⟨?_, (List.nodup_cons.mp ht.nodup).2, ht.stray⟩
  have herase : (t.live.erase h).Perm ((h :: slots).erase h) := ht.perm.erase h
  rwa [List.erase_cons_head] at herase

end Holds

end HandleTable
