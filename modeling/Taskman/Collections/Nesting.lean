import Mathlib.Data.List.TakeWhile
import Taskman.Collections.Outline

/-!
# What is nested under a line

A line of an outline is followed by what is nested under it: the deeper lines up to the next one
that is not.  Where every line below the top is directly under the last line before it that is less
deep, a property is found on or under every line exactly when every line without it has a child.

* `Outline.nested` : the lines nested under a line;
* `Outline.Hung` : every line below the top is under its parent's;
* `Outline.Hung.mem_nested` : **a line below the top is nested under its parent's line**;
* `Outline.Hung.found_iff` : **the property is found under every line exactly when every line that
  lacks it has a line directly under it**.
-/

namespace Taskman

namespace Outline

variable {α : Type*} {r : α → α → Prop} {ls pre mid post : List (Line α)} {line next : Line α}

/-- The deeper lines right after a line. -/
def nested (line : Line α) (post : List (Line α)) : List (Line α) :=
  post.takeWhile fun below => decide (line.depth < below.depth)

/-- Every line below the top is directly under the last line before it that is less deep, and is
linked to it. -/
def Hung (r : α → α → Prop) (ls : List (Line α)) : Prop :=
  ∀ pre line post, ls = pre ++ line :: post → 0 < line.depth →
    ∃ up, (pre.filter fun above => above.depth < line.depth).getLast? = some up ∧
      up.depth + 1 = line.depth ∧ r up.item line.item

theorem lt_of_mem_nested {below : Line α} (h : below ∈ nested line post) :
    line.depth < below.depth := by
  unfold nested at h
  simpa using List.mem_takeWhile_imp h

theorem mem_nested_append (hmid : ∀ below ∈ mid, line.depth < below.depth)
    (hnext : line.depth < next.depth) : next ∈ nested line (mid ++ next :: post) := by
  rw [nested, List.takeWhile_append_of_pos fun below hbelow => decide_eq_true (hmid below hbelow),
    List.takeWhile_cons_of_pos (by simpa using hnext)]
  exact List.mem_append_right _ List.mem_cons_self

/-- What is nested under a nested line is nested. -/
theorem nested_trans {below : Line α} (hmid : ∀ below ∈ mid, line.depth < below.depth)
    (hnext : line.depth < next.depth) (hbelow : below ∈ nested next post) :
    below ∈ nested line (mid ++ next :: post) := by
  obtain ⟨before, after, hsplit⟩ := List.append_of_mem hbelow
  have hdeeper : ∀ x ∈ nested next post, line.depth < x.depth := fun x hx =>
    hnext.trans (lt_of_mem_nested hx)
  have hpost : post = before ++ below :: (after ++ post.dropWhile fun x =>
      decide (next.depth < x.depth)) := by
    rw [← List.cons_append, ← List.append_assoc, ← hsplit, nested, List.takeWhile_append_dropWhile]
  rw [hpost, ← List.cons_append, ← List.append_assoc]
  refine mem_nested_append (fun x hx => ?_) (hdeeper below hbelow)
  rcases List.mem_append.mp hx with hx | hx
  · exact hmid x hx
  · rcases List.mem_cons.mp hx with rfl | hx
    · exact hnext
    · exact hdeeper x (hsplit ▸ List.mem_append_left _ hx)

theorem getLast?_filter_of_lt {d : ℕ} {last : Line α} (hlast : last.depth < d) :
    ((pre ++ [last]).filter fun above => above.depth < d).getLast? = some last := by
  simp [List.filter_append, hlast]

/-- The last line before a place that is less deep than the place: all after it are as deep. -/
theorem split_of_getLast? {d : ℕ} {up : Line α}
    (h : (pre.filter fun above => above.depth < d).getLast? = some up) :
    ∃ before mid, pre = before ++ up :: mid ∧ up.depth < d ∧ ∀ above ∈ mid, d ≤ above.depth := by
  induction pre using List.reverseRecOn with
  | nil => simp at h
  | append_singleton pre last ih =>
    by_cases hlast : last.depth < d
    · obtain rfl : last = up := Option.some.inj ((getLast?_filter_of_lt hlast).symm.trans h)
      exact ⟨pre, [], rfl, hlast, by simp⟩
    · have hsame : (pre ++ [last]).filter (fun above => above.depth < d) =
          pre.filter fun above => above.depth < d := by
        simp [List.filter_append, hlast]
      rw [hsame] at h
      obtain ⟨before, mid, rfl, hup, hmid⟩ := ih h
      refine ⟨before, mid ++ [last], by simp, hup, fun above habove => ?_⟩
      rcases List.mem_append.mp habove with habove | habove
      · exact hmid above habove
      · rw [List.mem_singleton.mp habove]
        exact Nat.le_of_not_lt hlast

namespace Hung

variable (h : Hung r ls)

include h

theorem link_next (hsplit : ls = pre ++ line :: next :: post) (hdepth : line.depth < next.depth) :
    r line.item next.item := by
  obtain ⟨up, hup, -, hlink⟩ := h (pre ++ [line]) next post (by simp [hsplit]) (by omega)
  obtain rfl : line = up := Option.some.inj ((getLast?_filter_of_lt hdepth).symm.trans hup)
  exact hlink

/-- **A line below the top is nested under its parent's line.** -/
theorem mem_nested (hnodup : (ls.map Line.item).Nodup) (hr : Relator.LeftUnique r)
    (hsplit : ls = pre ++ line :: post) {below : Line α} (hbelow : below ∈ ls)
    (hdepth : 0 < below.depth) (hlink : r line.item below.item) :
    ∃ mid after, post = mid ++ below :: after ∧ (∀ x ∈ mid, line.depth < x.depth) ∧
      line.depth < below.depth := by
  obtain ⟨above, after, habove⟩ := List.append_of_mem hbelow
  obtain ⟨up, hup, hstep, hlink'⟩ := h above below after habove hdepth
  obtain ⟨before, mid, rfl, hup', hmid⟩ := split_of_getLast? hup
  have hline : line ∈ ls := by simp [hsplit]
  have hmem : up ∈ ls := by simp [habove]
  obtain rfl : line = up := List.inj_on_of_nodup_map hnodup hline hmem (hr hlink hlink')
  -- the line of the parent stands at one place
  have hone : line ∉ pre ∧ line ∉ post := by
    have hls : (pre ++ line :: post).Nodup := hsplit ▸ hnodup.of_map _
    simpa using (List.nodup_cons.mp (List.nodup_middle.mp hls)).1
  have hsame : pre ++ line :: post = before ++ line :: (mid ++ below :: after) := by
    rw [← hsplit, habove, List.append_assoc, List.cons_append]
  have hpost : post = mid ++ below :: after :=
    ((List.append_cons_inj_of_notMem hone.1 hone.2).mp hsame).2.2
  exact ⟨mid, after, hpost, fun x hx => hup'.trans_le (hmid x hx), hup'⟩

/-- **A property is found on or under every line exactly when every line that lacks it has a line
directly under it.** -/
theorem found_iff (hnodup : (ls.map Line.item).Nodup) (hr : Relator.LeftUnique r) (P : α → Prop) :
    (∀ pre line post, ls = pre ++ line :: post →
        P line.item ∨ ∃ below ∈ nested line post, P below.item) ↔
      ∀ line ∈ ls, ¬ P line.item →
        ∃ below ∈ ls, 0 < below.depth ∧ r line.item below.item := by
  constructor
  · intro hfound line hline hlacks
    obtain ⟨pre, post, hsplit⟩ := List.append_of_mem hline
    obtain ⟨below, hbelow, -⟩ := (hfound pre line post hsplit).resolve_left hlacks
    cases post with
    | nil => cases hbelow
    | cons next post =>
      have hdepth : line.depth < next.depth := by
        by_contra hnot
        rw [nested, List.takeWhile_cons_of_neg (by simpa using hnot)] at hbelow
        cases hbelow
      exact ⟨next, by simp [hsplit], by omega, h.link_next hsplit hdepth⟩
  · intro hchild pre line post hsplit
    -- by induction on what is left of the listing
    generalize hn : post.length = n
    induction n using Nat.strong_induction_on generalizing pre line post with
    | _ n ih =>
      by_cases hline : P line.item
      · exact Or.inl hline
      · obtain ⟨below, hbelow, hdepth, hlink⟩ := hchild line (by simp [hsplit]) hline
        obtain ⟨mid, after, rfl, hmid, hdeeper⟩ :=
          h.mem_nested hnodup hr hsplit hbelow hdepth hlink
        have hshorter : after.length < n := by
          rw [← hn, List.length_append, List.length_cons]
          omega
        rcases ih after.length hshorter (pre ++ line :: mid) below after (by simp [hsplit]) rfl
          with hfound | ⟨found, hfound, hP⟩
        · exact Or.inr ⟨below, mem_nested_append hmid hdeeper, hfound⟩
        · exact Or.inr ⟨found, nested_trans hmid hdeeper hfound, hP⟩

end Hung

end Outline

end Taskman
