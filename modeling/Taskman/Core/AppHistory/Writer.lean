import Taskman.Core.AppHistory
import Taskman.LTS.Debounce

/-!
# The history writer

One thread writes the history file.  It keeps only the newest snapshot that waits, told by its
generation, for 200 ms, and writes it at a flush and before it ends.  A write that fails is logged
and not tried again.

* `historyWriter` : `history_writer_loop` and the messages that `HistoryWriter` sends it;
* `history_written_in_order` : **generations rise from write to write, and after a flush or the
  end the newest one was tried**.
-/

namespace Taskman

/-- A message to the history writer; `reply` is the channel on which a flush is answered. -/
inductive WriteCmd where
  | save (generation : ℕ) (snapshot : DbFile)
  | flush (reply : ℕ)
  | shutdown

/-- A command as the writer of the library knows it. -/
def WriteCmd.command : WriteCmd → Writer.Command (ℕ × DbFile)
  | .save generation snapshot => .save (generation, snapshot)
  | .flush _ => .flush
  | .shutdown => .shutdown

/-- `history_writer_loop`: only a higher generation replaces what waits, a receive that finds the
queue disconnected breaks to the final flush, and the writes are `write_atomic`. -/
def historyWriter : Writer WriteCmd (ℕ × DbFile) where
  command := WriteCmd.command
  shutdown := .shutdown
  command_shutdown := rfl
  replaces new old := decide (old.1 < new.1)
  finishes := true

theorem historyWriter.rising_iff {ms : List WriteCmd} :
    historyWriter.Rising ms ↔ (historyWriter.saves ms).Pairwise fun old new => old.1 < new.1 := by
  unfold Writer.Rising historyWriter
  simp only [decide_eq_true_eq]

/-- **Generations rise from write to write.**  When a flush is answered, the last snapshot a write
was tried for is the newest one queued before the flush, and so it is with all snapshots once the
writer has ended; the file holds it if the write succeeded. -/
theorem history_written_in_order {s : Writer.State WriteCmd (ℕ × DbFile)}
    (h : Machine.Reachable historyWriter.step (· = {}) s)
    (hgenerations : (historyWriter.saves s.sent).Pairwise fun old new => old.1 < new.1) :
    s.written.Pairwise (fun old new => old.1 < new.1) ∧
      (∀ action s' m, historyWriter.step s action = some s' →
        s'.answered = s.answered ++ [m] →
        ∃ before, s.sent = before ++ m :: s'.queue ∧ historyWriter.Newest before s') ∧
      (s.running = false → historyWriter.Newest s.sent s) := by
  have hrising := historyWriter.rising_iff.mpr hgenerations
  refine ⟨hgenerations.sublist (Writer.sublist_of_reachable h hrising), ?_,
    Writer.newest_of_stopped h hrising⟩
  intro action s' m hs hm
  exact Writer.newest_of_answered h hrising hs hm

/-- Of two snapshots in one burst the end of the writer writes the second. -/
theorem history_written_in_order_burst :
    historyWriter.Newest
      [.save 1 ⟨0, ∅, ∅, ∅⟩, .save 2 ⟨5, ∅, ∅, ∅⟩, .shutdown] {
        connected := false
        running := false
        file := some (2, ⟨5, ∅, ∅, ∅⟩)
        sent := [.save 1 ⟨0, ∅, ∅, ∅⟩, .save 2 ⟨5, ∅, ∅, ∅⟩, .shutdown]
        writes := [((2, ⟨5, ∅, ∅, ∅⟩), true)] } :=
  (history_written_in_order
    ⟨{}, [.send (.save 1 ⟨0, ∅, ∅, ∅⟩), .send (.save 2 ⟨5, ∅, ∅, ∅⟩), .drop, .receive true,
      .receive true, .receive true], rfl, rfl⟩
    (show List.Pairwise (fun old new : ℕ × DbFile => old.1 < new.1)
      [(1, ⟨0, ∅, ∅, ∅⟩), (2, ⟨5, ∅, ∅, ∅⟩)] by simp)).2.2 rfl

/-- A write that fails is not tried again: the flush is answered, and so are later ones, while the
file still holds what it held before. -/
theorem history_flush_after_failed_write :
    ∃ s s' : Writer.State WriteCmd (ℕ × DbFile),
      Machine.Reachable historyWriter.step (· = {}) s ∧
      (historyWriter.saves s.sent).Pairwise (fun old new => old.1 < new.1) ∧
      historyWriter.step s (.receive true) = some s' ∧
      s'.answered = s.answered ++ [.flush 0] ∧
      s.sent = [.save 1 ⟨0, ∅, ∅, ∅⟩] ++ .flush 0 :: s'.queue ∧ s'.file = none :=
  ⟨_, _,
    ⟨{}, [.send (.save 1 ⟨0, ∅, ∅, ∅⟩), .receive true, .timeout false, .send (.flush 0)], rfl, rfl⟩,
    show List.Pairwise (fun old new : ℕ × DbFile => old.1 < new.1) [(1, ⟨0, ∅, ∅, ∅⟩)] by simp,
    rfl, rfl, rfl, rfl⟩

end Taskman
