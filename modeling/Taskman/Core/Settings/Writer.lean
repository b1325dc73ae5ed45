import Taskman.Core.Settings
import Taskman.LTS.Debounce

/-!
# The settings writer

One thread writes all settings.  It takes snapshots and flushes from a queue, lets the last snapshot
of a burst wait for 250 ms, and is told to shut down when `SettingsWriter` is dropped.

* `settingsWriter` : `settings_writer_loop` and the messages that `SettingsWriter` sends it;
* `settings_written_in_order` : **snapshots are written in the order they were queued, and after a
  flush or the end the newest one was written**.
-/

namespace Taskman

/-- A message to the settings writer; `reply` is the channel on which a flush is answered. -/
inductive WriteMsg where
  /-- Autosave write (already gated by the caller). -/
  | write (settings : Settings)
  /-- Unconditional write that ignores the autosave gate. -/
  | force (settings : Settings)
  | flush (reply : ℕ)
  | shutdown

/-- Both kinds of snapshot drain through `save_forced`. -/
def WriteMsg.command : WriteMsg → Writer.Command Settings
  | .write s | .force s => .save s
  | .flush _ => .flush
  | .shutdown => .shutdown

/-- `settings_writer_loop`: `pending = Some(s)` replaces what waits, a receive that finds the queue
disconnected breaks, and the writes are `save_forced`. -/
def settingsWriter : Writer WriteMsg Settings where
  command := WriteMsg.command
  shutdown := .shutdown
  command_shutdown := rfl
  replaces _ _ := true
  finishes := false

namespace settingsWriter

theorem rising (ms : List WriteMsg) : settingsWriter.Rising ms :=
  List.pairwise_of_forall fun _ _ => rfl

end settingsWriter

/-- **Snapshots are written in the order they were queued.**  When a flush is answered, the last
snapshot a write was tried for is the newest one queued before the flush, and so it is with all
snapshots once the writer has ended; the file holds it if the write succeeded. -/
theorem settings_written_in_order {s : Writer.State WriteMsg Settings}
    (h : Machine.Reachable settingsWriter.step (· = {}) s) :
    s.written.Sublist (settingsWriter.saves s.sent) ∧
      (∀ action s' m, settingsWriter.step s action = some s' →
        s'.answered = s.answered ++ [m] →
        ∃ before, s.sent = before ++ m :: s'.queue ∧ settingsWriter.Newest before s') ∧
      (s.running = false → settingsWriter.Newest s.sent s) := by
  have hrising := settingsWriter.rising s.sent
  refine ⟨Writer.sublist_of_reachable h hrising, ?_, Writer.newest_of_stopped h hrising⟩
  intro action s' m hs hm
  exact Writer.newest_of_answered h hrising hs hm

/-- Of two snapshots in one burst a flush writes the second. -/
theorem settings_written_in_order_burst :
    ∃ before, [.write {}, .force { theme := .dark }, .flush 0] = before ++ [WriteMsg.flush 0] ∧
      settingsWriter.Newest before {
        answered := [.flush 0]
        file := some { theme := .dark }
        sent := [.write {}, .force { theme := .dark }, .flush 0]
        writes := [({ theme := .dark }, true)] } :=
  (settings_written_in_order
    ⟨{}, [.send (.write {}), .send (.force { theme := .dark }), .send (.flush 0), .receive true,
      .receive true], rfl, rfl⟩).2.1 (.receive true) _ (.flush 0) rfl rfl

end Taskman
