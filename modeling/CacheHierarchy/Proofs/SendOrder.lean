import CacheHierarchy.Proofs.Departures.Cycles
import CacheHierarchy.Proofs.Durability

/-!
# The order in which requests leave a cache

A miss joins the send queue when it is looked up, a write-back only in the cycle after the one in
which it was made, and the queue is in order of arrival. So a write-back leaves ahead of the misses
of the cycle in which it joins the queue, which leave one cycle later still, but it stays behind the
misses that were looked up in the cycle in which it was made.
-/

namespace CacheHierarchy

/-- What cache `i` sent down in cycle `n` is what it had missed on in the cycle before, and behind it
the write-backs that it had made in the cycle before, except for those that the level below had
taken back. -/
def Machine.SendsMissesFirst (m : Machine) (i n : Nat) : Prop :=
  (∀ r ∈ m.missedBefore i n, r.kind.isWriteBack = false) ∧
    ∃ left, m.sentIn i n = m.missedBefore i n ++ left ∧ left.Sublist (m.madeBefore i n) ∧
      (∀ w ∈ left, w.kind.isWriteBack = true) ∧
      ∀ w ∈ m.madeBefore i n, w ∈ left ∨ m.Diverted w

namespace Hierarchy

variable {h : Hierarchy}

theorem Departs.sendsMissesFirst (h' : h.Departs) {i n : Nat} (hi : i < h.machine.caches.length)
    (hn : n < h.cycle) : h.machine.SendsMissesFirst i n := by
  have hc := List.getElem?_eq_getElem hi
  have hrests : (h.machine.history [] i).Rests h.machine.caches[i].cycle _ _ :=
    (Machine.Departs.refocus h' i).own _ hc
  rw [Machine.Departs.cycle h' i _ hc] at hrests
  obtain ⟨left, hsettled⟩ := hrests.kept.settled n hn
  refine ⟨hrests.kept.missed_kind n, left, hsettled.sent, hsettled.sublist, fun w hw => ?_,
    fun w hw => (hsettled.gone w hw).imp_right ?_⟩
  · exact hrests.kept.made_kind n w (hsettled.sublist.subset hw)
  · rintro (hw | hw)
    · exact hw
    · exact absurd hw List.not_mem_nil

/-- In every run of a well-formed configuration, every cache sends in every cycle what it missed on
in the cycle before, and then the write-backs that it made in the cycle before. -/
theorem run_sends_misses_first {c : HierarchyConfig} (hvalid : c.validate = .ok ())
    (hsized : c.Sized) (commands : List Command) :
    ∃ start, ofConfig c = .ok start ∧
      Ends (fun _ h => ∀ i < h.machine.caches.length, ∀ n < h.cycle,
          h.machine.SendsMissesFirst i n)
        (fun fault h => fault = .sumOverflow ∧ h.Exhausted ∨
          ¬c.Aligned ∧ ∃ array addr, fault = .writeBackMissed array addr)
        (run commands start) := by
  obtain ⟨start, p, hstart, -, hends⟩ := exists_safe_run hvalid hsized commands
  have hdeparts := run_departs commands (departs_of_ofConfig hvalid hsized hstart)
  refine ⟨start, hstart, (hends.and hdeparts).mono ?_ fun _ _ => id⟩
  exact fun _ h ⟨_, hdeparts⟩ i hi n hn => hdeparts.sendsMissesFirst hi hn

/-- The read of the second line displaces the first, which is dirty, and no miss is looked up in that
cycle. -/
theorem run_sends_misses_first_singleLine :
    HierarchyConfig.singleLine.validate = .ok () ∧ HierarchyConfig.singleLine.Sized ∧
      ∃ start, ofConfig .singleLine = .ok start ∧
        Ends (fun _ h => ∀ i < h.machine.caches.length, ∀ n < h.cycle,
            h.machine.SendsMissesFirst i n)
          (fun fault h => fault = .sumOverflow ∧ h.Exhausted ∨
            ¬HierarchyConfig.singleLine.Aligned ∧ ∃ array addr, fault = .writeBackMissed array addr)
          (run (.access 0 .write (by decide) rfl :: List.replicate 6 .cycle ++
            .access 64 .read (by decide) rfl :: List.replicate 8 .cycle) start) :=
  ⟨rfl, by decide, run_sends_misses_first rfl (by decide) _⟩

/-- In one cycle the cache looks line 0 up, which it has just displaced for another line, and in the
next it asks for the line ahead of the write-back. -/
theorem singleLine_sends_miss_first :
    HierarchyConfig.singleLine.validate = .ok () ∧
      ∃ start, ofConfig .singleLine = .ok start ∧ Ends
        (fun _ h => h.machine.sentIn 0 12 =
          [{ id := 2, addr := 0, kind := .read, issuedAt := 10 },
            { id := 3, addr := 0, kind := .writeBack, issuedAt := 11 }])
        (fun _ _ => False)
        (run (.access 0 .write (by decide) rfl :: List.replicate 6 .cycle ++
          .access 64 .read (by decide) rfl :: List.replicate 4 .cycle ++
          .access 0 .read (by decide) rfl :: List.replicate 3 .cycle) start) :=
  ⟨rfl, by decide +kernel⟩

end Hierarchy

end CacheHierarchy
