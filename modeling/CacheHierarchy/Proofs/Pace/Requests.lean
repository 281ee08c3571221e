import CacheHierarchy.Proofs.Pace.Actions
import CacheHierarchy.Proofs.Pace.Phases

/-!
# Requests on time

What is done with a request that leaves a queue. It is on time in its next queue because the
timetable allows for the way, and a demand request that is on time in a fill queue is filled in
before the last of what it displaces is due.
-/

namespace CacheHierarchy

/-- A spot of a cache is one of its queues. -/
theorem Topology.has_of_site {t : Topology} {s : Spot} {i : Nat} (hs : s.site = .cache i)
    (hi : i < t.size) : t.Has s := by
  cases s <;> cases hs <;> exact hi

theorem Timetable.turn_of_site {t : Timetable} {x : Phase} {s : Spot} {i : Nat}
    (hs : s.site = .cache i) (hi : i < t.topology.size) (hstage : x.passed = t.topology.stage s) :
    t.Turn x i := by
  refine ⟨hi, ?_, ?_⟩ <;> cases s <;> cases hs <;> simp only [Topology.stage] at hstage <;> omega

namespace Machine

variable {t : Timetable} {x : Phase} {m : Machine} {i : Nat} {c : Cache} {s : Spot} {r : Request}

section Answers

variable (ht : t.Sound)

include ht

/-- The base hands a request up in time for the cache above. -/
theorem sendUp_paces (h : m.Paced t x) (hturn : t.Turn x i) {ports : Ports}
    (habove : t.topology.above i = .caches ports) (hs : s = .lookups i ∨ s = .fills i)
    (hr : r.kind.isWriteBack = false) (hissued : r.issuedAt ≤ t.last) (hdue : x.now ≤ t.due s r) :
    KeepsPace t x (sendUp i ports r m) := by
  obtain ⟨hbase, hports⟩ := Topology.base?_of_above habove
  have htop := Topology.mem_tops_of_entryFor? (hports r.kind)
  refine Ends.seq (handFill_paces h hturn (fun _ => ?_) fun _ => hissued) fun _ m h => ?_
  · rw [hturn.clock_of_lt (Topology.lt_base htop hbase)]
    have hup := ht.up i _ hbase htop
    rw [Timetable.due_demand hr] at hdue ⊢
    rcases hs with rfl | rfl <;> omega
  · exact Ends.bind (cacheAt_paces h fun c _ _ => record_paces h rfl)

end Answers

section Fills

theorem absorb_paces (h : m.Paced t x) : KeepsPace t x (absorb i r m) := by
  refine Ends.bind (cacheAt_paces h fun c _ hc => ?_)
  split
  · exact h.pacedIn
  refine Ends.bind (attempt_paces h fun tags _ => ?_)
  cases c.expected.settle? r.id with
  | none => exact h.pacedIn
  | some settled => exact Ends.seq (setCache_paces h { hc with }) fun _ m h => record_paces h rfl

variable (ht : t.Sound) (hx : t.Filling x i)

include ht hx

theorem fillBypassed_paces (h : m.Paced t x) (kind : AccessKind)
    (hdone : x.now ≤ r.issuedAt + t.travel .finished) :
    KeepsPace t x (fillBypassed i r kind m) := by
  refine Ends.bind (cacheAt_paces h fun c _ hc => ?_)
  refine Ends.seq (setCache_paces h { hc with }) fun _ m h => ?_
  refine Ends.seq (record_paces h rfl) fun _ m h => ?_
  split
  · refine Ends.seq (writeStraightBack_paces ht hx h _) fun _ m h => ?_
    exact finish_paces h hdone
  · exact finish_paces h hdone

theorem fillInstalled_paces (h : m.Paced t x) (kind : AccessKind)
    (hdone : x.now ≤ r.issuedAt + t.travel .finished) :
    KeepsPace t x (fillInstalled i r kind m) := by
  refine Ends.bind (cacheAt_paces h fun c _ hc => ?_)
  refine Ends.bind (attempt_paces h fun filled _ => ?_)
  refine Ends.seq (setCache_paces h { hc with }) fun _ m h => ?_
  refine Ends.seq (record_paces h rfl) fun _ m h => ?_
  cases filled.2.lastEviction with
  | none => exact finish_paces h hdone
  | some evicted =>
    refine Ends.seq (record_paces h rfl) fun _ m h => ?_
    split
    · split
      · exact h.pacedIn
      · exact Ends.seq (writeBack_paces ht hx h) fun _ m h => finish_paces h hdone
    · exact finish_paces h hdone

theorem fillTop_paces (h : m.Paced t x) (hdone : x.now ≤ r.issuedAt + t.travel .finished) :
    KeepsPace t x (fillTop i r m) := by
  refine Ends.get_bind ?_
  split
  · exact fillBypassed_paces ht hx h _ hdone
  · exact fillInstalled_paces ht hx h _ hdone

theorem fillBelow_paces (h : m.Paced t x) {ports : Ports}
    (habove : t.topology.above i = .caches ports) (hr : r.kind.isWriteBack = false)
    (hissued : r.issuedAt ≤ t.last) (hdue : x.now ≤ t.due (.fills i) r) :
    KeepsPace t x (fillBelow i ports r m) := by
  refine Ends.seq (sendUp_paces ht h hx.turn habove (.inr rfl) hr hissued hdue) fun _ m h => ?_
  refine Ends.bind (cacheAt_paces h fun c _ hc => ?_)
  refine Ends.bind (attempt_paces h fun resident _ => ?_)
  split
  · exact record_paces h rfl
  refine Ends.bind (attempt_paces h fun filled _ => ?_)
  refine Ends.seq (setCache_paces h { hc with }) fun _ m h => ?_
  refine Ends.seq (record_paces h rfl) fun _ m h => ?_
  cases filled.2.lastEviction with
  | none => exact h
  | some evicted =>
    have hrepair : ∀ m, m.Paced t x → KeepsPace t x
        ((do divertWriteBacks i evicted.addr; withdrawAbove i evicted.addr : Action Unit) m) :=
      fun m h => Ends.seq (divertWriteBacks_paces ht hx h) fun _ m h => withdrawAbove_paces ht hx h
    refine Ends.seq (record_paces h rfl) fun _ m h => ?_
    split
    · exact Ends.seq (writeBack_paces ht hx h) fun _ m h => hrepair m h
    · exact hrepair m h

end Fills

section Requests

variable (ht : t.Sound) (hi : i < t.topology.size)

include ht hi

theorem fillOne_paces (h : m.Paced t x) (hr : t.Handles x (.fills i) r) :
    KeepsPace t x (fillOne i r m) := by
  unfold fillOne
  split
  · exact absorb_paces h
  rename_i hdemand
  rw [Bool.not_eq_true] at hdemand
  have hdue := hr.now_le_due
  have hissued := hr.admits.issued hdemand
  have hnow : x.now ≤ r.issuedAt + t.travel (.fills i) := by
    rwa [Timetable.due_demand hdemand] at hdue
  have hfilling : t.Filling x i :=
    ⟨Timetable.turn_of_site rfl hi hr.stage, hr.stage, by omega⟩
  refine Ends.bind (cacheAt_paces h fun c _ hc => ?_)
  rw [hc.above]
  cases habove : t.topology.above i with
  | core =>
    have hfilled := ht.filled i (Topology.mem_tops_of_above habove hi)
    exact fillTop_paces ht hfilling h (by omega)
  | caches ports => exact fillBelow_paces ht hfilling h habove hdemand hissued hdue

theorem sendOne_paces (h : m.Paced t x) (hr : t.Handles x (.sends i) r) :
    KeepsPace t x (sendOne i r m) := by
  have hturn := Timetable.turn_of_site rfl hi hr.stage
  have hdue := hr.now_le_due
  have hissued := hr.admits.issued
  refine Ends.bind (cacheAt_paces h fun c _ hc => ?_)
  split
  · refine Ends.seq (record_paces h rfl) fun _ m h => ?_
    rw [hc.below]
    cases hbelow : t.topology.below i with
    | memory =>
      refine sendToMemory_paces h (hturn.admits_memory ?_ hissued) (.inr hturn.over_lt_memory.ne')
      have hleave := ht.leave i hi hbelow
      cases hkind : r.kind.isWriteBack with
      | true =>
        rw [Timetable.due_writeBack hkind] at hdue ⊢
        omega
      | false =>
        rw [Timetable.due_demand hkind] at hdue ⊢
        omega
    | cache b =>
      obtain ⟨hbase, hne⟩ := Topology.base?_of_below hbelow
      have hlt := Topology.lt_base (Topology.mem_tops_of_below hbelow hi) hbase
      have hdown := ht.down i b hi hbelow
      split
      · rename_i hkind
        refine handFill_paces h hturn (fun _ => ?_) hissued
        rw [hturn.clock_of_gt hlt]
        rw [Timetable.due_writeBack hkind] at hdue ⊢
        omega
      · rename_i hkind
        rw [Bool.not_eq_true] at hkind
        refine handDown_paces h hturn (fun _ => ?_) hissued hkind
        rw [hturn.clock_of_gt hlt]
        rw [Timetable.due_demand hkind] at hdue ⊢
        omega
  · exact h.pacedIn

theorem paced_miss (hc : c.Paced t x i) (hr : t.Handles x (.lookups i) r) (tags : TagArray)
    (isMiss : Bool) :
    Cache.Paced t x i { c with tags, sends := c.sends.push { r with isMiss } } := by
  have hturn := Timetable.turn_of_site rfl hi hr.stage
  have hstage := hr.stage
  have hnow := hr.now_le_leavesAt
  have hdue := hr.admits.le_due
  have hmiss := ht.miss i
  have hkind : r.kind.isWriteBack = false := hr.admits.carries
  have hover : t.topology.stage (.sends i) < x.passed := by
    simp only [hstage, Topology.stage]
    omega
  have hadmits : t.Admits x (.sends i) { r with isMiss } := by
    refine ⟨?_, ?_, ?_, hr.admits.issued, trivial⟩
    · rw [Timetable.next, if_pos hover]
      exact Nat.succ_le_succ hnow
    · rw [Timetable.due_demand hkind] at hdue
      refine le_of_le_of_eq ?_ (Timetable.due_demand hkind).symm
      exact (Nat.succ_le_succ hdue).trans (Nat.add_le_add_left hmiss _)
    · change r.readyAt ≤ t.clock x (.cache i) + 0
      rw [hturn.clock_self]
      exact hr.ready
  exact { hc with
    sends := hc.sends.push hadmits (fun hgate => Bool.noConfusion hgate) (.inr hover.ne) }

theorem lookUpTags_paces (h : m.Paced t x) (hr : t.Handles x (.lookups i) r)
    (hdone : x.now ≤ r.issuedAt + t.travel .finished) : KeepsPace t x (lookUpTags i r m) := by
  refine Ends.bind (cacheAt_paces h fun c _ hc => ?_)
  refine Ends.bind (attempt_paces h fun found _ => ?_)
  refine Ends.seq (record_paces h rfl) fun _ m h => ?_
  split
  · exact Ends.seq (setCache_paces h { hc with }) fun _ m h => finish_paces h hdone
  · refine Ends.seq (setCache_paces h (paced_miss ht hi hc hr _ true)) fun _ m h => ?_
    exact h.remember (Outstanding.length_markMiss ..)

theorem lookUpTop_paces (h : m.Paced t x) (hr : t.Handles x (.lookups i) r)
    (hdone : x.now ≤ r.issuedAt + t.travel .finished) : KeepsPace t x (lookUpTop i r m) := by
  refine Ends.bind (cacheAt_paces h fun c _ hc => ?_)
  refine Ends.bind (attempt_paces h fun resident _ => ?_)
  split
  · exact lookUpTags_paces ht hi h hr hdone
  refine Ends.get_bind ?_
  cases hmerge : m.outstanding.merge? i (c.tags.geometry.lineOf r.addr) r.kind with
  | none => exact lookUpTags_paces ht hi h hr hdone
  | some merged =>
    refine Ends.modify_bind ?_
    refine Ends.seq (setCache_paces (h.remember (Outstanding.length_of_merge? hmerge))
      { hc with }) fun _ m h => ?_
    exact Ends.seq (record_paces h rfl) fun _ m h => finish_paces h hdone

theorem lookUpBelow_paces (h : m.Paced t x) (hr : t.Handles x (.lookups i) r) {ports : Ports}
    (habove : t.topology.above i = .caches ports) : KeepsPace t x (lookUpBelow i ports r m) := by
  have hkind : r.kind.isWriteBack = false := hr.admits.carries
  refine Ends.bind (cacheAt_paces h fun c _ hc => ?_)
  refine Ends.bind (attempt_paces h fun found _ => ?_)
  refine Ends.seq (record_paces h rfl) fun _ m h => ?_
  split
  · refine Ends.seq (setCache_paces h { hc with }) fun _ m h => ?_
    exact sendUp_paces ht h (Timetable.turn_of_site rfl hi hr.stage) habove (.inl rfl) hkind
      (hr.admits.issued hkind) hr.now_le_due
  · exact setCache_paces h (paced_miss ht hi hc hr _ r.isMiss)

theorem lookUpOne_paces (h : m.Paced t x) (hr : t.Handles x (.lookups i) r) :
    KeepsPace t x (lookUpOne i r m) := by
  refine Ends.bind (cacheAt_paces h fun c _ hc => ?_)
  rw [hc.above]
  cases habove : t.topology.above i with
  | core =>
    have hkind : r.kind.isWriteBack = false := hr.admits.carries
    have hdue := hr.now_le_due
    have hhit := ht.hit i (Topology.mem_tops_of_above habove hi)
    rw [Timetable.due_demand hkind] at hdue
    exact lookUpTop_paces ht hi h hr (by omega)
  | caches ports => exact lookUpBelow_paces ht hi h hr habove

end Requests

end Machine

end CacheHierarchy
