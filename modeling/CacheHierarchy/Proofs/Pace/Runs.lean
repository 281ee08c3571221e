import CacheHierarchy.Proofs.Ledgers
import CacheHierarchy.Proofs.Pace.Stages

/-!
# Runs on time

An access that is issued in time keeps a hierarchy to its timetable, and so does every cycle. As
long as the timetable is one of words, no clock runs out, and as long as there are few accesses, no
number does, so where the lines of the levels agree nothing stops a run. When all requests are due
the hierarchy is idle.
-/

namespace CacheHierarchy

/-- The times of a timetable up to a cycle and the numbers of so many accesses are words. -/
structure Timetable.Fits (t : Timetable) (now accesses : Nat) : Prop where
  clocks : ∀ site, now + 1 + max (t.latency site) 1 < wordLimit
  accesses : 5 * accesses + 1 < wordLimit

variable {t : Timetable} {p : Plan}

namespace Machine

variable {m : Machine} {now accesses : Nat}

theorem PacedIn.mono {accesses' : Nat} (h : m.PacedIn t now accesses)
    (hle : accesses ≤ accesses') : m.PacedIn t now accesses' :=
  h.imp fun _ => .imp id (.imp (le_trans · hle) id)

/-- A machine that keeps to a timetable of words has not run out of them. -/
theorem PacedIn.not_overflows (hfits : t.Fits now accesses) (h : m.PacedIn t now accesses) :
    ¬m.Overflows p := by
  obtain ⟨x, rfl, haccesses, h⟩ := h
  have hclock : ∀ site, ¬wordLimit ≤ t.clock x site + max (t.latency site) 1 := fun site => by
    have hclock := t.clock_le x site
    have hfits := hfits.clocks site
    omega
  rintro (htime | ⟨hnumbers, x', htracks⟩)
  · rcases htime with hmemory | ⟨c, hc, hcache⟩
    · rw [h.cycle, h.latency] at hmemory
      exact hclock .memory hmemory
    · obtain ⟨i, hi⟩ := List.mem_iff_getElem?.1 hc
      rw [(h.caches i c hi).cycle, (h.caches i c hi).latency] at hcache
      exact hclock (.cache i) hcache
  · have hfits := hfits.accesses
    have hissued : (m.overview x').accesses = x.census.accesses :=
      congrArg Census.accesses h.census
    have hids : m.nextId ≤ 5 * (m.overview x').accesses := htracks.reach.nextId_le
    have hreads : m.memory.reads ≤ (m.overview x').accesses := htracks.reach.memoryReads_le
    have hwriteBacks : m.memory.writeBacks ≤ 5 * (m.overview x').accesses :=
      htracks.reach.memoryWriteBacks_le
    rcases hnumbers with hnumber | hnumber | hnumber <;> omega

end Machine

namespace Hierarchy

variable {h : Hierarchy} {m : Machine} {x : Phase} {r : Request} {passed accesses now : Nat}

def phase (h : Hierarchy) (passed : Nat) : Phase where
  now := h.cycle
  passed
  census := ⟨h.inFlight, h.completed⟩

structure Paced (t : Timetable) (passed accesses : Nat) (h : Hierarchy) : Prop where
  topology : h.topology = t.topology
  machine : h.machine.Paced t (h.phase passed)
  accesses : h.inFlight + h.completed = accesses
  prompt : ∀ d ∈ h.completions, d.latency ≤ t.travel .finished

structure PacedIn (t : Timetable) (now accesses : Nat) (h : Hierarchy) : Prop where
  cycle : h.cycle = now
  completed : h.completed ≤ accesses
  machine : h.machine.PacedIn t now accesses

theorem PacedIn.not_overflows (hfits : t.Fits now accesses) (h' : h.PacedIn t now accesses) :
    ¬h.Overflows p := by
  have hclock := hfits.clocks .memory
  have haccesses := hfits.accesses
  have hcycle := h'.cycle
  have hcompleted := h'.completed
  rintro (hmachine | hlimit | hlimit)
  · exact h'.machine.not_overflows hfits hmachine
  · omega
  · omega

namespace Paced

theorem pacedIn (h' : h.Paced t passed accesses) : h.PacedIn t h.cycle accesses where
  cycle := rfl
  completed := h'.accesses ▸ Nat.le_add_left _ _
  machine := h'.accesses ▸ h'.machine.pacedIn

theorem onMachine (h' : h.Paced t passed accesses) (hm : m.Paced t x) (hnow : x.now = h.cycle)
    (hleft : x.left = none) (hdone : x.census.done = h.completed) {accesses' : Nat}
    (haccesses : x.census.accesses = accesses') :
    Paced t x.passed accesses' { h with machine := m } := by
  have hphase : x = phase { h with machine := m } x.passed := by
    have hcensus : x.census = ⟨m.outstanding.length, h.completed⟩ := by
      rw [← hdone, ← hm.census]
      rfl
    cases x
    cases hnow
    cases hleft
    cases hcensus
    rfl
  refine ⟨h'.topology, ?_, ?_, h'.prompt⟩
  · rw [← hphase]
    exact hm
  · rw [← haccesses, hphase]
    rfl

end Paced

section Accesses

variable (ht : t.Sound)

include ht

theorem enter_paces (hm : m.Paced t x) (hover : x.passed = 0) (hleft : x.left = none)
    (hr : r.kind.isWriteBack = false) (hissued : r.issuedAt = x.now) (hlast : x.now ≤ t.last) :
    KeepsPace t x (enter t.topology r m) := by
  have hclock : ∀ site, t.clock x site = x.now := fun site => by
    rw [Timetable.clock, hover, if_neg (Nat.not_lt_zero _), Nat.add_zero]
  have hadmits : ∀ s : Spot, s.isGate = true → s.Carries r →
      t.latency s.site ≤ t.travel s →
      t.Admits x s { r with readyAt := t.clock x s.site + t.latency s.site } := by
    intro s hgate hcarries htravel
    refine t.admits_gate hgate (fun hlt => ?_) ?_ (fun _ => hissued.trans_le hlast) hcarries
    · rw [hover] at hlt
      exact absurd hlt (Nat.not_lt_zero _)
    · rw [hclock, Timetable.due_demand hr, hissued]
      exact Nat.add_le_add_left htravel _
  unfold enter
  cases hentry : t.topology.entry? with
  | none =>
    have hfor : t.topology.entryFor? r.kind = none := by
      rw [Topology.entryFor?, hentry]
      rfl
    have hnone := Topology.last?_eq_none_iff.2 (Topology.entryFor?_eq_none_iff.1 hfor)
    exact Machine.sendToMemory_paces hm (hadmits .memory rfl trivial (ht.enterMemory hnone))
      (.inl hleft)
  | some ports =>
    have hfor : t.topology.entryFor? r.kind = some (ports.on r.kind.side) := by
      rw [Topology.entryFor?, hentry]
      rfl
    refine Ends.bind (Machine.cacheAt_paces hm fun c _ hc => ?_)
    refine Ends.bind (Machine.acceptLookup_paces hm hc ?_ (.inl hleft) fun c' hc' =>
      Machine.setCache_paces hm hc')
    exact hadmits (.lookups _) rfl hr (ht.enter _ _ hfor)

theorem access_paces {addr : Nat} {kind : AccessKind} (hkind : kind.isDemand = true)
    (hlast : h.cycle ≤ t.last) (h' : h.Paced t 0 accesses) :
    Ends (fun _ s => s.Paced t 0 (accesses + 1) ∧ s.cycle = h.cycle)
      (fun _ => PacedIn t h.cycle (accesses + 1)) (access addr kind h) := by
  have hfaults : ∀ (_ : Fault) (m : Machine), m.PacedIn t h.cycle (h.phase 0).census.accesses →
      m.PacedIn t h.cycle (accesses + 1) := fun _ m hm =>
    hm.mono (h'.accesses.trans_le (Nat.le_succ _))
  let x := (h.phase 0).recounted ⟨h.inFlight + 1, h.completed⟩
  have haccesses : x.census.accesses = accesses + 1 := by
    have haccesses := h'.accesses
    simp only [x, Phase.recounted, Census.accesses]
    omega
  unfold access
  rw [if_pos hkind]
  refine Ends.get_bind (onMachine_ends (Ends.mono (Q := fun _ m => m.Paced t x)
    (E := fun _ m => m.PacedIn t h.cycle (accesses + 1)) ?_ (fun _ m hm => ?_) fun _ m hm => ?_))
  · refine Ends.seq ((Machine.freshId_paces h'.machine).mono (fun _ _ => id) hfaults) ?_
    intro number m hm
    refine Ends.seq ((Machine.record_paces hm rfl).mono (fun _ _ => id) hfaults) fun _ m hm => ?_
    refine Ends.get_bind (Ends.bind ((Machine.attempt_paces hm fun outstanding hinsert =>
      Ends.set_bind ?_).mono (fun _ _ => id) hfaults))
    obtain ⟨-, rfl⟩ := Outstanding.insert_eq_ok_iff.1 hinsert
    have hcensus : m.census = ⟨h.inFlight, h.completed⟩ := hm.census
    rw [Machine.census, Census.mk.injEq] at hcensus
    have hissued := hm.recount ⟨m.outstanding.entries ++ [{ id := number, addr, kind }]⟩ m.journal
      fun _ => id
    rw [hcensus.2, Outstanding.length, List.length_append, ← Outstanding.length, hcensus.1]
      at hissued
    rw [h'.topology, ← haccesses]
    exact enter_paces ht hissued rfl rfl (AccessKind.isWriteBack_of_isDemand hkind) rfl hlast
  · exact ⟨h'.onMachine hm rfl rfl rfl haccesses, rfl⟩
  · exact ⟨rfl, h'.pacedIn.completed.trans (Nat.le_succ _), hm⟩

end Accesses

section Cycles

theorem retire_paces {finished : List Request} (hfinished : h.machine.finished = r :: finished)
    (h' : h.Paced t passed accesses) :
    Ends (fun _ s => s.Paced t passed accesses ∧ s.machine.finished = finished ∧ s.cycle = h.cycle)
      (fun _ => PacedIn t h.cycle accesses)
      (retire r { h with machine := { h.machine with finished } }) := by
  have hleft : ∀ outstanding journal, Machine.Paced t
      ((h.phase passed).recounted ⟨outstanding.length, journal.countP Event.isRetired⟩)
      { h.machine with outstanding, finished, journal } := fun outstanding journal =>
    h'.machine.recount outstanding journal fun r hr => hfinished ▸ List.mem_cons_of_mem _ hr
  have haccesses : h.machine.outstanding.length + h.completed = accesses := h'.accesses
  have hdone : h.machine.journal.countP Event.isRetired = h.completed :=
    congrArg Census.done h'.machine.census
  refine Ends.get_bind ?_
  dsimp only
  cases hremove : h.machine.outstanding.remove? r.id with
  | none =>
    refine ⟨rfl, h'.pacedIn.completed, _, rfl, ?_, hleft h.machine.outstanding h.machine.journal⟩
    simp only [Phase.recounted, Census.accesses]
    omega
  | some removed =>
    obtain ⟨e, outstanding⟩ := removed
    have hlength := Outstanding.length_of_remove? hremove
    have hretired := hleft outstanding (.retired r h.cycle :: h.machine.journal)
    rw [List.countP_cons_of_pos (by rfl), hdone] at hretired
    refine Ends.bind (onMachine_ends (Ends.modify_bind (Machine.record_ends ?_)))
    refine Ends.bind (Ends.attempt_add (Ends.of_modify ⟨?_, rfl, rfl⟩) fun _ => ?_)
    · refine ⟨h'.topology, hretired, ?_, fun d hd => ?_⟩
      · change outstanding.length + (h.completed + 1) = accesses
        omega
      · rcases List.mem_append.1 hd with hd | hd
        · exact h'.prompt d hd
        · rw [List.mem_singleton.1 hd]
          have hprompt := h'.machine.finished r (hfinished ▸ List.mem_cons_self)
          exact Nat.sub_le_iff_le_add'.2 hprompt
    · refine ⟨rfl, h'.pacedIn.completed, _, rfl, ?_, hretired⟩
      simp only [Phase.recounted, Census.accesses]
      omega

theorem retireReady_paces (n : Nat) (hn : h.machine.finished.length = n)
    (h' : h.Paced t passed accesses) :
    Ends (fun _ s => s.Paced t passed accesses ∧ s.machine.finished = [] ∧ s.cycle = h.cycle)
      (fun _ => PacedIn t h.cycle accesses) (retireReady n h) := by
  induction n generalizing h with
  | zero => exact ⟨h', List.length_eq_zero_iff.1 hn, rfl⟩
  | succ n ih =>
    cases hfinished : h.machine.finished with
    | nil =>
      rw [hfinished] at hn
      cases hn
    | cons r finished =>
      rw [hfinished, List.length_cons, Nat.add_right_cancel_iff] at hn
      refine Ends.get_bind ?_
      rw [hfinished]
      refine Ends.bind (onMachine_ends (Ends.of_modify (Ends.seq (retire_paces hfinished h') ?_)))
      rintro - s ⟨hs, hleft, hcycle⟩
      rw [← hcycle]
      exact ih (by rw [hleft, hn]) hs

theorem runCycle_paces (ht : t.Sound) (h' : h.Paced t 0 accesses) :
    Ends (fun _ s => s.Paced t 0 accesses ∧ s.machine.finished = [] ∧ s.cycle = h.cycle + 1)
      (fun _ => PacedIn t h.cycle accesses) (runCycle h) := by
  have hmachine := Machine.runCycle_paces (x := h.phase 0) ht h'.machine
  refine Ends.bind (onMachine_ends (hmachine.mono (fun _ m hm => ?_) fun _ m hm => ?_))
  · have hover := h'.onMachine hm rfl rfl rfl h'.accesses
    refine Ends.seq (Ends.get_bind (retireReady_paces _ rfl hover)) ?_
    rintro - s ⟨hs, hfinished, hcycle⟩
    refine Ends.get_bind (Ends.bind (Ends.attempt_add ⟨?_, hfinished, congrArg Nat.succ hcycle⟩
      fun _ => ?_))
    · have hnew := Machine.Paced.newCycle (x := s.phase 0) hs.machine hfinished
      exact ⟨hs.topology, hnew, hs.accesses, hs.prompt⟩
    · exact hcycle ▸ hs.pacedIn
  · exact ⟨rfl, h'.pacedIn.completed, h'.accesses ▸ hm⟩

end Cycles

/-- A hierarchy that keeps to a timetable, with all completions there have ever been. -/
structure Steady (p : Plan) (t : Timetable) (accesses : Nat) (h : Hierarchy) : Prop where
  tracked : h.Tracked p
  counted : h.Counted
  paced : h.Paced t 0 accesses

namespace Steady

variable (hp : ∀ b, p.topology.base? = some b → p.Aligned b)
  (ht : t.Sound)

include hp ht

theorem access {addr : Nat} {kind : AccessKind} (haddr : addr < wordLimit)
    (hkind : kind.isDemand = true) (hfits : t.Fits h.cycle (accesses + 1))
    (hlast : h.cycle ≤ t.last) (h' : h.Steady p t accesses) :
    Ends (fun _ s => s.Steady p t (accesses + 1) ∧ s.cycle = h.cycle) (fun _ _ => False)
      (access addr kind h) := by
  have hends := (access_ends haddr hkind h'.tracked).and
    (perform_counted (.access addr kind haddr hkind) h'.counted)
  refine (hends.meet (access_paces ht hkind hlast h'.paced)).mono ?_ ?_
  · rintro - s ⟨⟨htracked, hcounted⟩, hpaced, hcycle⟩
    exact ⟨⟨htracked, hcounted, hpaced⟩, hcycle⟩
  · rintro fault s ⟨hfails, hpaced⟩
    exact hpaced.not_overflows hfits (hfails.overflows hp).2

theorem runCycle (hfits : t.Fits h.cycle accesses) (h' : h.Steady p t accesses) :
    Ends (fun _ s => s.Steady p t accesses ∧ s.machine.finished = [] ∧ s.cycle = h.cycle + 1)
      (fun _ _ => False) (runCycle h) := by
  have hends := (runCycle_ends h'.tracked).and (perform_counted .cycle h'.counted)
  refine (hends.meet (runCycle_paces ht h'.paced)).mono ?_ ?_
  · rintro - s ⟨⟨htracked, hcounted⟩, hpaced, hfinished, hcycle⟩
    exact ⟨⟨htracked, hcounted, hpaced⟩, hfinished, hcycle⟩
  · rintro fault s ⟨hfails, hpaced⟩
    exact hpaced.not_overflows hfits (hfails.overflows hp).2

omit hp ht in
/-- A hierarchy is idle when everything was due before. -/
theorem isIdle (hfinished : h.machine.finished = [])
    (hdue : ∀ s, t.topology.Has s → t.last + t.travel s < h.cycle ∧ t.late s < h.cycle)
    (h' : h.Steady p t accesses) : h.isIdle = true := by
  have htraffic : h.machine.traffic = 0 := by
    refine Multiset.eq_zero_of_forall_notMem ?_
    rintro ⟨s, r⟩ hr
    rw [← Machine.mem_itemsAt] at hr
    have hs : s ≠ .finished := by
      rintro rfl
      rw [Machine.itemsAt, hfinished] at hr
      cases hr
    obtain ⟨hhas, hnext, hle, -, hissued, -⟩ := h'.paced.machine.admits hs hr
    have hlate : h.cycle ≤ t.due s r := (Nat.le_add_right _ _).trans (hnext.trans hle)
    have hpast := hdue s hhas
    cases hkind : r.kind.isWriteBack with
    | true =>
      rw [Timetable.due_writeBack hkind] at hlate
      omega
    | false =>
      have hlast := hissued hkind
      rw [Timetable.due_demand hkind] at hlate
      omega
  have hqueued : h.queued = 0 := by
    rw [queued, ← Machine.card_traffic hfinished, htraffic, Multiset.card_zero]
  rw [isIdle_iff_count, ← h'.tracked.queued_eq hfinished, hqueued]

end Steady

end Hierarchy

end CacheHierarchy
