import CacheHierarchy.Proofs.Outline.Stages
import CacheHierarchy.Proofs.Pace.Requests

/-!
# Stages on time

In the stage of a queue every request leaves it that can leave in the cycle, so nothing is left
behind that would be late. A cycle takes a machine through all stages.
-/

namespace CacheHierarchy

theorem GatedQueue.Paced.release {t : Timetable} {x : Phase} {i : Nat} (ht : t.Sound)
    {sends writeBacks : GatedQueue Request} (h : sends.Paced t x (.sends i))
    (hwriteBacks : writeBacks.Paced t x (.writeBacks i))
    (hstage : x.passed = t.topology.stage (.writeBacks i)) :
    (sends.append writeBacks.items).Paced t x (.sends i) where
  admits r hr := by
    rcases List.mem_append.1 hr with hr | hr
    · exact h.admits r hr
    · obtain ⟨hnext, hdue, hhorizon, hissued, hkind⟩ := hwriteBacks.admits r hr
      rw [Timetable.due_writeBack hkind] at hdue
      refine ⟨?_, ?_, hhorizon, hissued, trivial⟩
      · refine le_trans (le_of_eq ?_) hnext
        simp [Timetable.next, hstage, Topology.stage]
      · rw [Timetable.due_writeBack hkind]
        exact hdue.trans (ht.release i)
  sorted hgate := Bool.noConfusion hgate
  left n hn hsends := by
    simp only [hstage, Topology.stage] at hsends
    omega

theorem GatedQueue.Paced.popReady? {t : Timetable} {x : Phase} {s : Spot}
    {q rest : GatedQueue Request} {now : Nat} {r : Request} (h : q.Paced t x s)
    (hpop : q.popReady? now = some (r, rest)) :
    rest.Paced t x s ∧ q.items = r :: rest.items ∧ r.readyAt ≤ now := by
  obtain ⟨hitems, hready⟩ := GatedQueue.popReady?_eq_some_iff.1 hpop
  exact ⟨h.sublist (sublist_of_popReady? hpop), hitems, Timed.isReady_iff.1 hready⟩

namespace Machine

variable {t : Timetable} {x : Phase} {m : Machine} {i : Nat} {c : Cache} {s : Spot} {r : Request}

/-- What the timetable needs to know of how requests leave a queue of a cache. -/
structure Empties (t : Timetable) (i : Nat) (s : Spot) (queue : Cache → GatedQueue Request)
    (take? : Cache → Option (Request × Cache)) : Prop where
  site : s.site = .cache i
  items : ∀ {m : Machine} {c : Cache}, m.caches[i]? = some c → m.itemsAt s = (queue c).items
  paced : ∀ {x : Phase} {c : Cache}, c.Paced t x i → (queue c).Paced t x s
  takes : ∀ {x : Phase} {c c' : Cache} {r : Request}, take? c = some (r, c') → c.Paced t x i →
    c'.Paced t x i ∧ (queue c).items = r :: (queue c').items ∧ r.readyAt ≤ c.cycle
  /-- What is left waits until the next cycle. -/
  waits : ∀ {x : Phase} {c : Cache}, take? c = none → c.cycle = x.now → c.Paced t x i →
    ∀ r ∈ (queue c).items, x.now < s.leavesAt r

theorem empties_fills : Empties t i (.fills i) Cache.fills Cache.takeFill? where
  site := rfl
  items hc := view_eq hc _ _
  paced hc := hc.fills
  takes htake hc := by
    obtain ⟨⟨r', fills⟩, hpop, heq⟩ := Option.map_eq_some_iff.1 htake
    cases heq
    have htaken := hc.fills.popReady? hpop
    exact ⟨{ hc with fills := htaken.1 }, htaken.2⟩
  waits htake hcycle hc :=
    hcycle ▸ late_of_popReady? (hc.fills.sorted rfl) (Option.map_eq_none_iff.1 htake)

theorem empties_lookups : Empties t i (.lookups i) Cache.lookups Cache.takeLookup? where
  site := rfl
  items hc := view_eq hc _ _
  paced hc := hc.lookups
  takes htake hc := by
    obtain ⟨⟨r', lookups⟩, hpop, heq⟩ := Option.map_eq_some_iff.1 htake
    cases heq
    have htaken := hc.lookups.popReady? hpop
    exact ⟨{ hc with lookups := htaken.1 }, htaken.2⟩
  waits htake hcycle hc :=
    hcycle ▸ late_of_popReady? (hc.lookups.sorted rfl) (Option.map_eq_none_iff.1 htake)

theorem empties_sends : Empties t i (.sends i) Cache.sends Cache.takeSend? where
  site := rfl
  items hc := view_eq hc _ _
  paced hc := hc.sends
  takes htake hc := by
    obtain ⟨⟨r', sends⟩, hpop, heq⟩ := Option.map_eq_some_iff.1 htake
    cases heq
    have htaken := hc.sends.popReady? hpop
    exact ⟨{ hc with sends := htaken.1 }, htaken.2⟩
  waits {x c} htake hcycle hc r hr := by
    have hpop := Option.map_eq_none_iff.1 htake
    cases hitems : c.sends.items with
    | nil =>
      rw [hitems] at hr
      cases hr
    | cons head rest =>
      have hready := (hc.sends.admits head (hitems ▸ List.mem_cons_self)).le_horizon
      change head.readyAt ≤ t.clock x (.cache i) + 0 at hready
      rw [← hc.cycle, Nat.add_zero] at hready
      simp [GatedQueue.popReady?, hitems, Timed.isReady, hready] at hpop

/-- A request that leaves in the stage of its queue is on time, and one fewer is left. -/
theorem Empties.taken {queue : Cache → GatedQueue Request}
    {take? : Cache → Option (Request × Cache)} (hempties : Empties t i s queue take?)
    (hi : i < t.topology.size) (hstage : x.passed = t.topology.stage s) {n : Nat}
    (h : m.Paced t (x.leaving (n + 1))) (hc : m.caches[i]? = some c) {c' : Cache}
    (htake : take? c = some (r, c')) :
    t.Handles (x.leaving n) s r ∧ (m.put i c').Paced t (x.leaving n) := by
  have hhas : t.topology.Has s := Topology.has_of_site hempties.site hi
  have hpaced := h.caches i c hc
  have hcycle : c.cycle = x.now := by
    have hturn : t.Turn (x.leaving (n + 1)) i := Timetable.turn_of_site hempties.site hi hstage
    exact hpaced.cycle.trans hturn.clock_self
  obtain ⟨hpaced', hitems, hready⟩ := hempties.takes htake hpaced
  have hlength := (hempties.paced hpaced).left (n + 1) rfl hstage.symm
  rw [GatedQueue.length, hitems, List.length_cons] at hlength
  refine ⟨?_, (h.put hpaced').leaving hhas hstage ?_⟩
  · exact {
      admits := ((hempties.paced hpaced).admits r (hitems ▸ List.mem_cons_self)).leaving n
      stage := hstage
      ready := hcycle ▸ hready }
  · rw [hempties.items (caches_put_self hc c')]
    exact Nat.le_of_succ_le_succ hlength

theorem drain_paces {queue : Cache → GatedQueue Request}
    {take? : Cache → Option (Request × Cache)} {one : Request → Action Unit}
    (hempties : Empties t i s queue take?) (hi : i < t.topology.size)
    (hone : ∀ y r m, t.Handles y s r → m.Paced t y → KeepsPace t y (one r m)) {n : Nat}
    (hstage : x.passed = t.topology.stage s) (h : m.Paced t (x.leaving n)) :
    Paces t (x.leaving n) (fun _ => Machine.Paced t x.ended) (drain i take? one n m) := by
  have hhas : t.topology.Has s := Topology.has_of_site hempties.site hi
  have hturn : ∀ n, t.Turn (x.leaving n) i := fun n =>
    Timetable.turn_of_site hempties.site hi hstage
  induction n generalizing m with
  | zero =>
    refine h.ended hhas hstage fun r hr => ?_
    obtain ⟨c, hc⟩ : ∃ c, m.caches[i]? = some c :=
      ⟨_, List.getElem?_eq_getElem (h.length.symm ▸ hi)⟩
    have hlength := (hempties.paced (h.caches i c hc)).left 0 rfl hstage.symm
    rw [hempties.items hc, List.length_eq_zero_iff.1 (Nat.le_zero.1 hlength)] at hr
    cases hr
  | succ n ih =>
    refine Ends.bind (cacheAt_paces h fun c hc hpaced => ?_)
    have hcycle : c.cycle = x.now := hpaced.cycle.trans (hturn _).clock_self
    cases htake : take? c with
    | none =>
      refine h.ended hhas hstage fun r hr => ?_
      rw [hempties.items hc] at hr
      exact hempties.waits (x := x.leaving (n + 1)) htake hcycle hpaced r hr
    | some taken =>
      obtain ⟨r, c'⟩ := taken
      obtain ⟨hhandles, hleft⟩ := hempties.taken hi hstage h hc htake
      refine Ends.bind (setCache_ends ?_)
      exact Ends.seq (hone (x.leaving n) r _ hhandles hleft) fun _ m h => ih h

section Stages

variable (hi : i < t.topology.size)

include hi

theorem stage_paces {queue : Cache → GatedQueue Request}
    {take? : Cache → Option (Request × Cache)} {one : Request → Action Unit}
    (hempties : Empties t i s queue take?)
    (hone : ∀ y r m, t.Handles y s r → m.Paced t y → KeepsPace t y (one r m))
    (hstage : x.passed = t.topology.stage s) (h : m.Paced t x) :
    Paces t x (fun _ => Machine.Paced t x.ended)
      ((do drain i take? one (queue (← cacheAt i)).length : Action Unit) m) := by
  refine Ends.bind (cacheAt_paces h fun c hc _ => drain_paces hempties hi hone hstage ?_)
  refine h.leaving (Topology.has_of_site hempties.site hi) hstage ?_
  rw [hempties.items hc]
  exact le_rfl

theorem advanceCache_paces (hstage : x.passed = t.topology.clockStage (.cache i))
    (h : m.Paced t x) : Paces t x (fun _ => Machine.Paced t x.ended) (advanceCache i m) := by
  refine Ends.bind (cacheAt_paces h fun c hc hpaced => ?_)
  refine Ends.bind (attempt_add_paces h (setCache_ends ?_))
  have hother : ∀ site, site ≠ .cache i → t.clock x.ended site = t.clock x site := by
    refine fun site hsite => t.clock_ended fun heq => hsite ?_
    cases site with
    | memory =>
      simp only [hstage, Topology.clockStage] at heq
      omega
    | cache j =>
      simp only [hstage, Topology.clockStage] at heq
      congr 1
      omega
  refine h.later List.length_set (fun j d hd => ?_) ?_ (fun _ => t.clock_le_ended)
    (h.next_ended_le hstage) (fun _ _ hn => by cases hn) h.finished h.census
  · by_cases hj : j = i
    · subst hj
      rw [caches_put_self hc] at hd
      cases hd
      exact ⟨c, hc, by rw [t.clock_ended_self hstage.symm, ← hpaced.cycle]⟩
    · rw [caches_put_ne _ hj] at hd
      refine ⟨d, hd, ?_⟩
      rw [hother (.cache j) (fun heq => hj (Site.cache.inj heq)), ← (h.caches j d hd).cycle]
  · rw [hother .memory Site.noConfusion, ← h.cycle]
    rfl

variable (ht : t.Sound)

include ht

theorem releaseStage_paces (hstage : x.passed = t.topology.stage (.writeBacks i))
    (h : m.Paced t x) : Paces t x (fun _ => Machine.Paced t x.ended) (releaseStage i m) := by
  refine Ends.bind (cacheAt_paces h fun c hc hpaced => setCache_ends ?_)
  have hreleased := h.put (i := i) (c := { c with
    sends := c.sends.append c.writeBacks.items, writeBacks := {} }) { hpaced with
      sends := hpaced.sends.release ht hpaced.writeBacks hstage
      writeBacks := .empty }
  refine hreleased.ended (s := .writeBacks i) hi hstage fun r hr => ?_
  rw [itemsAt, view_eq (caches_put_self hc _)] at hr
  cases hr

theorem runCache_paces (h : m.Paced t (x.upTo (5 * i))) :
    Paces t x (fun _ => Machine.Paced t (x.upTo (5 * (i + 1)))) (runCache i m) := by
  refine Ends.seq (releaseStage_paces (x := x.upTo (5 * i)) hi ht rfl h) fun _ m h => ?_
  refine Ends.seq (stage_paces (x := x.upTo (5 * i + 1)) hi empties_fills
    (fun y r m hr h => fillOne_paces ht hi h hr) rfl h) fun _ m h => ?_
  refine Ends.seq (stage_paces (x := x.upTo (5 * i + 2)) hi empties_sends
    (fun y r m hr h => sendOne_paces ht hi h hr) rfl h) fun _ m h => ?_
  refine Ends.seq (stage_paces (x := x.upTo (5 * i + 3)) hi empties_lookups
    (fun y r m hr h => lookUpOne_paces ht hi h hr) rfl h) fun _ m h => ?_
  exact advanceCache_paces (x := x.upTo (5 * i + 4)) hi rfl h

end Stages

/-! Memory's turn. -/

section Memory

theorem memoryAbsorb_paces (h : m.Paced t x) : KeepsPace t x (memoryAbsorb r m) := by
  refine Ends.get_bind ?_
  cases m.memory.expected.settle? r.id with
  | none => exact h.pacedIn
  | some settled =>
    refine Ends.bind (attempt_add_paces h (Ends.set_bind ?_))
    have hcounted : Machine.Paced t x { m with
        memory := { m.memory with
          expected := settled.2, writeBacks := m.memory.writeBacks + 1 } } := { h with }
    exact record_paces hcounted rfl

variable (ht : t.Sound)

include ht

/-- What memory has read goes up one cycle later, when the caches have had their turn. -/
theorem memoryRead_paces (h : m.Paced t x) (hr : t.Handles x .memory r)
    (hkind : r.kind.isWriteBack = false) : KeepsPace t x (memoryRead r m) := by
  have hdue := hr.now_le_due
  have hissued := hr.admits.issued
  have hstage := hr.stage
  rw [Timetable.due_demand hkind] at hdue
  refine Ends.get_bind (Ends.bind (attempt_add_paces h (Ends.set_bind ?_)))
  have hcounted : Machine.Paced t x { m with
      memory := { m.memory with reads := m.memory.reads + 1 } } := { h with }
  rw [h.above]
  cases hlast : t.topology.last? with
  | none =>
    have hanswered := ht.answered hlast
    exact finish_paces hcounted (by omega)
  | some i =>
    refine Ends.bind (cacheAt_paces hcounted fun c hc hpaced => ?_)
    have hi : i < t.topology.size := h.lt_size hc
    have hread := ht.read i hlast
    have hfills : t.topology.stage (.fills i) < x.passed := by
      simp only [hstage, Topology.stage]
      omega
    have hclock : t.topology.clockStage (.cache i) < x.passed := by
      simp only [hstage, Topology.stage, Topology.clockStage]
      omega
    refine Ends.bind (acceptFill_paces hcounted hpaced ?_ (.inr hfills.ne) fun c' hc' =>
      setCache_paces hcounted hc')
    refine t.admits_gate (s := .fills i) rfl (fun _ => hclock) ?_ hissued trivial
    rw [Timetable.due_demand hkind, Timetable.clock, Spot.site, if_pos hclock]
    omega

theorem memoryOne_paces (h : m.Paced t x) (hr : t.Handles x .memory r) :
    KeepsPace t x (memoryOne r m) := by
  unfold memoryOne
  split
  · exact memoryAbsorb_paces h
  · rename_i hkind
    exact memoryRead_paces ht h hr (Bool.not_eq_true _ ▸ hkind)

omit ht in
theorem Paced.taken_memory (hstage : x.passed = t.topology.stage .memory) {n : Nat}
    (h : m.Paced t (x.leaving (n + 1))) {memory : Memory}
    (htake : m.memory.take? = some (r, memory)) :
    t.Handles (x.leaving n) .memory r ∧ Machine.Paced t (x.leaving n) { m with memory } := by
  obtain ⟨⟨_, queue⟩, hpop, heq⟩ := Option.map_eq_some_iff.1 htake
  cases heq
  obtain ⟨hleft, hitems, hready⟩ := h.queue.popReady? hpop
  have hcycle : m.memory.cycle = x.now :=
    h.cycle.trans (t.clock_of_isGate (s := .memory) rfl hstage)
  rw [hcycle] at hready
  have hlength := h.queue.left (n + 1) rfl hstage.symm
  rw [GatedQueue.length, hitems, List.length_cons] at hlength
  have htaken : Machine.Paced t (x.leaving (n + 1))
      { m with memory := { m.memory with queue } } :=
    { h with queue := hleft }
  refine ⟨?_, htaken.leaving (s := .memory) trivial hstage (Nat.le_of_succ_le_succ hlength)⟩
  exact {
    admits := (h.queue.admits r (hitems ▸ List.mem_cons_self)).leaving n
    stage := hstage
    ready := hready }

theorem answerReady_paces {n : Nat} (hstage : x.passed = t.topology.stage .memory)
    (h : m.Paced t (x.leaving n)) :
    Paces t (x.leaving n) (fun _ => Machine.Paced t x.ended) (answerReady n m) := by
  induction n generalizing m with
  | zero =>
    refine h.ended (s := .memory) trivial hstage fun r hr => ?_
    have hlength := h.queue.left 0 rfl hstage.symm
    rw [itemsAt, List.length_eq_zero_iff.1 (Nat.le_zero.1 hlength)] at hr
    cases hr
  | succ n ih =>
    refine Ends.get_bind ?_
    cases htake : m.memory.take? with
    | none =>
      refine h.ended (s := .memory) trivial hstage fun r hr => ?_
      have hlate := late_of_popReady? (h.queue.sorted rfl) (Option.map_eq_none_iff.1 htake) r hr
      have hcycle : m.memory.cycle = x.now :=
        h.cycle.trans (t.clock_of_isGate (s := .memory) rfl hstage)
      rwa [hcycle] at hlate
    | some taken =>
      obtain ⟨r, memory⟩ := taken
      obtain ⟨hhandles, hdealt⟩ := h.taken_memory hstage htake
      refine Ends.modify_bind ?_
      exact Ends.seq (memoryOne_paces ht (x := x.leaving n) hdealt hhandles) fun _ m h => ih h

omit ht in
theorem advanceMemory_paces (hstage : x.passed = t.topology.clockStage .memory) (h : m.Paced t x) :
    Paces t x (fun _ => Machine.Paced t x.ended) (advanceMemory m) := by
  refine Ends.get_bind (Ends.bind (attempt_add_paces h ?_))
  refine h.later rfl (fun j d hd => ⟨d, hd, ?_⟩) ?_ (fun _ => t.clock_le_ended)
    (h.next_ended_le hstage) (fun _ _ hn => nomatch hn) h.finished h.census
  · rw [t.clock_ended, ← (h.caches j d hd).cycle]
    simp only [hstage, Topology.clockStage]
    omega
  · rw [t.clock_ended_self hstage.symm, ← h.cycle]

theorem runMemory_paces (h : m.Paced t (x.upTo (5 * t.topology.size))) :
    Paces t x (fun _ => Machine.Paced t (x.upTo (5 * t.topology.size + 2))) (runMemory m) := by
  refine Ends.get_bind ?_
  refine Ends.seq (answerReady_paces (x := x.upTo (5 * t.topology.size)) ht rfl
    (h.leaving (s := .memory) trivial rfl le_rfl)) fun _ m h => ?_
  exact advanceMemory_paces (x := x.upTo (5 * t.topology.size + 1)) rfl h

theorem runCycle_paces (h : m.Paced t (x.upTo 0)) :
    Paces t x (fun _ => Machine.Paced t (x.upTo (5 * t.topology.size + 2))) (runCycle m) := by
  let I (rest : List Nat) (m : Machine) : Prop :=
    ∃ i ≤ t.topology.size, rest = List.range' i (t.topology.size - i) ∧ m.Paced t (x.upTo (5 * i))
  have hstart : I (List.range m.caches.length) m :=
    ⟨0, Nat.zero_le _, by rw [h.length, Nat.sub_zero, List.range_eq_range'], h⟩
  refine Ends.get_bind (Ends.seq (Ends.forM (I := I) ?_ hstart) ?_)
  · rintro j rest m ⟨i, hi, hrange, h⟩
    obtain ⟨n, hn⟩ : ∃ n, t.topology.size - i = n + 1 := by
      refine Nat.exists_eq_succ_of_ne_zero fun hzero => ?_
      rw [hzero] at hrange
      cases hrange
    rw [hn, List.range'_succ] at hrange
    obtain ⟨rfl, rfl⟩ := List.cons.inj hrange
    refine (runCache_paces (by omega) ht h).mono
      (fun _ m h => ⟨j + 1, by omega, ?_, h⟩) fun _ _ => id
    rw [show t.topology.size - (j + 1) = n by omega]
  · rintro - m ⟨i, hi, hrange, h⟩
    have hsize : t.topology.size - i = 0 := by
      simpa only [List.length_nil, List.length_range'] using (congrArg List.length hrange).symm
    rw [show i = t.topology.size by omega] at h
    exact runMemory_paces ht h

end Memory

end Machine

end CacheHierarchy
