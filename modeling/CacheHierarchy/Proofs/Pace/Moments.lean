import CacheHierarchy.Proofs.Execution.Serving
import CacheHierarchy.Proofs.Pace.Runs

/-!
# Moments on time

A hierarchy that keeps to a timetable between two commands does so after every stage of the next
cycle, and between any two requests of a stage.
-/

namespace CacheHierarchy

namespace Stage

def number (size : Nat) : Stage → Nat
  | release i => 5 * i
  | fill i => 5 * i + 1
  | send i => 5 * i + 2
  | lookUp i => 5 * i + 3
  | advance i => 5 * i + 4
  | memory => 5 * size
  | retire => 5 * size + 1
  | clock => 5 * size + 2

/-- The queue that requests leave in a stage. -/
def spot? : Stage → Option Spot
  | fill i => some (.fills i)
  | send i => some (.sends i)
  | lookUp i => some (.lookups i)
  | memory => some .memory
  | _ => none

/-- A queue has its turn in the stage that requests leave it. -/
theorem number_of_spot? {stage : Stage} {s : Spot} (h : stage.spot? = some s) (t : Topology) :
    stage.number t.size = t.stage s := by
  cases stage <;> cases h <;> rfl

theorem ofCaches_succ (size : Nat) : ofCaches (size + 1) = ofCaches size ++ ofCache size := by
  rw [ofCaches, List.range_succ, List.flatMap_append, List.flatMap_singleton]
  rfl

theorem length_ofCaches (size : Nat) : (ofCaches size).length = 5 * size := by
  induction size with
  | zero => rfl
  | succ size ih => rw [ofCaches_succ, List.length_append, ih, Nat.mul_succ]; rfl

theorem number_eq_of_ofCaches {size n m : Nat} {stage : Stage}
    (h : (ofCaches size)[n]? = some stage) :
    stage.number m = n ∧ ∃ i < size, stage ∈ ofCache i := by
  induction size with
  | zero => cases h
  | succ size ih =>
    rw [ofCaches_succ] at h
    by_cases hlt : n < (ofCaches size).length
    · rw [List.getElem?_append_left hlt] at h
      obtain ⟨hnumber, i, hi, hmem⟩ := ih h
      exact ⟨hnumber, i, hi.trans size.lt_succ_self, hmem⟩
    · have hle := Nat.le_of_not_lt hlt
      rw [List.getElem?_append_right hle] at h
      refine ⟨?_, size, size.lt_succ_self, List.mem_of_getElem? h⟩
      rw [length_ofCaches] at h hle
      obtain ⟨j, rfl⟩ := Nat.exists_eq_add_of_le hle
      rw [Nat.add_sub_cancel_left] at h
      rcases j with _ | _ | _ | _ | _ | j <;> cases h <;> rfl

/-- A queue of a topology has its turn once in a cycle, before memory is done. -/
theorem stage_eq_of_spot? {t : Topology} {n : Nat} {stage : Stage} {s : Spot}
    (hstage : (ofCaches t.size ++ closing)[n]? = some stage) (hs : stage.spot? = some s) :
    n = t.stage s ∧ n ≤ 5 * t.size ∧ t.Has s := by
  rw [← number_of_spot? hs t]
  have hlength := length_ofCaches t.size
  by_cases hlt : n < (ofCaches t.size).length
  · rw [List.getElem?_append_left hlt] at hstage
    obtain ⟨hnumber, i, hi, hmem⟩ := number_eq_of_ofCaches (m := t.size) hstage
    refine ⟨hnumber.symm, by omega, ?_⟩
    simp only [ofCache, List.mem_cons, List.not_mem_nil, or_false] at hmem
    rcases hmem with rfl | rfl | rfl | rfl | rfl <;> cases hs <;> exact hi
  · rw [List.getElem?_append_right (Nat.le_of_not_lt hlt), hlength] at hstage
    obtain ⟨j, rfl⟩ := Nat.exists_eq_add_of_le (hlength ▸ Nat.le_of_not_lt hlt)
    rw [Nat.add_sub_cancel_left] at hstage
    rcases j with _ | _ | _ | j <;> cases hstage <;> cases hs
    exact ⟨rfl, le_rfl, trivial⟩

end Stage

variable {t : Timetable} {x y : Phase} {i : Nat}

namespace Machine

variable {m : Machine} {s : Spot}

/-- Between two requests of a stage a machine keeps to a timetable. -/
def PacedPartway (t : Timetable) (x : Phase) (m : Machine) : Prop :=
  ∃ n, m.Paced t (x.leaving n)

theorem drain_pacedPartway {queue : Cache → GatedQueue Request}
    {take? : Cache → Option (Request × Cache)} {one : Request → Action Unit}
    (hempties : Empties t i s queue take?) (hi : i < t.topology.size)
    (hone : ∀ y r m, t.Handles y s r → m.Paced t y → KeepsPace t y (one r m)) {k n : Nat}
    (hk : k ≤ n) (hstage : x.passed = t.topology.stage s) (h : m.Paced t (x.leaving n)) :
    Paces t (x.leaving n) (fun _ => PacedPartway t x) (drain i take? one k m) := by
  induction k generalizing m n with
  | zero => exact ⟨n, h⟩
  | succ k ih =>
    obtain ⟨n, rfl⟩ := Nat.exists_eq_succ_of_ne_zero (Nat.ne_of_gt (Nat.zero_lt_of_lt hk))
    refine Ends.bind (cacheAt_paces h fun c hc hpaced => ?_)
    cases htake : take? c with
    | none => exact ⟨_, h⟩
    | some taken =>
      obtain ⟨r, c'⟩ := taken
      obtain ⟨hhandles, hleft⟩ := hempties.taken hi hstage h hc htake
      refine Ends.bind (setCache_ends ?_)
      exact Ends.seq (hone (x.leaving n) r _ hhandles hleft) fun _ m h =>
        ih (n := n) (Nat.le_of_succ_le_succ hk) h

theorem drainFirst_pacedPartway {queue : Cache → GatedQueue Request}
    {take? : Cache → Option (Request × Cache)} {one : Request → Action Unit}
    (hempties : Empties t i s queue take?) (hi : i < t.topology.size)
    (hone : ∀ y r m, t.Handles y s r → m.Paced t y → KeepsPace t y (one r m))
    (hstage : x.passed = t.topology.stage s) (h : m.Paced t x) (k : Nat) :
    Paces t x (fun _ => PacedPartway t x) (drainFirst i queue take? one k m) := by
  refine Ends.bind (cacheAt_paces h fun c hc _ => ?_)
  refine drain_pacedPartway hempties hi hone (Nat.min_le_right k _) hstage ?_
  refine h.leaving (Topology.has_of_site hempties.site hi) hstage ?_
  rw [hempties.items hc]
  exact le_rfl

theorem answerReady_pacedPartway (ht : t.Sound) {k n : Nat} (hk : k ≤ n)
    (hstage : x.passed = t.topology.stage .memory) (h : m.Paced t (x.leaving n)) :
    Paces t (x.leaving n) (fun _ => PacedPartway t x) (answerReady k m) := by
  induction k generalizing m n with
  | zero => exact ⟨n, h⟩
  | succ k ih =>
    obtain ⟨n, rfl⟩ := Nat.exists_eq_succ_of_ne_zero (Nat.ne_of_gt (Nat.zero_lt_of_lt hk))
    refine Ends.get_bind ?_
    cases htake : m.memory.take? with
    | none => exact ⟨_, h⟩
    | some taken =>
      obtain ⟨r, memory⟩ := taken
      obtain ⟨hhandles, hleft⟩ := h.taken_memory hstage htake
      refine Ends.modify_bind ?_
      exact Ends.seq (memoryOne_paces ht (x := x.leaving n) hleft hhandles) fun _ m h =>
        ih (n := n) (Nat.le_of_succ_le_succ hk) h

theorem answerFirst_pacedPartway (ht : t.Sound) (hstage : x.passed = t.topology.stage .memory)
    (h : m.Paced t x) (k : Nat) :
    Paces t x (fun _ => PacedPartway t x) (answerFirst k m) := by
  refine Ends.get_bind (answerReady_pacedPartway ht (Nat.min_le_right k _) hstage ?_)
  exact h.leaving (s := .memory) trivial hstage le_rfl

end Machine

namespace Hierarchy

variable {h : Hierarchy}

structure PacedAt (t : Timetable) (x : Phase) (h : Hierarchy) : Prop where
  topology : h.topology = t.topology
  cycle : h.cycle = x.now
  machine : h.machine.Paced t x

structure PacedPartway (t : Timetable) (x : Phase) (h : Hierarchy) : Prop where
  topology : h.topology = t.topology
  cycle : h.cycle = x.now
  machine : h.machine.PacedPartway t x

theorem Paced.pacedAt {passed accesses : Nat} (h' : h.Paced t passed accesses) :
    h.PacedAt t (h.phase passed) :=
  ⟨h'.topology, rfl, h'.machine⟩

theorem performStage_pacedAt (ht : t.Sound) {stage : Stage} (hi : i < t.topology.size)
    (hstage : stage ∈ Stage.ofCache i) (hx : x.passed = stage.number t.topology.size)
    (h' : h.PacedAt t x) :
    Ends (fun _ => PacedAt t x.ended) (fun _ _ => True) (performStage stage h) := by
  have key {action : Action Unit}
      (haction : Paces t x (fun _ => Machine.Paced t x.ended) (action h.machine)) :
      Ends (fun _ => PacedAt t x.ended) (fun _ _ => True) (onMachine action h) :=
    onMachine_ends (haction.mono (fun _ _ hm => ⟨h'.topology, h'.cycle, hm⟩) fun _ _ _ => trivial)
  simp only [Stage.ofCache, List.mem_cons, List.not_mem_nil, or_false] at hstage
  rcases hstage with rfl | rfl | rfl | rfl | rfl
  · exact key (Machine.releaseStage_paces hi ht hx h'.machine)
  · exact key (Machine.stage_paces hi Machine.empties_fills
      (fun y r m hr h => Machine.fillOne_paces ht hi h hr) hx h'.machine)
  · exact key (Machine.stage_paces hi Machine.empties_sends
      (fun y r m hr h => Machine.sendOne_paces ht hi h hr) hx h'.machine)
  · exact key (Machine.stage_paces hi Machine.empties_lookups
      (fun y r m hr h => Machine.lookUpOne_paces ht hi h hr) hx h'.machine)
  · exact key (Machine.advanceCache_paces hi hx h'.machine)

theorem runStages_pacedAt (ht : t.Sound) {n : Nat} (hn : n ≤ 5 * t.topology.size)
    (h' : h.PacedAt t (x.upTo 0)) :
    Ends (fun _ => PacedAt t (x.upTo n)) (fun _ _ => True)
      (runStages ((Stage.ofCaches t.topology.size).take n) h) := by
  induction n with
  | zero => exact h'
  | succ n ih =>
    have hlt : n < (Stage.ofCaches t.topology.size).length :=
      Nat.lt_of_lt_of_eq hn (Stage.length_ofCaches _).symm
    have hstage := List.getElem?_eq_getElem hlt
    obtain ⟨hnumber, i, hi, hmem⟩ := Stage.number_eq_of_ofCaches (m := t.topology.size) hstage
    rw [List.take_add_one, hstage, runStages_append]
    refine Ends.seq (ih (Nat.le_of_succ_le hn)) fun _ s hs => ?_
    rw [Option.toList_some, runStages_cons, runStages_nil, bind_pure_unit]
    exact performStage_pacedAt (x := x.upTo n) ht hi hmem hnumber.symm hs

theorem performPart_pacedPartway (ht : t.Sound) {stage : Stage} {s : Spot} (hs : stage.spot? = some s)
    (hhas : t.topology.Has s) (hx : x.passed = t.topology.stage s) (h' : h.PacedAt t x) (k : Nat) :
    Ends (fun _ => PacedPartway t x) (fun _ _ => True) (performPart stage k h) := by
  have key {action : Action Unit}
      (haction : Paces t x (fun _ => Machine.PacedPartway t x) (action h.machine)) :
      Ends (fun _ => PacedPartway t x) (fun _ _ => True) (onMachine action h) :=
    onMachine_ends (haction.mono (fun _ _ hm => ⟨h'.topology, h'.cycle, hm⟩) fun _ _ _ => trivial)
  cases stage <;> cases hs
  case fill i =>
    exact key (Machine.drainFirst_pacedPartway Machine.empties_fills hhas
      (fun y r m hr h => Machine.fillOne_paces ht hhas h hr) hx h'.machine k)
  case send i =>
    exact key (Machine.drainFirst_pacedPartway Machine.empties_sends hhas
      (fun y r m hr h => Machine.sendOne_paces ht hhas h hr) hx h'.machine k)
  case lookUp i =>
    exact key (Machine.drainFirst_pacedPartway Machine.empties_lookups hhas
      (fun y r m hr h => Machine.lookUpOne_paces ht hhas h hr) hx h'.machine k)
  case memory => exact key (Machine.answerFirst_pacedPartway ht hx h'.machine k)

/-- A run whose accesses are issued in time keeps to its timetable. -/
theorem run_paces (ht : t.Sound) {commands : List Command} {accesses : Nat}
    (hlast : h.cycle + commands.length ≤ t.last) (h' : h.Paced t 0 accesses) :
    Ends (fun _ s => ∃ accesses, s.Paced t 0 accesses) (fun _ _ => True) (run commands h) := by
  -- a command takes one cycle at most, so the last of those to come is issued in time
  let I (rest : List Command) (s : Hierarchy) : Prop :=
    (∃ accesses, s.Paced t 0 accesses) ∧ s.cycle + rest.length ≤ t.last
  have hends : Ends (fun _ => I []) (fun _ _ => True) (run commands h) := by
    refine Ends.forM (I := I) ?_ ⟨⟨_, h'⟩, hlast⟩
    rintro (⟨addr, kind, haddr, hkind⟩ | _) rest s ⟨⟨accesses, hs⟩, hlast⟩
    · rw [List.length_cons] at hlast
      refine (access_paces ht hkind (by omega) hs).mono ?_ fun _ _ _ => trivial
      rintro - s' ⟨hs', hcycle⟩
      exact ⟨⟨_, hs'⟩, by omega⟩
    · rw [List.length_cons] at hlast
      refine (runCycle_paces ht hs).mono ?_ fun _ _ _ => trivial
      rintro - s' ⟨hs', -, hcycle⟩
      exact ⟨⟨_, hs'⟩, by omega⟩
  exact hends.mono (fun _ _ hs => hs.1) fun _ _ _ => trivial

theorem runWithin_pacedPartway (ht : t.Sound) {commands : List Command} {accesses n : Nat}
    (hlast : h.cycle + commands.length ≤ t.last) (h' : h.Paced t 0 accesses) {stage : Stage}
    {s : Spot} (hstage : (Stage.ofCaches t.topology.size ++ Stage.closing)[n]? = some stage)
    (hs : stage.spot? = some s) (k : Nat) :
    Ends (fun _ h => t.topology.Has s ∧ ∃ x, x.passed = t.topology.stage s ∧ h.PacedPartway t x)
      (fun _ _ => True) (runWithin commands n k h) := by
  obtain ⟨hn, hle, hhas⟩ := Stage.stage_eq_of_spot? hstage hs
  refine Ends.seq (run_paces ht hlast h') fun _ s' hs' => Ends.get_bind ?_
  obtain ⟨accesses, hs'⟩ := hs'
  have hstages : s'.stages = Stage.ofCaches t.topology.size ++ Stage.closing := by
    rw [stages, hs'.machine.length]
  have htake : s'.stages.take n = (Stage.ofCaches t.topology.size).take n := by
    rw [hstages, List.take_append_of_le_length (hle.trans_eq (Stage.length_ofCaches _).symm)]
  rw [htake, hstages, hstage]
  refine Ends.seq (runStages_pacedAt (x := s'.phase 0) ht hle hs'.pacedAt) fun _ s'' hs'' => ?_
  refine (performPart_pacedPartway (x := (s'.phase 0).upTo n) ht hs hhas hn hs'' k).mono ?_ fun _ _ => id
  exact fun _ _ hs => ⟨hhas, _, hn, hs⟩

end Hierarchy

end CacheHierarchy
