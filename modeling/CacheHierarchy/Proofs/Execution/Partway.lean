import CacheHierarchy.Proofs.Safety

/-!
# Between the stages of a cycle

A cycle is a list of stages: five for each cache, the turn of memory, and then what is finished
leaves and the clock advances. A run can be left after any number of the stages of a cycle. What
holds between two commands because the hierarchy is tracked holds there as well.
-/

namespace CacheHierarchy

inductive Stage
  | release (i : Nat)
  | fill (i : Nat)
  | send (i : Nat)
  | lookUp (i : Nat)
  | advance (i : Nat)
  | memory
  | retire
  | clock
  deriving DecidableEq, Repr

namespace Stage

def ofCache (i : Nat) : List Stage := [release i, fill i, send i, lookUp i, advance i]

def ofCaches (size : Nat) : List Stage := (List.range size).flatMap ofCache

def closing : List Stage := [memory, retire, clock]

end Stage

namespace Hierarchy

def performStage : Stage → Step Unit
  | .release i => onMachine (Machine.releaseStage i)
  | .fill i => onMachine (Machine.fillStage i)
  | .send i => onMachine (Machine.sendStage i)
  | .lookUp i => onMachine (Machine.lookUpStage i)
  | .advance i => onMachine (Machine.advanceCache i)
  | .memory => onMachine Machine.runMemory
  | .retire => retireFinished
  | .clock => do
    let h ← get
    let cycle ← attempt (Word.add h.cycle 1)
    set { h with cycle }

def runStages (stages : List Stage) : Step Unit := stages.forM performStage

def stages (h : Hierarchy) : List Stage := Stage.ofCaches h.machine.caches.length ++ Stage.closing

/-- A run that is left `n` stages into a cycle. -/
def runInto (commands : List Command) (n : Nat) : Step Unit := do
  run commands
  let h ← get
  runStages (h.stages.take n)

theorem onMachine_bind {α β : Type} (action : Action α) (next : α → Action β) :
    onMachine (action >>= next) = onMachine action >>= fun a => onMachine (next a) := by
  funext h
  simp only [onMachine, bind, EStateM.bind]
  cases action h.machine <;> rfl

theorem runStages_nil : runStages [] = pure ⟨⟩ := rfl

theorem runStages_cons (stage : Stage) (rest : List Stage) :
    runStages (stage :: rest) = performStage stage >>= fun _ => runStages rest := rfl

theorem runStages_append (first rest : List Stage) :
    runStages (first ++ rest) = runStages first >>= fun _ => runStages rest := by
  induction first with
  | nil => rfl
  | cons stage first ih => rw [List.cons_append, runStages_cons, ih, runStages_cons, bind_assoc]

theorem onMachine_runCache (i : Nat) :
    onMachine (Machine.runCache i) = runStages (Stage.ofCache i) := by
  simp only [Machine.runCache, onMachine_bind, Stage.ofCache, runStages_cons, runStages_nil,
    performStage, bind_pure_unit]

theorem onMachine_runCaches (l : List Nat) :
    onMachine (l.forM Machine.runCache) = runStages (l.flatMap Stage.ofCache) := by
  induction l with
  | nil => rfl
  | cons i l ih =>
    have hcons : (i :: l).forM Machine.runCache =
      Machine.runCache i >>= fun _ => l.forM Machine.runCache := rfl
    rw [hcons, onMachine_bind, List.flatMap_cons, runStages_append, onMachine_runCache, ih]

theorem runStages_closing : runStages Stage.closing =
    onMachine Machine.runMemory >>= fun _ => retireFinished >>= fun _ => performStage .clock := by
  simp only [Stage.closing, runStages_cons, runStages_nil, bind_pure_unit]
  rfl

/-- A cycle is its stages. -/
theorem runCycle_eq_runStages (h : Hierarchy) : runCycle h = runStages h.stages h := by
  have hmachine : onMachine Machine.runCycle h =
      (runStages (Stage.ofCaches h.machine.caches.length) >>= fun _ =>
        onMachine Machine.runMemory) h := by
    rw [Stage.ofCaches, ← onMachine_runCaches, ← onMachine_bind]
    rfl
  have hbind : ∀ (first first' next : Step Unit), first h = first' h →
      (first >>= fun _ => next) h = (first' >>= fun _ => next) h := by
    intro first first' next heq
    change EStateM.bind first _ h = EStateM.bind first' _ h
    simp only [EStateM.bind, heq]
  rw [stages, runStages_append, runStages_closing, ← bind_assoc]
  exact hbind _ _ _ hmachine

theorem run_append_cycle (commands : List Command) :
    run (commands ++ [.cycle]) = run commands >>= fun _ => get >>= fun h => runStages h.stages := by
  induction commands with
  | nil =>
    funext h
    have hcycle : run [.cycle] = runCycle := bind_pure_unit
    rw [List.nil_append, hcycle, runCycle_eq_runStages]
    rfl
  | cons command commands ih =>
    have hcons : ∀ l, run (command :: l) = perform command >>= fun _ => run l := fun _ => rfl
    rw [List.cons_append, hcons, ih, hcons, bind_assoc]

section Ends

variable {p : Plan} {h : Hierarchy} {i : Nat} {stage : Stage}

theorem onMachine_tracked {action : Action Unit}
    (hends : Ends (fun _ => Tracks p { now := h.cycle, completions := h.completions })
      (CacheHierarchy.Fails p) (action h.machine)) (h' : h.Tracked p) :
    Ends (fun _ => Tracked p) (Fails p) (onMachine action h) :=
  onMachine_ends (hends.mono (fun _ _ hm => ⟨h'.topology, hm⟩) fun _ _ => Fails.of_machine)

theorem performStage_ends (hi : i < p.topology.size) (hstage : stage ∈ Stage.ofCache i)
    (h' : h.Tracked p) : Ends (fun _ => Tracked p) (Fails p) (performStage stage h) := by
  simp only [Stage.ofCache, List.mem_cons, List.not_mem_nil, or_false] at hstage
  rcases hstage with rfl | rfl | rfl | rfl | rfl
  · exact onMachine_tracked (Machine.releaseStage_ends hi h'.tracks) h'
  · exact onMachine_tracked (Machine.fillStage_ends hi h'.tracks) h'
  · exact onMachine_tracked (Machine.sendStage_ends hi h'.tracks) h'
  · exact onMachine_tracked (Machine.lookUpStage_ends hi h'.tracks) h'
  · exact onMachine_tracked (Machine.advanceCache_ends hi h'.tracks) h'

/-- Any of the stages of the caches, whichever and however often, keep a hierarchy tracked. -/
theorem runStages_ends {stages : List Stage}
    (hstages : ∀ stage ∈ stages, stage ∈ Stage.ofCaches p.topology.size) (h' : h.Tracked p) :
    Ends (fun _ => Tracked p) (Fails p) (runStages stages h) := by
  let I (rest : List Stage) (s : Hierarchy) : Prop :=
    s.Tracked p ∧ ∀ stage ∈ rest, stage ∈ Stage.ofCaches p.topology.size
  have hends : Ends (fun _ => I []) (Fails p) (runStages stages h) := by
    refine Ends.forM (I := I) ?_ ⟨h', hstages⟩
    rintro stage rest s ⟨hs, hrest⟩
    obtain ⟨i, hi, hstage⟩ := List.mem_flatMap.1 (hrest stage List.mem_cons_self)
    refine (performStage_ends (List.mem_range.1 hi) hstage hs).mono ?_ fun _ _ => id
    exact fun _ s' hs' => ⟨hs', fun stage hstage => hrest stage (List.mem_cons_of_mem _ hstage)⟩
  exact hends.mono (fun _ _ hs => hs.1) fun _ _ => id

theorem performStage_memory_ends (h' : h.Tracked p) :
    Ends (fun _ s => s.Tracked p ∧ s.cycle < s.machine.memory.cycle) (Fails p)
      (performStage .memory h) := by
  refine onMachine_ends ((Machine.runMemory_ends h'.tracks).mono ?_ fun _ _ => Fails.of_machine)
  exact fun _ m hm => ⟨⟨h'.topology, hm.1⟩, hm.2⟩

theorem performStage_retire_ends (hahead : h.cycle < h.machine.memory.cycle) (h' : h.Tracked p) :
    Ends (fun _ s => s.Tracked p ∧ s.cycle < s.machine.memory.cycle ∧ s.machine.finished = [])
      (Fails p) (performStage .retire h) := by
  refine Ends.get_bind ((retireReady_ends _ rfl h').mono ?_ fun _ _ => id)
  rintro - s ⟨hs, hnone, hmemory, hcycle⟩
  rw [← hmemory, ← hcycle] at hahead
  exact ⟨hs, hahead, hnone⟩

theorem runStages_closing_ends (n : Nat) (h' : h.Tracked p) :
    Ends (fun _ => Tracked p) (Fails p) (runStages (Stage.closing.take n) h) := by
  match n with
  | 0 => exact h'
  | 1 => exact Ends.seq (performStage_memory_ends h') fun _ _ hs => hs.1
  | 2 =>
    refine Ends.seq (performStage_memory_ends h') fun _ _ hs => ?_
    exact Ends.seq (performStage_retire_ends hs.2 hs.1) fun _ _ hs => hs.1
  | n + 3 =>
    refine Ends.seq (performStage_memory_ends h') fun _ _ hs => ?_
    refine Ends.seq (performStage_retire_ends hs.2 hs.1) fun _ _ hs => ?_
    refine Ends.seq (newCycle_ends hs.2.1 hs.2.2 hs.1) fun _ s hs => ?_
    change Ends (fun _ => Tracked p) (Fails p) (runStages ([].take n) s)
    rw [List.take_nil]
    exact hs

theorem runInto_ends (commands : List Command) (n : Nat) (h' : h.Tracked p) :
    Ends (fun _ => Tracked p) (Fails p) (runInto commands n h) := by
  refine Ends.seq (run_ends commands h') fun _ s hs => Ends.get_bind ?_
  rw [stages, hs.tracks.sound.length, List.take_append, runStages_append]
  refine Ends.seq (runStages_ends (fun _ => List.mem_of_mem_take) hs) fun _ s' hs' => ?_
  exact runStages_closing_ends _ hs'

end Ends

/-- Wherever a run of a well-formed configuration is left, its hierarchy is tracked, if the run has
not ended in an overflow or in a write-back that misses at a second level whose lines are not those
of the first. -/
theorem exists_safe_stop {c : HierarchyConfig} (hvalid : c.validate = .ok ()) (hsized : c.Sized)
    (commands : List Command) (n : Nat) :
    ∃ start p, ofConfig c = .ok start ∧ p.topology = c.topology ∧ Ends (fun _ => Tracked p)
      (fun fault s => fault = .sumOverflow ∧ s.Exhausted ∨
        ¬c.Aligned ∧ ∃ array addr, fault = .writeBackMissed array addr)
      (runInto commands n start) := by
  obtain ⟨start, hstart, htracked, ht, hlines⟩ := exists_start hvalid hsized
  refine ⟨start, start.plan, hstart, ht, (runInto_ends commands n htracked).mono (fun _ _ => id) ?_⟩
  exact fun _ _ => Fails.safe ht hlines

end Hierarchy

end CacheHierarchy
