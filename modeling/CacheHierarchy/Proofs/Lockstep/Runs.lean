import CacheHierarchy.Proofs.Lockstep.Stages

/-!
# Twin runs

Hierarchies are twins if their machines are, and their clocks and completions are the same. Every
command that accesses the side in use, or no cache at all, keeps hierarchies twins, so a run does.
-/

namespace CacheHierarchy

def Command.On (w : Side) : Command → Prop
  | .access _ kind _ _ => kind.side = w
  | .cycle => True

instance (w : Side) (command : Command) : Decidable (command.On w) :=
  match command with
  | .access _ kind _ _ => inferInstanceAs (Decidable (kind.side = w))
  | .cycle => inferInstanceAs (Decidable True)

namespace Hierarchy

structure Twins (w : Side) (h h' : Hierarchy) : Prop where
  topology : h.topology = .splitL1
  topology' : h'.topology = .multiLevel
  machine : h.machine.Twins w h'.machine
  cycle : h'.cycle = h.cycle
  completions : h'.completions = h.completions
  completed : h'.completed = h.completed

abbrev KeepTwins (w : Side) (x y : EStateM.Result Fault Hierarchy Unit) : Prop :=
  Lockstep Fault.IsLone (fun _ h _ h' => h.Twins w h') x y

variable {w : Side} {h h' : Hierarchy} {r : Request}

theorem onMachine_twins {x y : Action Unit} (ht : h.Twins w h')
    (hxy : Machine.KeepTwins w (x h.machine) (y h'.machine)) :
    KeepTwins w (onMachine x h) (onMachine y h') := by
  unfold onMachine
  cases hx : x h.machine <;> cases hy : y h'.machine <;> rw [hx, hy] at hxy
  · exact { ht with machine := hxy }
  · exact hxy
  · exact hxy
  · trivial

theorem enter_twins {m m' : Machine} (hm : m.Twins w m') (hr : r.kind.side = w) :
    Machine.KeepTwins w (enter .splitL1 r m) (enter .multiLevel r m') := by
  have htop : Ports.on { instruction := 0, data := 1 } r.kind.side = w.top := by
    rw [hr]
    cases w <;> rfl
  simp only [enter, Topology.entry?, Ports.on_both, htop]
  refine Lockstep.bind (@Machine.cacheAt_twins w m m' 0 _ hm Nat.zero_lt_two fun c name _ hc => ?_)
  refine Lockstep.bind (Lockstep.attempt (P := fun d d' => d.Serves w 0 ∧ d' = d.recast 0 name)
    (Agree.map_same (x := c.arrival) fun _ =>
      ⟨{ hc with lookups := hc.lookups.push (.inr hr) }, rfl⟩) ?_)
  rintro d _ ⟨hd, rfl⟩
  exact Machine.setCache_twins hm Nat.zero_lt_two hd name

theorem access_twins (ht : h.Twins w h') (addr : Nat) {kind : AccessKind} (hkind : kind.side = w) :
    KeepTwins w (access addr kind h) (access addr kind h') := by
  unfold access
  split
  · refine Lockstep.get_bind (onMachine_twins ht ?_)
    rw [ht.cycle, ht.topology, ht.topology']
    refine Lockstep.seq (Machine.freshId_twins ht.machine) ?_
    rintro _ m id m' ⟨hm, rfl⟩
    refine Lockstep.seq (Machine.record_twins hm _ _) fun _ m _ m' hm => ?_
    refine Lockstep.get_bind (Lockstep.bind ?_)
    rw [hm.outstanding]
    refine Lockstep.attempt (m'.outstanding.agree_insert w.top id addr kind) ?_
    rintro _ outstanding rfl
    exact Lockstep.set_bind (enter_twins { hm with outstanding := rfl } hkind)
  · exact Lockstep.throw

theorem retire_twins (ht : h.Twins w h') (r : Request) :
    KeepTwins w (retire r h) (retire r h') := by
  refine Lockstep.get_bind ?_
  rw [ht.machine.outstanding, Outstanding.remove?_moved]
  cases h'.machine.outstanding.remove? r.id with
  | none => exact Lockstep.throw
  | some removed =>
    have hremoved : Machine.Twins w { h.machine with outstanding := removed.2.moved w.top }
        { h'.machine with outstanding := removed.2 } := { ht.machine with outstanding := rfl }
    rw [ht.completed, ht.cycle]
    refine Lockstep.seq (onMachine_twins ht (Lockstep.modify_bind ?_)) fun _ h _ h' ht => ?_
    · exact Machine.record_twins hremoved _ _
    refine Lockstep.bind (Lockstep.attempt_same fun completed => ?_)
    have hcompletions : h'.completions ++ [Completion.ofRequest r h'.cycle] =
        h.completions ++ [Completion.ofRequest r h.cycle] := by
      rw [ht.completions, ht.cycle]
    exact { ht with completions := hcompletions, completed := rfl }

theorem retireReady_twins (n : Nat) (ht : h.Twins w h') :
    KeepTwins w (retireReady n h) (retireReady n h') := by
  induction n generalizing h h' with
  | zero => exact ht
  | succ n ih =>
    refine Lockstep.get_bind ?_
    rw [ht.machine.finished]
    cases h.machine.finished with
    | nil => exact ht
    | cons r finished =>
      refine Lockstep.seq (onMachine_twins ht ?_) fun _ h _ h' ht => ?_
      · exact { ht.machine with finished := rfl }
      · exact Lockstep.seq (retire_twins ht r) fun _ h _ h' ht => ih ht

theorem runCycle_twins (ht : h.Twins w h') : KeepTwins w (runCycle h) (runCycle h') := by
  refine Lockstep.seq (onMachine_twins ht (Machine.runCycle_twins ht.machine)) ?_
  intro _ h _ h' ht
  have hretire : KeepTwins w (retireFinished h) (retireFinished h') := by
    refine Lockstep.get_bind ?_
    rw [ht.machine.finished]
    exact retireReady_twins _ ht
  refine Lockstep.seq hretire fun _ h _ h' ht => Lockstep.get_bind ?_
  rw [ht.cycle]
  refine Lockstep.bind (Lockstep.attempt_same fun cycle => ?_)
  exact { ht with cycle := rfl }

theorem run_twins {commands : List Command} (hside : ∀ command ∈ commands, command.On w)
    (ht : h.Twins w h') : KeepTwins w (run commands h) (run commands h') := by
  refine Lockstep.forM (fun command hmem h h' ht => ?_) ht
  cases command with
  | access addr kind _ _ => exact access_twins ht addr (hside _ hmem)
  | cycle => exact runCycle_twins ht

end Hierarchy

end CacheHierarchy
