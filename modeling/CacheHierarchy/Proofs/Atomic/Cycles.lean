import CacheHierarchy.Proofs.Atomic.Requests
import CacheHierarchy.Proofs.Execution.Runs

/-!
# Cycles and tasks

A request that is taken in hand is still part of the scene. So a stage, the turn of a component and
a cycle leave a task at a stage, as dealing with each request does.
-/

namespace CacheHierarchy

namespace Machine

variable {p : Plan} {t : Task} {waits : Bool} {x : Context} {σ : Scene} {m : Machine} {i now : Nat}
  {s : Spot} {r : Request} {completions : List Completion}

/-- A machine is tracked and at a stage of a task. -/
structure Serves (p : Plan) (t : Task) (waits : Bool) (x : Context) (m : Machine) : Prop where
  tracks : Tracks p x m
  works : m.Works p t waits x

/-- The scene of a machine is all that matters. -/
theorem Works.stage (h : m.Works p t waits x) : (m.scene x).Stage p t waits := by
  obtain ⟨σ, hstands, hstage⟩ := h
  exact hstands.scene ▸ hstage

theorem Works.recast {x' : Context} (h : m.Works p t waits x) (hheld : x'.held = x.held) :
    m.Works p t waits x' := by
  obtain ⟨σ, ⟨hsound, hscene⟩, hstage⟩ := h
  refine ⟨σ, ⟨hsound, ?_⟩, hstage⟩
  rw [← hscene, scene, scene, hheld]

theorem Sound.stands (h : m.Sound p) (x : Context) : m.Stands p x (m.scene x) := ⟨h, rfl⟩

theorem scene_take {c c' : Cache} (hc : m.caches[i]? = some c) (htakes : c.Takes i s r c') :
    m.scene x = ((m.put i c').scene x).add s r := by
  have hrows : (m.put i c').view (fun c => c.tags.row) (fun _ => .empty 0) =
      m.view (fun c => c.tags.row) fun _ => .empty 0 :=
    view_put_same hc c' (congrArg TagArray.row htakes.tags) _
  have htraffic := htakes.traffic
  rw [← Multiset.singleton_add] at htraffic
  simp only [scene, Scene.add, hrows, traffic_eq_put_add hc c' htraffic, Multiset.singleton_add,
    Multiset.cons_add]
  rfl

theorem scene_take_memory {memory : Memory} (htake : m.memory.take? = some (r, memory)) :
    m.scene x = (scene x { m with memory }).add .memory r := by
  obtain ⟨⟨r', queue⟩, hpop, heq⟩ := Option.map_eq_some_iff.1 htake
  cases heq
  have hitems := (GatedQueue.popReady?_eq_some_iff.1 hpop).1
  simp only [scene, Scene.add, traffic, hitems, List.map_cons, ← Multiset.cons_coe,
    Multiset.cons_add, Multiset.add_cons]
  rfl

theorem drain_serves {take? : Cache → Option (Request × Cache)} {one : Request → Action Unit}
    (hi : i < p.topology.size) (htake : ∀ c r c', take? c = some (r, c') → c.Takes i s r c')
    (hends : ∀ r m, Tracks p (Context.hold { now, completions } s r) m →
      Ends (fun _ => Tracks p { now, completions }) (Fails p) (one r m))
    (hone : ∀ r m, Tracks p (Context.hold { now, completions } s r) m →
      ((m.scene { now, completions }).add s r).Stage p t waits →
      Yields (fun _ m' => m'.Works p t waits { now, completions }) (one r m)) (n : Nat)
    (h : m.Serves p t waits { now, completions }) :
    Yields (fun _ m' => m'.Serves p t waits { now, completions }) (drain i take? one n m) := by
  induction n generalizing m with
  | zero => exact h
  | succ n ih =>
    obtain ⟨c, hc, hsound⟩ := h.tracks.sound.exists_cache hi
    refine Ends.bind (cacheAt_ends hc ?_)
    cases htook : take? c with
    | none => exact h
    | some taken =>
      obtain ⟨r, c'⟩ := taken
      have htakes := htake c r c' htook
      have hheld := h.tracks.take hc (htakes.sound hsound) htakes.traffic htakes.tags
        htakes.expected
      have hstage := h.works.stage
      rw [scene_take hc htakes] at hstage
      refine Ends.bind (setCache_ends (Ends.seq
        ((hends r _ hheld).and (hone r _ hheld hstage)).yields ?_))
      rintro - m' ⟨htracks, hworks⟩
      exact ih ⟨htracks, hworks⟩

/-! The turn of a cache. -/

theorem stage_release {made : List Request} (hmade : ∀ r ∈ made, r.kind = .writeBack)
    {rest : Multiset (Spot × Request)}
    (h : Scene.Stage p t { σ with
      traffic := (made.map fun r => (.writeBacks i, r) : List (Spot × Request)) + rest } waits) :
    Scene.Stage p t { σ with
      traffic := (made.map fun r => (.sends i, r) : List (Spot × Request)) + rest } waits := by
  induction made generalizing rest with
  | nil => exact h
  | cons r made ih =>
    have hmoved : Scene.Stage p t (Scene.add (.sends i) r { σ with
        traffic := (made.map fun r => (.writeBacks i, r) : List (Spot × Request)) + rest })
        waits := by
      refine Scene.Stage.reroute (s := .writeBacks i) (r := r) ?_ (hmade r List.mem_cons_self)
        rfl rfl rfl rfl
      rwa [Scene.add, ← Multiset.cons_add]
    rw [Scene.add, ← Multiset.add_cons] at hmoved
    have hrest := ih (fun r hr => hmade r (List.mem_cons_of_mem _ hr)) hmoved
    rwa [List.map_cons, ← Multiset.cons_coe, Multiset.cons_add, ← Multiset.add_cons]

theorem releaseStage_serves (hi : i < p.topology.size) (h : m.Serves p t waits x) :
    Yields (fun _ m' => m'.Serves p t waits x) (releaseStage i m) := by
  have hworks : Yields (fun _ m' => m'.Works p t waits x) (releaseStage i m) := by
    refine Ends.bind (cacheAt_yields fun c hc => setCache_ends ?_)
    have hsound : Cache.Sound p i { c with
        sends := c.sends.append c.writeBacks.items, writeBacks := {} } :=
      (h.tracks.sound.caches i c hc).congr rfl rfl rfl rfl
    have hrows := view_put_same hc
      { c with sends := c.sends.append c.writeBacks.items, writeBacks := {} }
      (f := fun c => c.tags.row) rfl fun _ => .empty 0
    obtain ⟨rest, hmade, hsent⟩ := traffic_release hc
    have hkinds : ∀ r ∈ c.writeBacks.items, r.kind = .writeBack := fun r hr =>
      (h.tracks.reach.orderly.admits (.writeBacks i, r) (Multiset.mem_add.2 (.inl
        (mem_traffic_of_cache hc ((mem_traffic c).2 (by simp [hr])))))).fits.1
    have hstage := h.works.stage
    rw [scene, hmade, add_assoc] at hstage
    refine ⟨_, (h.tracks.sound.put hsound).stands x, ?_⟩
    have hreleased := stage_release (σ := m.scene x) hkinds hstage
    rw [← add_assoc, ← hsent] at hreleased
    rw [scene, hrows]
    exact hreleased
  exact ((releaseStage_ends hi h.tracks).and hworks).yields.mono
    (fun _ _ h' => ⟨h'.1, h'.2⟩) fun _ _ => id

section Stages

variable (huniform : p.Uniform t.lineSize) (hi : i < p.topology.size)
  (h : m.Serves p t waits { now, completions })

include hi h

theorem sendStage_serves :
    Yields (fun _ m' => m'.Serves p t waits { now, completions }) (sendStage i m) := by
  refine Ends.bind (cacheAt_yields fun c hc => ?_)
  exact drain_serves hi (fun _ _ _ => Cache.takes_of_takeSend?) (fun _ _ => sendOne_ends hi)
    (fun _ _ htracks hstage => sendOne_works (htracks.sound.stands _) hstage) _ h

theorem advanceCache_serves :
    Yields (fun _ m' => m'.Serves p t waits { now, completions }) (advanceCache i m) := by
  have hworks : Yields (fun _ m' => m'.Works p t waits { now, completions })
      (advanceCache i m) := by
    refine Ends.bind (cacheAt_yields fun c hc => Ends.bind (Yields.attempt_add (setCache_ends ?_)))
    exact ⟨_, (h.tracks.sound.stands _).put_same _ hc rfl
      ((h.tracks.sound.caches i c hc).congr rfl rfl rfl rfl) rfl, h.works.stage⟩
  exact ((advanceCache_ends hi h.tracks).and hworks).yields.mono
    (fun _ _ h' => ⟨h'.1, h'.2⟩) fun _ _ => id

include huniform

theorem fillStage_serves :
    Yields (fun _ m' => m'.Serves p t waits { now, completions }) (fillStage i m) := by
  refine Ends.bind (cacheAt_yields fun c hc => ?_)
  exact drain_serves hi (fun _ _ _ => Cache.takes_of_takeFill?) (fun _ _ => fillOne_ends hi)
    (fun _ _ htracks hstage =>
      fillOne_works huniform hi htracks (htracks.sound.stands _) hstage) _ h

theorem lookUpStage_serves :
    Yields (fun _ m' => m'.Serves p t waits { now, completions }) (lookUpStage i m) := by
  refine Ends.bind (cacheAt_yields fun c hc => ?_)
  exact drain_serves hi (fun _ _ _ => Cache.takes_of_takeLookup?) (fun _ _ => lookUpOne_ends hi)
    (fun _ _ htracks hstage =>
      lookUpOne_works huniform hi htracks (htracks.sound.stands _) hstage) _ h

theorem runCache_serves :
    Yields (fun _ m' => m'.Serves p t waits { now, completions }) (runCache i m) := by
  refine Ends.seq (releaseStage_serves hi h) fun _ _ h => ?_
  refine Ends.seq (fillStage_serves huniform hi h) fun _ _ h => ?_
  refine Ends.seq (sendStage_serves hi h) fun _ _ h => ?_
  refine Ends.seq (lookUpStage_serves huniform hi h) fun _ _ h => ?_
  exact advanceCache_serves hi h

end Stages

/-! The turn of memory. -/

section Memory

variable (hlast : p.topology.last? ≠ none) (h : m.Serves p t waits { now, completions })

include hlast h

theorem answerReady_serves (n : Nat) :
    Yields (fun _ m' => m'.Serves p t waits { now, completions }) (answerReady n m) := by
  induction n generalizing m with
  | zero => exact h
  | succ n ih =>
    apply Ends.get_bind
    cases htake : m.memory.take? with
    | none => exact h
    | some taken =>
      obtain ⟨r, memory⟩ := taken
      have hheld := tracks_take htake h.tracks
      have hfits := (hheld.reach.orderly.admits _ (mem_of_eq_cons (Tracks.traffic_hold ..))).fits
      have hkind : (r.kind.isDemand || r.kind.isWriteBack) = true := by
        rcases hfits with ⟨hdemand, -⟩ | ⟨hwriteBack, -⟩
        · rw [hdemand, Bool.true_or]
        · rw [hwriteBack]
          rfl
      have hstage := h.works.stage
      rw [scene_take_memory htake] at hstage
      refine Ends.modify_bind (Ends.seq ((memoryOne_ends hheld).and
        (memoryOne_works hlast (hheld.sound.stands _) hkind hstage)).yields ?_)
      rintro - m' ⟨htracks, hworks⟩
      exact ih ⟨htracks, hworks⟩

theorem runMemory_serves :
    Yields (fun _ m' => m'.Serves p t waits { now, completions }) (runMemory m) := by
  refine Ends.get_bind (Ends.seq (answerReady_serves hlast h _) fun _ m' h' => ?_)
  refine Ends.get_bind (Ends.bind (Yields.attempt_add ?_))
  have hsound : Sound p { m' with memory := { m'.memory with cycle := m'.memory.cycle + 1 } } :=
    h'.tracks.sound.congr rfl rfl
  exact ⟨⟨hsound, h'.tracks.reach.step .tick⟩, _, hsound.stands _, h'.works.stage⟩

end Memory

theorem runCycle_serves (huniform : p.Uniform t.lineSize) (hlast : p.topology.last? ≠ none)
    (h : m.Serves p t waits { now, completions }) :
    Yields (fun _ m' => m'.Serves p t waits { now, completions }) (runCycle m) := by
  let I (rest : List Nat) (m : Machine) : Prop :=
    m.Serves p t waits { now, completions } ∧ ∀ i ∈ rest, i < p.topology.size
  have hstart : I (List.range m.caches.length) m := by
    refine ⟨h, fun i hi => ?_⟩
    rw [← h.tracks.sound.length]
    exact List.mem_range.1 hi
  refine Ends.get_bind (Ends.seq (Ends.forM (I := I) ?_ hstart) fun _ m' h' =>
    runMemory_serves hlast h'.1)
  rintro i rest m ⟨h, hlt⟩
  refine (runCache_serves huniform (hlt i List.mem_cons_self) h).mono ?_ fun _ _ => id
  exact fun _ m' h' => ⟨h', fun j hj => hlt j (List.mem_cons_of_mem _ hj)⟩

end Machine

end CacheHierarchy
