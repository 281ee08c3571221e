import CacheHierarchy.Proofs.Atomic.Cycles
import CacheHierarchy.Proofs.Safety

/-!
# Refinement of the atomic model

Where each access is drained before the next one is issued a hierarchy does what the atomic model
does: the accesses are hits and misses alike, and after each of them the caches hold the same lines,
dirty or not, in the same order of recency, and memory has counted the same write-backs.
-/

namespace CacheHierarchy

structure Demand where
  addr : Nat
  kind : AccessKind
  haddr : addr < wordLimit
  hkind : kind.isDemand = true

def Demand.task (p : Plan) (lineSize : Nat) (c : Contents) (d : Demand) : Task where
  lineSize
  addr := d.addr
  kind := d.kind
  result := c.access p (d.addr / lineSize) d.kind

/-- Accesses one after the other in the atomic model. Says which of them are misses. -/
def Contents.serve (p : Plan) (lineSize : Nat) : List Demand → Contents → List Bool × Contents
  | [], c => ([], c)
  | d :: rest, c =>
    let (miss, c) := c.access p (d.addr / lineSize) d.kind
    let (misses, c) := c.serve p lineSize rest
    (miss :: misses, c)

namespace Hierarchy

def contents (h : Hierarchy) : Contents where
  sets i k := h.machine.view (fun c => (c.tags.row k).stack) [] i
  writeBacks := h.machine.memory.writeBacks

/-- Cycles go by until the hierarchy is idle, at most as many as the argument says. Says whether it
is idle then. -/
def drain : Nat → Step Bool
  | 0 => return (← get).isIdle
  | n + 1 => do
    if (← get).isIdle then return true
    runCycle
    drain n

/-- Accesses one after the other, each of which is drained within a number of cycles before the next
one is issued. Says whether all of them are. -/
def serve (limit : Nat) : List Demand → Step Bool
  | [] => return true
  | d :: rest => do
    access d.addr d.kind
    if ← drain limit then serve limit rest else return false

variable {p : Plan} {t : Task} {waits : Bool} {earlier : List Bool} {h : Hierarchy} {r : Request}

theorem Tracked.traffic_of_isIdle (h' : h.Tracked p) (hidle : h.isIdle = true) :
    h.machine.traffic = 0 := by
  have horderly := h'.tracks.reach.orderly
  rw [Multiset.eq_zero_iff_forall_notMem]
  rintro ⟨s, r⟩ hr
  have hfits := h'.fits hr
  rw [← traffic_overview] at hr
  cases hkind : r.kind.isWriteBack with
  | false =>
    obtain ⟨e, he, -⟩ := horderly.exists_entry hr (Machine.isDemand_of_fits hfits hkind)
    rw [entries_of_isIdle hidle] at he
    cases he
  | true =>
    have hwriteBack := AccessKind.isWriteBack_iff.1 hkind
    obtain ⟨site, hsite⟩ := hfits.exists_receiver hwriteBack
    have hexpected := horderly.mem_expected hr hwriteBack hsite
    rw [expected_of_isIdle hidle] at hexpected
    exact Multiset.notMem_zero _ hexpected

theorem Tracked.traffic_scene (h' : h.Tracked p) (hidle : h.isIdle = true) :
    (h.machine.scene { now := h.cycle, completions := h.completions }).traffic = 0 := by
  rw [Machine.scene, h'.traffic_of_isIdle hidle, zero_add]

theorem Tracked.contents_scene (h' : h.Tracked p) (hidle : h.isIdle = true) :
    (h.machine.scene { now := h.cycle, completions := h.completions }).contents p =
      h.contents := by
  have htraffic := h'.traffic_scene hidle
  have hcalm : (h.machine.scene { now := h.cycle, completions := h.completions }).Calm p := by
    simp [Scene.Calm, htraffic]
  refine Contents.ext (funext fun i => funext fun k => ?_) ?_
  · rw [hcalm.sets_contents]
    simp only [Machine.scene, contents, Machine.view]
    cases h.machine.caches[i]? with
    | none => rfl
    | some c => rfl
  · rw [Scene.contents, htraffic]
    rfl

/-- A hierarchy that serves one access by itself. -/
structure Serves (p : Plan) (t : Task) (earlier : List Bool) (waits : Bool) (h : Hierarchy) :
    Prop where
  tracked : h.Tracked p
  works : h.machine.Works p t waits { now := h.cycle, completions := h.completions }
  misses : h.completions.map Completion.miss = earlier ++ if waits then [] else [t.result.1]

theorem Serves.of_isIdle (h' : h.Serves p t earlier waits) (hidle : h.isIdle = true) :
    h.completions.map Completion.miss = earlier ++ [t.result.1] ∧ h.contents = t.result.2 := by
  have hnone := h'.tracked.traffic_scene hidle
  have hmisses := h'.misses
  cases h'.works.stage with
  | underWay alone => simp [hnone, demands] at alone
  | finished alone => simp [hnone, demands] at alone
  | left none contents => exact ⟨hmisses, (h'.tracked.contents_scene hidle).symm.trans contents⟩

theorem enter_stands {m : Machine} {x : Context} {σ : Scene} (hcaches : p.topology ≠ .dramOnly)
    (h : m.Stands p x σ) :
    Yields (fun _ m' => ∃ readyAt, m'.Stands p x
        (σ.add (.lookups (p.topology.top r.kind.side)) { r with readyAt }))
      (enter p.topology r m) := by
  unfold enter
  cases hentry : p.topology.entry? with
  | none =>
    have hnone : p.topology.entryFor? r.kind = none := by rw [Topology.entryFor?, hentry]; rfl
    exact absurd (Topology.entryFor?_eq_none_iff.1 hnone) hcaches
  | some ports =>
    rw [Topology.top_of_entry? hentry]
    refine Ends.bind (Machine.cacheAt_yields fun c hc => Ends.bind
      (Machine.acceptLookup_yields (Machine.setCache_ends ⟨c.cycle + c.latency, ?_⟩)))
    exact h.put_push _ hc (traffic_push_lookups c)
      ((h.sound.caches _ c hc).congr rfl rfl rfl rfl) rfl

theorem access_serves (lineSize : Nat) (d : Demand) (hcaches : p.topology ≠ .dramOnly)
    (h' : h.Tracked p) (hidle : h.isIdle = true) :
    Yields (fun _ s => s.Serves p (d.task p lineSize h.contents)
        (h.completions.map Completion.miss) true)
      (access d.addr d.kind h) := by
  have htraffic := h'.traffic_scene hidle
  -- the request at the entry is the whole task, whose result is taken from the idle contents
  have hworks : Yields (fun _ s => s.completions = h.completions ∧ s.machine.Works p
      (d.task p lineSize h.contents) true { now := h.cycle, completions := h.completions })
      (access d.addr d.kind h) := by
    unfold access
    rw [if_pos d.hkind]
    apply onMachine_ends
    refine Ends.bind (Machine.freshId_yields (Ends.bind (Machine.record_ends ?_)))
    refine Ends.get_bind (Ends.bind (Yields.attempt fun outstanding hinsert => Ends.set_bind ?_))
    obtain ⟨-, rfl⟩ := Outstanding.insert_eq_ok_iff.1 hinsert
    have hissued := ((h'.tracks.sound.stands
      { now := h.cycle, completions := h.completions }).with_nextId.noted
        (.created (Request.ofAccess h.machine.nextId d.addr d.kind h.cycle))).with_outstanding
          ⟨h.machine.outstanding.entries ++
            [{ id := h.machine.nextId, addr := d.addr, kind := d.kind }]⟩
    rw [h'.topology]
    refine (enter_stands hcaches hissued).mono ?_ fun _ _ => id
    rintro - m' ⟨readyAt, hm'⟩
    refine ⟨rfl, _, hm', .hand ⟨rfl, rfl, rfl, ?_, ?_, ?_⟩ ?_ d.hkind (by simp)⟩
    · have hentries : h.machine.outstanding.entries = [] := entries_of_isIdle hidle { now := 0 }
      rw [hentries, List.nil_append, List.forall_mem_singleton]
      rfl
    · simp [Scene.Calm, htraffic]
    · have hne : p.topology.base? ≠ some (p.topology.top d.kind.side) := fun hb =>
        Topology.top_ne_of_base? hb _ rfl
      rw [← h'.contents_scene hidle]
      exact if_neg hne
    · simp [htraffic, demands]
  refine ((access_ends d.haddr d.hkind h').and hworks).yields.mono ?_ fun _ _ => id
  rintro - s ⟨hs, hcompletions, hworks⟩
  exact ⟨hs, hworks.recast rfl, by simp [hcompletions]⟩

theorem retire_serves {finished : List Request} (hfinished : h.machine.finished = r :: finished)
    (h' : h.Serves p t earlier waits) :
    Yields (fun _ s => s.Serves p t earlier false)
      (retire r { h with machine := { h.machine with finished } }) := by
  have hleft : Machine.scene { now := h.cycle, completions := h.completions } h.machine =
      (Machine.scene { now := h.cycle, completions := h.completions }
        { h.machine with finished }).add .finished r := by
    simp only [Machine.scene, Scene.add, Machine.traffic, hfinished, List.map_cons,
      ← Multiset.cons_coe, Multiset.add_cons, Multiset.cons_add]
    rfl
  have hr : r.kind.isDemand = true := by
    have hmem : (.finished, r) ∈ h.machine.traffic := Machine.mem_itemsAt.1 (by
      rw [Machine.itemsAt, hfinished]
      exact List.mem_cons_self)
    exact h'.tracked.fits hmem
  have hstage := h'.works.stage
  rw [hleft] at hstage
  obtain ⟨rfl, hfree, hresult⟩ := hstage.retired hr
  have hworks : Yields (fun _ s => s.machine.Works p t false
      { now := h.cycle, completions := h.completions } ∧
      s.completions = h.completions ++ [Completion.ofRequest r h.cycle])
      (retire r { h with machine := { h.machine with finished } }) := by
    apply Ends.get_bind
    dsimp only
    cases h.machine.outstanding.remove? r.id with
    | none => trivial
    | some removed =>
      have hsound : Machine.Sound p { h.machine with finished } :=
        h'.tracked.tracks.sound.congr rfl rfl
      have hstands := ((hsound.stands
        { now := h.cycle, completions := h.completions }).with_outstanding removed.2).noted
          (.retired r h.cycle)
      refine Ends.bind (onMachine_ends (Ends.modify_bind (Machine.record_ends ?_)))
      refine Ends.bind (Yields.attempt_add ⟨⟨_, hstands, ?_⟩, rfl⟩)
      exact .left hfree (congrArg Prod.snd hresult)
  refine ((retire_ends hfinished h'.tracked).and hworks).yields.mono ?_ fun _ _ => id
  rintro - s ⟨⟨hs, -⟩, hworks, hcompletions⟩
  refine ⟨hs, hworks.recast rfl, ?_⟩
  have hmisses := h'.misses
  rw [hcompletions, List.map_append, hmisses, ← hresult]
  simp [Completion.ofRequest]

theorem retireReady_serves (n : Nat) (h' : h.Serves p t earlier waits) :
    Yields (fun _ s => ∃ waits, s.Serves p t earlier waits) (retireReady n h) := by
  induction n generalizing h waits with
  | zero => exact ⟨waits, h'⟩
  | succ n ih =>
    apply Ends.get_bind
    cases hfinished : h.machine.finished with
    | nil => exact ⟨waits, h'⟩
    | cons r finished =>
      refine Ends.bind (onMachine_ends (Ends.of_modify (Ends.seq (retire_serves hfinished h') ?_)))
      exact fun _ s hs => ih hs

theorem runCycle_serves (hcaches : p.topology ≠ .dramOnly) (huniform : p.Uniform t.lineSize)
    (h' : h.Serves p t earlier waits) :
    Yields (fun _ s => ∃ waits, s.Serves p t earlier waits) (runCycle h) := by
  have hlast : p.topology.last? ≠ none := mt Topology.last?_eq_none_iff.1 hcaches
  have hworks : Yields (fun _ s => ∃ waits, s.machine.Works p t waits
      { now := s.cycle, completions := s.completions } ∧
      s.completions.map Completion.miss = earlier ++ if waits then [] else [t.result.1])
      (runCycle h) := by
    have hmachine := Machine.runCycle_serves huniform hlast ⟨h'.tracked.tracks, h'.works⟩
    refine Ends.bind (onMachine_ends (hmachine.mono (fun _ m hm => ?_) fun _ _ => id))
    have hserves : Serves p t earlier waits { h with machine := m } :=
      ⟨⟨h'.tracked.topology, hm.tracks⟩, hm.works, h'.misses⟩
    refine Ends.seq (Ends.get_bind (retireReady_serves _ hserves)) ?_
    rintro - s ⟨waits, hs⟩
    refine Ends.get_bind (Ends.bind (Yields.attempt_add ?_))
    exact ⟨waits, hs.works.recast rfl, hs.misses⟩
  refine ((runCycle_ends h'.tracked).and hworks).yields.mono ?_ fun _ _ => id
  rintro - s ⟨hs, waits, hworks, hmisses⟩
  exact ⟨waits, hs, hworks, hmisses⟩

section Uniform

variable {lineSize : Nat} (hcaches : p.topology ≠ .dramOnly) (huniform : p.Uniform lineSize)

include hcaches huniform

theorem drain_ends (ht : t.lineSize = lineSize) (n : Nat) (h' : h.Serves p t earlier waits) :
    Ends (fun idle s => (∃ waits, s.Serves p t earlier waits) ∧ s.isIdle = idle) (Fails p)
      (drain n h) := by
  induction n generalizing h waits with
  | zero => exact ⟨⟨waits, h'⟩, rfl⟩
  | succ n ih =>
    apply Ends.get_bind
    cases hidle : h.isIdle with
    | true => exact ⟨⟨waits, h'⟩, hidle⟩
    | false =>
      have hcycle := (runCycle_ends h'.tracked).and
        (runCycle_serves hcaches (ht.symm ▸ huniform) h')
      refine Ends.seq hcycle ?_
      rintro - s ⟨-, waits, hs⟩
      exact ih hs

/-- Accesses that are drained one by one do what they do in the atomic model. -/
theorem serve_ends (limit : Nat) (accesses : List Demand) (h' : h.Tracked p)
    (hidle : h.isIdle = true) :
    Ends (fun drained s => drained = true →
        s.completions.map Completion.miss =
            h.completions.map Completion.miss ++ (h.contents.serve p lineSize accesses).1 ∧
          s.contents = (h.contents.serve p lineSize accesses).2) (Fails p)
      (serve limit accesses h) := by
  -- on the accesses: each one starts where the one before it left an idle hierarchy
  induction accesses generalizing h with
  | nil => exact fun _ => ⟨(List.append_nil _).symm, rfl⟩
  | cons d rest ih =>
    refine Ends.seq ((access_ends d.haddr d.hkind h').and
      (access_serves lineSize d hcaches h' hidle)) ?_
    rintro - s ⟨-, hs⟩
    refine Ends.seq (drain_ends hcaches huniform rfl limit hs) ?_
    rintro drained s ⟨⟨waits, hs⟩, hdrained⟩
    cases drained with
    | false => exact fun h => absurd h Bool.false_ne_true
    | true =>
      obtain ⟨hmisses, hcontents⟩ := hs.of_isIdle hdrained
      refine (ih hs.tracked hdrained).mono (fun drained s hs htrue => ?_) fun _ _ => id
      obtain ⟨hmisses', hcontents'⟩ := hs htrue
      rw [hmisses', hcontents', hmisses, hcontents, List.append_assoc]
      exact ⟨rfl, rfl⟩

end Uniform

theorem exists_idle_start {c : HierarchyConfig} (hvalid : c.validate = .ok ())
    (hsized : c.Sized) :
    ∃ h, ofConfig c = .ok h ∧ h.Tracked h.plan ∧ h.topology = c.topology ∧
      (∀ i level, c.levels[i]? = some level → (h.plan.geometry i).lineSize = level.2.lineSize) ∧
      h.isIdle = true ∧ h.completions = [] ∧ h.contents = .empty := by
  obtain ⟨caches, hcaches, -, hfresh⟩ := exists_caches hvalid hsized
  obtain ⟨h, hstart, htracked, htopology, hlines⟩ := exists_start hvalid hsized
  obtain rfl := Except.ok.inj (hstart.symm.trans (ofConfig_eq_ok hvalid hcaches))
  refine ⟨_, hstart, htracked, htopology, hlines, ?_, rfl, ?_⟩
  · have hexpected : caches.all (fun d => d.expected.isEmpty) = true := by
      rw [List.all_eq_true]
      intro d hd
      obtain ⟨i, hi⟩ := List.mem_iff_getElem?.1 hd
      obtain ⟨name, g, latency, rfl, -⟩ := hfresh i d hi
      rfl
    rw [isIdle, isWriteBackDone, hexpected]
    rfl
  · refine Contents.ext (funext fun i => funext fun k => ?_) rfl
    refine congrFun (Machine.view_untouched fun d hd => ?_) i
    obtain ⟨j, hj⟩ := List.mem_iff_getElem?.1 hd
    obtain ⟨name, g, latency, rfl, -⟩ := hfresh j d hj
    exact TagArray.stack_row_empty name g k

/-- Where the lines of all caches are of one size, demand accesses that are drained one by one are
hits and misses as in the atomic model, and leave the same lines in every cache, dirty or not, in
the same order of recency, and the same count of write-backs in memory. -/
theorem serve_refines_atomic {c : HierarchyConfig} {lineSize : Nat} (hvalid : c.validate = .ok ())
    (hsized : c.Sized) (huniform : c.Uniform lineSize) (hcaches : c.topology ≠ .dramOnly)
    (limit : Nat) (accesses : List Demand) :
    ∃ start, ofConfig c = .ok start ∧
      Ends (fun drained h => drained = true →
          (h.completions.map Completion.miss, h.contents) =
            Contents.empty.serve start.plan lineSize accesses)
        (fun fault h => fault = .sumOverflow ∧ h.Exhausted)
        (serve limit accesses start) := by
  obtain ⟨start, hstart, htracked, ht, hlines, hidle, hnone, hempty⟩ :=
    exists_idle_start hvalid hsized
  have hplan : start.plan.Uniform lineSize := huniform.plan ht hlines
  have hcaches' : start.plan.topology ≠ .dramOnly := fun h => hcaches (ht.symm.trans h)
  have hends := serve_ends hcaches' hplan limit accesses htracked hidle
  refine ⟨start, hstart, hends.mono (fun drained h hs htrue => ?_) fun fault h hfails => ?_⟩
  · obtain ⟨hmisses, hcontents⟩ := hs htrue
    rw [hmisses, hcontents, hnone, hempty]
    rfl
  · apply hfails.overflow
    cases hb : start.plan.topology.base? with
    | none => exact .inl rfl
    | some b => exact .inr ⟨b, rfl, hplan.aligned hb⟩

instance {built : Except (Stop LevelError) Hierarchy} {limit : Nat} {accesses : List Demand}
    {Q : Bool → Hierarchy → Prop} {E : Fault → Hierarchy → Prop} [∀ a s, Decidable (Q a s)]
    [∀ fault s, Decidable (E fault s)] :
    Decidable (∃ start, built = .ok start ∧ Ends Q E (serve limit accesses start)) :=
  match built with
  | .ok start => decidable_of_iff (Ends Q E (serve limit accesses start))
      ⟨fun h => ⟨start, rfl, h⟩, fun ⟨_, hstart, h⟩ => Except.ok.inj hstart ▸ h⟩
  | .error _ => .isFalse fun ⟨_, hstart, _⟩ => nomatch hstart

end Hierarchy

/-- A write, a read of the same line, and a fetch of a line that takes its place in a second level
of two lines of 32 bytes. -/
def Demand.displacing : List Demand :=
  [⟨0, .write, by decide, rfl⟩, ⟨31, .read, by decide, rfl⟩, ⟨64, .instFetch, by decide, rfl⟩]

namespace Hierarchy

theorem serve_refines_atomic_narrow :
    HierarchyConfig.narrow.validate = .ok () ∧ HierarchyConfig.narrow.Sized ∧
      HierarchyConfig.narrow.Uniform 32 ∧ HierarchyConfig.narrow.topology ≠ .dramOnly ∧
      (∃ start, ofConfig .narrow = .ok start ∧
        Ends (fun drained h => drained = true →
            (h.completions.map Completion.miss, h.contents) =
              Contents.empty.serve start.plan 32 Demand.displacing)
          (fun fault h => fault = .sumOverflow ∧ h.Exhausted)
          (serve 20 Demand.displacing start)) ∧
      ∃ start, ofConfig .narrow = .ok start ∧
        Ends (fun drained h => drained = true ∧
            h.completions.map Completion.miss = [true, false, true] ∧ h.contents.writeBacks = 1)
          (fun _ _ => False) (serve 20 Demand.displacing start) :=
  ⟨rfl, by decide, by decide, by decide,
    serve_refines_atomic rfl (by decide) (show HierarchyConfig.narrow.Uniform 32 by decide)
      (by decide) 20 Demand.displacing, by decide +kernel⟩

end Hierarchy

end CacheHierarchy
