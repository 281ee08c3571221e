import CacheHierarchy.Proofs.Execution.Start
import CacheHierarchy.Proofs.Outline.Stages

/-!
# Runs in outline

What the core asks of a hierarchy shows in its outline: an access is issued, a cycle goes by, and
what is finished leaves. A hierarchy as it is built has an empty outline.
-/

namespace CacheHierarchy

variable {α : Type}

namespace Outline

noncomputable def perform (p : Plan) (o : Outline Unit) : Command → Outline Unit
  | .access addr kind _ _ => o.issue p () (p.lines addr) (p.topology.top kind.side)
  | .cycle => o.runCycle p

noncomputable def run (p : Plan) (commands : List Command) (o : Outline Unit) : Outline Unit :=
  commands.foldl (perform p) o

def retireNext (e : Errand α) (o : Outline α) : Outline α :=
  { o.pop .finished with done := o.done ++ [e.outcome o.now], inFlight := o.inFlight - 1 }

theorem retire_eq {o : Outline α} {e : Errand α} {rest : List (Errand α)}
    (h : o.queue .finished = e :: rest) : o.retire = (o.retireNext e).retire := by
  simp [retire, retireNext, pop, h, Nat.sub_sub, Nat.add_comm]

theorem retire_of_queue_eq_nil {o : Outline α} (h : o.queue .finished = []) : o.retire = o := by
  have hqueue : Function.update o.queue .finished [] = o.queue := h ▸ Function.update_eq_self ..
  simp [retire, h, hqueue]

end Outline

namespace Hierarchy

variable {p : Plan} {label : Ticket → α} {o : Outline α} {h : Hierarchy}

/-- What the machine inside does not know. -/
def vantage (p : Plan) (label : Ticket → α) (h : Hierarchy) : Vantage α :=
  { plan := p, label, now := h.cycle, completions := h.completions }

def ticket (h : Hierarchy) (addr : Nat) (kind : AccessKind) : Ticket :=
  { id := h.machine.nextId, addr, kind, issuedAt := h.cycle }

/-- A hierarchy is tracked and has an outline. -/
structure Shows (p : Plan) (label : Ticket → α) (o : Outline α) (h : Hierarchy) : Prop where
  tracked : h.Tracked p
  outlined : ∃ asked, h.machine.Outlined (h.vantage p label) none asked o

theorem Shows.machine (h' : h.Shows p label o) : h.machine.Shows (h.vantage p label) o :=
  ⟨h'.tracked.tracks, h'.outlined⟩

theorem enter_outlined {v : Vantage α} {asked : Nat → List Bool} {m : Machine} {r : Request}
    {t : Topology} (ht : t = v.plan.topology) (hr : r.kind.isWriteBack = false)
    (h : m.Outlined v none asked o) :
    Yields (fun _ m' => m'.Outlined v none asked
        (match v.plan.topology.entry? with
        | none => o.arrive .memory .memory (r.errand v asked)
        | some _ =>
          o.arrive (.lookups (v.plan.topology.top r.kind.side))
            (.cache (v.plan.topology.top r.kind.side)) (r.errand v asked)))
      (enter t r m) := by
  subst ht
  unfold enter
  cases hentry : v.plan.topology.entry? with
  | none =>
    have haccepted := h.accepting (by simp) r
    rw [hr] at haccepted
    exact Machine.sendToMemory_yields haccepted
  | some ports =>
    rw [Topology.top_of_entry? hentry]
    exact Ends.bind (Machine.cacheAt_yields fun c hc => Ends.bind
      (Machine.acceptLookup_yields (Machine.setCache_ends (h.pushLookup hc (by simp) hr))))

theorem access_outlined {addr : Nat} {kind : AccessKind} (haddr : addr < wordLimit)
    (hkind : kind.isDemand = true) (h' : h.Shows p label o) :
    Yields (fun _ s => s.Shows p label
        (o.issue p (label (h.ticket addr kind)) (p.lines addr) (p.topology.top kind.side)))
      (access addr kind h) := by
  obtain ⟨htracked, asked, houtlined⟩ := h'
  have hwriteBack := AccessKind.isWriteBack_of_isDemand hkind
  have hends : Yields (fun _ s => ∃ asked, s.machine.Outlined (s.vantage p label) none asked
      (o.issue p (label (h.ticket addr kind)) (p.lines addr) (p.topology.top kind.side)))
      (access addr kind h) := by
    unfold access
    rw [if_pos hkind]
    apply onMachine_ends
    refine Ends.bind (Machine.freshId_yields (Ends.bind (Machine.record_ends ?_)))
    refine Ends.get_bind (Ends.bind (Yields.attempt fun outstanding hinsert => Ends.set_bind ?_))
    obtain ⟨-, rfl⟩ := Outstanding.insert_eq_ok_iff.1 hinsert
    have hissued := (houtlined.with_nextId.noted (.created
      (Request.ofAccess h.machine.nextId addr kind h.cycle)) fun _ => rfl).with_table
        ⟨h.machine.outstanding.entries ++ [{ id := h.machine.nextId, addr, kind }]⟩
    refine (enter_outlined (r := Request.ofAccess h.machine.nextId addr kind h.cycle)
      htracked.topology hwriteBack hissued).mono (fun _ m hm => ⟨asked, ?_⟩) fun _ _ => id
    have hlength : Outstanding.length
        ⟨h.machine.outstanding.entries ++ [{ id := h.machine.nextId, addr, kind }]⟩ =
          o.inFlight + 1 := by
      rw [← houtlined.outline]
      simp [Outstanding.length, Machine.outline]
    have hnow : h.cycle = o.now := by
      rw [← houtlined.outline]
      rfl
    have herrand : (Request.ofAccess h.machine.nextId addr kind h.cycle).errand
        (h.vantage p label) asked =
        { label := label (h.ticket addr kind), line := p.lines addr, top := p.topology.top kind.side
          issuedAt := o.now, readyAt := o.now, isMiss := false, bypass := false, asked := [] } := by
      rw [← hnow, ← houtlined.unasked h.machine.nextId le_rfl]
      rfl
    rw [hlength, herrand] at hm
    exact hm
  exact ((access_ends haddr hkind htracked).and hends).yields.mono
    (fun _ _ hs => ⟨hs.1, hs.2⟩) fun _ _ => id

theorem retire_outlined {r : Request} {finished : List Request}
    (hfinished : h.machine.finished = r :: finished) (h' : h.Shows p label o) :
    Yields (fun _ s => ∃ asked, o.queue .finished = r.errand (h.vantage p label) asked ::
          Request.errands (h.vantage p label) asked finished ∧
        s.machine.Outlined (s.vantage p label) none asked
          (o.retireNext (r.errand (h.vantage p label) asked)))
      (retire r { h with machine := { h.machine with finished } }) := by
  obtain ⟨htracked, asked, houtlined⟩ := h'
  have hmem : (.finished, r) ∈ (h.machine.overview (h.vantage p label).context).traffic := by
    refine Multiset.mem_add.2 (.inl (Machine.mem_itemsAt.1 ?_))
    rw [Machine.itemsAt, hfinished]
    exact List.mem_cons_self
  have hkind := AccessKind.isWriteBack_of_isDemand
    (htracked.tracks.reach.orderly.admits _ hmem).fits
  have hqueue := houtlined.queue_eq .finished
  rw [Machine.itemsAt, hfinished, Request.errands_cons_demand _ _ _ hkind] at hqueue
  apply Ends.get_bind
  dsimp only
  cases hremove : h.machine.outstanding.remove? r.id with
  | none => trivial
  | some removed =>
    obtain ⟨e, outstanding⟩ := removed
    refine Ends.bind (onMachine_ends (Ends.modify_bind (Machine.record_ends ?_)))
    refine Ends.bind (Yields.attempt_add ⟨asked, hqueue, ?_⟩)
    have hleft := houtlined.with_items { h.machine with finished } .finished finished none
      ⟨houtlined.regular.length, houtlined.regular.caches, houtlined.regular.memory,
        houtlined.regular.above⟩ (by funext s; cases s <;> rfl) rfl rfl rfl fun _ _ hs => by cases hs
    have hdone := ((hleft.with_table outstanding).noted (.retired r h.cycle)
      fun _ => rfl).with_completions (h.completions ++ [Completion.ofRequest r h.cycle])
    have hlength : outstanding.length = o.inFlight - 1 := by
      obtain ⟨-, -, hids, -⟩ :=
        Outstanding.remove?_eq_some htracked.tracks.reach.orderly.nodup hremove
      have hids := hids.length_eq
      rw [List.length_cons, Outstanding.ids, Outstanding.ids, List.length_map, List.length_map]
        at hids
      rw [← houtlined.outline]
      exact Nat.eq_sub_of_add_eq hids.symm
    have hcompletions : (h.completions ++ [Completion.ofRequest r h.cycle]).map
        (Completion.outcome (h.vantage p label) asked) =
        o.done ++ [(r.errand (h.vantage p label) asked).outcome o.now] := by
      rw [List.map_append, ← houtlined.outline, ← houtlined.asked]
      rfl
    have htail : Request.errands (h.vantage p label) asked finished = (o.queue .finished).tail := by
      rw [hqueue, List.tail_cons]
    rw [hlength, hcompletions, htail] at hdone
    exact hdone

theorem retireReady_outlined (n : Nat) (hn : h.machine.finished.length = n)
    (h' : h.Shows p label o) :
    Yields (fun _ s => s.Shows p label o.retire) (retireReady n h) := by
  induction n generalizing h o with
  | zero =>
    obtain ⟨asked, houtlined⟩ := h'.outlined
    have hqueue := houtlined.queue_eq .finished
    rw [Machine.itemsAt, List.length_eq_zero_iff.1 hn, Request.errands_nil] at hqueue
    rw [Outline.retire_of_queue_eq_nil hqueue]
    exact h'
  | succ n ih =>
    cases hfinished : h.machine.finished with
    | nil =>
      rw [hfinished] at hn
      cases hn
    | cons r finished =>
      rw [hfinished, List.length_cons, Nat.add_right_cancel_iff] at hn
      refine Ends.get_bind ?_
      rw [hfinished]
      refine Ends.bind (onMachine_ends (Ends.of_modify (Ends.seq
        ((retire_ends hfinished h'.tracked).and (retire_outlined hfinished h')).yields ?_)))
      rintro - s ⟨⟨hs, hleft, -⟩, asked, hqueue, houtlined⟩
      rw [Outline.retire_eq hqueue]
      exact ih (by rw [hleft, hn]) ⟨hs, asked, houtlined⟩

theorem runCycle_outlined (h' : h.Shows p label o) :
    Yields (fun _ s => s.Shows p label (o.runCycle p)) (runCycle h) := by
  have hends : Yields (fun _ s => ∃ asked, s.machine.Outlined (s.vantage p label) none asked
      (o.runCycle p)) (runCycle h) := by
    have hmachine := Machine.runCycle_outlined h'.machine
    refine Ends.bind (onMachine_ends (hmachine.mono (fun _ m hm => ?_) fun _ _ => id))
    have hshows : Shows p label (o.runMachine p) { h with machine := m } :=
      ⟨⟨h'.tracked.topology, hm.tracks⟩, hm.outlined⟩
    refine Ends.seq (Ends.get_bind (retireReady_outlined _ rfl hshows)) ?_
    rintro - s ⟨-, asked, houtlined⟩
    refine Ends.get_bind (Ends.bind (Yields.attempt_add ⟨asked, ?_⟩))
    have hnow : (o.runMachine p).retire.now = s.cycle := by
      rw [← houtlined.outline]
      rfl
    rw [Outline.runCycle, hnow]
    exact houtlined.with_now (s.cycle + 1)
  exact ((runCycle_ends h'.tracked).and hends).yields.mono
    (fun _ _ hs => ⟨hs.1, hs.2⟩) fun _ _ => id

theorem perform_outlined (command : Command) {o : Outline Unit}
    (h' : h.Shows p (fun _ => ()) o) :
    Yields (fun _ s => s.Shows p (fun _ => ()) (o.perform p command)) (perform command h) := by
  cases command with
  | access addr kind haddr hkind => exact access_outlined haddr hkind h'
  | cycle => exact runCycle_outlined h'

/-- A run does in outline what it does. -/
theorem run_outlined (commands : List Command) {o : Outline Unit}
    (h' : h.Shows p (fun _ => ()) o) :
    Yields (fun _ s => s.Shows p (fun _ => ()) (o.run p commands)) (run commands h) := by
  induction commands generalizing h o with
  | nil => exact h'
  | cons command rest ih => exact Ends.seq (perform_outlined command h') fun _ _ hs => ih hs

end Hierarchy

/-! The start of a run. -/

/-- Nothing has happened in the outline of a configuration. -/
structure Outline.Fresh (c : HierarchyConfig) (o : Outline α) : Prop where
  queue : ∀ s, o.queue s = []
  clock : ∀ site, o.clock site = 0
  latency : ∀ i level, c.levels[i]? = some level → o.latency (.cache i) = level.2.latency
  memoryLatency : o.latency .memory = c.memoryLatency
  now : o.now = 0
  done : o.done = []
  inFlight : o.inFlight = 0

theorem HierarchyConfig.latency_of_cache {level : LevelConfig} {name : String} {above : Above}
    {below : Below} {side : Option Side} {d : Cache}
    (h : HierarchyConfig.cache level name above below side = .ok d) : d.latency = level.latency := by
  unfold HierarchyConfig.cache at h
  cases htags : level.tagArray name with
  | error fault =>
    rw [htags] at h
    cases h
  | ok tags =>
    rw [htags] at h
    cases h
    rfl

theorem HierarchyConfig.latencies {c : HierarchyConfig} {caches : List Cache}
    (h : c.caches = .ok caches) :
    caches.map Cache.latency = c.levels.map fun level => level.2.latency := by
  obtain ⟨topology, l1d, l1i, l2, latency⟩ := c
  have hbind : ∀ {β : Type} {x : Except Fault Cache} {f : Cache → Except Fault β} {b : β},
      x.bind f = .ok b → ∃ d, x = .ok d ∧ f d = .ok b := by
    intro β x f b hx
    cases x with
    | error fault => cases hx
    | ok d => exact ⟨d, rfl, hx⟩
  cases topology with
  | dramOnly =>
    cases h
    rfl
  | singleLevel =>
    obtain ⟨d, hd, hrest⟩ := hbind h
    cases hrest
    simp [levels, latency_of_cache hd]
  | multiLevel =>
    obtain ⟨d, hd, hrest⟩ := hbind h
    obtain ⟨d', hd', hrest⟩ := hbind hrest
    cases hrest
    simp [levels, latency_of_cache hd, latency_of_cache hd']
  | splitL1 =>
    obtain ⟨d, hd, hrest⟩ := hbind h
    obtain ⟨d', hd', hrest⟩ := hbind hrest
    obtain ⟨d'', hd'', hrest⟩ := hbind hrest
    cases hrest
    simp [levels, latency_of_cache hd, latency_of_cache hd', latency_of_cache hd'']
namespace Hierarchy

variable {c : HierarchyConfig}

/-- A well-formed configuration gives a hierarchy with a fresh outline. -/
theorem exists_outlined_start (hvalid : c.validate = .ok ()) (hsized : c.Sized)
    (label : Ticket → α) :
    ∃ h o, ofConfig c = .ok h ∧ h.topology = c.topology ∧ h.Shows h.plan label o ∧ o.Fresh c ∧
      ∀ i level, c.levels[i]? = some level → (h.plan.geometry i).lineSize = level.2.lineSize := by
  obtain ⟨caches, hcaches, hlength, hfresh⟩ := exists_caches hvalid hsized
  obtain ⟨h, hstart, htracked, htopology, hlines⟩ := exists_start hvalid hsized
  obtain rfl := Except.ok.inj (hstart.symm.trans (ofConfig_eq_ok hvalid hcaches))
  refine ⟨_, _, hstart, htopology, ⟨htracked, fun _ => [], ?_, fun _ _ => rfl, rfl, rfl,
    fun _ _ hs => by cases hs⟩, ?_, hlines⟩
  · refine ⟨hlength, fun i d hd => ?_, .empty _, htracked.tracks.sound.above⟩
    obtain ⟨name, g, latency, rfl, -⟩ := hfresh i d hd
    exact ⟨(geometry_plan hd).symm, rfl, rfl, .empty _, .empty _, by simp [Cache.fresh],
      by simp [Cache.fresh]⟩
  · have hview : ∀ {β : Type} {f : Cache → β} {absent : β},
        (∀ name g latency above below side, f (.fresh name g latency above below side) = absent) →
        ∀ i, Machine.view { caches, memory := c.memory, journal := [.assembled c.topology] } f
          absent i = absent := by
      intro β f absent hf i
      refine congrFun (Machine.view_untouched fun d hd => ?_) i
      obtain ⟨j, hj⟩ := List.mem_iff_getElem?.1 hd
      obtain ⟨name, g, latency, rfl, -⟩ := hfresh j d hj
      exact hf ..
    refine ⟨fun s => ?_, fun site => ?_, fun i level hlevel => ?_, rfl, rfl, rfl, rfl⟩
    · have hitems : Machine.itemsAt
          { caches, memory := c.memory, journal := [.assembled c.topology] } s = [] := by
        cases s with
        | memory | finished => rfl
        | _ i => exact hview (fun _ _ _ _ _ _ => rfl) i
      exact congrArg (Request.errands _ _) hitems
    · cases site with
      | memory => rfl
      | cache i => exact hview (fun _ _ _ _ _ _ => rfl) i
    · have hlatency := congrArg (·[i]?) (HierarchyConfig.latencies hcaches)
      simp only [List.getElem?_map, hlevel, Option.map_some, Option.map_eq_some_iff] at hlatency
      obtain ⟨d, hd, hlatency⟩ := hlatency
      exact (Machine.view_eq
        (m := { caches, memory := c.memory, journal := [.assembled c.topology] }) hd
        Cache.latency 0).trans hlatency

end Hierarchy

end CacheHierarchy
