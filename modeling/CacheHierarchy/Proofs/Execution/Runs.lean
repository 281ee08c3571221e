import CacheHierarchy.Hierarchy.Basic
import CacheHierarchy.Proofs.Execution.Cycles

/-!
# Runs of a hierarchy

A run is a list of commands: the core issues demand accesses, and cycles go by. A hierarchy is
tracked if its machine is, between any two commands. Every run keeps that, or ends in one of two
faults.
-/

namespace CacheHierarchy

inductive Command
  | access (addr : Nat) (kind : AccessKind) (haddr : addr < wordLimit)
      (hkind : kind.isDemand = true)
  | cycle

namespace Hierarchy

def perform : Command → Step Unit
  | .access addr kind _ _ => access addr kind
  | .cycle => runCycle

def run (commands : List Command) : Step Unit := commands.forM perform

/-- Some number has run out of the word. -/
def Exhausted (h : Hierarchy) : Prop :=
  h.machine.Exhausted ∨ wordLimit ≤ h.cycle + 1 ∨ wordLimit ≤ h.completed + 1

/-- Some number has run out of the word; if it is no time and no count of the hierarchy's own, then
in a machine that is tracked. -/
def Overflows (p : Plan) (h : Hierarchy) : Prop :=
  h.machine.Overflows p ∨ wordLimit ≤ h.cycle + 1 ∨ wordLimit ≤ h.completed + 1

theorem Overflows.exhausted {p : Plan} {h : Hierarchy} (h' : h.Overflows p) : h.Exhausted :=
  h'.imp_left Machine.Overflows.exhausted

/-- The faults in which a run can end. -/
def Fails (p : Plan) (fault : Fault) (h : Hierarchy) : Prop :=
  fault = .sumOverflow ∧ h.Overflows p ∨
    ∃ array addr, fault = .writeBackMissed array addr ∧
      ∃ b o, p.topology.base? = some b ∧ Reach p o ∧ o.Stranded p b

/-- A hierarchy between two commands. -/
structure Tracked (p : Plan) (h : Hierarchy) : Prop where
  topology : h.topology = p.topology
  tracks : Tracks p { now := h.cycle, completions := h.completions } h.machine

variable {p : Plan} {h : Hierarchy} {r : Request}

/-- Between two commands no action has a request in hand. -/
theorem traffic_overview (h : Hierarchy) :
    (h.machine.overview { now := h.cycle, completions := h.completions }).traffic =
      h.machine.traffic :=
  add_zero _

theorem Tracked.fits (h' : h.Tracked p) {x : Spot × Request} (hx : x ∈ h.machine.traffic) :
    p.Fits x.2 x.1 := by
  rw [← traffic_overview] at hx
  exact (h'.tracks.reach.orderly.admits x hx).fits

theorem Tracked.ids (h' : h.Tracked p) :
    demandIds h.machine.traffic = h.machine.outstanding.ids := by
  rw [← traffic_overview]
  exact h'.tracks.reach.orderly.ids

/-- Nothing is outstanding in an idle hierarchy. -/
theorem entries_of_isIdle (h' : h.isIdle = true) (x : Context) :
    (h.machine.overview x).outstanding.entries = [] := by
  rw [isIdle, Bool.and_eq_true] at h'
  exact List.isEmpty_iff.1 h'.1

theorem isWriteBackDone_iff_expected (x : Context) :
    h.isWriteBackDone = true ↔ ∀ site, (h.machine.overview x).expected site = 0 := by
  have hnone : ∀ {l : WriteBackLedger}, l.isEmpty = true ↔ (l.ids : Multiset Nat) = 0 := by
    intro l
    rw [WriteBackLedger.isEmpty, WriteBackLedger.ids, List.isEmpty_iff, Multiset.coe_eq_zero,
      List.map_eq_nil_iff]
  simp only [isWriteBackDone, Bool.and_eq_true, List.all_eq_true, hnone]
  constructor
  · rintro ⟨hcaches, hmemory⟩ site
    cases site with
    | memory => exact hmemory
    | cache i =>
      simp only [Machine.overview, Machine.expectedAt, Machine.view]
      cases hc : h.machine.caches[i]? with
      | none => rfl
      | some c => exact hcaches c (List.mem_of_getElem? hc)
  · intro hexpected
    refine ⟨fun c hc => ?_, hexpected .memory⟩
    obtain ⟨i, hi⟩ := List.mem_iff_getElem?.1 hc
    exact (Machine.expectedAt_eq hi).symm.trans (hexpected (.cache i))

theorem expected_of_isIdle (h' : h.isIdle = true) (x : Context) (site : Site) :
    (h.machine.overview x).expected site = 0 := by
  rw [isIdle, Bool.and_eq_true] at h'
  exact (isWriteBackDone_iff_expected x).1 h'.2 site

theorem onMachine_ends {α : Type} {Q : α → Hierarchy → Prop} {E : Fault → Hierarchy → Prop}
    {action : Action α}
    (hends : Ends (fun a machine => Q a { h with machine })
      (fun fault machine => E fault { h with machine }) (action h.machine)) :
    Ends Q E (onMachine action h) := by
  unfold onMachine
  cases haction : action h.machine with
  | ok a machine =>
    rw [haction] at hends
    exact hends
  | error fault machine =>
    rw [haction] at hends
    exact hends

/-- A fault of the machine is one of the hierarchy. -/
theorem Fails.of_machine {machine : Machine} {fault : Fault}
    (hfails : CacheHierarchy.Fails p fault machine) : Fails p fault { h with machine } :=
  hfails.imp_left fun ⟨hfault, hoverflows⟩ => ⟨hfault, .inl hoverflows⟩

theorem enter_ends {m : Machine} {x : Context} {t : Topology} (ht : t = p.topology)
    (hsound : m.Sound p)
    (hreach : ∀ readyAt, Reach p { m.overview x with
      traffic := (p.entry r.kind, { r with readyAt }) ::ₘ (m.overview x).traffic }) :
    Ends (fun _ => Tracks p x) (CacheHierarchy.Fails p) (enter t r m) := by
  subst ht
  unfold enter
  cases hentry : p.topology.entry? with
  | none =>
    have hspot : p.entry r.kind = .memory := by
      rw [Plan.entry, Topology.entryFor?, hentry]
      rfl
    have hnone : p.topology.entryFor? r.kind = none := by
      rw [Topology.entryFor?, hentry]
      rfl
    have hlast : p.topology.last? = none :=
      Topology.last?_eq_none_iff.2 (Topology.entryFor?_eq_none_iff.1 hnone)
    refine Machine.sendToMemory_ends fun readyAt => ?_
    refine ⟨hsound.congr rfl rfl, ?_⟩
    rw [Machine.overview_accepting]
    have hentered := hreach readyAt
    rw [hspot] at hentered
    exact hentered.step (.note (.accepted { r with readyAt }) rfl (.inr hlast))
  | some ports =>
    have hfor : p.topology.entryFor? r.kind = some (ports.on r.kind.side) := by
      rw [Topology.entryFor?, hentry]
      rfl
    have hspot : p.entry r.kind = .lookups (ports.on r.kind.side) := by
      rw [Plan.entry, hfor]
      rfl
    obtain ⟨c, hc, hcsound⟩ := hsound.exists_cache
      (Topology.lt_size_of_mem_tops (Topology.mem_tops_of_entryFor? hfor))
    refine Ends.bind (Machine.cacheAt_ends hc ?_)
    refine Ends.bind (Machine.acceptLookup_ends hc fun readyAt => ?_)
    refine Machine.setCache_ends ⟨hsound.put (hcsound.congr rfl rfl rfl rfl), ?_⟩
    rw [Machine.overview_put_push hc _ (traffic_push_lookups c) (by rfl) (by rfl)]
    have hentered := hreach readyAt
    rw [hspot] at hentered
    exact hentered

theorem access_ends {addr : Nat} {kind : AccessKind} (haddr : addr < wordLimit)
    (hkind : kind.isDemand = true) (h' : h.Tracked p) :
    Ends (fun _ => Tracked p) (Fails p) (access addr kind h) := by
  obtain ⟨htopology, htracks⟩ := h'
  have hcreated := htracks.note
    (.created (Request.ofAccess h.machine.nextId addr kind h.cycle)) rfl rfl
  have hfresh : h.machine.nextId ∉ h.machine.outstanding.ids := fun hmem =>
    Nat.lt_irrefl _ (htracks.reach.orderly.fresh _ hmem)
  unfold access
  rw [if_pos hkind]
  apply onMachine_ends
  refine Ends.mono (Q := fun _ => Tracks p { now := h.cycle, completions := h.completions })
    (E := CacheHierarchy.Fails p) ?_ (fun _ _ hm => ⟨htopology, hm⟩) fun _ _ => Fails.of_machine
  refine Ends.bind (Machine.freshId_ends htracks fun hnext => Ends.bind (Machine.record_ends ?_))
  have hinsert : h.machine.outstanding.insert h.machine.nextId addr kind = .ok
      ⟨h.machine.outstanding.entries ++ [{ id := h.machine.nextId, addr, kind }]⟩ :=
    Outstanding.insert_eq_ok_iff.2 ⟨hfresh, rfl⟩
  refine Ends.get_bind (Ends.bind (Ends.attempt_ok hinsert (Ends.set_bind ?_)))
  refine enter_ends htopology ?_ fun readyAt => ?_
  · exact htracks.sound.congr rfl rfl
  exact hcreated.reach.step (.issue readyAt haddr hkind hnext)

theorem retire_ends {finished : List Request} (hfinished : h.machine.finished = r :: finished)
    (h' : h.Tracked p) :
    Ends (fun _ s => s.Tracked p ∧ s.machine.finished = finished ∧
        s.machine.memory = h.machine.memory ∧ s.cycle = h.cycle) (Fails p)
      (retire r { h with machine := { h.machine with finished } }) := by
  obtain ⟨htopology, htracks⟩ := h'
  have ht : (h.machine.overview { now := h.cycle, completions := h.completions }).traffic =
      (.finished, r) ::ₘ
        (Machine.overview { h.machine with finished }
          { now := h.cycle, completions := h.completions }).traffic := by
    simp only [Machine.overview, Machine.traffic, hfinished, List.map_cons, ← Multiset.cons_coe,
      Multiset.add_cons, Multiset.cons_add]
  have hmem := mem_of_eq_cons ht
  have hdemand : r.kind.isDemand = true := (htracks.reach.orderly.admits _ hmem).fits
  obtain ⟨e, he, hid, -⟩ := htracks.reach.orderly.exists_entry hmem hdemand
  obtain ⟨e', outstanding, hremove⟩ := Outstanding.exists_remove?
    (hid ▸ Outstanding.mem_ids.2 ⟨e, he, rfl⟩)
  have hretired := htracks.reach.step (.retire ht hremove)
  have hremove' : h.machine.outstanding.remove? r.id = some (e', outstanding) := hremove
  apply Ends.get_bind
  dsimp only
  rw [hremove']
  refine Ends.bind (onMachine_ends (Ends.modify_bind (Machine.record_ends ?_)))
  refine Ends.bind (Ends.attempt_add ?_ fun hlimit => .inl ⟨rfl, .inr (.inr hlimit)⟩)
  refine ⟨⟨htopology, ?_⟩, rfl, rfl, rfl⟩
  exact ⟨htracks.sound.congr rfl rfl, hretired⟩

theorem retireReady_ends (n : Nat) (hn : h.machine.finished.length = n) (h' : h.Tracked p) :
    Ends (fun _ s => s.Tracked p ∧ s.machine.finished = [] ∧
        s.machine.memory = h.machine.memory ∧ s.cycle = h.cycle) (Fails p) (retireReady n h) := by
  induction n generalizing h with
  | zero => exact ⟨h', List.length_eq_zero_iff.1 hn, rfl, rfl⟩
  | succ n ih =>
    cases hfinished : h.machine.finished with
    | nil =>
      rw [hfinished] at hn
      cases hn
    | cons r finished =>
      rw [hfinished, List.length_cons, Nat.add_right_cancel_iff] at hn
      refine Ends.get_bind ?_
      rw [hfinished]
      refine Ends.bind (onMachine_ends (Ends.of_modify (Ends.seq (retire_ends hfinished h') ?_)))
      rintro - s ⟨hs, hleft, hmemory, hcycle⟩
      refine (ih (by rw [hleft, hn]) hs).mono ?_ fun _ _ => id
      rintro - s' ⟨hs', hnone, hmemory', hcycle'⟩
      exact ⟨hs', hnone, hmemory'.trans hmemory, hcycle'.trans hcycle⟩

theorem newCycle_ends (hahead : h.cycle < h.machine.memory.cycle)
    (hnone : h.machine.finished = []) (h' : h.Tracked p) :
    Ends (fun _ => Tracked p) (Fails p)
      ((do
        let h ← get
        let cycle ← attempt (Word.add h.cycle 1)
        set { h with cycle } : Step Unit) h) := by
  obtain ⟨htopology, htracks⟩ := h'
  refine Ends.get_bind (Ends.bind (Ends.attempt_add ?_ fun hlimit => ?_))
  · refine ⟨htopology, htracks.sound, htracks.reach.step (.newCycle hahead ?_)⟩
    intro r hr
    have hmem : (.finished, r) ∈ h.machine.traffic := by
      simpa only [Machine.overview, add_zero] using hr
    have hfinished := Machine.mem_finished_of_mem_traffic hmem
    rw [hnone] at hfinished
    cases hfinished
  · exact .inl ⟨rfl, .inr (.inl hlimit)⟩

theorem runCycle_ends (h' : h.Tracked p) :
    Ends (fun _ => Tracked p) (Fails p) (runCycle h) := by
  obtain ⟨htopology, htracks⟩ := h'
  refine Ends.bind (onMachine_ends ((Machine.runCycle_ends htracks).mono ?_
    fun _ _ => Fails.of_machine))
  rintro - m ⟨hm, hahead⟩
  have htracked : Tracked p { h with machine := m } := ⟨htopology, hm⟩
  apply Ends.seq (Ends.get_bind (retireReady_ends _ rfl htracked))
  rintro - s ⟨hs, hnone, hmemory, hcycle⟩
  refine newCycle_ends ?_ hnone hs
  rw [hmemory, hcycle]
  exact hahead

theorem perform_ends (command : Command) (h' : h.Tracked p) :
    Ends (fun _ => Tracked p) (Fails p) (perform command h) := by
  cases command with
  | access addr kind haddr hkind => exact access_ends haddr hkind h'
  | cycle => exact runCycle_ends h'

/-- Every run of a tracked hierarchy keeps it tracked, or ends in a fault that is accounted for. -/
theorem run_ends (commands : List Command) (h' : h.Tracked p) :
    Ends (fun _ => Tracked p) (Fails p) (run commands h) :=
  Ends.forM (I := fun _ => Tracked p) (fun command _ _ => perform_ends command) h'

end Hierarchy

end CacheHierarchy
