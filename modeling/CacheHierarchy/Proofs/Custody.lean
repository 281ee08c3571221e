import CacheHierarchy.Proofs.Execution.Frames
import CacheHierarchy.Proofs.Outline.Labels
import CacheHierarchy.Proofs.Outline.Runs
import CacheHierarchy.Proofs.Overview.Accounted
import CacheHierarchy.Proofs.Safety

/-!
# Custody of accesses

A session is a run as the core sees it: it issues accesses, lets cycles go by and collects
completions, and keeps in mind what it has issued and what it has collected.

Between any two of these calls every access that was issued is in one place. Either it is
outstanding, and exactly one demand request in the queues is for it, or it is done, and exactly one
completion tells so, which waits to be collected or was collected before.
-/

namespace CacheHierarchy

inductive Call
  | command (command : Command)
  /-- The oldest completion is collected, if there is one. -/
  | collect

/-- A run as the core sees it. -/
structure Session where
  hierarchy : Hierarchy
  /-- The accesses that were issued, the oldest one first. -/
  issued : List Ticket := []
  /-- The completions that were collected, the oldest one first. -/
  collected : List Completion := []

def Hierarchy.tickets (h : Hierarchy) : Command → List Ticket
  | .access addr kind _ _ => [h.ticket addr kind]
  | .cycle => []

namespace Session

def completions (s : Session) : List Completion := s.collected ++ s.hierarchy.completions

def call : Call → EStateM Fault Session Unit
  | .command command => fun s =>
    match Hierarchy.perform command s.hierarchy with
    | .ok _ hierarchy =>
      .ok () { s with hierarchy, issued := s.issued ++ s.hierarchy.tickets command }
    | .error fault hierarchy => .error fault { s with hierarchy }
  | .collect => modify fun s =>
    match s.hierarchy.popCompletion? with
    | some (d, hierarchy) => { s with hierarchy, collected := s.collected ++ [d] }
    | none => s

def run (calls : List Call) : EStateM Fault Session Unit := calls.forM call

/-- Every access is in one place. -/
structure Custody (s : Session) : Prop where
  /-- No number is given out twice. -/
  nodup : (s.issued.map Ticket.id).Nodup
  /-- What was issued is outstanding or done. -/
  issued : (s.issued.map Ticket.id).Perm
    (s.hierarchy.machine.outstanding.ids ++ s.completions.map Completion.id)
  /-- What is outstanding has one demand request in the queues, and nothing else has one. -/
  queued : demandIds s.hierarchy.machine.traffic = s.hierarchy.machine.outstanding.ids
  /-- These queues are those of the caches and of memory. -/
  finished : s.hierarchy.machine.finished = []
  /-- A completion says what was issued, and when. -/
  tickets : ∀ d ∈ s.completions, d.ticket ∈ s.issued
  completed : s.hierarchy.completed = s.completions.length

end Session

namespace Hierarchy

variable {p : Plan} {h : Hierarchy} {o : Outline Ticket}

def Counted (h : Hierarchy) : Prop := h.completed = h.completions.length

theorem completions_ofConfig {c : HierarchyConfig} (hstart : ofConfig c = .ok h) :
    h.completions = [] ∧ h.completed = 0 := by
  obtain ⟨caches, -, rfl⟩ := exists_of_ofConfig_eq_ok hstart
  exact ⟨rfl, rfl⟩

/-- An action of the machine changes nothing else. -/
theorem onMachine_yields {α : Type} (action : Action α) :
    Yields (fun _ s => ∃ machine, s = { h with machine }) (onMachine action h) := by
  apply onMachine_ends
  cases action h.machine with
  | ok a machine => exact ⟨machine, rfl⟩
  | error fault machine => trivial

theorem access_yields {addr : Nat} {kind : AccessKind} (hkind : kind.isDemand = true) :
    Yields (fun _ s => ∃ machine, s = { h with machine }) (access addr kind h) := by
  unfold access
  rw [if_pos hkind]
  exact Ends.get_bind (onMachine_yields _)

theorem retire_counted (r : Request) (hcount : h.Counted) :
    Yields (fun _ s => s.Counted) (retire r h) := by
  apply Ends.get_bind
  cases h.machine.outstanding.remove? r.id with
  | none => trivial
  | some removed =>
    refine Ends.seq (onMachine_yields _) ?_
    rintro - _ ⟨machine, rfl⟩
    refine Ends.bind (Yields.attempt_add (Ends.of_modify ?_))
    simp only [Counted, List.length_append, List.length_singleton] at hcount ⊢
    rw [hcount]

theorem retireReady_counted (n : Nat) (hcount : h.Counted) :
    Yields (fun _ s => s.Counted) (retireReady n h) := by
  induction n generalizing h with
  | zero => exact hcount
  | succ n ih =>
    apply Ends.get_bind
    cases h.machine.finished with
    | nil => exact hcount
    | cons r finished =>
      refine Ends.seq (onMachine_yields _) ?_
      rintro - _ ⟨machine, rfl⟩
      exact Ends.seq (retire_counted r hcount) fun _ _ => ih

theorem perform_counted (command : Command) (hcount : h.Counted) :
    Yields (fun _ s => s.Counted) (perform command h) := by
  cases command with
  | access addr kind haddr hkind =>
    refine (access_yields hkind).mono ?_ fun _ _ => id
    rintro - _ ⟨machine, rfl⟩
    exact hcount
  | cycle =>
    refine Ends.seq (onMachine_yields _) ?_
    rintro - _ ⟨machine, rfl⟩
    refine Ends.seq (Ends.get_bind (retireReady_counted _ hcount)) fun _ s hs => ?_
    exact Ends.get_bind (Ends.bind (Yields.attempt_add hs))

/-- A label of an outline is the ticket of a demand request in traffic or of a completion. -/
theorem Shows.mem_labels (h' : h.Shows p id o) {t : Ticket} :
    t ∈ o.labels ↔
      (∃ x ∈ h.machine.traffic, x.2.kind.isDemand = true ∧ x.2.ticket = t) ∨
        ∃ d ∈ h.completions, d.ticket = t := by
  obtain ⟨htracked, asked, houtlined⟩ := h'
  have hdone : o.done = h.completions.map (Completion.outcome (h.vantage p id) asked) := by
    rw [← houtlined.outline, ← houtlined.asked]
    rfl
  constructor
  · rintro (⟨s, e, he, rfl⟩ | ⟨d', hd', rfl⟩)
    · rw [houtlined.queue_eq, Request.mem_errands] at he
      obtain ⟨r, hr, hkind, rfl⟩ := he
      rw [Machine.mem_itemsAt] at hr
      exact .inl ⟨(s, r), hr, Machine.isDemand_of_fits (htracked.fits hr) hkind, rfl⟩
    · rw [hdone] at hd'
      obtain ⟨d, hd, rfl⟩ := List.mem_map.1 hd'
      exact .inr ⟨d, hd, rfl⟩
  · rintro (⟨⟨s, r⟩, hr, hkind, rfl⟩ | ⟨d, hd, rfl⟩)
    · refine .inl ⟨s, r.errand (h.vantage p id) asked, ?_, rfl⟩
      rw [houtlined.queue_eq, Request.mem_errands]
      exact ⟨r, Machine.mem_itemsAt.2 hr, AccessKind.isWriteBack_of_isDemand hkind, rfl⟩
    · refine .inr ⟨d.outcome (h.vantage p id) asked, ?_, rfl⟩
      rw [hdone]
      exact List.mem_map_of_mem hd

theorem Shows.id_lt (h' : h.Shows p id o) {t : Ticket} (ht : t ∈ o.labels) :
    t.id < h.machine.nextId := by
  have hreach := h'.tracked.tracks.reach
  rcases h'.mem_labels.1 ht with ⟨x, hx, hdemand, rfl⟩ | ⟨d, hd, rfl⟩
  · rw [← traffic_overview] at hx
    exact hreach.orderly.id_lt hx hdemand
  · exact hreach.accounted.lt _ (List.mem_append_right _ (List.mem_map_of_mem hd))

/-- The numbers of the tickets of an outline are those of the accesses that are outstanding or
done. -/
theorem Shows.mem_accessIds (h' : h.Shows p id o) {n : Nat} :
    n ∈ h.machine.outstanding.ids ++ h.completions.map Completion.id ↔
      ∃ t ∈ o.labels, t.id = n := by
  rw [List.mem_append, ← Multiset.mem_coe, ← h'.tracked.ids, mem_demandIds, List.mem_map]
  constructor
  · rintro (⟨s, r, hr, hdemand, rfl⟩ | ⟨d, hd, rfl⟩)
    · exact ⟨r.ticket, h'.mem_labels.2 (.inl ⟨(s, r), hr, hdemand, rfl⟩), rfl⟩
    · exact ⟨d.ticket, h'.mem_labels.2 (.inr ⟨d, hd, rfl⟩), rfl⟩
  · rintro ⟨t, ht, rfl⟩
    rcases h'.mem_labels.1 ht with ⟨x, hx, hdemand, rfl⟩ | ⟨d, hd, rfl⟩
    · exact .inl ⟨x.1, x.2, hx, hdemand, rfl⟩
    · exact .inr ⟨d, hd, rfl⟩

theorem Shows.finished_eq_nil (h' : h.Shows p id o) (hqueue : o.queue .finished = []) :
    h.machine.finished = [] := by
  obtain ⟨htracked, asked, houtlined⟩ := h'
  rw [houtlined.queue_eq, List.eq_nil_iff_forall_not_mem] at hqueue
  rw [List.eq_nil_iff_forall_not_mem]
  intro r hr
  have hmem : (.finished, r) ∈ h.machine.traffic := Machine.mem_itemsAt.1 hr
  have hdemand : r.kind.isDemand = true := htracked.fits hmem
  exact hqueue _ ((Request.mem_errands _ _ _).2
    ⟨r, hr, AccessKind.isWriteBack_of_isDemand hdemand, rfl⟩)

theorem perform_tickets (command : Command) (h' : h.Shows p id o)
    (hqueue : o.queue .finished = []) :
    Yields (fun _ s => ∃ o', s.Shows p id o' ∧ o'.queue .finished = [] ∧
        ∀ t, t ∈ o'.labels ↔ t ∈ o.labels ∨ t ∈ h.tickets command) (perform command h) := by
  cases command with
  | access addr kind haddr hkind =>
    refine (access_outlined haddr hkind h').mono (fun _ s hs => ⟨_, hs, ?_, fun t => ?_⟩)
      fun _ _ => id
    · rw [Outline.queue_finished_issue, hqueue]
    · rw [Outline.labels_issue, Set.mem_insert_iff, tickets, List.mem_singleton, or_comm]
      rfl
  | cycle =>
    refine (runCycle_outlined h').mono (fun _ s hs => ⟨_, hs, ?_, fun t => ?_⟩) fun _ _ => id
    · exact Outline.queue_finished_runCycle p o
    · rw [Outline.labels_runCycle]
      simp [tickets]

end Hierarchy

namespace Session

variable {p : Plan} {s : Session}

/-- What holds between two calls: the hierarchy with all completions has an outline whose labels
are the tickets that were issued. -/
structure Kept (p : Plan) (s : Session) : Prop where
  shows : ∃ o : Outline Ticket, (s.hierarchy.behind s.collected).Shows p id o ∧
    o.queue .finished = [] ∧ ∀ t, t ∈ o.labels ↔ t ∈ s.issued
  nodup : (s.issued.map Ticket.id).Nodup
  counted : (s.hierarchy.behind s.collected).Counted

theorem Kept.custody (h : s.Kept p) : s.Custody := by
  obtain ⟨⟨o, hshows, hqueue, hlabels⟩, hnodup, hcounted⟩ := h
  refine ⟨hnodup, ?_, hshows.tracked.ids, hshows.finished_eq_nil hqueue, fun d hd => ?_, hcounted⟩
  · refine (List.perm_ext_iff_of_nodup hnodup hshows.tracked.tracks.reach.accounted.nodup).2 ?_
    intro n
    refine Iff.trans ?_ hshows.mem_accessIds.symm
    simp only [List.mem_map, hlabels]
  · exact (hlabels _).1 (hshows.mem_labels.2 (.inr ⟨d, hd, rfl⟩))

/-- A command gives out numbers that were not given out before. -/
theorem nodup_tickets {h : Hierarchy} (command : Command) {issued : List Ticket}
    (hnodup : (issued.map Ticket.id).Nodup) (hlt : ∀ t ∈ issued, t.id < h.machine.nextId) :
    ((issued ++ h.tickets command).map Ticket.id).Nodup := by
  cases command with
  | access addr kind =>
    rw [Hierarchy.tickets, List.map_append, List.nodup_append]
    refine ⟨hnodup, List.nodup_singleton _, ?_⟩
    intro n hn n' hn'
    obtain ⟨t, ht, rfl⟩ := List.mem_map.1 hn
    rw [List.mem_singleton.1 hn']
    exact Nat.ne_of_lt (hlt t ht)
  | cycle => simpa [Hierarchy.tickets] using hnodup

theorem call_of_perform_ok {command : Command} {hierarchy : Hierarchy}
    (hperform : Hierarchy.perform command s.hierarchy = .ok ⟨⟩ hierarchy) :
    call (.command command) s =
      .ok () { s with hierarchy, issued := s.issued ++ s.hierarchy.tickets command } := by
  simp only [call, hperform]

theorem call_of_perform_error {command : Command} {fault : Fault} {hierarchy : Hierarchy}
    (hperform : Hierarchy.perform command s.hierarchy = .error fault hierarchy) :
    call (.command command) s = .error fault { s with hierarchy } := by
  simp only [call, hperform]

/-- Every call keeps what holds between calls. -/
theorem call_ends (next : Call) (h : s.Kept p) :
    Ends (fun _ s => s.Kept p) (fun fault s => Hierarchy.Fails p fault s.hierarchy)
      (call next s) := by
  obtain ⟨⟨o, hshows, hqueue, hlabels⟩, hnodup, hcounted⟩ := h
  cases next with
  | command command =>
    have hends := ((Hierarchy.perform_ends command hshows.tracked).and
      (Hierarchy.perform_tickets command hshows hqueue)).and
      (Hierarchy.perform_counted command hcounted)
    rw [Hierarchy.perform_framed command s.collected s.hierarchy, Hierarchy.ends_carry] at hends
    cases hperform : Hierarchy.perform command s.hierarchy with
    | ok a h =>
      rw [call_of_perform_ok hperform]
      rw [hperform] at hends
      obtain ⟨⟨-, o', hshows', hqueue', hlabels'⟩, hcounted'⟩ := hends
      have hissued : ∀ t, t ∈ o'.labels ↔ t ∈ s.issued ++ s.hierarchy.tickets command := by
        intro t
        rw [hlabels', hlabels, List.mem_append]
        exact Iff.rfl
      exact ⟨⟨o', hshows', hqueue', hissued⟩,
        nodup_tickets command hnodup fun t ht => hshows.id_lt ((hlabels t).2 ht), hcounted'⟩
    | error fault h =>
      rw [call_of_perform_error hperform]
      rw [hperform] at hends
      exact hends
  | collect =>
    apply Ends.of_modify
    cases hcompletions : s.hierarchy.completions with
    | nil =>
      simp only [Hierarchy.popCompletion?, hcompletions]
      exact ⟨⟨o, hshows, hqueue, hlabels⟩, hnodup, hcounted⟩
    | cons d rest =>
      have hbehind : Hierarchy.behind (s.collected ++ [d])
          { s.hierarchy with completions := rest } = s.hierarchy.behind s.collected := by
        simp [Hierarchy.behind, hcompletions]
      simp only [Hierarchy.popCompletion?, hcompletions]
      rw [← hbehind] at hshows hcounted
      exact ⟨⟨o, hshows, hqueue, hlabels⟩, hnodup, hcounted⟩

theorem exists_start {c : HierarchyConfig} (hvalid : c.validate = .ok ()) (hsized : c.Sized) :
    ∃ start, Hierarchy.ofConfig c = .ok start ∧ start.plan.topology = c.topology ∧
      Kept start.plan { hierarchy := start } ∧
      ∀ i level, c.levels[i]? = some level →
        (start.plan.geometry i).lineSize = level.2.lineSize := by
  obtain ⟨start, o, hstart, ht, hshows, hfresh, hlines⟩ :=
    Hierarchy.exists_outlined_start hvalid hsized id
  obtain ⟨hcompletions, hcompleted⟩ := Hierarchy.completions_ofConfig hstart
  refine ⟨start, hstart, ht, ⟨⟨o, ?_, hfresh.queue _, fun t => ?_⟩, List.nodup_nil, ?_⟩, hlines⟩
  · exact hshows
  · simp [Outline.labels, hfresh.queue, hfresh.done]
  · simp [Hierarchy.Counted, Hierarchy.behind, hcompletions, hcompleted]

/-- In a session of a well-formed configuration every access is in one place, whatever the core
does. -/
theorem run_keeps_custody {c : HierarchyConfig} (hvalid : c.validate = .ok ()) (hsized : c.Sized)
    (calls : List Call) :
    ∃ start, Hierarchy.ofConfig c = .ok start ∧
      Ends (fun _ s => s.Custody)
        (fun fault s => fault = .sumOverflow ∧ s.hierarchy.Exhausted ∨
          ¬c.Aligned ∧ ∃ array addr, fault = .writeBackMissed array addr)
        (run calls { hierarchy := start }) := by
  obtain ⟨start, hstart, ht, hkept, hlines⟩ := exists_start hvalid hsized
  have hends : Ends (fun _ s => s.Kept start.plan)
      (fun fault s => Hierarchy.Fails start.plan fault s.hierarchy)
      (run calls { hierarchy := start }) :=
    Ends.forM (I := fun _ => Kept start.plan) (fun next _ _ => call_ends next) hkept
  exact ⟨start, hstart, hends.mono (fun _ _ hs => hs.custody) fun _ _ hfails =>
    hfails.safe ht hlines⟩

theorem run_keeps_custody_narrow :
    HierarchyConfig.narrow.validate = .ok () ∧ HierarchyConfig.narrow.Sized ∧
      ∃ start, Hierarchy.ofConfig .narrow = .ok start ∧
        Ends (fun _ s => s.Custody)
          (fun fault s => fault = .sumOverflow ∧ s.hierarchy.Exhausted ∨
            ¬HierarchyConfig.narrow.Aligned ∧ ∃ array addr, fault = .writeBackMissed array addr)
          (run (Command.mixed.map .command ++ [.collect]) { hierarchy := start }) :=
  ⟨rfl, by decide, run_keeps_custody rfl (by decide) _⟩

end Session

end CacheHierarchy
