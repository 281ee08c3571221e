import CacheHierarchy.Proofs.Agreement
import CacheHierarchy.Proofs.Termination

/-!
# Summaries of simulations

A simulation is a session that issues an access in each cycle, collects all completions of a cycle
at its end and keeps count of both. It ends where the hierarchy is idle: a simulation that takes too
long stops at its limit of cycles instead. So what the counters of an idle hierarchy say of all
accesses, a summary says of those that the simulation has counted.
-/

namespace CacheHierarchy

section Steps

variable {ε σ α β γ : Type} {s s' : σ}

theorem get_bind_eq (f : σ → EStateM ε σ α) : (get >>= f) s = f s s := rfl

theorem modify_bind_eq (g : σ → σ) (f : PUnit → EStateM ε σ α) :
    (modify g >>= f) s = f ⟨⟩ (g s) := rfl

/-- A step in two parts succeeds if both parts do. -/
theorem exists_of_bind_eq_ok {x : EStateM ε σ α} {f : α → EStateM ε σ β} {b : β}
    (h : (x >>= f) s = .ok b s') : ∃ a t, x s = .ok a t ∧ f a t = .ok b s' := by
  change EStateM.bind x f s = _ at h
  unfold EStateM.bind at h
  cases hx : x s with
  | ok a t =>
    rw [hx] at h
    exact ⟨a, t, rfl, h⟩
  | error e t =>
    rw [hx] at h
    cases h

/-- A loop that succeeds keeps an invariant that speaks of the elements that are still to come. -/
theorem of_forM_eq_ok {I : List γ → σ → Prop} {f : γ → EStateM ε σ PUnit}
    (hstep : ∀ a rest s s', I (a :: rest) s → f a s = .ok ⟨⟩ s' → I rest s') :
    ∀ {l : List γ} {s s' : σ}, I l s → l.forM f s = .ok ⟨⟩ s' → I [] s'
  | [], _, _, h, hrun => by
    cases hrun
    exact h
  | a :: rest, s, s', h, hrun => by
    obtain ⟨⟨⟩, t, ha, hrest⟩ := exists_of_bind_eq_ok (x := f a) (f := fun _ => rest.forM f) hrun
    exact of_forM_eq_ok hstep (hstep a rest s t h ha) hrest

end Steps

namespace Hierarchy

variable {h : Hierarchy}

theorem retireReady_clock (n : Nat) : Yields (fun _ s => s.cycle = h.cycle) (retireReady n h) := by
  induction n generalizing h with
  | zero => rfl
  | succ n ih =>
    apply Ends.get_bind
    cases h.machine.finished with
    | nil => rfl
    | cons r finished =>
      refine Ends.seq (onMachine_yields _) ?_
      rintro - s ⟨machine, rfl⟩
      refine Ends.seq (P := fun _ s => s.cycle = h.cycle) ?_ fun _ s hs => ?_
      · refine Ends.get_bind ?_
        cases machine.outstanding.remove? r.id with
        | none => trivial
        | some removed =>
          refine Ends.seq (onMachine_yields _) ?_
          rintro - s ⟨machine, rfl⟩
          exact Ends.bind (Yields.attempt_add (Ends.of_modify rfl))
      · rw [← hs]
        exact ih

theorem runCycle_clock : Yields (fun _ s => s.cycle = h.cycle + 1) (runCycle h) := by
  refine Ends.seq (onMachine_yields _) ?_
  rintro - s ⟨machine, rfl⟩
  refine Ends.seq (Ends.get_bind (retireReady_clock _)) fun _ s hs => ?_
  refine Ends.get_bind (Ends.bind (Yields.attempt_add ?_))
  exact congrArg (· + 1) hs

end Hierarchy

theorem Session.Kept.perform {p : Plan} {s : Session} (h : s.Kept p) {command : Command}
    {hierarchy : Hierarchy} (hperform : Hierarchy.perform command s.hierarchy = .ok ⟨⟩ hierarchy) :
    Kept p { s with hierarchy, issued := s.issued ++ s.hierarchy.tickets command } := by
  have hends := call_ends (.command command) h
  rw [call_of_perform_ok hperform] at hends
  exact hends

theorem Session.Kept.collect {p : Plan} {s : Session} (h : s.Kept p) :
    Kept p { s with
      hierarchy := { s.hierarchy with completions := [] }
      collected := s.collected ++ s.hierarchy.completions } := by
  refine ⟨?_, h.nodup, ?_⟩
  · rw [Hierarchy.behind_collect]
    exact h.shows
  · rw [Hierarchy.behind_collect]
    exact h.counted

namespace Simulation

variable {p : Plan} {s s' : Simulation} {issued : List Ticket} {collected rest : List Completion}

theorem onHierarchy_eq_ok {α : Type} {step : Hierarchy.Step α} {a : α}
    (h : onHierarchy step s = .ok a s') :
    ∃ hierarchy, step s.hierarchy = .ok a hierarchy ∧ s' = { s with hierarchy } := by
  unfold onHierarchy at h
  cases hstep : step s.hierarchy with
  | ok a hierarchy =>
    rw [hstep] at h
    cases h
    exact ⟨hierarchy, rfl, rfl⟩
  | error fault hierarchy =>
    rw [hstep] at h
    cases h

theorem sum_eq_ok {a b c : Nat} (h : sum a b s = .ok c s') : c = a + b ∧ s' = s := by
  obtain ⟨hierarchy, hsum, rfl⟩ := onHierarchy_eq_ok h
  unfold attempt at hsum
  cases hadd : Word.add a b with
  | ok d =>
    rw [hadd] at hsum
    cases hsum
    exact ⟨(Word.add_eq_ok_iff.1 hadd).2, rfl⟩
  | error fault =>
    rw [hadd] at hsum
    cases hsum

/-- A simulation has counted what a session has seen, but for some completions that are still to be
counted. -/
structure Reckons (p : Plan) (issued : List Ticket) (collected rest : List Completion)
    (s : Simulation) : Prop where
  kept : Session.Kept p { hierarchy := s.hierarchy, issued, collected }
  empty : s.hierarchy.completions = []
  issued : s.issued = issued.length
  completed : s.completed + rest.length = collected.length
  misses : s.misses + rest.countP Completion.miss = collected.countP Completion.miss

theorem tally_eq_ok {d : Completion} (h : s.Reckons p issued collected (d :: rest))
    (htally : tally d s = .ok ⟨⟩ s') : s'.Reckons p issued collected rest ∧ s.Counts s' := by
  obtain ⟨hkept, hempty, hissued, hcompleted, hmisses⟩ := h
  rw [List.length_cons] at hcompleted
  rw [List.countP_cons] at hmisses
  rw [tally, get_bind_eq] at htally
  obtain ⟨completed, s, hsum, htally⟩ := exists_of_bind_eq_ok htally
  obtain ⟨rfl, rfl⟩ := sum_eq_ok hsum
  obtain ⟨latency, s, hsum, htally⟩ := exists_of_bind_eq_ok htally
  obtain ⟨rfl, rfl⟩ := sum_eq_ok hsum
  have hrest : ∀ n misses, n = s.completed + 1 →
      misses + rest.countP Completion.miss = collected.countP Completion.miss →
      Reckons p issued collected rest { s with
        completed := n, totalLatency := s.totalLatency + d.latency, misses } :=
    fun n misses hn hmisses => ⟨hkept, hempty, hissued, by dsimp only; omega, hmisses⟩
  dsimp only at htally
  cases hd : d.miss with
  | true =>
    rw [hd, if_pos rfl] at htally
    obtain ⟨misses, s, hsum, htally⟩ := exists_of_bind_eq_ok htally
    obtain ⟨rfl, rfl⟩ := sum_eq_ok hsum
    cases htally
    rw [hd, if_pos rfl] at hmisses
    exact ⟨hrest _ _ rfl (by omega), rfl, rfl, rfl⟩
  | false =>
    rw [hd, if_neg Bool.false_ne_true] at htally
    cases htally
    rw [hd, if_neg Bool.false_ne_true] at hmisses
    exact ⟨hrest _ _ rfl hmisses, rfl, rfl, rfl⟩

theorem tallies_eq_ok {done : List Completion} (h : s.Reckons p issued collected done)
    (htallies : done.forM tally s = .ok ⟨⟩ s') :
    s'.Reckons p issued collected [] ∧ s.Counts s' := by
  refine of_forM_eq_ok (I := fun rest s' => s'.Reckons p issued collected rest ∧ s.Counts s') ?_
    ⟨h, rfl, rfl, rfl⟩ htallies
  rintro d rest t t' ⟨ht, hsame⟩ htally
  obtain ⟨ht', hsame'⟩ := tally_eq_ok ht htally
  exact ⟨ht', hsame'.hierarchy.trans hsame.hierarchy, hsame'.issued.trans hsame.issued,
    hsame'.timeout.trans hsame.timeout⟩

theorem tick_eq_ok (h : s.Reckons p issued collected []) (htick : tick s = .ok ⟨⟩ s') :
    (∃ collected, s'.Reckons p issued collected []) ∧ s.hierarchy.cycle < s.timeout ∧
      s'.hierarchy.cycle = s.hierarchy.cycle + 1 ∧ s'.timeout = s.timeout := by
  rw [tick, get_bind_eq] at htick
  dsimp only at htick
  by_cases hlimit : s.timeout ≤ s.hierarchy.cycle
  · rw [if_pos hlimit] at htick
    cases htick
  rw [if_neg hlimit] at htick
  obtain ⟨⟨⟩, s₁, hcycle, htick⟩ := exists_of_bind_eq_ok htick
  obtain ⟨hierarchy, hrun, rfl⟩ := onHierarchy_eq_ok hcycle
  rw [get_bind_eq, modify_bind_eq] at htick
  have hperform : Hierarchy.perform .cycle s.hierarchy = .ok ⟨⟩ hierarchy := hrun
  have hkept := (h.kept.perform hperform).collect
  rw [Hierarchy.tickets, List.append_nil] at hkept
  have hclock := Hierarchy.runCycle_clock (h := s.hierarchy)
  rw [hrun] at hclock
  have hcompleted := h.completed
  have hmisses := h.misses
  rw [List.length_nil, Nat.add_zero] at hcompleted
  rw [List.countP_nil, Nat.add_zero] at hmisses
  have hreckons : Reckons p issued (collected ++ hierarchy.completions) hierarchy.completions
      { s with hierarchy := { hierarchy with completions := [] } } :=
    ⟨hkept, rfl, h.issued, by simp [hcompleted], by simp [hmisses]⟩
  obtain ⟨hs', hsame⟩ := tallies_eq_ok hreckons htick
  refine ⟨⟨_, hs'⟩, Nat.lt_of_not_le hlimit, ?_, hsame.timeout⟩
  rw [hsame.hierarchy]
  exact hclock

theorem issue_eq_ok {r : TraceRecord} (haddr : r.addr < wordLimit)
    (h : s.Reckons p issued collected []) (hissue : issue r s = .ok ⟨⟩ s') :
    ∃ issued collected, s'.Reckons p issued collected [] := by
  obtain ⟨⟨⟩, s₁, hentry, hissue⟩ := exists_of_bind_eq_ok hissue
  obtain ⟨hierarchy, haccess, rfl⟩ := onHierarchy_eq_ok hentry
  rw [get_bind_eq] at hissue
  obtain ⟨n, s₁, hsum, hissue⟩ := exists_of_bind_eq_ok hissue
  obtain ⟨rfl, rfl⟩ := sum_eq_ok hsum
  rw [modify_bind_eq] at hissue
  by_cases hkind : r.kind.isDemand = true
  · have hperform : Hierarchy.perform (.access r.addr r.kind haddr hkind) s.hierarchy =
        .ok ⟨⟩ hierarchy := haccess
    have hkept := h.kept.perform hperform
    have hyields : Yields (fun _ t => ∃ machine, t = { s.hierarchy with machine })
        (Hierarchy.access r.addr r.kind s.hierarchy) := Hierarchy.access_yields hkind
    rw [haccess] at hyields
    obtain ⟨machine, rfl⟩ := hyields
    have hreckons : Reckons p (issued ++ [s.hierarchy.ticket r.addr r.kind]) collected []
        { s with hierarchy := { s.hierarchy with machine }, issued := s.issued + 1 } :=
      ⟨hkept, h.empty, by simp [h.issued], h.completed, h.misses⟩
    exact ⟨_, (tick_eq_ok hreckons hissue).1⟩
  · rw [Hierarchy.access, if_neg hkind] at haccess
    cases haccess

theorem drain_eq_ok {n : Nat} (hn : s.timeout - s.hierarchy.cycle < n)
    (h : s.Reckons p issued collected []) (hdrain : drain n s = .ok ⟨⟩ s') :
    (∃ collected, s'.Reckons p issued collected []) ∧ s'.hierarchy.isIdle = true := by
  induction n generalizing s collected with
  | zero => exact absurd hn (Nat.not_lt_zero _)
  | succ n ih =>
    by_cases hidle : s.hierarchy.isIdle = true
    · rw [drain_of_isIdle hidle] at hdrain
      cases hdrain
      exact ⟨⟨_, h⟩, hidle⟩
    · rw [drain, get_bind_eq, if_neg hidle] at hdrain
      obtain ⟨⟨⟩, s₁, htick, hdrain⟩ := exists_of_bind_eq_ok hdrain
      obtain ⟨⟨_, h₁⟩, hlt, hcycle, htimeout⟩ := tick_eq_ok h htick
      exact ih (by omega) h₁ hdrain

/-- What a simulation has counted agrees with the counters of an idle hierarchy. -/
theorem Reckons.agrees (h : s.Reckons p issued collected []) (hidle : s.hierarchy.isIdle = true) :
    s.misses = s.hierarchy.statistics.topLevel.misses ∧ s.issued = s.completed := by
  obtain ⟨o, hshows, -⟩ := h.kept.shows
  have hlength := h.kept.length_issued hidle
  have hmisses := hshows.tracked.misses_topLevel (h := s.hierarchy.behind collected) hidle
  have hcounted := h.misses
  have hcompleted := h.completed
  simp only [Hierarchy.behind, h.empty, List.append_nil] at hmisses
  simp only [Session.completions, h.empty, List.append_nil] at hlength
  rw [List.countP_nil, Nat.add_zero] at hcounted
  rw [List.length_nil, Nat.add_zero] at hcompleted
  exact ⟨hcounted.trans hmisses.symm, h.issued.trans (hlength.trans hcompleted.symm)⟩

theorem settle_eq_ok (h : s.Reckons p issued collected []) (hsettle : settle s = .ok ⟨⟩ s') :
    s'.misses = s'.hierarchy.statistics.topLevel.misses ∧ s'.issued = s'.completed := by
  rw [settle, get_bind_eq] at hsettle
  obtain ⟨⟨⟩, s₁, hdrain, hsettle⟩ := exists_of_bind_eq_ok hsettle
  obtain ⟨⟨collected, h₁⟩, hidle⟩ := drain_eq_ok (Nat.lt_succ_self _) h hdrain
  rw [get_bind_eq] at hsettle
  obtain ⟨hierarchy, hrecord, rfl⟩ := onHierarchy_eq_ok hsettle
  cases hrecord
  exact h₁.agrees hidle

theorem issues_eq_ok {records : List TraceRecord} (haddr : ∀ r ∈ records, r.addr < wordLimit)
    (h : s.Reckons p issued collected []) (hissues : records.forM issue s = .ok ⟨⟩ s') :
    ∃ issued collected, s'.Reckons p issued collected [] := by
  let I (rest : List TraceRecord) (s : Simulation) : Prop :=
    (∀ r ∈ rest, r.addr < wordLimit) ∧ ∃ issued collected, s.Reckons p issued collected []
  refine (of_forM_eq_ok (I := I) ?_ ⟨haddr, _, _, h⟩ hissues).2
  rintro r rest s s' ⟨hrest, _, _, hs⟩ hissue
  exact ⟨fun r' hr' => hrest r' (List.mem_cons_of_mem _ hr'),
    issue_eq_ok (hrest r List.mem_cons_self) hs hissue⟩

theorem simulate_eq_ok {records : List TraceRecord} (haddr : ∀ r ∈ records, r.addr < wordLimit)
    (h : s.Reckons p issued collected []) (hsimulate : simulate records s = .ok ⟨⟩ s') :
    s'.misses = s'.hierarchy.statistics.topLevel.misses ∧ s'.issued = s'.completed := by
  obtain ⟨⟨⟩, s₁, hissues, hsettle⟩ := exists_of_bind_eq_ok hsimulate
  obtain ⟨_, _, h₁⟩ := issues_eq_ok haddr h hissues
  exact settle_eq_ok h₁ hsettle

end Simulation

/-- Whatever the core does with a hierarchy of a well-formed configuration, the counters of all
levels agree whenever the hierarchy is idle. So they do in the summary of a simulation that
succeeds. -/
theorem counters_agree_at_idle {c : HierarchyConfig} (hvalid : c.validate = .ok ())
    (hsized : c.Sized) (calls : List Call) (timeout : Nat) {records : List TraceRecord}
    (haddr : ∀ r ∈ records, r.addr < wordLimit) :
    ∃ start simulation, Hierarchy.ofConfig c = .ok start ∧
      Simulation.ofConfig c timeout = .ok simulation ∧
      Ends (fun _ s => s.hierarchy.isIdle = true → s.hierarchy.topology = c.topology ∧ s.Agrees)
        (fun fault s => fault = .sumOverflow ∧ s.hierarchy.Exhausted ∨
          ¬c.Aligned ∧ ∃ array addr, fault = .writeBackMissed array addr)
        (Session.run calls { hierarchy := start }) ∧
      ∀ s, Simulation.simulate records simulation = .ok () s →
        s.summary.misses = s.summary.hierarchy.topLevel.misses ∧
          s.summary.issued = s.summary.completed := by
  obtain ⟨start, hstart, ht, hkept, hlines⟩ := Session.exists_start hvalid hsized
  obtain ⟨hempty, -⟩ := Hierarchy.completions_ofConfig hstart
  have hbuilt : Simulation.ofConfig c timeout = .ok { hierarchy := start, timeout } := by
    rw [Simulation.ofConfig, hstart]
    rfl
  have hreckons : Simulation.Reckons start.plan [] [] [] { hierarchy := start, timeout } :=
    ⟨hkept, hempty, rfl, rfl, rfl⟩
  have hends : Ends (fun _ s => s.Kept start.plan)
      (fun fault s => Hierarchy.Fails start.plan fault s.hierarchy)
      (Session.run calls { hierarchy := start }) :=
    Ends.forM (I := fun _ => Session.Kept start.plan) (fun next _ _ => Session.call_ends next) hkept
  refine ⟨start, _, hstart, hbuilt, hends.mono (fun _ s hs hidle => ?_) fun _ _ hfails =>
    hfails.safe ht hlines, fun s hs => Simulation.simulate_eq_ok haddr hreckons hs⟩
  obtain ⟨o, hshows, -⟩ := hs.shows
  exact ⟨hshows.tracked.topology.trans ht, hs.agrees hidle⟩

theorem counters_agree_at_idle_narrow :
    HierarchyConfig.narrow.validate = .ok () ∧ HierarchyConfig.narrow.Sized ∧
      (∀ r ∈ [⟨.write, 0⟩, ⟨.read, 4⟩, ⟨.instFetch, 64⟩], TraceRecord.addr r < wordLimit) ∧
      ∃ start simulation, Hierarchy.ofConfig .narrow = .ok start ∧
        Simulation.ofConfig .narrow 100 = .ok simulation ∧
        Ends (fun _ s => s.hierarchy.isIdle = true →
            s.hierarchy.topology = .splitL1 ∧ s.Agrees)
          (fun fault s => fault = .sumOverflow ∧ s.hierarchy.Exhausted ∨
            ¬HierarchyConfig.narrow.Aligned ∧ ∃ array addr, fault = .writeBackMissed array addr)
          (Session.run (.command (.access 0 .write (by decide) rfl) ::
            .command (.access 0 .instFetch (by decide) rfl) ::
            List.replicate 24 (.command .cycle) ++ [.collect]) { hierarchy := start }) ∧
        ∀ s, Simulation.simulate [⟨.write, 0⟩, ⟨.read, 4⟩, ⟨.instFetch, 64⟩] simulation = .ok () s →
          s.summary.misses = s.summary.hierarchy.topLevel.misses ∧
            s.summary.issued = s.summary.completed :=
  ⟨rfl, by decide, by decide, counters_agree_at_idle rfl (by decide) _ 100 (by decide)⟩

end CacheHierarchy
