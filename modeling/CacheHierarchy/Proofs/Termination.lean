import CacheHierarchy.Proofs.Pace.Schedules
import CacheHierarchy.Simulation.Summary

/-!
# Termination of simulations

A simulation issues one access per cycle, so the hierarchy keeps to the timetable of its latencies,
and it is idle when the last access and the last write-back are due. If the limit of cycles leaves
time for that, and the numbers are words, a simulation succeeds.
-/

namespace CacheHierarchy

def Succeeds {ε σ α : Type} (Q : α → σ → Prop) : EStateM.Result ε σ α → Prop
  | .ok a s => Q a s
  | .error _ _ => False

namespace Succeeds

variable {ε σ α β : Type} {Q Q' : α → σ → Prop} {s : σ}

theorem mono {result : EStateM.Result ε σ α} (h : Succeeds Q result)
    (hQ : ∀ a s, Q a s → Q' a s) : Succeeds Q' result := by
  cases result with
  | ok a s => exact hQ a s h
  | error e s => exact h

theorem bind {x : EStateM ε σ β} {f : β → EStateM ε σ α}
    (h : Succeeds (fun b s => Succeeds Q (f b s)) (x s)) : Succeeds Q ((x >>= f) s) := by
  change Succeeds Q (EStateM.bind x f s)
  unfold EStateM.bind
  cases hx : x s with
  | ok b s =>
    rw [hx] at h
    exact h
  | error e s =>
    rw [hx] at h
    exact h

/-- One step succeeds with `P`, and from every state with `P` the rest succeeds. -/
theorem seq {P : β → σ → Prop} {x : EStateM ε σ β} {f : β → EStateM ε σ α}
    (hx : Succeeds P (x s)) (hf : ∀ b s, P b s → Succeeds Q (f b s)) :
    Succeeds Q ((x >>= f) s) :=
  bind (hx.mono hf)

theorem get_bind {f : σ → EStateM ε σ α} (h : Succeeds Q (f s s)) :
    Succeeds Q ((get >>= f) s) := h

theorem forM {γ : Type} {I : List γ → σ → Prop} {f : γ → EStateM ε σ PUnit}
    (hstep : ∀ a rest s, I (a :: rest) s → Succeeds (fun _ => I rest) (f a s)) :
    ∀ {l : List γ} {s : σ}, I l s → Succeeds (fun _ => I []) (l.forM f s)
  | [], _, h => h
  | a :: rest, s, h => by
    change Succeeds (fun _ => I []) ((f a >>= fun _ => rest.forM f) s)
    exact seq (hstep a rest s h) fun _ _ h' => forM hstep h'

theorem exists_ok {result : EStateM.Result ε σ α} (h : Succeeds Q result) :
    ∃ a s, result = .ok a s ∧ Q a s := by
  cases result with
  | ok a s => exact ⟨a, s, rfl, h⟩
  | error e s => exact h.elim

end Succeeds

namespace Hierarchy

theorem behind_collect (collected : List Completion) (h : Hierarchy) :
    behind (collected ++ h.completions) { h with completions := [] } = h.behind collected := by
  simp [behind]

end Hierarchy

namespace Simulation

variable {p : Plan} {t : Timetable} {s : Simulation}

theorem onHierarchy_succeeds {α : Type} {Q : α → Simulation → Prop} {step : Hierarchy.Step α}
    (h : Ends (fun a hierarchy => Q a { s with hierarchy }) (fun _ _ => False)
      (step s.hierarchy)) : Succeeds Q (onHierarchy step s) := by
  unfold onHierarchy
  cases hstep : step s.hierarchy with
  | ok a hierarchy =>
    rw [hstep] at h
    exact h
  | error fault hierarchy =>
    rw [hstep] at h
    exact h.elim

theorem sum_succeeds {a b : Nat} {Q : Nat → Simulation → Prop} (hlt : a + b < wordLimit)
    (hQ : Q (a + b) s) : Succeeds Q (sum a b s) :=
  onHierarchy_succeeds (Ends.attempt_ok (Word.add_eq_ok_iff.2 ⟨hlt, rfl⟩) hQ)

/-- A simulation counts what its hierarchy has completed, but for some completions that are still
to be counted. -/
structure Tallies (t : Timetable) (rest : List Completion) (s : Simulation) : Prop where
  completed : s.completed + rest.length = s.hierarchy.completed
  misses : s.misses ≤ s.completed
  totalLatency : s.totalLatency ≤ s.completed * t.travel .finished
  prompt : ∀ d ∈ rest, d.latency ≤ t.travel .finished

structure OnTime (p : Plan) (t : Timetable) (s : Simulation) : Prop where
  steady : ∃ collected, (s.hierarchy.behind collected).Steady p t s.issued
  collected : s.hierarchy.completions = []
  tallies : s.Tallies t []

/-- A simulation is where it was, but it has counted completions. -/
structure Counts (s s' : Simulation) : Prop where
  hierarchy : s'.hierarchy = s.hierarchy
  issued : s'.issued = s.issued
  timeout : s'.timeout = s.timeout

theorem tally_succeeds {d : Completion} {rest : List Completion}
    (hcount : s.hierarchy.completed < wordLimit)
    (hlatency : s.hierarchy.completed * t.travel .finished < wordLimit)
    (h : s.Tallies t (d :: rest)) :
    Succeeds (fun _ s' => s'.Tallies t rest ∧ s.Counts s') (tally d s) := by
  obtain ⟨hcompleted, hmisses, htotal, hprompt⟩ := h
  rw [List.length_cons] at hcompleted
  have hd := hprompt d List.mem_cons_self
  have htotal' : s.totalLatency + d.latency ≤ (s.completed + 1) * t.travel .finished := by
    rw [Nat.add_mul, Nat.one_mul]
    exact Nat.add_le_add htotal hd
  have hle : (s.completed + 1) * t.travel .finished ≤
      s.hierarchy.completed * t.travel .finished := Nat.mul_le_mul_right _ (by omega)
  have hcounted : ∀ misses, misses ≤ s.completed + 1 →
      Tallies t rest { s with
        completed := s.completed + 1, totalLatency := s.totalLatency + d.latency, misses } :=
    fun misses hle => ⟨(Nat.succ_add_eq_add_succ _ _).trans hcompleted, hle, htotal',
      fun d' hd' => hprompt d' (List.mem_cons_of_mem _ hd')⟩
  refine Succeeds.get_bind (Succeeds.bind (sum_succeeds (by omega) ?_))
  refine Succeeds.bind (sum_succeeds (by omega) ?_)
  cases d.miss with
  | true =>
    refine Succeeds.bind (sum_succeeds (by omega) ?_)
    exact ⟨hcounted _ (Nat.succ_le_succ hmisses), rfl, rfl, rfl⟩
  | false => exact ⟨hcounted _ (hmisses.trans (Nat.le_succ _)), rfl, rfl, rfl⟩

theorem tallies_succeed {done : List Completion} (hcount : s.hierarchy.completed < wordLimit)
    (hlatency : s.hierarchy.completed * t.travel .finished < wordLimit) (h : s.Tallies t done) :
    Succeeds (fun _ s' => s'.Tallies t [] ∧ s.Counts s') (done.forM tally s) := by
  refine Succeeds.forM (I := fun rest s' => s'.Tallies t rest ∧ s.Counts s') ?_
    ⟨h, rfl, rfl, rfl⟩
  rintro d rest s' ⟨h', hsame⟩
  refine (tally_succeeds (hsame.hierarchy ▸ hcount) (hsame.hierarchy ▸ hlatency) h').mono ?_
  rintro - s'' ⟨h'', hsame'⟩
  exact ⟨h'', hsame'.hierarchy.trans hsame.hierarchy, hsame'.issued.trans hsame.issued,
    hsame'.timeout.trans hsame.timeout⟩

section Cycles

variable (hp : ∀ b, p.topology.base? = some b → p.Aligned b)
  (ht : t.Sound)

include hp ht

theorem tick_succeeds (hfits : t.Fits s.hierarchy.cycle s.issued)
    (hlatency : s.issued * t.travel .finished < wordLimit)
    (htimeout : s.hierarchy.cycle < s.timeout) (h : s.OnTime p t) :
    Succeeds (fun _ s' => s'.OnTime p t ∧ s'.hierarchy.machine.finished = [] ∧
        s'.hierarchy.cycle = s.hierarchy.cycle + 1 ∧ s'.issued = s.issued ∧
        s'.timeout = s.timeout) (tick s) := by
  obtain ⟨⟨collected, hsteady⟩, hcollected, htallies⟩ := h
  have hends := Hierarchy.Steady.runCycle (h := s.hierarchy.behind collected) hp ht hfits hsteady
  rw [Hierarchy.runCycle_framed, Hierarchy.ends_carry] at hends
  refine Succeeds.get_bind ?_
  dsimp only
  rw [if_neg (Nat.not_le.2 htimeout)]
  refine Succeeds.bind (onHierarchy_succeeds (hends.mono ?_ fun _ _ => id))
  rintro - h ⟨hsteady', hfinished, hcycle⟩
  have hbefore : s.hierarchy.completed = (collected ++ s.hierarchy.completions).length :=
    hsteady.counted
  have hafter : h.completed = (collected ++ h.completions).length := hsteady'.counted
  have hcompleted := htallies.completed
  rw [List.length_nil] at hcompleted
  rw [hcollected, List.length_append, List.length_nil] at hbefore
  rw [List.length_append] at hafter
  have htallies' : Tallies t h.completions
      { s with hierarchy := { h with completions := [] } } := by
    refine ⟨?_, htallies.misses, htallies.totalLatency, fun d hd =>
      hsteady'.paced.prompt d (List.mem_append_right _ hd)⟩
    change s.completed + h.completions.length = h.completed
    omega
  have hissued : h.completed ≤ s.issued := hsteady'.paced.accesses ▸ Nat.le_add_left _ _
  have hcount := hfits.accesses
  refine Succeeds.get_bind (Succeeds.bind ?_)
  refine (tallies_succeed (by change h.completed < _; omega)
    ((Nat.mul_le_mul_right _ hissued).trans_lt hlatency) htallies').mono ?_
  rintro - s' ⟨hdone, hsame⟩
  refine ⟨⟨⟨collected ++ h.completions, ?_⟩, ?_, hdone⟩, ?_, ?_, hsame.issued, hsame.timeout⟩
  · rw [hsame.hierarchy, hsame.issued, Hierarchy.behind_collect]
    exact hsteady'
  · rw [hsame.hierarchy]
  · rw [hsame.hierarchy]
    exact hfinished
  · rw [hsame.hierarchy]
    exact hcycle

theorem issue_succeeds {r : TraceRecord} (haddr : r.addr < wordLimit)
    (hkind : r.kind.isDemand = true) (hlast : s.hierarchy.cycle ≤ t.last)
    (hfits : t.Fits s.hierarchy.cycle (s.issued + 1))
    (hlatency : (s.issued + 1) * t.travel .finished < wordLimit)
    (htimeout : s.hierarchy.cycle < s.timeout) (h : s.OnTime p t) :
    Succeeds (fun _ s' => s'.OnTime p t ∧ s'.hierarchy.machine.finished = [] ∧
        s'.hierarchy.cycle = s.hierarchy.cycle + 1 ∧ s'.issued = s.issued + 1 ∧
        s'.timeout = s.timeout) (issue r s) := by
  obtain ⟨⟨collected, hsteady⟩, hcollected, htallies⟩ := h
  have hends := Hierarchy.Steady.access (h := s.hierarchy.behind collected) hp ht haddr hkind hfits
    hlast hsteady
  rw [Hierarchy.access_framed, Hierarchy.ends_carry] at hends
  refine Succeeds.bind (onHierarchy_succeeds ((hends.and
    (Hierarchy.access_yields hkind)).mono ?_ fun _ _ => id))
  rintro - h ⟨⟨hsteady', hcycle⟩, machine, rfl⟩
  have hcount := hfits.accesses
  refine Succeeds.get_bind (Succeeds.bind (sum_succeeds (by change s.issued + 1 < _; omega) ?_))
  have hissued : OnTime p t { s with
      hierarchy := { s.hierarchy with machine }, issued := s.issued + 1 } :=
    ⟨⟨collected, hsteady'⟩, hcollected, { htallies with }⟩
  exact tick_succeeds hp ht hfits hlatency htimeout hissued

end Cycles

end Simulation

theorem Timetable.Fits.mono {t : Timetable} {now accesses accesses' : Nat}
    (h : t.Fits now accesses) (hle : accesses' ≤ accesses) : t.Fits now accesses' :=
  ⟨h.clocks, by have hfits := h.accesses; omega⟩

/-- A run of `n` accesses that is over `d` cycles after the last one has the time and the numbers
that it needs. -/
structure Timetable.Allows (t : Timetable) (n d timeout : Nat) : Prop where
  sound : t.Sound
  last : t.last + 1 = n
  due : ∀ s, t.topology.Has s → t.travel s ≤ d ∧ t.late s ≤ t.last + d
  fits : ∀ now < n + d, t.Fits now n
  latencies : n * t.travel .finished < wordLimit
  timeout : n + d ≤ timeout

namespace Simulation

variable {p : Plan} {t : Timetable} {s : Simulation} {n d timeout : Nat}

structure Stands (p : Plan) (t : Timetable) (cycle issued timeout : Nat) (s : Simulation) :
    Prop where
  onTime : s.OnTime p t
  finished : s.hierarchy.machine.finished = []
  cycle : s.hierarchy.cycle = cycle
  issued : s.issued = issued
  timeout : s.timeout = timeout

theorem Stands.completed {cycle : Nat} (h : s.Stands p t cycle n timeout)
    (hidle : s.hierarchy.isIdle = true) : s.completed = n := by
  obtain ⟨collected, hsteady⟩ := h.onTime.steady
  have haccesses : s.hierarchy.inFlight + s.hierarchy.completed = s.issued :=
    hsteady.paced.accesses
  have hcompleted := h.onTime.tallies.completed
  have hissued := h.issued
  have hnone := (Nat.add_eq_zero_iff.1 (Hierarchy.isIdle_iff_count.1 hidle)).1
  rw [List.length_nil] at hcompleted
  omega

theorem drain_of_isIdle (hidle : s.hierarchy.isIdle = true) (k : Nat) :
    drain k s = .ok () s := by
  cases k with
  | zero => rfl
  | succ k =>
    change (if s.hierarchy.isIdle then _ else _ : Step Unit) s = _
    rw [if_pos hidle]
    rfl

section Runs

variable (hp : ∀ b, p.topology.base? = some b → p.Aligned b)
  (ha : t.Allows n d timeout)

include hp ha

theorem issues_succeed {records : List TraceRecord}
    (hrecords : ∀ r ∈ records, r.addr < wordLimit ∧ r.kind.isDemand = true)
    (hn : records.length = n) (h : s.Stands p t 0 0 timeout) :
    Succeeds (fun _ s' => s'.Stands p t n n timeout) (records.forM issue s) := by
  let I (rest : List TraceRecord) (s : Simulation) : Prop :=
    (∀ r ∈ rest, r.addr < wordLimit ∧ r.kind.isDemand = true) ∧
      ∃ k, k + rest.length = n ∧ s.Stands p t k k timeout
  refine (Succeeds.forM (I := I) ?_ ⟨hrecords, 0, by omega, h⟩).mono ?_
  · rintro r rest s ⟨hrest, k, hk, h⟩
    rw [List.length_cons] at hk
    obtain ⟨haddr, hkind⟩ := hrest r List.mem_cons_self
    have hlast := ha.last
    have hlimit := ha.timeout
    have hfits := (ha.fits k (by omega)).mono (show k + 1 ≤ n by omega)
    have hlatency : (k + 1) * t.travel .finished < wordLimit :=
      (Nat.mul_le_mul_right _ (by omega)).trans_lt ha.latencies
    obtain ⟨honTime, hfinished, hcycle, hissued, htimeout⟩ := h
    refine (issue_succeeds hp ha.sound haddr hkind (by omega) (by rwa [hcycle, hissued])
      (by rwa [hissued]) (by omega) honTime).mono ?_
    rintro - s' ⟨honTime', hfinished', hcycle', hissued', htimeout'⟩
    exact ⟨fun r' hr' => hrest r' (List.mem_cons_of_mem _ hr'), k + 1, by omega,
      honTime', hfinished', by omega, by omega, htimeout'.trans htimeout⟩
  · rintro - s' ⟨-, k, hk, h⟩
    rw [List.length_nil, Nat.add_zero] at hk
    exact hk ▸ h

omit hp in
/-- When everything is due the hierarchy is idle. -/
theorem Stands.isIdle {cycle : Nat} (hcycle : n + d ≤ cycle) (h : s.Stands p t cycle n timeout) :
    s.hierarchy.isIdle = true := by
  obtain ⟨collected, hsteady⟩ := h.onTime.steady
  refine Hierarchy.Steady.isIdle (h := s.hierarchy.behind collected) h.finished (fun s' hs' => ?_)
    hsteady
  have hdue := ha.due s' hs'
  have hlast := ha.last
  have hnow : (s.hierarchy.behind collected).cycle = cycle := h.cycle
  omega

theorem drain_succeeds {cycle : Nat} (k : Nat) (hcycle : cycle ≤ n + d) (hk : n + d < cycle + k)
    (h : s.Stands p t cycle n timeout) :
    Succeeds (fun _ s' => ∃ cycle' ≤ n + d, s'.Stands p t cycle' n timeout ∧
      s'.hierarchy.isIdle = true) (drain k s) := by
  induction k generalizing s cycle with
  | zero => omega
  | succ k ih =>
    cases hidle : s.hierarchy.isIdle with
    | true =>
      rw [drain_of_isIdle hidle]
      exact ⟨cycle, hcycle, h, hidle⟩
    | false =>
      have hlt : cycle < n + d := by
        by_contra hle
        rw [h.isIdle ha (Nat.le_of_not_lt hle)] at hidle
        cases hidle
      have hlimit := ha.timeout
      change Succeeds _ ((if s.hierarchy.isIdle then _ else _ : Step Unit) s)
      rw [hidle, if_neg Bool.false_ne_true]
      obtain ⟨honTime, hfinished, hnow, hissued, htimeout⟩ := h
      refine Succeeds.seq (tick_succeeds hp ha.sound (by rw [hnow, hissued]; exact ha.fits _ hlt)
        (hissued ▸ ha.latencies) (by omega) honTime) ?_
      rintro - s' ⟨honTime', hfinished', hcycle', hissued', htimeout'⟩
      have hstands : s'.Stands p t (cycle + 1) n timeout := ⟨honTime', hfinished', by omega,
        hissued'.trans hissued, htimeout'.trans htimeout⟩
      exact ih hlt (by omega) hstands

end Runs

theorem settle_succeeds {n bound : Nat}
    (h : Succeeds (fun _ s' => s'.hierarchy.cycle ≤ bound ∧ s'.issued = n ∧ s'.completed = n)
      (drain (s.timeout - s.hierarchy.cycle + 1) s)) :
    Succeeds (fun _ s' => s'.hierarchy.cycle ≤ bound ∧ s'.issued = n ∧ s'.completed = n)
      (settle s) := by
  refine Succeeds.get_bind (Succeeds.seq h fun _ s' hs' => Succeeds.get_bind ?_)
  exact onHierarchy_succeeds hs'

end Simulation

namespace HierarchyConfig

variable {c : HierarchyConfig}

/-- The bounds on a run let it have the time and the numbers that it needs. -/
theorem allows_timetable {n timeout : Nat} (hn : 0 < n) (htimeout : n + c.drainTime ≤ timeout)
    (hcount : n < 2 ^ 61) (hwords : n * (c.drainTime + 1) + 2 * c.drainTime < wordLimit) :
    (c.timetable (n - 1)).Allows n c.drainTime timeout where
  sound := sound_timetable _
  last := Nat.sub_add_cancel hn
  due _ h := due_timetable _ h
  fits now hnow := by
    have hlimit : wordLimit = 2 ^ 64 := rfl
    have hle : n ≤ n * (c.drainTime + 1) := Nat.le_mul_of_pos_right n (Nat.succ_pos _)
    refine ⟨fun site => ?_, by omega⟩
    have hlatency : (c.timetable (n - 1)).latency site ≤ c.drainTime := c.latencyAt_le site
    omega
  latencies := by
    have hle : n * c.accessTime ≤ n * (c.drainTime + 1) :=
      Nat.mul_le_mul_left _ (c.accessTime_le.1.trans (Nat.le_succ _))
    exact (hle.trans (Nat.le_add_right _ _)).trans_lt hwords
  timeout := htimeout

end HierarchyConfig

namespace Simulation

variable {c : HierarchyConfig}

/-- A simulation of a well-formed configuration with lines of one size succeeds if its limit leaves
the drain time for it after one cycle an access, and if its numbers are words. All accesses are done
then, and no more than these cycles have gone by. -/
theorem simulate_drains {lineSize timeout : Nat} {records : List TraceRecord}
    (hvalid : c.validate = .ok ()) (hsized : c.Sized) (huniform : c.Uniform lineSize)
    (hrecords : ∀ r ∈ records, r.addr < wordLimit ∧ r.kind.isDemand = true)
    (htimeout : records.length + c.drainTime ≤ timeout) (hcount : records.length < 2 ^ 61)
    (hwords : records.length * (c.drainTime + 1) + 2 * c.drainTime < wordLimit) :
    ∃ start s, ofConfig c timeout = .ok start ∧ simulate records start = .ok () s ∧
      s.summary.cycles ≤ records.length + c.drainTime ∧
      s.summary.issued = records.length ∧ s.summary.completed = records.length := by
  obtain ⟨start, p, hstart, hp, hsteady, hcompletions, hfinished, hidle, hcycle⟩ :=
    Hierarchy.exists_steady_start hvalid hsized huniform (records.length - 1)
  refine ⟨{ hierarchy := start, timeout }, ?_⟩
  have hbuilt : ofConfig c timeout = .ok { hierarchy := start, timeout } := by
    rw [ofConfig, hstart]
    rfl
  suffices hsucceeds : Succeeds (fun _ s => s.hierarchy.cycle ≤ records.length + c.drainTime ∧
      s.issued = records.length ∧ s.completed = records.length)
      (simulate records { hierarchy := start, timeout }) by
    obtain ⟨⟨⟩, s, hs, hdone⟩ := hsucceeds.exists_ok
    exact ⟨s, hbuilt, hs, hdone⟩
  have hcompleted : start.completed = 0 := by
    have hcounted : start.completed = start.completions.length := hsteady.counted
    rw [hcounted, hcompletions]
    rfl
  have hstands : Stands p (c.timetable (records.length - 1)) 0 0 timeout
      { hierarchy := start, timeout } :=
    { onTime := ⟨⟨[], hsteady⟩, hcompletions, hcompleted.symm, le_rfl, Nat.zero_le _,
        fun d hd => absurd hd List.not_mem_nil⟩
      finished := hfinished
      cycle := hcycle
      issued := rfl
      timeout := rfl }
  rcases Nat.eq_zero_or_pos records.length with hnone | hn
  · obtain rfl := List.length_eq_zero_iff.1 hnone
    refine settle_succeeds ?_
    rw [drain_of_isIdle hidle]
    exact ⟨hcycle.trans_le (Nat.zero_le _), rfl, rfl⟩
  · have ha := HierarchyConfig.allows_timetable hn htimeout hcount hwords
    refine Succeeds.seq (issues_succeed hp ha hrecords rfl hstands) fun _ s hs => ?_
    refine settle_succeeds ((drain_succeeds hp ha _ (Nat.le_add_right _ _) ?_ hs).mono ?_)
    · rw [hs.timeout, hs.cycle]
      omega
    · rintro - s' ⟨cycle, hle, hs', hidle'⟩
      exact ⟨hs'.cycle.trans_le hle, hs'.issued, hs'.completed hidle'⟩

/-- Three accesses to the hierarchy with a split first level, with as many cycles as it may take. -/
theorem simulate_drains_narrow :
    HierarchyConfig.narrow.validate = .ok () ∧ HierarchyConfig.narrow.Sized ∧
      HierarchyConfig.narrow.Uniform 32 ∧ HierarchyConfig.narrow.drainTime = 16 ∧
      ∃ start s, ofConfig .narrow 19 = .ok start ∧
        simulate [⟨.write, 0⟩, ⟨.write, 64⟩, ⟨.instFetch, 128⟩] start = .ok () s ∧
        s.summary.cycles ≤ 3 + HierarchyConfig.narrow.drainTime ∧
        s.summary.issued = 3 ∧ s.summary.completed = 3 :=
  ⟨rfl, by decide, by decide, rfl, simulate_drains rfl (by decide)
    (show HierarchyConfig.narrow.Uniform 32 by decide) (by decide) (by decide) (by decide)
    (by decide)⟩

end Simulation

end CacheHierarchy
