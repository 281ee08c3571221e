import CacheHierarchy.Proofs.Outline.Timing

/-!
# The slots of a cycle

In its slot a queue is drained. What was ready leaves it, so that all that stays is for a later
cycle, and the next slot begins on time. The last slot of a cycle is followed by the first one of
the next.
-/

namespace CacheHierarchy

namespace Outline

variable {α : Type} {t : Topology} {latency : Site → Nat} {n i b : Nat} {s : Spot} {site : Site}
  {e : Errand α} {o : Outline α}

theorem late_of_next? (h : o.Timely t latency n) (hgate : t.gate? s = some site)
    (hnext : o.next? s site = none) : ∀ e ∈ o.queue s, o.clock site < e.readyAt := by
  have hsorted := h.sorted s site hgate
  unfold next? at hnext
  cases hqueue : o.queue s with
  | nil => simp
  | cons head rest =>
    rw [hqueue, List.head?_cons, Option.filter_some] at hnext
    have hhead : o.clock site < head.readyAt := by
      by_contra hready
      simp [Nat.not_lt.1 hready] at hnext
    rw [hqueue] at hsorted
    intro e he
    rcases List.mem_cons.1 he with rfl | he
    · exact hhead
    · exact Nat.lt_of_lt_of_le hhead (List.rel_of_pairwise_cons hsorted he)

/-- Dealing with errands one after the other leaves none that is ready. Each was ready `lead` cycles
ago. -/
theorem timely_drain (site : Site) (lead : Nat) {one : Errand α → Outline α → Outline α} {k : Nat}
    (hlead : ∀ o : Outline α, o.Timely t latency n → ∀ e ∈ o.queue s, e.readyAt ≤ o.clock site →
      e.readyAt + lead = o.now)
    (hone : ∀ e (o : Outline α), o.Timely t latency n → e.Due t latency s →
      e.readyAt + lead = o.now → (one e o).Timely t latency n ∧
        ((one e o).queue s).length = (o.queue s).length)
    (h : o.Timely t latency n) (hk : (o.queue s).length ≤ k) :
    (o.drain s site one k).Timely t latency n ∧ (o.drain s site one k).next? s site = none := by
  induction k generalizing o with
  | zero =>
    have hqueue : o.queue s = [] := List.length_eq_zero_iff.1 (Nat.le_zero.1 hk)
    exact ⟨h, by simp [drain, next?, hqueue]⟩
  | succ k ih =>
    cases hnext : o.next? s site with
    | none =>
      rw [drain, hnext]
      exact ⟨h, hnext⟩
    | some e =>
      obtain ⟨hhead, hready⟩ := Option.filter_eq_some_iff.1 hnext
      have hmem := List.mem_of_mem_head? hhead
      have hnow := hlead o h e hmem (of_decide_eq_true hready)
      obtain ⟨hdealt, hlength⟩ := hone e (o.pop s) (h.pop s) (h.due s e hmem) hnow
      rw [drain, hnext]
      refine ih hdealt ?_
      rw [hlength, queue_pop, List.length_tail]
      omega

namespace Timely

variable (h : o.Timely t latency n)

include h

/-- A component whose clock has not advanced in this cycle shows its number. -/
theorem clock_eq_now (hgate : t.gate? s = some site) (hturn : n ≤ t.turn site) :
    o.clock site = o.now := by
  rw [h.clock s site hgate, if_neg (Nat.not_lt.2 hturn), Nat.add_zero]

theorem succ (hturn : ∀ s site, t.gate? s = some site → t.turn site ≠ n)
    (hlate : ∀ s site, t.gate? s = some site → t.slot s = n → ∀ e ∈ o.queue s, o.now < e.readyAt)
    (hsends : ∀ i, t.slot (.sends i) = n → o.queue (.sends i) = []) :
    o.Timely t latency (n + 1) where
  due := h.due
  clock s site hs := by
    have hne := hturn s site hs
    have hiff : t.turn site < n + 1 ↔ t.turn site < n := by omega
    simpa only [hiff] using h.clock s site hs
  sorted := h.sorted
  ready s site hs e he := by
    obtain ⟨hge, hle⟩ := h.ready s site hs e he
    refine ⟨?_, hle⟩
    by_cases hslot : t.slot s = n
    · have hnow := hlate s site hs hslot e he
      rw [hslot, if_pos (Nat.lt_succ_self n)]
      exact hnow
    · have hiff : t.slot s < n + 1 ↔ t.slot s < n := by omega
      simpa only [hiff] using hge
  sends i e he := by
    have hne : t.slot (.sends i) ≠ n := fun hslot => by
      rw [hsends i hslot] at he
      cases he
    have hiff : t.slot (.sends i) < n + 1 ↔ t.slot (.sends i) < n := by omega
    simpa only [hiff] using h.sends i e he
  finished := h.finished
  done := h.done
  latency_eq := h.latency_eq

theorem skip (hgate : t.gate? s = some site) (hslot : t.slot s = n)
    (hnext : o.next? s site = none) : o.Timely t latency (n + 1) := by
  subst hslot
  have hlate := late_of_next? h hgate hnext
  rw [h.clock_eq_now hgate (Nat.le_of_lt (Topology.slot_lt_turn hgate))] at hlate
  refine h.succ (fun s' site' hs' => (Topology.slot_ne_turn hgate hs').symm)
    (fun s' site' hs' hslot => ?_) fun i hslot => absurd hslot (Topology.slot_sends_ne hgate i)
  rw [Topology.slot_inj hs' hgate hslot]
  exact hlate

theorem skip_sends (hi : i < t.size) (hslot : t.slot (.sends i) = n)
    (hqueue : o.queue (.sends i) = []) : o.Timely t latency (n + 1) := by
  subst hslot
  refine h.succ (fun s' site' hs' => (Topology.slot_sends_ne_turn hi hs').symm)
    (fun s' site' hs' hslot => absurd hslot.symm (Topology.slot_sends_ne hs' i)) fun j hslot => ?_
  have hj : j = i := by
    simp only [Topology.slot] at hslot
    omega
  rw [hj, hqueue]

omit h in
theorem lt_size_of_sends (hdue : e.Due t latency (.sends i)) : i < t.size := by
  cases hdue with
  | leaves htop => exact Topology.lt_size_of_mem_tops htop
  | passes _ hbase => exact Topology.lt_size_of_base? hbase

theorem advance (hgate : t.gate? s = some site) (hturn : t.turn site = n) :
    (o.advance site).Timely t latency (n + 1) where
  due := h.due
  clock s' site' hs' := by
    have hclock := h.clock s' site' hs'
    change Function.update o.clock site (o.clock site + 1) site' = _
    by_cases hsite : site' = site
    · subst hsite
      rw [hturn, if_neg (Nat.lt_irrefl n)] at hclock
      rw [hturn, if_pos (Nat.lt_succ_self n), Function.update_self, hclock]
      rfl
    · have hne : t.turn site' ≠ n := fun heq =>
        hsite (Topology.turn_inj hs' hgate (heq.trans hturn.symm))
      have hiff : t.turn site' < n + 1 ↔ t.turn site' < n := by omega
      rw [Function.update_of_ne hsite, hclock]
      simp only [hiff]
      rfl
  sorted := h.sorted
  ready s' site' hs' e he := by
    obtain ⟨hge, hle⟩ := h.ready s' site' hs' e he
    have hne := hturn ▸ Topology.slot_ne_turn hs' hgate
    have hiff : t.slot s' < n + 1 ↔ t.slot s' < n := by omega
    simp only [hiff]
    refine ⟨hge, Nat.le_trans hle (Nat.add_le_add_right ?_ _)⟩
    change o.clock site' ≤ Function.update o.clock site (o.clock site + 1) site'
    by_cases hsite : site' = site
    · subst hsite
      rw [Function.update_self]
      exact Nat.le_succ _
    · exact Nat.le_of_eq (Function.update_of_ne hsite _ _).symm
  sends i e he := by
    have hne := hturn ▸ Topology.slot_sends_ne_turn (lt_size_of_sends (h.due _ e he)) hgate
    have hiff : t.slot (.sends i) < n + 1 ↔ t.slot (.sends i) < n := by omega
    simp only [hiff]
    exact h.sends i e he
  finished := h.finished
  done := h.done
  latency_eq := h.latency_eq

theorem stage {one : Errand α → Outline α → Outline α} (hgate : t.gate? s = some site)
    (hslot : n = t.slot s)
    (hone : ∀ e (o : Outline α), o.Timely t latency n → e.Due t latency s → e.readyAt = o.now →
      (one e o).Timely t latency n ∧ ((one e o).queue s).length = (o.queue s).length) :
    (o.stage s site one).Timely t latency (n + 1) := by
  have hturn : n ≤ t.turn site := hslot ▸ Nat.le_of_lt (Topology.slot_lt_turn hgate)
  have hready : ∀ o : Outline α, o.Timely t latency n → ∀ e ∈ o.queue s,
      e.readyAt ≤ o.clock site → e.readyAt + 0 = o.now := by
    intro o h e he hclock
    obtain ⟨hge, -⟩ := h.ready s site hgate e he
    rw [← hslot, if_neg (Nat.lt_irrefl n)] at hge
    rw [h.clock_eq_now hgate hturn] at hclock
    exact Nat.le_antisymm hclock hge
  obtain ⟨hdrained, hnext⟩ := timely_drain site 0 hready hone h (Nat.le_refl _)
  exact hdrained.skip hgate hslot.symm hnext

end Timely

/-! Cycles. -/

section Cycles

variable {p : Plan}

theorem timely_stage_sends (h : o.Timely p.topology latency n) (hi : i < p.topology.size)
    (hslot : n = p.topology.slot (.sends i)) :
    (o.stage (.sends i) (.cache i) (sendOne p i)).Timely p.topology latency (n + 1) := by
  have hgate : p.topology.gate? (.lookups i) = some (.cache i) := if_pos hi
  have hturn : n ≤ p.topology.turn (.cache i) := by
    rw [hslot, Topology.turn, Topology.slot]
    omega
  have hready : ∀ o : Outline α, o.Timely p.topology latency n → ∀ e ∈ o.queue (.sends i),
      e.readyAt + 1 = o.now := by
    intro o h e he
    rw [h.sends i e he, ← hslot, if_neg (Nat.lt_irrefl n), Nat.add_zero]
  obtain ⟨hdrained, hnext⟩ := timely_drain (.cache i) 1
    (fun o h e he _ => hready o h e he)
    (fun e o h hdue hready => ⟨timely_sendOne h hdue hready hslot, length_queue_sendOne⟩) h
    (Nat.le_refl _)
  refine hdrained.skip_sends hi hslot.symm ?_
  -- what was to be sent down has been ready for a cycle
  cases hqueue : (o.drain (.sends i) (.cache i) (sendOne p i) _).queue (.sends i) with
  | nil => rfl
  | cons e rest =>
    have hsent := hready _ hdrained e (by rw [hqueue]; exact List.mem_cons_self)
    rw [← hdrained.clock_eq_now hgate hturn] at hsent
    have hready := Nat.le_of_eq hsent
    rw [next?, hqueue, List.head?_cons, Option.filter_some, 
      if_pos (decide_eq_true (Nat.le_of_succ_le hready))] at hnext
    cases hnext

theorem timely_runCache (h : o.Timely p.topology latency (4 * i)) (hi : i < p.topology.size) :
    (o.runCache p i).Timely p.topology latency (4 * (i + 1)) := by
  have hfills : p.topology.gate? (.fills i) = some (.cache i) := if_pos hi
  have hlookups : p.topology.gate? (.lookups i) = some (.cache i) := if_pos hi
  have hfilled := h.stage hfills rfl fun e o h hdue hready =>
    ⟨timely_fillOne h hdue hready rfl, length_queue_fillOne fun hb => hdue.top_ne_base hb⟩
  have hsent := timely_stage_sends hfilled hi rfl
  have hlookedUp := hsent.stage hlookups rfl fun e o h hdue hready =>
    ⟨timely_lookUpOne h hdue hready rfl, length_queue_lookUpOne⟩
  exact hlookedUp.advance hlookups rfl

theorem timely_runCaches (h : o.Timely p.topology latency 0) {k : Nat} (hk : k ≤ p.topology.size) :
    ((List.range k).foldl (fun o i => o.runCache p i) o).Timely p.topology latency (4 * k) := by
  induction k with
  | zero => exact h
  | succ k ih =>
    rw [List.range_succ, List.foldl_append]
    exact timely_runCache (ih (Nat.le_of_succ_le hk)) hk

theorem timely_runMachine (h : o.Timely p.topology latency 0) :
    (o.runMachine p).Timely p.topology latency (4 * p.topology.size + 2) := by
  have hcaches := timely_runCaches h (Nat.le_refl _)
  have hanswered := hcaches.stage (s := .memory) rfl rfl fun e o h hdue hready =>
    ⟨timely_read h hdue hready rfl, length_queue_read⟩
  exact hanswered.advance (s := .memory) rfl rfl

theorem timely_runCycle (h : o.Timely p.topology latency 0) :
    (o.runCycle p).Timely p.topology latency 0 := by
  have hmachine := timely_runMachine h
  have hover : ∀ {s site}, p.topology.gate? s = some site →
      p.topology.slot s < 4 * p.topology.size + 2 ∧
        p.topology.turn site < 4 * p.topology.size + 2 := by
    intro s site hs
    rcases Topology.gate?_cases hs with ⟨i, hi, rfl | rfl, rfl⟩ | ⟨rfl, rfl⟩ <;>
      simp only [Topology.slot, Topology.turn] <;> omega
  have hqueue : ∀ {s}, s ≠ .finished → (o.runCycle p).queue s = (o.runMachine p).queue s :=
    fun hs => Function.update_of_ne hs _ _
  have hwaits : ∀ {s site}, p.topology.gate? s = some site → s ≠ .finished := by
    rintro s site hs rfl
    cases hs
  have hleft := queue_finished_runCycle p o
  have hnow : (o.runCycle p).now = (o.runMachine p).now + 1 := rfl
  refine ⟨fun s e he => ?_, fun s site hs => ?_, fun s site hs => ?_, fun s site hs e he => ?_,
    fun i e he => ?_, fun e he => ?_, fun d hd => ?_, hmachine.latency_eq⟩
  · by_cases hs : s = .finished
    · rw [hs, hleft] at he
      cases he
    · rw [hqueue hs] at he
      exact hmachine.due s e he
  · have hclock := hmachine.clock s site hs
    rw [if_pos (hover hs).2] at hclock
    exact hclock
  · rw [hqueue (hwaits hs)]
    exact hmachine.sorted s site hs
  · rw [hqueue (hwaits hs)] at he
    have hready := hmachine.ready s site hs e he
    rw [if_pos (hover hs).1] at hready
    exact hready
  · rw [hqueue Spot.noConfusion] at he
    have hsends := hmachine.sends i e he
    have hi := Timely.lt_size_of_sends (hmachine.due _ e he)
    rw [if_pos (by rw [Topology.slot]; omega)] at hsends
    exact hsends
  · rw [hleft] at he
    cases he
  · rcases List.mem_append.1 hd with hd | hd
    · exact hmachine.done d hd
    · obtain ⟨e, he, rfl⟩ := List.mem_map.1 hd
      rw [← hmachine.finished e he]
      cases hmachine.due _ e he with
      | done hprompt => exact hprompt

theorem timely_issue (h : o.Timely p.topology latency 0) (label : α) (line : Nat → Nat)
    (side : Side) :
    (o.issue p label line (p.topology.top side)).Timely p.topology latency 0 := by
  have hcounted : Timely p.topology latency 0 { o with inFlight := o.inFlight + 1 } :=
    ⟨h.due, h.clock, h.sorted, h.ready, h.sends, h.finished, h.done, h.latency_eq⟩
  unfold issue
  cases hentry : p.topology.entry? with
  | none =>
    exact hcounted.arrive rfl (fun hslot => absurd hslot (Nat.not_lt_zero _))
      (.direct (Topology.last?_of_entry? hentry) rfl rfl)
  | some ports =>
    have htop : p.topology.top side ∈ p.topology.tops := Topology.top_mem_tops hentry side
    exact hcounted.arrive (if_pos (Topology.lt_size_of_mem_tops htop))
      (fun hslot => absurd hslot (Nat.not_lt_zero _)) (.enters htop rfl rfl rfl)

end Cycles

end Outline

end CacheHierarchy
