import CacheHierarchy.Proofs.Pace.Basic

/-!
# Actions on time

Each operation keeps to a timetable if what it puts into a queue is neither too early nor late
there. What a fill displaces is on time because the fill is.
-/

namespace CacheHierarchy.Machine

variable {t : Timetable} {x : Phase} {m : Machine} {i j : Nat} {c : Cache} {s : Spot} {r : Request}

section Operations

variable {α : Type} {Q : α → Machine → Prop}

theorem attempt_paces {e : Except Fault α} (h : m.Paced t x) (hQ : ∀ a, e = .ok a → Q a m) :
    Paces t x Q (attempt e m) := by
  cases e with
  | ok a => exact hQ a rfl
  | error fault => exact h.pacedIn

theorem attempt_add_paces {Q : Nat → Machine → Prop} {a b : Nat} (h : m.Paced t x)
    (hQ : Q (a + b) m) : Paces t x Q (attempt (Word.add a b) m) :=
  attempt_paces h fun _ hsum => (Word.add_eq_ok_iff.1 hsum).2 ▸ hQ

theorem cacheAt_paces {Q : Cache → Machine → Prop} (h : m.Paced t x)
    (hQ : ∀ c, m.caches[i]? = some c → c.Paced t x i → Q c m) : Paces t x Q (cacheAt i m) := by
  apply Ends.get_bind
  cases hc : m.caches[i]? with
  | none => exact h.pacedIn
  | some c => exact hQ c hc (h.caches i c hc)

theorem neighbour_paces {Q : Cache → Machine → Prop} (h : m.Paced t x)
    (hQ : ∀ d, j ≠ i → d.Paced t x j → Q d m) : Paces t x Q (neighbour i j m) := by
  refine Ends.get_bind (attempt_paces h fun d hd => ?_)
  unfold neighbour? at hd
  split at hd
  · cases hd
  · rename_i hne
    cases hj : m.caches[j]? with
    | none =>
      rw [hj] at hd
      cases hd
    | some d' =>
      rw [hj] at hd
      cases hd
      exact hQ d hne (h.caches j d hj)

theorem setCache_paces (h : m.Paced t x) (hc : c.Paced t x i) :
    KeepsPace t x (setCache i c m) := h.put hc

theorem record_paces (h : m.Paced t x) {event : Event} (hevent : event.isRetired = false) :
    KeepsPace t x (record event m) := h.noted hevent

theorem freshId_paces (h : m.Paced t x) :
    Paces t x (fun _ => Machine.Paced t x) (freshId m) :=
  Ends.get_bind (Ends.bind (attempt_paces h fun _ _ => { h with }))

theorem finish_paces (h : m.Paced t x) (hr : x.now ≤ r.issuedAt + t.travel .finished) :
    KeepsPace t x (finish r m) := by
  refine { h with finished := fun r' hr' => ?_ }
  rcases List.mem_append.1 hr' with hr' | hr'
  · exact h.finished r' hr'
  · rw [List.mem_singleton.1 hr']
    exact hr

theorem sendToMemory_paces (h : m.Paced t x)
    (hr : t.Admits x .memory { r with readyAt := t.clock x .memory + t.latency .memory })
    (hstage : x.left = none ∨ t.topology.stage .memory ≠ x.passed) :
    KeepsPace t x (sendToMemory r m) := by
  refine Ends.get_bind (Ends.bind (attempt_add_paces h ?_))
  rw [← h.cycle, ← h.latency] at hr
  exact h.accepting hr (by rw [← h.cycle, ← h.latency]) hstage

theorem announceToMemory_paces (h : m.Paced t x) (note : WriteBackNote) :
    KeepsPace t x (announceToMemory note m) := { h with }

theorem acceptFill_paces {Q : Cache → Machine → Prop} (h : m.Paced t x) (hc : c.Paced t x i)
    (hr : t.Admits x (.fills i)
      { r with readyAt := t.clock x (.cache i) + t.latency (.cache i) })
    (hstage : x.left = none ∨ t.topology.stage (.fills i) ≠ x.passed)
    (hQ : ∀ c', c'.Paced t x i → Q c' m) :
    Paces t x Q (attempt (c.acceptFill r) m) := by
  refine attempt_paces h fun c' hc' => hQ c' ?_
  unfold Cache.acceptFill Cache.arrival Word.add at hc'
  split at hc' <;> cases hc'
  rw [← hc.cycle, ← hc.latency] at hr
  exact { hc with
    fills := hc.fills.push hr (fun _ => by rw [hc.cycle, hc.latency]; rfl) hstage }

theorem acceptLookup_paces {Q : Cache → Machine → Prop} (h : m.Paced t x) (hc : c.Paced t x i)
    (hr : t.Admits x (.lookups i)
      { r with readyAt := t.clock x (.cache i) + t.latency (.cache i) })
    (hstage : x.left = none ∨ t.topology.stage (.lookups i) ≠ x.passed)
    (hQ : ∀ c', c'.Paced t x i → Q c' m) :
    Paces t x Q (attempt (c.acceptLookup r) m) := by
  refine attempt_paces h fun c' hc' => hQ c' ?_
  unfold Cache.acceptLookup Cache.arrival Word.add at hc'
  split at hc' <;> cases hc'
  rw [← hc.cycle, ← hc.latency] at hr
  exact { hc with
    lookups := hc.lookups.push hr (fun _ => by rw [hc.cycle, hc.latency]; rfl) hstage }

theorem handFill_paces (h : m.Paced t x) (hturn : t.Turn x i)
    (hdue : j ≠ i → t.clock x (.cache j) + t.latency (.cache j) ≤ t.due (.fills j) r)
    (hissued : r.kind.isWriteBack = false → r.issuedAt ≤ t.last) :
    KeepsPace t x (handFill i j r m) := by
  refine Ends.bind (neighbour_paces h fun d hne hd => ?_)
  obtain ⟨hstage, hover⟩ := hturn.stage_fills hne
  have hr := t.admits_gate (s := .fills j) rfl hover (hdue hne) hissued trivial
  exact Ends.bind (acceptFill_paces h hd hr (.inr hstage) fun d' hd' => setCache_paces h hd')

theorem handDown_paces (h : m.Paced t x) (hturn : t.Turn x i)
    (hdue : j ≠ i → t.clock x (.cache j) + t.latency (.cache j) ≤ t.due (.lookups j) r)
    (hissued : r.kind.isWriteBack = false → r.issuedAt ≤ t.last)
    (hkind : r.kind.isWriteBack = false) : KeepsPace t x (handDown i j r m) := by
  refine Ends.bind (neighbour_paces h fun d hne hd => ?_)
  obtain ⟨hstage, hover⟩ := hturn.stage_lookups hne
  have hr := t.admits_gate (s := .lookups j) rfl hover (hdue hne) hissued hkind
  exact Ends.bind (acceptLookup_paces h hd hr (.inr hstage) fun d' hd' => setCache_paces h hd')

end Operations

section Evictions

variable (ht : t.Sound) (hx : t.Filling x i) {addr : Nat}

include ht hx

theorem sendStraight_paces (h : m.Paced t x) (hr : r.kind.isWriteBack = true) :
    KeepsPace t x (sendToMemory r m) := by
  refine sendToMemory_paces h (hx.turn.admits_memory ?_ fun hdemand => ?_)
    (.inr hx.turn.over_lt_memory.ne')
  · rw [Timetable.due_writeBack hr]
    have hstraight := ht.straight i hx.turn.lt_size
    have hnow := hx.now_le
    omega
  · rw [hr] at hdemand
    cases hdemand

theorem writeStraightBack_paces (h : m.Paced t x) (cycle : Nat) :
    KeepsPace t x (writeStraightBack addr cycle m) := by
  refine Ends.seq (freshId_paces h) fun id m h => ?_
  refine Ends.seq (announceToMemory_paces h _) fun _ m h => ?_
  exact sendStraight_paces ht hx h rfl

omit ht hx in
theorem announceBelow_paces (h : m.Paced t x) (below : Below) (note : WriteBackNote) :
    KeepsPace t x (announceBelow i below note m) := by
  cases below with
  | memory => exact announceToMemory_paces h note
  | cache j => exact Ends.bind (neighbour_paces h fun d _ hd => setCache_paces h { hd with })

/-- A write-back that is made in a fill is released in the next cycle. -/
theorem writeBack_paces (h : m.Paced t x) : KeepsPace t x (writeBack i addr m) := by
  refine Ends.seq (freshId_paces h) fun id m h => ?_
  refine Ends.bind (cacheAt_paces h fun c _ hc => ?_)
  refine Ends.seq (announceBelow_paces h _ _) fun _ m h => ?_
  refine Ends.seq (record_paces h rfl) fun _ m h => setCache_paces h ?_
  have hcycle : c.cycle = x.now := hc.cycle.trans hx.turn.clock_self
  have hstage := hx.stage
  have hdisplace := ht.displace i hx.turn.lt_size
  have hnow := hx.now_le
  have hr : t.Admits x (.writeBacks i) (Request.ofWriteBack id addr c.cycle) := by
    refine ⟨?_, ?_, ?_, fun hdemand => Bool.noConfusion hdemand, rfl⟩
    · change _ ≤ c.cycle + 1
      rw [hcycle, Timetable.next]
      split <;> omega
    · change c.cycle + 1 ≤ t.late (.writeBacks i)
      omega
    · change c.cycle ≤ t.clock x (.cache i) + 0
      rw [hc.cycle]
      exact le_rfl
  refine { hc with
    writeBacks := hc.writeBacks.push hr (fun hgate => Bool.noConfusion hgate) (.inr ?_) }
  rw [hstage, Topology.stage, Topology.stage]
  omega

omit ht hx in
theorem isWriteBack_of_recalled {lineSize line : Nat}
    (hr : r ∈ (c.recallWriteBacks lineSize line).1) : r.kind.isWriteBack = true := by
  simp only [Cache.recallWriteBacks, GatedQueue.takeWhere_fst, List.mem_append, List.mem_filter,
    Cache.isWriteBackOf, Bool.and_eq_true] at hr
  rcases hr with ⟨-, hkind, -⟩ | ⟨-, hkind, -⟩ <;> exact hkind

omit ht hx in
theorem recallFrom_paces (h : m.Paced t x) (lineSize line : Nat) (ports : List (Side × Nat)) :
    Paces t x (fun recalled m => m.Paced t x ∧ ∀ r ∈ recalled, r.kind.isWriteBack = true)
      (recallFrom i lineSize line ports m) := by
  induction ports generalizing m with
  | nil => exact ⟨h, fun r hr => absurd hr List.not_mem_nil⟩
  | cons port rest ih =>
    refine Ends.bind (neighbour_paces h fun d _ hd => ?_)
    have hleft : (d.recallWriteBacks lineSize line).2.Paced t x port.2 :=
      { hd with
        writeBacks := hd.writeBacks.sublist List.filter_sublist
        sends := hd.sends.sublist List.filter_sublist }
    refine Ends.seq (setCache_paces h hleft) fun _ m h => ?_
    refine Ends.seq (ih h) ?_
    rintro recalled m ⟨h, hrecalled⟩
    refine ⟨h, fun r hr => ?_⟩
    rcases List.mem_append.1 hr with hr | hr
    · exact isWriteBack_of_recalled hr
    · exact hrecalled r hr

theorem divertWriteBack_paces (h : m.Paced t x) (hr : r.kind.isWriteBack = true) :
    KeepsPace t x (divertWriteBack i r m) := by
  refine Ends.bind (cacheAt_paces h fun c _ hc => ?_)
  cases c.expected.settle? r.id with
  | none => exact h.pacedIn
  | some settled =>
    refine Ends.seq (setCache_paces h { hc with }) fun _ m h => ?_
    refine Ends.seq (record_paces h rfl) fun _ m h => ?_
    refine Ends.seq (announceToMemory_paces h _) fun _ m h => ?_
    exact sendStraight_paces ht hx h hr

theorem divertWriteBacks_paces (h : m.Paced t x) : KeepsPace t x (divertWriteBacks i addr m) := by
  refine Ends.bind (cacheAt_paces h fun c _ hc => ?_)
  refine Ends.seq (setCache_paces h { hc with fills := hc.fills.sublist List.filter_sublist }) ?_
  refine fun _ m h => Ends.seq (recallFrom_paces h _ _ _) ?_
  rintro recalled m ⟨h, hrecalled⟩
  refine Ends.mono (Ends.forM (I := fun rest m => m.Paced t x ∧
    ∀ r ∈ rest, r.kind.isWriteBack = true) ?_ ⟨h, fun r hr => ?_⟩) (fun _ _ h => h.1) fun _ _ => id
  · rintro r rest m ⟨h, hrest⟩
    refine (divertWriteBack_paces ht hx h (hrest r List.mem_cons_self)).mono ?_ fun _ _ => id
    exact fun _ _ h => ⟨h, fun r' hr' => hrest r' (List.mem_cons_of_mem _ hr')⟩
  · rcases List.mem_append.1 hr with hr | hr
    · exact (Bool.and_eq_true_iff.1 (List.mem_filter.1 hr).2).1
    · exact hrecalled r hr

theorem backInvalidate_paces (h : m.Paced t x) (side : Side) (line : Line) :
    KeepsPace t x (backInvalidate j addr side line m) := by
  refine Ends.bind (cacheAt_paces h fun c _ hc => ?_)
  split
  · exact h.pacedIn
  refine Ends.bind (attempt_paces h fun dropped _ => ?_)
  refine Ends.seq (setCache_paces h { hc with }) fun _ m h => ?_
  refine Ends.seq (record_paces h rfl) fun _ m h => ?_
  split
  · exact writeStraightBack_paces ht hx h _
  · exact h

theorem withdrawFrom_paces (h : m.Paced t x) (port : Side × Nat) :
    KeepsPace t x (withdrawFrom i addr port m) := by
  refine Ends.bind (neighbour_paces h fun d _ hd => Ends.bind (attempt_paces h fun line _ => ?_))
  cases line with
  | some line => exact backInvalidate_paces ht hx h _ _
  | none =>
    dsimp only
    split
    · have hfills : (d.bypassFills addr).Paced t x port.2 :=
        { hd with fills := hd.fills.map fun r => by split <;> rfl }
      refine Ends.seq (setCache_paces h hfills) fun _ m h => ?_
      exact Ends.bind (cacheAt_paces h fun _ _ _ => record_paces h rfl)
    · exact h

theorem withdrawAbove_paces (h : m.Paced t x) : KeepsPace t x (withdrawAbove i addr m) := by
  refine Ends.bind (cacheAt_paces h fun c _ hc => ?_)
  exact Ends.forM (I := fun _ => Machine.Paced t x)
    (fun port _ _ h => withdrawFrom_paces ht hx h port) h

end Evictions

end CacheHierarchy.Machine
