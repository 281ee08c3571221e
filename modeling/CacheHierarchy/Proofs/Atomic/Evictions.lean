import CacheHierarchy.Proofs.Atomic.Tasks
import CacheHierarchy.Proofs.Execution.Withdrawals
import CacheHierarchy.Proofs.Outline.Actions

/-!
# Evictions and contents

What follows an eviction, as it shows in the contents: a dirty line becomes a write-back that is
anticipated at once, and the caches above the base give up the line that it has displaced.

While no write-back is on its way to the base, none has to be passed on to memory instead.
-/

namespace CacheHierarchy

namespace Scene

variable {p : Plan} {σ σ' σ'' : Scene} {c c' : Contents} {s : Spot} {r : Request}

/-- The scene has come to other contents and to write-backs to memory, and nothing else is new. -/
structure Sheds (p : Plan) (σ σ' : Scene) (c : Contents) : Prop where
  outstanding : σ'.outstanding = σ.outstanding
  traffic : ∃ u : Multiset (Spot × Request), σ'.traffic = u + σ.traffic ∧
    ∀ y ∈ u, y.2.kind = .writeBack ∧ p.receiver? y.1 = some .memory
  contents : σ'.contents p = c

namespace Sheds

theorem refl (p : Plan) (σ : Scene) : σ.Sheds p σ (σ.contents p) :=
  ⟨rfl, ⟨0, (zero_add _).symm, by simp⟩, rfl⟩

theorem trans (h : σ.Sheds p σ' c) (h' : σ'.Sheds p σ'' c') : σ.Sheds p σ'' c' := by
  obtain ⟨u, hu, hmem⟩ := h.traffic
  obtain ⟨u', hu', hmem'⟩ := h'.traffic
  refine ⟨h'.outstanding.trans h.outstanding, ⟨u' + u, ?_, fun y hy => ?_⟩, h'.contents⟩
  · rw [hu', hu, add_assoc]
  · exact (Multiset.mem_add.1 hy).elim (hmem' y) (hmem y)

theorem of_rows (p : Plan) {σ σ' : Scene} (houtstanding : σ'.outstanding = σ.outstanding)
    (htraffic : σ'.traffic = σ.traffic) : σ.Sheds p σ' (σ'.contents p) :=
  ⟨houtstanding, ⟨0, by rw [htraffic, zero_add], by simp⟩, rfl⟩

theorem add (h : σ.Sheds p σ' c) (hr : r.kind = .writeBack)
    (hs : p.receiver? s = some .memory) : σ.Sheds p (σ'.add s r) (c.spill true) := by
  obtain ⟨u, hu, hmem⟩ := h.traffic
  refine ⟨h.outstanding, ⟨(s, r) ::ₘ u, ?_, ?_⟩, ?_⟩
  · rw [traffic_add, hu, Multiset.cons_add]
  · intro y hy
    rcases Multiset.mem_cons.1 hy with rfl | hy
    · exact ⟨hr, hs⟩
    · exact hmem y hy
  · rw [contents_add_memory hr hs, h.contents]

variable (h : σ.Sheds p σ' c)

include h

theorem demands_eq : demands σ'.traffic = demands σ.traffic := by
  obtain ⟨u, hu, hmem⟩ := h.traffic
  rw [hu, demands, Multiset.filter_add, Multiset.filter_eq_nil.2 fun y hy => ?_, zero_add]
  · rfl
  · exact Request.not_isDemand (hmem y hy).1

theorem calm (hcalm : σ.Calm p) : σ'.Calm p := by
  obtain ⟨u, hu, hmem⟩ := h.traffic
  intro y hy i line
  rw [hu] at hy
  rcases Multiset.mem_add.1 hy with hy | hy
  · exact not_doomed_of_memory (hmem y hy).2 i line
  · exact hcalm y hy i line

theorem mem_fills {i : Nat} (hr : (.fills i, r) ∈ σ'.traffic) : (.fills i, r) ∈ σ.traffic := by
  obtain ⟨u, hu, hmem⟩ := h.traffic
  rw [hu] at hr
  rcases Multiset.mem_add.1 hr with hr | hr
  · cases (hmem _ hr).2
  · exact hr

end Sheds

end Scene

namespace Machine

variable {p : Plan} {x : Context} {σ : Scene} {m : Machine} {i j b : Nat} {r : Request}

theorem mem_scene {y : Spot × Request} (h : m.Stands p x σ) (hy : y ∈ m.traffic) :
    y ∈ σ.traffic := by
  rw [← h.scene]
  exact Multiset.mem_add.2 (.inl hy)

theorem sendUp_stands (h : m.Stands p x σ) {ports : Ports}
    (hports : p.topology.above b = .caches ports) :
    Yields (fun _ m' => ∃ readyAt, m'.Stands p x
        (σ.add (.fills (p.topology.top r.kind.side)) { r with readyAt }))
      (sendUp b ports r m) := by
  rw [Topology.top_of_entry? (Topology.entry?_of_above hports)]
  refine Ends.bind (handFill_yields fun d hne hd => Ends.bind (cacheAt_yields fun c hc => ?_))
  have hsound := h.sound.caches _ d hd
  have hpush := h.put_push
    { d with fills := d.fills.push { r with readyAt := d.cycle + d.latency } } hd
    (traffic_push_fills d) (hsound.congr rfl rfl rfl rfl) rfl
  exact record_ends ⟨_, hpush.noted _⟩

theorem writeBack_stands (h : m.Stands p x σ) (addr : Nat) :
    Yields (fun _ m' => ∃ r, r.kind = .writeBack ∧ r.addr = addr ∧
        m'.Stands p x (σ.add (.writeBacks i) r))
      (writeBack i addr m) := by
  refine Ends.bind (freshId_yields (Ends.bind (cacheAt_yields fun c hc => ?_)))
  have hfresh := h.with_nextId
  have hannounced : Yields (fun _ m' => m'.Stands p x σ ∧ m'.caches[i]? = some c)
      (announceBelow i c.below (Request.ofWriteBack m.nextId addr c.cycle).note
        { m with nextId := m.nextId + 1 }) := by
    unfold announceBelow
    cases c.below with
    | memory => exact ⟨hfresh.with_expected _, hc⟩
    | cache j =>
      refine Ends.bind (neighbour_yields fun d hne hd => setCache_ends ⟨?_, ?_⟩)
      · have hsound := hfresh.sound.caches _ d hd
        exact hfresh.put_same _ hd rfl (hsound.congr rfl rfl rfl rfl) rfl
      · rw [caches_put_ne _ hne.symm]
        exact hc
  refine Ends.seq hannounced fun _ m' ⟨h', hc'⟩ => Ends.bind (record_ends (setCache_ends ?_))
  have hsound := h'.sound.caches i c hc'
  have hnoted := h'.noted (.wroteBack i (Request.ofWriteBack m.nextId addr c.cycle) c.cycle)
  have hpush := hnoted.put_push _ hc'
    (traffic_push_writeBacks (r := Request.ofWriteBack m.nextId addr c.cycle) c)
    (hsound.congr rfl rfl rfl rfl) rfl
  exact ⟨_, rfl, rfl, hpush⟩

theorem writeStraightBack_stands (h : m.Stands p x σ) (addr cycle : Nat) :
    Yields (fun _ m' => ∃ r, r.kind = .writeBack ∧ m'.Stands p x (σ.add .memory r))
      (writeStraightBack addr cycle m) := by
  refine Ends.bind (freshId_yields (sendToMemory_yields ?_))
  have hannounced := h.with_nextId.with_expected
    (m.memory.expected.announce (Request.ofWriteBack m.nextId addr cycle).note)
  exact ⟨_, rfl, hannounced.accepting _⟩

theorem takeWhere_of_none {P : Request → Bool} {q : GatedQueue Request}
    (h : ∀ r ∈ q.items, P r = false) : q.takeWhere P = ([], q) := by
  have hfilter : q.items.filter P = [] := by
    rw [List.filter_eq_nil_iff]
    exact fun r hr => by simp [h r hr]
  have hkept : (q.items.filter fun r => !P r) = q.items := by
    rw [List.filter_eq_self]
    exact fun r hr => by simp [h r hr]
  rw [GatedQueue.takeWhere, hfilter, hkept]

section Diverting

variable {line : Nat} (hb : p.topology.base? = some b)
  (hclear : ∀ y ∈ σ.traffic, ¬p.Doomed b line y)

include hb hclear

theorem recallWriteBacks_of_clear (h : m.Stands p x σ) (hj : j ∈ p.topology.tops) {d : Cache}
    (hd : m.caches[j]? = some d) :
    d.recallWriteBacks (p.geometry b).lineSize line = ([], d) := by
  have hbelow : (p.topology.below j).site = .cache b := by rw [Topology.below_top hb hj]; rfl
  have hnone : ∀ s r, p.receiver? s = some (.cache b) → (s, r) ∈ d.traffic j →
      Cache.isWriteBackOf (p.geometry b).lineSize line r = false := by
    intro s r hs hr
    rw [Bool.eq_false_iff, ne_eq, Cache.isWriteBackOf_iff]
    rintro ⟨hkind, hline⟩
    exact hclear (s, r) (mem_scene h (mem_traffic_of_cache hd hr)) ⟨hkind, hs, hline⟩
  have hmade : ∀ r ∈ d.writeBacks.items,
      Cache.isWriteBackOf (p.geometry b).lineSize line r = false := fun r hr =>
    hnone (.writeBacks j) r (by rw [Plan.receiver?, hbelow]) ((mem_traffic d).2 (by simp [hr]))
  have hsent : ∀ r ∈ d.sends.items,
      Cache.isWriteBackOf (p.geometry b).lineSize line r = false := fun r hr =>
    hnone (.sends j) r (by rw [Plan.receiver?, hbelow]) ((mem_traffic d).2 (by simp [hr]))
  rw [Cache.recallWriteBacks, takeWhere_of_none hmade, takeWhere_of_none hsent]
  rfl

theorem recallFrom_of_clear (h : m.Stands p x σ) {ports : List (Side × Nat)}
    (hports : ∀ port ∈ ports, port.2 ∈ p.topology.tops) :
    Yields (fun recalled m' => recalled = [] ∧ m'.Stands p x σ)
      (recallFrom b (p.geometry b).lineSize line ports m) := by
  induction ports generalizing m with
  | nil => exact ⟨rfl, h⟩
  | cons port rest ih =>
    refine Ends.bind (neighbour_yields fun d hne hd => ?_)
    rw [recallWriteBacks_of_clear hb hclear h (hports _ List.mem_cons_self) hd]
    have hsame := h.put_same d hd rfl (h.sound.caches _ d hd) rfl
    refine Ends.bind (setCache_ends (Ends.seq
      (ih hsame fun port hport => hports port (List.mem_cons_of_mem _ hport)) ?_))
    rintro _ m' ⟨rfl, h'⟩
    exact ⟨rfl, h'⟩

theorem divertWriteBacks_of_clear (h : m.Stands p x σ) {addr : Nat}
    (haddr : p.line b addr = line) :
    Yields (fun _ m' => m'.Stands p x σ) (divertWriteBacks b addr m) := by
  obtain ⟨ports, habove, -, htops, -⟩ := Topology.above_base hb
  refine Ends.bind (cacheAt_yields fun c hc => ?_)
  have hsound := h.sound.caches b c hc
  have hneighbours : c.above.neighbours = ports.distinct := by
    rw [hsound.above, habove]
    rfl
  have harrived : ∀ r ∈ c.fills.items,
      Cache.isWriteBackOf (p.geometry b).lineSize line r = false := by
    intro r hr
    rw [Bool.eq_false_iff, ne_eq, Cache.isWriteBackOf_iff]
    rintro ⟨hkind, hline⟩
    have hmem : (.fills b, r) ∈ m.traffic :=
      mem_traffic_of_cache hc ((mem_traffic c).2 (by simp [hr]))
    exact hclear _ (mem_scene h hmem) ⟨hkind, rfl, hline⟩
  dsimp only
  rw [hsound.line_eq, haddr, hsound.geometry, takeWhere_of_none harrived, hneighbours]
  have hsame := h.put_same { c with fills := c.fills } hc rfl hsound rfl
  refine Ends.bind (setCache_ends (Ends.seq (recallFrom_of_clear hb hclear hsame ?_) ?_))
  · rintro ⟨side, j⟩ hport
    exact (htops j).2 ⟨side, hport⟩
  · rintro _ m' ⟨rfl, h'⟩
    exact h'

end Diverting

theorem line_base_of_uniform {lineSize : Nat} (huniform : p.Uniform lineSize)
    (hi : i < p.topology.size) (hb : b < p.topology.size) (line : Nat) :
    p.line i (p.base b line) = line := by
  rw [huniform.line_eq hi, ← huniform.line_eq hb, p.line_base]

/-- While nothing is on its way to a cache, its dirty bits are those of the contents. -/
theorem Stands.dirty?_eq (h : m.Stands p x σ) (hcalm : σ.Calm p) {c : Cache}
    (hc : m.caches[i]? = some c) (line : Nat) :
    (σ.contents p).dirty? p i line = c.tags.lines line := by
  have hi : i < p.topology.size := h.sound.length ▸ (List.getElem?_eq_some_iff.1 hc).1
  rw [Scene.dirty?_contents hcalm h.tidy hi, h.rows_eq hc, ← (h.sound.caches i c hc).geometry,
    TagArray.lines, ← TagArray.row_val]

theorem backInvalidate_stands (h : m.Stands p x σ) (hcalm : σ.Calm p) (addr : Nat) (side : Side)
    (l : Line) :
    Yields (fun _ m' => ∃ σ', m'.Stands p x σ' ∧
        σ.Sheds p σ' ((σ.contents p).withdraw p j (p.line j addr)))
      (backInvalidate j addr side l m) := by
  refine Ends.bind (cacheAt_yields fun d hd => ?_)
  have hsound := h.sound.caches j d hd
  have hj : j < p.topology.size := h.sound.length ▸ (List.getElem?_eq_some_iff.1 hd).1
  split
  · trivial
  refine Ends.bind (Yields.attempt fun result hresult => ?_)
  obtain ⟨dirty, tags⟩ := result
  obtain ⟨hdirty, hturns⟩ := TagArray.backInvalidate_inv hresult
  have hput := h.put_tags hd hturns (hsound.tags.of_backInvalidate hresult) d.expected
  have hnoted := hput.noted (.backInvalidated j addr dirty d.cycle)
  have hheld : (σ.contents p).dirty? p j (p.line j addr) = some dirty := by
    rw [h.dirty?_eq hcalm hd, ← hsound.line_eq, TagArray.Sound.lines_lineOf, ← hdirty,
      TagArray.rowOf_eq]
  have hremoved : σ.Sheds p (σ.turn p j (p.line j addr) LineSet.remove)
      ((σ.turn p j (p.line j addr) LineSet.remove).contents p) := .of_rows p rfl rfl
  rw [Scene.contents_turn_remove hcalm h.tidy hj] at hremoved
  rw [hsound.line_eq] at hnoted
  rw [Contents.withdraw, hheld, Option.elim_some]
  refine Ends.bind (setCache_ends (Ends.bind (record_ends ?_)))
  cases dirty with
  | false => exact ⟨_, hnoted, hremoved⟩
  | true =>
    refine (writeStraightBack_stands hnoted addr d.cycle).mono ?_ fun _ _ => id
    rintro - m' ⟨r, hr, h'⟩
    exact ⟨_, h', hremoved.add hr rfl⟩

section Withdrawing

variable {lineSize victim : Nat} (huniform : p.Uniform lineSize) (hb : b < p.topology.size)

include huniform hb

theorem withdrawFrom_stands (h : m.Stands p x σ) (hcalm : σ.Calm p) (port : Side × Nat)
    (hfills : ∀ j r, (.fills j, r) ∈ σ.traffic → p.line j r.addr ≠ victim) :
    Yields (fun _ m' => ∃ σ', m'.Stands p x σ' ∧
        σ.Sheds p σ' ((σ.contents p).withdraw p port.2 victim))
      (withdrawFrom b (p.base b victim) port m) := by
  obtain ⟨side, j⟩ := port
  refine Ends.bind (neighbour_yields fun d hne hd => ?_)
  have hsound := h.sound.caches j d hd
  have hj : j < p.topology.size := h.sound.length ▸ (List.getElem?_eq_some_iff.1 hd).1
  have hline := line_base_of_uniform huniform hj hb victim
  have hheld := h.dirty?_eq hcalm hd victim
  refine Ends.bind (Ends.attempt_ok (hsound.tags.line?_eq _) ?_)
  rw [hsound.line_eq, hline]
  cases hlines : d.tags.lines victim with
  | some dirty =>
    have hdropped := backInvalidate_stands (j := j) h hcalm (p.base b victim) side
      { tag := victim / d.tags.geometry.numSets, dirty }
    rw [hline] at hdropped
    exact hdropped
  | none =>
    have hawaits : d.awaits (p.base b victim) = false := by
      rw [Cache.awaits, List.any_eq_false]
      intro r hr hwould
      rw [wouldInstall_iff hsound, hline] at hwould
      refine hfills j r (mem_scene h (mem_traffic_of_cache hd ?_)) hwould.2
      exact (mem_traffic d).2 (by simp [hr])
    have hsame : (σ.contents p).withdraw p j victim = σ.contents p := by
      rw [Contents.withdraw, hheld, hlines, Option.elim_none]
    dsimp only [Option.map_none]
    rw [hawaits, hsame]
    exact ⟨σ, h, .refl p σ⟩

theorem withdrawAbove_stands (hbase : p.topology.base? = some b) (h : m.Stands p x σ)
    (hcalm : σ.Calm p)
    (hfills : ∀ j r, (.fills j, r) ∈ σ.traffic → p.line j r.addr ≠ victim) :
    Yields (fun _ m' => ∃ σ', m'.Stands p x σ' ∧
        σ.Sheds p σ' ((σ.contents p).withdrawAll p victim))
      (withdrawAbove b (p.base b victim) m) := by
  obtain ⟨ports, habove, -⟩ := Topology.above_base hbase
  refine Ends.bind (cacheAt_yields fun c hc => ?_)
  have hneighbours : c.above.neighbours = p.topology.ports := by
    rw [(h.sound.caches b c hc).above, habove,
      Topology.ports_of_entry? (Topology.entry?_of_above habove)]
    rfl
  rw [hneighbours, Contents.withdrawAll]
  clear hneighbours hc
  induction p.topology.ports generalizing m σ with
  | nil => exact ⟨σ, h, .refl p σ⟩
  | cons port rest ih =>
    refine Ends.seq (withdrawFrom_stands huniform hb h hcalm port hfills) ?_
    rintro - m' ⟨σ', h', hsheds⟩
    have hrest := ih h' (hsheds.calm hcalm) fun j r hr => hfills j r (hsheds.mem_fills hr)
    rw [hsheds.contents] at hrest
    refine hrest.mono ?_ fun _ _ => id
    rintro - m'' ⟨σ'', h'', hsheds'⟩
    exact ⟨σ'', h'', hsheds.trans hsheds'⟩

end Withdrawing

end Machine

end CacheHierarchy
