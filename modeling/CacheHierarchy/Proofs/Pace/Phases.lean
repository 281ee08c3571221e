import CacheHierarchy.Proofs.Pace.Basic

/-!
# From stage to stage

Nothing happens in a machine between two stages, but what can leave a queue whose stage is over can
do so in the next cycle only. So a machine is on time in the next stage if everything has left that
could, and in the next cycle once all stages are over.
-/

namespace CacheHierarchy

namespace Topology

def Has (t : Topology) : Spot → Prop
  | .lookups i => i < t.size
  | .fills i => i < t.size
  | .sends i => i < t.size
  | .writeBacks i => i < t.size
  | .memory => True
  | .finished => False

/-- No two queues share a stage. -/
theorem stage_inj {t : Topology} {s s' : Spot} (hs : t.Has s) (hs' : t.Has s')
    (h : t.stage s = t.stage s') : s = s' := by
  cases s <;> cases s' <;> simp only [Has, stage] at hs hs' h <;> first | rfl | (congr 1; omega)

theorem clockStage_ne_stage {t : Topology} {s : Spot} (hs : t.Has s) (site : Site) :
    t.clockStage site ≠ t.stage s := by
  cases s <;> cases site <;> simp only [Has, stage, clockStage] at hs ⊢ <;> omega

end Topology

namespace Phase

def leaving (x : Phase) (n : Nat) : Phase := { x with left := some n }

def ended (x : Phase) : Phase := { x with passed := x.passed + 1, left := none }

def recounted (x : Phase) (census : Census) : Phase := { x with left := none, census }

def upTo (x : Phase) (n : Nat) : Phase := { x with passed := n, left := none }

end Phase

variable {t : Timetable} {x y : Phase} {s : Spot} {site : Site} {i : Nat}

namespace Timetable

theorem next_ended (h : t.topology.stage s ≠ x.passed) : t.next x.ended s = t.next x s := by
  have hiff : t.topology.stage s < x.passed + 1 ↔ t.topology.stage s < x.passed := by omega
  simp only [next, Phase.ended, hiff]

theorem clock_ended (h : t.topology.clockStage site ≠ x.passed) :
    t.clock x.ended site = t.clock x site := by
  have hiff : t.topology.clockStage site < x.passed + 1 ↔
      t.topology.clockStage site < x.passed := by
    omega
  simp only [clock, Phase.ended, hiff]

theorem next_ended_self (h : t.topology.stage s = x.passed) : t.next x.ended s = x.now + 1 := by
  simp only [next, Phase.ended, h, Nat.lt_succ_self, if_true]

theorem clock_ended_self (h : t.topology.clockStage site = x.passed) :
    t.clock x.ended site = t.clock x site + 1 := by
  simp only [clock, Phase.ended, h, Nat.lt_succ_self, lt_irrefl, if_true, if_false, Nat.add_zero]

theorem clock_le_ended : t.clock x site ≤ t.clock x.ended site := by
  by_cases h : t.topology.clockStage site = x.passed
  · exact (Nat.le_succ _).trans_eq (t.clock_ended_self h).symm
  · exact (t.clock_ended h).ge

end Timetable

theorem Timetable.Admits.leaving {r : Request} (h : t.Admits x s r) (n : Nat) :
    t.Admits (x.leaving n) s r :=
  ⟨h.next_le, h.le_due, h.le_horizon, h.issued, h.carries⟩

theorem GatedQueue.Paced.later {q : GatedQueue Request} (h : q.Paced t x s)
    (hclock : t.clock x s.site ≤ t.clock y s.site)
    (hnext : ∀ r ∈ q.items, t.next y s ≤ s.leavesAt r)
    (hleft : ∀ n, y.left = some n → t.topology.stage s = y.passed → q.length ≤ n) :
    q.Paced t y s where
  admits r hr := by
    obtain ⟨-, hdue, hhorizon, hissued, hcarries⟩ := h.admits r hr
    exact ⟨hnext r hr, hdue, hhorizon.trans (Nat.add_le_add_right hclock _), hissued, hcarries⟩
  sorted := h.sorted
  left := hleft

namespace Machine.Paced

variable {m m' : Machine}

/-- What waits in a machine is on time. -/
theorem admits (h : m.Paced t x) (hs : s ≠ .finished) {r : Request} (hr : r ∈ m.itemsAt s) :
    t.topology.Has s ∧ t.Admits x s r := by
  have hcache : ∀ {i} {f : Cache → List Request}, r ∈ m.view f [] i →
      ∃ c, m.caches[i]? = some c ∧ i < t.topology.size ∧ c.Paced t x i ∧ r ∈ f c := by
    intro i f hr
    unfold view at hr
    cases hc : m.caches[i]? with
    | none => simp [hc] at hr
    | some c => exact ⟨c, rfl, h.lt_size hc, h.caches i c hc, by simpa [hc] using hr⟩
  cases s with
  | memory => exact ⟨trivial, h.queue.admits r hr⟩
  | finished => exact absurd rfl hs
  | lookups i =>
    obtain ⟨c, -, hi, hc, hr⟩ := hcache hr
    exact ⟨hi, hc.lookups.admits r hr⟩
  | fills i =>
    obtain ⟨c, -, hi, hc, hr⟩ := hcache hr
    exact ⟨hi, hc.fills.admits r hr⟩
  | sends i =>
    obtain ⟨c, -, hi, hc, hr⟩ := hcache hr
    exact ⟨hi, hc.sends.admits r hr⟩
  | writeBacks i =>
    obtain ⟨c, -, hi, hc, hr⟩ := hcache hr
    exact ⟨hi, hc.writeBacks.admits r hr⟩

/-- Time goes by, and clocks advance. -/
theorem later (h : m.Paced t x) (hlength : m'.caches.length = m.caches.length)
    (hcaches : ∀ (i : Nat) (c' : Cache), m'.caches[i]? = some c' →
      ∃ c, m.caches[i]? = some c ∧ c' = { c with cycle := t.clock y (.cache i) })
    (hmemory : m'.memory = { m.memory with cycle := t.clock y .memory })
    (hclock : ∀ site, t.clock x site ≤ t.clock y site)
    (hnext : ∀ s, s ≠ .finished → ∀ r ∈ m.itemsAt s, t.next y s ≤ s.leavesAt r)
    (hleft : ∀ s n, y.left = some n → s ≠ .finished → t.topology.stage s = y.passed →
      (m.itemsAt s).length ≤ n)
    (hfinished : ∀ r ∈ m'.finished, y.now ≤ r.issuedAt + t.travel .finished)
    (hcensus : m'.census = y.census) : m'.Paced t y where
  length := hlength.trans h.length
  caches i c' hc' := by
    obtain ⟨c, hc, rfl⟩ := hcaches i c' hc'
    have hpaced := h.caches i c hc
    have hqueue : ∀ (s : Spot) (q : GatedQueue Request), s ≠ .finished → m.itemsAt s = q.items →
        q.Paced t x s → q.Paced t y s := fun s q hs hitems hq =>
      hq.later (hclock _) (hitems ▸ hnext s hs) fun n hn hstage =>
        (congrArg List.length hitems).symm.trans_le (hleft s n hn hs hstage)
    exact
      { above := hpaced.above
        below := hpaced.below
        latency := hpaced.latency
        cycle := rfl
        lookups := hqueue _ _ Spot.noConfusion (view_eq hc _ _) hpaced.lookups
        fills := hqueue _ _ Spot.noConfusion (view_eq hc _ _) hpaced.fills
        sends := hqueue _ _ Spot.noConfusion (view_eq hc _ _) hpaced.sends
        writeBacks := hqueue _ _ Spot.noConfusion (view_eq hc _ _) hpaced.writeBacks }
  above := by rw [hmemory, h.above]
  latency := by rw [hmemory, h.latency]
  cycle := by rw [hmemory]
  queue := by
    rw [hmemory]
    exact h.queue.later (hclock _) (hnext .memory Spot.noConfusion) fun n hn hstage =>
      hleft .memory n hn Spot.noConfusion hstage
  finished := hfinished
  census := hcensus

theorem pass (h : m.Paced t x) (hclock : ∀ site, t.clock y site = t.clock x site)
    (hnext : ∀ s, s ≠ .finished → ∀ r ∈ m.itemsAt s, t.next y s ≤ s.leavesAt r)
    (hleft : ∀ s n, y.left = some n → s ≠ .finished → t.topology.stage s = y.passed →
      (m.itemsAt s).length ≤ n)
    (hfinished : ∀ r ∈ m.finished, y.now ≤ r.issuedAt + t.travel .finished)
    (hcensus : x.census = y.census) : m.Paced t y := by
  refine h.later rfl (fun i c hc => ⟨c, hc, ?_⟩) ?_ (fun site => (hclock site).ge) hnext hleft
    hfinished (h.census.trans hcensus)
  · rw [hclock, ← (h.caches i c hc).cycle]
  · rw [hclock, ← h.cycle]

theorem recount (h : m.Paced t x) (outstanding : Outstanding) (journal : List Event)
    {finished : List Request} (hfinished : ∀ r ∈ finished, r ∈ m.finished) :
    Machine.Paced t (x.recounted ⟨outstanding.length, journal.countP Event.isRetired⟩)
      { m with outstanding, finished, journal } := by
  refine h.later rfl (fun i c hc => ⟨c, hc, ?_⟩) ?_ (fun _ => le_rfl)
    (fun s hs r hr => (h.admits hs hr).2.next_le) (fun _ _ hn => nomatch hn)
    (fun r hr => h.finished r (hfinished r hr)) rfl
  · have hcycle : c.cycle = t.clock x (.cache i) := (h.caches i c hc).cycle
    exact congrArg (fun cycle => { c with cycle }) hcycle
  · have hcycle : m.memory.cycle = t.clock x .memory := h.cycle
    exact congrArg (fun cycle => { m.memory with cycle }) hcycle

/-- The requests in a queue are counted when its stage comes. -/
theorem leaving (h : m.Paced t x) (hs : t.topology.Has s) (hstage : x.passed = t.topology.stage s)
    {n : Nat} (hn : (m.itemsAt s).length ≤ n) : m.Paced t (x.leaving n) := by
  refine h.pass (fun _ => rfl) (fun s' hs' r hr => (h.admits hs' hr).2.next_le) ?_ h.finished rfl
  rintro s' _ ⟨⟩ hs' hstage'
  cases hitems : m.itemsAt s' with
  | nil => exact Nat.zero_le n
  | cons r rest =>
    have hhas := (h.admits hs' (hitems ▸ List.mem_cons_self)).1
    rw [← hitems, ← Topology.stage_inj hs hhas (hstage.symm.trans hstage'.symm)]
    exact hn

theorem ended (h : m.Paced t x) (hs : t.topology.Has s) (hstage : x.passed = t.topology.stage s)
    (hclear : ∀ r ∈ m.itemsAt s, x.now < s.leavesAt r) : m.Paced t x.ended := by
  refine h.pass (fun site => ?_) (fun s' hs' r hr => ?_) (fun _ _ hn => nomatch hn)
    h.finished rfl
  · exact t.clock_ended (hstage ▸ Topology.clockStage_ne_stage hs site)
  · obtain ⟨hhas, hadmits⟩ := h.admits hs' hr
    by_cases heq : t.topology.stage s' = x.passed
    · obtain rfl := Topology.stage_inj hhas hs (heq.trans hstage)
      rw [t.next_ended_self heq]
      exact hclear r hr
    · rw [t.next_ended heq]
      exact hadmits.next_le

/-- Nothing can leave a queue while a clock advances. -/
theorem next_ended_le (h : m.Paced t x) (hstage : x.passed = t.topology.clockStage site) :
    ∀ s, s ≠ .finished → ∀ r ∈ m.itemsAt s, t.next x.ended s ≤ s.leavesAt r := fun s hs r hr => by
  obtain ⟨hhas, hadmits⟩ := h.admits hs hr
  rw [t.next_ended (hstage ▸ (Topology.clockStage_ne_stage hhas site).symm)]
  exact hadmits.next_le

theorem newCycle (h : m.Paced t (x.upTo (5 * t.topology.size + 2))) (hfinished : m.finished = []) :
    m.Paced t { now := x.now + 1, census := x.census } := by
  have hclock : ∀ site, t.topology.clockStage site < 5 * t.topology.size + 2 →
      t.clock { now := x.now + 1, census := x.census } site =
        t.clock (x.upTo (5 * t.topology.size + 2)) site := fun site hsite =>
    (congrArg (x.now + ·) (if_pos hsite)).symm
  refine h.later rfl (fun i c hc => ⟨c, hc, ?_⟩) ?_ (fun site => ?_) (fun s hs r hr => ?_)
    (fun _ _ hn => nomatch hn) (fun r hr => ?_) h.census
  · have hi := h.lt_size hc
    rw [hclock, ← (h.caches i c hc).cycle]
    simp only [Topology.clockStage]
    omega
  · rw [hclock _ (Nat.lt_succ_self _), ← h.cycle]
  · exact (t.clock_le _ _).trans (Nat.le_add_right _ _)
  · obtain ⟨hhas, hadmits⟩ := h.admits hs hr
    have hover : t.topology.stage s < 5 * t.topology.size + 2 := by
      cases s <;> simp only [Topology.Has, Topology.stage] at hhas ⊢ <;> omega
    exact (congrArg (x.now + ·) (if_pos hover)).symm.trans_le hadmits.next_le
  · rw [hfinished] at hr
    cases hr

end Machine.Paced

end CacheHierarchy
