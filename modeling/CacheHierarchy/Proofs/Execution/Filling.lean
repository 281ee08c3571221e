import CacheHierarchy.Proofs.Execution.Repairs
import CacheHierarchy.Proofs.Execution.Withdrawals

/-!
# The fill stage

A request leaves the fill queue of a cache: a write-back is absorbed by the base, a demand request
completes at the first level, or goes up from the base and has its line installed there. The one
fault that does not come from the size of a word is a write-back whose line the base does not hold.
-/

namespace CacheHierarchy.Machine

variable {p : Plan} {m : Machine} {i b now : Nat} {r : Request} {completions : List Completion}

theorem absorb_ends (hb : p.topology.base? = some b) (hr : r.kind = .writeBack)
    (h : Tracks p (Context.hold { now, completions } (.fills b) r) m) :
    Ends (fun _ => Tracks p { now, completions }) (Fails p) (absorb b r m) := by
  obtain ⟨c, hc, hsound⟩ := h.sound.exists_cache (Topology.lt_size_of_base? hb)
  obtain ⟨ports, habove, -⟩ := Topology.above_base hb
  have htop : c.isTop = false := by
    rw [Cache.isTop, hsound.above, habove]
    rfl
  have ht := Tracks.traffic_hold m { now, completions } (.fills b) r
  have hmem :
      (.fills b, r) ∈ (m.overview (Context.hold { now, completions } (.fills b) r)).traffic := by
    rw [ht]
    exact Multiset.mem_cons_self _ _
  have hlines := lines_overview (x := Context.hold { now, completions } (.fills b) r) hc
  refine Ends.bind (cacheAt_ends hc ?_)
  rw [htop]
  cases hline : c.tags.lines (p.line b r.addr) with
  | none =>
    refine Ends.bind (Ends.attempt_error (hsound.tags.absorb_miss ?_) ?_)
    · rw [hsound.line_eq]
      exact hline
    · refine .inr ⟨_, _, rfl, b, _, hb, h.reach, rfl, r, hmem, hr, ?_⟩
      rw [hlines]
      exact hline
  | some dirty =>
    have hline' := hline
    rw [← hsound.line_eq] at hline'
    obtain ⟨tags, habsorb, hbecomes⟩ := hsound.tags.absorb_hit hline'
    have hexpected := h.reach.orderly.mem_expected hmem hr rfl
    rw [expected_overview hc] at hexpected
    obtain ⟨note, expected, hsettle, -, hids⟩ := WriteBackLedger.settle?_of_mem hexpected
    rw [← hlines] at hline
    have habsorbed := h.reach.step (.absorb ht hr hb hline c.cycle)
    rw [hlines, ← hsound.line_eq] at habsorbed
    have hput : (m.put b { c with tags, expected }).Sound p :=
      h.sound.put (hsound.becomes hbecomes rfl rfl rfl)
    refine Ends.bind (Ends.attempt_ok habsorb ?_)
    rw [hsettle]
    refine Ends.bind (setCache_ends (record_ends ?_))
    refine ⟨hput.congr rfl rfl, ?_⟩
    rw [overview_noted, overview_put_settled hc hbecomes hids, update_counters_eq_self hc]
    exact habsorbed

theorem fillBypassed_ends (hi : i ∈ p.topology.tops) (hbypass : r.bypass = true)
    {kind : AccessKind}
    (hkind : kind = (m.overview (Context.hold { now, completions } (.fills i) r)).kindOf r)
    (h : Tracks p (Context.hold { now, completions } (.fills i) r) m) :
    Ends (fun _ => Tracks p { now, completions }) (Fails p) (fillBypassed i r kind m) := by
  obtain ⟨c, hc, hsound⟩ := h.sound.exists_cache (Topology.lt_size_of_mem_tops hi)
  have ht := Tracks.traffic_hold m { now, completions } (.fills i) r
  have hbypassed := h.reach.step (.bypass ht hi hbypass rfl c.cycle)
  have hbecomes := hsound.tags.becomes_countBypassed kind.isWrite
  have hput : (m.put i { c with tags := c.tags.countBypassed kind.isWrite }).Sound p :=
    h.sound.put (hsound.becomes hbecomes rfl rfl rfl)
  have hbase : c.tags.geometry.lineOf r.addr * c.tags.geometry.lineSize =
      p.base i (p.line i r.addr) := by
    rw [hsound.line_eq, hsound.geometry]
    rfl
  rw [← hkind, counters_overview hc, ← hbase] at hbypassed
  have htracks : Tracks p (Context.hold {
      now
      completions
      debt := if kind.isWrite then
          some { via := none, addr := c.tags.geometry.lineOf r.addr * c.tags.geometry.lineSize }
        else none } .finished r.finish)
      ((m.put i { c with tags := c.tags.countBypassed kind.isWrite }).noted
        (.bypassed i r kind c.cycle)) := by
    refine ⟨hput.congr rfl rfl, ?_⟩
    rw [overview_noted, overview_put_tags hc hbecomes, update_lines_eq_self hc,
      Tracks.overview_hold]
    exact hbypassed
  refine Ends.bind (cacheAt_ends hc (Ends.bind (setCache_ends (Ends.bind (record_ends ?_)))))
  cases hwrite : kind.isWrite with
  | false =>
    rw [hwrite] at htracks
    exact htracks.finish
  | true =>
    rw [hwrite, if_pos rfl] at htracks
    refine Ends.seq (writeStraightBack_ends
      (x := Context.hold { now, completions } .finished r.finish) htracks) ?_
    intro _ m' h'
    exact h'.finish

/-- A first-level cache gives a line up on the way of completing a request. A dirty one is written
back, which an instruction cache of its own never has to do. -/
theorem evictTop_ends {c : Cache} {v : Nat} {dirty : Bool} (hi : i ∈ p.topology.tops)
    (hside : dirty = true → (c.side == some .instruction) = false)
    (h : Tracks p (Context.hold {
      now
      completions
      debt := if dirty then some { via := some i, addr := p.base i v } else none }
      .finished r.finish) m) :
    Ends (fun _ => Tracks p { now, completions }) (Fails p) ((do
      record (.evicted i (p.base i v) dirty c.cycle)
      if dirty then
        if c.side == some .instruction then
          throw (.dirtyInstructionVictim c.name (p.base i v))
        writeBack i (p.base i v)
      finish r : Action Unit) m) := by
  have hnoted := h.note (.evicted i (p.base i v) dirty c.cycle) rfl rfl
  refine Ends.bind (record_ends ?_)
  cases dirty with
  | false => exact hnoted.finish
  | true =>
    rw [hside rfl]
    refine Ends.seq (writeBack_ends (x := Context.hold { now, completions } .finished r.finish)
      (Topology.lt_size_of_mem_tops hi) hnoted) ?_
    intro _ m' h'
    exact h'.finish

theorem fillInstalled_ends (hi : i ∈ p.topology.tops) (hbypass : r.bypass = false)
    {kind : AccessKind}
    (hkind : kind = (m.overview (Context.hold { now, completions } (.fills i) r)).kindOf r)
    (h : Tracks p (Context.hold { now, completions } (.fills i) r) m) :
    Ends (fun _ => Tracks p { now, completions }) (Fails p) (fillInstalled i r kind m) := by
  obtain ⟨c, hc, hsound⟩ := h.sound.exists_cache (Topology.lt_size_of_mem_tops hi)
  have ht := Tracks.traffic_hold m { now, completions } (.fills i) r
  have hmem := mem_of_eq_cons ht
  have hlines := lines_overview (x := Context.hold { now, completions } (.fills i) r) hc
  have ho := h.reach.orderly
  obtain ⟨hdemand, hentry, hmiss⟩ := (ho.admits _ hmem).fits.fills_top hi
  obtain ⟨e, -, -, hdescribes, hkindOf⟩ := ho.exists_kindOf hmem hdemand
  rw [← hkind] at hkindOf
  have habsent := ho.absent _ hmem (fun h => Spot.noConfusion h) hdemand hmiss i hentry
  rw [hlines] at habsent
  obtain ⟨tags, lines, victim, hfill, hbecomes, hdisplaces, hevict, -⟩ :=
    hsound.fill_fresh (hkindOf ▸ hdescribes.isDemand) (ho.admits _ hmem).addr_lt habsent
  have hbase := hsound.victim_base_lt hdisplaces
  rw [hkind, ← hlines] at hdisplaces
  have hinstalled := h.reach.step (.install ht hi hbypass rfl rfl hdisplaces hbase c.cycle)
  rw [← hkind, counters_overview hc] at hinstalled
  have hput : (m.put i { c with tags }).Sound p :=
    h.sound.put (hsound.becomes hbecomes rfl rfl rfl)
  have htracks : Tracks p (Context.hold {
      now
      completions
      debt := (victim.filter Prod.snd).map fun v => { via := some i, addr := p.base i v.1 } }
      .finished r.finish) ((m.put i { c with tags }).noted (.filled i r kind c.cycle)) := by
    refine ⟨hput.congr rfl rfl, ?_⟩
    rw [overview_noted, overview_put_tags hc hbecomes, Tracks.overview_hold]
    exact hinstalled
  refine Ends.bind (cacheAt_ends hc (Ends.bind (Ends.attempt_ok hfill ?_)))
  refine Ends.bind (setCache_ends (Ends.bind (record_ends ?_)))
  rw [hevict]
  cases victim with
  | none => exact htracks.finish
  | some v =>
    obtain ⟨v, dirty⟩ := v
    have hside : dirty = true → (c.side == some .instruction) = false := by
      rintro rfl
      rw [hsound.side, beq_eq_false_iff_ne]
      intro hinst
      exact ho.clean i hinst v (hdisplaces.victim_eq rfl).1
    refine evictTop_ends hi hside ?_
    cases dirty <;> exact htracks

theorem fillTop_ends (hi : i ∈ p.topology.tops)
    (h : Tracks p (Context.hold { now, completions } (.fills i) r) m) :
    Ends (fun _ => Tracks p { now, completions }) (Fails p) (fillTop i r m) := by
  apply Ends.bind
  cases hbypass : r.bypass with
  | true => exact fillBypassed_ends hi hbypass rfl h
  | false => exact fillInstalled_ends hi hbypass rfl h

theorem sendUp_ends {Q : Unit → Machine → Prop} {ports : Ports} {j : Nat} {c d : Cache}
    (hj : ports.on r.kind.side = j) (hne : j ≠ i) (hc : m.caches[i]? = some c)
    (hd : m.caches[j]? = some d)
    (h : ∀ readyAt, Q () ((m.put j { d with fills := d.fills.push { r with readyAt } }).noted
      (.sentUp i j r c.cycle))) :
    Ends Q (Fails p) (sendUp i ports r m) := by
  subst hj
  refine Ends.bind (handFill_ends hne hd fun readyAt => ?_)
  have hc' : (m.put (ports.on r.kind.side)
      { d with fills := d.fills.push { r with readyAt } }).caches[i]? = some c := by
    rw [caches_put_ne _ hne.symm, hc]
  exact Ends.bind (cacheAt_ends hc' (record_ends (h readyAt)))

/-- The base gives a line up: if it is dirty it is written back, the write-backs of it that are on
their way are diverted, and the caches above withdraw it. -/
theorem evictBelow_ends {v cycle : Nat} {dirty : Bool} (hb : p.topology.base? = some b)
    (h : Tracks p {
      now
      completions
      debt := if dirty then some { via := some b, addr := p.base b v } else none
      repair := some { line := v } } m) :
    Ends (fun _ => Tracks p { now, completions }) (Fails p) ((do
      record (.evicted b (p.base b v) dirty cycle)
      if dirty then writeBack b (p.base b v)
      divertWriteBacks b (p.base b v)
      withdrawAbove b (p.base b v)) m) := by
  have hnoted := h.note (.evicted b (p.base b v) dirty cycle) rfl rfl
  have hrest : ∀ m', Tracks p { now, completions, repair := some { line := v } } m' →
      Ends (fun _ => Tracks p { now, completions }) (Fails p)
        ((do divertWriteBacks b (p.base b v); withdrawAbove b (p.base b v)) m') := by
    intro m' h'
    apply Ends.seq (divertWriteBacks_ends hb rfl rfl rfl h')
    intro _ m'' h''
    exact withdrawAbove_ends hb rfl rfl h''
  refine Ends.bind (record_ends ?_)
  cases dirty with
  | false => exact hrest _ hnoted
  | true =>
    refine Ends.seq (writeBack_ends (x := { now, completions, repair := some { line := v } })
      (Topology.lt_size_of_base? hb) hnoted) ?_
    intro _ m' h'
    exact hrest m' h'

/-- The base installs the line of a request that it has just handed up to cache `j`, and what
follows from the line that it displaces is done at once. -/
theorem installBelow_ends {j readyAt : Nat} {c d : Cache} (hb : p.topology.base? = some b)
    (hr : r.kind.isDemand = true) (hj : p.topology.entryFor? r.kind = some j)
    (hc : m.caches[b]? = some c) (hd : m.caches[j]? = some d)
    (hline : c.tags.lines (p.line b r.addr) = none)
    (h : Tracks p (Context.hold { now, completions } (.fills b) r) m) :
    Ends (fun _ => Tracks p { now, completions }) (Fails p) ((do
      let (_, tags) ← attempt (c.tags.fill r.addr r.kind.belowFirstLevel)
      setCache b { c with tags }
      record (.installed b r c.cycle)
      if let some evicted := tags.lastEviction then
        record (.evicted b evicted.addr evicted.dirty c.cycle)
        if evicted.dirty then writeBack b evicted.addr
        divertWriteBacks b evicted.addr
        withdrawAbove b evicted.addr)
      (m.put j { d with fills := d.fills.push { r with readyAt } })) := by
  have hne := Topology.top_ne_base (Topology.mem_tops_of_entryFor? hj) hb
  have hsound := h.sound.caches b c hc
  have hdsound : Cache.Sound p j { d with fills := d.fills.push { r with readyAt } } :=
    (h.sound.caches j d hd).congr rfl rfl rfl rfl
  have hc' : (m.put j { d with fills := d.fills.push { r with readyAt } }).caches[b]? = some c :=
    (caches_put_ne _ hne.symm).trans hc
  have ht := Tracks.traffic_hold m { now, completions } (.fills b) r
  have hlines := lines_overview (x := Context.hold { now, completions } (.fills b) r) hc
  have haddr := (h.reach.orderly.admits _ (mem_of_eq_cons ht)).addr_lt
  obtain ⟨tags, lines, victim, hfill, hbecomes, hdisplaces, hevict, hfull⟩ :=
    hsound.fill_fresh (AccessKind.isDemand_belowFirstLevel hr) haddr hline
  have hbase := hsound.victim_base_lt hdisplaces
  rw [← hlines] at hfull
  rw [← hlines, AccessKind.isWrite_belowFirstLevel] at hdisplaces
  have hplaced := h.reach.step
    (.place ht hb hr hj rfl rfl hdisplaces hbase readyAt c.cycle hfull)
  rw [counters_overview hc] at hplaced
  have hput : ((m.put j { d with fills := d.fills.push { r with readyAt } }).put b
      { c with tags }).Sound p :=
    (h.sound.put hdsound).put (hsound.becomes hbecomes rfl rfl rfl)
  have htracks : Tracks p {
      now
      completions
      debt := (victim.filter Prod.snd).map fun v => { via := some b, addr := p.base b v.1 }
      repair := victim.map fun v => { line := v.1 } }
      (((m.put j { d with fills := d.fills.push { r with readyAt } }).put b { c with tags }).noted
        (.installed b r c.cycle)) := by
    refine ⟨hput.congr rfl rfl, ?_⟩
    rw [overview_noted, overview_put_tags hc' hbecomes,
      overview_put_push hd _ (traffic_push_fills d) (by rfl) (by rfl)]
    exact hplaced
  refine Ends.bind (Ends.attempt_ok hfill ?_)
  refine Ends.bind (setCache_ends (Ends.bind (record_ends ?_)))
  rw [hevict]
  cases victim with
  | none => exact htracks
  | some v =>
    obtain ⟨v, dirty⟩ := v
    refine evictBelow_ends hb ?_
    cases dirty <;> exact htracks

theorem fillBelow_ends {ports : Ports} (hb : p.topology.base? = some b)
    (hr : r.kind.isDemand = true) (hports : p.topology.above b = .caches ports)
    (h : Tracks p (Context.hold { now, completions } (.fills b) r) m) :
    Ends (fun _ => Tracks p { now, completions }) (Fails p) (fillBelow b ports r m) := by
  obtain ⟨c, hc, hsound⟩ := h.sound.exists_cache (Topology.lt_size_of_base? hb)
  obtain ⟨ports', hports', hentry, -⟩ := Topology.above_base hb
  obtain rfl : ports = ports' := Above.caches.inj (hports.symm.trans hports')
  have hj := Topology.mem_tops_of_entryFor? (hentry r.kind)
  have hne := Topology.top_ne_base hj hb
  obtain ⟨d, hd, hdsound⟩ := h.sound.exists_cache (Topology.lt_size_of_mem_tops hj)
  have hsent := h.note (.sentUp b (ports.on r.kind.side) r c.cycle) rfl rfl
  set n := m.noted (.sentUp b (ports.on r.kind.side) r c.cycle)
  have hnc : n.caches[b]? = some c := hc
  refine Ends.bind (sendUp_ends rfl hne hc hd fun readyAt => ?_)
  have hc' : (m.put (ports.on r.kind.side)
      { d with fills := d.fills.push { r with readyAt } }).caches[b]? = some c :=
    (caches_put_ne _ hne.symm).trans hc
  refine Ends.bind (cacheAt_ends hc' ?_)
  refine Ends.bind (Ends.attempt_ok (hsound.tags.contains_eq r.addr) ?_)
  rw [hsound.line_eq]
  cases hline : c.tags.lines (p.line b r.addr) with
  | none => exact installBelow_ends (m := n) hb hr (hentry r.kind) hnc hd hline hsent
  | some dirty =>
    refine record_ends (Tracks.note ?_ _ rfl rfl)
    refine hsent.handTo (.answer hb (.inr rfl) hr (hentry r.kind) ?_) (fun _ => Spot.noConfusion)
      Spot.noConfusion hd (hdsound.congr rfl rfl rfl rfl) (traffic_push_fills d) rfl rfl
    rw [lines_overview hnc, hline]
    exact Option.some_ne_none dirty

theorem fillOne_ends (hi : i < p.topology.size)
    (h : Tracks p (Context.hold { now, completions } (.fills i) r) m) :
    Ends (fun _ => Tracks p { now, completions }) (Fails p) (fillOne i r m) := by
  obtain ⟨c, hc, hsound⟩ := h.sound.exists_cache hi
  have hfits := (h.reach.orderly.admits _ (mem_of_eq_cons (Tracks.traffic_hold ..))).fits
  unfold fillOne
  split
  · rename_i hkind
    rw [AccessKind.isWriteBack_iff] at hkind
    rcases hfits with hpass | ⟨-, hb⟩
    · exact absurd hkind (Request.ne_writeBack hpass.isDemand)
    · exact absorb_ends hb hkind h
  · rename_i hkind
    have hdemand : r.kind.isDemand = true := by
      rcases hfits with hpass | ⟨hwriteBack, -⟩
      · exact hpass.isDemand
      · exact absurd (AccessKind.isWriteBack_iff.2 hwriteBack) hkind
    refine Ends.bind (cacheAt_ends hc ?_)
    rw [hsound.above]
    rcases Topology.lt_size_iff.1 hi with htop | hb
    · rw [Topology.above_top htop]
      exact fillTop_ends htop h
    · obtain ⟨ports, habove, -⟩ := Topology.above_base hb
      rw [habove]
      exact fillBelow_ends hb hdemand habove h

end CacheHierarchy.Machine
