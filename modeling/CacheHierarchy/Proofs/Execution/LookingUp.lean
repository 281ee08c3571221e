import CacheHierarchy.Proofs.Execution.Filling

/-!
# The look-up stage

A first-level look-up finds its line, or an outstanding miss on its line to join, or is a miss of
its own. At the base it goes up if the line is there and down if not.
-/

namespace CacheHierarchy.Machine

variable {p : Plan} {m : Machine} {i b now : Nat} {r : Request} {completions : List Completion}

theorem overview_put_tags_push {x : Context} {c : Cache} (hc : m.caches[i]? = some c)
    {tags : TagArray} {lines : Nat → Option Bool} {counters : Counters}
    (h : c.tags.Becomes tags lines counters) (r : Request) :
    (m.put i { c with tags, sends := c.sends.push r }).overview x = { m.overview x with
      traffic := (.sends i, r) ::ₘ (m.overview x).traffic
      lines := Function.update (m.overview x).lines i lines
      counters := Function.update (m.overview x).counters i counters } := by
  have hpush := overview_put_push (x := x) (caches_put_self hc { c with tags })
    { c with tags, sends := c.sends.push r } (traffic_push_sends _) rfl rfl
  rw [put_put, overview_put_tags hc h] at hpush
  exact hpush

theorem overview_outstanding {x : Context} (outstanding : Outstanding) :
    overview { m with outstanding } x = { m.overview x with outstanding } := rfl

theorem lookUpTags_hit {c : Cache} {dirty : Bool} (hi : i ∈ p.topology.tops)
    (hc : m.caches[i]? = some c) (hline : c.tags.lines (p.line i r.addr) = some dirty)
    (h : Tracks p (Context.hold { now, completions } (.lookups i) r) m) :
    Ends (fun _ => Tracks p { now, completions }) (Fails p) (lookUpTags i r m) := by
  have hsound := h.sound.caches i c hc
  have ht := Tracks.traffic_hold m { now, completions } (.lookups i) r
  have hlines := lines_overview (x := Context.hold { now, completions } (.lookups i) r) hc
  obtain ⟨hdemand, -⟩ := (h.reach.orderly.admits _ (mem_of_eq_cons ht)).fits.lookups_top hi
  have hline' := hline
  rw [← hsound.line_eq] at hline'
  obtain ⟨tags, hlookup, hbecomes⟩ := hsound.tags.lookupDemand_hit r.kind hline'
  rw [← c.tags.lookup_demand _ hdemand] at hlookup
  rw [← hlines] at hline
  have hhit := h.reach.step (.hit ht hi hline c.cycle)
  rw [hlines, counters_overview hc, ← hsound.line_eq] at hhit
  have hput : (m.put i { c with tags }).Sound p :=
    h.sound.put (hsound.becomes hbecomes rfl rfl rfl)
  have htracks : Tracks p (Context.hold { now, completions } .finished r.finish)
      ((m.put i { c with tags }).noted (.lookedUp i r true c.cycle)) := by
    refine ⟨hput.congr rfl rfl, ?_⟩
    rw [overview_noted, overview_put_tags hc hbecomes, Tracks.overview_hold]
    exact hhit
  refine Ends.bind (cacheAt_ends hc (Ends.bind (Ends.attempt_ok hlookup ?_)))
  exact Ends.bind (record_ends (Ends.bind (setCache_ends htracks.finish)))

theorem lookUpTags_miss {c : Cache} (hi : i ∈ p.topology.tops) (hc : m.caches[i]? = some c)
    (hline : c.tags.lines (p.line i r.addr) = none)
    (hmark : ∀ e ∈ m.outstanding.entries, e.mark ≠ some ⟨i, p.line i r.addr⟩)
    (h : Tracks p (Context.hold { now, completions } (.lookups i) r) m) :
    Ends (fun _ => Tracks p { now, completions }) (Fails p) (lookUpTags i r m) := by
  have hsound := h.sound.caches i c hc
  have ht := Tracks.traffic_hold m { now, completions } (.lookups i) r
  have hlines := lines_overview (x := Context.hold { now, completions } (.lookups i) r) hc
  obtain ⟨hdemand, -⟩ := (h.reach.orderly.admits _ (mem_of_eq_cons ht)).fits.lookups_top hi
  have hline' := hline
  rw [← hsound.line_eq] at hline'
  have hlookup := hsound.tags.lookupDemand_miss r.kind hline'
  rw [← c.tags.lookup_demand _ hdemand] at hlookup
  have hbecomes := hsound.tags.becomes_counters (c.tags.counters.countLookup false r.kind.isWrite)
  rw [← hlines] at hline
  have hmiss := h.reach.step (.miss ht hi hline hmark c.cycle)
  rw [counters_overview hc, ← Outstanding.markMiss_eq_await h.reach.orderly.nodup] at hmiss
  refine Ends.bind (cacheAt_ends hc (Ends.bind (Ends.attempt_ok hlookup ?_)))
  refine Ends.bind (record_ends (Ends.bind (setCache_ends ?_)))
  have hsound' : Cache.Sound p i { c with
      tags := { c.tags with counters := c.tags.counters.countLookup false r.kind.isWrite }
      sends := c.sends.push { r with isMiss := true } } :=
    hsound.becomes hbecomes rfl rfl rfl
  have hput := h.sound.put hsound'
  refine ⟨hput.congr rfl rfl, ?_⟩
  have hnc : (m.noted (.lookedUp i r false c.cycle)).caches[i]? = some c := hc
  rw [overview_outstanding, overview_put_tags_push hnc hbecomes, update_lines_eq_self hnc,
    hsound.line_eq]
  exact hmiss

theorem tracks_merged {c : Cache} {into : Nat} {outstanding : Outstanding}
    (hi : i ∈ p.topology.tops) (hc : m.caches[i]? = some c)
    (hline : c.tags.lines (p.line i r.addr) = none)
    (hmerge : m.outstanding.merge? i (p.line i r.addr) r.kind = some (into, outstanding))
    (h : Tracks p (Context.hold { now, completions } (.lookups i) r) m) :
    Tracks p (Context.hold { now, completions } .finished r.finish)
      ((Machine.put { m with outstanding } i { c with tags := c.tags.countMerged r.kind }).noted
        (.merged i r into c.cycle)) := by
  have hsound := h.sound.caches i c hc
  have hnodup : m.outstanding.ids.Nodup := h.reach.orderly.nodup
  obtain ⟨⟨e, he, rfl, hmark⟩, rfl⟩ := Outstanding.merge?_eq_some hnodup hmerge
  have ht := Tracks.traffic_hold m { now, completions } (.lookups i) r
  rw [← lines_overview (x := Context.hold { now, completions } (.lookups i) r) hc] at hline
  have hmerged := h.reach.step (.merge ht hi he hmark hline c.cycle)
  rw [counters_overview hc] at hmerged
  have hbecomes := hsound.tags.becomes_countMerged r.kind
  have hsound' : Cache.Sound p i { c with tags := c.tags.countMerged r.kind } :=
    hsound.becomes hbecomes rfl rfl rfl
  have hput := h.sound.put hsound'
  refine ⟨hput.congr rfl rfl, ?_⟩
  have hc' : (Machine.caches { m with outstanding := m.outstanding.join e.id r.kind })[i]? =
      some c := hc
  rw [overview_noted, overview_put_tags hc' hbecomes, update_lines_eq_self hc',
    Tracks.overview_hold]
  exact hmerged

theorem lookUpTop_ends (hi : i ∈ p.topology.tops)
    (h : Tracks p (Context.hold { now, completions } (.lookups i) r) m) :
    Ends (fun _ => Tracks p { now, completions }) (Fails p) (lookUpTop i r m) := by
  obtain ⟨c, hc, hsound⟩ := h.sound.exists_cache (Topology.lt_size_of_mem_tops hi)
  refine Ends.bind (cacheAt_ends hc ?_)
  refine Ends.bind (Ends.attempt_ok (hsound.tags.contains_eq r.addr) ?_)
  rw [hsound.line_eq]
  cases hline : c.tags.lines (p.line i r.addr) with
  | some dirty => exact lookUpTags_hit hi hc hline h
  | none =>
    apply Ends.get_bind
    cases hmerge : m.outstanding.merge? i (p.line i r.addr) r.kind with
    | none => exact lookUpTags_miss hi hc hline (Outstanding.merge?_eq_none hmerge) h
    | some v =>
      obtain ⟨into, outstanding⟩ := v
      have hmerged := tracks_merged hi hc hline hmerge h
      refine Ends.modify_bind (Ends.bind (setCache_ends (Ends.bind (record_ends ?_))))
      exact hmerged.finish

theorem tracks_lookUp {x : Context} {c d d' : Cache} {tags : TagArray} {hit dirty : Bool} {j : Nat}
    {s' : Spot} {readyAt : Nat} (hb : p.topology.base? = some b) (hc : m.caches[b]? = some c)
    (hhit : (c.tags.lines (p.line b r.addr)).isSome = hit)
    (hbecomes : c.tags.Becomes tags c.tags.lines (c.tags.counters.countLookup hit false))
    (h : Tracks p (x.hold (.lookups b) r) m)
    (hroute : Route p (m.overview (x.hold (.lookups b) r)) r (.lookups b) s')
    (hd : ((m.noted (.lookedUp b r hit c.cycle)).put b { c with tags }).caches[j]? = some d)
    (hd' : d'.Sound p j) (htraffic : d'.traffic j = (s', { r with readyAt, dirty }) ::ₘ d.traffic j)
    (htags : d'.tags = d.tags) (hexpected : d'.expected = d.expected) :
    Tracks p x (((m.noted (.lookedUp b r hit c.cycle)).put b { c with tags }).put j d') := by
  have hsound := h.sound.caches b c hc
  have hlooked := h.reach.step (.lookUp (Tracks.traffic_hold m x _ r) hroute readyAt dirty hb
    c.cycle)
  rw [lines_overview hc, counters_overview hc, hhit] at hlooked
  have hnoted : (m.noted (.lookedUp b r hit c.cycle)).Sound p := h.sound.congr rfl rfl
  have hsound' : Cache.Sound p b { c with tags } := hsound.becomes hbecomes rfl rfl rfl
  refine ⟨(hnoted.put hsound').put hd', ?_⟩
  have hnc : (m.noted (.lookedUp b r hit c.cycle)).caches[b]? = some c := hc
  rw [overview_put_push hd d' htraffic htags hexpected, overview_put_tags hnc hbecomes,
    update_lines_eq_self hnc]
  exact hlooked

theorem lookUpBelow_ends {ports : Ports} (hb : p.topology.base? = some b)
    (hports : p.topology.above b = .caches ports)
    (h : Tracks p (Context.hold { now, completions } (.lookups b) r) m) :
    Ends (fun _ => Tracks p { now, completions }) (Fails p) (lookUpBelow b ports r m) := by
  obtain ⟨c, hc, hsound⟩ := h.sound.exists_cache (Topology.lt_size_of_base? hb)
  obtain ⟨ports', hports', hentry, -⟩ := Topology.above_base hb
  obtain rfl : ports = ports' := Above.caches.inj (hports.symm.trans hports')
  have hdemand := (h.reach.orderly.admits _ (mem_of_eq_cons (Tracks.traffic_hold ..))).fits.1
  have hkind := AccessKind.isDemand_belowFirstLevel hdemand
  have hlines := lines_overview (x := Context.hold { now, completions } (.lookups b) r) hc
  refine Ends.bind (cacheAt_ends hc ?_)
  cases hline : c.tags.lines (c.tags.geometry.lineOf r.addr) with
  | some dirty =>
    obtain ⟨tags, hlookup, hbecomes⟩ := hsound.tags.lookupDemand_hit r.kind.belowFirstLevel hline
    rw [← c.tags.lookup_demand _ hkind] at hlookup
    rw [AccessKind.isWrite_belowFirstLevel, Bool.or_false, ← hline, Function.update_eq_self]
      at hbecomes
    rw [hsound.line_eq] at hline
    have hj := Topology.mem_tops_of_entryFor? (hentry r.kind)
    have hne := Topology.top_ne_base hj hb
    obtain ⟨d, hd, hdsound⟩ := h.sound.exists_cache (Topology.lt_size_of_mem_tops hj)
    have hc' := caches_put_self (m := m.noted (.lookedUp b r true c.cycle)) hc { c with tags }
    have hd' := (caches_put_ne (m := m.noted (.lookedUp b r true c.cycle)) { c with tags }
      hne).trans hd
    have hroute := Route.answer (o := m.overview _) hb (.inl rfl) hdemand (hentry r.kind) (by
      rw [hlines, hline]
      exact Option.some_ne_none dirty)
    refine Ends.bind (Ends.attempt_ok hlookup (Ends.bind (record_ends ?_)))
    refine Ends.bind (setCache_ends (sendUp_ends rfl hne hc' hd' fun readyAt => ?_))
    have hdsound' : Cache.Sound p (ports.on r.kind.side)
        { d with fills := d.fills.push { r with readyAt, dirty := false } } :=
      hdsound.congr rfl rfl rfl rfl
    exact (tracks_lookUp hb hc (by rw [hline, Option.isSome_some]) hbecomes h hroute hd' hdsound'
      (traffic_push_fills d) rfl rfl).note _ rfl rfl
  | none =>
    have hlookup := hsound.tags.lookupDemand_miss r.kind.belowFirstLevel hline
    rw [← c.tags.lookup_demand _ hkind, AccessKind.isWrite_belowFirstLevel] at hlookup
    have hbecomes := hsound.tags.becomes_counters (c.tags.counters.countLookup false false)
    rw [hsound.line_eq] at hline
    refine Ends.bind (Ends.attempt_ok hlookup (Ends.bind (record_ends (setCache_ends ?_))))
    have hc' := caches_put_self (m := m.noted (.lookedUp b r false c.cycle)) hc
      { c with tags := { c.tags with counters := c.tags.counters.countLookup false false } }
    have hsound' : Cache.Sound p b { c with
        tags := { c.tags with counters := c.tags.counters.countLookup false false }
        sends := c.sends.push r } :=
      hsound.becomes hbecomes rfl rfl rfl
    have hroute := Route.missBelow (o := m.overview _) hb (by rw [hlines, hline])
    have hsent := tracks_lookUp hb hc (by rw [hline, Option.isSome_none]) hbecomes h hroute hc'
      hsound' (traffic_push_sends _) rfl rfl
    rw [put_put] at hsent
    exact hsent

theorem lookUpOne_ends (hi : i < p.topology.size)
    (h : Tracks p (Context.hold { now, completions } (.lookups i) r) m) :
    Ends (fun _ => Tracks p { now, completions }) (Fails p) (lookUpOne i r m) := by
  obtain ⟨c, hc, hsound⟩ := h.sound.exists_cache hi
  refine Ends.bind (cacheAt_ends hc ?_)
  rw [hsound.above]
  rcases Topology.lt_size_iff.1 hi with htop | hb
  · rw [Topology.above_top htop]
    exact lookUpTop_ends htop h
  · obtain ⟨ports, habove, -⟩ := Topology.above_base hb
    rw [habove]
    exact lookUpBelow_ends hb habove h

end CacheHierarchy.Machine
