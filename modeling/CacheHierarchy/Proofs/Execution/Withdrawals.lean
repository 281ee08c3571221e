import CacheHierarchy.Proofs.Execution.WriteBacks

/-!
# Withdrawing a line from above

Each cache above the base gives up a line that the base has displaced. A resident copy is dropped,
and written straight back if it is dirty; where there is none, a fill of the line that is queued is
marked, which changes the traffic in place.
-/

namespace CacheHierarchy.Machine

variable {p : Plan} {m : Machine} {b j now addr : Nat} {d : Cache} {completions : List Completion}

section Overtaking

variable (hd : m.caches[j]? = some d) (hsound : d.Sound p j)

include hsound in
theorem wouldInstall_iff {r : Request} : d.wouldInstall addr r = true ↔
    r.kind ≠ .writeBack ∧ p.line j r.addr = p.line j addr := by
  rw [Cache.wouldInstall, Bool.and_eq_true, Bool.not_eq_true', ← Bool.not_eq_true,
    AccessKind.isWriteBack_iff, Request.isOnLine, beq_iff_eq, hsound.geometry]
  rfl

theorem map_overtake_of_ne {t : Multiset (Spot × Request)} (h : ∀ r, (.fills j, r) ∉ t) :
    t.map (p.overtake j addr) = t := by
  refine (Multiset.map_congr rfl ?_).trans (Multiset.map_id t)
  rintro ⟨s, r⟩ hr
  rw [Plan.overtake, if_neg]
  · rfl
  · rintro ⟨rfl, -⟩
    exact h r hr

include hd hsound

theorem traffic_bypassFills :
    (m.put j (d.bypassFills addr)).traffic = m.traffic.map (p.overtake j addr) := by
  have hempty := traffic_eq_put_add hd { d with fills := {} }
    (u := (d.fills.items.map fun r => (.fills j, r) : List (Spot × Request))) (by
      simp only [Cache.traffic, List.map_nil, Multiset.coe_nil, zero_add]
      ac_rfl)
  have hfull := traffic_put_add (caches_put_self hd { d with fills := {} })
    (d.bypassFills addr)
    (u := ((d.bypassFills addr).fills.items.map fun r => (.fills j, r) :
      List (Spot × Request))) (by
      simp only [Cache.traffic, Cache.bypassFills, List.map_nil, Multiset.coe_nil, zero_add]
      ac_rfl)
  rw [put_put] at hfull
  rw [hfull, hempty, Multiset.map_add, Multiset.map_coe, List.map_map, map_overtake_of_ne]
  · congr 2
    rw [Cache.bypassFills, GatedQueue.items_map, List.map_map]
    refine List.map_congr_left fun r _ => ?_
    simp only [Function.comp_apply, Plan.overtake, true_and, ← wouldInstall_iff hsound]
    split <;> rfl
  · intro r hr
    cases mem_fills_of_mem_traffic (caches_put_self hd { d with fills := {} }) hr

theorem map_overtake_of_not_awaits (h : d.awaits addr = false) :
    m.traffic.map (p.overtake j addr) = m.traffic := by
  refine (Multiset.map_congr rfl ?_).trans (Multiset.map_id _)
  rintro ⟨s, r⟩ hr
  rw [Plan.overtake, if_neg]
  · rfl
  · rintro ⟨rfl, hr'⟩
    have hmem := mem_fills_of_mem_traffic hd hr
    rw [Cache.awaits, List.any_eq_false] at h
    exact h r hmem ((wouldInstall_iff hsound).2 hr')

end Overtaking

theorem backInvalidate_ends {ρ : Repair} {side : Side} {l : Line} (hb : p.topology.base? = some b)
    (hj : j ∈ p.topology.tops) (hd : m.caches[j]? = some d)
    (hside : side = .instruction → p.topology.side j = some .instruction)
    (haddr : addr = p.base b ρ.line) (hline : d.tags.lines (p.line j addr) = some l.dirty)
    (h : Tracks p { now, completions, repair := some ρ } m) :
    Ends (fun _ => Tracks p
        { now, completions, repair := some { ρ with withdrawn := j :: ρ.withdrawn } })
      (Fails p) (backInvalidate j addr side l m) := by
  have hdsound := h.sound.caches j d hd
  have hline' := hline
  rw [← hdsound.line_eq] at hline'
  obtain ⟨tags, hdrop, hbecomes⟩ := hdsound.tags.backInvalidate_hit hline'
  have hlines := lines_overview (x := { now, completions, repair := some ρ }) hd
  have hclean : (l.dirty && side == .instruction) = false := by
    cases hdirty : l.dirty with
    | false => rfl
    | true =>
      cases side with
      | data => rfl
      | instruction =>
        have hnever := h.reach.orderly.clean j (hside rfl) (p.line j addr)
        rw [hlines, hline, hdirty] at hnever
        exact absurd rfl hnever
  have hresident : (m.overview { now, completions, repair := some ρ }).lines j
      (p.line j (p.base b ρ.line)) =
      some l.dirty := by
    rw [← haddr, hlines]
    exact hline
  have hdropped := h.reach.step (.drop hb hj rfl rfl hresident)
  rw [← haddr, hlines, ← hdsound.line_eq, counters_overview hd] at hdropped
  have hput : (m.put j { d with tags }).Sound p :=
    h.sound.put (hdsound.becomes hbecomes rfl rfl rfl)
  have htracks : Tracks p {
      now
      completions
      debt := if l.dirty then some { via := none, addr } else none
      repair := some { ρ with withdrawn := j :: ρ.withdrawn } }
      ((m.put j { d with tags }).noted (.backInvalidated j addr l.dirty d.cycle)) := by
    refine ⟨hput.congr rfl rfl, ?_⟩
    rw [overview_noted, overview_put_tags hd hbecomes]
    exact hdropped.step (.note (.backInvalidated j addr l.dirty d.cycle) rfl (.inl rfl))
  refine Ends.bind (cacheAt_ends hd ?_)
  rw [hclean]
  refine Ends.bind (Ends.attempt_ok hdrop ?_)
  refine Ends.bind (setCache_ends (Ends.bind (record_ends ?_)))
  cases hdirty : l.dirty with
  | false =>
    rw [hdirty] at htracks
    exact htracks
  | true =>
    rw [hdirty, if_pos rfl] at htracks
    exact writeStraightBack_ends
      (x := { now, completions, repair := some { ρ with withdrawn := j :: ρ.withdrawn } }) htracks

theorem withdrawFrom_ends {ρ : Repair} {side : Side} (hb : p.topology.base? = some b)
    (hj : j ∈ p.topology.tops)
    (hside : side = .instruction → p.topology.side j = some .instruction)
    (haddr : addr = p.base b ρ.line) (h : Tracks p { now, completions, repair := some ρ } m) :
    Ends (fun _ => Tracks p
        { now, completions, repair := some { ρ with withdrawn := j :: ρ.withdrawn } })
      (Fails p) (withdrawFrom b addr (side, j) m) := by
  obtain ⟨d, hd, hdsound⟩ := h.sound.exists_cache (Topology.lt_size_of_mem_tops hj)
  refine Ends.bind (neighbour_ends (Topology.top_ne_base hj hb) hd ?_)
  refine Ends.bind (Ends.attempt_ok (hdsound.tags.line?_eq addr) ?_)
  rw [hdsound.line_eq]
  cases hline : d.tags.lines (p.line j addr) with
  | some dirty => exact backInvalidate_ends hb hj hd hside haddr hline h
  | none =>
    have hresident : (m.overview { now, completions, repair := some ρ }).lines j
        (p.line j (p.base b ρ.line)) = none := by
      rw [← haddr, lines_overview hd]
      exact hline
    have hovertaken := h.reach.step (.overtake hb hj rfl hresident)
    rw [← haddr] at hovertaken
    dsimp only [Option.map_none]
    cases hawaits : d.awaits addr with
    | false =>
      refine ⟨h.sound, ?_⟩
      have htraffic :
          (m.overview { now, completions, repair := some ρ }).traffic.map (p.overtake j addr) =
          (m.overview { now, completions, repair := some ρ }).traffic := by
        simp only [overview, add_zero]
        exact map_overtake_of_not_awaits hd hdsound hawaits
      rw [htraffic] at hovertaken
      exact hovertaken
    | true =>
      obtain ⟨c, hc, -⟩ := h.sound.exists_cache (Topology.lt_size_of_base? hb)
      have hsound' : (d.bypassFills addr).Sound p j :=
        (hdsound.congr rfl rfl rfl rfl)
      have hput := h.sound.put hsound'
      have hc' : (m.put j (d.bypassFills addr)).caches[b]? = some c := by
        rw [caches_put_ne _ (Topology.top_ne_base hj hb).symm, hc]
      refine Ends.bind (setCache_ends (Ends.bind (cacheAt_ends hc' (record_ends ?_))))
      refine ⟨hput.congr rfl rfl, ?_⟩
      have htraffic :
          (m.overview { now, completions, repair := some ρ }).traffic.map (p.overtake j addr) =
          (m.put j (d.bypassFills addr)).traffic := by
        rw [traffic_bypassFills hd hdsound, overview, add_zero]
      rw [htraffic] at hovertaken
      rw [overview_noted, overview_put_queues hd _ (by rfl) (by rfl)]
      simp only [add_zero]
      exact hovertaken.step (.note (.overtaken b addr j c.cycle) rfl (.inl rfl))

/-- Every cache above the base gives the line up, which ends the repair. -/
theorem withdrawAbove_ends {ρ : Repair} (hb : p.topology.base? = some b)
    (haddr : addr = p.base b ρ.line) (hrecalled : ρ.recalled = true)
    (h : Tracks p { now, completions, repair := some ρ } m) :
    Ends (fun _ => Tracks p { now, completions }) (Fails p) (withdrawAbove b addr m) := by
  obtain ⟨c, hc, hsound⟩ := h.sound.exists_cache (Topology.lt_size_of_base? hb)
  obtain ⟨ports, habove, -, htops, hside⟩ := Topology.above_base hb
  have hneighbours : c.above.neighbours = ports.distinct := by
    rw [hsound.above, habove]
    rfl
  refine Ends.bind (cacheAt_ends hc ?_)
  rw [hneighbours]
  -- every first-level cache has given the line up or is still to come
  let I (rest : List (Side × Nat)) (m : Machine) : Prop := ∃ withdrawn,
    Tracks p { now, completions, repair := some { ρ with withdrawn } } m ∧ rest ⊆ ports.distinct ∧
      ∀ i ∈ p.topology.tops, i ∈ withdrawn ∨ i ∈ rest.map Prod.snd
  have hstart : I ports.distinct m := by
    refine ⟨ρ.withdrawn, h, List.Subset.refl _, fun i hi => .inr ?_⟩
    obtain ⟨side, hport⟩ := (htops i).1 hi
    exact List.mem_map_of_mem hport
  refine Ends.mono (Ends.forM (I := I) ?_ hstart) ?_ fun _ _ => id
  · rintro ⟨side, j⟩ rest m ⟨withdrawn, h, hports, hall⟩
    have hport := hports List.mem_cons_self
    refine Ends.mono (withdrawFrom_ends hb ((htops j).2 ⟨side, hport⟩) ?_ (by exact haddr) h) ?_
      fun _ _ => id
    · rintro rfl
      exact hside j hport
    · intro _ m' h'
      refine ⟨j :: withdrawn, h', fun port hport => hports (List.mem_cons_of_mem _ hport), ?_⟩
      intro i hi
      rcases hall i hi with hmem | hmem
      · exact .inl (List.mem_cons_of_mem _ hmem)
      · rcases List.mem_cons.1 hmem with rfl | hmem
        · exact .inl List.mem_cons_self
        · exact .inr hmem
  · rintro - m' ⟨withdrawn, h', -, hall⟩
    refine h'.step h'.sound (.repaired rfl hrecalled fun i hi => ?_) rfl
    exact (hall i hi).resolve_right List.not_mem_nil

end CacheHierarchy.Machine
