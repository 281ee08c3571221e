import CacheHierarchy.Proofs.Execution.WriteBacks

/-!
# Repairing the levels above

After the base has displaced a line, it passes the write-backs of the line that were on their way
to it on to memory, and then has every cache above give the line up. The write-backs are taken out
of all queues first, so afterwards none is left; what each cache above does is one step of the
repair.
-/

namespace CacheHierarchy

/-- A write-back of a line that is on its way to the base. -/
structure Plan.Doomed (p : Plan) (b line : Nat) (y : Spot × Request) : Prop where
  isWriteBack : y.2.kind = .writeBack
  receiver : p.receiver? y.1 = some (.cache b)
  line_eq : p.line b y.2.addr = line

theorem Cache.isWriteBackOf_iff {p : Plan} {b line : Nat} {r : Request} :
    Cache.isWriteBackOf (p.geometry b).lineSize line r = true ↔
      r.kind = .writeBack ∧ p.line b r.addr = line := by
  rw [isWriteBackOf, Bool.and_eq_true, AccessKind.isWriteBack_iff, Request.isOnLine, beq_iff_eq]
  rfl

theorem coe_takeWhere (P : Request → Bool) (s : Spot) (q : GatedQueue Request) :
    ((q.items.map fun r => (s, r) : List (Spot × Request)) : Multiset (Spot × Request)) =
      ((q.takeWhere P).1.map fun r => (s, r) : List (Spot × Request)) +
        ((q.takeWhere P).2.items.map fun r => (s, r) : List (Spot × Request)) := by
  rw [Multiset.coe_add, ← List.map_append]
  exact Multiset.coe_eq_coe.2 (((List.filter_append_perm P q.items).map _).symm)

namespace Machine

variable {p : Plan} {x : Context} {m : Machine} {b j line : Nat} {c d : Cache}

/-- The write-backs that a cache above gives up were all of the line, and none is left. -/
theorem recallWriteBacks_spec (line : Nat) (d : Cache) (hb : p.topology.base? = some b)
    (hj : j ∈ p.topology.tops) :
    ∃ taken : List (Spot × Request),
      taken.map Prod.snd = (d.recallWriteBacks (p.geometry b).lineSize line).1 ∧
      (∀ y ∈ taken, p.Doomed b line y) ∧
      d.traffic j =
        taken + (d.recallWriteBacks (p.geometry b).lineSize line).2.traffic j ∧
      ∀ y ∈ (d.recallWriteBacks (p.geometry b).lineSize line).2.traffic j,
        ¬p.Doomed b line y := by
  have hbelow : p.topology.below j = .cache b := Topology.below_top hb hj
  refine ⟨(d.writeBacks.takeWhere (Cache.isWriteBackOf (p.geometry b).lineSize line)).1.map
      (fun r => (.writeBacks j, r)) ++
    (d.sends.takeWhere (Cache.isWriteBackOf (p.geometry b).lineSize line)).1.map
      (fun r => (.sends j, r)), ?_, ?_, ?_, ?_⟩
  · rw [List.map_append, List.map_map, List.map_map]
    exact congrArg₂ _ (List.map_id _) (List.map_id _)
  · intro y hy
    have hreceiver : ∀ s, s = .writeBacks j ∨ s = .sends j → p.receiver? s = some (.cache b) := by
      rintro s (rfl | rfl) <;> rw [Plan.receiver?, hbelow] <;> rfl
    rw [List.mem_append, List.mem_map, List.mem_map] at hy
    rcases hy with ⟨r, hr, rfl⟩ | ⟨r, hr, rfl⟩ <;>
      obtain ⟨-, hr⟩ := List.mem_filter.1 hr <;>
      obtain ⟨hkind, hline⟩ := Cache.isWriteBackOf_iff.1 hr
    · exact ⟨hkind, hreceiver _ (.inl rfl), hline⟩
    · exact ⟨hkind, hreceiver _ (.inr rfl), hline⟩
  · simp only [Cache.traffic, Cache.recallWriteBacks]
    rw [coe_takeWhere (Cache.isWriteBackOf (p.geometry b).lineSize line) _ d.sends,
      coe_takeWhere (Cache.isWriteBackOf (p.geometry b).lineSize line) _ d.writeBacks,
      ← Multiset.coe_add]
    ac_rfl
  · rintro ⟨s, r⟩ hy ⟨hkind, hs, hline⟩
    rw [mem_traffic] at hy
    have hkept : ∀ q : GatedQueue Request,
        r ∉ (q.takeWhere (Cache.isWriteBackOf (p.geometry b).lineSize line)).2.items := by
      intro q hr
      obtain ⟨-, hr⟩ := List.mem_filter.1 hr
      rw [Cache.isWriteBackOf_iff.2 ⟨hkind, hline⟩] at hr
      cases hr
    rcases hy with ⟨rfl, -⟩ | ⟨rfl, -⟩ | ⟨rfl, hr⟩ | ⟨rfl, hr⟩
    · cases hs
    · cases hs
      exact Topology.base_not_mem_tops hb hj
    · exact hkept _ hr
    · exact hkept _ hr

theorem recallFrom_ends (hb : p.topology.base? = some b) {ports : List (Side × Nat)}
    (hports : ∀ port ∈ ports, port.2 ∈ p.topology.tops) (h : Tracks p x m) :
    Ends (fun recalled m' => ∃ taken : List (Spot × Request), taken.map Prod.snd = recalled ∧
        (∀ y ∈ taken, p.Doomed b line y) ∧
        Tracks p { x with held := taken + x.held } m' ∧
        ∀ i c, m'.caches[i]? = some c →
          (∀ y ∈ c.traffic i, ¬p.Doomed b line y) ∨
            i ∉ ports.map Prod.snd ∧ m.caches[i]? = some c)
      (Fails p) (recallFrom b (p.geometry b).lineSize line ports m) := by
  induction ports generalizing x m with
  | nil =>
    refine ⟨[], rfl, by simp, ?_, fun i c hc => .inr ⟨List.not_mem_nil, hc⟩⟩
    rw [Multiset.coe_nil, zero_add]
    exact h
  | cons port rest ih =>
    obtain ⟨side, j⟩ := port
    have hj : j ∈ p.topology.tops := hports _ List.mem_cons_self
    obtain ⟨d, hd, hdsound⟩ := h.sound.exists_cache (Topology.lt_size_of_mem_tops hj)
    obtain ⟨taken, hsnd, hdoomed, htraffic, hclear⟩ :=
      recallWriteBacks_spec line d hb hj
    have hsound' : ((d.recallWriteBacks (p.geometry b).lineSize line).2).Sound p j :=
      (hdsound.congr rfl rfl rfl rfl)
    have htaken := h.takeAll hd hsound' htraffic (by rfl) (by rfl)
    refine Ends.bind (neighbour_ends (Topology.top_ne_base hj hb) hd ?_)
    refine Ends.bind (setCache_ends (Ends.seq
      (ih (fun port hport => hports port (List.mem_cons_of_mem _ hport)) htaken) ?_))
    rintro recalled m' ⟨taken', hsnd', hdoomed', htaken', hclear'⟩
    refine ⟨taken ++ taken', ?_, ?_, ?_, fun i c hc => ?_⟩
    · rw [List.map_append, hsnd, hsnd']
      rfl
    · intro y hy
      exact (List.mem_append.1 hy).elim (hdoomed y) (hdoomed' y)
    · rw [← Multiset.coe_add, add_comm (taken : Multiset (Spot × Request)), add_assoc]
      exact htaken'
    · rcases hclear' i c hc with hclear' | ⟨hi, hc⟩
      · exact .inl hclear'
      · by_cases hij : i = j
        · subst hij
          rw [caches_put_self hd] at hc
          cases hc
          exact .inl hclear
        · rw [caches_put_ne _ hij] at hc
          refine .inr ⟨?_, hc⟩
          rw [List.map_cons, List.mem_cons, not_or]
          exact ⟨hij, hi⟩

theorem divertAll_ends {ρ : Repair} (hb : p.topology.base? = some b) (hrepair : x.repair = some ρ)
    (taken : List (Spot × Request)) (hdoomed : ∀ y ∈ taken, p.Doomed b ρ.line y)
    (h : Tracks p { x with held := taken + x.held } m)
    (hclear : ∀ y ∈ m.traffic, ¬p.Doomed b ρ.line y) :
    Ends (fun _ m' => Tracks p x m' ∧ ∀ y ∈ m'.traffic, ¬p.Doomed b ρ.line y) (Fails p)
      ((taken.map Prod.snd).forM (divertWriteBack b) m) := by
  induction taken generalizing m with
  | nil =>
    rw [Multiset.coe_nil, zero_add] at h
    exact ⟨h, hclear⟩
  | cons y rest ih =>
    rw [← Multiset.cons_coe, Multiset.cons_add] at h
    obtain ⟨hkind, hreceiver, hline⟩ := hdoomed y List.mem_cons_self
    refine Ends.seq (divertWriteBack_ends (x := { x with held := rest + x.held }) hb hrepair hkind
      hreceiver hline h) ?_
    rintro - m' ⟨h', r', htraffic⟩
    refine ih (fun y hy => hdoomed y (List.mem_cons_of_mem _ hy)) h' ?_
    rw [htraffic]
    intro z hz
    rcases Multiset.mem_cons.1 hz with rfl | hz
    · exact fun hz => nomatch hz.receiver
    · exact hclear z hz

theorem takeArrived_spec (hb : p.topology.base? = some b) {arrived : List Request}
    {fills : GatedQueue Request}
    (htake : c.fills.takeWhere (Cache.isWriteBackOf (p.geometry b).lineSize line) =
      (arrived, fills)) :
    c.traffic b = (arrived.map fun r => (.fills b, r) : List (Spot × Request)) +
        Cache.traffic { c with fills } b ∧
      (∀ r ∈ arrived, p.Doomed b line (.fills b, r)) ∧
      ∀ y ∈ Cache.traffic { c with fills } b, ¬p.Doomed b line y := by
  have hsplit := coe_takeWhere (Cache.isWriteBackOf (p.geometry b).lineSize line) (.fills b)
    c.fills
  rw [htake] at hsplit
  refine ⟨?_, ?_⟩
  · simp only [Cache.traffic, hsplit]
    ac_rfl
  obtain ⟨rfl, rfl⟩ := Prod.mk.inj htake
  refine ⟨fun r hr => ?_, ?_⟩
  · obtain ⟨-, hr⟩ := List.mem_filter.1 hr
    obtain ⟨hkind, hline⟩ := Cache.isWriteBackOf_iff.1 hr
    exact ⟨hkind, rfl, hline⟩
  · have hbelow : p.topology.below b = .memory := Topology.below_base hb
    rintro ⟨s, r⟩ hy ⟨hkind, hs, hline⟩
    rw [mem_traffic] at hy
    rcases hy with ⟨rfl, -⟩ | ⟨rfl, hr⟩ | ⟨rfl, -⟩ | ⟨rfl, -⟩
    · cases hs
    · obtain ⟨-, hr⟩ := List.mem_filter.1 hr
      rw [Cache.isWriteBackOf_iff.2 ⟨hkind, hline⟩] at hr
      cases hr
    · rw [Plan.receiver?, hbelow] at hs
      cases hs
    · rw [Plan.receiver?, hbelow] at hs
      cases hs

/-- No write-back of a line is on its way to the base if none is in any cache. -/
theorem not_doomed_of_caches (h : ∀ i (c : Cache), m.caches[i]? = some c →
    ∀ y ∈ c.traffic i, ¬p.Doomed b line y) : ∀ y ∈ m.traffic, ¬p.Doomed b line y := by
  rintro ⟨s, r⟩ hy hdoomed
  rcases exists_of_mem_traffic hy with ⟨i, c, hc, hmem⟩ | rfl | rfl
  · exact h i c hc _ hmem hdoomed
  · exact nomatch hdoomed.receiver
  · exact nomatch hdoomed.receiver

theorem eq_base_of_notMem_ports {ports : Ports} (hb : p.topology.base? = some b)
    (htops : ∀ i, i ∈ p.topology.tops ↔ ∃ side, (side, i) ∈ ports.distinct) {i : Nat}
    (hi : i < p.topology.size) (hports : i ∉ ports.distinct.map Prod.snd) : i = b := by
  rcases Topology.lt_size_iff.1 hi with htop | hbase
  · obtain ⟨side, hside⟩ := (htops i).1 htop
    exact absurd (List.mem_map_of_mem hside) hports
  · exact Option.some.inj (hbase.symm.trans hb)

theorem divertWriteBacks_ends {ρ : Repair} {addr : Nat} (hb : p.topology.base? = some b)
    (hheld : x.held = 0) (hrepair : x.repair = some ρ) (haddr : addr = p.base b ρ.line)
    (h : Tracks p x m) :
    Ends (fun _ => Tracks p { x with repair := some { ρ with recalled := true } }) (Fails p)
      (divertWriteBacks b addr m) := by
  obtain ⟨c, hc, hsound⟩ := h.sound.exists_cache (Topology.lt_size_of_base? hb)
  obtain ⟨ports, habove, -, htops, -⟩ := Topology.above_base hb
  have hline : c.tags.geometry.lineOf addr = ρ.line := by
    rw [hsound.line_eq, haddr, p.line_base]
  have hneighbours : c.above.neighbours = ports.distinct := by
    rw [hsound.above, habove]
    rfl
  refine Ends.bind (cacheAt_ends hc ?_)
  dsimp only
  rw [hline, hneighbours, hsound.geometry]
  cases htake : c.fills.takeWhere (Cache.isWriteBackOf (p.geometry b).lineSize ρ.line) with
  | mk arrived fills =>
  obtain ⟨htraffic, hdoomed, hclear⟩ := takeArrived_spec hb htake
  have hsound' : Cache.Sound p b { c with fills } :=
    (hsound.congr rfl rfl rfl rfl)
  have htaken := h.takeAll hc hsound' htraffic rfl rfl
  refine Ends.bind (setCache_ends (Ends.seq (recallFrom_ends hb ?_ htaken) ?_))
  · rintro ⟨side, j⟩ hport
    exact (htops j).2 ⟨side, hport⟩
  rintro recalled m' ⟨taken, rfl, hdoomed', htaken', hclear'⟩
  have hall : arrived ++ taken.map Prod.snd =
      (arrived.map (fun r => (Spot.fills b, r)) ++ taken).map Prod.snd := by
    rw [List.map_append, List.map_map]
    exact congrArg (· ++ _) (List.map_id _).symm
  rw [hall]
  refine Ends.mono (divertAll_ends hb hrepair _ ?_ ?_ ?_) ?_ fun _ _ => id
  · intro y hy
    rcases List.mem_append.1 hy with hy | hy
    · obtain ⟨r, hr, rfl⟩ := List.mem_map.1 hy
      exact hdoomed r hr
    · exact hdoomed' y hy
  · rw [← Multiset.coe_add, add_assoc, add_left_comm]
    exact htaken'
  · refine not_doomed_of_caches fun i c' hc' => (hclear' i c' hc').elim id ?_
    rintro ⟨hi, hput⟩
    have hlt := htaken'.sound.length ▸ (List.getElem?_eq_some_iff.1 hc').1
    obtain rfl := eq_base_of_notMem_ports hb htops hlt hi
    rw [caches_put_self hc] at hput
    cases hput
    exact hclear
  · rintro - m'' ⟨h', hclear'⟩
    refine h'.step h'.sound (.recalled (b := b) hb hrepair fun s r hr hkind hs hline => ?_) rfl
    rw [Machine.overview, hheld, add_zero] at hr
    exact hclear' _ hr ⟨hkind, hs, hline⟩

end Machine

end CacheHierarchy
