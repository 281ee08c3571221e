import CacheHierarchy.Proofs.Execution.Actions

/-!
# Making and passing on write-backs

A write-back is announced to its receiver before it is on its way. A cache that passes one on to
memory settles it in its own ledger first.
-/

namespace CacheHierarchy

namespace WriteBackLedger

theorem coe_ids_announce (l : WriteBackLedger) (note : WriteBackNote) :
    ((l.announce note).ids : Multiset Nat) = note.id ::ₘ (l.ids : Multiset Nat) := by
  rw [ids_announce, Multiset.cons_coe]
  exact Multiset.coe_eq_coe.2 (List.perm_append_singleton _ _)

theorem settle?_of_mem {l : WriteBackLedger} {id : Nat} (h : id ∈ (l.ids : Multiset Nat)) :
    ∃ note l', l.settle? id = some (note, l') ∧ note.id = id ∧
      (l'.ids : Multiset Nat) = (l.ids : Multiset Nat).erase id := by
  rw [Multiset.mem_coe] at h
  cases hfind : l.notes.find? fun note => note.id == id with
  | none =>
    have hnone : l.settle? id = none := by rw [settle?, hfind]
    exact absurd h (settle?_eq_none_iff.1 hnone)
  | some note =>
    refine ⟨note, ⟨l.notes.eraseP fun note => note.id == id⟩, by rw [settle?, hfind], ?_, ?_⟩
    · simpa using List.find?_some hfind
    · rw [Multiset.coe_erase, ids, ids, List.erase_eq_eraseP', List.eraseP_map]
      rfl

end WriteBackLedger

namespace Machine

variable {p : Plan} {x : Context} {m : Machine} {i : Nat} {c : Cache} {r : Request}

def announced (m : Machine) (note : WriteBackNote) : Machine :=
  { m with memory := m.memory.announce note }

theorem announceToMemory_ends {Q : Unit → Machine → Prop} {E : Fault → Machine → Prop}
    {note : WriteBackNote} (h : Q () (m.announced note)) :
    Ends Q E (announceToMemory note m) := h

theorem overview_announced (note : WriteBackNote) :
    (m.announced note).overview x = { m.overview x with
      expected := (m.overview x).announce .memory note.id } := by
  have hexpected : (m.announced note).expectedAt =
      Function.update m.expectedAt .memory (note.id ::ₘ m.expectedAt .memory) := by
    refine (expectedAt_memory m _).trans (congrArg _ ?_)
    exact WriteBackLedger.coe_ids_announce _ _
  simp only [overview, hexpected]
  rfl

theorem overview_put_expected (hc : m.caches[i]? = some c) (expected : WriteBackLedger) :
    (m.put i { c with expected }).overview x = { m.overview x with
      expected := Function.update (m.overview x).expected (.cache i) expected.ids } := by
  have htraffic := traffic_put_same hc { c with expected } rfl
  have hlines : (m.put i { c with expected }).view (fun c => c.tags.lines) (fun _ => none) =
      m.view (fun c => c.tags.lines) fun _ => none := view_put_same hc _ (by rfl) _
  have hcounters : (m.put i { c with expected }).view (fun c => c.tags.counters) {} =
      m.view (fun c => c.tags.counters) {} := view_put_same hc _ (by rfl) _
  simp only [overview, htraffic, hlines, hcounters, expectedAt_put hc]
  rfl

theorem writeStraightBack_ends {addr cycle : Nat}
    (h : Tracks p { x with debt := some { via := none, addr } } m) :
    Ends (fun _ => Tracks p { x with debt := none }) (Fails p)
      (writeStraightBack addr cycle m) := by
  refine Ends.bind (freshId_ends h fun _ => Ends.bind (announceToMemory_ends ?_))
  refine sendToMemory_ends fun readyAt => ?_
  have hpaid := h.reach.step (.pay .memory rfl rfl cycle readyAt)
  refine ⟨h.sound.congr rfl rfl, ?_⟩
  rw [overview_accepting, overview_announced]
  exact hpaid.step (.note _ rfl (.inl rfl))

theorem overview_put_push (hc : m.caches[i]? = some c) (c' : Cache) {s : Spot}
    (htraffic : c'.traffic i = (s, r) ::ₘ c.traffic i) (htags : c'.tags = c.tags)
    (hexpected : c'.expected = c.expected) :
    (m.put i c').overview x = { m.overview x with
      traffic := (s, r) ::ₘ (m.overview x).traffic } := by
  rw [← Multiset.singleton_add] at htraffic
  rw [overview_put_queues hc c' htags hexpected]
  simp only [overview, traffic_put_add hc c' htraffic, Multiset.singleton_add, Multiset.cons_add]

/-- The component below cache `i` expects one more write-back, and nothing else changes. -/
theorem announceBelow_ends {E : Fault → Machine → Prop} (h : m.Sound p) {below : Below}
    (hbelow : below = p.topology.below i) (note : WriteBackNote) :
    Ends (fun _ m' => m'.Sound p ∧ m'.caches[i]? = m.caches[i]? ∧ ∀ x, m'.overview x =
        { m.overview x with
          expected := (m.overview x).announce (p.topology.below i).site note.id }) E
      (announceBelow i below note m) := by
  subst hbelow
  cases htarget : p.topology.below i with
  | memory =>
    refine announceToMemory_ends ⟨h.congr rfl rfl, rfl, fun x => ?_⟩
    exact overview_announced note
  | cache b =>
    obtain ⟨hb, hne⟩ := Topology.base?_of_below htarget
    obtain ⟨d, hd, hdsound⟩ := h.exists_cache (Topology.lt_size_of_base? hb)
    have hdsound' : Cache.Sound p b { d with expected := d.expected.announce note } :=
      (hdsound.congr rfl rfl rfl rfl)
    refine Ends.bind (neighbour_ends hne.symm hd (setCache_ends ?_))
    refine ⟨h.put hdsound', caches_put_ne _ hne, fun x => ?_⟩
    rw [overview_put_expected hd, WriteBackLedger.coe_ids_announce, Overview.announce,
      ← expectedAt_eq hd]
    rfl

theorem writeBack_ends {addr : Nat} (hi : i < p.topology.size)
    (h : Tracks p { x with debt := some { via := some i, addr } } m) :
    Ends (fun _ => Tracks p { x with debt := none }) (Fails p) (writeBack i addr m) := by
  obtain ⟨c, hc, hsound⟩ := h.sound.exists_cache hi
  have hsound' : ∀ writeBacks, Cache.Sound p i { c with writeBacks } := fun _ =>
    (hsound.congr rfl rfl rfl rfl)
  have hpaid := h.reach.step (.pay (p.topology.below i).site rfl rfl c.cycle c.cycle)
  have hfresh : Sound p { m with nextId := m.nextId + 1 } :=
    h.sound.congr rfl rfl
  refine Ends.bind (freshId_ends h fun _ => Ends.bind (cacheAt_ends hc ?_))
  apply Ends.seq (announceBelow_ends hfresh hsound.below _)
  rintro - m' ⟨hm', hc', hoverview⟩
  refine Ends.bind (record_ends (setCache_ends ?_))
  refine ⟨Sound.put (hm'.congr rfl rfl) (hsound' _), ?_⟩
  have hnoted : ∀ event, (m'.noted event).caches[i]? = some c := fun _ => hc'.trans hc
  rw [overview_put_push (hnoted _) _ (traffic_push_writeBacks c) (by rfl) (by rfl),
    overview_noted, hoverview]
  exact hpaid.step (.note (.wroteBack i _ c.cycle) rfl (.inl rfl))

/-- Cache `b` passes a write-back of the line under repair, which is in hand, on to memory. -/
theorem divertWriteBack_ends {b : Nat} {s : Spot} {ρ : Repair} (hb : p.topology.base? = some b)
    (hrepair : x.repair = some ρ) (hr : r.kind = .writeBack)
    (hs : p.receiver? s = some (.cache b)) (hline : p.line b r.addr = ρ.line)
    (h : Tracks p (x.hold s r) m) :
    Ends (fun _ m' => Tracks p x m' ∧ ∃ r', m'.traffic = (.memory, r') ::ₘ m.traffic) (Fails p)
      (divertWriteBack b r m) := by
  obtain ⟨c, hc, hsound⟩ := h.sound.exists_cache (Topology.lt_size_of_base? hb)
  have hmem : (s, r) ∈ (m.overview (x.hold s r)).traffic := by
    rw [Tracks.traffic_hold]
    exact Multiset.mem_cons_self _ _
  have hexpected := h.reach.orderly.mem_expected hmem hr hs
  rw [expected_overview hc] at hexpected
  obtain ⟨note, expected, hsettle, hid, hids⟩ := WriteBackLedger.settle?_of_mem hexpected
  have hsound' : Cache.Sound p b { c with tags := c.tags.countDiverted, expected } :=
    hsound.becomes hsound.tags.becomes_countDiverted rfl rfl rfl
  refine Ends.bind (cacheAt_ends hc ?_)
  rw [hsettle]
  refine Ends.bind (setCache_ends (Ends.bind (record_ends (Ends.bind (announceToMemory_ends ?_)))))
  refine sendToMemory_ends fun readyAt => ?_
  have hdiverted := h.reach.step (.divert (Tracks.traffic_hold m x s r) hr hb hs hrepair hline
    readyAt c.cycle)
  have hput := h.sound.put hsound'
  refine ⟨⟨hput.congr rfl rfl, ?_⟩, { r with readyAt }, ?_⟩
  swap
  · rw [traffic_accepting]
    exact congrArg _ (traffic_put_same hc _ (by rfl))
  have hmemory : (m.overview (x.hold s r)).settle (.cache b) r.id .memory =
      (m.overview (x.hold s r)).expected .memory :=
    Function.update_of_ne (fun h => Site.noConfusion h) _ _
  rw [← hmemory, counters_overview hc] at hdiverted
  rw [overview_accepting, overview_announced, overview_noted,
    overview_put_settled hc hsound.tags.becomes_countDiverted hids, update_lines_eq_self hc, hid]
  exact hdiverted.step (.note (.accepted { r with readyAt }) rfl (.inl (by
    rw [Event.isRead, hr]
    rfl)))

end Machine

end CacheHierarchy
