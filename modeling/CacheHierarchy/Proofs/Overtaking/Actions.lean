import CacheHierarchy.Proofs.Execution.Cycles
import CacheHierarchy.Proofs.Overtaking.Basic
import CacheHierarchy.Proofs.Overview.Marked

/-!
# Fills of the second level

When the second level displaces a line, each cache above it that does not hold the line marks the
fills that wait for it. A cache that does hold the line marks nothing, and need not: a line that is
waited for is not resident. Requests that go up are not marked, and carry a number that no fill above
carries.
-/

namespace CacheHierarchy

theorem Ports.nodup_distinct (ports : Ports) : (ports.distinct.map Prod.snd).Nodup := by
  unfold Ports.distinct
  split
  · simp
  · rename_i hne
    simpa using Ne.symm hne

/-- A fill that waits for a line installs it if it is not marked. -/
theorem Cache.wouldInstall_of_awaits {d : Cache} {lineSize addr : Nat} {r : Request}
    (h : d.tags.Awaits lineSize d.fills.items) (hr : r ∈ d.fills.items) :
    d.wouldInstall addr r = (addr / lineSize == r.addr / lineSize) := by
  rw [Cache.wouldInstall, h.fits r hr, Bool.not_false, Bool.true_and, Request.isOnLine,
    Geometry.lineOf, h.lineSize_eq, Bool.beq_comm]

namespace Machine

open Watch

variable {m : Machine} {b j lineSize addr : Nat} {js : List Nat} {ports : Ports} {r : Request}
  {d : Cache}

def dueAt (lineSize addr : Nat) (js : List Nat) (j addr' : Nat) : Bool :=
  decide (j ∈ js) && addr / lineSize == addr' / lineSize

theorem dueAt_nil (lineSize addr : Nat) : dueAt lineSize addr [] = nothingDue := by
  funext j addr'
  simp [dueAt, nothingDue]

theorem dueAt_cons_of_ne {k : Nat} (h : k ≠ j) (addr' : Nat) :
    dueAt lineSize addr (j :: js) k addr' = dueAt lineSize addr js k addr' := by
  simp [dueAt, h]

/-- A cache changes. If it is at a position of interest it is still to hold none of the lines that it
waits for. -/
theorem Awaits.put (h : m.Awaits b lineSize ports js) (hd : m.caches[j]? = some d) (d' : Cache)
    (habove : d'.above = d.above) (htags : j ∈ js → d'.tags.Awaits lineSize d'.fills.items) :
    (m.put j d').Awaits b lineSize ports js := by
  refine ⟨fun c hc => ?_, fun k e hk he => ?_, fun k hmem hk e he => ?_⟩
  · by_cases hb : b = j
    · subst hb
      rw [caches_put_self hd] at hc
      cases hc
      exact habove.trans (h.above d hd)
    · rw [caches_put_ne _ hb] at hc
      exact h.above c hc
  · by_cases hkj : k = j
    · subst hkj
      exact h.at_port k d hk hd
    · rw [caches_put_ne _ hkj] at he
      exact h.at_port k e hk he
  · by_cases hkj : k = j
    · subst hkj
      rw [caches_put_self hd] at he
      cases he
      exact htags hmem
    · rw [caches_put_ne _ hkj] at he
      exact h.tags k hmem hk e he

theorem Awaits.push (h : m.Awaits b lineSize ports js) (hj : j ≠ b) (hd : m.caches[j]? = some d)
    (hkind : r.kind.isWriteBack = false) (hline : d.tags.lines (r.addr / lineSize) = none)
    (readyAt : Nat) :
    (m.put j { d with fills := d.fills.push { r with readyAt } }).Awaits b lineSize ports js := by
  refine h.put hd _ rfl fun hmem => ?_
  have hold := h.tags j hmem hj d hd
  refine ⟨hold.sound, hold.lineSize_eq, fun r' hr' => ?_, fun r' hr' => ?_⟩ <;>
    rcases List.mem_append.1 hr' with hr' | hr'
  · exact hold.fits r' hr'
  · rw [List.mem_singleton.1 hr']
    exact hkind
  · exact hold.absent r' hr'
  · rw [List.mem_singleton.1 hr']
    exact hline

/-! Withdrawing a line. -/

theorem Marks.nothing_waits (h : m.Marks b lineSize (dueAt lineSize addr (j :: js)))
    (hd : m.caches[j]? = some d)
    (hnone : ∀ r ∈ d.fills.items, (addr / lineSize == r.addr / lineSize) = false) :
    m.Marks b lineSize (dueAt lineSize addr js) := by
  refine h.congr fun k e hk he r hr => ?_
  by_cases hkj : k = j
  · subst hkj
    cases hd.symm.trans he
    rw [dueAt, dueAt, hnone r hr, Bool.and_false, Bool.and_false]
  · rw [dueAt_cons_of_ne hkj]

theorem Marks.bypassFills (h : m.Marks b lineSize (dueAt lineSize addr (j :: js))) (hj : j ≠ b)
    (hd : m.caches[j]? = some d) (hawaits : d.tags.Awaits lineSize d.fills.items) :
    (m.put j (d.bypassFills addr)).Marks b lineSize (dueAt lineSize addr js) := by
  intro k e hk he r hr
  by_cases hkj : k = j
  · subst hkj
    rw [caches_put_self hd] at he
    cases he
    obtain ⟨r₀, hr₀, rfl⟩ := List.mem_map.1 hr
    obtain ⟨hup, hmark⟩ := h k d hj hd r₀ hr₀
    rw [dueAt, decide_eq_true List.mem_cons_self, Bool.true_and] at hmark
    rw [Cache.wouldInstall_of_awaits hawaits hr₀]
    cases hline : addr / lineSize == r₀.addr / lineSize with
    | true =>
      rw [hline, Bool.or_true] at hmark
      exact ⟨hup, (Bool.true_or _).trans hmark⟩
    | false =>
      rw [hline] at hmark
      refine ⟨hup, ?_⟩
      rw [if_neg Bool.false_ne_true, dueAt, hline, Bool.and_false]
      exact hmark
  · rw [caches_put_ne _ hkj] at he
    rw [← dueAt_cons_of_ne hkj]
    exact h k e hk he r hr

theorem withdrawFrom_marks {side : Side} (hj : j ∉ js)
    (hmarks : m.Marks b lineSize (dueAt lineSize addr (j :: js)))
    (hawaits : m.Awaits b lineSize ports (j :: js)) :
    Yields (fun _ m' => m'.Marks b lineSize (dueAt lineSize addr js) ∧
        m'.Awaits b lineSize ports js)
      (withdrawFrom b addr (side, j) m) := by
  refine Ends.bind (neighbour_yields fun d hne hd => Ends.bind (Yields.attempt fun line hline => ?_))
  have htags := hawaits.tags j List.mem_cons_self hne d hd
  have hrest : m.Awaits b lineSize ports js := hawaits.mono (List.subset_cons_self j js)
  rw [htags.sound.line?_eq, Geometry.lineOf, htags.lineSize_eq] at hline
  cases line with
  | some line =>
    -- the line is resident, so no fill waits for it
    have hnone : ∀ r ∈ d.fills.items, (addr / lineSize == r.addr / lineSize) = false := by
      intro r hr
      rw [beq_eq_false_iff_ne]
      intro heq
      rw [heq, htags.absent r hr] at hline
      cases hline
    have hmarks' := hmarks.nothing_waits hd hnone
    exact (unseen_backInvalidate (waiting.overlooksTags_of_not_mem hj) addr side line m).mono
      (fun _ _ hsame => ⟨hmarks'.same hsame, hrest.same hsame⟩) fun _ _ => id
  | none =>
    dsimp only
    cases hqueued : d.awaits addr with
    | false =>
      refine ⟨hmarks.nothing_waits hd fun r hr => ?_, hrest⟩
      rw [← Cache.wouldInstall_of_awaits htags hr]
      exact Bool.eq_false_of_not_eq_true (List.any_eq_false.1 hqueued r hr)
    | true =>
      refine Ends.bind (setCache_ends ?_)
      have hmarked := hmarks.bypassFills hne hd htags
      have hleft := hrest.put hd (d.bypassFills addr) rfl fun hmem => absurd hmem hj
      have hunseen : (waiting b js).Unseen (do
          record (.overtaken b addr j (← cacheAt b).cycle) : Action Unit) :=
        (unseen_cacheAt b).bind fun _ => unseen_routine rfl
      exact (hunseen _).mono (fun _ _ hsame => ⟨hmarked.same hsame, hleft.same hsame⟩) fun _ _ => id

/-- Every cache above has given the line up, so all marks are set. -/
theorem withdrawAbove_marks
    (hmarks : m.Marks b lineSize fun _ addr' => addr / lineSize == addr' / lineSize)
    (hawaits : m.Awaits b lineSize ports (ports.distinct.map Prod.snd)) :
    Yields (fun _ m' => m'.Marks b lineSize nothingDue) (withdrawAbove b addr m) := by
  refine Ends.bind (cacheAt_yields fun c hc => ?_)
  have hneighbours : c.above.neighbours = ports.distinct := by
    rw [hawaits.above c hc]
    rfl
  rw [hneighbours]
  let I (rest : List (Side × Nat)) (m : Machine) : Prop := (rest.map Prod.snd).Nodup ∧
    m.Marks b lineSize (dueAt lineSize addr (rest.map Prod.snd)) ∧
      m.Awaits b lineSize ports (rest.map Prod.snd)
  have hstart : I ports.distinct m := by
    refine ⟨ports.nodup_distinct, hmarks.congr fun j d hj hd r _ => ?_, hawaits⟩
    rw [dueAt, decide_eq_true (hawaits.at_port j d hj hd), Bool.true_and]
  refine (Ends.forM (I := I) ?_ hstart).mono ?_ fun _ _ => id
  · rintro ⟨side, j⟩ rest m ⟨hnodup, hmarks, hawaits⟩
    obtain ⟨hj, hnodup'⟩ := List.nodup_cons.1 hnodup
    refine (withdrawFrom_marks hj hmarks hawaits).mono ?_ fun _ _ => id
    exact fun _ m' h' => ⟨hnodup', h'⟩
  · rintro - m' ⟨-, h', -⟩
    rw [List.map_nil, dueAt_nil] at h'
    exact h'

/-! Requests on their way up. -/

theorem sendUp_yields {Q : Unit → Machine → Prop} (h : ∀ d cycle, ports.on r.kind.side ≠ b →
      m.caches[ports.on r.kind.side]? = some d →
      Q () ((m.put (ports.on r.kind.side)
        { d with fills := d.fills.push { r with readyAt := d.cycle + d.latency } }).noted
          (.sentUp b (ports.on r.kind.side) r cycle))) :
    Yields Q (sendUp b ports r m) :=
  Ends.bind (handFill_yields fun d hne hd => Ends.bind (cacheAt_yields fun c _ =>
    record_ends (h d c.cycle hne hd)))

variable {p : Plan} {x : Context} {s : Spot}

/-- A line that a first-level cache waits for is not resident in it. -/
theorem absent_of_tracks (h : Tracks p x m) (huniform : p.Uniform lineSize)
    (hr : (s, r) ∈ (m.overview x).traffic) (hs : s ≠ .finished) (hdemand : r.kind.isDemand = true)
    (hmiss : r.isMiss = true) (hentry : p.topology.entryFor? r.kind = some j)
    (hd : m.caches[j]? = some d) : d.tags.lines (r.addr / lineSize) = none := by
  have habsent := h.reach.orderly.absent _ hr hs hdemand hmiss j hentry
  have hj := Topology.lt_size_of_mem_tops (Topology.mem_tops_of_entryFor? hentry)
  rwa [lines_overview hd, huniform.line_eq hj] at habsent

theorem awaits_of_tracks (h : Tracks p x m) (huniform : p.Uniform lineSize)
    (hb : p.topology.base? = some b) (hports : p.topology.above b = .caches ports) :
    m.Awaits b lineSize ports (ports.distinct.map Prod.snd) := by
  obtain ⟨ports', hports', -, htops, -⟩ := Topology.above_base hb
  obtain rfl : ports = ports' := Above.caches.inj (hports.symm.trans hports')
  refine ⟨fun c hc => (h.sound.caches b c hc).above.trans hports, fun j d hj hd => ?_,
    fun j hmem hj d hd => ?_⟩
  · have hlt : j < p.topology.size := h.sound.length ▸ (List.getElem?_eq_some_iff.1 hd).1
    rcases Topology.lt_size_iff.1 hlt with htop | hbase
    · obtain ⟨side, hport⟩ := (htops j).1 htop
      exact List.mem_map_of_mem hport
    · exact absurd (Option.some.inj (hbase.symm.trans hb)) hj
  · obtain ⟨⟨side, k⟩, hport, rfl⟩ := List.mem_map.1 hmem
    have htop := (htops k).2 ⟨side, hport⟩
    have hsound := h.sound.caches k d hd
    have hfits : ∀ r ∈ d.fills.items, (.fills k, r) ∈ (m.overview x).traffic ∧
        r.kind.isDemand = true ∧ p.topology.entryFor? r.kind = some k ∧ r.isMiss = true := by
      intro r hr
      have hmem : (.fills k, r) ∈ (m.overview x).traffic := Multiset.mem_add.2
        (.inl (mem_traffic_of_cache hd ((mem_traffic d).2 (.inr (.inl ⟨rfl, hr⟩)))))
      exact ⟨hmem, (h.reach.orderly.admits _ hmem).fits.fills_top htop⟩
    refine ⟨hsound.tags, ?_, fun r hr => ?_, fun r hr => ?_⟩
    · rw [hsound.geometry, huniform k (Topology.lt_size_of_mem_tops htop)]
    · rw [← Bool.not_eq_true, AccessKind.isWriteBack_iff]
      exact Request.ne_writeBack (hfits r hr).2.1
    · obtain ⟨hmem, hdemand, hentry, hmiss⟩ := hfits r hr
      exact absent_of_tracks h huniform hmem (fun h => Spot.noConfusion h) hdemand hmiss hentry hd

theorem mayGoUp_of_tracks (hb : p.topology.base? = some b) (hs : s = .lookups b ∨ s = .fills b)
    (hdemand : r.kind.isDemand = true) (h : Tracks p (x.hold s r) m) : m.MayGoUp b r where
  bypass := h.reach.not_bypass hb hs (mem_of_eq_cons (Tracks.traffic_hold m x s r))
  id_ne j d hj hd r' hr' := by
    have hlt : j < p.topology.size := h.sound.length ▸ (List.getElem?_eq_some_iff.1 hd).1
    have htop := (Topology.lt_size_iff.1 hlt).resolve_right fun hbase =>
      hj (Option.some.inj (hbase.symm.trans hb))
    have hmem : (.fills j, r') ∈ (m.overview x).traffic := Multiset.mem_add.2
      (.inl (mem_traffic_of_cache hd ((mem_traffic d).2 (.inr (.inl ⟨rfl, hr'⟩)))))
    have ht := Tracks.traffic_hold m x s r
    have hfits := (h.reach.orderly.admits _ (ht ▸ Multiset.mem_cons_of_mem hmem)).fits
    exact h.reach.orderly.id_ne ht hdemand hmem (hfits.fills_top htop).1

theorem sendUp_marks (hup : m.MayGoUp b r) (hmarks : m.Marks b lineSize nothingDue) :
    Yields (fun _ m' => m'.Marks b lineSize nothingDue) (sendUp b ports r m) :=
  sendUp_yields fun _ _ _ hd => hmarks.handUp hup hd _ _

theorem sendUp_awaits (hb : p.topology.base? = some b)
    (hports : p.topology.above b = .caches ports) (huniform : p.Uniform lineSize)
    (hdemand : r.kind.isDemand = true) (h : Tracks p (x.hold (.fills b) r) m) :
    Yields (fun _ m' => m'.Awaits b lineSize ports (ports.distinct.map Prod.snd))
      (sendUp b ports r m) := by
  have hmem := mem_of_eq_cons (Tracks.traffic_hold m x (.fills b) r)
  have hmiss := (h.reach.orderly.admits _ hmem).fits.fills_isMiss hdemand
  obtain ⟨ports', hports', hentry, -⟩ := Topology.above_base hb
  obtain rfl : ports = ports' := Above.caches.inj (hports.symm.trans hports')
  refine sendUp_yields fun d cycle hne hd => ?_
  have hline := absent_of_tracks h huniform hmem (fun h => Spot.noConfusion h) hdemand hmiss
    (hentry r.kind) hd
  have hkind : r.kind.isWriteBack = false := by
    rw [← Bool.not_eq_true, AccessKind.isWriteBack_iff]
    exact Request.ne_writeBack hdemand
  exact ((awaits_of_tracks h huniform hb hports).push hne hd hkind hline _).noted _

/-- The second level hands a request up and installs its line. -/
theorem fillBelow_marks (hb : p.topology.base? = some b)
    (hports : p.topology.above b = .caches ports) (huniform : p.Uniform lineSize)
    (hdemand : r.kind.isDemand = true) (h : Tracks p (x.hold (.fills b) r) m)
    (hmarks : m.Marks b lineSize nothingDue) :
    Yields (fun _ m' => m'.Marks b lineSize nothingDue) (fillBelow b ports r m) := by
  refine Ends.seq ((sendUp_marks (mayGoUp_of_tracks hb (.inr rfl) hdemand h) hmarks).and
    (sendUp_awaits hb hports huniform hdemand h)) ?_
  rintro - m ⟨hmarks, hawaits⟩
  refine Ends.bind (cacheAt_yields fun c hc => Ends.bind (Yields.attempt fun resident _ => ?_))
  cases resident with
  | true => exact hmarks.seq (unseen_routine rfl)
  | false =>
    refine Ends.bind (Yields.attempt fun installed _ => Ends.bind (setCache_ends ?_))
    have hinstalled : (waiting b (ports.distinct.map Prod.snd)).Same m
        ((m.put b { c with tags := installed.2 }).noted (.installed b r c.cycle)) :=
      Same.put_noted hc (waiting.overlooksTags b _ c installed.2) rfl
    have hmarks := hmarks.same hinstalled
    have hawaits := hawaits.same hinstalled
    refine Ends.bind (record_ends ?_)
    cases installed.2.lastEviction with
    | none => exact hmarks
    | some evicted =>
      refine Ends.bind (record_ends ?_)
      have hdue := hmarks.evict evicted.addr evicted.dirty c.cycle
      have hawaits := hawaits.noted (.evicted b evicted.addr evicted.dirty c.cycle)
      have hoverlooked : ∀ j, (waiting b (ports.distinct.map Prod.snd)).OverlooksSends j :=
        waiting.overlooksSends
      have hdiverted := unseen_divertWriteBacks (waiting.overlooksTags b _)
        (waiting.overlooksFills b _) (waiting.overlooksExpected b) hoverlooked evicted.addr
      have hrepair : ∀ m' : Machine, (waiting b (ports.distinct.map Prod.snd)).Same _ m' →
          Yields (fun _ m' => m'.Marks b lineSize nothingDue) ((do
            divertWriteBacks b evicted.addr
            withdrawAbove b evicted.addr : Action Unit) m') := fun m' hsame =>
        Ends.seq (hdiverted.seq hsame) fun _ m'' hsame =>
          withdrawAbove_marks (hdue.same hsame) (hawaits.same hsame)
      dsimp only
      split
      · refine Ends.seq (unseen_writeBack waiting.overlooksExpected (hoverlooked b)
          (fun _ _ => rfl) evicted.addr _) fun _ m' hsame => hrepair m' hsame
      · exact hrepair _ (Same.refl _)

theorem lookUpBelow_marks (hb : p.topology.base? = some b) (h : Tracks p (x.hold (.lookups b) r) m)
    (hmarks : m.Marks b lineSize nothingDue) :
    Yields (fun _ m' => m'.Marks b lineSize nothingDue) (lookUpBelow b ports r m) := by
  have hmem := mem_of_eq_cons (Tracks.traffic_hold m x (.lookups b) r)
  have hup := mayGoUp_of_tracks hb (.inl rfl) (h.reach.orderly.admits _ hmem).fits.1 h
  refine Ends.bind (cacheAt_yields fun c hc => Ends.bind (Yields.attempt fun found _ => ?_))
  refine Ends.bind (record_ends ?_)
  have hlooked : (waiting b []).Same m (m.noted (.lookedUp b r found.1 c.cycle)) := Same.noted rfl
  split
  · have hsame := hlooked.trans (Same.put hc (waiting.overlooksTags b [] c found.2))
    refine Ends.bind (setCache_ends (sendUp_marks ?_ (hmarks.same hsame)))
    exact ⟨hup.bypass, (hup.same hsame).id_ne⟩
  · have hview : ∀ sends, (waiting b []).view b { c with tags := found.2, sends } =
        (waiting b []).view b c := fun sends => waiting.overlooksTags b [] c found.2
    exact setCache_ends (hmarks.same (hlooked.trans (Same.put hc (hview _))))

end Machine

end CacheHierarchy
