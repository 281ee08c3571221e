import CacheHierarchy.Proofs.Outline.Actions
import CacheHierarchy.Proofs.Overview.Accounted

/-!
# Requests in outline

Dealing with one demand request is the function of outlines of the same name, and dealing with a
write-back shows in no way.
-/

namespace CacheHierarchy

variable {α : Type}

namespace Machine

variable {v : Vantage α} {asked : Nat → List Bool} {o : Outline α} {m : Machine} {i b n : Nat}
  {r : Request}

/-! The fill stage. -/

theorem fillBypassed_outlined (h : m.Outlined v (some (.fills i, n)) asked o)
    (hr : r.kind.isWriteBack = false) (hbypass : r.bypass = true) (kind : AccessKind) :
    Yields (fun _ m' => m'.Outlined v (some (.fills i, n)) asked
        (o.fillTop v.plan i (r.errand v asked)))
      (fillBypassed i r kind m) := by
  have hbypass' : (r.errand v asked).bypass = true := hbypass
  rw [Outline.fillTop, hbypass', if_pos rfl]
  refine Ends.bind (cacheAt_yields fun c hc => ?_)
  have hput := h.put_counters _ (g := (·.countBackInvalidation false)) hc
    (c.tags.counters.bare_countBackInvalidation kind.isWrite) c.expected
  have hnoted := hput.noted (.bypassed i r kind c.cycle) fun _ => rfl
  refine Ends.bind (setCache_ends (Ends.bind (record_ends ?_)))
  split
  · refine Ends.seq (writeStraightBack_outlined hnoted (by simp) _ _) fun _ m' h' => ?_
    exact h'.finish (by simp) hr
  · exact hnoted.finish (by simp) hr

theorem fillInstalled_outlined (h : m.Outlined v (some (.fills i, n)) asked o)
    (hr : r.kind.isWriteBack = false) (hbypass : r.bypass = false) {kind : AccessKind}
    (hkind : kind.isDemand = true) :
    Yields (fun _ m' => m'.Outlined v (some (.fills i, n)) asked
        (o.fillTop v.plan i (r.errand v asked)))
      (fillInstalled i r kind m) := by
  have hbypass' : (r.errand v asked).bypass = false := hbypass
  rw [Outline.fillTop, hbypass', if_neg Bool.false_ne_true]
  refine Ends.bind (cacheAt_yields fun c hc => Ends.bind (Yields.attempt fun result hresult => ?_))
  obtain ⟨resident, tags⟩ := result
  obtain ⟨-, hturns, -⟩ := TagArray.fill_inv hkind hresult
  have hput := h.put_row hc hturns (fun s tag => s.clean_place tag kind.isWrite) (by split <;> rfl)
  rw [(h.regular.caches i c hc).line_eq, ← Plan.lines_of_lt (h.regular.lt_size hc)] at hput
  have hnoted := hput.noted (.filled i r kind c.cycle) fun _ => rfl
  refine Ends.bind (setCache_ends (Ends.bind (record_ends ?_)))
  cases tags.lastEviction with
  | none => exact hnoted.finish (by simp) hr
  | some evicted =>
    obtain ⟨addr, dirty⟩ := evicted
    have hevicted := hnoted.noted (.evicted i addr dirty c.cycle) fun _ => rfl
    refine Ends.bind (record_ends ?_)
    cases dirty with
    | false => exact hevicted.finish (by simp) hr
    | true =>
      rw [if_pos rfl]
      split
      · trivial
      · refine Ends.seq (writeBack_outlined hevicted (by simp) _) fun _ m' h' => ?_
        exact h'.finish (by simp) hr

theorem fillTop_outlined (h : m.Outlined v (some (.fills i, n)) asked o)
    (hr : r.kind.isWriteBack = false)
    (hkind : ((m.outstanding.kindOf? r.id).getD r.kind).isDemand = true) :
    Yields (fun _ m' => m'.Outlined v (some (.fills i, n)) asked
        (o.fillTop v.plan i (r.errand v asked)))
      (fillTop i r m) := by
  apply Ends.get_bind
  cases hbypass : r.bypass with
  | true => exact fillBypassed_outlined h hr hbypass _
  | false => exact fillInstalled_outlined h hr hbypass hkind

theorem evictBelow_outlined {ports : Ports} {victim cycle : Nat} {dirty : Bool}
    (hports : v.plan.topology.above b = .caches ports)
    (h : m.Outlined v (some (.fills b, n)) asked o) :
    Yields (fun _ m' => m'.Outlined v (some (.fills b, n)) asked
        (v.plan.topology.ports.foldl (Outline.withdrawFrom v.plan b victim) o)) ((do
      record (.evicted b (v.plan.base b victim) dirty cycle)
      if dirty then writeBack b (v.plan.base b victim)
      divertWriteBacks b (v.plan.base b victim)
      withdrawAbove b (v.plan.base b victim)) m) := by
  have hevicted := h.noted (.evicted b (v.plan.base b victim) dirty cycle) fun _ => rfl
  have hrest : ∀ m', m'.Outlined v (some (.fills b, n)) asked o →
      Yields (fun _ m'' => m''.Outlined v (some (.fills b, n)) asked
          (v.plan.topology.ports.foldl (Outline.withdrawFrom v.plan b victim) o))
        ((do
          divertWriteBacks b (v.plan.base b victim)
          withdrawAbove b (v.plan.base b victim)) m') := fun m' h' =>
    Ends.seq (divertWriteBacks_outlined h' (by simp) _) fun _ _ h'' =>
      withdrawAbove_outlined hports h''
  refine Ends.bind (record_ends ?_)
  cases dirty with
  | false => exact hrest _ hevicted
  | true =>
    exact Ends.seq (writeBack_outlined hevicted (by simp) _) fun _ m' h' => hrest m' h'

theorem fillBelow_outlined {ports : Ports} (hports : v.plan.topology.above b = .caches ports)
    (h : m.Outlined v (some (.fills b, n)) asked o) (hdemand : r.kind.isDemand = true)
    (hr : r.kind.isWriteBack = false) :
    Yields (fun _ m' => m'.Outlined v (some (.fills b, n)) asked
        (o.fillBelow v.plan b (r.errand v asked)))
      (fillBelow b ports r m) := by
  have hw : ∀ j k, j ≠ b → some (Spot.fills b, n) ≠ some (.fills j, k) := by
    rintro j k hne ⟨rfl, -⟩
    exact hne rfl
  refine Ends.seq (sendUp_outlined h hports hr hw) fun _ m' h' => ?_
  refine Ends.bind (cacheAt_yields fun c hc => Ends.bind (Yields.attempt fun resident hres => ?_))
  have hregular := h'.regular.caches b c hc
  have hholds := TagArray.contains_inv hres
  rw [← h'.holds_eq hc, hregular.line_eq] at hholds
  have hrows : (o.sendUp (r.errand v asked)).rows = o.rows := rfl
  have hline : (r.errand v asked).line b = v.plan.line b r.addr :=
    Plan.lines_of_lt (h'.regular.lt_size hc) _
  have hholds' : o.holds v.plan b ((r.errand v asked).line b) = resident := hline ▸ hholds.symm
  rw [Outline.fillBelow, hholds']
  cases resident with
  | true => exact record_ends (h'.noted _ fun _ => rfl)
  | false =>
    refine Ends.bind (Yields.attempt fun result hresult => ?_)
    obtain ⟨was, tags⟩ := result
    obtain ⟨-, hturns, hevict⟩ :=
      TagArray.fill_inv (AccessKind.isDemand_belowFirstLevel hdemand) hresult
    have hput := h'.put_row hc hturns (fun s tag => s.clean_place tag _) (by split <;> rfl)
    have hleaving := (v.plan.geometry b).leaving?_clean c.tags.row (v.plan.line b r.addr)
    rw [← h'.rows_eq hc, hrows] at hleaving
    rw [hregular.line_eq] at hput hevict
    rw [hregular.geometry] at hevict
    have hinstalled := hput.noted (.installed b r c.cycle) fun _ => rfl
    refine Ends.bind (setCache_ends (Ends.bind (record_ends ?_)))
    rw [hevict]
    rw [if_neg Bool.false_ne_true, hline, hleaving]
    cases (v.plan.geometry b).leaving? c.tags.row (v.plan.line b r.addr) with
    | none => exact hinstalled
    | some victim =>
      obtain ⟨victim, dirty⟩ := victim
      exact evictBelow_outlined hports hinstalled

theorem absorb_outlined {w : Option (Spot × Nat)} (h : m.Outlined v w asked o) :
    Yields (fun _ m' => m'.Outlined v w asked o) (absorb i r m) := by
  refine Ends.bind (cacheAt_yields fun c hc => ?_)
  split
  · trivial
  refine Ends.bind (Yields.attempt fun tags htags => ?_)
  obtain ⟨-, hturns⟩ := TagArray.absorb_inv htags
  cases c.expected.settle? r.id with
  | none => trivial
  | some settled =>
    have hput := h.put_tags (fun s _ => s) (g := id) hc hturns
      (fun s tag => s.clean_stain tag) rfl settled.2
    rw [Outline.alter_id, Outline.count_id] at hput
    exact Ends.bind (setCache_ends (record_ends (hput.noted _ fun _ => rfl)))

/-- A request that fits its spot is a write-back or a demand request. -/
theorem isDemand_of_fits {p : Plan} {s : Spot} (h : p.Fits r s) (hr : r.kind.isWriteBack = false) :
    r.kind.isDemand = true := by
  have hnot : r.kind ≠ .writeBack := fun hkind => by
    rw [hkind] at hr
    cases hr
  cases s with
  | lookups | finished => simp_all [Plan.Fits]
  | writeBacks => exact absurd h.1 hnot
  | fills | sends => exact (h.resolve_right fun h => hnot h.1).isDemand
  | memory => exact (h.resolve_right fun h => hnot h.1).1

theorem fillOne_outlined (hi : i < v.plan.topology.size)
    (htracks : Tracks v.plan (v.context.hold (.fills i) r) m)
    (h : m.Outlined v (some (.fills i, n)) asked o) :
    Yields (fun _ m' => m'.Outlined v (some (.fills i, n)) asked
        (if r.kind.isWriteBack then o else o.fillOne v.plan i (r.errand v asked)))
      (fillOne i r m) := by
  have hmem := mem_of_eq_cons (Tracks.traffic_hold m v.context (.fills i) r)
  have horderly := htracks.reach.orderly
  unfold fillOne
  cases hkind : r.kind.isWriteBack with
  | true => exact absorb_outlined h
  | false =>
    have hdemand := isDemand_of_fits (horderly.admits _ hmem).fits hkind
    refine Ends.bind (cacheAt_yields fun c hc => ?_)
    rw [(h.regular.caches i c hc).above, if_neg Bool.false_ne_true, Outline.fillOne]
    rcases Topology.lt_size_iff.1 hi with htop | hb
    · have hne : v.plan.topology.base? ≠ some i := fun hb => Topology.base_not_mem_tops hb htop
      obtain ⟨e, -, -, hdescribes, hserviced⟩ := horderly.exists_kindOf hmem hdemand
      rw [Topology.above_top htop, if_neg hne]
      refine fillTop_outlined h hkind ?_
      rw [show (m.outstanding.kindOf? r.id).getD r.kind = e.kind from hserviced]
      exact hdescribes.isDemand
    · obtain ⟨ports, habove, -⟩ := Topology.above_base hb
      rw [habove, if_pos hb]
      exact fillBelow_outlined habove h hdemand hkind

/-! The send stage. -/

theorem sendOne_outlined (h : m.Outlined v (some (.sends i, n)) asked o) :
    Yields (fun _ m' => m'.Outlined v (some (.sends i, n)) asked
        (if r.kind.isWriteBack then o else o.sendOne v.plan i (r.errand v asked)))
      (sendOne i r m) := by
  refine Ends.bind (cacheAt_yields fun c hc => ?_)
  dsimp only
  by_cases hsent : (r.kind.isDemand || r.kind.isWriteBack) = true
  swap
  · rw [if_neg hsent]
    trivial
  have hnoted := h.noted (.sentDown i r c.cycle) fun _ => rfl
  rw [if_pos hsent]
  refine Ends.bind (record_ends ?_)
  rw [(h.regular.caches i c hc).below, Outline.sendOne]
  cases v.plan.topology.below i with
  | memory => exact sendToMemory_yields (hnoted.accepting (by simp) r)
  | cache j =>
    cases hkind : r.kind.isWriteBack with
    | true =>
      refine handFill_yields fun d hne hd => ?_
      have hpush := hnoted.pushFill hd (by simp) r
      rwa [hkind] at hpush
    | false => exact handDown_yields fun d hne hd => hnoted.pushLookup hd (by simp) hkind

/-! The look-up stage. -/

theorem top_eq_iff {t : Topology} (hi : i ∈ t.tops) (kind : AccessKind) :
    t.top kind.side = i ↔ t.entryFor? kind = some i := by
  unfold Topology.top Topology.entryFor?
  cases t <;> simp_all [Topology.tops, Topology.entry?]

/-- A look-up finds an outstanding miss to join exactly if the outline has one. -/
theorem awaits_iff (hi : i ∈ v.plan.topology.tops)
    (htracks : Tracks v.plan (v.context.hold (.lookups i) r) m)
    (h : m.Outlined v (some (.lookups i, n)) asked o) (line : Nat) :
    o.Awaits i line ↔ ∃ e ∈ m.outstanding.entries, e.mark = some ⟨i, line⟩ := by
  have horderly := htracks.reach.orderly
  have ht := Tracks.traffic_hold m v.context (.lookups i) r
  have hlines : ∀ r' : Request, (r'.errand v asked).line i = v.plan.line i r'.addr := fun r' =>
    Plan.lines_of_lt (Topology.lt_size_of_mem_tops hi) _
  have hheld := (horderly.admits _ (mem_of_eq_cons ht)).fits.lookups_top hi
  have hmem : ∀ {s r'}, r' ∈ m.itemsAt s →
      (s, r') ∈ (m.overview (v.context.hold (.lookups i) r)).traffic := fun hr' =>
    Multiset.mem_add.2 (.inl (mem_itemsAt.1 hr'))
  constructor
  · rintro ⟨s, e, he, hmiss, htop, hline⟩
    rw [h.queue_eq, Request.mem_errands] at he
    obtain ⟨r', hr', hkind, rfl⟩ := he
    have hdemand := isDemand_of_fits (horderly.admits _ (hmem hr')).fits hkind
    obtain ⟨e, he, -, hdescribes⟩ := horderly.exists_entry (hmem hr') hdemand
    refine ⟨e, he, ?_⟩
    have hmark := hdescribes.mark
    rw [if_pos (show r'.isMiss = true from hmiss), (top_eq_iff hi _).1 htop, Option.map_some]
      at hmark
    exact hmark.trans (congrArg (fun l => some (MissMark.mk i l)) ((hlines r').symm.trans hline))
  · rintro ⟨e, he, hmark⟩
    obtain ⟨⟨s, r'⟩, hx, hdemand, -, hdescribes⟩ := horderly.exists_request he
    obtain ⟨hmiss, hentry, hline⟩ := hdescribes.of_mark hmark
    have hkind : r'.kind.isWriteBack = false := by
      rw [Bool.eq_false_iff, ne_eq, AccessKind.isWriteBack_iff]
      exact Request.ne_writeBack hdemand
    have hne : (s, r') ≠ (.lookups i, r) := by
      rintro ⟨⟩
      rw [hheld.2.2] at hmiss
      cases hmiss
    rw [ht, Multiset.mem_cons, or_iff_right hne] at hx
    have hr' : r' ∈ m.itemsAt s := mem_itemsAt.2 (by
      simpa only [Machine.overview, Vantage.context, add_zero] using hx)
    refine ⟨s, r'.errand v asked, ?_, hmiss, (top_eq_iff hi _).2 hentry, (hlines r').trans hline⟩
    rw [h.queue_eq]
    exact (Request.mem_errands v asked _).2 ⟨r', hr', hkind, rfl⟩

theorem alter_use_of_not_holds {p : Plan} {line : Nat} (h : o.holds p i line = false) :
    o.alter p i line (LineSet.use false) = o := by
  rw [Outline.alter, Geometry.alter_of_not_holds _ _ _ h, Function.update_eq_self]

theorem put_lookup {w : Option (Spot × Nat)} {c : Cache} {kind : AccessKind} {hit : Bool}
    {tags : TagArray} (h : m.Outlined v w asked o) (hc : m.caches[i]? = some c)
    (hdemand : kind.isDemand = true) (hlookup : c.tags.lookup r.addr kind = .ok (hit, tags)) :
    o.holds v.plan i (v.plan.line i r.addr) = hit ∧
      (m.put i { c with tags }).Outlined v w asked
        ((o.alter v.plan i (v.plan.line i r.addr) (LineSet.use false)).count i
          (·.countLookup hit false)) := by
  rw [TagArray.lookup_demand _ _ hdemand] at hlookup
  obtain ⟨hhit, hturns⟩ := TagArray.lookupDemand_inv hlookup
  have hregular := h.regular.caches i c hc
  rw [← h.holds_eq hc, hregular.line_eq] at hhit
  refine ⟨hhit.symm, ?_⟩
  have hput := h.put_tags _ (g := (·.countLookup hit false)) hc hturns
    (fun s tag => s.clean_use tag kind.isWrite) (c.tags.counters.bare_countLookup hit _) c.expected
  rwa [hregular.line_eq] at hput

theorem lookUpTags_outlined (htop : i ∈ v.plan.topology.tops) (hdemand : r.kind.isDemand = true)
    (hkind : r.kind.isWriteBack = false) (hready : r.readyAt ≤ o.clock (.cache i))
    (hnodup : m.outstanding.ids.Nodup) (h : m.Outlined v (some (.lookups i, n)) asked o) :
    Yields (fun _ m' => m'.Outlined v (some (.lookups i, n)) asked
        (if o.holds v.plan i (v.plan.line i r.addr) then
          ((o.alter v.plan i (v.plan.line i r.addr) (LineSet.use false)).count i
            (·.countLookup true false)).push .finished (r.errand v asked)
        else (o.count i (·.countLookup false false)).push (.sends i)
          { r.errand v asked with isMiss := true }))
      (lookUpTags i r m) := by
  have hne : v.plan.topology.base? ≠ some i := fun hb => Topology.base_not_mem_tops hb htop
  refine Ends.bind (cacheAt_yields fun c hc => Ends.bind (Yields.attempt fun found hfound => ?_))
  obtain ⟨hit, tags⟩ := found
  have hnoted := h.noted (.lookedUp i r hit c.cycle) fun id => by
    simp [Event.verdict?, hne]
  obtain ⟨hholds, hput⟩ := put_lookup (m := m.noted (.lookedUp i r hit c.cycle)) hnoted hc hdemand
    hfound
  refine Ends.bind (record_ends ?_)
  rw [hholds]
  cases hit with
  | true => exact Ends.bind (setCache_ends (hput.finish (by simp) hkind))
  | false =>
    have hc' := caches_put_self (m := m.noted (.lookedUp i r false c.cycle)) hc { c with tags }
    have hpush := hput.pushSend (r := { r with isMiss := true }) hc' (by simp) hkind
      (h.clock_eq hc ▸ hready)
    rw [alter_use_of_not_holds hholds, put_put] at hpush
    refine Ends.bind (setCache_ends (Ends.of_modify (hpush.with_outstanding _ ?_)))
    exact (congrArg Outstanding.ids (Outstanding.markMiss_eq_await hnodup _ _ _)).trans
      (Outstanding.ids_await _ _ _)

theorem lookUpTop_outlined (htop : i ∈ v.plan.topology.tops) (hdemand : r.kind.isDemand = true)
    (hkind : r.kind.isWriteBack = false) (hready : r.readyAt ≤ o.clock (.cache i))
    (htracks : Tracks v.plan (v.context.hold (.lookups i) r) m)
    (h : m.Outlined v (some (.lookups i, n)) asked o) :
    Yields (fun _ m' => m'.Outlined v (some (.lookups i, n)) asked
        (o.lookUpTop v.plan i (r.errand v asked)))
      (lookUpTop i r m) := by
  have hawaits := awaits_iff htop htracks h (v.plan.line i r.addr)
  have htags := lookUpTags_outlined htop hdemand hkind hready htracks.reach.orderly.nodup h
  have hline : (r.errand v asked).line i = v.plan.line i r.addr :=
    Plan.lines_of_lt (Topology.lt_size_of_mem_tops htop) _
  refine Ends.bind (cacheAt_yields fun c hc => Ends.bind (Yields.attempt fun held hheld => ?_))
  have hregular := h.regular.caches i c hc
  have hholds := TagArray.contains_inv hheld
  rw [← h.holds_eq hc, hregular.line_eq] at hholds
  rw [Outline.lookUpTop, hline, ← hholds]
  rw [← hholds] at htags
  cases held with
  | true => exact htags
  | false =>
    rw [if_neg Bool.false_ne_true] at htags ⊢
    apply Ends.get_bind
    rw [hregular.line_eq]
    cases hmerge : m.outstanding.merge? i (v.plan.line i r.addr) r.kind with
    | none =>
      have hnone : ¬o.Awaits i (v.plan.line i r.addr) := fun hawait => by
        obtain ⟨e, he, hmark⟩ := hawaits.1 hawait
        exact Outstanding.merge?_eq_none hmerge e he hmark
      rw [if_neg hnone]
      exact htags
    | some merged =>
      obtain ⟨into, outstanding⟩ := merged
      obtain ⟨⟨e, he, -, hmark⟩, rfl⟩ :=
        Outstanding.merge?_eq_some htracks.reach.orderly.nodup hmerge
      rw [if_pos (hawaits.2 ⟨e, he, hmark⟩)]
      have hjoined := h.with_outstanding (m.outstanding.join into r.kind)
        (Outstanding.ids_join ..)
      have hput := hjoined.put_counters _ (g := (·.countLookup true false)) hc
        (c.tags.counters.bare_countLookup true r.kind.isWrite) c.expected
      have hnoted := hput.noted (.merged i r into c.cycle) fun _ => rfl
      refine Ends.modify_bind (Ends.bind (setCache_ends (Ends.bind (record_ends ?_))))
      exact hnoted.finish (by simp) hkind

theorem lookUpBelow_outlined {ports : Ports} (hb : v.plan.topology.base? = some b)
    (hports : v.plan.topology.above b = .caches ports) (hdemand : r.kind.isDemand = true)
    (hkind : r.kind.isWriteBack = false) (hready : r.readyAt ≤ o.clock (.cache b))
    (htracks : Tracks v.plan (v.context.hold (.lookups b) r) m)
    (h : m.Outlined v (some (.lookups b, n)) asked o) :
    Yields (fun _ m' => ∃ asked', m'.Outlined v (some (.lookups b, n)) asked'
        (o.lookUpBelow v.plan b (r.errand v asked)))
      (lookUpBelow b ports r m) := by
  have ht := Tracks.traffic_hold m v.context (.lookups b) r
  have horderly := htracks.reach.orderly
  have hitems : ∀ s, ∀ r' ∈ m.itemsAt s, r'.kind.isWriteBack = false → r'.id ≠ r.id := by
    intro s r' hr' hkind'
    have hmem : (s, r') ∈ (m.overview v.context).traffic :=
      Multiset.mem_add.2 (.inl (mem_itemsAt.1 hr'))
    refine horderly.id_ne ht hdemand hmem ?_
    exact isDemand_of_fits
      (horderly.admits _ (ht ▸ Multiset.mem_cons_of_mem hmem)).fits hkind'
  have hlt : r.id < m.nextId := horderly.id_lt (mem_of_eq_cons ht) hdemand
  have hcompletions : ∀ d ∈ v.completions, d.id ≠ r.id := fun d hd =>
    htracks.reach.id_ne_of_completion (mem_of_eq_cons ht) hdemand hd
  refine Ends.bind (cacheAt_yields fun c hc => Ends.bind (Yields.attempt fun found hfound => ?_))
  obtain ⟨hit, tags⟩ := found
  have hnoted := h.noted_lookedUp hit c.cycle hb hlt hitems hcompletions
  obtain ⟨hholds, hput⟩ := put_lookup (m := m.noted (.lookedUp b r hit c.cycle)) hnoted hc
    (AccessKind.isDemand_belowFirstLevel hdemand) hfound
  have hasked : r.errand v (Function.update asked r.id (hit :: asked r.id)) =
      { r.errand v asked with asked := hit :: asked r.id } := by
    simp [Request.errand]
  have hline : (r.errand v asked).line b = v.plan.line b r.addr :=
    Plan.lines_of_lt (Topology.lt_size_of_base? hb) _
  refine Ends.bind (record_ends ?_)
  rw [Outline.lookUpBelow, hline, hholds]
  cases hit with
  | true =>
    have hup := sendUp_outlined (r := { r with dirty := false }) hput hports hkind (by simp)
    have herrand : ({ r with dirty := false } : Request).errand v
        (Function.update asked r.id (true :: asked r.id)) =
        r.errand v (Function.update asked r.id (true :: asked r.id)) := rfl
    rw [herrand, hasked] at hup
    exact Ends.bind (setCache_ends (hup.mono (fun _ m' hm' => ⟨_, hm'⟩) fun _ _ => id))
  | false =>
    have hc' := caches_put_self (m := m.noted (.lookedUp b r false c.cycle)) hc { c with tags }
    have hpush := hput.pushSend hc' (by simp) hkind (h.clock_eq hc ▸ hready)
    rw [alter_use_of_not_holds hholds, put_put, hasked] at hpush
    exact setCache_ends ⟨_, hpush⟩

theorem lookUpOne_outlined (hi : i < v.plan.topology.size)
    (htracks : Tracks v.plan (v.context.hold (.lookups i) r) m)
    (hready : r.readyAt ≤ o.clock (.cache i))
    (h : m.Outlined v (some (.lookups i, n)) asked o) :
    Yields (fun _ m' => ∃ asked', m'.Outlined v (some (.lookups i, n)) asked'
        (if r.kind.isWriteBack then o else o.lookUpOne v.plan i (r.errand v asked)))
      (lookUpOne i r m) := by
  have hfits := (htracks.reach.orderly.admits _
    (mem_of_eq_cons (Tracks.traffic_hold m v.context (.lookups i) r))).fits
  have hdemand := hfits.1
  have hkind : r.kind.isWriteBack = false := by
    rw [Bool.eq_false_iff, ne_eq, AccessKind.isWriteBack_iff]
    exact Request.ne_writeBack hdemand
  refine Ends.bind (cacheAt_yields fun c hc => ?_)
  rw [(h.regular.caches i c hc).above, hkind, if_neg Bool.false_ne_true, Outline.lookUpOne]
  rcases Topology.lt_size_iff.1 hi with htop | hb
  · have hne : v.plan.topology.base? ≠ some i := fun hb => Topology.base_not_mem_tops hb htop
    rw [Topology.above_top htop, if_neg hne]
    exact (lookUpTop_outlined htop hdemand hkind hready htracks h).mono
      (fun _ _ h' => ⟨_, h'⟩) fun _ _ => id
  · obtain ⟨ports, habove, -⟩ := Topology.above_base hb
    rw [habove, if_pos hb]
    exact lookUpBelow_outlined hb habove hdemand hkind hready htracks h

/-! The turn of memory. -/

theorem memoryOne_outlined (h : m.Outlined v (some (.memory, n)) asked o) :
    Yields (fun _ m' => m'.Outlined v (some (.memory, n)) asked
        (if r.kind.isWriteBack then o else o.read v.plan (r.errand v asked)))
      (memoryOne r m) := by
  unfold memoryOne
  cases hkind : r.kind.isWriteBack with
  | true =>
    apply Ends.get_bind
    cases m.memory.expected.settle? r.id with
    | none => trivial
    | some settled =>
      refine Ends.bind (Yields.attempt_add (Ends.set_bind (record_ends ?_)))
      exact (h.with_expected settled.2 (m.memory.writeBacks + 1)).noted _ fun _ => rfl
  | false =>
    have hcounted : Outlined v (some (.memory, n)) asked { o with reads := o.reads + 1 }
        { m with memory := { m.memory with reads := m.memory.reads + 1 } } := by
      refine ⟨⟨h.regular.length, h.regular.caches, h.regular.memory, h.regular.above⟩, h.unasked,
        h.asked, ?_, h.length_le⟩
      rw [← h.outline]
      rfl
    refine Ends.get_bind (Ends.bind (Yields.attempt_add (Ends.set_bind ?_)))
    rw [h.regular.above, if_neg Bool.false_ne_true, Outline.read]
    cases v.plan.topology.last? with
    | none => exact hcounted.finish (by simp) hkind
    | some i =>
      refine Ends.bind (cacheAt_yields fun c hc => Ends.bind (acceptFill_yields (setCache_ends ?_)))
      have hpush := hcounted.pushFill hc (by simp) r
      rwa [hkind] at hpush

end Machine

end CacheHierarchy
