import CacheHierarchy.Proofs.Atomic.Evictions
import CacheHierarchy.Proofs.Outline.Requests

/-!
# Requests and tasks

Dealing with one request takes a task one step further. What is left of the task once the request
has been dealt with leads to the result of the task from the contents as they are then, and a
write-back that is dealt with changes nothing, for it was anticipated.
-/

namespace CacheHierarchy

def Machine.Works (p : Plan) (t : Task) (waits : Bool) (x : Context) (m : Machine) : Prop :=
  ∃ σ, m.Stands p x σ ∧ σ.Stage p t waits

namespace Machine

variable {p : Plan} {t : Task} {waits : Bool} {x : Context} {σ : Scene} {m : Machine} {i b : Nat}
  {r : Request}

/-! The send stage. -/

theorem sendOne_works (h : m.Stands p x σ) (hstage : (σ.add (.sends i) r).Stage p t waits) :
    Yields (fun _ m' => m'.Works p t waits x) (sendOne i r m) := by
  refine Ends.bind (cacheAt_yields fun c hc => ?_)
  dsimp only
  by_cases hsent : (r.kind.isDemand || r.kind.isWriteBack) = true
  swap
  · rw [if_neg hsent]
    trivial
  have hnoted := h.noted (.sentDown i r c.cycle)
  rw [if_pos hsent]
  refine Ends.bind (record_ends ?_)
  rw [(h.sound.caches i c hc).below]
  cases hbelow : p.topology.below i with
  | memory =>
    have hsite : p.receiver? (.sends i) = some .memory := by
      simp [Plan.receiver?, hbelow, Below.site]
    refine sendToMemory_yields ⟨_, hnoted.accepting _, ?_⟩
    exact hstage.move hsent (by simp) (by simp) rfl (fun _ => ⟨_, hsite, rfl⟩)
      fun _ _ _ => Plan.rest_leave hbelow
  | cache b =>
    have hsite : p.receiver? (.sends i) = some (.cache b) := by
      simp [Plan.receiver?, hbelow, Below.site]
    have hdsound : ∀ (d : Cache) lookups fills, m.caches[b]? = some d →
        Cache.Sound p b { d with lookups, fills } := fun d _ _ hd =>
      (h.sound.caches b d hd).congr rfl rfl rfl rfl
    cases hkind : r.kind.isWriteBack with
    | true =>
      refine handFill_yields fun d hne hd =>
        ⟨_, hnoted.put_push _ hd (traffic_push_fills d) (hdsound d _ _ hd) rfl, ?_⟩
      refine hstage.move hsent (by simp) (by simp) rfl (fun _ => ⟨_, hsite, rfl⟩) fun hdemand => ?_
      exact absurd (AccessKind.isWriteBack_iff.1 hkind) (Request.ne_writeBack hdemand)
    | false =>
      refine handDown_yields fun d hne hd =>
        ⟨_, hnoted.put_push _ hd (traffic_push_lookups d) (hdsound d _ _ hd) rfl, ?_⟩
      refine hstage.move hsent (by simp) (by simp) rfl (fun hwriteBack => ?_)
        fun _ _ _ => Plan.rest_handDown hbelow
      rw [hwriteBack] at hkind
      cases hkind

/-! The turn of memory. -/

theorem memoryOne_works (hlast : p.topology.last? ≠ none) (h : m.Stands p x σ)
    (hr : (r.kind.isDemand || r.kind.isWriteBack) = true)
    (hstage : (σ.add .memory r).Stage p t waits) :
    Yields (fun _ m' => m'.Works p t waits x) (memoryOne r m) := by
  unfold memoryOne
  cases hkind : r.kind.isWriteBack with
  | true =>
    apply Ends.get_bind
    cases m.memory.expected.settle? r.id with
    | none => trivial
    | some settled =>
      have hwriteBack := AccessKind.isWriteBack_iff.1 hkind
      have htaken : Stands p x { σ with writeBacks := σ.writeBacks + 1 } { m with
          memory := { m.memory with
            expected := settled.2, writeBacks := m.memory.writeBacks + 1 } } :=
        ⟨h.sound.congr rfl rfl, h.scene ▸ rfl⟩
      refine Ends.bind (Yields.attempt_add (Ends.set_bind (record_ends ?_)))
      refine ⟨_, htaken.noted _, hstage.congr ?_ ?_ rfl fun hcalm y hy => ?_⟩
      · exact (Scene.demands_add_writeBack hwriteBack).symm
      · rw [Scene.contents_add_memory hwriteBack rfl]
        exact Scene.contents_count
      · exact hcalm y (Multiset.mem_cons_of_mem hy)
  | false =>
    have hcounted : Stands p x σ
        { m with memory := { m.memory with reads := m.memory.reads + 1 } } :=
      ⟨h.sound.congr rfl rfl, h.scene⟩
    refine Ends.get_bind (Ends.bind (Yields.attempt_add (Ends.set_bind ?_)))
    rw [h.sound.above]
    cases hi : p.topology.last? with
    | none => exact absurd hi hlast
    | some i =>
      refine Ends.bind (cacheAt_yields fun c hc => Ends.bind (acceptFill_yields (setCache_ends ?_)))
      have hpush := hcounted.put_push _ hc
        (traffic_push_fills (r := { r with readyAt := c.cycle + c.latency }) c)
        ((hcounted.sound.caches i c hc).congr rfl rfl rfl rfl) rfl
      refine ⟨_, hpush, hstage.move hr (by simp) (by simp) rfl
        (fun hwriteBack => ?_) fun _ _ _ => Plan.rest_read hi⟩
      rw [hwriteBack] at hkind
      cases hkind

/-! The fill stage. -/

theorem absorb_works (h : m.Stands p x σ) (hr : r.kind = .writeBack)
    (hstage : (σ.add (.fills i) r).Stage p t waits) :
    Yields (fun _ m' => m'.Works p t waits x) (absorb i r m) := by
  refine Ends.bind (cacheAt_yields fun c hc => ?_)
  have hsound := h.sound.caches i c hc
  have hi : i < p.topology.size := h.sound.length ▸ (List.getElem?_eq_some_iff.1 hc).1
  split
  · trivial
  refine Ends.bind (Yields.attempt fun tags htags => ?_)
  obtain ⟨-, hturns⟩ := TagArray.absorb_inv htags
  cases c.expected.settle? r.id with
  | none => trivial
  | some settled =>
    have hput := h.put_tags hc hturns (hsound.tags.of_absorb htags) settled.2
    have hdoomed : p.Doomed i (c.tags.geometry.lineOf r.addr) (.fills i, r) :=
      ⟨hr, rfl, (hsound.line_eq r.addr).symm⟩
    refine Ends.bind (setCache_ends (record_ends ⟨_, hput.noted _, ?_⟩))
    refine hstage.congr (Scene.demands_add_writeBack hr).symm ?_ rfl fun hcalm y hy => ?_
    · rw [Scene.contents_turn_stain h.tidy hi, Scene.contents_add_cache hdoomed]
    · exact hcalm y (Multiset.mem_cons_of_mem hy)

theorem finish_works (h : m.Stands p x σ) (hfree : demands σ.traffic = 0)
    (hr : r.kind.isDemand = true) (hresult : (r.isMiss, σ.contents p) = t.result) :
    Works p t true x { m with finished := m.finished ++ [r.finish] } :=
  ⟨_, h.finish r, .done hfree hr (congrArg Prod.fst hresult) (congrArg Prod.snd hresult)⟩

/-- A dirty line that a first-level cache displaces becomes dirty in the base, or goes to memory. -/
theorem contents_add_evicted {lineSize victim : Nat} (huniform : p.Uniform lineSize)
    (hi : i ∈ p.topology.tops) (hr : r.kind = .writeBack) (haddr : r.addr = p.base i victim) :
    (σ.add (.writeBacks i) r).contents p =
      p.topology.base?.elim ((σ.contents p).spill true) fun b =>
        (σ.contents p).alter p b victim Stack.stain := by
  cases hb : p.topology.base? with
  | none =>
    refine Scene.contents_add_memory hr ?_
    rw [Plan.receiver?, Topology.below_of_base?_eq_none hb]
    rfl
  | some b =>
    refine Scene.contents_add_cache ⟨hr, ?_, ?_⟩
    · rw [Plan.receiver?, Topology.below_top hb hi]
      rfl
    · rw [haddr]
      exact line_base_of_uniform huniform (Topology.lt_size_of_base? hb)
        (Topology.lt_size_of_mem_tops hi) victim

theorem fillInstalled_works {line : Nat} {kind : AccessKind} (huniform : p.Uniform t.lineSize)
    (hi : i ∈ p.topology.tops) (hkind : kind.isDemand = true) (hr : r.kind.isDemand = true)
    (haddr : r.addr < wordLimit) (hline : p.line i r.addr = line) (h : m.Stands p x σ)
    (hfree : demands σ.traffic = 0) (hcalm : σ.Calm p)
    (hrest : (r.isMiss, (σ.contents p).fillIn p i line kind.isWrite) = t.result) :
    Yields (fun _ m' => m'.Works p t true x) (fillInstalled i r kind m) := by
  have hlt := Topology.lt_size_of_mem_tops hi
  refine Ends.bind (cacheAt_yields fun c hc => Ends.bind (Yields.attempt fun result hresult => ?_))
  obtain ⟨resident, tags⟩ := result
  have hsound := h.sound.caches i c hc
  obtain ⟨-, hturns, hevict⟩ := TagArray.fill_inv hkind hresult
  have hput := h.put_tags hc hturns (hsound.tags.of_fill hkind haddr hresult) c.expected
  have hplaced := Scene.contents_turn_place hcalm h.tidy hlt kind.isWrite line
  have hleaving := Scene.leaving?_contents hcalm h.tidy hlt line
  rw [hsound.line_eq, hline] at hput hevict
  rw [hsound.geometry, ← h.rows_eq hc, ← hleaving] at hevict
  have hnoted := hput.noted (.filled i r kind c.cycle)
  refine Ends.bind (setCache_ends (Ends.bind (record_ends ?_)))
  rw [hevict]
  simp only [Contents.fillIn, ← hplaced] at hrest
  cases hvictim : (σ.contents p).leaving? p i line with
  | none =>
    rw [hvictim] at hrest
    exact finish_works hnoted hfree hr hrest
  | some evicted =>
    obtain ⟨victim, dirty⟩ := evicted
    rw [hvictim] at hrest
    have hevicted := hnoted.noted (.evicted i (p.base i victim) dirty c.cycle)
    refine Ends.bind (record_ends ?_)
    cases dirty with
    | false => exact finish_works hevicted hfree hr hrest
    | true =>
      dsimp only
      rw [if_pos rfl]
      split
      · trivial
      · -- the copy that is written back is anticipated from here on
        refine Ends.seq (writeBack_stands hevicted (p.base i victim)) ?_
        rintro - m' ⟨w, hw, hwaddr, h'⟩
        refine finish_works h' ?_ hr ?_
        · rwa [Scene.demands_add_writeBack hw]
        · rwa [contents_add_evicted huniform hi hw hwaddr]

theorem fillTop_works (huniform : p.Uniform t.lineSize) (hi : i ∈ p.topology.tops)
    (htracks : Tracks p (x.hold (.fills i) r) m) (h : m.Stands p x σ)
    (hr : r.kind.isDemand = true) (hfree : demands σ.traffic = 0)
    (hserves : σ.Serves p t (.fills i) r) :
    Yields (fun _ m' => m'.Works p t true x) (fillTop i r m) := by
  have hmem := mem_of_eq_cons (Tracks.traffic_hold m x (.fills i) r)
  have horderly := htracks.reach.orderly
  obtain ⟨e, he, -, hdescribes, hserviced⟩ := horderly.exists_kindOf hmem hr
  have hkind : (m.outstanding.kindOf? r.id).getD r.kind = t.kind := by
    have houtstanding : m.outstanding = σ.outstanding := h.scene ▸ rfl
    rw [← hserves.serviced e (houtstanding ▸ he), ← hserviced]
    rfl
  have htop : p.topology.top t.kind.side = i := by
    rw [← hserves.kind, top_eq_iff hi]
    exact ((horderly.admits _ hmem).fits.fills_top hi).2.1
  have hrest := hserves.rest
  rw [Plan.rest_fills_top hi, htop] at hrest
  apply Ends.get_bind
  rw [hkind, hserves.bypass, if_neg Bool.false_ne_true]
  exact fillInstalled_works huniform hi (hserves.kind ▸ hr) hr (horderly.admits _ hmem).addr_lt
    (hserves.line_eq huniform (Topology.lt_size_of_mem_tops hi)) h hfree hserves.calm hrest

theorem not_mem_fills (hfree : demands σ.traffic = 0) (hcalm : σ.Calm p)
    (hfits : ∀ y ∈ σ.traffic, p.Fits y.2 y.1) (j : Nat) (r : Request) :
    (.fills j, r) ∉ σ.traffic := by
  intro hr
  rcases hfits _ hr with hpass | ⟨hwriteBack, -⟩
  · exact Multiset.eq_zero_iff_forall_notMem.1 hfree _ (Multiset.mem_filter.2 ⟨hr, hpass.isDemand⟩)
  · exact hcalm _ hr j _ ⟨hwriteBack, rfl, rfl⟩

/-- What follows once the base has displaced a line, and a dirty copy of it has been written back. -/
theorem repair_sheds {victim : Nat} {σ' : Scene} {c : Contents} (huniform : p.Uniform t.lineSize)
    (hb : p.topology.base? = some b) (h : m.Stands p x σ') (hcalm : σ.Calm p)
    (hsheds : σ.Sheds p σ' c)
    (hfills : ∀ j r, (.fills j, r) ∈ σ.traffic → p.line j r.addr ≠ victim) :
    Yields (fun _ m' => ∃ σ'', m'.Stands p x σ'' ∧ σ.Sheds p σ'' (c.withdrawAll p victim))
      ((do
        divertWriteBacks b (p.base b victim)
        withdrawAbove b (p.base b victim)) m) := by
  have hlt := Topology.lt_size_of_base? hb
  have hclear : ∀ y ∈ σ'.traffic, ¬p.Doomed b victim y := fun y hy =>
    hsheds.calm hcalm y hy b victim
  refine Ends.seq (divertWriteBacks_of_clear hb hclear h (p.line_base b victim)) fun _ m' h' => ?_
  refine (withdrawAbove_stands huniform hlt hb h' (hsheds.calm hcalm) fun j r hr =>
    hfills j r (hsheds.mem_fills hr)).mono ?_ fun _ _ => id
  rintro - m'' ⟨σ'', h'', hsheds'⟩
  rw [hsheds.contents] at hsheds'
  exact ⟨σ'', h'', hsheds.trans hsheds'⟩

/-- The part of `fillBelow` that takes a line in. -/
def takeIn (b : Nat) (r : Request) : Action Unit := do
  let c ← cacheAt b
  if ← attempt (c.tags.contains r.addr) then
    record (.forwardedOnly b r.addr c.cycle)
  else
    let (_, tags) ← attempt (c.tags.fill r.addr r.kind.belowFirstLevel)
    setCache b { c with tags }
    record (.installed b r c.cycle)
    if let some evicted := tags.lastEviction then
      record (.evicted b evicted.addr evicted.dirty c.cycle)
      if evicted.dirty then writeBack b evicted.addr
      divertWriteBacks b evicted.addr
      withdrawAbove b evicted.addr

theorem fillBelow_eq (b : Nat) (ports : Ports) (r : Request) :
    fillBelow b ports r = sendUp b ports r >>= fun _ => takeIn b r := rfl

/-- The base takes a line in that it does not hold. -/
theorem takeIn_sheds {line : Nat} (huniform : p.Uniform t.lineSize)
    (hb : p.topology.base? = some b) (hr : r.kind.isDemand = true) (haddr : r.addr < wordLimit)
    (hline : p.line b r.addr = line) (h : m.Stands p x σ) (hcalm : σ.Calm p)
    (hfills : ∀ j r', (.fills j, r') ∈ σ.traffic → p.line j r'.addr = line) :
    Yields (fun _ m' => ∃ σ', m'.Stands p x σ' ∧ σ.Sheds p σ' ((σ.contents p).bring p line))
      (takeIn b r m) := by
  have hlt := Topology.lt_size_of_base? hb
  refine Ends.bind (cacheAt_yields fun c hc => Ends.bind (Yields.attempt fun resident hres => ?_))
  have hsound := h.sound.caches b c hc
  have hrows := h.rows_eq hc
  have hholds := TagArray.contains_inv hres
  rw [hsound.line_eq, hline, hsound.geometry, ← hrows] at hholds
  rw [Contents.bring, hb, Option.elim_some, Scene.holds_contents hcalm h.tidy hlt, ← hholds]
  cases resident with
  | true => exact record_ends ⟨σ, h.noted _, .refl p σ⟩
  | false =>
    refine Ends.bind (Yields.attempt fun result hresult => ?_)
    obtain ⟨was, tags⟩ := result
    have hkind := AccessKind.isDemand_belowFirstLevel hr
    obtain ⟨-, hturns, hevict⟩ := TagArray.fill_inv hkind hresult
    have hput := h.put_tags hc hturns (hsound.tags.of_fill hkind haddr hresult) c.expected
    have hplaced := Scene.contents_turn_place hcalm h.tidy hlt false line
    rw [hsound.line_eq, hline] at hput hevict
    rw [hsound.geometry, ← hrows] at hevict
    rw [AccessKind.isWrite_belowFirstLevel] at hput
    have hturned : σ.Sheds p (σ.turn p b line (LineSet.place false))
        ((σ.turn p b line (LineSet.place false)).contents p) := .of_rows p rfl rfl
    rw [hplaced] at hturned
    have hnoted := hput.noted (.installed b r c.cycle)
    refine Ends.bind (setCache_ends (Ends.bind (record_ends ?_)))
    rw [hevict, Scene.leaving?_contents hcalm h.tidy hlt]
    cases hvictim : (p.geometry b).leaving? (σ.rows b) line with
    | none => exact ⟨_, hnoted, hturned⟩
    | some evicted =>
      obtain ⟨victim, dirty⟩ := evicted
      -- the line that waits in a first level is the one taken in, so no fill is diverted
      have hne := Geometry.ne_of_leaving? (h.tidy b hlt line) hholds.symm hvictim
      have hfills' : ∀ j r', (.fills j, r') ∈ σ.traffic → p.line j r'.addr ≠ victim :=
        fun j r' hr' => hfills j r' hr' ▸ hne.symm
      have hevicted := hnoted.noted (.evicted b (p.base b victim) dirty c.cycle)
      refine Ends.bind (record_ends ?_)
      cases dirty with
      | false => exact repair_sheds huniform hb hevicted hcalm hturned hfills'
      | true =>
        refine Ends.seq (writeBack_stands hevicted (p.base b victim)) ?_
        rintro - m' ⟨w, hw, -, h'⟩
        have hsite : p.receiver? (.writeBacks b) = some .memory := by
          simp [Plan.receiver?, Topology.below_base hb, Below.site]
        exact repair_sheds huniform hb h' hcalm (hturned.add hw hsite) hfills'

theorem fillBelow_works {ports : Ports} (huniform : p.Uniform t.lineSize)
    (hb : p.topology.base? = some b) (hports : p.topology.above b = .caches ports)
    (htracks : Tracks p (x.hold (.fills b) r) m) (h : m.Stands p x σ)
    (hr : r.kind.isDemand = true) (hfree : demands σ.traffic = 0)
    (hserves : σ.Serves p t (.fills b) r) :
    Yields (fun _ m' => m'.Works p t true x) (fillBelow b ports r m) := by
  have hlt := Topology.lt_size_of_base? hb
  have hline := hserves.line_eq huniform hlt
  have horderly := htracks.reach.orderly
  have htraffic := Tracks.traffic_hold m x (.fills b) r
  have htop := Topology.top_mem_tops (Topology.entry?_of_above hports) r.kind.side
  have hscene : (m.overview x).traffic = σ.traffic := congrArg Scene.traffic h.scene
  have hnone := not_mem_fills hfree hserves.calm fun y hy =>
    (horderly.admits y (htraffic ▸ Multiset.mem_cons_of_mem (hscene ▸ hy))).fits
  rw [fillBelow_eq]
  refine Ends.seq (sendUp_stands h hports) ?_
  rintro - m' ⟨readyAt, h'⟩
  have hsame : (σ.add (.fills (p.topology.top r.kind.side)) { r with readyAt }).contents p =
      σ.contents p := Scene.contents_add_demand hr
  have hcalm : (σ.add (.fills (p.topology.top r.kind.side)) { r with readyAt }).Calm p :=
    hserves.calm.add (Scene.not_doomed_of_demand hr)
  have htaken := takeIn_sheds huniform hb hr (horderly.admits _ (mem_of_eq_cons htraffic)).addr_lt
    hline h' hcalm fun j r' hr' => by
      rcases Multiset.mem_cons.1 hr' with heq | hr'
      · cases heq
        exact hserves.line_eq huniform (Topology.lt_size_of_mem_tops htop)
      · exact absurd hr' (hnone j r')
  refine htaken.mono ?_ fun _ _ => id
  rintro - m'' ⟨σ', h'', hsheds⟩
  have halone : demands σ'.traffic = {(.fills (p.topology.top r.kind.side), { r with readyAt })} :=
    hsheds.demands_eq.trans (Scene.demands_add_free hfree hr)
  refine ⟨σ', h'', .underWay halone (by simp) ⟨hserves.addr, hserves.kind, hserves.bypass,
    hsheds.outstanding ▸ hserves.serviced, hsheds.calm hcalm, ?_⟩⟩
  rw [Plan.rest_fills_top htop, hsheds.contents, hsame, ← Plan.rest_fills_base hb]
  exact hserves.rest

theorem fillOne_works (huniform : p.Uniform t.lineSize) (hi : i < p.topology.size)
    (htracks : Tracks p (x.hold (.fills i) r) m) (h : m.Stands p x σ)
    (hstage : (σ.add (.fills i) r).Stage p t waits) :
    Yields (fun _ m' => m'.Works p t waits x) (fillOne i r m) := by
  have hmem := mem_of_eq_cons (Tracks.traffic_hold m x (.fills i) r)
  unfold fillOne
  cases hkind : r.kind.isWriteBack with
  | true => exact absorb_works h (AccessKind.isWriteBack_iff.1 hkind) hstage
  | false =>
    have hr := isDemand_of_fits (htracks.reach.orderly.admits _ hmem).fits hkind
    obtain ⟨rfl, hfree, hserves⟩ := hstage.held hr (by simp)
    refine Ends.bind (cacheAt_yields fun c hc => ?_)
    rw [(h.sound.caches i c hc).above]
    rcases Topology.lt_size_iff.1 hi with htop | hb
    · rw [Topology.above_top htop]
      exact fillTop_works huniform htop htracks h hr hfree hserves
    · obtain ⟨ports, hports, -⟩ := Topology.above_base hb
      rw [hports]
      exact fillBelow_works huniform hb hports htracks h hr hfree hserves

/-! The look-up stage. -/

theorem Stands.put_lookup {c : Cache} {kind : AccessKind} {hit : Bool} {tags : TagArray}
    (h : m.Stands p x σ) (hcalm : σ.Calm p) (hc : m.caches[i]? = some c)
    (hkind : kind.isDemand = true) (hlookup : c.tags.lookup r.addr kind = .ok (hit, tags)) :
    (σ.contents p).holds p i (p.line i r.addr) = hit ∧
      (m.put i { c with tags }).Stands p x
        (σ.turn p i (p.line i r.addr) (LineSet.use kind.isWrite)) := by
  have hi : i < p.topology.size := h.sound.length ▸ (List.getElem?_eq_some_iff.1 hc).1
  have hsound := h.sound.caches i c hc
  rw [TagArray.lookup_demand _ _ hkind] at hlookup
  obtain ⟨hhit, hturns⟩ := TagArray.lookupDemand_inv hlookup
  have hput := h.put_tags hc hturns (hsound.tags.of_lookupDemand hlookup) c.expected
  rw [hsound.line_eq] at hput hhit
  rw [Scene.holds_contents hcalm h.tidy hi, h.rows_eq hc, ← hsound.geometry]
  exact ⟨hhit.symm, hput⟩

theorem Stands.put_send {c c' : Cache} (h : (m.put i c').Stands p x σ)
    (hc : m.caches[i]? = some c) (r : Request) :
    (m.put i { c' with sends := c'.sends.push r }).Stands p x (σ.add (.sends i) r) := by
  have hc' := caches_put_self hc c'
  have hpush := h.put_push { c' with sends := c'.sends.push r } hc' (traffic_push_sends c')
    ((h.sound.caches i c' hc').congr rfl rfl rfl rfl) rfl
  rwa [put_put] at hpush

theorem lookUpTags_works (huniform : p.Uniform t.lineSize) (hi : i ∈ p.topology.tops)
    (htracks : Tracks p (x.hold (.lookups i) r) m) (h : m.Stands p x σ)
    (hfree : demands σ.traffic = 0) (hserves : σ.Serves p t (.lookups i) r) :
    Yields (fun _ m' => m'.Works p t true x) (lookUpTags i r m) := by
  have hmem := mem_of_eq_cons (Tracks.traffic_hold m x (.lookups i) r)
  have horderly := htracks.reach.orderly
  obtain ⟨hr, hentry, hmiss⟩ := (horderly.admits _ hmem).fits.lookups_top hi
  have hlt := Topology.lt_size_of_mem_tops hi
  have htop : p.topology.top t.kind.side = i := by
    rw [← hserves.kind]
    exact (top_eq_iff hi _).2 hentry
  have hrest := hserves.rest
  simp only [Plan.rest_lookups_top hi, Contents.access, htop] at hrest
  refine Ends.bind (cacheAt_yields fun c hc => Ends.bind (Yields.attempt fun found hfound => ?_))
  obtain ⟨hit, tags⟩ := found
  have hnoted := h.noted (.lookedUp i r hit c.cycle)
  obtain ⟨hholds, hput⟩ := hnoted.put_lookup hserves.calm hc hr hfound
  have hused := Scene.contents_turn_use hserves.calm h.tidy hlt r.kind.isWrite t.line
  rw [hserves.line_eq huniform hlt] at hholds hput
  rw [hholds] at hrest
  refine Ends.bind (record_ends ?_)
  cases hit with
  | true =>
    refine Ends.bind (setCache_ends (finish_works hput hfree hr ?_))
    rw [hused, hmiss, hserves.kind]
    exact hrest
  | false =>
    rw [Contents.alter_use_of_not_holds hholds] at hused
    have hmarked := (hput.put_send hc { r with isMiss := true }).with_outstanding
      (m.outstanding.markMiss r.id i (c.tags.geometry.lineOf r.addr))
    have hserves' : Scene.Serves p t (.sends i) { r with isMiss := true }
        { σ.turn p i t.line (LineSet.use r.kind.isWrite) with
          outstanding := m.outstanding.markMiss r.id i (c.tags.geometry.lineOf r.addr) } := by
      refine ⟨hserves.addr, hserves.kind, hserves.bypass, fun e he => ?_, hserves.calm, ?_⟩
      · have hnodup : m.outstanding.ids.Nodup := horderly.nodup
        have houtstanding : m.outstanding = σ.outstanding := congrArg Scene.outstanding h.scene
        dsimp only at he
        rw [Outstanding.markMiss_eq_await hnodup] at he
        obtain ⟨e₀, he₀, -, hkind, -⟩ := Outstanding.exists_of_mem_await he
        exact hkind.trans (hserves.serviced e₀ (houtstanding ▸ he₀))
      · rw [if_neg Bool.false_ne_true, ← hused] at hrest
        rw [Plan.rest_sends_top hi, htop]
        exact hrest
    have hstage := Scene.Stage.hand hserves' hfree hr (by simp)
    exact Ends.bind (setCache_ends (Ends.of_modify ⟨_, hmarked, hstage⟩))

theorem lookUpTop_works (huniform : p.Uniform t.lineSize) (hi : i ∈ p.topology.tops)
    (htracks : Tracks p (x.hold (.lookups i) r) m) (h : m.Stands p x σ)
    (hfree : demands σ.traffic = 0) (hserves : σ.Serves p t (.lookups i) r) :
    Yields (fun _ m' => m'.Works p t true x) (lookUpTop i r m) := by
  have ht := Tracks.traffic_hold m x (.lookups i) r
  have horderly := htracks.reach.orderly
  have hscene : (m.overview x).traffic = σ.traffic := congrArg Scene.traffic h.scene
  have htags := lookUpTags_works huniform hi htracks h hfree hserves
  refine Ends.bind (cacheAt_yields fun c hc => Ends.bind (Yields.attempt fun held hheld => ?_))
  cases held with
  | true => exact htags
  | false =>
    rw [if_neg Bool.false_ne_true]
    apply Ends.get_bind
    cases hmerge : m.outstanding.merge? i (c.tags.geometry.lineOf r.addr) r.kind with
    | none => exact htags
    | some merged =>
      obtain ⟨into, outstanding⟩ := merged
      obtain ⟨⟨e, he, -, hmark⟩, -⟩ := Outstanding.merge?_eq_some horderly.nodup hmerge
      obtain ⟨⟨s, r'⟩, hr', hdemand, -, hdescribes⟩ := horderly.exists_request he
      have hmiss := ((horderly.admits _ (mem_of_eq_cons ht)).fits.lookups_top hi).2.2
      rw [ht, Multiset.mem_cons, hscene] at hr'
      rcases hr' with heq | hr'
      · cases heq
        rw [(hdescribes.of_mark hmark).1] at hmiss
        cases hmiss
      · exact absurd (Multiset.mem_filter.2 ⟨hr', hdemand⟩)
          (Multiset.eq_zero_iff_forall_notMem.1 hfree _)

theorem lookUpBelow_works {ports : Ports} (huniform : p.Uniform t.lineSize)
    (hb : p.topology.base? = some b) (hports : p.topology.above b = .caches ports)
    (h : m.Stands p x σ) (hr : r.kind.isDemand = true) (hfree : demands σ.traffic = 0)
    (hserves : σ.Serves p t (.lookups b) r) :
    Yields (fun _ m' => m'.Works p t true x) (lookUpBelow b ports r m) := by
  have hlt := Topology.lt_size_of_base? hb
  have htop := Topology.top_mem_tops (Topology.entry?_of_above hports) r.kind.side
  have hrest := hserves.rest
  rw [Plan.rest_lookups_base hb] at hrest
  refine Ends.bind (cacheAt_yields fun c hc => Ends.bind (Yields.attempt fun found hfound => ?_))
  obtain ⟨hit, tags⟩ := found
  have hnoted := h.noted (.lookedUp b r hit c.cycle)
  obtain ⟨hholds, hput⟩ := hnoted.put_lookup hserves.calm hc
    (AccessKind.isDemand_belowFirstLevel hr) hfound
  have hused := Scene.contents_turn_use hserves.calm h.tidy hlt false t.line
  rw [hserves.line_eq huniform hlt] at hholds hput
  rw [AccessKind.isWrite_belowFirstLevel] at hput
  have hfetch : (σ.contents p).fetch p t.line = if hit then
      (σ.contents p).alter p b t.line (Stack.use false) else (σ.contents p).bring p t.line := by
    simp [Contents.fetch, hb, hholds]
  rw [hfetch] at hrest
  refine Ends.bind (record_ends ?_)
  cases hit with
  | true =>
    rw [if_pos rfl, ← hused] at hrest
    refine Ends.bind (setCache_ends ((sendUp_stands hput hports).mono ?_ fun _ _ => id))
    rintro - m' ⟨readyAt, h'⟩
    refine ⟨_, h', .hand ⟨hserves.addr, hserves.kind, hserves.bypass, hserves.serviced,
      hserves.calm, ?_⟩ hfree hr (by simp)⟩
    rw [Plan.rest_fills_top htop]
    exact hrest
  | false =>
    rw [Contents.alter_use_of_not_holds hholds] at hused
    refine setCache_ends ⟨_, hput.put_send hc r, .hand ⟨hserves.addr, hserves.kind, hserves.bypass,
      hserves.serviced, hserves.calm, ?_⟩ hfree hr (by simp)⟩
    rw [if_neg Bool.false_ne_true, ← hused] at hrest
    rw [Plan.rest_sends_base hb]
    exact hrest

theorem lookUpOne_works (huniform : p.Uniform t.lineSize) (hi : i < p.topology.size)
    (htracks : Tracks p (x.hold (.lookups i) r) m) (h : m.Stands p x σ)
    (hstage : (σ.add (.lookups i) r).Stage p t waits) :
    Yields (fun _ m' => m'.Works p t waits x) (lookUpOne i r m) := by
  have hr := (htracks.reach.orderly.admits _
    (mem_of_eq_cons (Tracks.traffic_hold m x (.lookups i) r))).fits.1
  obtain ⟨rfl, hfree, hserves⟩ := hstage.held hr (by simp)
  refine Ends.bind (cacheAt_yields fun c hc => ?_)
  rw [(h.sound.caches i c hc).above]
  rcases Topology.lt_size_iff.1 hi with htop | hb
  · rw [Topology.above_top htop]
    exact lookUpTop_works huniform htop htracks h hfree hserves
  · obtain ⟨ports, hports, -⟩ := Topology.above_base hb
    rw [hports]
    exact lookUpBelow_works huniform hb hports h hr hfree hserves

end Machine

end CacheHierarchy
