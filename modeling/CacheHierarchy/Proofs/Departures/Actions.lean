import CacheHierarchy.Proofs.Departures.Basic

/-!
# A turn keeps departures in order

Of what is done in the turn of a cache, four steps bear on what leaves it: a write-back that the
cache makes, a request that it sends, a miss, and the recall of write-backs by the level below. All
others are unseen.
-/

namespace CacheHierarchy

namespace departures

variable (i : Nat)

theorem overlooksTags : departures.OverlooksTags i := fun _ _ => rfl

theorem overlooksLookups : departures.OverlooksLookups i := fun _ _ => rfl

theorem overlooksFills : departures.OverlooksFills i := fun _ _ => rfl

theorem overlooksExpected : departures.OverlooksExpected i := fun _ _ => rfl

end departures

theorem TagArray.isWriteBack_of_lookup {t : TagArray} {addr : Nat} {kind : AccessKind}
    {found : Bool × TagArray} (h : t.lookup addr kind = .ok found) : kind.isWriteBack = false := by
  cases kind <;> first | rfl | cases h

namespace Machine

open Watch departures

variable {m : Machine} {clock : Nat → Nat} {i j addr : Nat} {standing : Standing}
  {held : List Request} {left : List Ticket} {r : Request} {c d : Cache}

/-! Evictions. -/

theorem writeBack_departs (h : m.Departs clock i (.sends left) held) :
    Yields (fun _ m' => m'.Departs clock i (.sends left) held) (writeBack i addr m) := by
  refine Ends.seq (h.seq unseen_freshId) fun id m h => ?_
  refine Ends.bind (cacheAt_yields fun c hc => ?_)
  refine Ends.seq (announceBelow_same overlooksExpected _ _) ?_
  rintro - m' ⟨hsame, hkept⟩
  have h' := h.same hsame
  have hc' := hkept.trans hc
  refine Ends.bind (record_ends (setCache_ends (h'.put hc' rfl ?_ (h'.cycle i c hc')
    (fun _ _ => rfl) ?_)))
  · exact fun j hne => later_noted rfl hne m' held
  · exact History.Sends.later (History.Sends.make (h'.own c hc') le_rfl rfl)
      (later_noted_wroteBack m' held i c.cycle _)

theorem Departs.recall (h : m.Departs clock i standing held) (hne : j ≠ i)
    (hd : m.caches[j]? = some d) (lineSize line : Nat) :
    (m.put j (d.recallWriteBacks lineSize line).2).Departs clock i standing
      (held ++ (d.recallWriteBacks lineSize line).1) := by
  have hrests : (m.history held j).Rests d.cycle d.sends.items d.writeBacks.items :=
    h.others j d hne hd
  have hmisses : ∀ x ∈ d.sends.items, Cache.isWriteBackOf lineSize line x = false := fun x hx => by
    rw [Cache.isWriteBackOf, hrests.isWriteBack_eq_false hx, Bool.false_and]
  have hkept : (d.recallWriteBacks lineSize line).2.sends.items = d.sends.items :=
    List.filter_eq_self.2 fun x hx => by rw [hmisses x hx, Bool.not_false]
  have hrecalled : (d.recallWriteBacks lineSize line).1 =
      d.writeBacks.items.filter (Cache.isWriteBackOf lineSize line) := by
    have hnone : d.sends.items.filter (Cache.isWriteBackOf lineSize line) = [] :=
      List.filter_eq_nil_iff.2 fun x hx => by simp [hmisses x hx]
    change d.writeBacks.items.filter _ ++ d.sends.items.filter _ = _
    rw [hnone, List.append_nil]
  have hmono := h.mono (List.subset_append_left held (d.recallWriteBacks lineSize line).1)
  refine ⟨fun k d' hd' => ?_, fun c' hc' => ?_, fun k d' hk hd' => ?_⟩
  · by_cases hkj : k = j
    · subst hkj
      rw [caches_put_self hd] at hd'
      cases hd'
      exact h.cycle k d hd
    · rw [caches_put_ne _ hkj] at hd'
      exact h.cycle k d' hd'
  · rw [caches_put_ne _ hne.symm] at hc'
    exact hmono.own c' hc'
  · by_cases hkj : k = j
    · subst hkj
      rw [caches_put_self hd] at hd'
      cases hd'
      have hleft := hrests.recall (Cache.isWriteBackOf lineSize line)
      rw [← hkept, ← hrecalled] at hleft
      refine History.Rests.later hleft ⟨rfl, rfl, rfl, ?_⟩
      rintro w ((hw | hw) | hw)
      · exact .inl hw
      · exact .inr (List.map_subset _ (List.subset_append_left ..) hw)
      · exact .inr (List.map_subset _ (List.subset_append_right ..) hw)
    · rw [caches_put_ne _ hkj] at hd'
      exact hmono.others k d' hk hd'

theorem recallFrom_departs (lineSize line : Nat) (ports : List (Side × Nat))
    (h : m.Departs clock i standing held) :
    Yields (fun recalled m' => m'.Departs clock i standing (held ++ recalled))
      (recallFrom i lineSize line ports m) := by
  induction ports generalizing m held with
  | nil =>
    refine Ends.pure ?_
    rw [List.append_nil]
    exact h
  | cons port rest ih =>
    refine Ends.bind (neighbour_yields fun d hne hd => Ends.bind (setCache_ends ?_))
    refine Ends.seq (ih (h.recall hne hd lineSize line)) fun recalled m' h' => Ends.pure ?_
    rw [← List.append_assoc]
    exact h'

theorem Departs.release (h : m.Departs clock i standing (r :: held)) (hr : m.Diverted r.ticket) :
    m.Departs clock i standing held := by
  have hlater : ∀ j, (m.history (r :: held) j).Later (m.history held j) := by
    refine fun j => ⟨rfl, rfl, rfl, ?_⟩
    rintro w (hw | hw)
    · exact .inl hw
    · rw [List.map_cons, List.mem_cons] at hw
      rcases hw with rfl | hw
      · exact .inl hr
      · exact .inr hw
  exact ⟨h.cycle, fun c hc => (h.own c hc).later (hlater i),
    fun j d hne hd => (h.others j d hne hd).later (hlater j)⟩

theorem divertWriteBack_departs (h : m.Departs clock i standing (r :: held)) :
    Yields (fun _ m' => m'.Departs clock i standing held) (divertWriteBack i r m) := by
  refine Ends.bind (cacheAt_yields fun c hc => ?_)
  cases c.expected.settle? r.id with
  | none => trivial
  | some settled =>
    refine Ends.bind (setCache_ends (Ends.bind (record_ends ?_)))
    have hsame : departures.Same m ((m.put i { c with
        tags := c.tags.countDiverted, expected := settled.2 }).noted (.diverted i r c.cycle)) :=
      Same.put_noted hc rfl rfl
    have hdiverted := (h.same hsame).release ⟨i, r, c.cycle, List.mem_cons_self, rfl⟩
    exact hdiverted.seq ((unseen_announceToMemory _).bind fun _ => unseen_sendToMemory r)

theorem divertWriteBacks_departs (h : m.Departs clock i standing []) :
    Yields (fun _ m' => m'.Departs clock i standing []) (divertWriteBacks i addr m) := by
  refine Ends.bind (cacheAt_yields fun c hc => Ends.bind (setCache_ends ?_))
  refine Ends.seq (recallFrom_departs _ _ _ (h.same (Same.put hc rfl))) fun recalled m' h' => ?_
  let I (rest : List Request) (m : Machine) : Prop := m.Departs clock i standing rest
  refine Ends.forM (I := I) (fun r rest m h => divertWriteBack_departs h) ?_
  exact h'.mono (List.subset_append_right ..)

/-! Fills. -/

theorem Departs.noted_evicted (h : m.Departs clock i standing held) (addr : Nat) (dirty : Bool)
    (cycle : Nat) : (m.noted (.evicted i addr dirty cycle)).Departs clock i standing held :=
  h.same (Same.noted rfl)

theorem fillInstalled_departs (kind : AccessKind) (h : m.Departs clock i (.sends left) []) :
    Yields (fun _ m' => m'.Departs clock i (.sends left) []) (fillInstalled i r kind m) := by
  refine Ends.bind (cacheAt_yields fun c hc => Ends.bind (Yields.attempt fun installed _ => ?_))
  refine Ends.bind (setCache_ends (Ends.bind (record_ends ?_)))
  have hfilled : departures.Same m ((m.put i { c with tags := installed.2 }).noted
      (.filled i r kind c.cycle)) :=
    Same.put_noted hc rfl rfl
  have h' := h.same hfilled
  cases installed.2.lastEviction with
  | none => exact h'.seq (unseen_finish r)
  | some evicted =>
    refine Ends.bind (record_ends ?_)
    have hevicted := h'.noted_evicted evicted.addr evicted.dirty c.cycle
    dsimp only
    split
    · split
      · trivial
      · exact Ends.seq (writeBack_departs hevicted) fun _ _ h => h.seq (unseen_finish r)
    · exact hevicted.seq (unseen_finish r)

theorem fillBelow_departs (ports : Ports) (h : m.Departs clock i (.sends left) []) :
    Yields (fun _ m' => m'.Departs clock i (.sends left) []) (fillBelow i ports r m) := by
  refine Ends.seq (h.seq (unseen_sendUp (overlooksFills _) fun _ _ => rfl)) fun _ m h => ?_
  refine Ends.bind (cacheAt_yields fun c hc => Ends.bind (Yields.attempt fun resident _ => ?_))
  cases resident with
  | true => exact h.seq (unseen_routine rfl)
  | false =>
    refine Ends.bind (Yields.attempt fun installed _ => Ends.bind (setCache_ends ?_))
    have hinstalled : departures.Same m ((m.put i { c with tags := installed.2 }).noted
        (.installed i r c.cycle)) :=
      Same.put_noted hc rfl rfl
    have h' := h.same hinstalled
    refine Ends.bind (record_ends ?_)
    cases installed.2.lastEviction with
    | none => exact h'
    | some evicted =>
      refine Ends.bind (record_ends ?_)
      have hevicted := h'.noted_evicted evicted.addr evicted.dirty c.cycle
      have hrepair : ∀ m : Machine, m.Departs clock i (.sends left) [] →
          Yields (fun _ m' => m'.Departs clock i (.sends left) []) ((do
            divertWriteBacks i evicted.addr
            withdrawAbove i evicted.addr : Action Unit) m) := fun m h =>
        Ends.seq (divertWriteBacks_departs h) fun _ _ h =>
          h.seq (unseen_withdrawAbove overlooksTags overlooksFills _)
      dsimp only
      split
      · exact Ends.seq (writeBack_departs hevicted) fun _ m h => hrepair m h
      · exact hrepair _ hevicted

theorem fillOne_departs (h : m.Departs clock i (.sends left) []) :
    Yields (fun _ m' => m'.Departs clock i (.sends left) []) (fillOne i r m) := by
  unfold fillOne
  split
  · exact h.seq (unseen_absorb (overlooksTags i) (overlooksExpected i) r)
  · refine Ends.bind (cacheAt_yields fun c hc => ?_)
    cases c.above with
    | core =>
      apply Ends.get_bind
      cases r.bypass with
      | true => exact h.seq (unseen_fillBypassed (overlooksTags i) r _)
      | false => exact fillInstalled_departs _ h
    | caches ports => exact fillBelow_departs ports h

/-! Sending. -/

/-- The head of the send queue is sent, and nothing joins the queue. -/
theorem sendOne_departs (hc : m.caches[i]? = some c) {sends : GatedQueue Request}
    (hsends : c.sends.items = r :: sends.items) (h : m.Departs clock i (.sends left) []) :
    Yields (fun _ m' => m'.Departs clock i (.sends left) [] ∧
        ∀ c', m'.caches[i]? = some c' → c'.sends = sends)
      (sendOne i r (m.put i { c with sends })) := by
  have hput := caches_put_self hc { c with sends }
  refine Ends.bind (cacheAt_yields fun c' hc' => ?_)
  cases hput.symm.trans hc'
  dsimp only
  split
  · refine Ends.bind (record_ends ?_)
    have hsent : ((m.put i { c with sends }).noted (.sentDown i r c.cycle)).Departs clock i
        (.sends left) [] := by
      refine h.put hc rfl ?_ (h.cycle i c hc) (fun _ _ => rfl) ?_
      · exact fun j hne => later_noted rfl hne m []
      · have hown : (m.history [] i).Sends left c.cycle (r :: sends.items) c.writeBacks.items :=
          hsends ▸ h.own c hc
        exact hown.send.later (later_noted_sentDown m [] i c.cycle r)
    -- what takes the request in does not look at the send queue of the cache that sends it
    have hrest : ∀ {action : Action Unit}, departures.Unseen action →
        Yields (fun _ m' => m'.Departs clock i (.sends left) [] ∧
          ∀ c', m'.caches[i]? = some c' → c'.sends = sends)
          (action ((m.put i { c with sends }).noted (.sentDown i r c.cycle))) := by
      intro action haction
      refine (haction _).mono (fun _ m' hsame => ⟨hsent.same hsame, fun c' hc' => ?_⟩) fun _ _ => id
      obtain ⟨d, hd, hview⟩ := hsame.view i c' hc'
      cases hput.symm.trans hd
      exact congrArg Prod.fst hview
    generalize (m.put i { c with sends }).noted (.sentDown i r c.cycle) = m' at hrest ⊢
    cases c.below with
    | memory => exact hrest (unseen_sendToMemory r)
    | cache j =>
      dsimp only
      split
      · exact hrest (unseen_handFill (overlooksFills j) r)
      · exact hrest (unseen_handDown (overlooksLookups j) r)
  · trivial

/-! Look-ups. -/

theorem Departs.hit (h : m.Departs clock i standing held) (hc : m.caches[i]? = some c) (r : Request)
    (tags : TagArray) : ((m.noted (.lookedUp i r true c.cycle)).put i { c with tags }).Departs clock
      i standing held := by
  have hlooked : departures.Same m (m.noted (.lookedUp i r true c.cycle)) := Same.noted rfl
  exact h.same (hlooked.trans (Same.put hc rfl))

theorem Departs.miss (h : m.Departs clock i .looksUp held) (hc : m.caches[i]? = some c)
    (hready : r.readyAt ≤ c.cycle) (hkind : r.kind.isWriteBack = false) (tags : TagArray)
    (isMiss : Bool) :
    ((m.noted (.lookedUp i r false c.cycle)).put i
      { c with tags, sends := c.sends.push { r with isMiss } }).Departs clock i .looksUp held := by
  refine h.put hc rfl ?_ (h.cycle i c hc) (fun _ _ => rfl) ?_
  · exact fun j hne => later_noted rfl hne m held
  · have hrests : (m.history held i).Rests (c.cycle + 1) c.sends.items c.writeBacks.items :=
      h.own c hc
    have hmiss := hrests.miss { r with isMiss } (hready.trans c.cycle.le_succ) hkind
    exact hmiss.later (later_noted_miss m held i c.cycle r)

theorem lookUpTags_departs (hc : m.caches[i]? = some c) (hready : r.readyAt ≤ c.cycle)
    (h : m.Departs clock i .looksUp []) :
    Yields (fun _ m' => m'.Departs clock i .looksUp []) (lookUpTags i r m) := by
  refine Ends.bind (cacheAt_yields fun c' hc' => ?_)
  cases hc.symm.trans hc'
  refine Ends.bind (Yields.attempt fun found hfound => Ends.bind (record_ends ?_))
  obtain ⟨hit, tags⟩ := found
  cases hit with
  | true =>
    have hhit := h.hit hc r tags
    exact Ends.bind (setCache_ends (hhit.seq (unseen_finish r)))
  | false =>
    refine Ends.bind (setCache_ends (Ends.of_modify ?_))
    have hmiss := h.miss hc hready (TagArray.isWriteBack_of_lookup hfound) tags true
    exact hmiss.same (Same.of_eq rfl rfl)

theorem lookUpTop_departs (hc : m.caches[i]? = some c) (hready : r.readyAt ≤ c.cycle)
    (h : m.Departs clock i .looksUp []) :
    Yields (fun _ m' => m'.Departs clock i .looksUp []) (lookUpTop i r m) := by
  refine Ends.bind (cacheAt_yields fun c' hc' => ?_)
  cases hc.symm.trans hc'
  refine Ends.bind (Yields.attempt fun resident _ => ?_)
  cases resident with
  | true => exact lookUpTags_departs hc hready h
  | false =>
    refine Ends.get_bind ?_
    cases m.outstanding.merge? i (c.tags.geometry.lineOf r.addr) r.kind with
    | none => exact lookUpTags_departs hc hready h
    | some merged =>
      exact (unseen_merge (overlooksTags i) hc r _ _).mono (fun _ _ hsame => h.same hsame)
        fun _ _ => id

theorem lookUpBelow_departs (ports : Ports) (hc : m.caches[i]? = some c)
    (hready : r.readyAt ≤ c.cycle) (h : m.Departs clock i .looksUp []) :
    Yields (fun _ m' => m'.Departs clock i .looksUp []) (lookUpBelow i ports r m) := by
  refine Ends.bind (cacheAt_yields fun c' hc' => ?_)
  cases hc.symm.trans hc'
  refine Ends.bind (Yields.attempt fun found hfound => Ends.bind (record_ends ?_))
  obtain ⟨hit, tags⟩ := found
  cases hit with
  | true =>
    have hhit := h.hit hc r tags
    exact Ends.bind (setCache_ends (hhit.seq (unseen_sendUp (overlooksFills _) fun _ _ => rfl)))
  | false =>
    have hkind : r.kind.isWriteBack = false := by
      have hbelow := TagArray.isWriteBack_of_lookup hfound
      revert hbelow
      cases r.kind <;> exact id
    exact setCache_ends (h.miss hc hready hkind tags r.isMiss)

theorem lookUpOne_departs (hc : m.caches[i]? = some c) (hready : r.readyAt ≤ c.cycle)
    (h : m.Departs clock i .looksUp []) :
    Yields (fun _ m' => m'.Departs clock i .looksUp []) (lookUpOne i r m) := by
  refine Ends.bind (cacheAt_yields fun c' hc' => ?_)
  cases hc.symm.trans hc'
  cases c.above with
  | core => exact lookUpTop_departs hc hready h
  | caches ports => exact lookUpBelow_departs ports hc hready h

end Machine

end CacheHierarchy
