import CacheHierarchy.Proofs.Watch.Basic

/-!
# Unseen actions

Each action is unseen by a watch that overlooks what the action touches.
-/

namespace CacheHierarchy.Watch

open Machine

variable {α : Type} {w : Watch α} {i j : Nat} {r : Request}

theorem unseen_freshId : w.Unseen freshId := fun _ =>
  freshId_yields (Same.of_eq rfl rfl)

theorem unseen_finish (r : Request) : w.Unseen (finish r) :=
  unseen_modify (fun _ => rfl) fun _ => rfl

theorem unseen_announceToMemory (note : WriteBackNote) : w.Unseen (announceToMemory note) :=
  unseen_modify (fun _ => rfl) fun _ => rfl

theorem unseen_sendToMemory (r : Request) : w.Unseen (sendToMemory r) := fun _ =>
  sendToMemory_yields (Same.of_eq_cons rfl rfl (w.deaf (.accepted _) rfl))

theorem unseen_writeStraightBack (addr cycle : Nat) : w.Unseen (writeStraightBack addr cycle) :=
  unseen_freshId.bind fun _ => (unseen_announceToMemory _).bind fun _ => unseen_sendToMemory _

theorem unseen_handFill (hfills : w.OverlooksFills j) (r : Request) :
    w.Unseen (handFill i j r) := fun _ =>
  handFill_yields fun d _ hd => Same.put hd (hfills d _)

theorem unseen_handDown (hlookups : w.OverlooksLookups j) (r : Request) :
    w.Unseen (handDown i j r) := fun _ =>
  handDown_yields fun d _ hd => Same.put hd (hlookups d _)

theorem announceBelow_same (hexpected : ∀ j, w.OverlooksExpected j) (below : Below)
    (note : WriteBackNote) {m : Machine} :
    Yields (fun _ m' => w.Same m m' ∧ m'.caches[i]? = m.caches[i]?)
      (announceBelow i below note m) := by
  cases below with
  | memory => exact ⟨Same.of_eq rfl rfl, rfl⟩
  | cache j =>
    refine Ends.bind (neighbour_yields fun d hne hd => setCache_ends ⟨Same.put hd ?_, ?_⟩)
    · exact hexpected j d _
    · exact caches_put_ne _ hne.symm

/-! What follows an eviction. -/

theorem unseen_writeBack (hexpected : ∀ j, w.OverlooksExpected j)
    (hsends : w.OverlooksSends i)
    (hhears : ∀ r cycle, w.hears (.wroteBack i r cycle) = false) (addr : Nat) :
    w.Unseen (writeBack i addr) := by
  refine unseen_freshId.bind fun id => unseen_update fun c m hc => ?_
  refine Ends.seq (announceBelow_same hexpected _ _) ?_
  rintro - m' ⟨hsame, hkept⟩
  refine Ends.bind (record_ends (setCache_ends ?_))
  refine (hsame.trans (Same.noted (hhears _ _))).trans (Same.put (hkept.trans hc) ?_)
  exact hsends c _ _

theorem unseen_recallFrom (hsends : ∀ j, w.OverlooksSends j) (lineSize line : Nat)
    (ports : List (Side × Nat)) : w.Unseen (recallFrom i lineSize line ports) := by
  induction ports with
  | nil => exact unseen_pure []
  | cons port rest ih =>
    refine unseen_neighbour fun d m _ hd => ?_
    refine Ends.bind (setCache_ends (Unseen.seq (ih.bind fun _ => unseen_pure _) ?_))
    exact Same.put hd (hsends _ d _ _)

theorem unseen_divertWriteBack (htags : w.OverlooksTags i) (hexpected : w.OverlooksExpected i)
    (r : Request) : w.Unseen (divertWriteBack i r) := by
  refine unseen_update fun c m hc => ?_
  cases c.expected.settle? r.id with
  | none => trivial
  | some settled =>
    refine Ends.bind (setCache_ends (Unseen.seq ?_ (Same.put hc ?_)))
    · exact (unseen_routine rfl).bind fun _ => (unseen_announceToMemory _).bind fun _ =>
        unseen_sendToMemory r
    · exact (hexpected { c with tags := _ } _).trans (htags c _)

theorem unseen_divertWriteBacks (htags : w.OverlooksTags i) (hfills : w.OverlooksFills i)
    (hexpected : w.OverlooksExpected i) (hsends : ∀ j, w.OverlooksSends j) (addr : Nat) :
    w.Unseen (divertWriteBacks i addr) := by
  refine unseen_update fun c m hc => ?_
  refine Ends.bind (setCache_ends (Unseen.seq ?_ (Same.put hc (hfills c _))))
  exact (unseen_recallFrom hsends _ _ _).bind fun _ =>
    unseen_forM (unseen_divertWriteBack htags hexpected) _

theorem unseen_backInvalidate (htags : w.OverlooksTags j) (addr : Nat) (side : Side)
    (line : Line) : w.Unseen (backInvalidate j addr side line) := by
  refine unseen_update fun c m hc => ?_
  split
  · trivial
  refine Ends.bind (Yields.attempt fun dropped _ => ?_)
  refine Ends.bind (setCache_ends (Unseen.seq ?_ (Same.put hc (htags c _))))
  refine (unseen_routine rfl).bind fun _ => ?_
  split
  · exact unseen_writeStraightBack _ _
  · exact unseen_pure _

theorem unseen_withdrawFrom {port : Side × Nat} (htags : w.OverlooksTags port.2)
    (hfills : w.OverlooksFills port.2) (addr : Nat) : w.Unseen (withdrawFrom i addr port) := by
  refine unseen_neighbour fun d m _ hd => Ends.bind (Yields.attempt fun line _ => ?_)
  cases line with
  | some line => exact unseen_backInvalidate htags _ _ _ m
  | none =>
    dsimp only
    split
    · refine Ends.bind (setCache_ends (Unseen.seq ?_ (Same.put hd (hfills d _))))
      exact (unseen_cacheAt i).bind fun _ => unseen_routine rfl
    · exact Same.refl m

theorem unseen_withdrawAbove (htags : ∀ j, w.OverlooksTags j) (hfills : ∀ j, w.OverlooksFills j)
    (addr : Nat) : w.Unseen (withdrawAbove i addr) :=
  (unseen_cacheAt i).bind fun _ => unseen_forM (fun _ => unseen_withdrawFrom (htags _) (hfills _) _) _

/-! What is done with one request. -/

theorem unseen_sendUp {ports : Ports} (hfills : w.OverlooksFills (ports.on r.kind.side))
    (hhears : ∀ j cycle, w.hears (.sentUp i j r cycle) = false) : w.Unseen (sendUp i ports r) :=
  (unseen_handFill hfills r).bind fun _ => (unseen_cacheAt i).bind fun _ =>
    unseen_record (hhears _ _)

theorem unseen_absorb (htags : w.OverlooksTags i) (hexpected : w.OverlooksExpected i)
    (r : Request) : w.Unseen (absorb i r) := by
  refine unseen_update fun c m hc => ?_
  split
  · trivial
  refine Ends.bind (Yields.attempt fun tags _ => ?_)
  cases c.expected.settle? r.id with
  | none => trivial
  | some settled =>
    refine Ends.bind (setCache_ends (Unseen.seq (unseen_routine rfl) (Same.put hc ?_)))
    exact (hexpected { c with tags } _).trans (htags c tags)

theorem unseen_fillBypassed (htags : w.OverlooksTags i) (r : Request) (kind : AccessKind) :
    w.Unseen (fillBypassed i r kind) := by
  refine unseen_update fun c m hc => ?_
  refine Ends.bind (setCache_ends (Unseen.seq ?_ (Same.put hc (htags c _))))
  refine (unseen_routine rfl).bind fun _ => ?_
  split
  · exact (unseen_writeStraightBack _ _).bind fun _ => unseen_finish r
  · exact unseen_finish r

theorem unseen_merge (htags : w.OverlooksTags i) {m : Machine} {c : Cache}
    (hc : m.caches[i]? = some c) (r : Request) (into : Nat) (outstanding : Outstanding) :
    Yields (fun _ => w.Same m) ((do
      modify fun m => { m with outstanding }
      setCache i { c with tags := c.tags.countMerged r.kind }
      record (.merged i r into c.cycle)
      finish r : Action Unit) m) := by
  refine Ends.modify_bind (Ends.bind (setCache_ends (Unseen.seq ?_ ?_)))
  · exact (unseen_routine rfl).bind fun _ => unseen_finish r
  · exact Same.trans (Same.of_eq rfl rfl : w.Same m { m with outstanding }) (Same.put hc (htags c _))

theorem sendOne_same {m : Machine} {c : Cache} (hc : m.caches[i]? = some c)
    (hhears : ∀ r cycle, w.hears (.sentDown i r cycle) = false)
    (hbelow : ∀ j, c.below = .cache j → w.OverlooksFills j ∧ w.OverlooksLookups j) (r : Request) :
    Yields (fun _ => w.Same m) (sendOne i r m) := by
  refine Ends.bind (cacheAt_yields fun c' hc' => ?_)
  cases hc.symm.trans hc'
  dsimp only
  split
  · refine Ends.bind (record_ends ?_)
    have hnoted : w.Same m (m.noted (.sentDown i r c.cycle)) := Same.noted (hhears _ _)
    cases hto : c.below with
    | memory => exact (unseen_sendToMemory r).seq hnoted
    | cache j =>
      dsimp only
      split
      · exact (unseen_handFill (hbelow j hto).1 r).seq hnoted
      · exact (unseen_handDown (hbelow j hto).2 r).seq hnoted
  · trivial

/-! The first level. -/

theorem unseen_fillInstalled (htags : w.OverlooksTags i) (hexpected : ∀ j, w.OverlooksExpected j)
    (hsends : w.OverlooksSends i)
    (hevicted : ∀ addr dirty cycle, w.hears (.evicted i addr dirty cycle) = false)
    (hwroteBack : ∀ r cycle, w.hears (.wroteBack i r cycle) = false) (r : Request)
    (kind : AccessKind) : w.Unseen (fillInstalled i r kind) := by
  refine unseen_update fun c m hc => Ends.bind (Yields.attempt fun installed _ => ?_)
  refine Ends.bind (setCache_ends (Unseen.seq ?_ (Same.put hc (htags c _))))
  refine (unseen_routine rfl).bind fun _ => ?_
  cases installed.2.lastEviction with
  | none => exact unseen_finish r
  | some evicted =>
    refine (unseen_record (hevicted _ _ _)).bind fun _ => ?_
    dsimp only
    split
    · split
      · exact unseen_throw _
      · exact (unseen_writeBack hexpected hsends hwroteBack _).bind fun _ => unseen_finish r
    · exact unseen_finish r

theorem unseen_fillTop (htags : w.OverlooksTags i) (hexpected : ∀ j, w.OverlooksExpected j)
    (hsends : w.OverlooksSends i)
    (hevicted : ∀ addr dirty cycle, w.hears (.evicted i addr dirty cycle) = false)
    (hwroteBack : ∀ r cycle, w.hears (.wroteBack i r cycle) = false) (r : Request) :
    w.Unseen (fillTop i r) := fun m => by
  apply Ends.get_bind
  cases r.bypass with
  | true => exact unseen_fillBypassed htags r _ m
  | false => exact unseen_fillInstalled htags hexpected hsends hevicted hwroteBack r _ m

theorem unseen_lookUpTags (htags : w.OverlooksTags i) (hsends : w.OverlooksSends i)
    (hlookedUp : ∀ r hit cycle, w.hears (.lookedUp i r hit cycle) = false) (r : Request) :
    w.Unseen (lookUpTags i r) := by
  refine unseen_update fun c m hc => Ends.bind (Yields.attempt fun found _ => ?_)
  refine Ends.bind (record_ends ?_)
  have hnoted : w.Same m (m.noted (.lookedUp i r found.1 c.cycle)) := Same.noted (hlookedUp _ _ _)
  dsimp only
  split
  · exact Ends.bind (setCache_ends ((unseen_finish r).seq
      (hnoted.trans (Same.put hc (htags c found.2)))))
  · refine Ends.bind (setCache_ends (Unseen.seq (unseen_modify (fun _ => rfl) fun _ => rfl) ?_))
    exact hnoted.trans (Same.put hc ((hsends { c with tags := found.2 } _ _).trans (htags c found.2)))

theorem unseen_lookUpTop (htags : w.OverlooksTags i) (hsends : w.OverlooksSends i)
    (hlookedUp : ∀ r hit cycle, w.hears (.lookedUp i r hit cycle) = false) (r : Request) :
    w.Unseen (lookUpTop i r) := by
  refine unseen_update fun c m hc => Ends.bind (Yields.attempt fun resident _ => ?_)
  cases resident with
  | true => exact unseen_lookUpTags htags hsends hlookedUp r m
  | false =>
    refine Ends.get_bind ?_
    cases m.outstanding.merge? i (c.tags.geometry.lineOf r.addr) r.kind with
    | none => exact unseen_lookUpTags htags hsends hlookedUp r m
    | some merged => exact unseen_merge htags hc r _ _

/-! Memory's turn. -/

theorem unseen_memoryAbsorb (r : Request) : w.Unseen (memoryAbsorb r) := by
  refine unseen_get_bind fun m => ?_
  cases m.memory.expected.settle? r.id with
  | none => trivial
  | some settled =>
    refine Ends.bind (Yields.attempt fun writeBacks _ => Ends.set_bind ?_)
    exact Unseen.seq (unseen_routine rfl) (Same.of_eq rfl rfl)

theorem memoryRead_same {m : Machine} (hfills : ∀ j, m.memory.above = some j → w.OverlooksFills j)
    (r : Request) : Yields (fun _ => w.Same m) (memoryRead r m) := by
  refine Ends.get_bind (Ends.bind (Yields.attempt fun reads _ => Ends.set_bind ?_))
  have hcounted : w.Same m { m with memory := { m.memory with reads } } := Same.of_eq rfl rfl
  cases habove : m.memory.above with
  | none => exact (unseen_finish r).seq hcounted
  | some j =>
    refine Ends.bind (cacheAt_yields fun c hc => Ends.bind (acceptFill_yields ?_))
    exact setCache_ends (hcounted.trans (Same.put hc (hfills j habove c _)))

theorem memoryOne_same {m : Machine} (hfills : ∀ j, m.memory.above = some j → w.OverlooksFills j)
    (r : Request) : Yields (fun _ => w.Same m) (memoryOne r m) := by
  unfold memoryOne
  split
  · exact unseen_memoryAbsorb r m
  · exact memoryRead_same hfills r

theorem unseen_advanceMemory : w.Unseen advanceMemory :=
  unseen_get_bind fun _ => Ends.bind (Yields.attempt fun _ _ => Same.of_eq rfl rfl)

end CacheHierarchy.Watch
