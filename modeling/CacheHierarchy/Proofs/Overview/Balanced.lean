import CacheHierarchy.Proofs.Overview.Preservation

/-!
# The account of write-backs

Every write-back that is counted as made is taken in, passed on or still expected. The account is
kept at each receiver: at memory for the write-backs of the last cache and the dirty copies that
first-level caches had to give up, at the base for the write-backs of the caches above it. A debt
counts as made and not yet expected.

A counter that has reached the largest word no longer counts, so the account is that of a run in
which none has. As counters only grow, none has done so before either.
-/

namespace CacheHierarchy

/-- The counters of write-backs can still count. -/
structure Counters.Unsaturated (c : Counters) : Prop where
  writeBacks : c.writeBacks + 1 < wordLimit
  dirtyBackInvalidations : c.dirtyBackInvalidations + 1 < wordLimit

def Event.isAbsorbedBy (site : Site) : Event → Bool
  | absorbed site' _ _ => site' == site
  | _ => false

def Event.isDivertedBy (i : Nat) : Event → Bool
  | diverted j _ _ => j == i
  | _ => false

theorem countP_cons_false {P : Event → Bool} {event : Event} (h : P event = false)
    (journal : List Event) : (event :: journal).countP P = journal.countP P :=
  List.countP_cons_of_neg (by rw [h]; exact Bool.false_ne_true)

theorem countP_cons_true {P : Event → Bool} {event : Event} (h : P event = true)
    (journal : List Event) : (event :: journal).countP P = journal.countP P + 1 :=
  List.countP_cons_of_pos h

/-- An entry that needs no step of its own is not part of the account. -/
theorem Event.isTracked_eq_false {event : Event} (h : event.isTracked = false) (site : Site)
    (i : Nat) : event.isAbsorbedBy site = false ∧ event.isDivertedBy i = false := by
  cases event <;> first | exact ⟨rfl, rfl⟩ | cases h

def Topology.total (t : Topology) (f : Nat → Nat) : Nat := (t.tops.map f).foldr (· + ·) 0

def Plan.owed (p : Plan) (debt : Option Debt) (site : Site) : Nat :=
  if (debt.bind fun d => p.receiver? d.spot) = some site then 1 else 0

/-- The account of write-backs at every receiver. -/
structure Balanced (p : Plan) (o : Overview) : Prop where
  memory : ∀ l, p.topology.last? = some l →
    o.memoryWriteBacks + (o.expected .memory).card + p.owed o.debt .memory =
      (Counters.writeBacks ∘ o.counters) l +
        p.topology.total (Counters.dirtyBackInvalidations ∘ o.counters)
  base : ∀ b, p.topology.base? = some b →
    p.topology.total (Counters.writeBacks ∘ o.counters) =
      o.journal.countP (Event.isAbsorbedBy (.cache b)) +
        o.journal.countP (Event.isDivertedBy b) + (o.expected (.cache b)).card +
        p.owed o.debt (.cache b)
  direct : p.topology.base? = none →
    ∀ i, (Counters.dirtyBackInvalidations ∘ o.counters) i = 0
  dram : p.topology.last? = none → o.memoryWriteBacks = 0

namespace Counters

theorem writeBacks_countWriteBack {c : Counters} (h : c.countWriteBack.Unsaturated) :
    c.countWriteBack.writeBacks = c.writeBacks + 1 := by
  have hlt := h.writeBacks
  simp only [countWriteBack, Word.bump, Word.addCapped] at hlt ⊢
  omega

theorem dirtyBackInvalidations_countBackInvalidation {c : Counters} {dirty : Bool}
    (h : (c.countBackInvalidation dirty).Unsaturated) :
    (c.countBackInvalidation dirty).dirtyBackInvalidations =
      c.dirtyBackInvalidations + dirty.toNat := by
  have hlt := h.dirtyBackInvalidations
  cases dirty with
  | false => rfl
  | true =>
    simp only [countBackInvalidation, ↓reduceIte, Word.bump, Word.addCapped, Bool.toNat_true]
      at hlt ⊢
    omega

theorem writeBacks_displaced {c : Counters} {dirty : Bool}
    (h : (if dirty then c.countWriteBack else c).Unsaturated) :
    (if dirty then c.countWriteBack else c).writeBacks = c.writeBacks + dirty.toNat := by
  cases dirty with
  | false => rfl
  | true => exact writeBacks_countWriteBack h

theorem unsaturated_of_le {c c' : Counters} (h : c'.Unsaturated)
    (hw : c.writeBacks ≤ c'.writeBacks)
    (hd : c.dirtyBackInvalidations ≤ c'.dirtyBackInvalidations) : c.Unsaturated :=
  ⟨Nat.lt_of_le_of_lt (Nat.succ_le_succ hw) h.writeBacks,
    Nat.lt_of_le_of_lt (Nat.succ_le_succ hd) h.dirtyBackInvalidations⟩

theorem unsaturated_of_countWriteBack {c : Counters} (h : c.countWriteBack.Unsaturated) :
    c.Unsaturated :=
  unsaturated_of_le h ((writeBacks_countWriteBack h).symm ▸ Nat.le_succ _) (Nat.le_refl _)

theorem unsaturated_of_countBackInvalidation {c : Counters} {dirty : Bool}
    (h : (c.countBackInvalidation dirty).Unsaturated) : c.Unsaturated :=
  unsaturated_of_le h (Nat.le_refl _)
    ((dirtyBackInvalidations_countBackInvalidation h).symm ▸ Nat.le_add_right _ _)

theorem unsaturated_of_countLookup {c : Counters} {hit isWrite : Bool}
    (h : (c.countLookup hit isWrite).Unsaturated) : c.Unsaturated :=
  unsaturated_of_le h (Nat.le_refl _) (Nat.le_refl _)

theorem unsaturated_of_displaced {c : Counters} {dirty : Bool}
    (h : (if dirty then c.countWriteBack else c).Unsaturated) : c.Unsaturated := by
  cases dirty with
  | false => exact h
  | true => exact unsaturated_of_countWriteBack h

end Counters

namespace Topology

theorem total_update {t : Topology} {i : Nat} (hi : i ∈ t.tops) (f : Nat → Nat) (n : Nat) :
    t.total (Function.update f i (f i + n)) = t.total f + n := by
  cases t <;> simp only [tops, List.mem_cons, List.not_mem_nil, or_false] at hi
  · subst hi
    simp [total, tops]
  · subst hi
    simp [total, tops]
  · rcases hi with rfl | rfl <;> simp [total, tops] <;> omega

theorem total_update_of_notMem {t : Topology} {i : Nat} (hi : i ∉ t.tops) (f : Nat → Nat)
    (v : Nat) : t.total (Function.update f i v) = t.total f := by
  unfold total
  congr 1
  refine List.map_congr_left fun j hj => Function.update_of_ne ?_ _ _
  rintro rfl
  exact hi hj

end Topology

namespace Topology

theorem last?_eq_base {t : Topology} {b l : Nat} (hb : t.base? = some b)
    (hl : t.last? = some l) : l = b := by
  rw [last?_of_base? hb] at hl
  exact (Option.some.inj hl).symm

/-- A first-level cache above no base is directly above memory. -/
theorem last?_eq_top {t : Topology} {i l : Nat} (hi : i ∈ t.tops) (hb : t.base? = none)
    (hl : t.last? = some l) : l = i := by
  cases t <;> simp_all [base?, tops, last?]

theorem update_last {t : Topology} {i l : Nat} (hi : i < t.size) (hl : t.last? = some l)
    (f : Nat → Nat) (n : Nat) : Function.update f i (f i + n) l =
      f l + if (t.below i).site = .memory then n else 0 := by
  rcases lt_size_iff.1 hi with htop | hbase
  · cases hb : t.base? with
    | none =>
      obtain rfl := last?_eq_top htop hb hl
      rw [Function.update_self, below_of_base?_eq_none hb]
      exact congrArg _ (if_pos rfl).symm
    | some b =>
      obtain rfl := last?_eq_base hb hl
      rw [Function.update_of_ne (top_ne_base htop hb).symm, below_top hb htop]
      simp [Below.site]
  · obtain rfl := last?_eq_base hbase hl
    rw [Function.update_self, below_base hbase]
    exact congrArg _ (if_pos rfl).symm

theorem total_update_below {t : Topology} {i b : Nat} (hi : i < t.size) (hb : t.base? = some b)
    (f : Nat → Nat) (n : Nat) : t.total (Function.update f i (f i + n)) =
      t.total f + if (t.below i).site = .cache b then n else 0 := by
  rcases lt_size_iff.1 hi with htop | hbase
  · rw [total_update htop, below_top hb htop]
    exact congrArg _ (if_pos rfl).symm
  · rw [total_update_of_notMem (base_not_mem_tops hbase), below_base hbase]
    simp [Below.site]

end Topology

section Update

variable {counters : Nat → Counters} {i : Nat}

theorem comp_update_add {f : Counters → Nat} {c : Counters} {n : Nat}
    (h : f c = f (counters i) + n) :
    f ∘ Function.update counters i c = Function.update (f ∘ counters) i ((f ∘ counters) i + n) := by
  rw [Function.comp_update, h]
  rfl

theorem comp_update_same {f : Counters → Nat} {c : Counters} (h : f c = f (counters i)) :
    f ∘ Function.update counters i c = f ∘ counters := by
  rw [Function.comp_update, h]
  exact Function.update_eq_self i (f ∘ counters)

theorem writeBacks_countLookup (hit isWrite : Bool) :
    Counters.writeBacks ∘ Function.update counters i ((counters i).countLookup hit isWrite) =
      Counters.writeBacks ∘ counters :=
  comp_update_same rfl

theorem dirtyBackInvalidations_countLookup (hit isWrite : Bool) :
    Counters.dirtyBackInvalidations ∘
        Function.update counters i ((counters i).countLookup hit isWrite) =
      Counters.dirtyBackInvalidations ∘ counters :=
  comp_update_same rfl

end Update

namespace Plan

variable {p : Plan}

@[simp] theorem owed_none (site : Site) : p.owed none site = 0 := rfl

theorem owed_some {d : Debt} {site : Site} (hs : p.receiver? d.spot = some site) (site' : Site) :
    p.owed (some d) site' = if site = site' then 1 else 0 := by
  rw [owed, Option.bind_some, hs]
  simp only [Option.some.injEq]

theorem owed_displaced (victim : Option (Nat × Bool)) (i : Nat) (addr : Nat × Bool → Nat)
    (site : Site) :
    p.owed ((victim.filter Prod.snd).map fun v => { via := some i, addr := addr v }) site =
      if (p.topology.below i).site = site then (victim.any Prod.snd).toNat else 0 := by
  rcases victim with - | ⟨v, - | -⟩
  · exact (ite_self 0).symm
  · exact (ite_self 0).symm
  · exact owed_some rfl site

theorem owed_straight (dirty : Bool) (addr : Nat) (site : Site) :
    p.owed (if dirty then some { via := none, addr } else none) site =
      if .memory = site then dirty.toNat else 0 := by
  cases dirty with
  | false => exact (ite_self 0).symm
  | true => exact owed_some rfl site

end Plan

namespace Overview

theorem card_announce {p : Plan} {o : Overview} {d : Debt} {site : Site}
    (hsite : p.receiver? d.spot = some site) (id : Nat) (site' : Site) :
    (o.announce site id site').card = (o.expected site').card + p.owed (some d) site' := by
  rw [Plan.owed_some hsite, announce]
  by_cases hs : site = site'
  · subst hs
    rw [Function.update_self, Multiset.card_cons, if_pos rfl]
  · rw [Function.update_of_ne (Ne.symm hs), if_neg hs]
    rfl

theorem card_settle {o : Overview} {site : Site} {id : Nat} (h : id ∈ o.expected site) :
    (o.settle site id site).card + 1 = (o.expected site).card := by
  rw [settle, Function.update_self]
  exact Multiset.card_erase_add_one h

theorem settle_of_ne {o : Overview} {site site' : Site} (h : site' ≠ site) (id : Nat) :
    o.settle site id site' = o.expected site' :=
  Function.update_of_ne h ..

def Unsaturated (p : Plan) (o : Overview) : Prop :=
  ∀ i, i < p.topology.size → (o.counters i).Unsaturated

theorem unsaturated_of_update {n j : Nat} {counters : Nat → Counters} {c : Counters}
    (hc : c.Unsaturated → (counters j).Unsaturated)
    (h : ∀ i, i < n → (Function.update counters j c i).Unsaturated) :
    ∀ i, i < n → (counters i).Unsaturated := by
  intro i hi
  have hi' := h i hi
  by_cases hij : i = j
  · subst hij
    rw [Function.update_self] at hi'
    exact hc hi'
  · rwa [Function.update_of_ne hij] at hi'

end Overview

theorem Step.unsaturated {p : Plan} {o o' : Overview} (hstep : Step p o o')
    (h : o'.Unsaturated p) : o.Unsaturated p := by
  cases hstep with
  | note | issue | move | arrive | pay | absorb | memoryAbsorb | recalled | overtake | repaired
  | retire | tick | newCycle => exact h
  | lookUp | hit | merge | miss =>
    exact Overview.unsaturated_of_update Counters.unsaturated_of_countLookup h
  | install | place =>
    exact Overview.unsaturated_of_update Counters.unsaturated_of_displaced h
  | bypass | drop =>
    exact Overview.unsaturated_of_update Counters.unsaturated_of_countBackInvalidation h
  | divert => exact Overview.unsaturated_of_update Counters.unsaturated_of_countWriteBack h

theorem Overview.Unsaturated.of_update {p : Plan} {o : Overview} (h : o.Unsaturated p) {i : Nat}
    {counters : Nat → Counters} {c : Counters}
    (hcounters : o.counters = Function.update counters i c)
    (hi : i < p.topology.size) : c.Unsaturated := by
  have hc := h i hi
  rwa [hcounters, Function.update_self] at hc

namespace Balanced

section Displaced

variable {p : Plan} {o : Overview} {i : Nat} {victim : Option (Nat × Bool)} (h : Balanced p o)
  (hi : i < p.topology.size) (hdebt : o.debt = none)
  (hunsat : (if victim.any Prod.snd then (o.counters i).countWriteBack
    else o.counters i).Unsaturated)

include h hi hdebt hunsat

/-- A cache displaces a line: what memory is owed for it is counted there. -/
theorem memory_displaced {l : Nat} (hl : p.topology.last? = some l) :
    o.memoryWriteBacks + (o.expected .memory).card + p.owed ((victim.filter Prod.snd).map fun v =>
        { via := some i, addr := p.base i v.1 }) .memory =
      (Counters.writeBacks ∘ Function.update o.counters i
        (if victim.any Prod.snd then (o.counters i).countWriteBack else o.counters i)) l +
        p.topology.total (Counters.dirtyBackInvalidations ∘ Function.update o.counters i
          (if victim.any Prod.snd then (o.counters i).countWriteBack else o.counters i)) := by
  have hold := h.memory l hl
  rw [hdebt, Plan.owed_none] at hold
  rw [comp_update_add (Counters.writeBacks_displaced hunsat), comp_update_same (by split <;> rfl),
    Plan.owed_displaced, Topology.update_last hi hl]
  omega

/-- So is what a base is owed, which a first-level cache has counted. -/
theorem base_displaced {b : Nat} (hb : p.topology.base? = some b) :
    p.topology.total (Counters.writeBacks ∘ Function.update o.counters i
        (if victim.any Prod.snd then (o.counters i).countWriteBack else o.counters i)) =
      o.journal.countP (Event.isAbsorbedBy (.cache b)) +
        o.journal.countP (Event.isDivertedBy b) + (o.expected (.cache b)).card +
        p.owed ((victim.filter Prod.snd).map fun v => { via := some i, addr := p.base i v.1 })
          (.cache b) := by
  have hold := h.base b hb
  rw [hdebt, Plan.owed_none] at hold
  rw [comp_update_add (Counters.writeBacks_displaced hunsat), Topology.total_update_below hi hb,
    Plan.owed_displaced]
  omega

end Displaced

variable {p : Plan} {o o' : Overview} (h : Balanced p o) (ho : Orderly p o)
  (hstep : Step p o o') (hunsat : o'.Unsaturated p)

include h ho hstep hunsat

theorem memory_step : ∀ l, p.topology.last? = some l →
    o'.memoryWriteBacks + (o'.expected .memory).card + p.owed o'.debt .memory =
      (Counters.writeBacks ∘ o'.counters) l +
        p.topology.total (Counters.dirtyBackInvalidations ∘ o'.counters) := by
  intro l hl
  have hold := h.memory l hl
  cases hstep with
  | note | issue | move | arrive | recalled | overtake | repaired | retire | tick | newCycle =>
    exact hold
  | lookUp | hit | merge | miss =>
    dsimp only
    rw [writeBacks_countLookup, dirtyBackInvalidations_countLookup]
    exact hold
  | pay site hd hsite =>
    dsimp only
    rw [hd] at hold
    rw [Plan.owed_none, Overview.card_announce hsite]
    omega
  | absorb =>
    dsimp only
    rw [Overview.settle_of_ne (fun heq => Site.noConfusion heq)]
    exact hold
  | memoryAbsorb ht hr =>
    have hcard := Overview.card_settle (ho.mem_expected (mem_of_eq_cons ht) hr rfl)
    dsimp only
    omega
  | install ht hi hbypass hdebt =>
    have hi' := Topology.lt_size_of_mem_tops hi
    exact h.memory_displaced hi' hdebt (hunsat.of_update rfl hi') hl
  | place ht hb hr hi hdebt =>
    have hb' := Topology.lt_size_of_base? hb
    exact h.memory_displaced hb' hdebt (hunsat.of_update rfl hb') hl
  | divert ht hr hb =>
    have hcount := Counters.writeBacks_countWriteBack
      (hunsat.of_update rfl (Topology.lt_size_of_base? hb))
    obtain rfl := Topology.last?_eq_base hb hl
    dsimp only
    rw [comp_update_add hcount, comp_update_same (by rfl), Function.update_self,
      Function.update_self, Multiset.card_cons]
    omega
  | bypass ht hi hbypass hdebt | drop hb hi hdebt =>
    have hcount := Counters.dirtyBackInvalidations_countBackInvalidation
      (hunsat.of_update rfl (Topology.lt_size_of_mem_tops hi))
    rw [hdebt, Plan.owed_none] at hold
    dsimp only
    rw [comp_update_add hcount, comp_update_same (by rfl), Topology.total_update hi,
      Plan.owed_straight, if_pos (by rfl)]
    omega

theorem base_step : ∀ b, p.topology.base? = some b →
    p.topology.total (Counters.writeBacks ∘ o'.counters) =
      o'.journal.countP (Event.isAbsorbedBy (.cache b)) +
        o'.journal.countP (Event.isDivertedBy b) + (o'.expected (.cache b)).card +
        p.owed o'.debt (.cache b) := by
  intro b hb
  have hold := h.base b hb
  have hmemory : Site.memory ≠ .cache b := fun heq => Site.noConfusion heq
  cases hstep with
  | issue | move | recalled | overtake | repaired | tick | newCycle => exact hold
  | note event hsilent =>
    obtain ⟨habsorbed, hdiverted⟩ := Event.isTracked_eq_false hsilent (.cache b) b
    dsimp only
    rw [countP_cons_false habsorbed, countP_cons_false hdiverted]
    exact hold
  | arrive | retire =>
    dsimp only
    rw [countP_cons_false (by rfl), countP_cons_false (by rfl)]
    exact hold
  | lookUp | hit | merge | miss =>
    dsimp only
    rw [writeBacks_countLookup, countP_cons_false (by rfl), countP_cons_false (by rfl)]
    exact hold
  | pay site hd hsite =>
    dsimp only
    rw [hd] at hold
    rw [Plan.owed_none, Overview.card_announce hsite]
    omega
  | absorb ht hr hb' =>
    obtain rfl := Option.some.inj (hb.symm.trans hb')
    have hcard := Overview.card_settle (ho.mem_expected (mem_of_eq_cons ht) hr rfl)
    dsimp only
    rw [countP_cons_true (by simp [Event.isAbsorbedBy]), countP_cons_false (by rfl)]
    omega
  | memoryAbsorb =>
    dsimp only
    rw [Overview.settle_of_ne hmemory.symm, countP_cons_false (by rfl), countP_cons_false (by rfl)]
    exact hold
  | install ht hi hbypass hdebt =>
    have hi' := Topology.lt_size_of_mem_tops hi
    dsimp only
    rw [countP_cons_false (by rfl), countP_cons_false (by rfl)]
    exact h.base_displaced hi' hdebt (hunsat.of_update rfl hi') hb
  | place ht hb' hr hi hdebt =>
    have hb'' := Topology.lt_size_of_base? hb'
    dsimp only
    rw [countP_cons_false (by rfl), countP_cons_false (by rfl)]
    exact h.base_displaced hb'' hdebt (hunsat.of_update rfl hb'') hb
  | bypass ht hi hbypass hdebt =>
    rw [hdebt, Plan.owed_none] at hold
    dsimp only
    rw [comp_update_same (by rfl), Plan.owed_straight, if_neg hmemory, countP_cons_false (by rfl),
      countP_cons_false (by rfl)]
    exact hold
  | divert ht hr hb' hs =>
    obtain rfl := Option.some.inj (hb.symm.trans hb')
    have hcard := Overview.card_settle (ho.mem_expected (mem_of_eq_cons ht) hr hs)
    dsimp only
    rw [Function.comp_update, Topology.total_update_of_notMem (Topology.base_not_mem_tops hb),
      Function.update_of_ne hmemory.symm, countP_cons_false (by rfl),
      countP_cons_true (by simp [Event.isDivertedBy])]
    omega
  | drop hb' hi hdebt =>
    rw [hdebt, Plan.owed_none] at hold
    dsimp only
    rw [comp_update_same (by rfl), Plan.owed_straight, if_neg hmemory]
    exact hold

omit hunsat in
theorem direct_step : p.topology.base? = none →
    ∀ i, (Counters.dirtyBackInvalidations ∘ o'.counters) i = 0 := by
  intro hb
  have hold := h.direct hb
  cases hstep with
  | note | issue | move | arrive | pay | absorb | memoryAbsorb | recalled | overtake | repaired
  | retire | tick | newCycle => exact hold
  | lookUp | hit | merge | miss =>
    dsimp only
    rw [dirtyBackInvalidations_countLookup]
    exact hold
  | install =>
    dsimp only
    rw [comp_update_same (by split <;> rfl)]
    exact hold
  | bypass ht hi hbypass => exact absurd hb ((ho.admits _ (mem_of_eq_cons ht)).bypass hbypass)
  | place ht hb' =>
    rw [hb] at hb'
    cases hb'
  | divert ht hr hb' =>
    rw [hb] at hb'
    cases hb'
  | drop hb' =>
    rw [hb] at hb'
    cases hb'

omit hunsat in
theorem dram_step : p.topology.last? = none → o'.memoryWriteBacks = 0 := by
  intro hl
  have hold := h.dram hl
  cases hstep with
  | memoryAbsorb ht hr =>
    exact absurd hl ((ho.admits _ (mem_of_eq_cons ht)).fits.last?_ne_none hr)
  | _ => exact hold

/-- Every step keeps the account. -/
theorem step : Balanced p o' where
  memory := h.memory_step ho hstep hunsat
  base := h.base_step ho hstep hunsat
  direct := h.direct_step ho hstep
  dram := h.dram_step ho hstep

end Balanced

theorem Balanced.start (p : Plan) : Balanced p .start where
  memory := by
    intro l _
    cases p.topology <;> rfl
  base := by
    intro b _
    cases p.topology <;> rfl
  direct := fun _ _ => rfl
  dram := fun _ => rfl

/-- The account of every overview that can be reached is balanced while no counter is saturated. -/
theorem Reach.balanced {p : Plan} {o : Overview} (h : Reach p o) :
    o.Unsaturated p → Balanced p o := by
  refine h.invariant (fun o => o.Unsaturated p → Balanced p o) (fun _ => .start p) ?_
  intro o o' hreach ho hstep hunsat
  exact (ho (hstep.unsaturated hunsat)).step hreach.orderly hstep hunsat

/-- No write-back is made where there are no caches. -/
theorem Reach.expected_eq_zero {p : Plan} {o : Overview} (h : Reach p o)
    (hl : p.topology.last? = none) (site : Site) : o.expected site = 0 := by
  rw [h.orderly.expected]
  refine Multiset.eq_zero_of_forall_notMem fun id hid => ?_
  obtain ⟨s, r, hr, ⟨hkind, -⟩, -⟩ := mem_writeBackIds.1 hid
  exact (h.orderly.admits _ hr).fits.last?_ne_none hkind hl

end CacheHierarchy
