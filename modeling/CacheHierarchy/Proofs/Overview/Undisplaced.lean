import CacheHierarchy.Proofs.Overview.Inclusive

/-!
# A base that displaces nothing

A line goes into the base only after an access to it was issued. So if every set of the base has as
many ways as there are lines of the set that were ever asked for, a new line always finds a way that
is free, and the base displaces nothing. Then nothing is ever repaired: no cache above gives a line
up for the base, no fill is marked to be bypassed, and every write-back is on its way to the base,
which holds its line.
-/

namespace CacheHierarchy

namespace Geometry

def HasRoom (g : Geometry) (lines : Finset Nat) : Prop :=
  ∀ set < g.numSets, (lines.filter fun line => line % g.numSets = set).card ≤ g.assoc

/-- Where there is room for all lines, the set of a line that is not resident is not full. -/
theorem HasRoom.not_full {g : Geometry} {lines : Finset Nat} (h : g.HasRoom lines)
    {resident : Nat → Option Bool} (hlines : ∀ line, resident line ≠ none → line ∈ lines)
    {new : Nat} (hnew : new ∈ lines) (habsent : resident new = none) : ¬g.Full resident new := by
  rintro ⟨held, hcard, hheld⟩
  have hnot : new ∉ held := fun hmem => (hheld new hmem).1 habsent
  have hsub : insert new held ⊆ lines.filter fun line => line % g.numSets = new % g.numSets := by
    intro line hline
    rcases Finset.mem_insert.1 hline with rfl | hline
    · exact Finset.mem_filter.2 ⟨hnew, rfl⟩
    · obtain ⟨hresident, hset⟩ := hheld line hline
      exact Finset.mem_filter.2 ⟨hlines line hresident, hset⟩
  have hle := (Finset.card_le_card hsub).trans (h _ (Nat.mod_lt new g.numSets_pos))
  rw [Finset.card_insert_of_notMem hnot, hcard] at hle
  exact Nat.not_succ_le_self _ hle

end Geometry

/-- An access to a line of cache `b` is under way or done. -/
def Overview.Asked (o : Overview) (p : Plan) (b line : Nat) : Prop :=
  (∃ s r, (s, r) ∈ o.traffic ∧ r.kind.isDemand = true ∧ p.line b r.addr = line) ∨
    ∃ d ∈ o.completions, p.line b d.addr = line

section Asked

variable {p : Plan} {b line : Nat} {o o' : Overview}

theorem Overview.Asked.of_mem {s : Spot} {r : Request} (hr : (s, r) ∈ o.traffic)
    (hdemand : r.kind.isDemand = true) : o.Asked p b (p.line b r.addr) :=
  .inl ⟨s, r, hr, hdemand, rfl⟩

theorem Step.asked (hstep : Step p o o') (h : o.Asked p b line) : o'.Asked p b line := by
  rcases h with ⟨s, r, hr, hdemand, rfl⟩ | ⟨d, hd, hline⟩
  · cases hstep with
    | note | recalled | drop | repaired | tick | newCycle => exact .of_mem hr hdemand
    | issue | pay => exact .of_mem (Multiset.mem_cons_of_mem hr) hdemand
    | move ht | arrive ht | lookUp ht | hit ht | merge ht | miss ht | install ht | bypass ht
    | place ht | divert ht =>
      rw [ht] at hr
      rcases Multiset.mem_cons.1 hr with heq | hr
      · cases heq
        exact .inl ⟨_, _, Multiset.mem_cons_self _ _, hdemand, rfl⟩
      · exact .of_mem (Multiset.mem_cons_of_mem hr) hdemand
    | absorb ht hkind | memoryAbsorb ht hkind =>
      rw [ht] at hr
      rcases Multiset.mem_cons.1 hr with heq | hr
      · cases heq
        exact absurd hkind (Request.ne_writeBack hdemand)
      · exact .of_mem hr hdemand
    | overtake =>
      obtain ⟨bypass, hr'⟩ := exists_mem_overtake hr
      exact .inl ⟨s, _, hr', hdemand, rfl⟩
    | retire ht =>
      rw [ht] at hr
      rcases Multiset.mem_cons.1 hr with heq | hr
      · cases heq
        exact .inr ⟨_, List.mem_append_right _ (List.mem_singleton_self _), rfl⟩
      · exact .of_mem hr hdemand
  · cases hstep with
    | retire => exact .inr ⟨d, List.mem_append_left _ hd, hline⟩
    | _ => exact .inr ⟨d, hd, hline⟩

/-- A resident line of the base was asked for. -/
theorem Reach.asked_of_resident (h : Reach p o) (hb : p.topology.base? = some b)
    (hline : o.lines b line ≠ none) : o.Asked p b line := by
  refine h.invariant (fun o => ∀ line, o.lines b line ≠ none → o.Asked p b line)
    (fun _ hline => absurd rfl hline) (fun o o' _ hasked hstep line hline => ?_) line hline
  apply hstep.asked
  rcases Inclusive.lines_base hb hstep with hiff | ⟨-, r, victim, hplaced, -, -, hr, hdemand, -⟩
  · exact hasked line ((hiff line).1 hline)
  · by_cases hl : line = p.line b r.addr
    · rw [hl]
      exact .of_mem hr hdemand
    · rcases hplaced.of_ne hl with ⟨hsame, -⟩ | ⟨d, -, -, hgone⟩
      · exact hasked line (hsame ▸ hline)
      · exact absurd hgone hline

/-- Where there is room for all lines that were asked for, what is resident in the base stays. -/
theorem Reach.resident_step (h : Reach p o) (hb : p.topology.base? = some b)
    (hstep : Step p o o') {lines : Finset Nat} (hroom : (p.geometry b).HasRoom lines)
    (hasked : ∀ line, o.Asked p b line → line ∈ lines) (hline : o.lines b line ≠ none) :
    o'.lines b line ≠ none := by
  rcases Inclusive.lines_base hb hstep with
    hiff | ⟨-, r, victim, hplaced, -, -, hr, hdemand, hfull⟩
  · exact (hiff line).2 hline
  · have hnot : ¬(p.geometry b).Full (o.lines b) (p.line b r.addr) :=
      hroom.not_full (fun line hline => hasked line (h.asked_of_resident hb hline))
        (hasked _ (.of_mem hr hdemand)) hplaced.absent
    have hvictim : victim = none := by_contra fun hne => hnot (hfull hne)
    exact hplaced.victim_eq_none_iff.1 hvictim line hline

end Asked

/-- The base has displaced nothing. -/
structure Undisplaced (p : Plan) (b : Nat) (o : Overview) : Prop where
  installed : ∀ r cycle, .installed b r cycle ∈ o.journal → o.lines b (p.line b r.addr) ≠ none
  repair : o.repair = none
  debt : ∀ d, o.debt = some d → ∃ i ∈ p.topology.tops, d.via = some i
  bypass : ∀ x ∈ o.traffic, x.2.bypass = false
  writeBacks : ∀ x ∈ o.traffic, x.2.kind = .writeBack → p.receiver? x.1 = some (.cache b)
  tops : ∀ i ∈ p.topology.tops,
    (o.counters i).backInvalidations = 0 ∧ (o.counters i).dirtyBackInvalidations = 0
  base : (o.counters b).writeBacks = 0
  memory : o.memoryWriteBacks = 0

namespace Undisplaced

variable {p : Plan} {b : Nat} {o o' : Overview} (h : Undisplaced p b o) (ho : Orderly p o)
  (hb : p.topology.base? = some b) (hstep : Step p o o')
  (hkept : ∀ line, o.lines b line ≠ none → o'.lines b line ≠ none)

include h

theorem not_repair {ρ : Repair} : o.repair ≠ some ρ := by
  rw [h.repair]
  exact (Option.some_ne_none ρ).symm

theorem not_bypass {s : Spot} {r : Request} {rest : Multiset (Spot × Request)}
    (ht : o.traffic = (s, r) ::ₘ rest) : r.bypass ≠ true := by
  rw [h.bypass _ (mem_of_eq_cons ht)]
  exact Bool.false_ne_true

include hb hstep hkept

omit hb in
theorem installed_step :
    ∀ r cycle, .installed b r cycle ∈ o'.journal → o'.lines b (p.line b r.addr) ≠ none := by
  have hold := fun r cycle hr => hkept _ (h.installed r cycle hr)
  intro r cycle hr
  cases hstep with
  | note event hevent =>
    rcases List.mem_cons.1 hr with rfl | hr
    · cases hevent
    · exact hold r cycle hr
  | arrive | lookUp | absorb | memoryAbsorb | hit | merge | miss | install | bypass | divert
  | retire =>
    rcases List.mem_cons.1 hr with heq | hr
    · cases heq
    · exact hold r cycle hr
  | place ht hb' _ _ _ _ hline =>
    rcases List.mem_cons.1 hr with heq | hr
    · cases heq
      dsimp only
      rw [Function.update_self, hline.installed]
      exact Option.some_ne_none false
    · exact hold r cycle hr
  | _ => exact hold r cycle hr

theorem repair_step : o'.repair = none := by
  cases hstep with
  | place ht hb' _ _ _ _ hline =>
    obtain rfl := Option.some.inj (hb.symm.trans hb')
    dsimp only at hkept ⊢
    rw [Function.update_self] at hkept
    rw [hline.victim_eq_none_iff.2 hkept, Option.map_none]
  | recalled _ hrepair | drop _ _ _ hrepair | overtake _ _ hrepair =>
    exact absurd hrepair h.not_repair
  | repaired => rfl
  | _ => exact h.repair

theorem debt_step : ∀ d, o'.debt = some d → ∃ i ∈ p.topology.tops, d.via = some i := by
  intro d hd
  cases hstep with
  | pay => cases hd
  | install ht hi =>
    obtain ⟨v, -, rfl⟩ := Option.map_eq_some_iff.1 hd
    exact ⟨_, hi, rfl⟩
  | bypass ht hi hbypass => exact absurd hbypass (h.not_bypass ht)
  | place ht hb' _ _ _ _ hline =>
    obtain rfl := Option.some.inj (hb.symm.trans hb')
    dsimp only at hd hkept
    rw [Function.update_self] at hkept
    rw [hline.victim_eq_none_iff.2 hkept] at hd
    cases hd
  | drop _ _ _ hrepair => exact absurd hrepair h.not_repair
  | _ => exact h.debt d hd

omit hkept hb in
theorem bypass_step : ∀ x ∈ o'.traffic, x.2.bypass = false := by
  have hbypass := h.bypass
  cases hstep with
  | note | recalled | drop | repaired | tick | newCycle => exact hbypass
  | issue | pay => exact forall_mem_cons rfl hbypass
  | move ht | arrive ht | lookUp ht | hit ht | merge ht | miss ht | install ht | bypass ht
  | place ht | divert ht =>
    have hr := hbypass _ (mem_of_eq_cons ht)
    exact forall_mem_cons hr (forall_mem_rest hbypass ht)
  | absorb ht | memoryAbsorb ht | retire ht => exact forall_mem_rest hbypass ht
  | overtake _ _ hrepair => exact absurd hrepair h.not_repair

omit hkept in
include ho in
theorem writeBacks_step :
    ∀ x ∈ o'.traffic, x.2.kind = .writeBack → p.receiver? x.1 = some (.cache b) := by
  have hwriteBacks := h.writeBacks
  have hpass : ∀ {s s' : Spot} {r r' : Request} {rest : Multiset (Spot × Request)},
      o.traffic = (s, r) ::ₘ rest → r.kind.isDemand = true → r'.kind = r.kind →
      ∀ x ∈ (s', r') ::ₘ rest, x.2.kind = .writeBack → p.receiver? x.1 = some (.cache b) := by
    intro s s' r r' rest ht hdemand hkind
    refine forall_mem_cons (fun hr => ?_) (forall_mem_rest hwriteBacks ht)
    exact absurd (hkind.symm.trans hr) (Request.ne_writeBack hdemand)
  have hfits := fun {x : Spot × Request} (hx : x ∈ o.traffic) => (ho.admits x hx).fits
  cases hstep with
  | note | recalled | drop | repaired | tick | newCycle => exact hwriteBacks
  | issue readyAt haddr hkind =>
    exact forall_mem_cons (fun hr => absurd hr (Request.ne_writeBack hkind)) hwriteBacks
  | move ht hs =>
    have hmem := mem_of_eq_cons ht
    refine forall_mem_cons (fun hr => ?_) (forall_mem_rest hwriteBacks ht)
    exact ((hfits hmem).receiver?_route hs hr).trans (hwriteBacks _ hmem hr)
  | arrive ht _ _ hr => exact hpass ht hr rfl
  | lookUp ht => exact hpass ht (hfits (mem_of_eq_cons ht)).1 rfl
  | hit ht hi | merge ht hi | miss ht hi =>
    exact hpass ht ((hfits (mem_of_eq_cons ht)).lookups_top hi).1 rfl
  | install ht hi | bypass ht hi =>
    exact hpass ht ((hfits (mem_of_eq_cons ht)).fills_top hi).1 rfl
  | place ht hb' hr => exact hpass ht hr rfl
  | pay site hd =>
    refine forall_mem_cons (fun _ => ?_) hwriteBacks
    obtain ⟨i, hi, hvia⟩ := h.debt _ hd
    rw [Debt.spot, hvia]
    simp [Plan.receiver?, Topology.below_top hb hi, Below.site]
  | absorb ht | memoryAbsorb ht | retire ht => exact forall_mem_rest hwriteBacks ht
  | divert _ _ _ _ hrepair | overtake _ _ hrepair => exact absurd hrepair h.not_repair

omit hkept in
theorem tops_step : ∀ i ∈ p.topology.tops,
    (o'.counters i).backInvalidations = 0 ∧ (o'.counters i).dirtyBackInvalidations = 0 := by
  intro i hi
  have hold := h.tops i hi
  have hne := Topology.top_ne_base hi hb
  cases hstep with
  | lookUp ht hs readyAt dirty hb' | place ht hb' =>
    obtain rfl := Option.some.inj (hb.symm.trans hb')
    dsimp only
    rwa [Function.update_of_ne hne]
  | @hit j | @merge j | @miss j =>
    by_cases hj : i = j
    · subst hj
      dsimp only
      rwa [Function.update_self]
    · dsimp only
      rwa [Function.update_of_ne hj]
  | @install j =>
    by_cases hj : i = j
    · subst hj
      dsimp only
      rw [Function.update_self]
      split <;> exact hold
    · dsimp only
      rwa [Function.update_of_ne hj]
  | bypass ht _ hbypass => exact absurd hbypass (h.not_bypass ht)
  | divert _ _ _ _ hrepair | drop _ _ _ hrepair => exact absurd hrepair h.not_repair
  | _ => exact hold

theorem base_step : (o'.counters b).writeBacks = 0 := by
  have hold := h.base
  have hne := fun {i : Nat} (hi : i ∈ p.topology.tops) => (Topology.top_ne_base hi hb).symm
  cases hstep with
  | lookUp ht hs readyAt dirty hb' =>
    obtain rfl := Option.some.inj (hb.symm.trans hb')
    dsimp only
    rwa [Function.update_self]
  | hit ht hi | merge ht hi | miss ht hi | install ht hi | bypass ht hi =>
    dsimp only
    rwa [Function.update_of_ne (hne hi)]
  | place ht hb' _ _ _ _ hline =>
    obtain rfl := Option.some.inj (hb.symm.trans hb')
    dsimp only at hkept ⊢
    rw [Function.update_self] at hkept
    rwa [Function.update_self, hline.victim_eq_none_iff.2 hkept]
  | divert _ _ _ _ hrepair | drop _ _ _ hrepair => exact absurd hrepair h.not_repair
  | _ => exact hold

omit hkept hb in
theorem memory_step : o'.memoryWriteBacks = 0 := by
  cases hstep with
  | memoryAbsorb ht hr =>
    have hreceiver := h.writeBacks _ (mem_of_eq_cons ht) hr
    cases hreceiver
  | _ => exact h.memory

theorem step (ho : Orderly p o) : Undisplaced p b o' where
  installed := h.installed_step hstep hkept
  repair := h.repair_step hb hstep hkept
  debt := h.debt_step hb hstep hkept
  bypass := h.bypass_step hstep
  writeBacks := h.writeBacks_step ho hb hstep
  tops := h.tops_step hb hstep
  base := h.base_step hb hstep hkept
  memory := h.memory_step hstep

end Undisplaced

theorem Undisplaced.start (p : Plan) (b : Nat) : Undisplaced p b .start where
  installed := fun _ _ hr => absurd hr List.not_mem_nil
  repair := rfl
  debt := fun _ hd => nomatch hd
  bypass := fun _ hx => absurd hx (Multiset.notMem_zero _)
  writeBacks := fun _ hx => absurd hx (Multiset.notMem_zero _)
  tops := fun _ _ => ⟨rfl, rfl⟩
  base := rfl
  memory := rfl

/-- Where there is room for all lines that were asked for, the base has displaced nothing. -/
theorem Reach.undisplaced {p : Plan} {b : Nat} {o : Overview} (h : Reach p o)
    (hb : p.topology.base? = some b) {lines : Finset Nat} (hroom : (p.geometry b).HasRoom lines)
    (hasked : ∀ line, o.Asked p b line → line ∈ lines) : Undisplaced p b o := by
  refine h.invariant
    (fun o => (∀ line, o.Asked p b line → line ∈ lines) → Undisplaced p b o)
    (fun _ => .start p b) (fun o o' hreach hu hstep hasked' => ?_) hasked
  have hasked : ∀ line, o.Asked p b line → line ∈ lines :=
    fun line hline => hasked' line (hstep.asked hline)
  exact (hu hasked).step hb hstep
    (fun _ => hreach.resident_step hb hstep hroom hasked) hreach.orderly

end CacheHierarchy
