import CacheHierarchy.Proofs.Overview.Accounted
import CacheHierarchy.Proofs.Overview.Balanced

/-!
# Tallies of look-ups

A tally is an overview reduced to what the counters of look-ups and of reads depend on: where the
demand requests are and which of them have missed, how many accesses were issued, and how many
misses are done. A step of an overview leaves its tally as it is or is one of five things that can
happen to a tally.

An access is looked up in the first level once. Each miss there is looked up in the base once, and
each miss of the last cache is read from memory once. So the counter of each level, together with
the requests that are still on their way to it, is a counter of the level above. No counter is above
the number of accesses, which have numbers that are words, so none is ever saturated.
-/

namespace CacheHierarchy

namespace Counters

def lookups (c : Counters) : Counters :=
  { accesses := c.accesses, hits := c.hits, misses := c.misses, writes := c.writes }

/-- A look-up is a hit or a miss. -/
theorem parts_countLookup {c : Counters} (h : c.hits + c.misses = c.accesses)
    (hroom : c.accesses + 1 < wordLimit) (hit isWrite : Bool) :
    (c.countLookup hit isWrite).hits = c.hits + hit.toNat ∧
      (c.countLookup hit isWrite).misses = c.misses + (!hit).toNat ∧
      (c.countLookup hit isWrite).accesses = c.accesses + 1 := by
  have haccesses := Word.bump_of_lt hroom
  cases hit with
  | false => exact ⟨rfl, Word.bump_of_lt (by omega), haccesses⟩
  | true => exact ⟨Word.bump_of_lt (by omega), rfl, haccesses⟩

end Counters

namespace Topology

theorem le_total {t : Topology} {i : Nat} (hi : i ∈ t.tops) (f : Nat → Nat) : f i ≤ t.total f := by
  cases t <;> simp only [tops, List.mem_cons, List.not_mem_nil, or_false] at hi
  · subst hi
    simp [total, tops]
  · subst hi
    simp [total, tops]
  · rcases hi with rfl | rfl <;> simp [total, tops]

theorem total_mono {t : Topology} {f g : Nat → Nat} (h : ∀ i, f i ≤ g i) :
    t.total f ≤ t.total g := by
  have h0 := h 0
  have h1 := h 1
  cases t <;> simp only [total, tops, List.map_cons, List.map_nil, List.foldr_cons,
    List.foldr_nil] <;> omega

end Topology

@[ext]
structure Tally where
  /-- Where the demand requests are, and whether they have missed. -/
  demands : Multiset (Spot × Bool)
  counters : Nat → Counters
  reads : Nat
  /-- The number of accesses that were issued. -/
  issued : Nat
  /-- The number of misses that are done. -/
  missed : Nat

/-- Where the demand requests in traffic are, and whether they have missed. -/
def demandSpots (t : Multiset (Spot × Request)) : Multiset (Spot × Bool) :=
  (t.filter fun x => x.2.kind.isDemand = true).map fun x => (x.1, x.2.isMiss)

def Overview.tally (o : Overview) : Tally where
  demands := demandSpots o.traffic
  counters := fun i => (o.counters i).lookups
  reads := o.memoryReads
  issued := o.accessIds.length
  missed := o.completions.countP Completion.miss

section Demands

variable {s : Spot} {r : Request} {t : Multiset (Spot × Request)}

theorem demandSpots_cons (h : r.kind.isDemand = true) :
    demandSpots ((s, r) ::ₘ t) = (s, r.isMiss) ::ₘ demandSpots t := by
  simp [demandSpots, h]

theorem demandSpots_cons_of_not (h : ¬r.kind.isDemand = true) :
    demandSpots ((s, r) ::ₘ t) = demandSpots t := by
  simp [demandSpots, h]

theorem demandSpots_overtake {p : Plan} {i addr : Nat} (t : Multiset (Spot × Request)) :
    demandSpots (t.map (p.overtake i addr)) = demandSpots t := by
  simp only [demandSpots, Multiset.filter_map, Multiset.map_map]
  refine Multiset.map_congr ?_ fun x _ => ?_
  · refine Multiset.filter_congr fun x _ => ?_
    rw [Function.comp_apply, overtake_snd]
  · rw [Function.comp_apply, overtake_fst, overtake_snd]

theorem demandSpots_eq_zero (h : demandIds t = 0) : demandSpots t = 0 := by
  rw [demandIds, Multiset.map_eq_zero] at h
  rw [demandSpots, h, Multiset.map_zero]

end Demands

def census (P : Spot × Bool → Bool) (d : Multiset (Spot × Bool)) : Nat :=
  d.countP fun x => P x = true

@[simp] theorem census_zero (P : Spot × Bool → Bool) : census P 0 = 0 := rfl

@[simp] theorem census_cons (P : Spot × Bool → Bool) (x : Spot × Bool)
    (d : Multiset (Spot × Bool)) : census P (x ::ₘ d) = census P d + (P x).toNat := by
  rw [census, Multiset.countP_cons]
  cases P x <;> rfl

/-- A demand request is handed from one spot to the next, and not after a look-up. -/
inductive Passage (p : Plan) : Spot → Spot → Prop
  | leave {l : Nat} (hl : p.topology.last? = some l) : Passage p (.sends l) .memory
  | handDown {i b : Nat} (hb : p.topology.base? = some b) (hi : i ∈ p.topology.tops) :
      Passage p (.sends i) (.lookups b)
  | read {l : Nat} (hl : p.topology.last? = some l) : Passage p .memory (.fills l)
  | finish (hl : p.topology.last? = none) : Passage p .memory .finished
  | handUp {b i : Nat} (hb : p.topology.base? = some b) (hi : i ∈ p.topology.tops) :
      Passage p (.fills b) (.fills i)
  | fill {i : Nat} (hi : i ∈ p.topology.tops) : Passage p (.fills i) .finished

namespace Tally

inductive Step (p : Plan) (t : Tally) : Tally → Prop
  | issue (kind : AccessKind) (hissued : t.issued + 1 < wordLimit) :
      Step p t { t with
        demands := (p.entry kind, false) ::ₘ t.demands
        issued := t.issued + 1 }
  | pass {s s' : Spot} {miss : Bool} {rest : Multiset (Spot × Bool)}
      (ht : t.demands = (s, miss) ::ₘ rest) (hs : Passage p s s') :
      Step p t { t with
        demands := (s', miss) ::ₘ rest
        reads := t.reads + s.reads }
  /-- A look-up in the first level. -/
  | ask {i : Nat} {rest : Multiset (Spot × Bool)} (ht : t.demands = (.lookups i, false) ::ₘ rest)
      (hi : i ∈ p.topology.tops) (hit isWrite : Bool) :
      Step p t { t with
        demands := (if hit then .finished else .sends i, !hit) ::ₘ rest
        counters := Function.update t.counters i ((t.counters i).countLookup hit isWrite) }
  /-- A look-up in the base. -/
  | askBelow {b : Nat} {s : Spot} {miss hit : Bool} {rest : Multiset (Spot × Bool)}
      (ht : t.demands = (.lookups b, miss) ::ₘ rest) (hb : p.topology.base? = some b)
      (hs : hit = false ∧ s = .sends b ∨ hit = true ∧ ∃ i ∈ p.topology.tops, s = .fills i) :
      Step p t { t with
        demands := (s, miss) ::ₘ rest
        counters := Function.update t.counters b ((t.counters b).countLookup hit false) }
  | retire {miss : Bool} {rest : Multiset (Spot × Bool)}
      (ht : t.demands = (.finished, miss) ::ₘ rest) :
      Step p t { t with
        demands := rest
        missed := t.missed + miss.toNat }

end Tally

/-- What is handed on without a look-up is handed from one spot to the next. -/
theorem Route.passage {p : Plan} {o : Overview} {r : Request} {s s' : Spot}
    (h : Route p o r s s') (hfits : p.Fits r s) (hdemand : r.kind.isDemand = true)
    (hleft : ∀ i, s ≠ .lookups i) : Passage p s s' := by
  have hpasses : ∀ {i}, (p.Passes r i ∨ r.kind = .writeBack ∧ p.Dirties i) → p.Passes r i :=
    fun h => h.resolve_right fun hw => Request.ne_writeBack hdemand hw.1
  cases h with
  | release => exact absurd hfits.1 (Request.ne_writeBack hdemand)
  | leave hbelow => exact .leave (Topology.last?_of_below hbelow (hpasses hfits).lt_size)
  | handFill _ hr => exact absurd hr (Request.ne_writeBack hdemand)
  | handDown hbelow =>
    exact .handDown (Topology.base?_of_below hbelow).1
      (Topology.mem_tops_of_below hbelow (hpasses hfits).lt_size)
  | missBelow => exact absurd rfl (hleft _)
  | answer hb hs _ hi =>
    rcases hs with rfl | rfl
    · exact absurd rfl (hleft _)
    · exact .handUp hb (Topology.mem_tops_of_entryFor? hi)
  | read hi => exact .read hi
  | finish hlast => exact .finish hlast

theorem lookups_update (counters : Nat → Counters) (i : Nat) (c : Counters) :
    (fun j => (Function.update counters i c j).lookups) =
      Function.update (fun j => (counters j).lookups) i c.lookups :=
  Function.comp_update Counters.lookups counters i c

theorem lookups_update_same {counters : Nat → Counters} {i : Nat} {c : Counters}
    (h : c.lookups = (counters i).lookups) :
    (fun j => (Function.update counters i c j).lookups) = fun j => (counters j).lookups := by
  rw [lookups_update, h]
  exact Function.update_eq_self i fun j => (counters j).lookups

theorem Accounted.length_le {o : Overview} (h : Accounted o) : o.accessIds.length ≤ o.nextId := by
  have hsub : o.accessIds ⊆ List.range o.nextId := fun id hid => List.mem_range.2 (h.lt id hid)
  have hle := (h.nodup.subperm hsub).length_le
  rwa [List.length_range] at hle

theorem demandSpots_eq_cons {s : Spot} {r : Request} {t rest : Multiset (Spot × Request)}
    (ht : t = (s, r) ::ₘ rest) (h : r.kind.isDemand = true) :
    demandSpots t = (s, r.isMiss) ::ₘ demandSpots rest := by
  rw [ht, demandSpots_cons h]

theorem demandSpots_eq_of_not {s : Spot} {r : Request} {t rest : Multiset (Spot × Request)}
    (ht : t = (s, r) ::ₘ rest) (h : ¬r.kind.isDemand = true) :
    demandSpots t = demandSpots rest := by
  rw [ht, demandSpots_cons_of_not h]

theorem Route.of_lookups {p : Plan} {o : Overview} {r : Request} {b : Nat} {s : Spot}
    (h : Route p o r (.lookups b) s) :
    (o.lines b (p.line b r.addr)).isSome = false ∧ s = .sends b ∨
      (o.lines b (p.line b r.addr)).isSome = true ∧ ∃ i ∈ p.topology.tops, s = .fills i := by
  cases h with
  | missBelow _ hline =>
    rw [hline]
    exact .inl ⟨rfl, rfl⟩
  | answer _ hs _ hi hline =>
    obtain ⟨⟨⟩⟩ | ⟨⟨⟩⟩ := hs
    exact .inr ⟨Option.isSome_iff_ne_none.2 hline, _, Topology.mem_tops_of_entryFor? hi, rfl⟩

namespace Tally.Step

theorem of_eq {p : Plan} {t u u' : Tally} (h : Step p t u) (heq : u' = u) : Step p t u' :=
  heq ▸ h

section Overviews

variable {p : Plan} {o o' : Overview} {s s' : Spot} {r r' : Request} {i : Nat}
  {rest : Multiset (Spot × Request)}

theorem of_pass (ht : o.traffic = (s, r) ::ₘ rest) (ht' : o'.traffic = (s', r') ::ₘ rest)
    (hs : Passage p s s') (hdemand : r.kind.isDemand = true) (hkind : r'.kind = r.kind)
    (hmiss : r'.isMiss = r.isMiss)
    (hcounters : (fun j => (o'.counters j).lookups) = fun j => (o.counters j).lookups)
    (hreads : o'.memoryReads = o.memoryReads + s.reads) (hids : o'.accessIds = o.accessIds)
    (hdone : o'.completions = o.completions) : Step p o.tally o'.tally := by
  refine (pass (t := o.tally) (demandSpots_eq_cons ht hdemand) hs).of_eq ?_
  refine Tally.ext ?_ hcounters hreads (congrArg List.length hids)
    (congrArg (List.countP Completion.miss) hdone)
  rw [← hmiss]
  exact demandSpots_eq_cons ht' (hkind ▸ hdemand)

theorem of_ask (ho : Orderly p o) (ht : o.traffic = (.lookups i, r) ::ₘ rest)
    (hi : i ∈ p.topology.tops) (hit : Bool)
    (ht' : o'.traffic = (if hit then .finished else .sends i, r') ::ₘ rest)
    (hkind : r'.kind = r.kind) (hmiss : r'.isMiss = !hit)
    (hcounters : o'.counters =
      Function.update o.counters i ((o.counters i).countLookup hit r.kind.isWrite))
    (hreads : o'.memoryReads = o.memoryReads)
    (hids : o'.accessIds.length = o.accessIds.length) (hdone : o'.completions = o.completions) :
    Step p o.tally o'.tally := by
  obtain ⟨hdemand, -, hfresh⟩ := (ho.admits _ (mem_of_eq_cons ht)).fits.lookups_top hi
  refine (ask (t := o.tally) (hfresh ▸ demandSpots_eq_cons ht hdemand) hi hit r.kind.isWrite).of_eq
    (Tally.ext ?_ ?_ hreads hids (congrArg (List.countP Completion.miss) hdone))
  · rw [← hmiss]
    exact demandSpots_eq_cons ht' (hkind ▸ hdemand)
  · simp only [Overview.tally, hcounters]
    exact lookups_update _ _ _

theorem of_issue (ha : Accounted o) (hnext : o.nextId + 1 < wordLimit) {kind : AccessKind}
    (ht' : o'.traffic = (p.entry kind, r') ::ₘ o.traffic) (hdemand : r'.kind.isDemand = true)
    (hmiss : r'.isMiss = false) (hcounters : o'.counters = o.counters)
    (hreads : o'.memoryReads = o.memoryReads)
    (hids : o'.accessIds.length = o.accessIds.length + 1)
    (hdone : o'.completions = o.completions) : Step p o.tally o'.tally := by
  refine (issue (t := o.tally) kind ((Nat.succ_le_succ ha.length_le).trans_lt hnext)).of_eq ?_
  refine Tally.ext ?_ ?_ hreads hids (congrArg (List.countP Completion.miss) hdone)
  · rw [← hmiss]
    exact demandSpots_eq_cons ht' hdemand
  · simp only [Overview.tally, hcounters]

theorem of_retire (ht : o.traffic = (.finished, r) ::ₘ o'.traffic)
    (hdemand : r.kind.isDemand = true) (hcounters : o'.counters = o.counters)
    (hreads : o'.memoryReads = o.memoryReads) (hids : o'.accessIds.length = o.accessIds.length)
    {cycle : Nat} (hdone : o'.completions = o.completions ++ [.ofRequest r cycle]) :
    Step p o.tally o'.tally := by
  refine (retire (t := o.tally) (demandSpots_eq_cons ht hdemand)).of_eq
    (Tally.ext rfl ?_ hreads hids ?_)
  · simp only [Overview.tally, hcounters]
  · simp only [Overview.tally, hdone, List.countP_append, List.countP_singleton,
      Completion.ofRequest]
    cases r.isMiss <;> rfl

end Overviews

end Tally.Step

namespace Step

variable {p : Plan} {o o' : Overview}

/-- A step leaves the tally as it is, or one thing happens to it. -/
theorem tally (hstep : Step p o o') (ho : Orderly p o) (ha : Accounted o) :
    o'.tally = o.tally ∨ Tally.Step p o.tally o'.tally := by
  cases hstep with
  | note | recalled | repaired | tick | newCycle => exact .inl rfl
  | issue readyAt haddr hkind hnext =>
    refine .inr (.of_issue ha hnext rfl hkind rfl rfl rfl ?_ rfl)
    simp only [Overview.accessIds, Outstanding.ids, List.length_append, List.length_map,
      List.length_singleton]
    omega
  | @move s s' r rest ht hs readyAt dirty done hleft =>
    have hfits := (ho.admits _ (mem_of_eq_cons ht)).fits
    by_cases hdemand : r.kind.isDemand = true
    · exact .inr (.of_pass ht rfl (hs.passage hfits hdemand hleft) hdemand rfl rfl rfl rfl rfl rfl)
    · refine .inl (Tally.ext ?_ rfl ?_ rfl rfl)
      · exact (demandSpots_cons_of_not (r := { r with readyAt, dirty, done }) hdemand).trans
          (demandSpots_eq_of_not ht hdemand).symm
      · exact congrArg (o.memoryReads + ·) (hs.reads_eq_zero hdemand)
  | arrive ht hs readyAt hdemand =>
    have hpassage := hs.passage (ho.admits _ (mem_of_eq_cons ht)).fits hdemand
      fun _ => Spot.noConfusion
    exact .inr (.of_pass ht rfl hpassage hdemand rfl rfl rfl rfl rfl rfl)
  | @lookUp b s' r rest ht hs readyAt dirty hb cycle =>
    have hdemand := (ho.admits _ (mem_of_eq_cons ht)).fits.1
    refine .inr ((Tally.Step.askBelow (t := o.tally) (demandSpots_eq_cons ht hdemand) hb
      hs.of_lookups).of_eq ?_)
    exact Tally.ext (demandSpots_cons (r := { r with readyAt, dirty }) hdemand)
      (lookups_update _ _ _) rfl rfl rfl
  | pay =>
    exact .inl (Tally.ext (demandSpots_cons_of_not Bool.false_ne_true) rfl rfl rfl rfl)
  | absorb ht hr | memoryAbsorb ht hr =>
    exact .inl (Tally.ext (demandSpots_eq_of_not ht (Request.not_isDemand hr)).symm rfl rfl rfl rfl)
  | hit ht hi =>
    have hmiss := ((ho.admits _ (mem_of_eq_cons ht)).fits.lookups_top hi).2.2
    exact .inr (.of_ask ho ht hi true rfl rfl hmiss rfl rfl rfl rfl)
  | merge ht hi =>
    have hmiss := ((ho.admits _ (mem_of_eq_cons ht)).fits.lookups_top hi).2.2
    refine .inr (.of_ask ho ht hi true rfl rfl hmiss rfl rfl ?_ rfl)
    simp only [Overview.accessIds, Outstanding.ids_join]
  | miss ht hi =>
    refine .inr (.of_ask ho ht hi false rfl rfl rfl rfl rfl ?_ rfl)
    simp only [Overview.accessIds, Outstanding.ids_await]
  | install ht hi =>
    have hdemand := ((ho.admits _ (mem_of_eq_cons ht)).fits.fills_top hi).1
    refine .inr (.of_pass ht rfl (.fill hi) hdemand rfl rfl (lookups_update_same ?_) rfl rfl rfl)
    split <;> rfl
  | bypass ht hi =>
    have hdemand := ((ho.admits _ (mem_of_eq_cons ht)).fits.fills_top hi).1
    exact .inr (.of_pass ht rfl (.fill hi) hdemand rfl rfl (lookups_update_same rfl) rfl rfl rfl)
  | place ht hb hr hi =>
    have hpassage := Passage.handUp hb (Topology.mem_tops_of_entryFor? hi)
    refine .inr (.of_pass ht rfl hpassage hr rfl rfl (lookups_update_same ?_) rfl rfl rfl)
    split <;> rfl
  | @divert b s r rest ρ ht hr hb hs hrepair hline readyAt cycle =>
    have hdemand := Request.not_isDemand hr
    refine .inl (Tally.ext ?_ (lookups_update_same rfl) rfl rfl rfl)
    exact (demandSpots_cons_of_not (r := { r with readyAt }) hdemand).trans
      (demandSpots_eq_of_not ht hdemand).symm
  | drop => exact .inl (Tally.ext rfl (lookups_update_same rfl) rfl rfl rfl)
  | overtake => exact .inl (Tally.ext (demandSpots_overtake _) rfl rfl rfl rfl)
  | retire ht he =>
    obtain ⟨-, -, hids, -⟩ := Outstanding.remove?_eq_some ho.nodup he
    have hlength := hids.length_eq
    refine .inr (.of_retire ht (ho.admits _ (mem_of_eq_cons ht)).fits rfl rfl ?_ rfl)
    simp only [Overview.accessIds, List.length_append, List.length_map, List.length_cons,
      List.length_nil] at hlength ⊢
    omega

end Step

def Plan.isAsking (p : Plan) : Spot × Bool → Bool
  | (.lookups i, _) => i ∈ p.topology.tops
  | _ => false

def isDescending (b : Nat) : Spot × Bool → Bool
  | (.lookups i, _) => i = b
  | (.sends i, _) => i ≠ b
  | _ => false

def Plan.isUnread (p : Plan) : Spot × Bool → Bool
  | (.sends i, _) => p.topology.last? = some i
  | (.memory, _) => true
  | _ => false

namespace Passage

variable {p : Plan} {s s' : Spot} (h : Passage p s s') (miss : Bool)

include h

/-- Nothing is looked up in the first level that was handed on. -/
theorem not_isAsking : p.isAsking (s, miss) = false ∧ p.isAsking (s', miss) = false := by
  cases h with
  | handDown hb => exact ⟨rfl, decide_eq_false (Topology.base_not_mem_tops hb)⟩
  | _ => exact ⟨rfl, rfl⟩

theorem isDescending_eq {b : Nat} (hb : p.topology.base? = some b) :
    isDescending b (s', miss) = isDescending b (s, miss) := by
  cases h with
  | leave hl =>
    obtain rfl := Topology.last?_eq_base hb hl
    simp [isDescending]
  | handDown hb' hi =>
    obtain rfl := Option.some.inj (hb.symm.trans hb')
    simp [isDescending, Topology.top_ne_base hi hb]
  | _ => rfl

theorem reads_add : s.reads + (p.isUnread (s', miss)).toNat = (p.isUnread (s, miss)).toNat := by
  cases h with
  | leave hl => simp [Plan.isUnread, Spot.reads, hl]
  | @handDown i b hb hi =>
    simp [Plan.isUnread, Spot.reads, Topology.last?_of_base? hb, (Topology.top_ne_base hi hb).symm]
  | _ => rfl

end Passage

/-- Every counter of look-ups or reads, with the requests on their way to where they are counted, is
one of the level above. -/
structure Tally.Sound (p : Plan) (t : Tally) : Prop where
  bounded : t.issued < wordLimit
  parts : ∀ i, (t.counters i).hits + (t.counters i).misses = (t.counters i).accesses
  asked : p.topology.last? ≠ none →
    p.topology.total (Counters.accesses ∘ t.counters) + census p.isAsking t.demands = t.issued
  missed : p.topology.total (Counters.misses ∘ t.counters) = census Prod.snd t.demands + t.missed
  below : ∀ b, p.topology.base? = some b →
    (t.counters b).accesses + census (isDescending b) t.demands =
      p.topology.total (Counters.misses ∘ t.counters)
  unwritten : ∀ b, p.topology.base? = some b → (t.counters b).writes = 0
  read : ∀ l, p.topology.last? = some l →
    t.reads + census p.isUnread t.demands = (t.counters l).misses
  direct : p.topology.last? = none → t.reads + census p.isUnread t.demands = t.issued

namespace Tally.Sound

variable {p : Plan} {t t' : Tally} (h : t.Sound p)

include h

theorem total_misses_le :
    p.topology.total (Counters.misses ∘ t.counters) ≤
      p.topology.total (Counters.accesses ∘ t.counters) :=
  Topology.total_mono fun i => (Nat.le_add_left _ _).trans_eq (h.parts i)

/-- The counters of a first-level cache can count one more look-up. -/
theorem room {i : Nat} {miss : Bool} {rest : Multiset (Spot × Bool)}
    (ht : t.demands = (.lookups i, miss) ::ₘ rest) (hi : i ∈ p.topology.tops) :
    (t.counters i).accesses + 1 < wordLimit := by
  have hasked := h.asked (Topology.last?_ne_none_of_mem_tops hi)
  have hle : (t.counters i).accesses ≤ p.topology.total (Counters.accesses ∘ t.counters) :=
    Topology.le_total hi (Counters.accesses ∘ t.counters)
  have hbounded := h.bounded
  rw [ht, census_cons, Plan.isAsking, decide_eq_true hi, Bool.toNat_true] at hasked
  omega

theorem room_below {b : Nat} {miss : Bool} {rest : Multiset (Spot × Bool)}
    (ht : t.demands = (.lookups b, miss) ::ₘ rest) (hb : p.topology.base? = some b) :
    (t.counters b).accesses + 1 < wordLimit := by
  have hasked := h.asked (Topology.last?_ne_none_of_base? hb)
  have hbelow := h.below b hb
  have hle := h.total_misses_le
  have hbounded := h.bounded
  rw [ht, census_cons, isDescending, decide_eq_true rfl, Bool.toNat_true] at hbelow
  omega

section Step

variable (hstep : Tally.Step p t t')

include hstep

theorem bounded_step : t'.issued < wordLimit := by
  cases hstep with
  | issue _ hissued => exact hissued
  | _ => exact h.bounded

theorem parts_step (i : Nat) :
    (t'.counters i).hits + (t'.counters i).misses = (t'.counters i).accesses := by
  have hold := h.parts i
  have hcount : ∀ {j hit isWrite}, (t.counters j).accesses + 1 < wordLimit →
      (Function.update t.counters j ((t.counters j).countLookup hit isWrite) i).hits +
          (Function.update t.counters j ((t.counters j).countLookup hit isWrite) i).misses =
        (Function.update t.counters j ((t.counters j).countLookup hit isWrite) i).accesses := by
    intro j hit isWrite hroom
    by_cases hij : i = j
    · subst hij
      obtain ⟨hhits, hmisses, haccesses⟩ := Counters.parts_countLookup hold hroom hit isWrite
      rw [Function.update_self, hhits, hmisses, haccesses]
      cases hit <;> simp <;> omega
    · rwa [Function.update_of_ne hij]
  cases hstep with
  | issue | pass | retire => exact hold
  | ask ht hi => exact hcount (h.room ht hi)
  | askBelow ht hb => exact hcount (h.room_below ht hb)

theorem asked_step (hlast : p.topology.last? ≠ none) :
    p.topology.total (Counters.accesses ∘ t'.counters) + census p.isAsking t'.demands =
      t'.issued := by
  have hold := h.asked hlast
  cases hstep with
  | issue kind =>
    obtain ⟨i, hi⟩ := Topology.exists_entryFor? hlast kind
    have hentry : p.isAsking (p.entry kind, false) = true := by
      rw [Plan.entry, hi]
      exact decide_eq_true (Topology.mem_tops_of_entryFor? hi)
    simp only [census_cons, hentry, Bool.toNat_true]
    omega
  | pass ht hs =>
    obtain ⟨hbefore, hafter⟩ := hs.not_isAsking _
    rw [ht, census_cons, hbefore] at hold
    simp only [census_cons, hafter]
    exact hold
  | @ask i rest ht hi hit isWrite =>
    obtain ⟨-, -, haccesses⟩ := Counters.parts_countLookup (h.parts i) (h.room ht hi) hit isWrite
    have hbefore : p.isAsking (.lookups i, false) = true := decide_eq_true hi
    have hafter : p.isAsking (if hit then .finished else .sends i, !hit) = false := by
      cases hit <;> rfl
    rw [ht, census_cons, hbefore, Bool.toNat_true] at hold
    dsimp only
    rw [comp_update_add haccesses, Topology.total_update hi, census_cons, hafter, Bool.toNat_false]
    omega
  | @askBelow b s miss hit rest ht hb hs =>
    have htop := Topology.base_not_mem_tops hb
    have hbefore : p.isAsking (.lookups b, miss) = false := decide_eq_false htop
    have hafter : p.isAsking (s, miss) = false := by
      rcases hs with ⟨-, rfl⟩ | ⟨-, i, -, rfl⟩ <;> rfl
    rw [ht, census_cons, hbefore] at hold
    dsimp only
    rw [Function.comp_update, Topology.total_update_of_notMem htop, census_cons, hafter]
    exact hold
  | retire ht =>
    rw [ht, census_cons] at hold
    exact hold

theorem missed_step : p.topology.total (Counters.misses ∘ t'.counters) =
    census Prod.snd t'.demands + t'.missed := by
  have hold := h.missed
  cases hstep with
  | issue => exact hold.trans (by simp)
  | pass ht =>
    rw [ht, census_cons] at hold
    rw [hold, census_cons]
  | @ask i rest ht hi hit isWrite =>
    obtain ⟨-, hmisses, -⟩ := Counters.parts_countLookup (h.parts i) (h.room ht hi) hit isWrite
    rw [ht, census_cons, Bool.toNat_false] at hold
    dsimp only
    rw [comp_update_add hmisses, Topology.total_update hi, census_cons]
    dsimp only [Function.comp_apply]
    omega
  | askBelow ht hb =>
    rw [ht, census_cons] at hold
    dsimp only
    rw [Function.comp_update, Topology.total_update_of_notMem (Topology.base_not_mem_tops hb), hold,
      census_cons]
  | retire ht =>
    rw [ht, census_cons] at hold
    dsimp only at hold ⊢
    omega

theorem below_step {b : Nat} (hb : p.topology.base? = some b) :
    (t'.counters b).accesses + census (isDescending b) t'.demands =
      p.topology.total (Counters.misses ∘ t'.counters) := by
  have hold := h.below b hb
  cases hstep with
  | issue kind =>
    obtain ⟨i, hi⟩ := Topology.exists_entryFor? (Topology.last?_ne_none_of_base? hb) kind
    have hentry : isDescending b (p.entry kind, false) = false := by
      rw [Plan.entry, hi]
      exact decide_eq_false (Topology.top_ne_base (Topology.mem_tops_of_entryFor? hi) hb)
    simp only [census_cons, hentry, Bool.toNat_false, Nat.add_zero]
    exact hold
  | pass ht hs =>
    rw [ht, census_cons] at hold
    rw [census_cons, hs.isDescending_eq _ hb]
    exact hold
  | @ask i rest ht hi hit isWrite =>
    obtain ⟨-, hmisses, -⟩ := Counters.parts_countLookup (h.parts i) (h.room ht hi) hit isWrite
    have hne := Topology.top_ne_base hi hb
    have hbefore : isDescending b (.lookups i, false) = false := decide_eq_false hne
    have hafter : isDescending b (if hit then .finished else .sends i, !hit) = !hit := by
      cases hit <;> simp [isDescending, hne]
    rw [ht, census_cons, hbefore, Bool.toNat_false] at hold
    dsimp only
    rw [Function.update_of_ne hne.symm, comp_update_add hmisses, Topology.total_update hi,
      census_cons, hafter]
    omega
  | @askBelow b' s miss hit rest ht hb' hs =>
    obtain rfl := Option.some.inj (hb.symm.trans hb')
    obtain ⟨-, -, haccesses⟩ :=
      Counters.parts_countLookup (h.parts b) (h.room_below ht hb) hit false
    have hbefore : isDescending b (.lookups b, miss) = true := decide_eq_true rfl
    have hafter : isDescending b (s, miss) = false := by
      rcases hs with ⟨-, rfl⟩ | ⟨-, i, -, rfl⟩ <;> simp [isDescending]
    rw [ht, census_cons, hbefore, Bool.toNat_true] at hold
    dsimp only
    rw [Function.update_self, haccesses, Function.comp_update,
      Topology.total_update_of_notMem (Topology.base_not_mem_tops hb), census_cons, hafter,
      Bool.toNat_false]
    omega
  | retire ht =>
    rw [ht, census_cons] at hold
    exact hold

theorem unwritten_step {b : Nat} (hb : p.topology.base? = some b) :
    (t'.counters b).writes = 0 := by
  have hold := h.unwritten b hb
  cases hstep with
  | issue | pass | retire => exact hold
  | ask _ hi =>
    dsimp only
    rwa [Function.update_of_ne (Topology.top_ne_base hi hb).symm]
  | askBelow _ hb' =>
    obtain rfl := Option.some.inj (hb.symm.trans hb')
    dsimp only
    rw [Function.update_self]
    exact hold

theorem read_step {l : Nat} (hl : p.topology.last? = some l) :
    t'.reads + census p.isUnread t'.demands = (t'.counters l).misses := by
  have hold := h.read l hl
  cases hstep with
  | issue kind =>
    obtain ⟨i, hi⟩ := Topology.exists_entryFor? (hl ▸ Option.some_ne_none l) kind
    rw [census_cons, Plan.entry, hi]
    exact hold
  | pass ht hs =>
    rw [ht, census_cons, ← hs.reads_add] at hold
    dsimp only
    rw [census_cons]
    omega
  | @ask i rest ht hi hit isWrite =>
    rw [ht, census_cons] at hold
    dsimp only
    by_cases hil : i = l
    · subst hil
      obtain ⟨-, hmisses, -⟩ := Counters.parts_countLookup (h.parts i) (h.room ht hi) hit isWrite
      have hafter : p.isUnread (if hit then .finished else .sends i, !hit) = !hit := by
        cases hit <;> simp [Plan.isUnread, hl]
      rw [Function.update_self, hmisses, ← hold, census_cons, hafter, Nat.add_assoc]
      rfl
    · have hafter : p.isUnread (if hit then .finished else .sends i, !hit) = false := by
        cases hit <;> simp [Plan.isUnread, hl, Ne.symm hil]
      rw [Function.update_of_ne (Ne.symm hil), census_cons, hafter]
      exact hold
  | @askBelow b s miss hit rest ht hb hs =>
    obtain rfl := Topology.last?_eq_base hb hl
    obtain ⟨-, hmisses, -⟩ :=
      Counters.parts_countLookup (h.parts l) (h.room_below ht hb) hit false
    have hafter : p.isUnread (s, miss) = !hit := by
      rcases hs with ⟨rfl, rfl⟩ | ⟨rfl, i, -, rfl⟩ <;> simp [Plan.isUnread, hl]
    rw [ht, census_cons] at hold
    dsimp only
    rw [Function.update_self, hmisses, ← hold, census_cons, hafter, Nat.add_assoc]
    rfl
  | retire ht =>
    rw [ht, census_cons] at hold
    exact hold

theorem direct_step (hl : p.topology.last? = none) :
    t'.reads + census p.isUnread t'.demands = t'.issued := by
  have hold := h.direct hl
  cases hstep with
  | issue kind =>
    have hentry : p.topology.entryFor? kind = none :=
      Topology.entryFor?_eq_none_iff.2 (Topology.last?_eq_none_iff.1 hl)
    rw [census_cons, Plan.entry, hentry]
    exact congrArg Nat.succ hold
  | pass ht hs =>
    rw [ht, census_cons, ← hs.reads_add] at hold
    dsimp only
    rw [census_cons]
    omega
  | ask _ hi => exact absurd hl (Topology.last?_ne_none_of_mem_tops hi)
  | askBelow _ hb => exact absurd hl (Topology.last?_ne_none_of_base? hb)
  | retire ht =>
    rw [ht, census_cons] at hold
    exact hold

theorem step : t'.Sound p where
  bounded := h.bounded_step hstep
  parts := h.parts_step hstep
  asked := h.asked_step hstep
  missed := h.missed_step hstep
  below _ := h.below_step hstep
  unwritten _ := h.unwritten_step hstep
  read _ := h.read_step hstep
  direct := h.direct_step hstep

end Step

end Tally.Sound

theorem Tally.Sound.start (p : Plan) : Overview.start.tally.Sound p := by
  have htotal : ∀ f : Counters → Nat, f {} = 0 →
      p.topology.total (f ∘ Overview.start.tally.counters) = 0 := by
    intro f hf
    have hzero : f ∘ Overview.start.tally.counters = fun _ => 0 := funext fun _ => hf
    rw [hzero]
    cases p.topology <;> rfl
  exact
    { bounded := by decide
      parts := fun _ => rfl
      asked := fun _ => htotal _ rfl
      missed := htotal _ rfl
      below := fun _ _ => (htotal _ rfl).symm
      unwritten := fun _ _ => rfl
      read := fun _ _ => rfl
      direct := fun _ => rfl }

/-- The counters of look-ups and reads agree in every overview that can be reached. -/
theorem Reach.tally {p : Plan} {o : Overview} (h : Reach p o) : o.tally.Sound p := by
  refine h.invariant (fun o => o.tally.Sound p) (.start p) fun o o' hreach ho hstep => ?_
  rcases hstep.tally hreach.orderly hreach.accounted with heq | htally
  · rwa [heq]
  · exact ho.step htally

end CacheHierarchy
