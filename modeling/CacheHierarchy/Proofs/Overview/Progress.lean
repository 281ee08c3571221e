import CacheHierarchy.Proofs.Overview.Fills
import CacheHierarchy.Proofs.Overview.Undisplaced

/-!
# The way of a demand request

Where the base displaces nothing, demand requests are all that matters for the reads of memory. One
of them at a time enters, is handed on or leaves (`Progress`): it is looked up at most twice, goes
down to memory if neither look-up finds its line, and comes up through the base.

A read that memory takes in is known by its key, which is the cache that the access entered and the
line of the base. No two requests that have missed in the first level have one key.
-/

namespace CacheHierarchy

/-- The cache that an access enters, and the line of cache `b` that it is to. -/
def Plan.key (p : Plan) (b : Nat) (r : Request) : Option Nat × Nat :=
  (p.topology.entryFor? r.kind, p.line b r.addr)

theorem Plan.key_congr {p : Plan} {b : Nat} {r r' : Request} (hkind : r'.kind = r.kind)
    (haddr : r'.addr = r.addr) : p.key b r' = p.key b r := by
  rw [key, key, hkind, haddr]

def Plan.fetch? (p : Plan) (b : Nat) : Event → Option (Option Nat × Nat)
  | .accepted r => if r.kind.isDemand then some (p.key b r) else none
  | _ => none

def Overview.fetches (o : Overview) (p : Plan) (b : Nat) : List (Option Nat × Nat) :=
  o.journal.filterMap (p.fetch? b)

/-- Memory has taken in the demand requests at a spot, and they are not in the base yet. -/
def Spot.InFlight (b : Nat) (s : Spot) : Prop := s = .memory ∨ s = .fills b

section Fetches

variable {p : Plan} {b : Nat} {o o' : Overview}

theorem Plan.fetch?_eq_none_iff {event : Event} :
    p.fetch? b event = none ↔ event.isRead = false := by
  cases event <;> simp [fetch?, Event.isRead]

theorem length_fetches : (o.fetches p b).length = o.journal.countP Event.isRead := by
  rw [Overview.fetches, List.length_filterMap_eq_countP]
  refine List.countP_congr fun event _ => ?_
  cases event <;> simp [Plan.fetch?, Event.isRead]

theorem mem_fetches {k : Option Nat × Nat} : k ∈ o.fetches p b ↔
    ∃ r, .accepted r ∈ o.journal ∧ r.kind.isDemand = true ∧ p.key b r = k := by
  rw [Overview.fetches, List.mem_filterMap]
  constructor
  · rintro ⟨event, hevent, hk⟩
    cases event with
    | accepted r =>
      obtain ⟨hdemand, hk⟩ := Option.ite_none_right_eq_some.1 hk
      exact ⟨r, hevent, hdemand, Option.some.inj hk⟩
    | _ => cases hk
  · rintro ⟨r, hr, hdemand, rfl⟩
    exact ⟨_, hr, if_pos hdemand⟩

theorem Step.fetches_subset (hstep : Step p o o') : o.fetches p b ⊆ o'.fetches p b :=
  (hstep.journal_suffix.sublist.filterMap _).subset

/-- What is asked for was asked for before, or some request for it has yet to be answered. -/
theorem Step.of_asked (hstep : Step p o o') (ho : Orderly p o) {line : Nat}
    (h : o'.Asked p b line) : o.Asked p b line ∨
      ∃ s r, (s, r) ∈ o'.traffic ∧ r.kind.isDemand = true ∧ s ≠ .finished ∧
        p.line b r.addr = line := by
  rcases h with ⟨s, r, hr, hdemand, rfl⟩ | ⟨d, hd, rfl⟩
  · rcases hstep.exists_origin hr hdemand with ⟨hs, -⟩ | ⟨s₀, r₀, hr₀, hkind, haddr, -⟩
    · exact .inr ⟨s, r, hr, hdemand, hs ▸ p.entry_ne_finished r.kind, rfl⟩
    · left
      rw [← haddr]
      exact .of_mem hr₀ (hkind ▸ hdemand)
  · left
    cases hstep with
    | @retire r rest e outstanding ht =>
      rcases List.mem_append.1 hd with hd | hd
      · exact .inr ⟨d, hd, rfl⟩
      · obtain rfl := List.mem_singleton.1 hd
        have hmem := mem_of_eq_cons ht
        exact .of_mem hmem (ho.admits _ hmem).fits
    | _ => exact .inr ⟨d, hd, rfl⟩

end Fetches

namespace Orderly

variable {p : Plan} {b : Nat} {o : Overview} (h : Orderly p o) (hb : p.topology.base? = some b)

include h hb

/-- A demand request at the base or below has missed in the first level. -/
theorem isMiss_of_inFlight {s : Spot} {r : Request} (hr : (s, r) ∈ o.traffic)
    (hdemand : r.kind.isDemand = true) (hs : s.InFlight b) : r.isMiss = true := by
  have hfits := (h.admits _ hr).fits
  rcases hs with rfl | rfl
  · rcases hfits with ⟨-, hmiss⟩ | ⟨hkind, -⟩
    · exact hmiss.2 (Topology.last?_ne_none_of_base? hb)
    · exact absurd hkind (Request.ne_writeBack hdemand)
  · exact hfits.fills_isMiss hdemand

/-- Two requests that have missed are not for one line and one cache. -/
theorem key_ne (hmatch : ∀ i ∈ p.topology.tops, p.Matches i b) {x y : Spot × Request}
    {rest : Multiset (Spot × Request)} (ht : o.traffic = x ::ₘ rest)
    (hx : x.2.kind.isDemand = true) (hxmiss : x.2.isMiss = true) (hy : y ∈ rest)
    (hydemand : y.2.kind.isDemand = true) (hymiss : y.2.isMiss = true) :
    p.key b y.2 ≠ p.key b x.2 := by
  obtain ⟨i, hi⟩ := Topology.exists_entryFor? (Topology.last?_ne_none_of_base? hb) x.2.kind
  intro heq
  obtain ⟨hentry, hline⟩ := Prod.mk.inj heq
  have hline_eq := (hmatch i (Topology.mem_tops_of_entryFor? hi)).line_eq
  refine h.line_ne ht hx hxmiss hi hy hydemand hymiss (hentry.trans hi) ?_
  rw [hline_eq, hline_eq]
  exact hline

end Orderly

/-- A demand request is handed from one spot to the next. -/
inductive Hop (p : Plan) (b : Nat) (o o' : Overview) (r : Request) : Spot → Spot → Prop
  | miss {i : Nat} (hi : i ∈ p.topology.tops) : Hop p b o o' r (.lookups i) (.sends i)
  | hit {i : Nat} (hmiss : r.isMiss = false) (hline : o.lines b (p.line b r.addr) ≠ none) :
      Hop p b o o' r (.lookups i) .finished
  | merge {i : Nat} {s : Spot} {into : Request} (hmiss : r.isMiss = false)
      (hinto : (s, into) ∈ o'.traffic) (hdemand : into.kind.isDemand = true)
      (hinto' : into.isMiss = true) (hline : p.line b into.addr = p.line b r.addr) :
      Hop p b o o' r (.lookups i) .finished
  | handDown {i : Nat} (hi : i ∈ p.topology.tops) : Hop p b o o' r (.sends i) (.lookups b)
  | missBelow (hline : o.lines b (p.line b r.addr) = none) :
      Hop p b o o' r (.lookups b) (.sends b)
  | read : Hop p b o o' r .memory (.fills b)
  | handUp {s : Spot} {i : Nat} (hi : i ∈ p.topology.tops)
      (hline : o'.lines b (p.line b r.addr) ≠ none) : Hop p b o o' r s (.fills i)
  | install {i : Nat} (hi : i ∈ p.topology.tops) (hline : o.lines b (p.line b r.addr) ≠ none) :
      Hop p b o o' r (.fills i) .finished

namespace Hop

variable {p : Plan} {b : Nat} {o o' : Overview} {r : Request}

/-- A demand request that goes its way, and not to memory, is handed on. -/
theorem of_route {s s' : Spot} (hroute : Route p o r s s') (hfits : p.Fits r s)
    (hdemand : r.kind.isDemand = true) (hb : p.topology.base? = some b) (hs' : s' ≠ .memory)
    (hlines : o'.lines = o.lines) : Hop p b o o' r s s' := by
  have hlast := Topology.last?_of_base? hb
  cases hroute with
  | release => exact absurd hfits.1 (Request.ne_writeBack hdemand)
  | leave => exact absurd rfl hs'
  | handFill _ hr => exact absurd hr (Request.ne_writeBack hdemand)
  | handDown hbelow =>
    obtain rfl := Option.some.inj (hb.symm.trans (Topology.base?_of_below hbelow).1)
    have hpasses : p.Passes r _ :=
      hfits.resolve_right fun hw => Request.ne_writeBack hdemand hw.1
    exact .handDown (Topology.mem_tops_of_below hbelow hpasses.lt_size)
  | missBelow hb' hline =>
    obtain rfl := Option.some.inj (hb.symm.trans hb')
    exact .missBelow hline
  | answer hb' _ _ hi hline =>
    obtain rfl := Option.some.inj (hb.symm.trans hb')
    exact .handUp (Topology.mem_tops_of_entryFor? hi) (hlines ▸ hline)
  | read hi =>
    obtain rfl := Option.some.inj (hlast.symm.trans hi)
    exact .read
  | finish hnone =>
    rw [hlast] at hnone
    cases hnone

variable {i : Nat} {rest : Multiset (Spot × Request)} (ho : Orderly p o)
  (hmatch : ∀ i ∈ p.topology.tops, p.Matches i b) (ht : o.traffic = (.lookups i, r) ::ₘ rest)
  (hi : i ∈ p.topology.tops)

include ho hmatch ht hi

/-- A line that is found in the first level is in the base. -/
theorem of_hit {dirty : Bool} (hinclusive : Inclusive p b o) (hrepair : o.repair = none)
    (hline : o.lines i (p.line i r.addr) = some dirty) :
    Hop p b o o' r (.lookups i) .finished := by
  obtain ⟨-, -, hmiss⟩ := (ho.admits _ (mem_of_eq_cons ht)).fits.lookups_top hi
  refine .hit hmiss ?_
  rw [← (hmatch i hi).line_eq]
  refine (hinclusive.lines i hi (hmatch i hi) _ ?_).ne_none hrepair
  rw [hline]
  exact Option.some_ne_none _

/-- What a request is merged into has missed on its line. -/
theorem of_merge {e : OutstandingAccess} (he : e ∈ o.outstanding.entries)
    (hmark : e.mark = some ⟨i, p.line i r.addr⟩) (hrest : ∀ x ∈ rest, x ∈ o'.traffic) :
    Hop p b o o' r (.lookups i) .finished := by
  obtain ⟨-, -, hmiss⟩ := (ho.admits _ (mem_of_eq_cons ht)).fits.lookups_top hi
  obtain ⟨⟨s, into⟩, hinto, hdemand, -, hdescribes⟩ := ho.exists_request he
  obtain ⟨hmiss', -, hline⟩ := hdescribes.of_mark hmark
  rw [(hmatch i hi).line_eq, (hmatch i hi).line_eq] at hline
  have hstays := (Multiset.mem_cons.1 (ht ▸ hinto)).resolve_left fun heq => by
    cases heq
    rw [hmiss] at hmiss'
    cases hmiss'
  exact .merge hmiss (hrest _ hstays) hdemand hmiss' hline

end Hop

/-- One demand request enters, is handed on, is taken in by memory or leaves, or none does. -/
inductive Progress (p : Plan) (b : Nat) (o o' : Overview) : Prop
  | stay (h : ∀ s r, r.kind.isDemand = true → ((s, r) ∈ o'.traffic ↔ (s, r) ∈ o.traffic))
      (hsame : o'.fetches p b = o.fetches p b)
  | enter {i : Nat} {r : Request} (ht : o'.traffic = (.lookups i, r) ::ₘ o.traffic)
      (hsame : o'.fetches p b = o.fetches p b)
  | hop {s s' : Spot} {r r' : Request} {rest : Multiset (Spot × Request)}
      (ht : o.traffic = (s, r) ::ₘ rest) (ht' : o'.traffic = (s', r') ::ₘ rest)
      (hhop : Hop p b o o' r s s') (hdemand : r.kind.isDemand = true) (hkind : r'.kind = r.kind)
      (haddr : r'.addr = r.addr) (hmiss : s' = .finished → r'.isMiss = r.isMiss)
      (hsame : o'.fetches p b = o.fetches p b)
  | accept {r r' : Request} {rest : Multiset (Spot × Request)}
      (ht : o.traffic = (.sends b, r) ::ₘ rest) (ht' : o'.traffic = (.memory, r') ::ₘ rest)
      (hdemand : r.kind.isDemand = true) (hkind : r'.kind = r.kind) (haddr : r'.addr = r.addr)
      (hnew : o'.fetches p b = p.key b r :: o.fetches p b)
  | leave {r : Request} (ht : o.traffic = (.finished, r) ::ₘ o'.traffic)
      (hsame : o'.fetches p b = o.fetches p b)

theorem mem_cons_writeBack_iff {s s' : Spot} {r r' : Request} {t : Multiset (Spot × Request)}
    (hr' : ¬r'.kind.isDemand = true) (hr : r.kind.isDemand = true) :
    (s, r) ∈ (s', r') ::ₘ t ↔ (s, r) ∈ t := by
  refine ⟨fun hmem => (Multiset.mem_cons.1 hmem).resolve_left ?_, Multiset.mem_cons_of_mem⟩
  rintro ⟨⟩
  exact hr' hr

/-- What a step does to the demand requests where nothing is displaced. -/
theorem Step.progress {p : Plan} {b : Nat} {o o' : Overview} (hstep : Step p o o')
    (ho : Orderly p o) (hinclusive : Inclusive p b o) (hu : Undisplaced p b o)
    (hb : p.topology.base? = some b) (hmatch : ∀ i ∈ p.topology.tops, p.Matches i b) :
    Progress p b o o' := by
  have hfits := fun {x : Spot × Request} (hx : x ∈ o.traffic) => (ho.admits x hx).fits
  cases hstep with
  | note event _ hread =>
    have hread := hread.resolve_right (Topology.last?_ne_none_of_base? hb)
    exact .stay (fun _ _ _ => Iff.rfl)
      (List.filterMap_cons_none (Plan.fetch?_eq_none_iff.2 hread))
  | recalled | drop | repaired | tick | newCycle => exact .stay (fun _ _ _ => Iff.rfl) rfl
  | @issue addr kind readyAt =>
    obtain ⟨i, -, hentry⟩ := Plan.exists_entry (Topology.last?_ne_none_of_base? hb) kind
    refine .enter (i := i) (r := { Request.ofAccess o.nextId addr kind o.now with readyAt }) ?_ rfl
    rw [← hentry]
  | @move s s' r rest ht hs readyAt dirty done hleft hread =>
    by_cases hdemand : r.kind.isDemand = true
    · refine .hop ht rfl ?_ hdemand rfl rfl (fun _ => rfl) rfl
      exact .of_route hs (hfits (mem_of_eq_cons ht)) hdemand hb (hread hdemand) rfl
    · refine .stay (fun _ _ hr => ?_) rfl
      rw [ht]
      refine Iff.trans ?_ (mem_cons_writeBack_iff hdemand hr).symm
      exact mem_cons_writeBack_iff hdemand hr
  | @arrive i r rest ht hs readyAt hdemand =>
    have hpasses : p.Passes r i :=
      (hfits (mem_of_eq_cons ht)).resolve_right fun hw => Request.ne_writeBack hdemand hw.1
    cases hs with
    | leave hbelow =>
      obtain rfl := Option.some.inj ((Topology.last?_of_base? hb).symm.trans
        (Topology.last?_of_below hbelow hpasses.lt_size))
      exact .accept ht rfl hdemand rfl rfl (List.filterMap_cons_some (if_pos hdemand))
  | @lookUp b' s' r rest ht hs =>
    have hdemand := (hfits (mem_of_eq_cons ht)).1
    have hs' : s' ≠ .memory := by
      rintro rfl
      cases hs
    refine .hop ht rfl ?_ hdemand rfl rfl (fun _ => rfl) rfl
    exact .of_route hs (hfits (mem_of_eq_cons ht)) hdemand hb hs' rfl
  | pay => exact .stay (fun _ _ hr => mem_cons_writeBack_iff Bool.false_ne_true hr) rfl
  | absorb ht hr | memoryAbsorb ht hr =>
    refine .stay (fun _ _ hdemand => ?_) rfl
    rw [ht]
    exact (mem_cons_writeBack_iff (Request.not_isDemand hr) hdemand).symm
  | hit ht hi hline =>
    have hdemand := ((hfits (mem_of_eq_cons ht)).lookups_top hi).1
    exact .hop ht rfl (.of_hit ho hmatch ht hi hinclusive hu.repair hline) hdemand rfl rfl
      (fun _ => rfl) rfl
  | merge ht hi he hmark =>
    have hdemand := ((hfits (mem_of_eq_cons ht)).lookups_top hi).1
    refine .hop ht rfl ?_ hdemand rfl rfl (fun _ => rfl) rfl
    exact .of_merge ho hmatch ht hi he hmark fun _ => Multiset.mem_cons_of_mem
  | miss ht hi =>
    have hdemand := ((hfits (mem_of_eq_cons ht)).lookups_top hi).1
    exact .hop ht rfl (.miss hi) hdemand rfl rfl Spot.noConfusion rfl
  | install ht hi =>
    have hmem := mem_of_eq_cons ht
    have hdemand := ((hfits hmem).fills_top hi).1
    have hcovers := hinclusive.fills _ hi (hmatch _ hi) _ hmem (hu.bypass _ hmem)
    exact .hop ht rfl (.install hi (hcovers.ne_none hu.repair)) hdemand rfl rfl (fun _ => rfl) rfl
  | bypass ht hi hbypass => exact absurd hbypass (hu.not_bypass ht)
  | place ht hb' hr hi _ _ hline =>
    obtain rfl := Option.some.inj (hb.symm.trans hb')
    refine .hop ht rfl (.handUp (Topology.mem_tops_of_entryFor? hi) ?_) hr rfl rfl
      (fun _ => rfl) rfl
    dsimp only
    rw [Function.update_self, hline.installed]
    exact Option.some_ne_none false
  | divert _ _ _ _ hrepair | overtake _ _ hrepair => exact absurd hrepair hu.not_repair
  | retire ht => exact .leave ht rfl

namespace Progress

variable {p : Plan} {b : Nat} {o o' : Overview} (hprogress : Progress p b o o') {s : Spot}
  {r : Request}

include hprogress

theorem exists_after (hr : (s, r) ∈ o.traffic) (hdemand : r.kind.isDemand = true) :
    (s, r) ∈ o'.traffic ∨ s = .finished ∨
      ∃ s' r', (s', r') ∈ o'.traffic ∧ r'.kind = r.kind ∧ r'.addr = r.addr ∧
        (Hop p b o o' r s s' ∨ s = .sends b ∧ s' = .memory) := by
  cases hprogress with
  | stay hstay => exact .inl ((hstay s r hdemand).2 hr)
  | enter ht => exact .inl (ht ▸ Multiset.mem_cons_of_mem hr)
  | hop ht ht' hhop _ hkind haddr =>
    rw [ht] at hr
    rcases Multiset.mem_cons.1 hr with heq | hr
    · cases heq
      exact .inr (.inr ⟨_, _, mem_of_eq_cons ht', hkind, haddr, .inl hhop⟩)
    · exact .inl (ht' ▸ Multiset.mem_cons_of_mem hr)
  | accept ht ht' _ hkind haddr =>
    rw [ht] at hr
    rcases Multiset.mem_cons.1 hr with heq | hr
    · cases heq
      exact .inr (.inr ⟨_, _, mem_of_eq_cons ht', hkind, haddr, .inr ⟨rfl, rfl⟩⟩)
    · exact .inl (ht' ▸ Multiset.mem_cons_of_mem hr)
  | leave ht =>
    rw [ht] at hr
    rcases Multiset.mem_cons.1 hr with heq | hr
    · exact .inr (.inl (Prod.mk.inj heq).1)
    · exact .inl hr

theorem exists_before (hr : (s, r) ∈ o'.traffic) (hdemand : r.kind.isDemand = true) :
    (s, r) ∈ o.traffic ∨ (∃ i, s = .lookups i) ∨
      ∃ s₀ r₀, (s₀, r₀) ∈ o.traffic ∧ r₀.kind.isDemand = true ∧ p.key b r = p.key b r₀ ∧
        (Hop p b o o' r₀ s₀ s ∧ (s = .finished → r.isMiss = r₀.isMiss) ∨
          s = .memory ∧ p.key b r₀ ∈ o'.fetches p b) := by
  cases hprogress with
  | stay hstay => exact .inl ((hstay s r hdemand).1 hr)
  | enter ht =>
    rw [ht] at hr
    rcases Multiset.mem_cons.1 hr with heq | hr
    · exact .inr (.inl ⟨_, (Prod.mk.inj heq).1⟩)
    · exact .inl hr
  | hop ht ht' hhop hdemand hkind haddr hmiss =>
    rw [ht'] at hr
    rcases Multiset.mem_cons.1 hr with heq | hr
    · cases heq
      exact .inr (.inr ⟨_, _, mem_of_eq_cons ht, hdemand, Plan.key_congr hkind haddr,
        .inl ⟨hhop, hmiss⟩⟩)
    · exact .inl (ht ▸ Multiset.mem_cons_of_mem hr)
  | accept ht ht' hdemand hkind haddr hnew =>
    rw [ht'] at hr
    rcases Multiset.mem_cons.1 hr with heq | hr
    · cases heq
      exact .inr (.inr ⟨_, _, mem_of_eq_cons ht, hdemand, Plan.key_congr hkind haddr,
        .inr ⟨rfl, hnew ▸ List.mem_cons_self⟩⟩)
    · exact .inl (ht ▸ Multiset.mem_cons_of_mem hr)
  | leave ht => exact .inl (ht ▸ Multiset.mem_cons_of_mem hr)

theorem inFlight (hb : p.topology.base? = some b) (hr : (s, r) ∈ o.traffic)
    (hdemand : r.kind.isDemand = true) (hs : s.InFlight b) :
    o'.lines b (p.line b r.addr) ≠ none ∨ ∃ s' r', (s', r') ∈ o'.traffic ∧
      r'.kind.isDemand = true ∧ s'.InFlight b ∧ p.key b r' = p.key b r := by
  rcases hprogress.exists_after hr hdemand with
    hr | rfl | ⟨s', r', hr', hkind, haddr, hhop | ⟨rfl, -⟩⟩
  · exact .inr ⟨s, r, hr, hdemand, hs, rfl⟩
  · rcases hs with hs | hs <;> cases hs
  · cases hhop with
    | read =>
      exact .inr ⟨_, r', hr', hkind ▸ hdemand, .inr rfl, Plan.key_congr hkind haddr⟩
    | handUp _ hline => exact .inl hline
    | install hi =>
      rcases hs with hs | hs <;> cases hs
      exact absurd hi (Topology.base_not_mem_tops hb)
    | _ => rcases hs with hs | hs <;> cases hs
  · rcases hs with hs | hs <;> cases hs

end Progress

end CacheHierarchy
