import CacheHierarchy.Proofs.Overview.Preservation

/-!
# Fills of an access

The journal tells which accesses a first-level fill has serviced, and as what. A request is finished
once it has been filled, and a finished request is not filled again, so an access is serviced once
and as one kind.
-/

namespace CacheHierarchy

def Event.fill? : Event → Option (Nat × AccessKind)
  | filled _ r kind _ | bypassed _ r kind _ => some (r.id, kind)
  | _ => none

theorem Event.fill?_of_not_isTracked {event : Event} (h : event.isTracked = false) :
    event.fill? = none := by
  cases event with
  | filled | bypassed => cases h
  | _ => rfl

def FilledAs (journal : List Event) (id : Nat) (kind : AccessKind) : Prop :=
  ∃ event ∈ journal, event.fill? = some (id, kind)

theorem FilledAs.mono {journal journal' : List Event} {id : Nat} {kind : AccessKind}
    (h : FilledAs journal id kind) (hsuffix : journal <:+ journal') :
    FilledAs journal' id kind := by
  obtain ⟨event, hmem, hfill⟩ := h
  exact ⟨event, hsuffix.subset hmem, hfill⟩

theorem filledAs_cons {event : Event} {journal : List Event} {id : Nat} {kind : AccessKind} :
    FilledAs (event :: journal) id kind ↔
      event.fill? = some (id, kind) ∨ FilledAs journal id kind := by
  simp only [FilledAs, List.mem_cons, exists_eq_or_imp]

theorem FilledAs.of_cons {event : Event} {journal : List Event} {id : Nat} {kind : AccessKind}
    (h : FilledAs (event :: journal) id kind) (hevent : event.fill? = none) :
    FilledAs journal id kind := by
  apply (filledAs_cons.1 h).resolve_left
  rw [hevent]
  exact (Option.some_ne_none _).symm

theorem not_filledAs_nil {id : Nat} {kind : AccessKind} : ¬FilledAs [] id kind := by
  rintro ⟨event, hmem, -⟩
  exact List.not_mem_nil hmem

namespace Step

variable {p : Plan} {o o' : Overview} (hstep : Step p o o')

include hstep

/-- The journal only grows. -/
theorem journal_suffix : o.journal <:+ o'.journal := by
  cases hstep with
  | note | arrive | lookUp | absorb | memoryAbsorb | hit | merge | miss | install | bypass | place
  | divert | retire => exact List.suffix_cons _ _
  | _ => exact List.suffix_rfl

theorem nextId_le : o.nextId ≤ o'.nextId := by
  cases hstep with
  | issue | pay => exact Nat.le_succ _
  | _ => exact Nat.le_refl _

theorem exists_origin {s : Spot} {r : Request} (hr : (s, r) ∈ o'.traffic)
    (hdemand : r.kind.isDemand = true) :
    s = p.entry r.kind ∧ r.id = o.nextId ∨ ∃ s₀ r₀, (s₀, r₀) ∈ o.traffic ∧ r₀.kind = r.kind ∧
      r₀.addr = r.addr ∧ r₀.id = r.id ∧ (s₀ = .finished → s = .finished) := by
  cases hstep with
  | note | recalled | drop | repaired | tick | newCycle =>
    exact .inr ⟨s, r, hr, rfl, rfl, rfl, id⟩
  | issue =>
    rcases Multiset.mem_cons.1 hr with heq | hr
    · cases heq
      exact .inl ⟨rfl, rfl⟩
    · exact .inr ⟨s, r, hr, rfl, rfl, rfl, id⟩
  | pay =>
    rcases Multiset.mem_cons.1 hr with heq | hr
    · cases heq
      cases hdemand
    · exact .inr ⟨s, r, hr, rfl, rfl, rfl, id⟩
  | absorb ht | memoryAbsorb ht | retire ht =>
    exact .inr ⟨s, r, ht ▸ Multiset.mem_cons_of_mem hr, rfl, rfl, rfl, id⟩
  | move ht hroute | arrive ht hroute | lookUp ht hroute =>
    rcases Multiset.mem_cons.1 hr with heq | hr
    · cases heq
      exact .inr ⟨_, _, mem_of_eq_cons ht, rfl, rfl, rfl, fun hs => absurd hs hroute.ne_finished⟩
    · exact .inr ⟨s, r, ht ▸ Multiset.mem_cons_of_mem hr, rfl, rfl, rfl, id⟩
  | hit ht | merge ht | install ht | bypass ht =>
    rcases Multiset.mem_cons.1 hr with heq | hr
    · cases heq
      exact .inr ⟨_, _, mem_of_eq_cons ht, rfl, rfl, rfl, fun _ => rfl⟩
    · exact .inr ⟨s, r, ht ▸ Multiset.mem_cons_of_mem hr, rfl, rfl, rfl, id⟩
  | miss ht | place ht =>
    rcases Multiset.mem_cons.1 hr with heq | hr
    · cases heq
      exact .inr ⟨_, _, mem_of_eq_cons ht, rfl, rfl, rfl, fun hs => Spot.noConfusion hs⟩
    · exact .inr ⟨s, r, ht ▸ Multiset.mem_cons_of_mem hr, rfl, rfl, rfl, id⟩
  | divert ht hkind =>
    rcases Multiset.mem_cons.1 hr with heq | hr
    · cases heq
      exact absurd hkind (Request.ne_writeBack hdemand)
    · exact .inr ⟨s, r, ht ▸ Multiset.mem_cons_of_mem hr, rfl, rfl, rfl, id⟩
  | overtake =>
    obtain ⟨r₀, hr₀, heq, -⟩ := mem_overtake hr
    rw [heq]
    exact .inr ⟨s, r₀, hr₀, rfl, rfl, rfl, id⟩

/-- A step fills the request that it takes out of a first-level fill queue, or none. -/
theorem fills : (∀ id kind, FilledAs o'.journal id kind → FilledAs o.journal id kind) ∨
    ∃ i r rest, i ∈ p.topology.tops ∧ o.traffic = (.fills i, r) ::ₘ rest ∧
      o'.traffic = (.finished, r.finish) ::ₘ rest ∧
      ∀ id kind, FilledAs o'.journal id kind →
        id = r.id ∧ kind = o.kindOf r ∨ FilledAs o.journal id kind := by
  cases hstep with
  | note event h =>
    exact .inl fun _ _ hfilled => hfilled.of_cons (Event.fill?_of_not_isTracked h)
  | arrive | lookUp | absorb | memoryAbsorb | hit | merge | miss | place | divert | retire =>
    exact .inl fun _ _ hfilled => hfilled.of_cons rfl
  | install ht hi | bypass ht hi =>
    refine .inr ⟨_, _, _, hi, ht, rfl, fun id kind hfilled => (filledAs_cons.1 hfilled).imp_left ?_⟩
    rintro ⟨⟩
    exact ⟨rfl, rfl⟩
  | _ => exact .inl fun _ _ => id

end Step

/-- An access is filled once. -/
structure FilledOnce (o : Overview) : Prop where
  fresh : ∀ id kind, FilledAs o.journal id kind → id < o.nextId
  finished : ∀ s r, (s, r) ∈ o.traffic → r.kind.isDemand = true →
    ∀ kind, FilledAs o.journal r.id kind → s = .finished
  unique : ∀ id kind kind', FilledAs o.journal id kind → FilledAs o.journal id kind' → kind = kind'

namespace FilledOnce

variable {p : Plan} {o o' : Overview} (h : FilledOnce o) (ho : Orderly p o) (hstep : Step p o o')

include h ho

/-- A request that waits to be filled has not been filled. -/
theorem not_filledAs {i : Nat} {r : Request} (hr : (.fills i, r) ∈ o.traffic)
    (hi : i ∈ p.topology.tops) (kind : AccessKind) : ¬FilledAs o.journal r.id kind := by
  intro hfilled
  have hdemand := ((ho.admits _ hr).fits.fills_top hi).1
  exact Spot.noConfusion (h.finished _ r hr hdemand kind hfilled)

include hstep

/-- What an access has been serviced as is final. -/
theorem filledAs_step {id : Nat} {kind kind' : AccessKind} (hold : FilledAs o.journal id kind)
    (hnew : FilledAs o'.journal id kind') : FilledAs o.journal id kind' := by
  rcases hstep.fills with hfills | ⟨i, r, rest, hi, ht, -, hfills⟩
  · exact hfills id kind' hnew
  · rcases hfills id kind' hnew with ⟨rfl, -⟩ | hfilled
    · exact absurd hold (h.not_filledAs ho (mem_of_eq_cons ht) hi kind)
    · exact hfilled

theorem fresh_step : ∀ id kind, FilledAs o'.journal id kind → id < o'.nextId := by
  intro id kind hnew
  apply Nat.lt_of_lt_of_le _ hstep.nextId_le
  rcases hstep.fills with hfills | ⟨i, r, rest, hi, ht, -, hfills⟩
  · exact h.fresh id kind (hfills id kind hnew)
  · rcases hfills id kind hnew with ⟨rfl, -⟩ | hfilled
    · have hmem := mem_of_eq_cons ht
      exact ho.id_lt hmem ((ho.admits _ hmem).fits.fills_top hi).1
    · exact h.fresh id kind hfilled

theorem finished_step : ∀ s r, (s, r) ∈ o'.traffic → r.kind.isDemand = true →
    ∀ kind, FilledAs o'.journal r.id kind → s = .finished := by
  intro s r hr hdemand kind hnew
  have hbefore : FilledAs o.journal r.id kind → s = .finished := by
    intro hold
    rcases hstep.exists_origin hr hdemand with ⟨-, hid⟩ | ⟨s₀, r₀, hr₀, hkind, -, hid, hs⟩
    · exact absurd hid (Nat.ne_of_lt (h.fresh r.id kind hold))
    · exact hs (h.finished s₀ r₀ hr₀ (hkind ▸ hdemand) kind (hid ▸ hold))
  rcases hstep.fills with hfills | ⟨i, r₀, rest, hi, ht, ht', hfills⟩
  · exact hbefore (hfills _ kind hnew)
  · rcases hfills _ kind hnew with ⟨hid, -⟩ | hold
    · rw [ht'] at hr
      rcases Multiset.mem_cons.1 hr with heq | hr
      · exact congrArg Prod.fst heq
      · have hdemand₀ := ((ho.admits _ (mem_of_eq_cons ht)).fits.fills_top hi).1
        exact absurd hid (ho.id_ne ht hdemand₀ hr hdemand)
    · exact hbefore hold

theorem unique_step : ∀ id kind kind', FilledAs o'.journal id kind →
    FilledAs o'.journal id kind' → kind = kind' := by
  intro id kind kind' hfilled hfilled'
  rcases hstep.fills with hfills | ⟨i, r, rest, hi, ht, -, hfills⟩
  · exact h.unique id kind kind' (hfills id kind hfilled) (hfills id kind' hfilled')
  · rcases hfills id kind hfilled with ⟨hid, hkind⟩ | hold
    · rcases hfills id kind' hfilled' with ⟨-, hkind'⟩ | hold'
      · exact hkind.trans hkind'.symm
      · exact absurd (hid ▸ hold') (h.not_filledAs ho (mem_of_eq_cons ht) hi kind')
    · exact h.unique id kind kind' hold (h.filledAs_step ho hstep hold hfilled')

theorem step : FilledOnce o' where
  fresh := h.fresh_step ho hstep
  finished := h.finished_step ho hstep
  unique := h.unique_step ho hstep

end FilledOnce

theorem Reach.filledOnce {p : Plan} {o : Overview} (h : Reach p o) : FilledOnce o := by
  refine h.invariant FilledOnce ?_ fun _ _ hreach ho hstep => ho.step hreach.orderly hstep
  exact ⟨fun _ _ hfilled => absurd hfilled not_filledAs_nil,
    fun _ _ _ _ _ hfilled => absurd hfilled not_filledAs_nil,
    fun _ _ _ hfilled => absurd hfilled not_filledAs_nil⟩

end CacheHierarchy
