import CacheHierarchy.Proofs.Overview.Preservation

/-!
# Where fills are marked

A request is marked to install nothing while it waits for a first-level cache to fill it in, and
leaves that queue for good. So no request anywhere else is marked, until it is finished.
-/

namespace CacheHierarchy

def Plan.MayMark (p : Plan) (s : Spot) : Prop :=
  s = .finished ∨ ∃ i ∈ p.topology.tops, s = .fills i

def Overview.MarksFills (p : Plan) (o : Overview) : Prop :=
  ∀ x ∈ o.traffic, x.2.bypass = true → p.MayMark x.1

namespace Overview.MarksFills

variable {p : Plan} {o o' : Overview} {s s' : Spot} {r r' : Request}
  {rest : Multiset (Spot × Request)}

theorem moved (h : o.MarksFills p) (ht : o.traffic = (s, r) ::ₘ rest) (hs : ¬p.MayMark s)
    (hr : r'.bypass = r.bypass) : ∀ x ∈ (s', r') ::ₘ rest, x.2.bypass = true → p.MayMark x.1 := by
  refine forall_mem_cons (fun hbypass => ?_) (forall_mem_rest h ht)
  exact absurd (h _ (mem_of_eq_cons ht) (hr ▸ hbypass)) hs

theorem done (h : o.MarksFills p) (ht : o.traffic = (s, r) ::ₘ rest) :
    ∀ x ∈ (.finished, r') ::ₘ rest, x.2.bypass = true → p.MayMark x.1 :=
  forall_mem_cons (fun _ => .inl rfl) (forall_mem_rest h ht)

theorem not_mayMark_base {b : Nat} (hb : p.topology.base? = some b) : ¬p.MayMark (.fills b) := by
  rintro (h | ⟨i, hi, h⟩)
  · cases h
  · cases h
    exact Topology.base_not_mem_tops hb hi

/-- A request that is handed on was not marked. -/
theorem not_mayMark_of_route (hroute : Route p o r s s') : ¬p.MayMark s := by
  have hspot : ∀ {s : Spot}, s ≠ .finished → (∀ i, s ≠ .fills i) → ¬p.MayMark s := by
    rintro s hfinished hfills (rfl | ⟨i, -, rfl⟩)
    · exact hfinished rfl
    · exact hfills i rfl
  cases hroute with
  | answer hb hs =>
    rcases hs with rfl | rfl
    · exact hspot (fun h => Spot.noConfusion h) fun _ h => Spot.noConfusion h
    · exact not_mayMark_base hb
  | _ => exact hspot (fun h => Spot.noConfusion h) fun _ h => Spot.noConfusion h

theorem not_mayMark_of_receiver? {b : Nat} (hb : p.topology.base? = some b)
    (hs : p.receiver? s = some (.cache b)) : ¬p.MayMark s := by
  rintro (rfl | ⟨i, hi, rfl⟩)
  · cases hs
  · cases hs
    exact Topology.base_not_mem_tops hb hi

theorem step (h : o.MarksFills p) (hstep : Step p o o') : o'.MarksFills p := by
  cases hstep with
  | note | recalled | drop | repaired | tick | newCycle => exact h
  | issue | pay => exact forall_mem_cons Bool.noConfusion h
  | move ht hs | arrive ht hs | lookUp ht hs => exact h.moved ht (not_mayMark_of_route hs) rfl
  | miss ht =>
    refine h.moved ht ?_ rfl
    rintro (heq | ⟨i, -, heq⟩) <;> cases heq
  | hit ht | merge ht | install ht | bypass ht => exact h.done ht
  | place ht hb => exact h.moved ht (not_mayMark_base hb) rfl
  | divert ht _ hb hs => exact h.moved ht (not_mayMark_of_receiver? hb hs) rfl
  | absorb ht | memoryAbsorb ht | retire ht => exact forall_mem_rest h ht
  | @overtake b i ρ _ hi =>
    rintro ⟨s, r⟩ hr hbypass
    obtain ⟨⟨s₀, r₀⟩, hmem, heq⟩ := Multiset.mem_map.1 hr
    obtain rfl : s₀ = s := (overtake_fst p i _ (s₀, r₀)).symm.trans (congrArg Prod.fst heq)
    have hmark := (congrArg (fun x => x.2.bypass) heq).trans hbypass
    rw [overtake_snd, Bool.or_eq_true, decide_eq_true_eq] at hmark
    rcases hmark with hmark | ⟨hs, -⟩
    · exact h (s₀, r₀) hmem hmark
    · exact .inr ⟨i, hi, hs⟩

end Overview.MarksFills

theorem Reach.marksFills {p : Plan} {o : Overview} (h : Reach p o) : o.MarksFills p :=
  h.invariant (Overview.MarksFills p) (fun _ hx => absurd hx (Multiset.notMem_zero _))
    fun _ _ _ hmarks hstep => hmarks.step hstep

theorem Reach.not_bypass {p : Plan} {o : Overview} (h : Reach p o) {b : Nat} {r : Request}
    (hb : p.topology.base? = some b) {s : Spot} (hs : s = .lookups b ∨ s = .fills b)
    (hr : (s, r) ∈ o.traffic) : r.bypass = false := by
  by_contra hbypass
  have hmarks := h.marksFills _ hr (Bool.eq_true_of_not_eq_false hbypass)
  rcases hs with rfl | rfl
  · rcases hmarks with heq | ⟨i, -, heq⟩ <;> cases heq
  · exact Overview.MarksFills.not_mayMark_base hb hmarks

end CacheHierarchy
