import CacheHierarchy.Proofs.Overview.Progress

/-!
# Each line is fetched once

Where the base displaces nothing, memory takes in one read at most for each line and each cache that
accesses enter. A first-level cache waits for a line once, so what it sends down for the line meets
no other request of its own on the way; and once memory has answered, the line is in the base for
good. Caches of the first level do not wait for each other, so each of them may fetch the line.

A line that was asked for is in the base, or some request for it is still on its way.
-/

namespace CacheHierarchy

/-- What holds of reads where the base displaces nothing. -/
structure Fetched (p : Plan) (b : Nat) (o : Overview) : Prop where
  nodup : (o.fetches p b).Nodup
  unread : ∀ r, (.sends b, r) ∈ o.traffic → r.kind.isDemand = true → p.key b r ∉ o.fetches p b
  read : ∀ s r, (s, r) ∈ o.traffic → r.kind.isDemand = true → s.InFlight b →
    p.key b r ∈ o.fetches p b
  pending : ∀ k ∈ o.fetches p b, o.lines b k.2 ≠ none ∨
    ∃ s r, (s, r) ∈ o.traffic ∧ r.kind.isDemand = true ∧ s.InFlight b ∧ p.key b r = k
  source : ∀ line, o.lines b line ≠ none → ∃ k ∈ o.fetches p b, k.2 = line
  answered : ∀ r, (.finished, r) ∈ o.traffic → r.kind.isDemand = true → r.isMiss = true →
    o.lines b (p.line b r.addr) ≠ none
  asked : ∀ line, o.Asked p b line → o.lines b line ≠ none ∨
    ∃ s r, (s, r) ∈ o.traffic ∧ r.kind.isDemand = true ∧ s ≠ .finished ∧ p.line b r.addr = line

namespace Fetched

variable {p : Plan} {b : Nat} {o o' : Overview} (h : Fetched p b o) (ho : Orderly p o)
  (hb : p.topology.base? = some b) (hmatch : ∀ i ∈ p.topology.tops, p.Matches i b)
  (hkept : ∀ line, o.lines b line ≠ none → o'.lines b line ≠ none)
  (hprogress : Progress p b o o')

include h ho hb hmatch

/-- Nothing was read for a line that a look-up at the base does not find. -/
theorem not_fetched {r : Request} {rest : Multiset (Spot × Request)}
    (ht : o.traffic = (.lookups b, r) ::ₘ rest) (hline : o.lines b (p.line b r.addr) = none) :
    p.key b r ∉ o.fetches p b := by
  intro hmem
  rcases h.pending _ hmem with hresident | ⟨s, r', hr', hdemand', hs, hkey⟩
  · exact hresident hline
  · have hfits := (ho.admits _ (mem_of_eq_cons ht)).fits
    have hmiss' := ho.isMiss_of_inFlight hb hr' hdemand' hs
    rw [ht] at hr'
    rcases Multiset.mem_cons.1 hr' with heq | hr'
    · cases heq
      rcases hs with hs | hs <;> cases hs
    · exact ho.key_ne hb hmatch ht hfits.1 (hfits.lookups_base hb) hr' hdemand' hmiss' hkey

include hprogress

omit ho hb hmatch in
/-- Memory takes in only what it has not taken in before. -/
theorem nodup_step : (o'.fetches p b).Nodup := by
  cases hprogress with
  | stay _ hsame | enter _ hsame | hop _ _ _ _ _ _ _ hsame | leave _ hsame =>
    rw [hsame]
    exact h.nodup
  | accept ht _ hdemand _ _ hnew =>
    rw [hnew]
    exact List.nodup_cons.2 ⟨h.unread _ (mem_of_eq_cons ht) hdemand, h.nodup⟩

theorem unread_step :
    ∀ r, (.sends b, r) ∈ o'.traffic → r.kind.isDemand = true → p.key b r ∉ o'.fetches p b := by
  intro r hr hdemand
  have hold := fun hr => h.unread r hr hdemand
  cases hprogress with
  | stay hstay hsame =>
    rw [hsame]
    exact hold ((hstay _ _ hdemand).1 hr)
  | enter ht hsame =>
    rw [ht] at hr
    rw [hsame]
    rcases Multiset.mem_cons.1 hr with heq | hr
    · cases heq
    · exact hold hr
  | @hop s s' r₀ r' rest ht ht' hhop _ hkind haddr _ hsame =>
    rw [ht'] at hr
    rw [hsame]
    rcases Multiset.mem_cons.1 hr with heq | hr
    · cases heq
      rw [Plan.key_congr hkind haddr]
      cases hhop with
      | miss hi => exact absurd hi (Topology.base_not_mem_tops hb)
      | missBelow hline => exact h.not_fetched ho hb hmatch ht hline
    · exact hold (ht ▸ Multiset.mem_cons_of_mem hr)
  | @accept r₀ r' rest ht ht' hdemand₀ _ _ hnew =>
    rw [ht'] at hr
    rcases Multiset.mem_cons.1 hr with heq | hr
    · cases heq
    · have hmem : (.sends b, r) ∈ o.traffic := ht ▸ Multiset.mem_cons_of_mem hr
      have hmiss := fun {r : Request} (hr : (.sends b, r) ∈ o.traffic) =>
        (ho.admits _ hr).fits.sends_isMiss
      rw [hnew, List.mem_cons, not_or]
      exact ⟨ho.key_ne hb hmatch ht hdemand₀ (hmiss (mem_of_eq_cons ht) hdemand₀) hr hdemand
        (hmiss hmem hdemand), hold hmem⟩
  | leave ht hsame =>
    rw [hsame]
    exact hold (ht ▸ Multiset.mem_cons_of_mem hr)

omit ho hmatch in
theorem read_step (hstep : Step p o o') : ∀ s r, (s, r) ∈ o'.traffic →
    r.kind.isDemand = true → s.InFlight b → p.key b r ∈ o'.fetches p b := by
  intro s r hr hdemand hs
  rcases hprogress.exists_before hr hdemand with
    hr | ⟨i, rfl⟩ | ⟨s₀, r₀, hr₀, hdemand₀, hkey, ⟨hhop, -⟩ | ⟨-, hmem⟩⟩
  · exact hstep.fetches_subset (h.read s r hr hdemand hs)
  · rcases hs with hs | hs <;> cases hs
  · rw [hkey]
    cases hhop with
    | read => exact hstep.fetches_subset (h.read _ _ hr₀ hdemand₀ (.inl rfl))
    | handUp hi =>
      rcases hs with hs | hs <;> cases hs
      exact absurd hi (Topology.base_not_mem_tops hb)
    | _ => rcases hs with hs | hs <;> cases hs
  · rwa [hkey]

omit ho hmatch in
include hkept in
theorem pending_step : ∀ k ∈ o'.fetches p b, o'.lines b k.2 ≠ none ∨
    ∃ s r, (s, r) ∈ o'.traffic ∧ r.kind.isDemand = true ∧ s.InFlight b ∧ p.key b r = k := by
  intro k hk
  have hold : k ∈ o.fetches p b → o'.lines b k.2 ≠ none ∨
      ∃ s r, (s, r) ∈ o'.traffic ∧ r.kind.isDemand = true ∧ s.InFlight b ∧ p.key b r = k := by
    intro hk
    rcases h.pending k hk with hline | ⟨s, r, hr, hdemand, hs, rfl⟩
    · exact .inl (hkept _ hline)
    · exact hprogress.inFlight hb hr hdemand hs
  cases hprogress with
  | stay _ hsame | enter _ hsame | hop _ _ _ _ _ _ _ hsame | leave _ hsame =>
    exact hold (hsame ▸ hk)
  | accept ht ht' hdemand hkind haddr hnew =>
    rw [hnew] at hk
    rcases List.mem_cons.1 hk with rfl | hk
    · exact .inr ⟨_, _, mem_of_eq_cons ht', hkind ▸ hdemand, .inl rfl,
        Plan.key_congr hkind haddr⟩
    · exact hold hk

omit ho hb hmatch in
include hkept in
theorem answered_step : ∀ r, (.finished, r) ∈ o'.traffic → r.kind.isDemand = true →
    r.isMiss = true → o'.lines b (p.line b r.addr) ≠ none := by
  intro r hr hdemand hmiss
  rcases hprogress.exists_before hr hdemand with
    hr | ⟨i, hs⟩ | ⟨s₀, r₀, hr₀, hdemand₀, hkey, ⟨hhop, hsame⟩ | ⟨hs, -⟩⟩
  · exact hkept _ (h.answered r hr hdemand hmiss)
  · cases hs
  · rw [(Prod.mk.inj hkey).2]
    rw [hsame rfl] at hmiss
    cases hhop with
    | hit hmiss' | merge hmiss' =>
      rw [hmiss'] at hmiss
      cases hmiss
    | install _ hline => exact hkept _ hline
  · cases hs

omit ho hb hmatch in
include hkept in
theorem unanswered_step {s : Spot} {r : Request} (hr : (s, r) ∈ o.traffic)
    (hdemand : r.kind.isDemand = true) (hs : s ≠ .finished) :
    o'.lines b (p.line b r.addr) ≠ none ∨ ∃ s' r', (s', r') ∈ o'.traffic ∧
      r'.kind.isDemand = true ∧ s' ≠ .finished ∧ p.line b r'.addr = p.line b r.addr := by
  rcases hprogress.exists_after hr hdemand with
    hr | rfl | ⟨s', r', hr', hkind, haddr, hhop | ⟨-, rfl⟩⟩
  · exact .inr ⟨s, r, hr, hdemand, hs, rfl⟩
  · exact absurd rfl hs
  · cases hhop with
    | hit _ hline | install _ hline => exact .inl (hkept _ hline)
    | @merge i s into _ hinto hdemand' hmiss' hline =>
      -- the request that it waits for is still under way, or was answered
      rw [← hline]
      by_cases hfinished : s = .finished
      · subst hfinished
        exact .inl (h.answered_step hkept hprogress into hinto hdemand' hmiss')
      · exact .inr ⟨s, into, hinto, hdemand', hfinished, rfl⟩
    | _ => exact .inr ⟨_, r', hr', hkind ▸ hdemand, Spot.noConfusion, by rw [haddr]⟩
  · exact .inr ⟨_, r', hr', hkind ▸ hdemand, Spot.noConfusion, by rw [haddr]⟩

omit hmatch hb in
include hkept in
theorem asked_step (hstep : Step p o o') : ∀ line, o'.Asked p b line → o'.lines b line ≠ none ∨
    ∃ s r, (s, r) ∈ o'.traffic ∧ r.kind.isDemand = true ∧ s ≠ .finished ∧
      p.line b r.addr = line := by
  intro line hasked
  rcases hstep.of_asked ho hasked with hold | hnew
  · rcases h.asked line hold with hline | ⟨s, r, hr, hdemand, hs, rfl⟩
    · exact .inl (hkept line hline)
    · exact h.unanswered_step hkept hprogress hr hdemand hs
  · exact .inr hnew

omit ho hmatch hprogress in
theorem source_step (hstep : Step p o o') :
    ∀ line, o'.lines b line ≠ none → ∃ k ∈ o'.fetches p b, k.2 = line := by
  intro line hline
  have hold : o.lines b line ≠ none → ∃ k ∈ o'.fetches p b, k.2 = line := by
    intro hline
    obtain ⟨k, hk, rfl⟩ := h.source line hline
    exact ⟨k, hstep.fetches_subset hk, rfl⟩
  rcases Inclusive.lines_base hb hstep with hiff | ⟨-, r, victim, hplaced, -, -, hr, hdemand, -⟩
  · exact hold ((hiff line).1 hline)
  · by_cases hl : line = p.line b r.addr
    · exact ⟨p.key b r, hstep.fetches_subset (h.read _ r hr hdemand (.inr rfl)), hl.symm⟩
    · rcases hplaced.of_ne hl with ⟨hsame, -⟩ | ⟨d, -, -, hgone⟩
      · exact hold (hsame ▸ hline)
      · exact absurd hgone hline

theorem step (hkept : ∀ line, o.lines b line ≠ none → o'.lines b line ≠ none)
    (hstep : Step p o o') : Fetched p b o' where
  nodup := h.nodup_step hprogress
  unread := h.unread_step ho hb hmatch hprogress
  read := h.read_step hb hprogress hstep
  pending := h.pending_step hb hkept hprogress
  source := h.source_step hb hstep
  answered := h.answered_step hkept hprogress
  asked := h.asked_step ho hkept hprogress hstep

end Fetched

theorem Fetched.start (p : Plan) (b : Nat) : Fetched p b .start where
  nodup := List.nodup_nil
  unread := fun _ hr => absurd hr (Multiset.notMem_zero _)
  read := fun _ _ hr => absurd hr (Multiset.notMem_zero _)
  pending := fun _ hk => absurd hk List.not_mem_nil
  source := fun _ hline => absurd rfl hline
  answered := fun _ hr => absurd hr (Multiset.notMem_zero _)
  asked := by
    rintro line (⟨s, r, hr, -⟩ | ⟨d, hd, -⟩)
    · exact absurd hr (Multiset.notMem_zero _)
    · exact absurd hd List.not_mem_nil

/-- Once nothing is under way, the lines that were fetched are those that were asked for. -/
theorem Fetched.mem_iff_asked {p : Plan} {b : Nat} {o : Overview} (h : Fetched p b o)
    (hreach : Reach p o) (hb : p.topology.base? = some b) (hnone : demandIds o.traffic = 0)
    {line : Nat} : line ∈ (o.fetches p b).map Prod.snd ↔ o.Asked p b line := by
  rw [List.mem_map]
  constructor
  · rintro ⟨k, hk, rfl⟩
    rcases h.pending k hk with hline | ⟨s, r, hr, hdemand, -, rfl⟩
    · exact hreach.asked_of_resident hb hline
    · exact .of_mem hr hdemand
  · intro hasked
    rcases h.asked line hasked with hline | ⟨s, r, hr, hdemand, -⟩
    · exact h.source line hline
    · have hid : r.id ∈ demandIds o.traffic := mem_demandIds.2 ⟨s, r, hr, hdemand, rfl⟩
      rw [hnone] at hid
      exact absurd hid (Multiset.notMem_zero _)

/-- Where there is room for all lines that were asked for, each of them is fetched once by each
first-level cache at most. -/
theorem Reach.fetched {p : Plan} {b : Nat} {o : Overview} (h : Reach p o)
    (hb : p.topology.base? = some b) (hmatch : ∀ i ∈ p.topology.tops, p.Matches i b)
    {lines : Finset Nat} (hroom : (p.geometry b).HasRoom lines)
    (hasked : ∀ line, o.Asked p b line → line ∈ lines) : Fetched p b o := by
  refine h.invariant
    (fun o => (∀ line, o.Asked p b line → line ∈ lines) → Fetched p b o)
    (fun _ => .start p b) (fun o o' hreach hf hstep hasked' => ?_) hasked
  have hasked : ∀ line, o.Asked p b line → line ∈ lines :=
    fun line hline => hasked' line (hstep.asked hline)
  have hprogress := hstep.progress hreach.orderly (hreach.inclusive hb)
    (hreach.undisplaced hb hroom hasked) hb hmatch
  exact (hf hasked).step hreach.orderly hb hmatch hprogress
    (fun _ => hreach.resident_step hb hstep hroom hasked) hstep

end CacheHierarchy
