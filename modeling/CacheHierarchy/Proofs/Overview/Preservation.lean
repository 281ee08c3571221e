import CacheHierarchy.Proofs.Overview.Orderly

/-!
# Order is kept

Each clause of `Orderly` is kept by every step. Most steps take one request from its spot and put
it at another, so a clause about all requests is checked for the one that moved.
-/

namespace CacheHierarchy

theorem forall_mem_cons {α : Type} {P : α → Prop} {a : α} {t : Multiset α} (ha : P a)
    (ht : ∀ x ∈ t, P x) : ∀ x ∈ a ::ₘ t, P x := by
  intro x hx
  rcases Multiset.mem_cons.1 hx with rfl | hx
  · exact ha
  · exact ht x hx

theorem forall_mem_rest {α : Type} {P : α → Prop} {a : α} {t u : Multiset α}
    (h : ∀ x ∈ u, P x) (hu : u = a ::ₘ t) : ∀ x ∈ t, P x := by
  intro x hx
  exact h x (hu ▸ Multiset.mem_cons_of_mem hx)

theorem mem_of_eq_cons {α : Type} {a : α} {t u : Multiset α} (hu : u = a ::ₘ t) : a ∈ u :=
  hu ▸ Multiset.mem_cons_self a t

/-- One line of one cache is set. -/
theorem update_line_apply (lines : Nat → Nat → Option Bool) (i line : Nat) (value : Option Bool)
    (j other : Nat) : Function.update lines i (Function.update (lines i) line value) j other =
      if j = i ∧ other = line then value else lines j other := by
  by_cases hj : j = i
  · subst hj
    rw [Function.update_self, Function.update_apply]
    simp only [true_and]
  · rw [Function.update_of_ne hj, if_neg fun heq => hj heq.1]

/-- A line that is resident after another one was installed was resident before. -/
theorem Displaces.of_update {lines : Nat → Nat → Option Bool} {i line : Nat}
    {after : Nat → Option Bool} {new : Bool} {victim : Option (Nat × Bool)}
    (h : Displaces (lines i) after line new victim) {j other : Nat} {dirty : Bool}
    (hother : Function.update lines i after j other = some dirty)
    (hne : ¬(j = i ∧ other = line)) : lines j other = some dirty := by
  by_cases hj : j = i
  · subst hj
    rw [Function.update_self] at hother
    rcases h.of_ne fun heq => hne ⟨rfl, heq⟩ with ⟨hsame, -⟩ | ⟨-, -, -, hnone⟩
    · exact hsame.symm.trans hother
    · rw [hnone] at hother
      cases hother
  · rwa [Function.update_of_ne hj] at hother

/-- What does not depend on whether a fill is overtaken is kept by overtaking. -/
theorem forall_mem_overtake {P : Spot × Request → Prop} {p : Plan} {i addr : Nat}
    {t : Multiset (Spot × Request)} (h : ∀ x ∈ t, P x)
    (hP : ∀ s r bypass, P (s, r) → P (s, { r with bypass })) :
    ∀ x ∈ t.map (p.overtake i addr), P x := by
  rintro ⟨s, r⟩ hx
  obtain ⟨r₀, hmem, hr, -⟩ := mem_overtake hx
  rw [hr]
  exact hP s r₀ r.bypass (h _ hmem)

namespace Orderly

variable {p : Plan} {o o' : Overview} (h : Orderly p o) (hstep : Step p o o')

include h hstep

theorem admits_step : ∀ x ∈ o'.traffic, p.Admits x := by
  have hadmits := h.admits
  cases hstep with
  | note | recalled | drop | repaired | tick | newCycle => exact hadmits
  | @issue addr kind readyAt haddr hkind =>
    exact forall_mem_cons ⟨.entry hkind rfl, haddr, fun hb => absurd hb Bool.false_ne_true⟩ hadmits
  | move ht hs | arrive ht hs | lookUp ht hs =>
    obtain ⟨hfits, haddr, hbypass⟩ := hadmits _ (mem_of_eq_cons ht)
    exact forall_mem_cons ⟨(hfits.route hs).congr rfl rfl, haddr, hbypass⟩
      (forall_mem_rest hadmits ht)
  | @pay d site hd hsite now readyAt =>
    obtain ⟨hlast, haddr, hdirties⟩ := h.debt d hd
    refine forall_mem_cons ⟨?_, haddr, fun hb => absurd hb Bool.false_ne_true⟩ hadmits
    cases hvia : d.via with
    | none =>
      rw [Debt.spot, hvia]
      exact .inr ⟨rfl, hlast⟩
    | some i =>
      rw [Debt.spot, hvia]
      exact ⟨rfl, hdirties i hvia⟩
  | absorb ht | memoryAbsorb ht | retire ht => exact forall_mem_rest hadmits ht
  | hit ht hi hline | merge ht hi he hmark =>
    obtain ⟨hfits, haddr, hbypass⟩ := hadmits _ (mem_of_eq_cons ht)
    exact forall_mem_cons ⟨(hfits.lookups_top hi).1, haddr, hbypass⟩ (forall_mem_rest hadmits ht)
  | miss ht hi hline hmark =>
    obtain ⟨hfits, haddr, hbypass⟩ := hadmits _ (mem_of_eq_cons ht)
    obtain ⟨hdemand, hentry, -⟩ := hfits.lookups_top hi
    exact forall_mem_cons ⟨.inl ⟨hdemand, rfl, .inl hentry⟩, haddr, hbypass⟩
      (forall_mem_rest hadmits ht)
  | install ht hi | bypass ht hi =>
    obtain ⟨hfits, haddr, hbypass⟩ := hadmits _ (mem_of_eq_cons ht)
    exact forall_mem_cons ⟨(hfits.fills_top hi).1, haddr, hbypass⟩ (forall_mem_rest hadmits ht)
  | place ht hb hr hi =>
    obtain ⟨hfits, haddr, hbypass⟩ := hadmits _ (mem_of_eq_cons ht)
    exact forall_mem_cons ⟨.inl ⟨hr, hfits.fills_isMiss hr, .inl hi⟩, haddr, hbypass⟩
      (forall_mem_rest hadmits ht)
  | divert ht hr hb hs hrepair hline readyAt cycle =>
    obtain ⟨-, haddr, hbypass⟩ := hadmits _ (mem_of_eq_cons ht)
    exact forall_mem_cons ⟨.inr ⟨hr, Topology.last?_ne_none_of_base? hb⟩, haddr, hbypass⟩
      (forall_mem_rest hadmits ht)
  | overtake hb hi hrepair hline =>
    have hbase : p.topology.base? ≠ none := by
      rw [hb]
      exact Option.some_ne_none _
    exact forall_mem_overtake hadmits fun _ _ _ ⟨hfits, haddr, _⟩ =>
      ⟨hfits.congr rfl rfl, haddr, fun _ => hbase⟩

theorem debt_step : ∀ d, o'.debt = some d → p.topology.last? ≠ none ∧ d.addr < wordLimit ∧
    ∀ i, d.via = some i → p.Dirties i := by
  have hdebt := h.debt
  cases hstep with
  | note | issue | move | arrive | lookUp | absorb | memoryAbsorb | hit | merge | miss | divert
  | recalled | overtake | repaired | retire | tick | newCycle => exact hdebt
  | pay => exact fun d hd => absurd hd (Option.some_ne_none d).symm
  | @install i r rest after victim ht hi hbypass _ hrepair hline haddr cycle =>
    intro d hd
    obtain ⟨⟨v, dirty⟩, hv, rfl⟩ := Option.map_eq_some_iff.1 hd
    obtain ⟨hvictim, hdirty⟩ := Option.filter_eq_some_iff.1 hv
    refine ⟨Topology.last?_ne_none_of_mem_tops hi, haddr v dirty hvictim, ?_⟩
    rintro _ ⟨⟩
    refine ⟨Topology.lt_size_iff.2 (.inl hi), fun hside => ?_⟩
    have hbefore := (hline.victim_eq hvictim).1
    dsimp only at hdirty
    rw [hdirty] at hbefore
    exact h.clean i hside v hbefore
  | @bypass i r rest ht hi hbypass _ cycle =>
    intro d hd
    dsimp only at hd
    split at hd
    · cases hd
      obtain ⟨-, haddr, -⟩ := h.admits _ (mem_of_eq_cons ht)
      refine ⟨Topology.last?_ne_none_of_mem_tops hi, ?_, fun _ hvia => ?_⟩
      · exact Nat.lt_of_le_of_lt (p.base_line_le i r.addr) haddr
      · cases hvia
    · cases hd
  | @place b i r rest after victim ht hb hr hi _ hrepair hline haddr readyAt =>
    intro d hd
    obtain ⟨⟨v, dirty⟩, hv, rfl⟩ := Option.map_eq_some_iff.1 hd
    obtain ⟨hvictim, -⟩ := Option.filter_eq_some_iff.1 hv
    refine ⟨Topology.last?_ne_none_of_base? hb, haddr v dirty hvictim, ?_⟩
    rintro _ ⟨⟩
    exact Plan.dirties_base hb
  | @drop b i ρ dirty hb hi _ hrepair hline =>
    intro d hd
    dsimp only at hd
    split at hd
    · cases hd
      refine ⟨Topology.last?_ne_none_of_base? hb, h.repair ρ hrepair b hb, fun _ hvia => ?_⟩
      cases hvia
    · cases hd

theorem repair_step : ∀ ρ, o'.repair = some ρ → ∀ b, p.topology.base? = some b →
    p.base b ρ.line < wordLimit := by
  have hrepair := h.repair
  cases hstep with
  | note | issue | move | arrive | lookUp | pay | absorb | memoryAbsorb | hit | merge | miss
  | install | bypass | divert | retire | tick | newCycle => exact hrepair
  | @place b i r rest after victim ht hb hr hi _ _ hline haddr readyAt =>
    intro ρ hρ b' hb'
    obtain ⟨⟨v, dirty⟩, hvictim, rfl⟩ := Option.map_eq_some_iff.1 hρ
    obtain rfl := Option.some.inj (hb.symm.trans hb')
    exact haddr v dirty hvictim
  | @recalled b ρ hb hρ hnone =>
    rintro _ ⟨⟩
    exact hrepair ρ hρ
  | @drop b i ρ dirty hb hi hdebt hρ hline =>
    rintro _ ⟨⟩
    exact hrepair ρ hρ
  | @overtake b i ρ hb hi hρ hline =>
    rintro _ ⟨⟩
    exact hrepair ρ hρ
  | repaired => exact fun ρ hρ => absurd hρ (Option.some_ne_none ρ).symm

theorem now_le_step : o'.now ≤ o'.memoryCycle := by
  have hnow := h.now_le
  cases hstep with
  | tick => exact Nat.le_succ_of_le hnow
  | newCycle hlt hnone => exact hlt
  | _ => exact hnow

omit hstep in
theorem clean_update {i line : Nat} {value : Option Bool}
    (hvalue : p.topology.side i = some .instruction → value ≠ some true) :
    ∀ j, p.topology.side j = some .instruction →
      ∀ other, Function.update o.lines i (Function.update (o.lines i) line value) j other ≠
        some true := by
  intro j hside other
  rw [update_line_apply]
  split
  · rename_i heq
    exact hvalue (heq.1 ▸ hside)
  · exact h.clean j hside other

omit hstep in
theorem clean_displace {i line : Nat} {after : Nat → Option Bool} {dirty : Bool}
    {victim : Option (Nat × Bool)} (hline : Displaces (o.lines i) after line dirty victim)
    (hdirty : p.topology.side i = some .instruction → dirty = false) :
    ∀ j, p.topology.side j = some .instruction →
      ∀ other, Function.update o.lines i after j other ≠ some true := by
  intro j hside other
  by_cases hj : j = i
  · subst hj
    rw [Function.update_self]
    by_cases hl : other = line
    · rw [hl, hline.installed, hdirty hside]
      exact fun heq => Bool.false_ne_true (Option.some.inj heq)
    · rcases hline.of_ne hl with ⟨heq, -⟩ | ⟨d, -, -, heq⟩
      · rw [heq]
        exact h.clean j hside other
      · rw [heq]
        exact (Option.some_ne_none true).symm
  · rw [Function.update_of_ne hj]
    exact h.clean j hside other

theorem clean_step : ∀ i, p.topology.side i = some .instruction →
    ∀ line, o'.lines i line ≠ some true := by
  have hclean := h.clean
  cases hstep with
  | note | issue | move | arrive | lookUp | pay | memoryAbsorb | merge | miss | bypass | divert
  | recalled | overtake | repaired | retire | tick | newCycle => exact hclean
  | absorb ht hr hb => exact h.clean_update fun hside => absurd hside (Topology.side_base hb)
  | @hit i r rest dirty ht hi hline =>
    refine h.clean_update fun hside => ?_
    have hmem := mem_of_eq_cons ht
    obtain ⟨hdemand, hentry, -⟩ := (h.admits _ hmem).fits.lookups_top hi
    rw [(h.not_isWrite_of_side hmem hdemand hentry hside).1, Bool.or_false, ← hline]
    exact hclean i hside _
  | install ht hi hbypass hdebt hrepair hline =>
    refine h.clean_displace hline fun hside => ?_
    have hmem := mem_of_eq_cons ht
    obtain ⟨hdemand, hentry, -⟩ := (h.admits _ hmem).fits.fills_top hi
    exact (h.not_isWrite_of_side hmem hdemand hentry hside).2
  | place ht hb hr hi hdebt hrepair hline =>
    exact h.clean_displace hline fun hside => absurd hside (Topology.side_base hb)
  | drop => exact h.clean_update fun _ => (Option.some_ne_none true).symm

theorem ids_step : demandIds o'.traffic = o'.outstanding.ids := by
  have hids := h.ids
  cases hstep with
  | note | recalled | drop | repaired | tick | newCycle => exact hids
  | issue readyAt haddr hkind =>
    refine (demandIds_cons hkind).trans ?_
    rw [hids, Outstanding.ids, Outstanding.ids, List.map_append]
    exact Multiset.coe_eq_coe.2 (List.perm_append_singleton _ _).symm
  | pay =>
    exact (demandIds_cons_of_not (Request.not_isDemand rfl)).trans hids
  | absorb ht hr hb hline cycle | memoryAbsorb ht hr =>
    rw [ht, demandIds_cons_of_not (Request.not_isDemand hr)] at hids
    exact hids
  | move ht | arrive ht | lookUp ht | hit ht | install ht | bypass ht | place ht | divert ht =>
    rw [ht] at hids
    refine Eq.trans ?_ hids
    exact demandIds_move rfl rfl
  | @merge i r rest e ht hi he hmark cycle =>
    rw [ht] at hids
    refine Eq.trans ?_ (hids.trans (congrArg _ (Outstanding.ids_join ..).symm))
    exact demandIds_move rfl rfl
  | miss ht hi hline hmark =>
    rw [ht] at hids
    refine Eq.trans ?_ (hids.trans (congrArg _ (Outstanding.ids_await ..).symm))
    exact demandIds_move rfl rfl
  | overtake hb hi hrepair hline => exact (demandIds_overtake _).trans hids
  | retire ht he =>
    have hdemand := (h.admits _ (mem_of_eq_cons ht)).fits
    rw [ht, demandIds_cons hdemand] at hids
    obtain ⟨-, -, hperm, -⟩ := Outstanding.remove?_eq_some h.nodup he
    rw [Multiset.coe_eq_coe.2 hperm, ← Multiset.cons_coe] at hids
    exact (Multiset.cons_inj_right _).1 hids

theorem nodup_step : o'.outstanding.ids.Nodup := by
  have hnodup := h.nodup
  cases hstep with
  | issue readyAt haddr hkind =>
    have hnew : o.nextId ∉ o.outstanding.ids := fun hmem => Nat.lt_irrefl _ (h.fresh _ hmem)
    rw [Outstanding.ids, List.map_append]
    exact List.nodup_append_comm.1 (List.nodup_cons.2 ⟨hnew, hnodup⟩)
  | merge ht hi he hmark =>
    rw [Outstanding.ids_join]
    exact hnodup
  | miss ht hi hline hmark =>
    rw [Outstanding.ids_await]
    exact hnodup
  | retire ht he =>
    obtain ⟨-, -, hperm, -⟩ := Outstanding.remove?_eq_some hnodup he
    exact (List.nodup_cons.1 (hperm.nodup_iff.1 hnodup)).2
  | _ => exact hnodup

theorem fresh_step : ∀ id ∈ o'.outstanding.ids, id < o'.nextId := by
  have hfresh := h.fresh
  cases hstep with
  | issue readyAt haddr hkind =>
    intro id hid
    rw [Outstanding.ids, List.map_append, List.mem_append] at hid
    rcases hid with hid | hid
    · exact Nat.lt_succ_of_lt (hfresh id hid)
    · rw [List.map_singleton, List.mem_singleton] at hid
      rw [hid]
      exact Nat.lt_succ_self _
  | pay => exact fun id hid => Nat.lt_succ_of_lt (hfresh id hid)
  | merge ht hi he hmark =>
    rw [Outstanding.ids_join]
    exact hfresh
  | miss ht hi hline hmark =>
    rw [Outstanding.ids_await]
    exact hfresh
  | retire ht he =>
    intro id hid
    obtain ⟨-, -, hperm, -⟩ := Outstanding.remove?_eq_some h.nodup he
    exact hfresh id (hperm.mem_iff.2 (List.mem_cons_of_mem _ hid))
  | _ => exact hfresh

omit h hstep in
theorem settle_eq (hexpected : ∀ site, o.expected site = p.writeBackIds site o.traffic)
    {s : Spot} {r : Request} {rest : Multiset (Spot × Request)} {at' : Site}
    (ht : o.traffic = (s, r) ::ₘ rest) (hr : r.kind = .writeBack) (hs : p.receiver? s = some at')
    (site : Site) : o.settle at' r.id site = p.writeBackIds site rest := by
  rw [Overview.settle]
  by_cases hsite : site = at'
  · subst hsite
    rw [Function.update_self, hexpected, ht, writeBackIds_cons hr hs, Multiset.erase_cons_head]
  · rw [Function.update_of_ne hsite, hexpected, ht, writeBackIds_cons_of_ne]
    rw [hs]
    exact fun heq => hsite (Option.some.inj heq).symm

omit hstep in
theorem expected_move {s s' : Spot} {r r' : Request} {rest : Multiset (Spot × Request)}
    (ht : o.traffic = (s, r) ::ₘ rest) (hid : r'.id = r.id) (hkind : r'.kind = r.kind)
    (hs : r.kind = .writeBack → p.receiver? s' = p.receiver? s) (site : Site) :
    o.expected site = p.writeBackIds site ((s', r') ::ₘ rest) := by
  rw [h.expected, ht]
  exact (writeBackIds_move hid hkind hs).symm

omit hstep in
theorem expected_pay {d : Debt} {site : Site} (hsite : p.receiver? d.spot = some site)
    {r : Request} (hr : r.kind = .writeBack) (site' : Site) :
    o.announce site r.id site' = p.writeBackIds site' ((d.spot, r) ::ₘ o.traffic) := by
  dsimp only [Overview.announce]
  by_cases hs : site' = site
  · subst hs
    rw [Function.update_self, h.expected]
    symm
    exact writeBackIds_cons hr hsite
  · rw [Function.update_of_ne hs, h.expected]
    refine (writeBackIds_cons_of_ne ?_).symm
    rw [hsite]
    exact fun heq => hs (Option.some.inj heq).symm

omit hstep in
theorem expected_divert {b : Nat} {s : Spot} {r r' : Request} {rest : Multiset (Spot × Request)}
    (ht : o.traffic = (s, r) ::ₘ rest) (hr : r.kind = .writeBack)
    (hs : p.receiver? s = some (.cache b)) (hid : r'.id = r.id) (hkind : r'.kind = r.kind)
    (site : Site) :
    Function.update (o.settle (.cache b) r.id) .memory (r.id ::ₘ o.expected .memory) site =
      p.writeBackIds site ((.memory, r') ::ₘ rest) := by
  have hmemory : p.receiver? .memory = some .memory := rfl
  have hne : p.receiver? s ≠ some .memory := by
    rw [hs]
    exact fun heq => Site.noConfusion (Option.some.inj heq)
  cases site with
  | memory =>
    rw [Function.update_self, h.expected, ht, writeBackIds_cons_of_ne hne, ← hid]
    symm
    exact writeBackIds_cons (hkind.trans hr) hmemory
  | cache j =>
    rw [Function.update_of_ne (fun heq => Site.noConfusion heq), settle_eq h.expected ht hr hs]
    refine (writeBackIds_cons_of_ne ?_).symm
    rw [hmemory]
    exact fun heq => Site.noConfusion (Option.some.inj heq)

theorem expected_step : ∀ site, o'.expected site = p.writeBackIds site o'.traffic := by
  have hexpected := h.expected
  intro site
  cases hstep with
  | note | recalled | drop | repaired | tick | newCycle => exact hexpected site
  | issue readyAt haddr hkind =>
    exact (hexpected site).trans (writeBackIds_cons_demand hkind).symm
  | move ht hs | arrive ht hs | lookUp ht hs =>
    have hroute := (h.admits _ (mem_of_eq_cons ht)).fits.receiver?_route hs
    refine h.expected_move ht ?_ ?_ hroute site <;> rfl
  | @pay d site' hd hsite now readyAt =>
    exact h.expected_pay hsite (r := { Request.ofWriteBack o.nextId d.addr now with readyAt }) rfl
      site
  | absorb ht hr | memoryAbsorb ht hr => exact settle_eq hexpected ht hr rfl site
  | hit ht hi | merge ht hi | miss ht hi =>
    have hdemand := ((h.admits _ (mem_of_eq_cons ht)).fits.lookups_top hi).1
    refine h.expected_move ht ?_ ?_ (fun hr => absurd hr (Request.ne_writeBack hdemand)) site <;> rfl
  | install ht hi | bypass ht hi =>
    have hdemand := ((h.admits _ (mem_of_eq_cons ht)).fits.fills_top hi).1
    refine h.expected_move ht ?_ ?_ (fun hr => absurd hr (Request.ne_writeBack hdemand)) site <;> rfl
  | place ht hb hdemand hi =>
    refine h.expected_move ht ?_ ?_ (fun hr => absurd hr (Request.ne_writeBack hdemand)) site <;> rfl
  | divert ht hr hb hs => refine h.expected_divert ht hr hs ?_ ?_ site <;> rfl
  | overtake hb hi hrepair hline => exact (hexpected site).trans (writeBackIds_overtake _ _).symm
  | retire ht he =>
    have hdemand := (h.admits _ (mem_of_eq_cons ht)).fits
    refine (hexpected site).trans ?_
    rw [ht, writeBackIds_cons_demand hdemand]

omit hstep in
theorem describes_issue {s : Spot} {r : Request} {access : OutstandingAccess}
    (hr : r.id = o.nextId) (hid : access.id = o.nextId) (hnew : p.Describes access r) :
    ∀ x ∈ (s, r) ::ₘ o.traffic, x.2.kind.isDemand = true →
      ∀ e ∈ o.outstanding.entries ++ [access], e.id = x.2.id → p.Describes e x.2 := by
  have hlt : ∀ e ∈ o.outstanding.entries, e.id ≠ o.nextId := fun e he =>
    Nat.ne_of_lt (h.fresh _ (Outstanding.mem_ids.2 ⟨e, he, rfl⟩))
  intro x hx hdemand e he heq
  rcases List.mem_append.1 he with he | he
  · rcases Multiset.mem_cons.1 hx with rfl | hx
    · exact absurd (heq.trans hr) (hlt e he)
    · exact h.describes x hx hdemand e he heq
  · obtain rfl := List.mem_singleton.1 he
    rcases Multiset.mem_cons.1 hx with rfl | hx
    · exact hnew
    · obtain ⟨e₀, he₀, hid₀, -⟩ := h.exists_entry hx hdemand
      exact absurd (hid₀.trans (heq.symm.trans hid)) (hlt e₀ he₀)

omit hstep in
theorem describes_join {i : Nat} {r : Request} {rest : Multiset (Spot × Request)}
    {e₀ : OutstandingAccess} (ht : o.traffic = (.lookups i, r) ::ₘ rest) (hi : i ∈ p.topology.tops)
    (he₀ : e₀ ∈ o.outstanding.entries) (hmark : e₀.mark = some ⟨i, p.line i r.addr⟩) :
    ∀ x ∈ o.traffic, x.2.kind.isDemand = true →
      ∀ e ∈ (o.outstanding.join e₀.id r.kind).entries, e.id = x.2.id → p.Describes e x.2 := by
  obtain ⟨-, hentry, -⟩ := (h.admits _ (mem_of_eq_cons ht)).fits.lookups_top hi
  intro x hx hdemand e he hid
  obtain ⟨e₁, he₁, hid₁, hmark₁, hkind⟩ := Outstanding.exists_of_mem_join he
  have hd := h.describes x hx hdemand e₁ he₁ (hid₁.symm.trans hid)
  rcases hkind with hkind | ⟨hwrite, hinto, hkind⟩
  · exact ⟨hkind ▸ hd.isDemand, hkind ▸ hd.entry, hkind ▸ hd.write, hmark₁.trans hd.mark⟩
  · obtain rfl := Outstanding.eq_of_id h.nodup he₁ he₀ hinto
    refine ⟨hkind ▸ rfl, ?_, fun _ => hkind, hmark₁.trans hd.mark⟩
    rw [hkind, hd.entry_of_mark hmark, ← hwrite, hentry]

omit hstep in
/-- The entry of a request that misses is marked with its line, and no other is. -/
theorem describes_await {i : Nat} {r : Request} {rest : Multiset (Spot × Request)}
    (ht : o.traffic = (.lookups i, r) ::ₘ rest) (hi : i ∈ p.topology.tops) :
    ∀ x ∈ (Spot.sends i, { r with isMiss := true }) ::ₘ rest, x.2.kind.isDemand = true →
      ∀ e ∈ (o.outstanding.await r.id ⟨i, p.line i r.addr⟩).entries, e.id = x.2.id →
        p.Describes e x.2 := by
  obtain ⟨hrdemand, hentry, -⟩ := (h.admits _ (mem_of_eq_cons ht)).fits.lookups_top hi
  refine forall_mem_cons ?_ ?_
  · intro hdemand e he hid
    obtain ⟨e₀, he₀, hid₀, hkind, hmark₀⟩ := Outstanding.exists_of_mem_await he
    have hd := h.describes _ (mem_of_eq_cons ht) hrdemand e₀ he₀ (hid₀.symm.trans hid)
    refine ⟨hkind ▸ hd.isDemand, hkind ▸ hd.entry, hkind ▸ hd.write, ?_⟩
    rcases hmark₀ with ⟨-, hmark₀⟩ | ⟨hne, -⟩
    · simp only [hmark₀, ↓reduceIte, hentry, Option.map_some]
    · exact absurd (hid₀.symm.trans hid) hne
  · intro x hx hdemand e he hid
    have hne := h.id_ne ht hrdemand hx hdemand
    obtain ⟨e₀, he₀, hid₀, hkind, hmark₀⟩ := Outstanding.exists_of_mem_await he
    have hd := forall_mem_rest h.describes ht x hx hdemand e₀ he₀ (hid₀.symm.trans hid)
    refine ⟨hkind ▸ hd.isDemand, hkind ▸ hd.entry, hkind ▸ hd.write, ?_⟩
    rcases hmark₀ with ⟨heq, -⟩ | ⟨-, hmark₀⟩
    · exact absurd (hid.symm.trans (hid₀.trans heq)) hne
    · exact hmark₀.trans hd.mark

theorem describes_step : ∀ x ∈ o'.traffic, x.2.kind.isDemand = true →
    ∀ e ∈ o'.outstanding.entries, e.id = x.2.id → p.Describes e x.2 := by
  have hdescribes := h.describes
  cases hstep with
  | note | recalled | drop | repaired | tick | newCycle => exact hdescribes
  | issue readyAt haddr hkind => exact h.describes_issue rfl rfl ⟨hkind, rfl, id, rfl⟩
  | move ht | arrive ht | lookUp ht | hit ht | install ht | bypass ht | place ht | divert ht =>
    refine forall_mem_cons ?_ (forall_mem_rest hdescribes ht)
    intro hdemand e he hid
    exact (hdescribes _ (mem_of_eq_cons ht) hdemand e he hid).congr rfl rfl rfl
  | pay =>
    refine forall_mem_cons ?_ hdescribes
    exact fun hdemand => absurd hdemand (Request.not_isDemand rfl)
  | absorb ht | memoryAbsorb ht => exact forall_mem_rest hdescribes ht
  | merge ht hi he hmark =>
    have hjoin := h.describes_join ht hi he hmark
    refine forall_mem_cons ?_ (forall_mem_rest hjoin ht)
    intro hdemand e' he' hid
    exact (hjoin _ (mem_of_eq_cons ht) hdemand e' he' hid).congr rfl rfl rfl
  | miss ht hi => exact h.describes_await ht hi
  | overtake hb hi hrepair hline =>
    exact forall_mem_overtake hdescribes fun _ _ _ hr hdemand e he hid =>
      (hr hdemand e he hid).congr rfl rfl rfl
  | retire ht he =>
    obtain ⟨-, -, -, hmem⟩ := Outstanding.remove?_eq_some h.nodup he
    intro x hx hdemand e he hid
    exact forall_mem_rest hdescribes ht x hx hdemand e ((hmem e).1 he).1 hid

theorem marks_step : ∀ e ∈ o'.outstanding.entries, ∀ e' ∈ o'.outstanding.entries, ∀ k,
    e.mark = some k → e'.mark = some k → e.id = e'.id := by
  have hmarks := h.marks
  cases hstep with
  | issue readyAt haddr hkind =>
    intro e he e' he' k hk hk'
    rcases List.mem_append.1 he with he | he
    · rcases List.mem_append.1 he' with he' | he'
      · exact hmarks e he e' he' k hk hk'
      · rw [List.mem_singleton.1 he'] at hk'
        cases hk'
    · rw [List.mem_singleton.1 he] at hk
      cases hk
  | merge ht hi he hmark =>
    intro e he e' he' k hk hk'
    obtain ⟨e₀, he₀, hid, hmark₀, -⟩ := Outstanding.exists_of_mem_join he
    obtain ⟨e₀', he₀', hid', hmark₀', -⟩ := Outstanding.exists_of_mem_join he'
    rw [hid, hid']
    exact hmarks e₀ he₀ e₀' he₀' k (hmark₀.symm.trans hk) (hmark₀'.symm.trans hk')
  | miss ht hi hline hmark =>
    intro e he e' he' k hk hk'
    obtain ⟨e₀, he₀, hid, -, hmark₀⟩ := Outstanding.exists_of_mem_await he
    obtain ⟨e₀', he₀', hid', -, hmark₀'⟩ := Outstanding.exists_of_mem_await he'
    rw [hid, hid']
    rcases hmark₀ with ⟨heq, hnew⟩ | ⟨-, hold⟩ <;> rcases hmark₀' with ⟨heq', hnew'⟩ | ⟨-, hold'⟩
    · exact heq.trans heq'.symm
    · exact absurd (hold'.symm.trans (hk'.trans (hk.symm.trans hnew))) (hmark e₀' he₀')
    · exact absurd (hold.symm.trans (hk.trans (hk'.symm.trans hnew'))) (hmark e₀ he₀)
    · exact hmarks e₀ he₀ e₀' he₀' k (hold.symm.trans hk) (hold'.symm.trans hk')
  | retire ht he =>
    obtain ⟨-, -, -, hmem⟩ := Outstanding.remove?_eq_some h.nodup he
    exact fun e he e' he' => hmarks e ((hmem e).1 he).1 e' ((hmem e').1 he').1
  | _ => exact hmarks

omit hstep in
theorem absent_update {i line : Nat} {dirty value : Option Bool}
    (hline : o.lines i line = dirty) (hdirty : dirty ≠ none) :
    ∀ x ∈ o.traffic, x.1 ≠ .finished → x.2.kind.isDemand = true → x.2.isMiss = true →
      ∀ j, p.topology.entryFor? x.2.kind = some j →
        Function.update o.lines i (Function.update (o.lines i) line value) j
          (p.line j x.2.addr) = none := by
  intro x hx hs hdemand hmiss j hj
  have hold := h.absent x hx hs hdemand hmiss j hj
  rw [update_line_apply, if_neg]
  · exact hold
  · rintro ⟨rfl, heq⟩
    rw [heq, hline] at hold
    exact hdirty hold

omit hstep in
theorem absent_install {i : Nat} {r : Request} {rest : Multiset (Spot × Request)}
    {after : Nat → Option Bool} {dirty : Bool} {victim : Option (Nat × Bool)}
    (ht : o.traffic = (.fills i, r) ::ₘ rest) (hi : i ∈ p.topology.tops)
    (hline : Displaces (o.lines i) after (p.line i r.addr) dirty victim) :
    ∀ x ∈ rest, x.1 ≠ .finished → x.2.kind.isDemand = true → x.2.isMiss = true →
      ∀ j, p.topology.entryFor? x.2.kind = some j →
        Function.update o.lines i after j (p.line j x.2.addr) = none := by
  obtain ⟨hrdemand, hentry, hrmiss⟩ := (h.admits _ (mem_of_eq_cons ht)).fits.fills_top hi
  intro x hx hs hdemand hmiss j hj
  have hold := forall_mem_rest h.absent ht x hx hs hdemand hmiss j hj
  by_cases heq : j = i
  · subst heq
    rw [Function.update_self]
    have hne := h.line_ne ht hrdemand hrmiss hentry hx hdemand hmiss hj
    rcases hline.of_ne hne with ⟨hsame, -⟩ | ⟨d, -, -, hgone⟩
    · exact hsame.trans hold
    · exact hgone
  · rw [Function.update_of_ne heq, hold]

omit hstep in
theorem absent_base {b : Nat} (hb : p.topology.base? = some b) (lines : Nat → Option Bool) :
    ∀ x ∈ o.traffic, x.1 ≠ .finished → x.2.kind.isDemand = true → x.2.isMiss = true →
      ∀ j, p.topology.entryFor? x.2.kind = some j →
        Function.update o.lines b lines j (p.line j x.2.addr) = none := by
  intro x hx hs hdemand hmiss j hj
  have hne : j ≠ b := by
    rintro rfl
    exact Topology.base_not_mem_tops hb (Topology.mem_tops_of_entryFor? hj)
  rw [Function.update_of_ne hne]
  exact h.absent x hx hs hdemand hmiss j hj

theorem absent_step : ∀ x ∈ o'.traffic, x.1 ≠ .finished → x.2.kind.isDemand = true →
    x.2.isMiss = true → ∀ i, p.topology.entryFor? x.2.kind = some i →
      o'.lines i (p.line i x.2.addr) = none := by
  have habsent := h.absent
  cases hstep with
  | note | recalled | repaired | tick | newCycle => exact habsent
  | issue =>
    refine forall_mem_cons ?_ habsent
    exact fun _ _ hmiss => absurd hmiss Bool.false_ne_true
  | move ht hs | arrive ht hs | lookUp ht hs =>
    have hold := habsent _ (mem_of_eq_cons ht) hs.ne_finished
    exact forall_mem_cons (fun _ => hold) (forall_mem_rest habsent ht)
  | pay =>
    refine forall_mem_cons ?_ habsent
    exact fun _ hdemand => absurd hdemand (Request.not_isDemand rfl)
  | absorb ht hr hb => exact forall_mem_rest (h.absent_base hb _) ht
  | memoryAbsorb ht | retire ht => exact forall_mem_rest habsent ht
  | merge ht | bypass ht =>
    refine forall_mem_cons ?_ (forall_mem_rest habsent ht)
    exact fun hs => absurd rfl hs
  | divert ht hr =>
    refine forall_mem_cons ?_ (forall_mem_rest habsent ht)
    exact fun _ hdemand => absurd hdemand (Request.not_isDemand hr)
  | hit ht hi hline =>
    exact forall_mem_cons (fun hs => absurd rfl hs)
      (forall_mem_rest (h.absent_update hline (Option.some_ne_none _)) ht)
  | @miss i r rest ht hi hline hmark =>
    obtain ⟨-, hentry, -⟩ := (h.admits _ (mem_of_eq_cons ht)).fits.lookups_top hi
    refine forall_mem_cons ?_ (forall_mem_rest habsent ht)
    intro _ _ _ j hj
    obtain rfl := Option.some.inj (hentry.symm.trans hj)
    exact hline
  | install ht hi hbypass hdebt hrepair hline =>
    exact forall_mem_cons (fun hs => absurd rfl hs) (h.absent_install ht hi hline)
  | @place b i r rest after victim ht hb =>
    have hold := h.absent_base hb after
    have hr := hold _ (mem_of_eq_cons ht) fun heq => Spot.noConfusion heq
    exact forall_mem_cons (fun _ => hr) (forall_mem_rest hold ht)
  | drop hb hi hdebt hrepair hline => exact h.absent_update hline (Option.some_ne_none _)
  | overtake hb hi hrepair hline => exact forall_mem_overtake habsent fun _ _ _ => id

theorem step : Orderly p o' where
  admits := h.admits_step hstep
  ids := h.ids_step hstep
  nodup := h.nodup_step hstep
  fresh := h.fresh_step hstep
  describes := h.describes_step hstep
  marks := h.marks_step hstep
  expected := h.expected_step hstep
  absent := h.absent_step hstep
  clean := h.clean_step hstep
  debt := h.debt_step hstep
  repair := h.repair_step hstep
  now_le := h.now_le_step hstep

end Orderly

theorem Orderly.start (p : Plan) : Orderly p .start where
  admits := fun x hx => absurd hx (Multiset.notMem_zero x)
  ids := rfl
  nodup := List.nodup_nil
  fresh := fun _ hid => absurd hid List.not_mem_nil
  describes := fun x hx => absurd hx (Multiset.notMem_zero x)
  marks := fun _ he => absurd he List.not_mem_nil
  expected := fun _ => rfl
  absent := fun x hx => absurd hx (Multiset.notMem_zero x)
  clean := fun _ _ _ hline => nomatch hline
  debt := fun _ hd => nomatch hd
  repair := fun _ hρ => nomatch hρ
  now_le := Nat.le_refl 0

/-- Every overview that can be reached is in order. -/
theorem Reach.orderly {p : Plan} {o : Overview} (h : Reach p o) : Orderly p o :=
  h.invariant (Orderly p) (.start p) fun _ _ _ ho hstep => ho.step hstep

end CacheHierarchy
