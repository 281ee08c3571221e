import CacheHierarchy.Proofs.Overview.Preservation

/-!
# Inclusion

A line that a first-level cache holds, or is about to fill in, or has sent down as a write-back, is
resident in the base. While the base repairs an eviction this fails for the one line that it has
displaced: for a cache above until that cache has given the line up, for a write-back until all of
them have been recalled.

Nothing of this holds for a first-level cache whose lines are not those of the base.
-/

namespace CacheHierarchy

/-- The lines of a cache are those of the base. -/
def Plan.Matches (p : Plan) (i b : Nat) : Prop :=
  (p.geometry i).lineSize = (p.geometry b).lineSize

def Plan.Aligned (p : Plan) (b : Nat) : Prop :=
  ∀ i ∈ p.topology.tops, p.Dirties i → p.Matches i b

theorem Plan.Matches.line_eq {p : Plan} {i b : Nat} (h : p.Matches i b) (addr : Nat) :
    p.line i addr = p.line b addr := by
  simp only [Plan.line, Geometry.lineOf]
  rw [h]

/-- Where all caches have lines of one size, those above the base have the lines of the base. -/
theorem Plan.Uniform.aligned {p : Plan} {lineSize b : Nat} (h : p.Uniform lineSize)
    (hb : p.topology.base? = some b) : p.Aligned b := fun i hi _ =>
  (h i (Topology.lt_size_of_mem_tops hi)).trans (h b (Topology.lt_size_of_base? hb)).symm

/-- A line is resident in cache `b`, or it is under repair and the repair is not done with it. -/
def Overview.Covers (o : Overview) (b line : Nat) (pending : Repair → Prop) : Prop :=
  o.lines b line ≠ none ∨ ∃ ρ, o.repair = some ρ ∧ ρ.line = line ∧ pending ρ

/-- Inclusion in the base, for traffic as well. -/
structure Inclusive (p : Plan) (b : Nat) (o : Overview) : Prop where
  lines : ∀ i ∈ p.topology.tops, p.Matches i b → ∀ line, o.lines i line ≠ none →
    o.Covers b line fun ρ => i ∉ ρ.withdrawn
  fills : ∀ i ∈ p.topology.tops, p.Matches i b → ∀ r, (.fills i, r) ∈ o.traffic →
    r.bypass = false → o.Covers b (p.line b r.addr) fun ρ => i ∉ ρ.withdrawn
  writeBacks : p.Aligned b → ∀ s r, (s, r) ∈ o.traffic → r.kind = .writeBack →
    p.receiver? s = some (.cache b) →
      o.Covers b (p.line b r.addr) fun ρ => ρ.recalled = false
  debt : p.Aligned b → ∀ d i, o.debt = some d → d.via = some i → i ∈ p.topology.tops →
    o.lines b (p.line b d.addr) ≠ none

/-- Only a request whose line the base holds is handed up to a first-level cache above a base. -/
theorem Route.line_ne_none {p : Plan} {o : Overview} {r : Request} {s : Spot} {i b : Nat}
    (h : Route p o r s (.fills i)) (hi : i ∈ p.topology.tops) (hb : p.topology.base? = some b) :
    o.lines b (p.line b r.addr) ≠ none := by
  have hne := Topology.top_ne_base hi hb
  cases h with
  | handFill hbelow hr =>
    have := (Topology.base?_of_below hbelow).1
    exact absurd (Option.some.inj (this.symm.trans hb)) hne
  | answer hb' hs hr hi' hline =>
    obtain rfl := Option.some.inj (hb'.symm.trans hb)
    exact hline
  | read hi' hr =>
    rw [Topology.last?_of_base? hb] at hi'
    exact absurd (Option.some.inj hi').symm hne

namespace Overview.Covers

variable {o o' : Overview} {b line : Nat} {pending : Repair → Prop}

/-- Without a repair the line is resident. -/
theorem ne_none (h : o.Covers b line pending) (hrepair : o.repair = none) :
    o.lines b line ≠ none := by
  rcases h with h | ⟨ρ, hρ, -⟩
  · exact h
  · rw [hrepair] at hρ
    cases hρ

/-- A line that is installed in the base is covered, and so is the victim, by its repair. -/
theorem place {after : Nat → Option Bool} {new : Nat} {dirty : Bool} {victim : Option (Nat × Bool)}
    (hline : Displaces (o.lines b) after new dirty victim) (h : o.lines b line ≠ none)
    (hlines : o'.lines b = after)
    (hrepair : o'.repair = victim.map fun v => { line := v.1 })
    (hpending : pending { line := line }) :
    o'.Covers b line pending := by
  by_cases hl : line = new
  · left
    rw [hlines, hl, hline.installed]
    exact Option.some_ne_none dirty
  · rcases hline.of_ne hl with ⟨hsame, -⟩ | ⟨d, hvictim, -, -⟩
    · left
      rw [hlines, hsame]
      exact h
    · right
      refine ⟨{ line := line }, ?_, rfl, hpending⟩
      rw [hrepair, hvictim]
      rfl

end Overview.Covers

namespace Step

variable {p : Plan} {b i : Nat} {o o' : Overview} {ρ ρ' : Repair} (hstep : Step p o o')
  (ho : Orderly p o) (hb : p.topology.base? = some b) (hρ : o.repair = some ρ)

include hstep hρ

/-- A repair goes on with its line until nothing of it is left to do. -/
theorem exists_repair : (∃ ρ', o'.repair = some ρ' ∧ ρ'.line = ρ.line) ∨
    ρ.recalled = true ∧ ∀ i ∈ p.topology.tops, i ∈ ρ.withdrawn := by
  cases hstep with
  | install ht hi hbypass hdebt hrepair | place ht hb' hr hi hdebt hrepair =>
    rw [hρ] at hrepair
    cases hrepair
  | recalled hb' hrepair | drop hb' hi hdebt hrepair | overtake hb' hi hrepair =>
    obtain rfl := Option.some.inj (hρ.symm.trans hrepair)
    exact .inl ⟨_, rfl, rfl⟩
  | repaired hrepair hrecalled hwithdrawn =>
    obtain rfl := Option.some.inj (hρ.symm.trans hrepair)
    exact .inr ⟨hrecalled, hwithdrawn⟩
  | _ => exact .inl ⟨ρ, hρ, rfl⟩

variable (hρ' : o'.repair = some ρ')

include hb hρ'

/-- Write-backs of the line are recalled when none is on its way to the base. -/
theorem none_of_recalled (h : ρ'.recalled = true) : ρ.recalled = true ∨
    ∀ s r, (s, r) ∈ o'.traffic → r.kind = .writeBack → p.receiver? s = some (.cache b) →
      p.line b r.addr ≠ ρ.line := by
  cases hstep with
  | install ht hi hbypass hdebt hrepair | place ht hb' hr hi hdebt hrepair =>
    rw [hρ] at hrepair
    cases hrepair
  | recalled hb' hrepair hnone =>
    obtain rfl := Option.some.inj (hb.symm.trans hb')
    obtain rfl := Option.some.inj (hρ.symm.trans hrepair)
    exact .inr hnone
  | drop hb' hi hdebt hrepair | overtake hb' hi hrepair =>
    obtain rfl := Option.some.inj (hρ.symm.trans hrepair)
    obtain rfl := Option.some.inj hρ'
    exact .inl h
  | repaired => cases hρ'
  | _ =>
    obtain rfl := Option.some.inj (hρ.symm.trans hρ')
    exact .inl h

include ho

/-- A cache gives the line up when it holds no copy and waits for none. -/
theorem none_of_withdrawn (h : i ∈ ρ'.withdrawn) : i ∈ ρ.withdrawn ∨
    o'.lines i (p.line i (p.base b ρ.line)) = none ∧
      ∀ r, (.fills i, r) ∈ o'.traffic → r.bypass = false →
        p.line i r.addr ≠ p.line i (p.base b ρ.line) := by
  cases hstep with
  | install ht hi hbypass hdebt hrepair | place ht hb' hr hi hdebt hrepair =>
    rw [hρ] at hrepair
    cases hrepair
  | recalled hb' hrepair =>
    obtain rfl := Option.some.inj (hρ.symm.trans hrepair)
    obtain rfl := Option.some.inj hρ'
    exact .inl h
  | drop hb' hi hdebt hrepair hfound =>
    obtain rfl := Option.some.inj (hb.symm.trans hb')
    obtain rfl := Option.some.inj (hρ.symm.trans hrepair)
    obtain rfl := Option.some.inj hρ'
    rcases List.mem_cons.1 h with rfl | h
    · refine .inr ⟨?_, fun r hr _ heq => ?_⟩
      · dsimp only
        rw [Function.update_self, Function.update_self]
      · -- a miss under way is not for a line that the cache holds
        obtain ⟨hdemand, hentry, hmiss⟩ := (ho.admits _ hr).fits.fills_top hi
        have habsent := ho.absent _ hr (fun heq => Spot.noConfusion heq) hdemand hmiss _ hentry
        rw [heq, hfound] at habsent
        cases habsent
    · exact .inl h
  | overtake hb' hi hrepair hfound =>
    obtain rfl := Option.some.inj (hb.symm.trans hb')
    obtain rfl := Option.some.inj (hρ.symm.trans hrepair)
    obtain rfl := Option.some.inj hρ'
    rcases List.mem_cons.1 h with rfl | h
    · refine .inr ⟨hfound, fun r hr hbypass heq => ?_⟩
      obtain ⟨r₀, hmem, hsame, hunmarked⟩ := mem_overtake hr
      have hdemand := ((ho.admits _ hmem).fits.fills_top hi).1
      rw [hsame] at heq
      exact (hunmarked hbypass).2 ⟨rfl, Request.ne_writeBack hdemand, heq⟩
    · exact .inl h
  | repaired => cases hρ'
  | _ =>
    obtain rfl := Option.some.inj (hρ.symm.trans hρ')
    exact .inl h

end Step

namespace Inclusive

variable {p : Plan} {b : Nat} {o o' : Overview} (h : Inclusive p b o) (ho : Orderly p o)
  (hb : p.topology.base? = some b) (hstep : Step p o o')

include h ho hb hstep

omit h ho in
/-- The lines of the base change in two ways only: a write-back makes one dirty, or one is
installed. -/
theorem lines_base : (∀ line, o'.lines b line ≠ none ↔ o.lines b line ≠ none) ∨
    o.debt = none ∧ ∃ r victim, Displaces (o.lines b) (o'.lines b) (p.line b r.addr) false victim ∧
      o.repair = none ∧ (o'.repair = victim.map fun v => { line := v.1 }) ∧
      (.fills b, r) ∈ o.traffic ∧ r.kind.isDemand = true ∧
      (victim ≠ none → (p.geometry b).Full (o.lines b) (p.line b r.addr)) := by
  cases hstep with
  | @absorb b' r rest dirty ht hr hb' hline cycle =>
    obtain rfl := Option.some.inj (hb.symm.trans hb')
    left
    intro line
    dsimp only
    rw [Function.update_self]
    by_cases hl : line = p.line b r.addr
    · rw [hl, Function.update_self, hline]
      exact iff_of_true (Option.some_ne_none _) (Option.some_ne_none _)
    · rw [Function.update_of_ne hl]
  | @place b' i r rest after victim ht hb' hr hi hdebt hrepair hline haddr readyAt cycle hfull =>
    obtain rfl := Option.some.inj (hb.symm.trans hb')
    right
    refine ⟨hdebt, r, victim, ?_, hrepair, rfl, mem_of_eq_cons ht, hr, hfull⟩
    dsimp only
    rw [Function.update_self]
    exact hline
  | hit ht hi hline | install ht hi | drop hb' hi =>
    left
    intro line
    dsimp only
    rw [Function.update_of_ne (Topology.top_ne_base hi hb).symm]
  | _ => exact .inl fun _ => Iff.rfl

omit h ho in
/-- Cover is lost only as a repair goes on. -/
theorem covers_step (line : Nat) (pending : Repair → Prop) (hstart : pending { line := line })
    (hgoes : ∀ ρ ρ', o.repair = some ρ → o'.repair = some ρ' → ρ.line = line → pending ρ →
      pending ρ')
    (hends : ∀ ρ, ρ.recalled = true → (∀ i ∈ p.topology.tops, i ∈ ρ.withdrawn) → ¬pending ρ)
    (hcovers : o.Covers b line pending) : o'.Covers b line pending := by
  rcases lines_base hb hstep with hiff | ⟨-, r, victim, hline, hnone, hplace, -⟩
  · rcases hcovers with hres | ⟨ρ, hρ, hline, hpending⟩
    · exact .inl ((hiff line).2 hres)
    · rcases hstep.exists_repair hρ with ⟨ρ', hρ', hline'⟩ | ⟨hrecalled, hwithdrawn⟩
      · exact .inr ⟨ρ', hρ', hline'.trans hline, hgoes ρ ρ' hρ hρ' hline hpending⟩
      · exact absurd hpending (hends ρ hrecalled hwithdrawn)
  · exact .place hline (hcovers.ne_none hnone) rfl hplace hstart

omit h ho in
/-- A line that a first-level cache holds was there before or has just been filled in. -/
theorem exists_of_line {i line : Nat} (hi : i ∈ p.topology.tops) (hline : o'.lines i line ≠ none) :
    o.lines i line ≠ none ∨
      ∃ r, (.fills i, r) ∈ o.traffic ∧ r.bypass = false ∧ p.line i r.addr = line := by
  have hne := Topology.top_ne_base hi hb
  cases hstep with
  | absorb ht hr hb' | place ht hb' =>
    obtain rfl := Option.some.inj (hb.symm.trans hb')
    dsimp only at hline
    rw [Function.update_of_ne hne] at hline
    exact .inl hline
  | hit ht hj hfound =>
    left
    dsimp only at hline
    rw [update_line_apply] at hline
    split at hline
    · rename_i heq
      obtain ⟨rfl, rfl⟩ := heq
      rw [hfound]
      exact Option.some_ne_none _
    · exact hline
  | @install j r rest after victim ht hj hbypass hdebt hrepair hplaced =>
    by_cases hfill : i = j ∧ line = p.line j r.addr
    · obtain ⟨rfl, rfl⟩ := hfill
      exact .inr ⟨r, mem_of_eq_cons ht, hbypass, rfl⟩
    · obtain ⟨dirty, hdirty⟩ := Option.ne_none_iff_exists'.1 hline
      left
      rw [hplaced.of_update hdirty hfill]
      exact Option.some_ne_none dirty
  | drop =>
    dsimp only at hline
    rw [update_line_apply] at hline
    split at hline
    · exact absurd rfl hline
    · exact .inl hline
  | _ => exact .inl hline

theorem lines_step : ∀ i ∈ p.topology.tops, p.Matches i b → ∀ line, o'.lines i line ≠ none →
    o'.Covers b line fun ρ => i ∉ ρ.withdrawn := by
  intro i hi hmatch line hline
  refine covers_step hb hstep line _ List.not_mem_nil ?_ (fun ρ _ hall hw => hw (hall i hi)) ?_
  · rintro ρ ρ' hρ hρ' rfl hw hw'
    rcases hstep.none_of_withdrawn ho hb hρ hρ' hw' with hold | ⟨hnone, -⟩
    · exact hw hold
    · rw [hmatch.line_eq, p.line_base] at hnone
      exact hline hnone
  · rcases exists_of_line hb hstep hi hline with hold | ⟨r, hr, hbypass, rfl⟩
    · exact h.lines i hi hmatch line hold
    · rw [hmatch.line_eq]
      exact h.fills i hi hmatch r hr hbypass

omit h ho in
/-- A fill of a first-level cache was on its way before, or has just been handed up. -/
theorem exists_of_fill {i : Nat} {r : Request} (hi : i ∈ p.topology.tops)
    (hr : (.fills i, r) ∈ o'.traffic) (hbypass : r.bypass = false) :
    o'.lines b (p.line b r.addr) ≠ none ∨
      ∃ r₀, (.fills i, r₀) ∈ o.traffic ∧ r₀.bypass = false ∧ r₀.addr = r.addr := by
  have hcons : ∀ {x : Spot × Request} {rest : Multiset (Spot × Request)},
      (.fills i, r) ∈ x ::ₘ rest → (∀ y ∈ rest, y ∈ o.traffic) → (Spot.fills i, r) ≠ x →
        ∃ r₀, (.fills i, r₀) ∈ o.traffic ∧ r₀.bypass = false ∧ r₀.addr = r.addr :=
    fun hr hrest hne => ⟨r, hrest _ ((Multiset.mem_cons.1 hr).resolve_left hne), hbypass, rfl⟩
  have hmem : ∀ {x : Spot × Request} {rest : Multiset (Spot × Request)},
      o.traffic = x ::ₘ rest → ∀ y ∈ rest, y ∈ o.traffic :=
    fun ht _ hy => ht ▸ Multiset.mem_cons_of_mem hy
  cases hstep with
  | note | recalled | drop | repaired | tick | newCycle => exact .inr ⟨r, hr, hbypass, rfl⟩
  | @issue addr kind =>
    refine .inr (hcons hr (fun _ => id) fun heq => ?_)
    exact p.entry_ne_fills kind i (congrArg Prod.fst heq).symm
  | move ht hs | lookUp ht hs =>
    rcases Multiset.mem_cons.1 hr with heq | hr
    · cases heq
      exact .inl (hs.line_ne_none hi hb)
    · exact .inr ⟨r, hmem ht _ hr, hbypass, rfl⟩
  | @pay d =>
    exact .inr (hcons hr (fun _ => id) fun heq => d.spot_ne_fills i (congrArg Prod.fst heq).symm)
  | absorb ht | memoryAbsorb ht | retire ht => exact .inr ⟨r, hmem ht _ hr, hbypass, rfl⟩
  | arrive ht | hit ht | merge ht | miss ht | install ht | bypass ht | divert ht =>
    exact .inr (hcons hr (hmem ht) fun heq => nomatch heq)
  | place ht hb' hdemand hi' hdebt hrepair hline =>
    obtain rfl := Option.some.inj (hb.symm.trans hb')
    rcases Multiset.mem_cons.1 hr with heq | hr
    · cases heq
      left
      dsimp only
      rw [Function.update_self, hline.installed]
      exact Option.some_ne_none false
    · exact .inr ⟨r, hmem ht _ hr, hbypass, rfl⟩
  | overtake =>
    obtain ⟨r₀, hr₀, heq, hunmarked⟩ := mem_overtake hr
    exact .inr ⟨r₀, hr₀, (hunmarked hbypass).1, by rw [heq]⟩

theorem fills_step : ∀ i ∈ p.topology.tops, p.Matches i b → ∀ r, (.fills i, r) ∈ o'.traffic →
    r.bypass = false → o'.Covers b (p.line b r.addr) fun ρ => i ∉ ρ.withdrawn := by
  intro i hi hmatch r hr hbypass
  rcases exists_of_fill hb hstep hi hr hbypass with hres | ⟨r₀, hr₀, hbypass₀, haddr⟩
  · exact .inl hres
  · refine covers_step hb hstep _ _ List.not_mem_nil ?_ (fun ρ _ hall hw => hw (hall i hi)) ?_
    · intro ρ ρ' hρ hρ' hl hw hw'
      rcases hstep.none_of_withdrawn ho hb hρ hρ' hw' with hold | ⟨-, hfills⟩
      · exact hw hold
      · refine hfills r hr hbypass ?_
        rw [hmatch.line_eq, hmatch.line_eq, p.line_base, hl]
    · rw [← haddr]
      exact h.fills i hi hmatch r₀ hr₀ hbypass₀

omit hb hstep in
/-- A write-back that is owed and goes to the base is of a line of the base. -/
theorem line_of_debt (halign : p.Aligned b) {d : Debt} (hd : o.debt = some d)
    (hs : p.receiver? d.spot = some (.cache b)) : o.lines b (p.line b d.addr) ≠ none := by
  cases hvia : d.via with
  | none =>
    rw [Debt.spot, hvia] at hs
    cases hs
  | some i =>
    rw [Debt.spot, hvia] at hs
    have hbelow : p.topology.below i = .cache b := by
      have hsite := Option.some.inj hs
      cases hbelow : p.topology.below i <;> rw [hbelow] at hsite <;> cases hsite
      rfl
    have hdirties := (ho.debt d hd).2.2 i hvia
    exact h.debt halign d i hd hvia (Topology.mem_tops_of_below hbelow hdirties.lt_size)

omit hb in
/-- A write-back on its way to the base was so before, or is of a line of the base. -/
theorem exists_of_writeBack (halign : p.Aligned b) {s : Spot} {r : Request}
    (hr : (s, r) ∈ o'.traffic) (hkind : r.kind = .writeBack)
    (hs : p.receiver? s = some (.cache b)) : o'.lines b (p.line b r.addr) ≠ none ∨
      ∃ s₀ r₀, (s₀, r₀) ∈ o.traffic ∧ r₀.kind = .writeBack ∧
        p.receiver? s₀ = some (.cache b) ∧ r₀.addr = r.addr := by
  have hcons : ∀ {x : Spot × Request} {rest : Multiset (Spot × Request)},
      (s, r) ∈ x ::ₘ rest → (∀ y ∈ rest, y ∈ o.traffic) → (s, r) ≠ x →
        ∃ s₀ r₀, (s₀, r₀) ∈ o.traffic ∧ r₀.kind = .writeBack ∧
          p.receiver? s₀ = some (.cache b) ∧ r₀.addr = r.addr :=
    fun hr hrest hne =>
      ⟨s, r, hrest _ ((Multiset.mem_cons.1 hr).resolve_left hne), hkind, hs, rfl⟩
  have hmem : ∀ {x : Spot × Request} {rest : Multiset (Spot × Request)},
      o.traffic = x ::ₘ rest → ∀ y ∈ rest, y ∈ o.traffic :=
    fun ht _ hy => ht ▸ Multiset.mem_cons_of_mem hy
  cases hstep with
  | note | recalled | drop | repaired | tick | newCycle => exact .inr ⟨s, r, hr, hkind, hs, rfl⟩
  | issue readyAt haddr hdemand =>
    refine .inr (hcons hr (fun _ => id) ?_)
    rintro ⟨⟩
    exact Request.ne_writeBack hdemand hkind
  | @move s₀ s' r₀ rest ht hroute | @lookUp b' s' r₀ rest ht hroute =>
    rcases Multiset.mem_cons.1 hr with heq | hr
    · cases heq
      have hreceiver := (ho.admits _ (mem_of_eq_cons ht)).fits.receiver?_route hroute hkind
      exact .inr ⟨_, r₀, mem_of_eq_cons ht, hkind, hreceiver ▸ hs, rfl⟩
    · exact .inr ⟨s, r, hmem ht _ hr, hkind, hs, rfl⟩
  | pay site hd =>
    rcases Multiset.mem_cons.1 hr with heq | hr
    · cases heq
      exact .inl (h.line_of_debt ho halign hd hs)
    · exact .inr ⟨s, r, hr, hkind, hs, rfl⟩
  | absorb ht | memoryAbsorb ht | retire ht => exact .inr ⟨s, r, hmem ht _ hr, hkind, hs, rfl⟩
  | arrive ht | hit ht | merge ht | install ht | bypass ht | divert ht =>
    refine .inr (hcons hr (hmem ht) ?_)
    rintro ⟨⟩
    cases hs
  | miss ht hi =>
    refine .inr (hcons hr (hmem ht) ?_)
    rintro ⟨⟩
    have hdemand := ((ho.admits _ (mem_of_eq_cons ht)).fits.lookups_top hi).1
    exact Request.ne_writeBack hdemand hkind
  | place ht hb' hdemand =>
    refine .inr (hcons hr (hmem ht) ?_)
    rintro ⟨⟩
    exact Request.ne_writeBack hdemand hkind
  | overtake =>
    obtain ⟨r₀, hr₀, heq, -⟩ := mem_overtake hr
    exact .inr ⟨s, r₀, hr₀, by rw [← hkind, heq], hs, by rw [heq]⟩

theorem writeBacks_step (halign : p.Aligned b) : ∀ s r, (s, r) ∈ o'.traffic →
    r.kind = .writeBack → p.receiver? s = some (.cache b) →
      o'.Covers b (p.line b r.addr) fun ρ => ρ.recalled = false := by
  intro s r hr hkind hs
  rcases h.exists_of_writeBack ho hstep halign hr hkind hs with
    hres | ⟨s₀, r₀, hr₀, hkind₀, hs₀, haddr⟩
  · exact .inl hres
  · refine covers_step hb hstep _ _ rfl ?_ (fun ρ hrecalled _ => ?_) ?_
    · intro ρ ρ' hρ hρ' hl hpending
      rw [Bool.eq_false_iff]
      intro hrecalled
      rcases hstep.none_of_recalled hb hρ hρ' hrecalled with hold | hnone
      · rw [hold] at hpending
        cases hpending
      · exact hnone s r hr hkind hs hl.symm
    · rw [hrecalled]
      exact fun heq => Bool.false_ne_true heq.symm
    · rw [← haddr]
      exact h.writeBacks halign s₀ r₀ hr₀ hkind₀ hs₀

theorem debt_step (halign : p.Aligned b) : ∀ d i, o'.debt = some d → d.via = some i →
    i ∈ p.topology.tops → o'.lines b (p.line b d.addr) ≠ none := by
  intro d i hd hvia hi
  have hdirties := ((ho.step hstep).debt d hd).2.2 i hvia
  have hkept : o.debt = some d → o'.lines b (p.line b d.addr) ≠ none := by
    intro hold
    rcases lines_base hb hstep with hiff | ⟨hnone, -⟩
    · exact (hiff _).2 (h.debt halign d i hold hvia hi)
    · rw [hnone] at hold
      cases hold
  cases hstep with
  | note | issue | move | arrive | lookUp | absorb | memoryAbsorb | hit | merge | miss | divert
  | recalled | overtake | repaired | retire | tick | newCycle => exact hkept hd
  | pay => cases hd
  | @install j r rest after victim ht hj hbypass hdebt hrepair hline haddr cycle =>
    obtain ⟨⟨v, dirty⟩, hv, rfl⟩ := Option.map_eq_some_iff.1 hd
    obtain ⟨hvictim, -⟩ := Option.filter_eq_some_iff.1 hv
    cases hvia
    have hmatch := halign i hi hdirties
    have hres : o.lines i v ≠ none := by
      rw [(hline.victim_eq hvictim).1]
      exact Option.some_ne_none dirty
    dsimp only
    rw [Function.update_of_ne (Topology.top_ne_base hi hb).symm, ← hmatch.line_eq, p.line_base]
    exact (h.lines i hi hmatch v hres).ne_none hrepair
  | bypass =>
    dsimp only at hd
    split at hd
    · cases hd
      cases hvia
    · cases hd
  | place ht hb' =>
    obtain ⟨v, -, rfl⟩ := Option.map_eq_some_iff.1 hd
    cases hvia
    exact absurd hi (Topology.base_not_mem_tops hb')
  | drop =>
    dsimp only at hd
    split at hd
    · cases hd
      cases hvia
    · cases hd

theorem step : Inclusive p b o' where
  lines := h.lines_step ho hb hstep
  fills := h.fills_step ho hb hstep
  writeBacks := h.writeBacks_step ho hb hstep
  debt := h.debt_step ho hb hstep

end Inclusive

theorem Inclusive.start (p : Plan) (b : Nat) : Inclusive p b .start where
  lines := fun _ _ _ _ hline => absurd rfl hline
  fills := fun _ _ _ _ hr => absurd hr (Multiset.notMem_zero _)
  writeBacks := fun _ _ _ hr => absurd hr (Multiset.notMem_zero _)
  debt := fun _ _ _ hd => nomatch hd

/-- There is inclusion in every overview that can be reached. -/
theorem Reach.inclusive {p : Plan} {b : Nat} {o : Overview} (h : Reach p o)
    (hb : p.topology.base? = some b) : Inclusive p b o :=
  h.invariant (Inclusive p b) (.start p b) fun _ _ hreach ho hstep =>
    ho.step hreach.orderly hb hstep

/-- Where the lines of the caches above are those of the base, no write-back reaches the base for a
line that is not resident. -/
theorem Reach.line_ne_none {p : Plan} {b : Nat} {o : Overview} (h : Reach p o)
    (hb : p.topology.base? = some b) (halign : p.Aligned b) (hrepair : o.repair = none)
    {r : Request} (hr : (.fills b, r) ∈ o.traffic) (hkind : r.kind = .writeBack) :
    o.lines b (p.line b r.addr) ≠ none :=
  ((h.inclusive hb).writeBacks halign _ r hr hkind rfl).ne_none hrepair

end CacheHierarchy
