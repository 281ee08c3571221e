import CacheHierarchy.Proofs.Overview.Fills

/-!
# What becomes of a write

A write that is done has left its line dirty somewhere. `Kept` lists where the dirt can be: in a
cache, in a write-back, with a miss that is serviced as a write, in a debt, or in memory, which has
absorbed a write-back of the line since. Every step takes it from one of these to another.

There is one exception. The table of outstanding accesses keeps the entry of a miss until the end
of the cycle in which the miss is filled. If the line is displaced again in that cycle, a write to
it is still merged into the miss, whose fill will not look at the table any more. Such a write is
`MergedLate`. An access is filled once, so no fill will make up for it, and it leaves no trace.
-/

namespace CacheHierarchy

/-- An access was merged into a miss that had been filled before, and that no fill services as a
write. -/
def MergedLate (journal : List Event) (id : Nat) : Prop :=
  ∃ later earlier i r into cycle kind, journal = later ++ .merged i r into cycle :: earlier ∧
    r.id = id ∧ FilledAs earlier into kind ∧ ¬FilledAs journal into .write

theorem MergedLate.step {p : Plan} {o o' : Overview} {id : Nat} (h : MergedLate o.journal id)
    (ho : Orderly p o) (honce : FilledOnce o) (hstep : Step p o o') : MergedLate o'.journal id := by
  obtain ⟨later, earlier, i, r, into, cycle, kind, hjournal, hid, hfilled, hnone⟩ := h
  obtain ⟨new, hnew⟩ := hstep.journal_suffix
  refine ⟨new ++ later, earlier, i, r, into, cycle, kind, ?_, hid, hfilled, fun hwrite => ?_⟩
  · rw [← hnew, hjournal, List.append_assoc]
  · have hsuffix : earlier <:+ o.journal :=
      hjournal ▸ (List.suffix_cons _ _).trans (List.suffix_append later _)
    exact hnone (honce.filledAs_step ho hstep (hfilled.mono hsuffix) hwrite)

/-- The dirt of a write to a line is somewhere, or has reached memory since. -/
inductive Kept (lineSize : Nat) (o : Overview) (line since : Nat) : Prop
  | resident {i : Nat} (hline : o.lines i line = some true)
  | writeBack {s : Spot} {r : Request} (hr : (s, r) ∈ o.traffic) (hkind : r.kind = .writeBack)
      (hline : r.addr / lineSize = line)
  | underWay {s : Spot} {r : Request} {e : OutstandingAccess} (hr : (s, r) ∈ o.traffic)
      (hs : s ≠ .finished) (hdemand : r.kind.isDemand = true) (hmiss : r.isMiss = true)
      (hline : r.addr / lineSize = line) (he : e ∈ o.outstanding.entries) (hid : e.id = r.id)
      (hkind : e.kind = .write)
  | owed {d : Debt} (hd : o.debt = some d) (hline : d.addr / lineSize = line)
  | absorbed {r : Request} {cycle : Nat} (hr : .absorbed .memory r cycle ∈ o.journal)
      (hline : r.addr / lineSize = line) (hcycle : since ≤ cycle)

/-- Nothing is done on its way if there are caches. -/
theorem Route.ne_finished_of_last? {p : Plan} {o : Overview} {r : Request} {s s' : Spot}
    (h : Route p o r s s') (hlast : p.topology.last? ≠ none) : s' ≠ .finished := by
  rintro rfl
  cases h with
  | finish hnone => exact hlast hnone

/-- A request that has missed is not done before it has been filled. -/
theorem Route.ne_finished_of_isMiss {p : Plan} {o : Overview} {r : Request} {s s' : Spot}
    (h : Route p o r s s') (hfits : p.Fits r s) (hmiss : r.isMiss = true) : s' ≠ .finished := by
  rintro rfl
  cases h with
  | finish hlast hdemand =>
    rcases hfits with ⟨-, hiff⟩ | ⟨hkind, -⟩
    · exact hiff.1 hmiss hlast
    · exact Request.ne_writeBack hdemand hkind

namespace Kept

variable {p : Plan} {lineSize line since : Nat} {o o' : Overview} (hsize : p.Uniform lineSize)
  (ho : Orderly p o) (hstep : Step p o o')

include hsize ho hstep

omit ho hstep in
/-- A line that is displaced while dirty is owed. -/
theorem of_displaced {i : Nat} {after : Nat → Option Bool} {new : Nat} {dirty : Bool}
    {victim : Option (Nat × Bool)} (hi : i < p.topology.size)
    (hplaced : Displaces (o.lines i) after new dirty victim)
    (hlines : o'.lines i = after)
    (hdebt : o'.debt =
      (victim.filter Prod.snd).map fun v => { via := some i, addr := p.base i v.1 })
    (hline : o.lines i line = some true) : Kept lineSize o' line since := by
  have hne : line ≠ new := by
    rintro rfl
    rw [hplaced.absent] at hline
    cases hline
  rcases hplaced.of_ne hne with ⟨hsame, -⟩ | ⟨d, hvictim, hbefore, -⟩
  · refine .resident (i := i) ?_
    rw [hlines, hsame, hline]
  · obtain rfl := Option.some.inj (hbefore.symm.trans hline)
    refine .owed (d := { via := some i, addr := p.base i line }) ?_ ?_
    · rw [hdebt, hvictim]
      rfl
    · rw [← hsize.line_eq hi, p.line_base]

omit ho in
theorem resident_step {i : Nat} (hline : o.lines i line = some true) :
    Kept lineSize o' line since := by
  cases hstep with
  | note | issue | move | arrive | lookUp | pay | memoryAbsorb | merge | miss | bypass | divert
  | recalled | overtake | repaired | retire | tick | newCycle => exact .resident hline
  | absorb =>
    refine .resident (i := i) ?_
    dsimp only
    rw [update_line_apply]
    split
    · rfl
    · exact hline
  | hit ht hj hfound =>
    refine .resident (i := i) ?_
    dsimp only
    rw [update_line_apply]
    split
    · rename_i heq
      obtain ⟨rfl, rfl⟩ := heq
      obtain rfl := Option.some.inj (hfound.symm.trans hline)
      rw [Bool.true_or]
    · exact hline
  | @install j r rest after victim ht hj hbypass hdebt hrepair hplaced haddr cycle =>
    by_cases hi : i = j
    · subst hi
      exact of_displaced hsize (Topology.lt_size_of_mem_tops hj) hplaced (Function.update_self ..)
        rfl hline
    · exact .resident ((congrFun (Function.update_of_ne hi ..) line).trans hline)
  | @place b j r rest after victim ht hb hr hj hdebt hrepair hplaced haddr readyAt =>
    by_cases hi : i = b
    · subst hi
      exact of_displaced hsize (Topology.lt_size_of_base? hb) hplaced (Function.update_self ..)
        rfl hline
    · exact .resident ((congrFun (Function.update_of_ne hi ..) line).trans hline)
  | @drop b j ρ dirty hb hj hdebt hrepair hfound =>
    by_cases hdrop : i = j ∧ line = p.line j (p.base b ρ.line)
    · obtain ⟨rfl, rfl⟩ := hdrop
      obtain rfl := Option.some.inj (hfound.symm.trans hline)
      exact .owed rfl (hsize.line_eq (Topology.lt_size_of_mem_tops hj) _).symm
    · refine .resident (i := i) ?_
      dsimp only
      rw [update_line_apply, if_neg hdrop, hline]

theorem writeBack_step (hsince : since ≤ o.memoryCycle) {s : Spot} {r : Request}
    (hr : (s, r) ∈ o.traffic) (hkind : r.kind = .writeBack) (hline : r.addr / lineSize = line) :
    Kept lineSize o' line since := by
  have hmem : ∀ {x rest}, o.traffic = x ::ₘ rest → (s, r) = x ∨ (s, r) ∈ rest := by
    intro x rest ht
    rw [ht] at hr
    exact Multiset.mem_cons.1 hr
  cases hstep with
  | note | recalled | drop | repaired | tick | newCycle => exact .writeBack hr hkind hline
  | issue | pay => exact .writeBack (Multiset.mem_cons_of_mem hr) hkind hline
  | move ht | arrive ht | lookUp ht | hit ht | merge ht | miss ht | install ht | bypass ht
  | place ht | divert ht =>
    rcases hmem ht with heq | hr
    · cases heq
      exact .writeBack (Multiset.mem_cons_self _ _) hkind hline
    · exact .writeBack (Multiset.mem_cons_of_mem hr) hkind hline
  | @absorb b r₀ rest dirty ht hr₀ hb hfound cycle =>
    rcases hmem ht with heq | hr
    · cases heq
      refine .resident (i := b) ?_
      dsimp only
      rw [Function.update_self, ← hline, ← hsize.line_eq (Topology.lt_size_of_base? hb),
        Function.update_self]
    · exact .writeBack hr hkind hline
  | memoryAbsorb ht hr₀ =>
    rcases hmem ht with heq | hr
    · cases heq
      exact .absorbed List.mem_cons_self hline hsince
    · exact .writeBack hr hkind hline
  | overtake =>
    obtain ⟨bypass, hr'⟩ := exists_mem_overtake hr
    exact .writeBack hr' hkind hline
  | retire ht =>
    rcases hmem ht with heq | hr
    · cases heq
      have hdemand := (ho.admits _ (mem_of_eq_cons ht)).fits
      exact absurd hkind (Request.ne_writeBack hdemand)
    · exact .writeBack hr hkind hline

omit hsize ho in
theorem owed_step {d : Debt} (hd : o.debt = some d) (hline : d.addr / lineSize = line) :
    Kept lineSize o' line since := by
  cases hstep with
  | note | issue | move | arrive | lookUp | absorb | memoryAbsorb | hit | merge | miss | divert
  | recalled | overtake | repaired | retire | tick | newCycle => exact .owed hd hline
  | pay site hd' =>
    obtain rfl := Option.some.inj (hd.symm.trans hd')
    exact .writeBack (Multiset.mem_cons_self _ _) rfl hline
  | install ht hi hbypass hdebt | bypass ht hi hbypass hdebt | drop hb hi hdebt =>
    rw [hdebt] at hd
    cases hd
  | place ht hb hr hi hdebt =>
    rw [hdebt] at hd
    cases hd

omit hsize ho in
theorem absorbed_step {r : Request} {cycle : Nat} (hr : .absorbed .memory r cycle ∈ o.journal)
    (hline : r.addr / lineSize = line) (hcycle : since ≤ cycle) : Kept lineSize o' line since :=
  .absorbed (hstep.journal_suffix.subset hr) hline hcycle

section Fill

variable {i : Nat} {r : Request} (hi : i ∈ p.topology.tops) (hline : r.addr / lineSize = line)

include hi hline

omit ho hstep in
theorem of_install {after : Nat → Option Bool} {victim : Option (Nat × Bool)}
    (hplaced : Displaces (o.lines i) after (p.line i r.addr) true victim)
    (hlines : o'.lines = Function.update o.lines i after) : Kept lineSize o' line since := by
  refine .resident (i := i) ?_
  rw [hlines, Function.update_self, ← hline, ← hsize.line_eq (Topology.lt_size_of_mem_tops hi),
    hplaced.installed]

omit ho hstep in
theorem of_bypass (hdebt : o'.debt = some { via := none, addr := p.base i (p.line i r.addr) }) :
    Kept lineSize o' line since := by
  have hi' := Topology.lt_size_of_mem_tops hi
  refine .owed hdebt ?_
  rw [← hsize.line_eq hi', p.line_base, hsize.line_eq hi', hline]

end Fill

section UnderWay

variable {s : Spot} {r : Request} {e : OutstandingAccess} (hr : (s, r) ∈ o.traffic)
  (hs : s ≠ .finished) (hdemand : r.kind.isDemand = true) (he : e ∈ o.outstanding.entries)
  (hid : e.id = r.id) (hkind : e.kind = .write)

include hr hs hdemand he hid hkind

omit hsize in
theorem entry_step : ∃ e' ∈ o'.outstanding.entries, e'.id = r.id ∧ e'.kind = .write := by
  cases hstep with
  | issue => exact ⟨e, List.mem_append_left _ he, hid, hkind⟩
  | merge =>
    obtain ⟨e', he', hid', hkind'⟩ := Outstanding.mem_join_of_mem _ _ he
    exact ⟨e', he', hid'.trans hid, hkind' (.inl hkind)⟩
  | miss =>
    obtain ⟨e', he', hid', hkind'⟩ := Outstanding.mem_await_of_mem he
    exact ⟨e', he', hid'.trans hid, hkind'.trans hkind⟩
  | retire ht he₀ =>
    rw [ht] at hr
    rcases Multiset.mem_cons.1 hr with heq | hr
    · exact absurd (congrArg Prod.fst heq) hs
    · have hne := ho.id_ne ht (ho.admits _ (mem_of_eq_cons ht)).fits hr hdemand
      obtain ⟨-, -, -, hrest⟩ := Outstanding.remove?_eq_some ho.nodup he₀
      exact ⟨e, (hrest e).2 ⟨he, fun heq => hne (hid ▸ heq)⟩, hid, hkind⟩
  | _ => exact ⟨e, he, hid, hkind⟩

theorem underWay_step (hmiss : r.isMiss = true) (hline : r.addr / lineSize = line) :
    Kept lineSize o' line since := by
  obtain ⟨e', he', hid', hkind'⟩ := entry_step ho hstep hr hs hdemand he hid hkind
  have hkindOf : o.kindOf r = .write := by
    have hsome := (Outstanding.kindOf?_eq_some_iff ho.nodup).2 ⟨e, he, hid, hkind⟩
    rw [Overview.kindOf, hsome, Option.getD_some]
  have hgoes : ∀ {s' : Spot} {readyAt : Nat} {dirty done bypass : Bool},
      (s', { r with readyAt, dirty, done, bypass }) ∈ o'.traffic → s' ≠ .finished →
        Kept lineSize o' line since :=
    fun hr' hs' => .underWay hr' hs' hdemand hmiss hline he' hid' hkind'
  have hcons : ∀ {x y : Spot × Request} {rest : Multiset (Spot × Request)},
      o.traffic = x ::ₘ rest → o'.traffic = y ::ₘ rest →
        ((s, r) = x → Kept lineSize o' line since) → Kept lineSize o' line since := by
    intro x y rest ht ht' hx
    rw [ht] at hr
    rcases Multiset.mem_cons.1 hr with heq | hr
    · exact hx heq
    · exact hgoes (ht' ▸ Multiset.mem_cons_of_mem hr) hs
  cases hstep with
  | note | recalled | drop | repaired | tick | newCycle => exact hgoes hr hs
  | pay | issue => exact hgoes (Multiset.mem_cons_of_mem hr) hs
  | move ht hroute | arrive ht hroute | lookUp ht hroute =>
    refine hcons ht rfl fun heq => ?_
    cases heq
    exact hgoes (Multiset.mem_cons_self _ _)
      (hroute.ne_finished_of_isMiss (ho.admits _ (mem_of_eq_cons ht)).fits hmiss)
  | absorb ht hkind₀ | memoryAbsorb ht hkind₀ =>
    rw [ht] at hr
    rcases Multiset.mem_cons.1 hr with heq | hr
    · cases heq
      exact absurd hkind₀ (Request.ne_writeBack hdemand)
    · exact hgoes hr hs
  | divert ht hkind₀ =>
    refine hcons ht rfl fun heq => ?_
    cases heq
    exact absurd hkind₀ (Request.ne_writeBack hdemand)
  | hit ht hi | merge ht hi | miss ht hi =>
    refine hcons ht rfl fun heq => ?_
    cases heq
    rw [((ho.admits _ (mem_of_eq_cons ht)).fits.lookups_top hi).2.2] at hmiss
    cases hmiss
  | install ht hi hbypass hdebt hrepair hplaced =>
    refine hcons ht rfl fun heq => ?_
    cases heq
    rw [hkindOf] at hplaced
    exact .of_install hsize hi hline hplaced rfl
  | bypass ht hi =>
    refine hcons ht rfl fun heq => ?_
    cases heq
    exact .of_bypass hsize hi hline (if_pos (congrArg AccessKind.isWrite hkindOf))
  | place ht =>
    refine hcons ht rfl fun heq => ?_
    cases heq
    exact hgoes (Multiset.mem_cons_self _ _) fun heq => Spot.noConfusion heq
  | overtake =>
    obtain ⟨bypass, hr'⟩ := exists_mem_overtake hr
    exact hgoes hr' hs
  | retire ht =>
    rw [ht] at hr
    rcases Multiset.mem_cons.1 hr with heq | hr
    · exact absurd (congrArg Prod.fst heq) hs
    · exact hgoes hr hs

end UnderWay

/-- What is kept stays kept. -/
theorem step (hsince : since ≤ o.memoryCycle) (h : Kept lineSize o line since) :
    Kept lineSize o' line since := by
  cases h with
  | resident hline => exact resident_step hsize hstep hline
  | writeBack hr hkind hline => exact writeBack_step hsize ho hstep hsince hr hkind hline
  | underWay hr hs hdemand hmiss hline he hid hkind =>
    exact underWay_step hsize ho hstep hr hs hdemand he hid hkind hmiss hline
  | owed hd hline => exact owed_step hstep hd hline
  | absorbed hr hline hcycle => exact absorbed_step hstep hr hline hcycle

end Kept

/-- How a request came to be done. -/
inductive Finishes (p : Plan) (o o' : Overview) : Request → Prop
  | already {r r₀ : Request} (hr : (.finished, r₀) ∈ o.traffic)
      (hsame : r = { r₀ with bypass := r.bypass }) : Finishes p o o' r
  | hit {i : Nat} {r : Request} {rest : Multiset (Spot × Request)}
      (ht : o.traffic = (.lookups i, r) ::ₘ rest) (hi : i ∈ p.topology.tops)
      (hline : r.kind = .write → o'.lines i (p.line i r.addr) = some true) :
      Finishes p o o' r.finish
  | merge {i cycle : Nat} {r : Request} {rest : Multiset (Spot × Request)} {e : OutstandingAccess}
      (ht : o.traffic = (.lookups i, r) ::ₘ rest) (hi : i ∈ p.topology.tops)
      (he : e ∈ o.outstanding.entries) (hmark : e.mark = some ⟨i, p.line i r.addr⟩)
      (ht' : o'.traffic = (.finished, r.finish) ::ₘ rest)
      (houtstanding : o'.outstanding = o.outstanding.join e.id r.kind)
      (hjournal : o'.journal = .merged i r e.id cycle :: o.journal) : Finishes p o o' r.finish
  | fill {i : Nat} {r : Request} {rest : Multiset (Spot × Request)}
      (ht : o.traffic = (.fills i, r) ::ₘ rest) (hi : i ∈ p.topology.tops)
      (hfilled : FilledAs o'.journal r.id (o.kindOf r)) : Finishes p o o' r.finish

theorem Step.finishes {p : Plan} {o o' : Overview} (hstep : Step p o o')
    (hlast : p.topology.last? ≠ none) {r : Request} (hr : (.finished, r) ∈ o'.traffic) :
    o'.now = o.now ∧ Finishes p o o' r := by
  have hcons : ∀ {x : Spot × Request} {rest : Multiset (Spot × Request)},
      (.finished, r) ∈ x ::ₘ rest → (∀ y ∈ rest, y ∈ o.traffic) →
        ((.finished, r) = x → Finishes p o o' r) → Finishes p o o' r := by
    intro x rest hr hrest hx
    rcases Multiset.mem_cons.1 hr with heq | hr
    · exact hx heq
    · exact .already (hrest _ hr) rfl
  have hmem : ∀ {x : Spot × Request} {rest : Multiset (Spot × Request)},
      o.traffic = x ::ₘ rest → ∀ y ∈ rest, y ∈ o.traffic :=
    fun ht _ hy => ht ▸ Multiset.mem_cons_of_mem hy
  cases hstep with
  | note | recalled | drop | repaired | tick => exact ⟨rfl, .already hr rfl⟩
  | @issue addr kind =>
    refine ⟨rfl, hcons hr (fun _ => id) fun heq => ?_⟩
    exact absurd (congrArg Prod.fst heq).symm (p.entry_ne_finished kind)
  | move ht hroute | arrive ht hroute | lookUp ht hroute =>
    refine ⟨rfl, hcons hr (hmem ht) fun heq => ?_⟩
    exact absurd (congrArg Prod.fst heq).symm (hroute.ne_finished_of_last? hlast)
  | @pay d =>
    refine ⟨rfl, hcons hr (fun _ => id) fun heq => ?_⟩
    exact absurd (congrArg Prod.fst heq).symm d.spot_ne_finished
  | absorb ht | memoryAbsorb ht | retire ht => exact ⟨rfl, .already (hmem ht _ hr) rfl⟩
  | miss ht | place ht | divert ht => exact ⟨rfl, hcons hr (hmem ht) fun heq => nomatch heq⟩
  | hit ht hi =>
    refine ⟨rfl, hcons hr (hmem ht) fun heq => ?_⟩
    cases heq
    refine .hit ht hi fun hkind => ?_
    dsimp only
    rw [Function.update_self, Function.update_self, AccessKind.isWrite_iff.2 hkind, Bool.or_true]
  | merge ht hi he hmark =>
    refine ⟨rfl, hcons hr (hmem ht) fun heq => ?_⟩
    cases heq
    exact .merge ht hi he hmark rfl rfl rfl
  | install ht hi | bypass ht hi =>
    refine ⟨rfl, hcons hr (hmem ht) fun heq => ?_⟩
    cases heq
    exact .fill ht hi (filledAs_cons.2 (.inl rfl))
  | overtake =>
    obtain ⟨r₀, hr₀, heq, -⟩ := mem_overtake hr
    exact ⟨rfl, .already hr₀ heq⟩
  | newCycle hnow hnone => exact absurd hr (hnone r)

/-- The writes that are done are kept, and so are those that a fill has serviced. -/
structure Durable (lineSize : Nat) (o : Overview) : Prop where
  finished : ∀ r, (.finished, r) ∈ o.traffic → r.kind = .write → ¬MergedLate o.journal r.id →
    Kept lineSize o (r.addr / lineSize) o.now
  filled : ∀ r, (.finished, r) ∈ o.traffic → r.isMiss = true →
    ∃ kind, FilledAs o.journal r.id kind ∧
      (kind = .write → Kept lineSize o (r.addr / lineSize) o.now)
  completions : ∀ c ∈ o.completions, c.completedAt ≤ o.now ∧
    (c.kind = .write → ¬MergedLate o.journal c.id →
      Kept lineSize o (c.addr / lineSize) c.completedAt)

namespace Durable

variable {p : Plan} {lineSize : Nat} {o o' : Overview} (h : Durable lineSize o)
  (hlast : p.topology.last? ≠ none) (hsize : p.Uniform lineSize) (ho : Orderly p o)
  (honce : FilledOnce o) (hstep : Step p o o')

include hsize ho hstep

theorem kept_of_fill {i : Nat} {r : Request} {rest : Multiset (Spot × Request)}
    (ht : o.traffic = (.fills i, r) ::ₘ rest) (hi : i ∈ p.topology.tops)
    (hkind : o.kindOf r = .write) : Kept lineSize o' (r.addr / lineSize) o.now := by
  have hmem := mem_of_eq_cons ht
  obtain ⟨hdemand, -, hmiss⟩ := (ho.admits _ hmem).fits.fills_top hi
  obtain ⟨e, he, hid, -, hkindOf⟩ := ho.exists_kindOf hmem hdemand
  exact Kept.underWay_step hsize ho hstep hmem (fun heq => Spot.noConfusion heq) hdemand he hid
    (hkindOf.symm.trans hkind) hmiss rfl

omit hsize hstep in
theorem kindOf_of_write {i : Nat} {r : Request} {rest : Multiset (Spot × Request)}
    (ht : o.traffic = (.fills i, r) ::ₘ rest) (hi : i ∈ p.topology.tops)
    (hkind : r.kind = .write) : o.kindOf r = .write := by
  have hmem := mem_of_eq_cons ht
  obtain ⟨hdemand, -, -⟩ := (ho.admits _ hmem).fits.fills_top hi
  obtain ⟨e, -, -, hdescribes, hkindOf⟩ := ho.exists_kindOf hmem hdemand
  exact hkindOf.trans (hdescribes.write hkind)

include h

omit hstep in
/-- A write that is merged is kept by the miss that it is merged into, unless the fill of the miss
has been serviced already. -/
theorem kept_of_merge {i : Nat} {r : Request} {rest : Multiset (Spot × Request)}
    {e : OutstandingAccess} (ht : o.traffic = (.lookups i, r) ::ₘ rest) (hi : i ∈ p.topology.tops)
    (he : e ∈ o.outstanding.entries) (hmark : e.mark = some ⟨i, p.line i r.addr⟩)
    (hkind : r.kind = .write) (htraffic : o'.traffic = (.finished, r.finish) ::ₘ rest)
    (houtstanding : o'.outstanding = o.outstanding.join e.id r.kind) :
    Kept lineSize o' (r.addr / lineSize) o.now ∨
      ∃ kind, FilledAs o.journal e.id kind ∧
        (kind = .write → Kept lineSize o (r.addr / lineSize) o.now) := by
  have hi' := Topology.lt_size_of_mem_tops hi
  obtain ⟨⟨s, r₀⟩, hr₀, hdemand, hid, hdescribes⟩ := ho.exists_request he
  obtain ⟨hmiss, -, hline⟩ := hdescribes.of_mark hmark
  dsimp only at hdemand hid hmiss hline
  rw [hsize.line_eq hi', hsize.line_eq hi'] at hline
  by_cases hs : s = .finished
  · subst hs
    obtain ⟨kind, hfilled, hkept⟩ := h.filled r₀ hr₀ hmiss
    rw [← hid] at hfilled
    rw [hline] at hkept
    exact .inr ⟨kind, hfilled, hkept⟩
  · left
    rw [ht] at hr₀
    rcases Multiset.mem_cons.1 hr₀ with heq | hr₀
    · cases heq
      rw [((ho.admits _ (mem_of_eq_cons ht)).fits.lookups_top hi).2.2] at hmiss
      cases hmiss
    · obtain ⟨e', he', hid', hwrite⟩ := Outstanding.mem_join_of_mem e.id r.kind he
      refine .underWay (htraffic ▸ Multiset.mem_cons_of_mem hr₀) hs hdemand hmiss hline ?_
        (hid'.trans hid) (hwrite (.inr ⟨hkind, rfl⟩))
      rw [houtstanding]
      exact he'

include honce

theorem finished_kept {r : Request} (hr : (.finished, r) ∈ o.traffic) (hkind : r.kind = .write)
    (hlate : ¬MergedLate o'.journal r.id) : Kept lineSize o' (r.addr / lineSize) o.now := by
  refine Kept.step hsize ho hstep ho.now_le (h.finished r hr hkind fun hold => hlate ?_)
  exact hold.step ho honce hstep

include hlast

theorem finished_step : ∀ r, (.finished, r) ∈ o'.traffic → r.kind = .write →
    ¬MergedLate o'.journal r.id → Kept lineSize o' (r.addr / lineSize) o'.now := by
  intro r hr hkind hlate
  obtain ⟨hnow, hfinishes⟩ := hstep.finishes hlast hr
  rw [hnow]
  cases hfinishes with
  | already hr₀ hsame =>
    rw [hsame] at hkind hlate ⊢
    have hkept := h.finished_kept hsize ho honce hstep hr₀ hkind hlate
    exact hkept
  | hit ht hi hline =>
    have hdirty := hline hkind
    rw [hsize.line_eq (Topology.lt_size_of_mem_tops hi)] at hdirty
    exact .resident hdirty
  | @merge i cycle r rest e ht hi he hmark ht' houtstanding hjournal =>
    rcases h.kept_of_merge hsize ho ht hi he hmark hkind ht' houtstanding with
      hkept | ⟨kind, hfilled, hwrite⟩
    · exact hkept
    · by_cases hk : kind = .write
      · exact Kept.step hsize ho hstep ho.now_le (hwrite hk)
      · refine absurd ⟨[], o.journal, i, r, e.id, cycle, kind, hjournal, rfl, hfilled, ?_⟩ hlate
        rw [hjournal]
        exact fun hwrite => hk (honce.unique e.id kind .write hfilled (hwrite.of_cons rfl))
  | fill ht hi =>
    have hkept := kept_of_fill hsize ho hstep ht hi (kindOf_of_write ho ht hi hkind)
    exact hkept

omit honce in
theorem filled_step : ∀ r, (.finished, r) ∈ o'.traffic → r.isMiss = true →
    ∃ kind, FilledAs o'.journal r.id kind ∧
      (kind = .write → Kept lineSize o' (r.addr / lineSize) o'.now) := by
  intro r hr hmiss
  obtain ⟨hnow, hfinishes⟩ := hstep.finishes hlast hr
  rw [hnow]
  cases hfinishes with
  | already hr₀ hsame =>
    rw [hsame] at hmiss ⊢
    obtain ⟨kind, hfilled, hkept⟩ := h.filled _ hr₀ hmiss
    refine ⟨kind, hfilled.mono hstep.journal_suffix, fun hk => ?_⟩
    exact Kept.step hsize ho hstep ho.now_le (hkept hk)
  | hit ht hi | merge ht hi =>
    have hmiss' := ((ho.admits _ (mem_of_eq_cons ht)).fits.lookups_top hi).2.2
    exact absurd (hmiss'.symm.trans hmiss) Bool.false_ne_true
  | fill ht hi hfilled => exact ⟨_, hfilled, kept_of_fill hsize ho hstep ht hi⟩

omit hlast in
theorem completions_step : ∀ c ∈ o'.completions, c.completedAt ≤ o'.now ∧
    (c.kind = .write → ¬MergedLate o'.journal c.id →
      Kept lineSize o' (c.addr / lineSize) c.completedAt) := by
  intro c hc
  have hold : c ∈ o.completions → c.completedAt ≤ o.now ∧ (c.kind = .write →
      ¬MergedLate o'.journal c.id → Kept lineSize o' (c.addr / lineSize) c.completedAt) := by
    intro hc
    obtain ⟨hcycle, hkept⟩ := h.completions c hc
    refine ⟨hcycle, fun hkind hlate => ?_⟩
    refine Kept.step hsize ho hstep (hcycle.trans ho.now_le) (hkept hkind fun hlate' => hlate ?_)
    exact hlate'.step ho honce hstep
  have hkept := fun r => h.finished_kept hsize ho honce hstep (r := r)
  cases hstep with
  | retire ht =>
    rcases List.mem_append.1 hc with hc | hc
    · exact hold hc
    · obtain rfl := List.mem_singleton.1 hc
      exact ⟨Nat.le_refl _, hkept _ (mem_of_eq_cons ht)⟩
  | newCycle =>
    obtain ⟨hcycle, hkept⟩ := hold hc
    exact ⟨Nat.le_succ_of_le hcycle, hkept⟩
  | _ => exact hold hc

theorem step : Durable lineSize o' where
  finished := h.finished_step hlast hsize ho honce hstep
  filled := h.filled_step hlast hsize ho hstep
  completions := h.completions_step hsize ho honce hstep

end Durable

/-- Where there are caches, and their lines are of one size, every write that is done is kept. -/
theorem Reach.durable {p : Plan} {lineSize : Nat} {o : Overview} (h : Reach p o)
    (hlast : p.topology.last? ≠ none) (hsize : p.Uniform lineSize) : Durable lineSize o := by
  refine h.invariant (Durable lineSize) ?_ fun _ _ hreach ho hstep =>
    ho.step hlast hsize hreach.orderly hreach.filledOnce hstep
  exact ⟨fun _ hr => absurd hr (Multiset.notMem_zero _),
    fun _ hr => absurd hr (Multiset.notMem_zero _), fun _ hc => absurd hc List.not_mem_nil⟩

end CacheHierarchy
