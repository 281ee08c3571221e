import CacheHierarchy.Proofs.Overview.Step

/-!
# Order in traffic

What holds of every overview that can be reached, whatever the dimensions of the caches.

* A request is where its kind may be, and a write-back is expected exactly where it is on its way
  to.
* The table of outstanding accesses lists the demand requests in traffic, each once. Its entry
  describes the request; if the request has missed, the mark of the entry is the line that it waits
  for, and no other entry has that mark.
* While a request that missed is under way, its line is not resident in the cache that it entered.
* An instruction cache of its own has no dirty line.
-/

namespace CacheHierarchy

structure Plan.Admits (p : Plan) (x : Spot × Request) : Prop where
  fits : p.Fits x.2 x.1
  addr_lt : x.2.addr < wordLimit
  bypass : x.2.bypass = true → p.topology.base? ≠ none

/-- The entry of the table that belongs to a request. -/
structure Plan.Describes (p : Plan) (e : OutstandingAccess) (r : Request) : Prop where
  isDemand : e.kind.isDemand = true
  entry : p.topology.entryFor? e.kind = p.topology.entryFor? r.kind
  write : r.kind = .write → e.kind = .write
  mark : e.mark = if r.isMiss then
      (p.topology.entryFor? r.kind).map fun i => ⟨i, p.line i r.addr⟩
    else none

/-- What holds of every overview that can be reached. -/
structure Orderly (p : Plan) (o : Overview) : Prop where
  admits : ∀ x ∈ o.traffic, p.Admits x
  ids : demandIds o.traffic = o.outstanding.ids
  nodup : o.outstanding.ids.Nodup
  fresh : ∀ id ∈ o.outstanding.ids, id < o.nextId
  describes : ∀ x ∈ o.traffic, x.2.kind.isDemand = true →
    ∀ e ∈ o.outstanding.entries, e.id = x.2.id → p.Describes e x.2
  marks : ∀ e ∈ o.outstanding.entries, ∀ e' ∈ o.outstanding.entries, ∀ k,
    e.mark = some k → e'.mark = some k → e.id = e'.id
  expected : ∀ site, o.expected site = p.writeBackIds site o.traffic
  absent : ∀ x ∈ o.traffic, x.1 ≠ .finished → x.2.kind.isDemand = true → x.2.isMiss = true →
    ∀ i, p.topology.entryFor? x.2.kind = some i → o.lines i (p.line i x.2.addr) = none
  clean : ∀ i, p.topology.side i = some .instruction → ∀ line, o.lines i line ≠ some true
  debt : ∀ d, o.debt = some d → p.topology.last? ≠ none ∧ d.addr < wordLimit ∧
    ∀ i, d.via = some i → p.Dirties i
  repair : ∀ ρ, o.repair = some ρ → ∀ b, p.topology.base? = some b → p.base b ρ.line < wordLimit
  now_le : o.now ≤ o.memoryCycle

namespace Topology

theorem last?_ne_none_of_base? {t : Topology} {b : Nat} (h : t.base? = some b) :
    t.last? ≠ none := by
  rw [last?_of_base? h]
  exact Option.some_ne_none b

theorem last?_ne_none_of_mem_tops {t : Topology} {i : Nat} (h : i ∈ t.tops) :
    t.last? ≠ none := by
  rw [ne_eq, last?_eq_none_iff]
  rintro rfl
  cases h

theorem side_base {t : Topology} {b : Nat} (h : t.base? = some b) :
    t.side b ≠ some .instruction := by
  cases t with
  | dramOnly | singleLevel => cases h
  | multiLevel =>
    cases h
    decide
  | splitL1 =>
    cases h
    decide

end Topology

theorem Plan.dirties_base {p : Plan} {b : Nat} (h : p.topology.base? = some b) : p.Dirties b :=
  ⟨Topology.lt_size_of_base? h, Topology.side_base h⟩

namespace Plan.Describes

variable {p : Plan} {e : OutstandingAccess} {r : Request} (h : p.Describes e r)

include h

theorem congr {r' : Request} (haddr : r'.addr = r.addr) (hkind : r'.kind = r.kind)
    (hmiss : r'.isMiss = r.isMiss) : p.Describes e r' :=
  ⟨h.isDemand, hkind ▸ h.entry, hkind ▸ h.write, by rw [h.mark, haddr, hkind, hmiss]⟩

/-- An entry that waits at a cache belongs to a request that missed there. -/
theorem of_mark {i line : Nat} (hmark : e.mark = some ⟨i, line⟩) :
    r.isMiss = true ∧ p.topology.entryFor? r.kind = some i ∧ p.line i r.addr = line := by
  have h' := h.mark
  rw [hmark] at h'
  split at h'
  · rename_i hmiss
    obtain ⟨j, hj, heq⟩ := Option.map_eq_some_iff.1 h'.symm
    cases heq
    exact ⟨hmiss, hj, rfl⟩
  · cases h'

theorem entry_of_mark {i line : Nat} (hmark : e.mark = some ⟨i, line⟩) :
    p.topology.entryFor? r.kind = some i :=
  (h.of_mark hmark).2.1

end Plan.Describes

namespace Plan.Fits

variable {p : Plan} {r : Request} {i : Nat}

theorem congr {r' : Request} {s : Spot} (h : p.Fits r s) (hkind : r'.kind = r.kind)
    (hmiss : r'.isMiss = r.isMiss) : p.Fits r' s := by
  have hpass : ∀ {i}, p.Passes r i → p.Passes r' i := fun hp =>
    ⟨hkind ▸ hp.isDemand, hmiss ▸ hp.isMiss, hkind ▸ hp.on_way⟩
  cases s with
  | fills i => exact h.imp hpass fun hw => ⟨hkind ▸ hw.1, hw.2⟩
  | sends i => exact h.imp hpass fun hw => ⟨hkind ▸ hw.1, hw.2⟩
  | _ =>
    simp only [Fits, hkind, hmiss] at h ⊢
    exact h

theorem entry (hr : r.kind.isDemand = true) (hmiss : r.isMiss = false) :
    p.Fits r (p.entry r.kind) := by
  cases hentry : p.topology.entryFor? r.kind with
  | none =>
    have hlast := Topology.last?_eq_none_iff.2 (Topology.entryFor?_eq_none_iff.1 hentry)
    rw [Plan.entry, hentry]
    refine .inl ⟨hr, iff_of_false ?_ fun hne => hne hlast⟩
    rw [hmiss]
    exact Bool.false_ne_true
  | some i =>
    rw [Plan.entry, hentry]
    exact ⟨hr, .inl ⟨hentry, hmiss⟩⟩

/-- A request that a first-level cache looks up enters there and has not missed. -/
theorem lookups_top (h : p.Fits r (.lookups i)) (hi : i ∈ p.topology.tops) :
    r.kind.isDemand = true ∧ p.topology.entryFor? r.kind = some i ∧ r.isMiss = false := by
  obtain ⟨hdemand, htop | hbase⟩ := h
  · exact ⟨hdemand, htop⟩
  · exact absurd hi (Topology.base_not_mem_tops hbase.1)

/-- A request that fills a first-level cache has missed there. -/
theorem fills_top (h : p.Fits r (.fills i)) (hi : i ∈ p.topology.tops) :
    r.kind.isDemand = true ∧ p.topology.entryFor? r.kind = some i ∧ r.isMiss = true := by
  rcases h with ⟨hdemand, hmiss, htop | hbase⟩ | ⟨-, hbase⟩
  · exact ⟨hdemand, htop, hmiss⟩
  · exact absurd hi (Topology.base_not_mem_tops hbase)
  · exact absurd hi (Topology.base_not_mem_tops hbase)

/-- A demand request that fills the base has missed. -/
theorem fills_isMiss (h : p.Fits r (.fills i)) (hr : r.kind.isDemand = true) :
    r.isMiss = true := by
  rcases h with ⟨-, hmiss, -⟩ | ⟨hkind, -⟩
  · exact hmiss
  · exact absurd hkind (Request.ne_writeBack hr)

theorem sends_isMiss (h : p.Fits r (.sends i)) (hr : r.kind.isDemand = true) :
    r.isMiss = true := by
  rcases h with ⟨-, hmiss, -⟩ | ⟨hkind, -⟩
  · exact hmiss
  · exact absurd hkind (Request.ne_writeBack hr)

theorem lookups_base (h : p.Fits r (.lookups i)) (hi : p.topology.base? = some i) :
    r.isMiss = true := by
  obtain ⟨-, htop | hbase⟩ := h
  · exact absurd (Topology.mem_tops_of_entryFor? htop.1) (Topology.base_not_mem_tops hi)
  · exact hbase.2

/-- Write-backs are made where there are caches. -/
theorem last?_ne_none {s : Spot} (h : p.Fits r s) (hr : r.kind = .writeBack) :
    p.topology.last? ≠ none := by
  have hdemand := Request.not_isDemand hr
  have hdirties : ∀ {i}, p.Dirties i → p.topology.last? ≠ none := by
    intro i hi
    rcases Topology.lt_size_iff.1 hi.lt_size with htop | hbase
    · exact Topology.last?_ne_none_of_mem_tops htop
    · exact Topology.last?_ne_none_of_base? hbase
  cases s with
  | lookups i => exact absurd h.1 hdemand
  | fills i =>
    rcases h with hpass | ⟨-, hbase⟩
    · exact absurd hpass.isDemand hdemand
    · exact Topology.last?_ne_none_of_base? hbase
  | sends i =>
    rcases h with hpass | ⟨-, hi⟩
    · exact absurd hpass.isDemand hdemand
    · exact hdirties hi
  | writeBacks i => exact hdirties h.2
  | memory =>
    rcases h with hpass | ⟨-, hlast⟩
    · exact absurd hpass.1 hdemand
    · exact hlast
  | finished => exact absurd h hdemand

/-- A write-back is on its way to some component. -/
theorem exists_receiver {s : Spot} (h : p.Fits r s) (hr : r.kind = .writeBack) :
    ∃ site, p.receiver? s = some site := by
  have hdemand := Request.not_isDemand hr
  cases s with
  | lookups i => exact absurd h.1 hdemand
  | finished => exact absurd h hdemand
  | _ => exact ⟨_, rfl⟩

/-- A request fits where its route takes it. -/
theorem route {o : Overview} {s s' : Spot} (h : p.Fits r s) (hroute : Route p o r s s') :
    p.Fits r s' := by
  cases hroute with
  | release i => exact .inr h
  | leave hbelow =>
    rename_i i
    by_cases hkind : r.kind = .writeBack
    · exact .inr ⟨hkind, h.last?_ne_none hkind⟩
    · rcases h with hpass | ⟨hwriteBack, -⟩
      · have hlast : p.topology.last? ≠ none := by
          rcases hpass.on_way with htop | hbase
          · exact Topology.last?_ne_none_of_mem_tops (Topology.mem_tops_of_entryFor? htop)
          · exact Topology.last?_ne_none_of_base? hbase
        exact .inl ⟨hpass.isDemand, iff_of_true hpass.isMiss hlast⟩
      · exact absurd hwriteBack hkind
  | handFill hbelow hr => exact .inr ⟨hr, (Topology.base?_of_below hbelow).1⟩
  | handDown hbelow hr =>
    exact ⟨hr, .inr ⟨(Topology.base?_of_below hbelow).1, h.sends_isMiss hr⟩⟩
  | missBelow hb _ => exact .inl ⟨h.1, h.lookups_base hb, .inr hb⟩
  | answer hb hs hr hi hline =>
    refine .inl ⟨hr, ?_, .inl hi⟩
    rcases hs with rfl | rfl
    · exact h.lookups_base hb
    · exact h.fills_isMiss hr
  | read hi hr =>
    have hlast : p.topology.last? ≠ none := by
      rw [hi]
      exact Option.some_ne_none _
    rcases h with ⟨-, hmiss⟩ | ⟨hkind, -⟩
    · refine .inl ⟨hr, hmiss.2 hlast, ?_⟩
      rcases Topology.mem_tops_or_base?_of_last? hi with htop | hbase
      · exact .inl (Topology.entryFor?_of_last? hi htop.2 r.kind)
      · exact .inr hbase
    · exact absurd hkind (Request.ne_writeBack hr)
  | finish hlast hr => exact hr

theorem receiver?_route {o : Overview} {s s' : Spot} (h : p.Fits r s)
    (hroute : Route p o r s s') (hr : r.kind = .writeBack) :
    p.receiver? s' = p.receiver? s := by
  have hdemand := Request.not_isDemand hr
  cases hroute with
  | release i => rfl
  | leave hbelow => simp only [receiver?, hbelow, Below.site]
  | handFill hbelow _ => simp only [receiver?, hbelow, Below.site]
  | handDown _ hr' => exact absurd hr' hdemand
  | missBelow => exact absurd h.1 hdemand
  | answer _ _ hr' _ _ => exact absurd hr' hdemand
  | read _ hr' => exact absurd hr' hdemand
  | finish _ hr' => exact absurd hr' hdemand

end Plan.Fits

namespace Orderly

variable {p : Plan} {o o' : Overview} (h : Orderly p o)

include h

/-- No two demand requests in traffic have one number. -/
theorem id_ne {x y : Spot × Request} {rest : Multiset (Spot × Request)}
    (ht : o.traffic = x ::ₘ rest) (hx : x.2.kind.isDemand = true) (hy : y ∈ rest)
    (hy' : y.2.kind.isDemand = true) : y.2.id ≠ x.2.id := by
  have hids := h.ids
  rw [ht, demandIds_cons hx] at hids
  have hnodup : (x.2.id ::ₘ demandIds rest).Nodup := by
    rw [hids]
    exact Multiset.coe_nodup.2 h.nodup
  have hnotin := (Multiset.nodup_cons.1 hnodup).1
  intro heq
  exact hnotin (mem_demandIds.2 ⟨y.1, y.2, hy, hy', heq⟩)

/-- Every demand request in traffic is outstanding. -/
theorem exists_entry {x : Spot × Request} (hx : x ∈ o.traffic)
    (hdemand : x.2.kind.isDemand = true) :
    ∃ e ∈ o.outstanding.entries, e.id = x.2.id ∧ p.Describes e x.2 := by
  have hmem : x.2.id ∈ demandIds o.traffic := mem_demandIds.2 ⟨x.1, x.2, hx, hdemand, rfl⟩
  rw [h.ids, Multiset.mem_coe] at hmem
  obtain ⟨e, he, hid⟩ := Outstanding.mem_ids.1 hmem
  exact ⟨e, he, hid, h.describes x hx hdemand e he hid⟩

theorem id_lt {x : Spot × Request} (hx : x ∈ o.traffic) (hdemand : x.2.kind.isDemand = true) :
    x.2.id < o.nextId := by
  obtain ⟨e, he, hid, -⟩ := h.exists_entry hx hdemand
  exact h.fresh _ (Outstanding.mem_ids.2 ⟨e, he, hid⟩)

/-- Every outstanding access has its request in traffic. -/
theorem exists_request {e : OutstandingAccess} (he : e ∈ o.outstanding.entries) :
    ∃ x ∈ o.traffic, x.2.kind.isDemand = true ∧ e.id = x.2.id ∧ p.Describes e x.2 := by
  have hmem : e.id ∈ demandIds o.traffic := by
    rw [h.ids, Multiset.mem_coe]
    exact Outstanding.mem_ids.2 ⟨e, he, rfl⟩
  obtain ⟨s, r, hx, hdemand, hid⟩ := mem_demandIds.1 hmem
  exact ⟨(s, r), hx, hdemand, hid.symm, h.describes _ hx hdemand e he hid.symm⟩

/-- A write-back is expected where it is on its way to. -/
theorem mem_expected {s : Spot} {r : Request} {site : Site} (hr : (s, r) ∈ o.traffic)
    (hkind : r.kind = .writeBack) (hs : p.receiver? s = some site) : r.id ∈ o.expected site := by
  rw [h.expected]
  exact mem_writeBackIds.2 ⟨s, r, hr, ⟨hkind, hs⟩, rfl⟩

/-- A demand request is serviced as its entry says. -/
theorem exists_kindOf {x : Spot × Request} (hx : x ∈ o.traffic)
    (hdemand : x.2.kind.isDemand = true) :
    ∃ e ∈ o.outstanding.entries, e.id = x.2.id ∧ p.Describes e x.2 ∧ o.kindOf x.2 = e.kind := by
  obtain ⟨e, he, hid, hdescribes⟩ := h.exists_entry hx hdemand
  refine ⟨e, he, hid, hdescribes, ?_⟩
  have hkind := (Outstanding.kindOf?_eq_some_iff h.nodup).2 ⟨e, he, hid, rfl⟩
  rw [Overview.kindOf, hkind, Option.getD_some]

/-- No request on an instruction cache's own side is serviced as a write. -/
theorem not_isWrite_of_side {x : Spot × Request} {i : Nat} (hx : x ∈ o.traffic)
    (hdemand : x.2.kind.isDemand = true) (hi : p.topology.entryFor? x.2.kind = some i)
    (hside : p.topology.side i = some .instruction) :
    x.2.kind.isWrite = false ∧ (o.kindOf x.2).isWrite = false := by
  obtain ⟨e, -, -, hdescribes, hkind⟩ := h.exists_kindOf hx hdemand
  have hr := Topology.instFetch_of_side hside hi
  have he := Topology.instFetch_of_side hside (hdescribes.entry.trans hi)
  rw [hkind, hr, he]
  exact ⟨rfl, rfl⟩

/-- Two outstanding misses of one first-level cache wait for different lines. -/
theorem line_ne {x y : Spot × Request} {rest : Multiset (Spot × Request)} {i : Nat}
    (ht : o.traffic = x ::ₘ rest) (hx : x.2.kind.isDemand = true) (hxmiss : x.2.isMiss = true)
    (hxi : p.topology.entryFor? x.2.kind = some i) (hy : y ∈ rest)
    (hydemand : y.2.kind.isDemand = true) (hymiss : y.2.isMiss = true)
    (hyi : p.topology.entryFor? y.2.kind = some i) :
    p.line i y.2.addr ≠ p.line i x.2.addr := by
  intro heq
  have hxmem : x ∈ o.traffic := ht ▸ Multiset.mem_cons_self x rest
  have hymem : y ∈ o.traffic := ht ▸ Multiset.mem_cons_of_mem hy
  obtain ⟨e, he, hid, hd⟩ := h.exists_entry hxmem hx
  obtain ⟨e', he', hid', hd'⟩ := h.exists_entry hymem hydemand
  have hmark := hd.mark
  have hmark' := hd'.mark
  rw [if_pos hxmiss, hxi, Option.map_some] at hmark
  rw [if_pos hymiss, hyi, Option.map_some, heq] at hmark'
  have := h.marks e he e' he' _ hmark hmark'
  exact h.id_ne ht hx hy hydemand (hid'.symm.trans (this.symm.trans hid))

end Orderly

end CacheHierarchy
