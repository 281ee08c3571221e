import CacheHierarchy.Proofs.Overview.Preservation

/-!
# Request numbers

A request number is given out once. So the accesses that are not done and those that are have
numbers of their own, all of them below the next one to be given out. So have the requests in
traffic, write-backs as well.
-/

namespace CacheHierarchy

def Overview.accessIds (o : Overview) : List Nat :=
  o.outstanding.ids ++ o.completions.map Completion.id

structure Accounted (o : Overview) : Prop where
  nodup : o.accessIds.Nodup
  lt : ∀ id ∈ o.accessIds, id < o.nextId

namespace Accounted

variable {p : Plan} {o o' : Overview}

theorem start : Accounted .start := ⟨List.nodup_nil, fun _ hid => absurd hid List.not_mem_nil⟩

theorem of_perm (h : Accounted o) (hperm : o'.accessIds.Perm o.accessIds)
    (hnext : o.nextId ≤ o'.nextId) : Accounted o' :=
  ⟨hperm.nodup_iff.2 h.nodup, fun id hid => (h.lt id (hperm.mem_iff.1 hid)).trans_le hnext⟩

theorem issue (h : Accounted o) {addr : Nat} {kind : AccessKind}
    (hids : o'.outstanding = ⟨o.outstanding.entries ++ [{ id := o.nextId, addr, kind }]⟩)
    (hcompletions : o'.completions = o.completions) (hnext : o'.nextId = o.nextId + 1) :
    Accounted o' := by
  have hperm : o'.accessIds.Perm (o.nextId :: o.accessIds) := by
    rw [Overview.accessIds, hids, hcompletions, Outstanding.ids, List.map_append, List.map_cons,
      List.map_nil, List.append_assoc]
    exact List.perm_middle
  have hnew : o.nextId ∉ o.accessIds := fun hmem => Nat.lt_irrefl _ (h.lt _ hmem)
  constructor
  · rw [hperm.nodup_iff]
    exact List.nodup_cons.2 ⟨hnew, h.nodup⟩
  · intro id hid
    rw [hnext]
    rcases List.mem_cons.1 (hperm.mem_iff.1 hid) with rfl | hid
    · exact Nat.lt_succ_self _
    · exact Nat.lt_succ_of_lt (h.lt id hid)

theorem step (h : Accounted o) (horderly : Orderly p o) (hstep : Step p o o') : Accounted o' := by
  cases hstep with
  | issue readyAt haddr hkind => exact h.issue rfl rfl rfl
  | pay => exact h.of_perm (.refl _) (Nat.le_succ _)
  | merge =>
    refine h.of_perm ?_ le_rfl
    rw [Overview.accessIds, Outstanding.ids_join]
    exact .refl _
  | miss =>
    refine h.of_perm ?_ le_rfl
    rw [Overview.accessIds, Outstanding.ids_await]
    exact .refl _
  | retire ht he =>
    obtain ⟨-, -, hids, -⟩ := Outstanding.remove?_eq_some horderly.nodup he
    refine h.of_perm ?_ le_rfl
    rw [Overview.accessIds, Overview.accessIds, List.map_append, ← List.append_assoc]
    exact (List.perm_append_singleton _ _).trans (hids.symm.append_right _)
  | _ => exact ⟨h.nodup, h.lt⟩

end Accounted

theorem Reach.accounted {p : Plan} {o : Overview} (h : Reach p o) : Accounted o :=
  h.invariant Accounted .start fun _ _ hreach ho hstep => ho.step hreach.orderly hstep

theorem Reach.id_ne_of_completion {p : Plan} {o : Overview} (h : Reach p o) {x : Spot × Request}
    (hx : x ∈ o.traffic) (hdemand : x.2.kind.isDemand = true) {d : Completion}
    (hd : d ∈ o.completions) : d.id ≠ x.2.id := by
  obtain ⟨e, he, hid, -⟩ := h.orderly.exists_entry hx hdemand
  have hdisjoint := (List.nodup_append.1 h.accounted.nodup).2.2
  rw [← hid]
  exact fun heq => hdisjoint _ (Outstanding.mem_ids.2 ⟨e, he, rfl⟩) _ (List.mem_map_of_mem hd)
    heq.symm

def requestIds (traffic : Multiset (Spot × Request)) : Multiset Nat := traffic.map fun x => x.2.id

structure Numbered (o : Overview) : Prop where
  nodup : (requestIds o.traffic).Nodup
  lt : ∀ id ∈ requestIds o.traffic, id < o.nextId

namespace Numbered

variable {p : Plan} {o o' : Overview}

theorem of_le (h : Numbered o) (hle : requestIds o'.traffic ≤ requestIds o.traffic)
    (hnext : o.nextId ≤ o'.nextId) : Numbered o' :=
  ⟨Multiset.nodup_of_le hle h.nodup,
    fun id hid => (h.lt id (Multiset.mem_of_le hle hid)).trans_le hnext⟩

theorem cons (h : Numbered o) {s : Spot} {r : Request} (ht : o'.traffic = (s, r) ::ₘ o.traffic)
    (hid : r.id = o.nextId) (hnext : o'.nextId = o.nextId + 1) : Numbered o' := by
  have hids : requestIds o'.traffic = o.nextId ::ₘ requestIds o.traffic := by
    rw [ht, requestIds, Multiset.map_cons, hid]
    rfl
  constructor
  · rw [hids]
    exact Multiset.nodup_cons.2 ⟨fun hmem => Nat.lt_irrefl _ (h.lt _ hmem), h.nodup⟩
  · intro id hmem
    rw [hnext]
    rw [hids] at hmem
    rcases Multiset.mem_cons.1 hmem with rfl | hmem
    · exact Nat.lt_succ_self _
    · exact Nat.lt_succ_of_lt (h.lt id hmem)

theorem move (h : Numbered o) {s s' : Spot} {r r' : Request} {rest : Multiset (Spot × Request)}
    (ht : o.traffic = (s, r) ::ₘ rest) (ht' : o'.traffic = (s', r') ::ₘ rest) (hid : r'.id = r.id)
    (hnext : o.nextId = o'.nextId) : Numbered o' := by
  refine h.of_le (le_of_eq ?_) hnext.le
  rw [ht, ht', requestIds, requestIds, Multiset.map_cons, Multiset.map_cons, hid]

theorem leave (h : Numbered o) {x : Spot × Request} (ht : o.traffic = x ::ₘ o'.traffic)
    (hnext : o.nextId = o'.nextId) : Numbered o' := by
  refine h.of_le ?_ hnext.le
  rw [ht]
  exact Multiset.map_le_map (Multiset.le_cons_self _ _)

theorem step (h : Numbered o) (hstep : Step p o o') : Numbered o' := by
  cases hstep with
  | issue | pay => exact h.cons rfl rfl rfl
  | move ht | arrive ht | lookUp ht | hit ht | merge ht | miss ht | install ht | bypass ht
  | place ht | divert ht =>
    exact h.move ht rfl rfl rfl
  | absorb ht | memoryAbsorb ht | retire ht => exact h.leave ht rfl
  | overtake =>
    refine h.of_le (le_of_eq ?_) le_rfl
    rw [requestIds, requestIds, Multiset.map_map]
    refine Multiset.map_congr rfl fun x _ => ?_
    rw [Function.comp_apply, overtake_snd]
  | _ => exact ⟨h.nodup, h.lt⟩

end Numbered

theorem Reach.numbered {p : Plan} {o : Overview} (h : Reach p o) : Numbered o :=
  h.invariant Numbered ⟨Multiset.nodup_zero, fun _ hid => absurd hid (Multiset.notMem_zero _)⟩
    fun _ _ _ ho hstep => ho.step hstep

end CacheHierarchy
