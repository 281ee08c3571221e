import CacheHierarchy.Proofs.Execution.Actions

/-!
# Sending requests down

The release of last cycle's write-backs and the send stage hand requests over as they are.
-/

namespace CacheHierarchy.Machine

variable {p : Plan} {x : Context} {m : Machine} {i : Nat} {r : Request}

/-- What leaves a send queue is handed to the level below. -/
theorem sendOne_ends (hi : i < p.topology.size) (h : Tracks p (x.hold (.sends i) r) m) :
    Ends (fun _ => Tracks p x) (Fails p) (sendOne i r m) := by
  obtain ⟨c, hc, hsound⟩ := h.sound.exists_cache hi
  have hadmits := h.reach.orderly.admits (.sends i, r) (by
    rw [Tracks.traffic_hold]
    exact Multiset.mem_cons_self _ _)
  have hkind : (r.kind.isDemand || r.kind.isWriteBack) = true := by
    rcases hadmits.fits with hpass | ⟨hkind, -⟩
    · rw [hpass.isDemand, Bool.true_or]
    · rw [hkind]
      rfl
  have hnoted := h.note (.sentDown i r c.cycle) rfl rfl
  have hbelow := hsound.below
  refine Ends.bind (cacheAt_ends hc ?_)
  dsimp only
  rw [if_pos hkind]
  refine Ends.bind (record_ends ?_)
  cases htarget : p.topology.below i with
  | memory =>
    rw [htarget] at hbelow
    rw [hbelow]
    exact sendToMemory_ends fun readyAt => hnoted.sendToMemory (.leave htarget) readyAt
  | cache b =>
    rw [htarget] at hbelow
    rw [hbelow]
    obtain ⟨hb, hne⟩ := Topology.base?_of_below htarget
    obtain ⟨d, hd, hdsound⟩ := hnoted.sound.exists_cache (Topology.lt_size_of_base? hb)
    have hdsound' : ∀ lookups fills, Cache.Sound p b { d with lookups, fills } := fun _ _ =>
      (hdsound.congr rfl rfl rfl rfl)
    dsimp only
    split
    · rename_i hwriteBack
      refine handFill_ends hne.symm hd fun readyAt => ?_
      exact hnoted.handTo (.handFill htarget (AccessKind.isWriteBack_iff.1 hwriteBack))
        (fun _ => Spot.noConfusion) Spot.noConfusion hd (hdsound' _ _) (traffic_push_fills d)
        rfl rfl
    · rename_i hnot
      have hdemand : r.kind.isDemand = true := by
        rw [Bool.not_eq_true] at hnot
        rwa [hnot, Bool.or_false] at hkind
      refine handDown_ends hne.symm hd fun readyAt => ?_
      exact hnoted.handTo (.handDown htarget hdemand) (fun _ => Spot.noConfusion)
        Spot.noConfusion hd (hdsound' _ _) (traffic_push_lookups d) rfl rfl

/-- Write-backs that have just been made join the send queue one by one. -/
theorem reach_release (made : List Request) {o : Overview} (rest : Multiset (Spot × Request))
    (h : Reach p o)
    (ht : o.traffic = (made.map fun r => (.writeBacks i, r) : List (Spot × Request)) + rest) :
    Reach p { o with
      traffic := (made.map fun r => (.sends i, r) : List (Spot × Request)) + rest } := by
  induction made generalizing o rest with
  | nil =>
    have hsame : { o with traffic := o.traffic } = o := rfl
    rw [List.map_nil] at ht ⊢
    rw [← ht, hsame]
    exact h
  | cons r made ih =>
    rw [List.map_cons, ← Multiset.cons_coe, Multiset.cons_add] at ht
    have hmoved := h.step (.move ht (.release i) r.readyAt r.dirty r.done
      (fun _ => Spot.noConfusion) fun _ => Spot.noConfusion)
    have hrest := ih ((.sends i, r) ::ₘ rest) hmoved (by
      rw [Multiset.add_cons])
    rw [List.map_cons, ← Multiset.cons_coe, Multiset.cons_add, ← Multiset.add_cons]
    exact hrest

theorem traffic_release {c : Cache} (hc : m.caches[i]? = some c) :
    ∃ rest : Multiset (Spot × Request),
      m.traffic = (c.writeBacks.items.map fun r => (.writeBacks i, r) : List (Spot × Request)) +
        rest ∧
      (m.put i { c with sends := c.sends.append c.writeBacks.items, writeBacks := {} }).traffic =
        (c.writeBacks.items.map fun r => (.sends i, r) : List (Spot × Request)) + rest := by
  have hempty := traffic_eq_put_add hc { c with writeBacks := {} }
    (u := (c.writeBacks.items.map fun r => (.writeBacks i, r) : List (Spot × Request))) (by
      simp only [Cache.traffic, List.map_nil, Multiset.coe_nil, add_zero]
      ac_rfl)
  have hfull := traffic_put_add (caches_put_self hc { c with writeBacks := {} })
    { c with sends := c.sends.append c.writeBacks.items, writeBacks := {} }
    (u := (c.writeBacks.items.map fun r => (.sends i, r) : List (Spot × Request))) (by
      simp only [Cache.traffic, GatedQueue.items_append, List.map_append, ← Multiset.coe_add,
        List.map_nil, Multiset.coe_nil, add_zero]
      ac_rfl)
  rw [put_put] at hfull
  exact ⟨_, hempty, hfull⟩

theorem releaseStage_ends (hi : i < p.topology.size) (h : Tracks p x m) :
    Ends (fun _ => Tracks p x) (Fails p) (releaseStage i m) := by
  obtain ⟨c, hc, hsound⟩ := h.sound.exists_cache hi
  obtain ⟨rest, hmade, hsent⟩ := traffic_release hc
  refine Ends.bind (cacheAt_ends hc (setCache_ends ?_))
  have hsound' : Cache.Sound p i { c with
      sends := c.sends.append c.writeBacks.items, writeBacks := {} } :=
    (hsound.congr rfl rfl rfl rfl)
  have hreach := reach_release c.writeBacks.items (rest + x.held) h.reach (by
    rw [← add_assoc, ← hmade]
    rfl)
  refine ⟨h.sound.put hsound', ?_⟩
  rw [overview_put_queues hc _ (by rfl) (by rfl), hsent, add_assoc]
  exact hreach

end CacheHierarchy.Machine
