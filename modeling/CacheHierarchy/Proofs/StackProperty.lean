import CacheHierarchy.Proofs.Tags.Stacks

/-!
# Caches of more ways hold more

Two tag arrays with the same sets and lines, one of them with more ways, serve the same demand
accesses: each is looked up and, where it misses, filled. In every set the tags of the smaller
array, most recently used first, are the first ones of the larger array (the stack property of
replacement by least recent use). So what hits in the smaller one hits in the larger one.
-/

namespace CacheHierarchy

namespace Stack

/-- The tags of a set with this many ways after an access under a tag, most recently used first. -/
def admitTag (assoc : Nat) (tags : List Nat) (tag : Nat) : List Nat :=
  tag ::
    if tag ∈ tags then tags.filter (· != tag)
    else if tags.length < assoc then tags else tags.dropLast

theorem holds_iff {s : Stack} {tag : Nat} : holds s tag = true ↔ tag ∈ s.map Line.tag := by
  simp [holds, dirty?, List.find?_isSome]

theorem tags_use {s : Stack} {tag : Nat} (h : holds s tag = true) (isWrite : Bool) (assoc : Nat) :
    (use isWrite s tag).map Line.tag = admitTag assoc (s.map Line.tag) tag := by
  rw [admitTag, if_pos (holds_iff.1 h), List.filter_map]
  obtain ⟨dirty, hdirty⟩ := Option.isSome_iff_exists.1 h
  rw [use, hdirty]
  rfl

theorem tags_place {s : Stack} {tag : Nat} (h : holds s tag = false) (dirty : Bool) (assoc : Nat) :
    (place assoc dirty s tag).map Line.tag = admitTag assoc (s.map Line.tag) tag := by
  have hnot : tag ∉ s.map Line.tag := fun hmem => by simp [holds_iff.2 hmem] at h
  rw [admitTag, if_neg hnot, place, List.length_map, List.map_cons, apply_ite (List.map Line.tag),
    List.map_dropLast]

theorem dropLast_prefix_dropLast {l l' : List Nat} (h : l <+: l') : l.dropLast <+: l'.dropLast := by
  obtain ⟨rest, rfl⟩ := h
  rcases eq_or_ne rest [] with rfl | hne
  · rw [List.append_nil]
  · rw [List.dropLast_append_of_ne_nil hne]
    exact (List.dropLast_prefix l).trans (List.prefix_append _ _)

theorem prefix_dropLast_of_length_lt {l l' : List Nat} (h : l <+: l') (hlt : l.length < l'.length) :
    l <+: l'.dropLast := by
  obtain ⟨rest, rfl⟩ := h
  have hne : rest ≠ [] := fun hnil => by simp [hnil] at hlt
  rw [List.dropLast_append_of_ne_nil hne]
  exact List.prefix_append _ _

theorem admitTag_prefix_admitTag {assoc assoc' : Nat} (hassoc : assoc ≤ assoc') {l l' : List Nat}
    (h : l <+: l') (tag : Nat) : admitTag assoc l tag <+: admitTag assoc' l' tag := by
  rw [admitTag, admitTag, List.prefix_cons_inj]
  by_cases hmem : tag ∈ l
  · rw [if_pos hmem, if_pos (h.subset hmem)]
    exact h.filter _
  rw [if_neg hmem]
  by_cases hmem' : tag ∈ l'
  · -- a hit beyond the depth of the smaller set: nothing of it is taken out there
    have hsame : l.filter (· != tag) = l :=
      List.filter_eq_self.2 fun other hother => bne_iff_ne.2 fun heq => hmem (heq ▸ hother)
    have hrest : l <+: l'.filter (· != tag) := hsame ▸ h.filter _
    rw [if_pos hmem']
    split
    · exact hrest
    · exact (List.dropLast_prefix l).trans hrest
  rw [if_neg hmem']
  by_cases hroom : l.length < assoc
  · rw [if_pos hroom]
    split
    · exact h
    · rename_i hfull
      exact prefix_dropLast_of_length_lt h (by omega)
  · rw [if_neg hroom]
    split
    · exact (List.dropLast_prefix l).trans h
    · exact dropLast_prefix_dropLast h

end Stack

namespace TagArray

def serve (t : TagArray) (addr : Nat) (kind : AccessKind) : Except Fault (Bool × TagArray) := do
  let (hit, t) ← t.lookup addr kind
  if hit then return (true, t)
  let (_, t) ← t.fill addr kind
  return (false, t)

/-- Demand accesses one after the other. Says which of them hit. -/
def serveAll (t : TagArray) : List (Nat × AccessKind) → Except Fault (List Bool × TagArray)
  | [] => .ok ([], t)
  | (addr, kind) :: rest => do
    let (hit, t) ← t.serve addr kind
    let (hits, t) ← t.serveAll rest
    return (hit :: hits, t)

def tags (t : TagArray) (k : Nat) : List Nat := (t.row k).stack.map Line.tag

theorem tags_empty (name : String) (g : Geometry) (k : Nat) : (empty name g).tags k = [] := by
  rw [tags, stack_row_empty, List.map_nil]

structure Serves (t t' : TagArray) (addr : Nat) (hit : Bool) : Prop where
  sound : t'.Sound
  geometry : t'.geometry = t.geometry
  hit_iff : hit = true ↔ t.geometry.lineOf addr / t.geometry.numSets ∈
    t.tags (t.geometry.lineOf addr % t.geometry.numSets)
  tags : t'.tags = Function.update t.tags (t.geometry.lineOf addr % t.geometry.numSets)
    (Stack.admitTag t.geometry.assoc (t.tags (t.geometry.lineOf addr % t.geometry.numSets))
      (t.geometry.lineOf addr / t.geometry.numSets))
  misses : t'.counters.misses = if hit then t.counters.misses else Word.bump t.counters.misses

variable {t t' : TagArray} {addr : Nat} {kind : AccessKind}

theorem tags_of_turns {f : LineSet → Nat → LineSet} {counters : Counters} {tags : List Nat}
    (h : t.Turns t' (t.geometry.alter t.row (t.geometry.lineOf addr) f) counters)
    (hf : (f (t.rowOf addr) (t.geometry.lineOf addr / t.geometry.numSets)).stack.map Line.tag =
      tags) :
    t'.tags = Function.update t.tags (t.geometry.lineOf addr % t.geometry.numSets) tags := by
  funext k
  rw [TagArray.tags, h.rows]
  by_cases hk : k = t.geometry.lineOf addr % t.geometry.numSets
  · subst hk
    rw [Geometry.alter, Function.update_self, Function.update_self]
    exact hf
  · rw [Geometry.alter, Function.update_of_ne hk, Function.update_of_ne hk]
    rfl

/-- A demand access to a sound array is served without a fault. -/
theorem Sound.serve_ok (ht : t.Sound) (haddr : addr < wordLimit) (hkind : kind.isDemand = true) :
    ∃ hit t', t.serve addr kind = .ok (hit, t') ∧ t.Serves t' addr hit := by
  have hs : (t.rowOf addr).Sound t.geometry.assoc := by
    rw [rowOf_eq]
    exact ht.sets _
  have hstack := hs.holds_stack (t.geometry.lineOf addr / t.geometry.numSets)
  rw [serve, t.lookup_demand addr hkind]
  cases hline : t.lines (t.geometry.lineOf addr) with
  | some d =>
    obtain ⟨t', hlookup, hbecomes⟩ := ht.lookupDemand_hit kind hline
    obtain ⟨hheld, hturns⟩ := lookupDemand_inv hlookup
    replace hheld := hstack.trans hheld.symm
    refine ⟨true, t', by rw [hlookup]; rfl, hbecomes.sound, hbecomes.geometry, ?_, ?_, ?_⟩
    · exact iff_of_true rfl (Stack.holds_iff.1 hheld)
    · refine tags_of_turns hturns ?_
      rw [hs.stack_use]
      exact Stack.tags_use hheld _ _
    · rw [hbecomes.counters]
      rfl
  | none =>
    have hlookup := ht.lookupDemand_miss kind hline
    obtain ⟨hheld, -⟩ := lookupDemand_inv hlookup
    replace hheld := hstack.trans hheld.symm
    -- the look-up has only counted, so the fill meets the same lines
    have ht' := (ht.becomes_counters (t.counters.countLookup false kind.isWrite)).sound
    obtain ⟨t', lines, victim, hinstall, hbecomes, -, -⟩ := ht'.install_fresh kind haddr hline
    obtain ⟨-, hturns, -⟩ := install_inv hinstall
    have hplaced := (congrArg (List.map Line.tag) (hs.stack_place t.geometry.assoc_pos _ _)).trans
      (Stack.tags_place hheld kind.isWrite t.geometry.assoc)
    have htags := tags_of_turns hturns hplaced
    refine ⟨false, t', ?_, hbecomes.sound, hbecomes.geometry, ?_, ?_, ?_⟩
    · rw [hlookup]
      change (TagArray.fill _ addr kind >>= _) = _
      rw [fill_demand _ _ hkind, hinstall]
      rfl
    · exact iff_of_false Bool.false_ne_true fun hmem =>
        Bool.false_ne_true (hheld.symm.trans (Stack.holds_iff.2 hmem))
    · exact htags
    · rw [hbecomes.counters]
      split <;> rfl

/-- The tags of the one array are the first ones of the other, whose ways are at least as many, in
every set. It has not missed less often. -/
structure Nested (s t : TagArray) : Prop where
  left : s.Sound
  right : t.Sound
  numSets : s.geometry.numSets = t.geometry.numSets
  lineSize : s.geometry.lineSize = t.geometry.lineSize
  assoc : s.geometry.assoc ≤ t.geometry.assoc
  tags : ∀ k, s.tags k <+: t.tags k
  misses : t.counters.misses ≤ s.counters.misses
  misses_lt : s.counters.misses < wordLimit

variable {s s' : TagArray}

/-- One access keeps two arrays nested, and does not hit in the smaller one alone. -/
theorem Nested.serve (h : s.Nested t) {hit hit' : Bool} (hs : s.Serves s' addr hit)
    (ht : t.Serves t' addr hit') : s'.Nested t' ∧ (hit = true → hit' = true) := by
  have hline : s.geometry.lineOf addr = t.geometry.lineOf addr := by
    rw [Geometry.lineOf, Geometry.lineOf, h.lineSize]
  have hhit : hit = true → hit' = true := by
    rw [hs.hit_iff, ht.hit_iff, hline, h.numSets]
    exact fun hmem => (h.tags _).subset hmem
  refine ⟨⟨hs.sound, ht.sound, ?_, ?_, ?_, fun k => ?_, ?_, ?_⟩, hhit⟩
  · rw [hs.geometry, ht.geometry, h.numSets]
  · rw [hs.geometry, ht.geometry, h.lineSize]
  · rw [hs.geometry, ht.geometry]
    exact h.assoc
  · rw [hs.tags, ht.tags, hline, h.numSets]
    by_cases hk : k = t.geometry.lineOf addr % t.geometry.numSets
    · subst hk
      rw [Function.update_self, Function.update_self]
      exact Stack.admitTag_prefix_admitTag h.assoc (h.tags _) _
    · rw [Function.update_of_ne hk, Function.update_of_ne hk]
      exact h.tags k
  · have hmisses := h.misses
    have hlt := h.misses_lt
    rw [hs.misses, ht.misses]
    cases hit with
    | true =>
      rw [if_pos rfl, if_pos (hhit rfl)]
      exact hmisses
    | false =>
      rw [if_neg Bool.false_ne_true, Word.bump, Word.bump, Word.addCapped, Word.addCapped]
      split <;> omega
  · have hlt := h.misses_lt
    rw [hs.misses, Word.bump, Word.addCapped]
    split <;> omega

theorem Nested.serveAll (h : s.Nested t) (accesses : List (Nat × AccessKind))
    (haccesses : ∀ a ∈ accesses, a.1 < wordLimit ∧ a.2.isDemand = true) :
    ∃ hits s' hits' t', s.serveAll accesses = .ok (hits, s') ∧
      t.serveAll accesses = .ok (hits', t') ∧ s'.Nested t' ∧
      List.Forall₂ (fun hit hit' => hit = true → hit' = true) hits hits' := by
  induction accesses generalizing s t with
  | nil => exact ⟨[], s, [], t, rfl, rfl, h, .nil⟩
  | cons a rest ih =>
    obtain ⟨⟨haddr, hkind⟩, hrest⟩ := List.forall_mem_cons.1 haccesses
    obtain ⟨hit, s', hserve, hs⟩ := h.left.serve_ok haddr hkind
    obtain ⟨hit', t', hserve', ht⟩ := h.right.serve_ok haddr hkind
    obtain ⟨hnested, hhit⟩ := h.serve hs ht
    obtain ⟨hits, s'', hits', t'', hall, hall', hnested', hhits⟩ := ih hnested hrest
    refine ⟨hit :: hits, s'', hit' :: hits', t'', ?_, ?_, hnested', .cons hhit hhits⟩
    · rw [TagArray.serveAll, hserve]
      change (s'.serveAll rest >>= _) = _
      rw [hall]
      rfl
    · rw [TagArray.serveAll, hserve']
      change (t'.serveAll rest >>= _) = _
      rw [hall']
      rfl

/-- Two empty arrays with the same sets and lines serve the same demand accesses without a fault.
Where one has at most as many ways as the other, its tags in every set, most recently used first,
are the first ones of the other after any number of accesses; what hits in it hits in the other
one, and the other one has not missed more often. -/
theorem serveAll_nested (name name' : String) {g g' : Geometry} (hsets : g.numSets = g'.numSets)
    (hlines : g.lineSize = g'.lineSize) (hassoc : g.assoc ≤ g'.assoc)
    (hspan : g.numSets * g.lineSize < wordLimit) (accesses : List (Nat × AccessKind))
    (haccesses : ∀ a ∈ accesses, a.1 < wordLimit ∧ a.2.isDemand = true) :
    ∃ hits s hits' t, (empty name g).serveAll accesses = .ok (hits, s) ∧
      (empty name' g').serveAll accesses = .ok (hits', t) ∧
      (∀ k, (s.row k).stack.map Line.tag <+: (t.row k).stack.map Line.tag) ∧
      List.Forall₂ (fun hit hit' => hit = true → hit' = true) hits hits' ∧
      t.counters.misses ≤ s.counters.misses := by
  have hnested : (empty name g).Nested (empty name' g') :=
    { left := empty_sound hspan
      right := empty_sound (by rwa [← hsets, ← hlines])
      numSets := hsets
      lineSize := hlines
      assoc := hassoc
      tags k := by rw [tags_empty, tags_empty]
      misses := Nat.le_refl 0
      misses_lt := Nat.zero_lt_succ _ }
  obtain ⟨hits, s, hits', t, hs, ht, hnested', hhits⟩ := hnested.serveAll accesses haccesses
  exact ⟨hits, s, hits', t, hs, ht, hnested'.tags, hhits, hnested'.misses⟩

/-- One way against two, and the line least recently used asked for again: the second way turns the
last miss into a hit. -/
theorem serveAll_nested_twoWay :
    let g : Geometry := ⟨1, 1, 64, by decide, by decide, by decide⟩
    let g' : Geometry := ⟨1, 2, 64, by decide, by decide, by decide⟩
    let accesses : List (Nat × AccessKind) := [(0, .read), (64, .write), (0, .instFetch)]
    (∃ hits s hits' t, (empty "L1D" g).serveAll accesses = .ok (hits, s) ∧
      (empty "L1D" g').serveAll accesses = .ok (hits', t) ∧
      (∀ k, (s.row k).stack.map Line.tag <+: (t.row k).stack.map Line.tag) ∧
      List.Forall₂ (fun hit hit' => hit = true → hit' = true) hits hits' ∧
      t.counters.misses ≤ s.counters.misses) ∧
    ((empty "L1D" g).serveAll accesses).toOption.map
        (fun x => (x.1, (x.2.row 0).stack.map Line.tag, x.2.counters.misses)) =
      some ([false, false, false], [0], 3) ∧
    ((empty "L1D" g').serveAll accesses).toOption.map
        (fun x => (x.1, (x.2.row 0).stack.map Line.tag, x.2.counters.misses)) =
      some ([false, false, true], [0, 1], 2) := by
  intro g g' accesses
  have hsets : g.numSets = g'.numSets := rfl
  have hlines : g.lineSize = g'.lineSize := rfl
  exact ⟨serveAll_nested "L1D" "L1D" hsets hlines (by decide) (by decide) accesses (by decide),
    by decide +kernel, by decide +kernel⟩

end TagArray

end CacheHierarchy
