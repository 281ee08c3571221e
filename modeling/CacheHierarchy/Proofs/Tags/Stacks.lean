import CacheHierarchy.Proofs.Tags.Rows
import Mathlib.Data.List.Infix
import Mathlib.Data.List.Perm.Subperm

/-!
# Recency stacks

A stack lists the lines of one set, most recently used first. Replacement by least recent use is
usually described on such lists: a use moves a line to the front, and the last line of a full stack
makes room for a new one.

Each operation on a sound set is the operation of the same name on its stack. Which way holds which
line does not show.
-/

namespace CacheHierarchy

abbrev Stack := List Line

namespace Stack

def dirty? (s : Stack) (tag : Nat) : Option Bool :=
  (s.find? fun l => l.tag == tag).map Line.dirty

def holds (s : Stack) (tag : Nat) : Bool := (dirty? s tag).isSome

def remove (s : Stack) (tag : Nat) : Stack := s.filter fun l => l.tag != tag

/-- The line with this tag moves to the front, and is dirty from then on if the use is a write. -/
def use (isWrite : Bool) (s : Stack) (tag : Nat) : Stack :=
  (dirty? s tag).elim s fun dirty => { tag, dirty := dirty || isWrite } :: remove s tag

def stain (s : Stack) (tag : Nat) : Stack :=
  s.map fun l => { l with dirty := l.dirty || l.tag == tag }

def leaving? (assoc : Nat) (s : Stack) : Option Line :=
  if s.length < assoc then none else s.getLast?

/-- A line with this tag comes to the front, and the last one leaves a stack that is full. -/
def place (assoc : Nat) (dirty : Bool) (s : Stack) (tag : Nat) : Stack :=
  { tag, dirty } :: if s.length < assoc then s else s.dropLast

theorem use_of_not_holds {s : Stack} {tag : Nat} (h : holds s tag = false) (isWrite : Bool) :
    use isWrite s tag = s := by
  rw [holds, Option.isSome_eq_false_iff, Option.isNone_iff_eq_none] at h
  rw [use, h, Option.elim_none]

end Stack

namespace LineSet

namespace Sound

variable {assoc tag way : Nat} {s : LineSet} {l : Line} (hs : s.Sound assoc)

include hs

theorem mem_stack : l ∈ s.stack ↔ ∃ way, s.line? way = some l := by
  simp only [stack, List.mem_filterMap, hs.mem_recency]
  constructor
  · rintro ⟨way, -, hway⟩
    exact ⟨way, hway⟩
  · rintro ⟨way, hway⟩
    exact ⟨way, by simp [hway], hway⟩

theorem stack_eq_map : s.stack = s.recency.map fun way => (s.line? way).getD default := by
  rw [stack, List.filterMap_eq_map_iff_forall_eq_some]
  intro way hway
  obtain ⟨l, hl⟩ := Option.isSome_iff_exists.1 ((hs.mem_recency way).1 hway)
  simp [hl]

theorem find?_stack (h : s.line? way = some l) :
    (s.stack.find? fun l' => l'.tag == l.tag) = some l := by
  have hmem : l ∈ s.stack := hs.mem_stack.2 ⟨way, h⟩
  cases hfind : s.stack.find? fun l' => l'.tag == l.tag with
  | none =>
    have hnone := List.find?_eq_none.1 hfind l hmem
    simp at hnone
  | some l' =>
    have htag : l'.tag = l.tag := by simpa using List.find?_some hfind
    obtain ⟨way', hway'⟩ := hs.mem_stack.1 (List.mem_of_find?_eq_some hfind)
    obtain rfl := hs.way_unique _ _ _ _ hway' h htag
    rw [← hway', h]

theorem find?_stack_eq_none (h : s.find? tag = none) :
    (s.stack.find? fun l => l.tag == tag) = none := by
  rw [List.find?_eq_none]
  intro l hl
  obtain ⟨way, hway⟩ := hs.mem_stack.1 hl
  simpa using tag_ne_of_find?_eq_none h hway

theorem dirty?_stack (tag : Nat) : Stack.dirty? s.stack tag = s.dirty? tag := by
  cases hfind : s.find? tag with
  | none => simp [Stack.dirty?, hs.find?_stack_eq_none hfind, dirty?, hfind]
  | some way =>
    obtain ⟨d, hd⟩ := line?_of_find? hfind
    simp [Stack.dirty?, hs.find?_stack hd, dirty?, hfind, hd]

theorem holds_stack (tag : Nat) : Stack.holds s.stack tag = s.holds tag := by
  rw [Stack.holds, hs.dirty?_stack, holds, Bool.eq_iff_iff]
  simp only [Option.isSome_iff_ne_none, ne_eq, hs.find?_eq_none_iff]

theorem filterMap_erase (h : s.line? way = some l) :
    (s.recency.erase way).filterMap s.line? = Stack.remove s.stack l.tag := by
  rw [hs.nodup_recency.erase_eq_filter, List.filterMap_filter, Stack.remove, stack,
    List.filter_filterMap]
  refine List.filterMap_congr fun way' _ => ?_
  by_cases hway : way' = way
  · subst hway
    simp [h, Option.filter]
  · cases hline : s.line? way' with
    | none => simp [hway]
    | some l' =>
      have htag : (l'.tag != l.tag) = true :=
        bne_iff_ne.2 fun htag => hway (hs.way_unique _ _ _ _ hline h htag)
      simp [hway, htag, Option.filter]

theorem filterMap_erase_congr {f g : Nat → Option Line} (h : ∀ way', way' ≠ way → f way' = g way') :
    (s.recency.erase way).filterMap f = (s.recency.erase way).filterMap g :=
  List.filterMap_congr fun way' hway' => h way' (hs.nodup_recency.mem_erase_iff.1 hway').1

/-! Each operation on a set is one on its stack. -/

theorem stack_stain (tag : Nat) : (s.stain tag).stack = Stack.stain s.stack tag := by
  cases hfind : s.find? tag with
  | none =>
    have hsame : Stack.stain s.stack tag = s.stack := by
      refine (List.map_congr_left fun l hl => ?_).trans (List.map_id _)
      obtain ⟨way, hway⟩ := hs.mem_stack.1 hl
      simp [beq_false_of_ne (tag_ne_of_find?_eq_none hfind hway)]
    rw [hsame, LineSet.stain, hfind, Option.elim_none]
  | some way =>
    obtain ⟨d, hd⟩ := line?_of_find? hfind
    rw [LineSet.stain, hfind, Option.elim_some, stack, Stack.stain, stack, List.map_filterMap,
      recency_soil]
    refine List.filterMap_congr fun way' _ => ?_
    rw [line?_soil]
    by_cases hway : way = way'
    · subst hway
      simp [hd]
    · cases hline : s.line? way' with
      | none => simp [hway]
      | some l =>
        have htag : (l.tag == tag) = false :=
          beq_false_of_ne fun htag => hway (hs.way_unique _ _ _ _ hd hline htag.symm)
        simp [hway, htag]

theorem stack_remove (tag : Nat) : (s.remove tag).stack = Stack.remove s.stack tag := by
  cases hfind : s.find? tag with
  | none =>
    have hsame : Stack.remove s.stack tag = s.stack := by
      refine List.filter_eq_self.2 fun l hl => ?_
      obtain ⟨way, hway⟩ := hs.mem_stack.1 hl
      simp [tag_ne_of_find?_eq_none hfind hway]
    rw [hsame, LineSet.remove, hfind, Option.elim_none]
  | some way =>
    obtain ⟨d, hd⟩ := line?_of_find? hfind
    have hdrop : (s.drop way).stack = (s.recency.erase way).filterMap s.line? :=
      hs.filterMap_erase_congr fun way' hway => by rw [line?_drop, if_neg hway.symm]
    rw [LineSet.remove, hfind, Option.elim_some, hdrop, hs.filterMap_erase hd]

theorem stack_use (isWrite : Bool) (tag : Nat) :
    (s.use isWrite tag).stack = Stack.use isWrite s.stack tag := by
  cases hfind : s.find? tag with
  | none =>
    have hnone : s.dirty? tag = none := hs.find?_eq_none_iff.1 hfind
    rw [LineSet.use, hfind, Option.elim_none, Stack.use, hs.dirty?_stack, hnone, Option.elim_none]
  | some way =>
    obtain ⟨d, hd⟩ := line?_of_find? hfind
    have hdirty : s.dirty? tag = some d := hs.dirty?_of_line? hd
    rw [LineSet.use, hfind, Option.elim_some, Stack.use, hs.dirty?_stack, hdirty, Option.elim_some,
      ← hs.filterMap_erase hd]
    cases isWrite with
    | false =>
      have hstack : (s.touch way).stack = (way :: s.recency.erase way).filterMap s.line? := rfl
      rw [if_neg Bool.false_ne_true, hstack, List.filterMap_cons_some hd, Bool.or_false]
    | true =>
      have hfront : (s.soil way).line? way = some { tag, dirty := true } := by
        rw [line?_soil, if_pos rfl, hd]
        rfl
      have hrest : (s.recency.erase way).filterMap (s.soil way).line? =
          (s.recency.erase way).filterMap s.line? :=
        hs.filterMap_erase_congr fun way' hway => by rw [line?_soil, if_neg hway.symm]
      have hstack : ((s.soil way).touch way).stack =
          (way :: s.recency.erase way).filterMap (s.soil way).line? := rfl
      rw [if_pos rfl, hstack, List.filterMap_cons_some hfront, hrest, Bool.or_true]

theorem length_stack : s.stack.length = s.recency.length := by
  rw [hs.stack_eq_map, List.length_map]

/-- A set has room exactly if one of its ways is empty. -/
theorem length_stack_lt_iff : s.stack.length < assoc ↔ none ∈ s.ways := by
  have hsub : s.recency ⊆ List.range assoc := fun way hway => by
    obtain ⟨l, hl⟩ := Option.isSome_iff_exists.1 ((hs.mem_recency way).1 hway)
    rw [List.mem_range, ← hs.length_ways]
    exact lt_length_of_line? hl
  rw [hs.length_stack]
  constructor
  · intro hlt
    -- a way that is not in the recency list is empty
    obtain ⟨way, hway, hnot⟩ : ∃ way ∈ List.range assoc, way ∉ s.recency := by
      by_contra hall
      push Not at hall
      have hle := (List.nodup_range.subperm hall).length_le
      rw [List.length_range] at hle
      omega
    rw [List.mem_range, ← hs.length_ways] at hway
    rw [hs.mem_recency, line?, List.getElem?_eq_getElem hway] at hnot
    have hnone : s.ways[way] = none := by simpa using hnot
    exact hnone ▸ List.getElem_mem hway
  · intro hnone
    obtain ⟨way, hway, hempty⟩ := List.mem_iff_getElem.1 hnone
    have hnot : way ∉ s.recency := by
      rw [hs.mem_recency, line?, List.getElem?_eq_getElem hway, hempty]
      simp
    have hnodup : (way :: s.recency).Nodup := List.nodup_cons.2 ⟨hnot, hs.nodup_recency⟩
    have hall : way :: s.recency ⊆ List.range assoc :=
      List.cons_subset.2 ⟨List.mem_range.2 (hs.length_ways ▸ hway), hsub⟩
    have hle := (hnodup.subperm hall).length_le
    rwa [List.length_cons, List.length_range] at hle

theorem victim_spec (hassoc : 0 < assoc) :
    (s.stack.length < assoc ∧ s.line? s.victim = none ∧ s.victim ∉ s.recency) ∨
      ¬s.stack.length < assoc ∧ s.line? s.victim = s.stack.getLast? ∧
        s.recency.erase s.victim = s.recency.dropLast := by
  rw [hs.length_stack_lt_iff]
  cases hfind : s.ways.findIdx? Option.isNone with
  | some way =>
    obtain ⟨hway, hnone, -⟩ := List.findIdx?_eq_some_iff_getElem.1 hfind
    rw [Option.isNone_iff_eq_none] at hnone
    have hline : s.line? way = none := by rw [line?, List.getElem?_eq_getElem hway, hnone]; rfl
    rw [victim, hfind]
    exact .inl ⟨hnone ▸ List.getElem_mem hway, hline, by rw [hs.mem_recency, hline]; simp⟩
  | none =>
    have hfull : none ∉ s.ways := fun hmem => by
      have hnone := List.findIdx?_eq_none_iff.1 hfind _ hmem
      simp at hnone
    have hne : s.recency ≠ [] := fun hnil => by
      refine hfull (hs.length_stack_lt_iff.1 ?_)
      simpa [hs.length_stack, hnil] using hassoc
    obtain ⟨rest, last, hrecency⟩ := (List.eq_nil_or_concat' s.recency).resolve_left hne
    have hlast : s.victim = last := by simp [victim, hfind, hrecency]
    have hmem : last ∈ s.recency := by simp [hrecency]
    have hnot : last ∉ rest := fun hmem => by
      have hnodup := hs.nodup_recency
      rw [hrecency, List.nodup_append] at hnodup
      exact hnodup.2.2 _ hmem _ List.mem_cons_self rfl
    obtain ⟨l, hl⟩ := Option.isSome_iff_exists.1 ((hs.mem_recency last).1 hmem)
    rw [hlast]
    refine .inr ⟨hfull, ?_, ?_⟩
    · simp [hs.stack_eq_map, hrecency, hl]
    · simp [hrecency, List.erase_append_right _ hnot]

theorem leaving?_stack (hassoc : 0 < assoc) :
    Stack.leaving? assoc s.stack = s.leaving? := by
  rw [Stack.leaving?, LineSet.leaving?]
  rcases hs.victim_spec hassoc with ⟨hroom, hline, -⟩ | ⟨hfull, hline, -⟩
  · rw [if_pos hroom, hline]
  · rw [if_neg hfull, hline]

theorem stack_place (hassoc : 0 < assoc) (dirty : Bool) (tag : Nat) :
    (s.place dirty tag).stack = Stack.place assoc dirty s.stack tag := by
  have hway := hs.victim_lt hassoc
  have hfront : (s.place dirty tag).line? s.victim = some { tag, dirty } := by
    rw [place, line?_install _ _ _ hway, if_pos rfl]
  have hrest : (s.recency.erase s.victim).filterMap (s.place dirty tag).line? =
      (s.recency.erase s.victim).filterMap s.line? :=
    hs.filterMap_erase_congr fun way' hne => by rw [place, line?_install _ _ _ hway, if_neg hne.symm]
  have hstack : (s.place dirty tag).stack =
      (s.victim :: s.recency.erase s.victim).filterMap (s.place dirty tag).line? := rfl
  rw [hstack, List.filterMap_cons_some hfront, hrest, Stack.place]
  rcases hs.victim_spec hassoc with ⟨hroom, -, hnot⟩ | ⟨hfull, -, herase⟩
  · rw [if_pos hroom, List.erase_of_not_mem hnot, stack]
  · rw [if_neg hfull, herase, hs.stack_eq_map, ← List.map_dropLast,
      List.filterMap_eq_map_iff_forall_eq_some.2]
    intro way hmem
    obtain ⟨l, hl⟩ := Option.isSome_iff_exists.1
      ((hs.mem_recency way).1 (List.mem_of_mem_dropLast hmem))
    simp [hl]

theorem holds_of_leaving? (h : s.leaving? = some l) : s.holds l.tag = true := by
  rw [holds, hs.find?_of_line? h]
  rfl

end Sound

end LineSet

theorem Geometry.ne_of_leaving? {g : Geometry} {rows : Nat → LineSet} {line victim : Nat}
    {dirty : Bool} (hs : (rows (line % g.numSets)).Sound g.assoc)
    (hnot : g.holds rows line = false) (h : g.leaving? rows line = some (victim, dirty)) :
    victim ≠ line := by
  obtain ⟨l, hl, heq⟩ := Option.map_eq_some_iff.1 h
  have hheld := hs.holds_of_leaving? hl
  rintro rfl
  obtain ⟨-, htag⟩ := (g.div_mod_eq_iff (Nat.mod_lt victim g.numSets_pos)).2
    (congrArg Prod.fst heq).symm
  rw [Geometry.holds, htag, hheld] at hnot
  cases hnot

theorem TagArray.stack_row_empty (name : String) (g : Geometry) (k : Nat) :
    ((empty name g).row k).stack = [] := by
  unfold row
  split
  · rw [setAt_empty, LineSet.stack_empty]
  · rw [LineSet.stack_empty]

/-! What an operation on a sound array leaves is sound. -/

namespace TagArray

namespace Sound

variable {t t' : TagArray} (ht : t.Sound) {addr : Nat} {kind : AccessKind}

include ht

theorem of_lookupDemand {hit : Bool} (h : t.lookupDemand addr kind = .ok (hit, t')) :
    t'.Sound := by
  cases hline : t.lines (t.geometry.lineOf addr) with
  | none =>
    rw [ht.lookupDemand_miss kind hline] at h
    cases h
    exact (ht.becomes_counters _).sound
  | some d =>
    obtain ⟨t'', hlookup, hbecomes⟩ := ht.lookupDemand_hit kind hline
    rw [hlookup] at h
    cases h
    exact hbecomes.sound

theorem of_absorb (h : t.absorb addr = .ok t') : t'.Sound := by
  cases hline : t.lines (t.geometry.lineOf addr) with
  | none =>
    rw [ht.absorb_miss hline] at h
    cases h
  | some d =>
    obtain ⟨t'', habsorb, hbecomes⟩ := ht.absorb_hit hline
    rw [habsorb] at h
    cases h
    exact hbecomes.sound

theorem of_backInvalidate {dirty : Bool} (h : t.backInvalidate addr = .ok (dirty, t')) :
    t'.Sound := by
  have hrow := (backInvalidate_inv h).1
  rw [rowOf_eq, ← lines_lineOf] at hrow
  obtain ⟨t'', hdrop, hbecomes⟩ := ht.backInvalidate_hit hrow
  rw [hdrop] at h
  cases h
  exact hbecomes.sound

theorem of_fill (hkind : kind.isDemand = true) (haddr : addr < wordLimit) {resident : Bool}
    (h : t.fill addr kind = .ok (resident, t')) : t'.Sound := by
  have hnot := (fill_inv hkind h).1
  cases hline : t.lines (t.geometry.lineOf addr) with
  | none =>
    obtain ⟨t'', lines, victim, hinstall, hbecomes, -⟩ := ht.install_fresh kind haddr hline
    rw [t.fill_demand addr hkind, hinstall] at h
    cases h
    exact hbecomes.sound
  | some d =>
    obtain ⟨way, hfind, -⟩ := ht.exists_way hline
    rw [holds_eq, rowOf_eq, hfind] at hnot
    cases hnot

end Sound

end TagArray

end CacheHierarchy
