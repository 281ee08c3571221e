import CacheHierarchy.Tags.LineSet
import Mathlib.Data.Finset.Card
import Mathlib.Data.List.Basic
import Mathlib.Logic.Function.Basic

/-!
# The lines of one set

`dirty? s tag` is `some` of the dirty bit of the line that the set `s` holds under `tag`, and
`none` if it holds no such line. A set is `Sound` if its recency list names each way in use
once and no two ways hold one tag; then each operation on a way is an update of `dirty?` at one
tag, whichever way is concerned.
-/

namespace CacheHierarchy

namespace LineSet

def dirty? (s : LineSet) (tag : Nat) : Option Bool :=
  ((s.find? tag).bind s.line?).map Line.dirty

/-- The recency list names each way in use once, and no two ways hold one tag. -/
structure Sound (assoc : Nat) (s : LineSet) : Prop where
  length_ways : s.ways.length = assoc
  nodup_recency : s.recency.Nodup
  mem_recency : ∀ way, way ∈ s.recency ↔ (s.line? way).isSome
  way_unique : ∀ way way' l l', s.line? way = some l → s.line? way' = some l' →
    l.tag = l'.tag → way = way'

theorem line?_eq_some_iff {s : LineSet} {way : Nat} {l : Line} :
    s.line? way = some l ↔ s.ways[way]? = some (some l) := by
  simp [line?, Option.join_eq_some_iff]

theorem lt_length_of_line? {s : LineSet} {way : Nat} {l : Line} (h : s.line? way = some l) :
    way < s.ways.length := by
  rw [line?_eq_some_iff] at h
  exact (List.getElem?_eq_some_iff.1 h).1

@[simp] theorem line?_empty (assoc way : Nat) : (empty assoc).line? way = none := by
  simp only [line?, empty, List.getElem?_replicate]
  split <;> rfl

@[simp] theorem line?_touch (s : LineSet) (way way' : Nat) :
    (s.touch way).line? way' = s.line? way' := rfl

theorem line?_soil (s : LineSet) (way way' : Nat) :
    (s.soil way).line? way' =
      if way = way' then (s.line? way').map fun l => { l with dirty := true }
      else s.line? way' := by
  simp only [line?, soil, List.getElem?_modify]
  split
  · cases s.ways[way']? <;> rfl
  · simp

theorem line?_install (s : LineSet) {way : Nat} (way' : Nat) (l : Line)
    (h : way < s.ways.length) :
    (s.install way l).line? way' = if way = way' then some l else s.line? way' := by
  simp only [install, line?_touch]
  simp only [line?, List.getElem?_set, h]
  split <;> rfl

theorem line?_drop (s : LineSet) (way way' : Nat) :
    (s.drop way).line? way' = if way = way' then none else s.line? way' := by
  simp only [line?, drop, List.getElem?_set]
  split
  · split <;> rfl
  · rfl

theorem line?_of_find? {s : LineSet} {tag way : Nat} (h : s.find? tag = some way) :
    ∃ d, s.line? way = some { tag, dirty := d } := by
  obtain ⟨hlt, hany, -⟩ := List.findIdx?_eq_some_iff_getElem.1 h
  obtain ⟨l, hl, htag⟩ := (Option.any_eq_true _ _).1 hany
  refine ⟨l.dirty, ?_⟩
  rw [line?_eq_some_iff, List.getElem?_eq_getElem hlt, hl]
  simp only [beq_iff_eq] at htag
  rw [← htag]

theorem tag_ne_of_find?_eq_none {s : LineSet} {tag way : Nat} {l : Line}
    (h : s.find? tag = none) (hl : s.line? way = some l) : l.tag ≠ tag := by
  rw [line?_eq_some_iff] at hl
  have hmem : some l ∈ s.ways := List.mem_of_getElem? hl
  have hany := List.findIdx?_eq_none_iff.1 h _ hmem
  simpa using hany

namespace Sound

variable {assoc : Nat} {s : LineSet}

/-- The line under a tag, if any, is the line of exactly one way. -/
theorem dirty?_eq_some_iff (hs : s.Sound assoc) {tag : Nat} {d : Bool} :
    s.dirty? tag = some d ↔ ∃ way, s.line? way = some { tag, dirty := d } := by
  constructor
  · intro h
    obtain ⟨l, hl, rfl⟩ := Option.map_eq_some_iff.1 h
    obtain ⟨way, hway, hl⟩ := Option.bind_eq_some_iff.1 hl
    obtain ⟨d, hd⟩ := line?_of_find? hway
    rw [hd, Option.some.injEq] at hl
    exact ⟨way, by rw [hd, ← hl]⟩
  · rintro ⟨way, hway⟩
    cases hfind : s.find? tag with
    | none => exact absurd rfl (tag_ne_of_find?_eq_none hfind hway)
    | some way' =>
      obtain ⟨d', hd'⟩ := line?_of_find? hfind
      obtain rfl := hs.way_unique _ _ _ _ hway hd' rfl
      rw [hway, Option.some.injEq, Line.mk.injEq] at hd'
      simp [dirty?, hfind, hway]

theorem dirty?_of_line? (hs : s.Sound assoc) {way : Nat} {l : Line} (h : s.line? way = some l) :
    s.dirty? l.tag = some l.dirty :=
  hs.dirty?_eq_some_iff.2 ⟨way, h⟩

theorem find?_of_line? (hs : s.Sound assoc) {way : Nat} {l : Line} (h : s.line? way = some l) :
    s.find? l.tag = some way := by
  cases hfind : s.find? l.tag with
  | none => exact absurd rfl (tag_ne_of_find?_eq_none hfind h)
  | some way' =>
    obtain ⟨d, hd⟩ := line?_of_find? hfind
    rw [hs.way_unique _ _ _ _ h hd rfl]

theorem find?_eq_none_iff (hs : s.Sound assoc) {tag : Nat} :
    s.find? tag = none ↔ s.dirty? tag = none := by
  constructor
  · intro h
    simp [dirty?, h]
  · intro h
    cases hfind : s.find? tag with
    | none => rfl
    | some way =>
      obtain ⟨d, hd⟩ := line?_of_find? hfind
      have := hs.dirty?_of_line? hd
      simp [h] at this

/-- Two sets with the same lines up to their ways have the same dirty bits. -/
theorem dirty?_congr {s' : LineSet} (hs : s.Sound assoc) (hs' : s'.Sound assoc) {tag : Nat}
    (h : ∀ d, (∃ way, s'.line? way = some { tag, dirty := d }) ↔
      ∃ way, s.line? way = some { tag, dirty := d }) : s'.dirty? tag = s.dirty? tag := by
  apply Option.ext
  intro d
  rw [hs'.dirty?_eq_some_iff, hs.dirty?_eq_some_iff, h]

end Sound

theorem empty_sound (assoc : Nat) : (empty assoc).Sound assoc where
  length_ways := length_ways_empty assoc
  nodup_recency := List.nodup_nil
  mem_recency way := by
    rw [line?_empty]
    simp [empty]
  way_unique := by simp

@[simp] theorem dirty?_empty (assoc tag : Nat) : (empty assoc).dirty? tag = none := by
  rw [← (empty_sound assoc).find?_eq_none_iff]
  simp [find?, empty, List.findIdx?_replicate]

namespace Sound

variable {assoc : Nat} {s : LineSet} {way : Nat} {l : Line}

theorem touch (hs : s.Sound assoc) (h : s.line? way = some l) : (s.touch way).Sound assoc where
  length_ways := hs.length_ways
  nodup_recency := by
    rw [recency_touch, List.nodup_cons]
    exact ⟨hs.nodup_recency.not_mem_erase, hs.nodup_recency.erase way⟩
  mem_recency way' := by
    rw [recency_touch, List.mem_cons, hs.nodup_recency.mem_erase_iff, line?_touch,
      ← hs.mem_recency]
    constructor
    · rintro (rfl | ⟨-, hmem⟩)
      · rw [hs.mem_recency, h]
        rfl
      · exact hmem
    · intro hmem
      by_cases heq : way' = way
      · exact .inl heq
      · exact .inr ⟨heq, hmem⟩
  way_unique := hs.way_unique

theorem soil (hs : s.Sound assoc) (way : Nat) : (s.soil way).Sound assoc where
  length_ways := by rw [length_ways_soil, hs.length_ways]
  nodup_recency := hs.nodup_recency
  mem_recency way' := by
    rw [recency_soil, hs.mem_recency, line?_soil]
    split <;> simp
  way_unique := by
    have htag : ∀ w l', (s.soil way).line? w = some l' →
        ∃ l, s.line? w = some l ∧ l.tag = l'.tag := by
      intro w l' h
      rw [line?_soil] at h
      split at h
      · obtain ⟨l, hl, rfl⟩ := Option.map_eq_some_iff.1 h
        exact ⟨l, hl, rfl⟩
      · exact ⟨l', h, rfl⟩
    intro w w' l l' hw hw' heq
    obtain ⟨k, hk, hkl⟩ := htag w l hw
    obtain ⟨k', hk', hkl'⟩ := htag w' l' hw'
    exact hs.way_unique w w' k k' hk hk' (by rw [hkl, hkl', heq])

theorem install (hs : s.Sound assoc) (hway : way < s.ways.length)
    (hfresh : s.dirty? l.tag = none) : (s.install way l).Sound assoc where
  length_ways := by rw [length_ways_install, hs.length_ways]
  nodup_recency := by
    rw [LineSet.install, recency_touch, List.nodup_cons]
    exact ⟨hs.nodup_recency.not_mem_erase, hs.nodup_recency.erase way⟩
  mem_recency way' := by
    rw [LineSet.install, recency_touch, ← LineSet.install, line?_install _ _ _ hway,
      List.mem_cons, hs.nodup_recency.mem_erase_iff, hs.mem_recency]
    by_cases heq : way = way'
    · simp [heq]
    · simp [heq, Ne.symm heq]
  way_unique := by
    have hne : ∀ w k, s.line? w = some k → k.tag ≠ l.tag := by
      intro w k hk htag
      have := hs.dirty?_of_line? hk
      rw [htag, hfresh] at this
      cases this
    intro w w' k k' hw hw' heq
    rw [line?_install _ _ _ hway] at hw hw'
    split at hw <;> split at hw'
    · rename_i h h'
      rw [← h, ← h']
    · cases hw
      exact absurd heq.symm (hne _ _ hw')
    · cases hw'
      exact absurd heq (hne _ _ hw)
    · exact hs.way_unique w w' k k' hw hw' heq

theorem drop (hs : s.Sound assoc) (way : Nat) : (s.drop way).Sound assoc where
  length_ways := by rw [length_ways_drop, hs.length_ways]
  nodup_recency := hs.nodup_recency.erase way
  mem_recency way' := by
    rw [show (s.drop way).recency = s.recency.erase way from rfl,
      hs.nodup_recency.mem_erase_iff, hs.mem_recency, line?_drop]
    by_cases heq : way = way'
    · simp [heq]
    · simp [heq, Ne.symm heq]
  way_unique := by
    intro w w' k k' hw hw' heq
    rw [line?_drop] at hw hw'
    split at hw
    · cases hw
    · split at hw'
      · cases hw'
      · exact hs.way_unique w w' k k' hw hw' heq

theorem victim_lt (hs : s.Sound assoc) (hassoc : 0 < assoc) : s.victim < s.ways.length := by
  unfold victim
  split
  · rename_i way h
    exact (List.findIdx?_eq_some_iff_getElem.1 h).1
  · rename_i h
    -- every way is in use, so the recency list is not empty and its last way holds a line
    have hpos : 0 < s.ways.length := by rw [hs.length_ways]; exact hassoc
    have hall := List.findIdx?_eq_none_iff.1 h
    have hzero : 0 ∈ s.recency := by
      rw [hs.mem_recency, line?, List.getElem?_eq_getElem hpos]
      have := hall _ (List.getElem_mem hpos)
      cases hw : s.ways[0] with
      | none => simp [hw] at this
      | some l => rfl
    have hne : s.recency ≠ [] := List.ne_nil_of_mem hzero
    rw [List.getLast?_eq_getLast_of_ne_nil hne, Option.getD_some]
    have hlast := (hs.mem_recency _).1 (List.getLast_mem hne)
    obtain ⟨l, hl⟩ := Option.isSome_iff_exists.1 hlast
    exact lt_length_of_line? hl

/-- A line that is given up leaves a set in which every way held a line of its own. -/
theorem exists_tags_of_victim (hs : s.Sound assoc) (h : s.line? s.victim = some l) :
    ∃ tags : Finset Nat, tags.card = assoc ∧ ∀ tag ∈ tags, s.dirty? tag ≠ none := by
  have hused : ∀ way < s.ways.length, ∃ k, s.line? way = some k := by
    intro way hway
    cases hempty : s.ways.findIdx? Option.isNone with
    | none =>
      have hall := List.findIdx?_eq_none_iff.1 hempty _ (List.getElem_mem hway)
      rw [Option.isNone_eq_false_iff, Option.isSome_iff_exists] at hall
      obtain ⟨k, hk⟩ := hall
      exact ⟨k, by rw [line?_eq_some_iff, List.getElem?_eq_getElem hway, hk]⟩
    | some first =>
      obtain ⟨hlt, hnone, -⟩ := List.findIdx?_eq_some_iff_getElem.1 hempty
      rw [victim, hempty, line?_eq_some_iff, List.getElem?_eq_getElem hlt] at h
      rw [Option.some.inj h] at hnone
      cases hnone
  choose! line hline using hused
  refine ⟨(Finset.range s.ways.length).image fun way => (line way).tag, ?_, ?_⟩
  · rw [Finset.card_image_of_injOn, Finset.card_range, hs.length_ways]
    intro way hway way' hway' heq
    have hlt := Finset.mem_range.1 hway
    have hlt' := Finset.mem_range.1 hway'
    exact hs.way_unique _ _ _ _ (hline way hlt) (hline way' hlt') heq
  · intro tag htag
    obtain ⟨way, hway, rfl⟩ := Finset.mem_image.1 htag
    rw [hs.dirty?_of_line? (hline way (Finset.mem_range.1 hway))]
    exact Option.some_ne_none _

/-! Each operation on a way that holds a line is an update at the line's tag. -/

theorem dirty?_soil (hs : s.Sound assoc) (h : s.line? way = some l) :
    (s.soil way).dirty? = Function.update s.dirty? l.tag (some true) := by
  funext tag
  by_cases htag : tag = l.tag
  · subst htag
    rw [Function.update_self, (hs.soil way).dirty?_eq_some_iff]
    exact ⟨way, by rw [line?_soil, if_pos rfl, h]; rfl⟩
  · rw [Function.update_of_ne htag]
    refine hs.dirty?_congr (hs.soil way) fun d => exists_congr fun w => ?_
    rw [line?_soil]
    split
    · rename_i hw
      subst hw
      rw [h]
      simp only [Option.map_some, Option.some.injEq, Line.mk.injEq]
      constructor
      · rintro ⟨heq, -⟩
        exact absurd heq.symm htag
      · rintro rfl
        exact absurd rfl htag
    · exact Iff.rfl

theorem hit (hs : s.Sound assoc) (h : s.line? way = some l) (isWrite : Bool) :
    ((if isWrite then s.soil way else s).touch way).Sound assoc := by
  cases isWrite with
  | false => exact hs.touch h
  | true =>
    refine (hs.soil way).touch (l := { l with dirty := true }) ?_
    rw [if_pos rfl, line?_soil, if_pos rfl, h]
    rfl

theorem dirty?_hit (hs : s.Sound assoc) (h : s.line? way = some l) (isWrite : Bool) :
    ((if isWrite then s.soil way else s).touch way).dirty? =
      Function.update s.dirty? l.tag (some (l.dirty || isWrite)) := by
  cases isWrite with
  | false =>
    rw [Bool.or_false, ← hs.dirty?_of_line? h, Function.update_eq_self]
    rfl
  | true =>
    rw [Bool.or_true]
    exact hs.dirty?_soil h

theorem dirty?_drop (hs : s.Sound assoc) (h : s.line? way = some l) :
    (s.drop way).dirty? = Function.update s.dirty? l.tag none := by
  funext tag
  by_cases htag : tag = l.tag
  · subst htag
    rw [Function.update_self]
    cases hd : (s.drop way).dirty? l.tag with
    | none => rfl
    | some d =>
      obtain ⟨w, hw⟩ := (hs.drop way).dirty?_eq_some_iff.1 hd
      rw [line?_drop] at hw
      split at hw
      · cases hw
      · rename_i hne
        exact absurd (hs.way_unique _ _ _ _ h hw rfl) hne
  · rw [Function.update_of_ne htag]
    refine hs.dirty?_congr (hs.drop way) fun d => exists_congr fun w => ?_
    rw [line?_drop]
    split
    · rename_i hw
      subst hw
      rw [h]
      simp only [reduceCtorEq, Option.some.injEq, false_iff]
      rintro rfl
      exact htag rfl
    · exact Iff.rfl

/-- A line goes into an empty way: nothing else changes. -/
theorem dirty?_install_empty (hs : s.Sound assoc) (hway : way < s.ways.length)
    (hfresh : s.dirty? l.tag = none) (h : s.line? way = none) :
    (s.install way l).dirty? = Function.update s.dirty? l.tag (some l.dirty) := by
  have hs' := hs.install hway hfresh
  funext tag
  by_cases htag : tag = l.tag
  · subst htag
    rw [Function.update_self, hs'.dirty?_eq_some_iff]
    exact ⟨way, by rw [line?_install _ _ _ hway, if_pos rfl]⟩
  · rw [Function.update_of_ne htag]
    refine hs.dirty?_congr hs' fun d => exists_congr fun w => ?_
    rw [line?_install _ _ _ hway]
    split
    · rename_i hw
      subst hw
      rw [h]
      simp only [Option.some.injEq, reduceCtorEq, iff_false]
      rintro rfl
      exact htag rfl
    · exact Iff.rfl

/-- A line goes into a way that holds another: the other is gone. -/
theorem dirty?_install_over {old : Line} (hs : s.Sound assoc) (hfresh : s.dirty? l.tag = none)
    (h : s.line? way = some old) :
    (s.install way l).dirty? =
      Function.update (Function.update s.dirty? old.tag none) l.tag (some l.dirty) := by
  have hway := lt_length_of_line? h
  have hs' := hs.install hway hfresh
  funext tag
  by_cases htag : tag = l.tag
  · subst htag
    rw [Function.update_self, hs'.dirty?_eq_some_iff]
    exact ⟨way, by rw [line?_install _ _ _ hway, if_pos rfl]⟩
  · rw [Function.update_of_ne htag, ← hs.dirty?_drop h]
    refine (hs.drop way).dirty?_congr hs' fun d => exists_congr fun w => ?_
    rw [line?_install _ _ _ hway, line?_drop]
    split
    · simp only [Option.some.injEq, reduceCtorEq, iff_false]
      rintro rfl
      exact htag rfl
    · exact Iff.rfl

end Sound

end LineSet

end CacheHierarchy
