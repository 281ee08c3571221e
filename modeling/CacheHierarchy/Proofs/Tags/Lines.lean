import CacheHierarchy.Proofs.Tags.Residents
import CacheHierarchy.Tags.TagArray

/-!
# The lines of a tag array

`t.lines` maps the number of a line to its dirty bit, and to `none` where the line is not
resident. For a `Sound` array every operation has one lemma that says when it succeeds and how it
updates `lines`; sets, ways and tags do not show.

`Displaces before after line dirty victim` is what installing a line amounts to: the new line is
there, and the victim, if any, is gone.
-/

namespace CacheHierarchy

/-- Line number `line` is installed and takes the place of the victim, if there is one. -/
def Displaces (before after : Nat → Option Bool) (line : Nat) (dirty : Bool) :
    Option (Nat × Bool) → Prop
  | none => before line = none ∧ after = Function.update before line (some dirty)
  | some (victim, d) => before line = none ∧ before victim = some d ∧
      after = Function.update (Function.update before victim none) line (some dirty)

namespace Displaces

variable {before after : Nat → Option Bool} {line : Nat} {dirty : Bool}
  {victim : Option (Nat × Bool)} (h : Displaces before after line dirty victim)

include h

theorem absent : before line = none := by
  cases victim <;> exact h.1

theorem installed : after line = some dirty := by
  cases victim with
  | none => rw [h.2, Function.update_self]
  | some v => rw [h.2.2, Function.update_self]

theorem of_ne {other : Nat} (hne : other ≠ line) :
    after other = before other ∧ (∀ d, victim ≠ some (other, d)) ∨
      ∃ d, victim = some (other, d) ∧ before other = some d ∧ after other = none := by
  cases victim with
  | none =>
    refine .inl ⟨?_, by simp⟩
    rw [h.2, Function.update_of_ne hne]
  | some v =>
    obtain ⟨-, hv, rfl⟩ := h
    rw [Function.update_of_ne hne]
    by_cases hother : other = v.1
    · subst hother
      exact .inr ⟨v.2, rfl, hv, Function.update_self ..⟩
    · refine .inl ⟨Function.update_of_ne hother .., ?_⟩
      rintro d heq
      cases heq
      exact hother rfl

theorem victim_eq {v : Nat} {d : Bool} (hv : victim = some (v, d)) :
    before v = some d ∧ v ≠ line ∧ after v = none := by
  subst hv
  obtain ⟨habsent, hv, rfl⟩ := h
  have hne : v ≠ line := by
    rintro rfl
    rw [habsent] at hv
    cases hv
  exact ⟨hv, hne, by rw [Function.update_of_ne hne, Function.update_self]⟩

/-- There is no victim if and only if all lines stay. -/
theorem victim_eq_none_iff : victim = none ↔ ∀ other, before other ≠ none → after other ≠ none := by
  constructor
  · rintro hnone other hother
    by_cases hl : other = line
    · rw [hl, h.installed]
      exact Option.some_ne_none dirty
    · rcases h.of_ne hl with ⟨hsame, -⟩ | ⟨d, hvictim, -, -⟩
      · rwa [hsame]
      · rw [hnone] at hvictim
        cases hvictim
  · intro hstays
    by_contra hne
    obtain ⟨⟨v, d⟩, hvictim⟩ := Option.ne_none_iff_exists'.1 hne
    obtain ⟨hbefore, -, hafter⟩ := h.victim_eq hvictim
    refine hstays v ?_ hafter
    rw [hbefore]
    exact Option.some_ne_none d

end Displaces

namespace Geometry

/-- A line number is its tag and its set put together. -/
theorem div_mod_eq_iff (g : Geometry) {line tag i : Nat} (hi : i < g.numSets) :
    line % g.numSets = i ∧ line / g.numSets = tag ↔ line = tag * g.numSets + i := by
  constructor
  · rintro ⟨rfl, rfl⟩
    rw [Nat.mul_comm, Nat.div_add_mod]
  · rintro rfl
    rw [Nat.mul_add_mod_of_lt hi, Nat.mul_comm, Nat.mul_add_div g.numSets_pos,
      Nat.div_eq_of_lt hi, Nat.add_zero]
    exact ⟨rfl, rfl⟩

theorem lineBase_eq_ok (g : Geometry) {tag i : Nat}
    (h : (tag * g.numSets + i) * g.lineSize < wordLimit) :
    g.lineBase tag i = .ok ((tag * g.numSets + i) * g.lineSize) := by
  have hline : tag * g.numSets + i < wordLimit :=
    Nat.lt_of_le_of_lt (Nat.le_mul_of_pos_right _ g.lineSize_pos) h
  have htag : tag * g.numSets < wordLimit := by omega
  simp [lineBase, Word.mul, Word.add, htag, hline, h, bind, Except.bind]

/-- As many lines as a set has ways are resident, all of the set that a line goes into. -/
def Full (g : Geometry) (lines : Nat → Option Bool) (line : Nat) : Prop :=
  ∃ held : Finset Nat, held.card = g.assoc ∧
    ∀ other ∈ held, lines other ≠ none ∧ other % g.numSets = line % g.numSets

theorem lineOf_mul_le (g : Geometry) (addr : Nat) : g.lineOf addr * g.lineSize ≤ addr :=
  Nat.div_mul_le_self addr g.lineSize

theorem lineOf_mul_self (g : Geometry) (line : Nat) : g.lineOf (line * g.lineSize) = line :=
  Nat.mul_div_cancel line g.lineSize_pos

/-- The tag of an address is read off the number of its line. -/
theorem tagOf_eq {g : Geometry} (h : g.numSets * g.lineSize < wordLimit) (addr : Nat) :
    g.tagOf addr = .ok (g.lineOf addr / g.numSets) := by
  rw [tagOf_eq_ok h, lineOf, Nat.div_div_eq_div_mul, Nat.mul_comm]

end Geometry

namespace TagArray

/-- The dirty bit of each resident line, by line number. -/
def lines (t : TagArray) (line : Nat) : Option Bool :=
  (t.setAt ⟨line % t.geometry.numSets, Nat.mod_lt _ t.geometry.numSets_pos⟩).dirty?
    (line / t.geometry.numSets)

/-- Every set is sound, tags fit in a word, and so does the first address of a resident line. -/
structure Sound (t : TagArray) : Prop where
  span_lt : t.geometry.numSets * t.geometry.lineSize < wordLimit
  sets : ∀ i, (t.setAt i).Sound t.geometry.assoc
  base_lt : ∀ line, t.lines line ≠ none → line * t.geometry.lineSize < wordLimit

/-- The array `t` turned into the sound array `t'`, with these lines and these counters. -/
structure Becomes (t t' : TagArray) (lines : Nat → Option Bool) (counters : Counters) : Prop where
  sound : t'.Sound
  name : t'.name = t.name
  geometry : t'.geometry = t.geometry
  lines : t'.lines = lines
  counters : t'.counters = counters

theorem lines_eq (t : TagArray) {line tag : Nat} {i : Fin t.geometry.numSets}
    (h : line = tag * t.geometry.numSets + i) : t.lines line = (t.setAt i).dirty? tag := by
  obtain ⟨hi, htag⟩ := (t.geometry.div_mod_eq_iff i.isLt).2 h
  simp only [lines, hi, htag]

theorem setAt_replaceSet (t : TagArray) (i j : Fin t.geometry.numSets) (s : LineSet) :
    (t.replaceSet i s).setAt j = if i = j then s else t.setAt j := by
  change (t.sets.set i.val s i.isLt)[j.val] = _
  rw [Vector.getElem_set]
  simp only [Fin.ext_iff]
  rfl

def linesWith (t : TagArray) (i : Nat) (f : Nat → Option Bool) (line : Nat) : Option Bool :=
  if line % t.geometry.numSets = i then f (line / t.geometry.numSets) else t.lines line

theorem lines_replaceSet (t : TagArray) (i : Fin t.geometry.numSets) (s : LineSet) :
    (t.replaceSet i s).lines = t.linesWith i s.dirty? := by
  funext line
  have hset := t.setAt_replaceSet i ⟨_, Nat.mod_lt line t.geometry.numSets_pos⟩ s
  refine (congrArg (fun set : LineSet => set.dirty? (line / t.geometry.numSets)) hset).trans ?_
  rw [linesWith]
  by_cases h : line % t.geometry.numSets = i
  · rw [if_pos (Fin.ext h.symm), if_pos h]
  · rw [if_neg fun heq => h (congrArg Fin.val heq).symm, if_neg h]
    rfl

theorem linesWith_self (t : TagArray) (i : Fin t.geometry.numSets) :
    t.linesWith i (t.setAt i).dirty? = t.lines := by
  funext line
  simp only [linesWith]
  split
  · rename_i hi
    simp only [lines, hi]
  · rfl

theorem linesWith_update (t : TagArray) {i : Nat} (hi : i < t.geometry.numSets)
    (f : Nat → Option Bool) (tag : Nat) (v : Option Bool) :
    t.linesWith i (Function.update f tag v) =
      Function.update (t.linesWith i f) (tag * t.geometry.numSets + i) v := by
  funext line
  by_cases hline : line = tag * t.geometry.numSets + i
  · obtain ⟨hset, htag⟩ := (t.geometry.div_mod_eq_iff hi).2 hline
    rw [linesWith, if_pos hset, htag, hline, Function.update_self, Function.update_self]
  · rw [Function.update_of_ne hline, linesWith, linesWith]
    split
    · rename_i hset
      rw [Function.update_of_ne]
      intro htag
      exact hline ((t.geometry.div_mod_eq_iff hi).1 ⟨hset, htag⟩)
    · rfl

theorem replaceSet_sets_sound {t : TagArray} (ht : t.Sound) (i : Fin t.geometry.numSets)
    {s : LineSet} (hs : s.Sound t.geometry.assoc) (j : Fin t.geometry.numSets) :
    ((t.replaceSet i s).setAt j).Sound t.geometry.assoc := by
  rw [setAt_replaceSet]
  split
  · exact hs
  · exact ht.sets j

theorem fill_demand (t : TagArray) (addr : Nat) {kind : AccessKind} (h : kind.isDemand = true) :
    t.fill addr kind = (t.install addr kind).map fun t => (false, t) := by
  cases kind <;> first | rfl | cases h

theorem lookup_demand (t : TagArray) (addr : Nat) {kind : AccessKind} (h : kind.isDemand = true) :
    t.lookup addr kind = t.lookupDemand addr kind := by
  cases kind <;> first | rfl | cases h

namespace Sound

variable {t : TagArray} (ht : t.Sound) {addr : Nat}

include ht

theorem locate_eq (addr : Nat) :
    t.locate addr = .ok
      { set := t.geometry.setOf addr
        tag := t.geometry.lineOf addr / t.geometry.numSets
        way? := (t.setAt (t.geometry.setOf addr)).find?
          (t.geometry.lineOf addr / t.geometry.numSets) } := by
  simp only [locate, Geometry.tagOf_eq ht.span_lt, Except.map]

omit ht in
theorem lineOf_eq (addr : Nat) :
    t.geometry.lineOf addr =
      t.geometry.lineOf addr / t.geometry.numSets * t.geometry.numSets +
        (t.geometry.setOf addr).val := by
  rw [Geometry.val_setOf, Nat.mul_comm, Nat.div_add_mod]

omit ht in
theorem lines_lineOf (addr : Nat) :
    t.lines (t.geometry.lineOf addr) =
      (t.setAt (t.geometry.setOf addr)).dirty? (t.geometry.lineOf addr / t.geometry.numSets) :=
  t.lines_eq (lineOf_eq addr)

/-- A resident line is found in one way of the set of its address. -/
theorem exists_way {d : Bool} (h : t.lines (t.geometry.lineOf addr) = some d) :
    ∃ way, (t.setAt (t.geometry.setOf addr)).find?
        (t.geometry.lineOf addr / t.geometry.numSets) = some way ∧
      (t.setAt (t.geometry.setOf addr)).line? way =
        some { tag := t.geometry.lineOf addr / t.geometry.numSets, dirty := d } := by
  have hs := ht.sets (t.geometry.setOf addr)
  rw [lines_lineOf] at h
  obtain ⟨way, hway⟩ := hs.dirty?_eq_some_iff.1 h
  exact ⟨way, hs.find?_of_line? hway, hway⟩

theorem find?_eq_none (h : t.lines (t.geometry.lineOf addr) = none) :
    (t.setAt (t.geometry.setOf addr)).find?
      (t.geometry.lineOf addr / t.geometry.numSets) = none := by
  rw [(ht.sets _).find?_eq_none_iff, ← lines_lineOf]
  exact h

theorem contains_eq (addr : Nat) :
    t.contains addr = .ok (t.lines (t.geometry.lineOf addr)).isSome := by
  simp only [contains, ht.locate_eq, Except.map]
  cases h : t.lines (t.geometry.lineOf addr) with
  | none => rw [ht.find?_eq_none h]; rfl
  | some d =>
    obtain ⟨way, hfind, -⟩ := ht.exists_way h
    rw [hfind]
    rfl

theorem line?_eq (addr : Nat) :
    t.line? addr = .ok ((t.lines (t.geometry.lineOf addr)).map fun dirty =>
      { tag := t.geometry.lineOf addr / t.geometry.numSets, dirty }) := by
  simp only [line?, ht.locate_eq, Except.map]
  cases h : t.lines (t.geometry.lineOf addr) with
  | none => rw [ht.find?_eq_none h]; rfl
  | some d =>
    obtain ⟨way, hfind, hway⟩ := ht.exists_way h
    rw [hfind, Option.bind_some, hway]
    rfl

theorem becomes_replaceSet {i : Fin t.geometry.numSets} {s : LineSet} {lines : Nat → Option Bool}
    (hs : s.Sound t.geometry.assoc) (hlines : t.linesWith i s.dirty? = lines)
    (hbase : ∀ line, lines line ≠ none → t.lines line = none →
      line * t.geometry.lineSize < wordLimit)
    (counters : Counters) (lastEviction : Option Eviction) :
    t.Becomes { t.replaceSet i s with counters, lastEviction } lines counters := by
  have hlines' : (t.replaceSet i s).lines = lines := by rw [lines_replaceSet, hlines]
  refine ⟨⟨ht.span_lt, replaceSet_sets_sound ht _ hs, ?_⟩, rfl, rfl, hlines', rfl⟩
  intro line hline
  change (t.replaceSet i s).lines line ≠ none at hline
  rw [hlines'] at hline
  by_cases hold : t.lines line = none
  · exact hbase line hline hold
  · exact ht.base_lt line hold

/-- The set of an address is replaced by one with an update at the tag of the address, whose line
is resident. -/
theorem becomes_update {s : LineSet} {v : Option Bool} {d : Bool}
    (h : t.lines (t.geometry.lineOf addr) = some d) (hs : s.Sound t.geometry.assoc)
    (hupdate : s.dirty? = Function.update (t.setAt (t.geometry.setOf addr)).dirty?
      (t.geometry.lineOf addr / t.geometry.numSets) v)
    (counters : Counters) (lastEviction : Option Eviction) :
    t.Becomes { t.replaceSet (t.geometry.setOf addr) s with counters, lastEviction }
      (Function.update t.lines (t.geometry.lineOf addr) v) counters := by
  refine ht.becomes_replaceSet hs ?_ ?_ counters lastEviction
  · rw [hupdate, t.linesWith_update (t.geometry.setOf addr).isLt, linesWith_self, ← lineOf_eq]
  · intro line hline hnone
    by_cases heq : line = t.geometry.lineOf addr
    · rw [heq, h] at hnone
      cases hnone
    · rw [Function.update_of_ne heq] at hline
      exact absurd hnone hline

theorem becomes_counters (counters : Counters) :
    t.Becomes { t with counters } t.lines counters :=
  ⟨⟨ht.span_lt, ht.sets, ht.base_lt⟩, rfl, rfl, rfl, rfl⟩

theorem becomes_countMerged (kind : AccessKind) :
    t.Becomes (t.countMerged kind) t.lines (t.counters.countLookup true kind.isWrite) :=
  ht.becomes_counters _

theorem becomes_countBypassed (dirty : Bool) :
    t.Becomes (t.countBypassed dirty) t.lines (t.counters.countBackInvalidation dirty) :=
  ht.becomes_counters _

theorem becomes_countDiverted : t.Becomes t.countDiverted t.lines t.counters.countWriteBack :=
  ht.becomes_counters _

/-! Each operation, for a line that is resident and for one that is not. -/

theorem lookupDemand_hit (kind : AccessKind) {d : Bool}
    (h : t.lines (t.geometry.lineOf addr) = some d) :
    ∃ t', t.lookupDemand addr kind = .ok (true, t') ∧
      t.Becomes t' (Function.update t.lines (t.geometry.lineOf addr) (some (d || kind.isWrite)))
        (t.counters.countLookup true kind.isWrite) := by
  obtain ⟨way, hfind, hway⟩ := ht.exists_way h
  have hs := ht.sets (t.geometry.setOf addr)
  simp only [lookupDemand, ht.locate_eq, Except.map, hfind]
  refine ⟨_, rfl, ?_⟩
  exact ht.becomes_update h (hs.hit hway kind.isWrite) (hs.dirty?_hit hway kind.isWrite) _
    t.lastEviction

theorem lookupDemand_miss (kind : AccessKind) (h : t.lines (t.geometry.lineOf addr) = none) :
    t.lookupDemand addr kind =
      .ok (false, { t with counters := t.counters.countLookup false kind.isWrite }) := by
  simp only [lookupDemand, ht.locate_eq, Except.map, ht.find?_eq_none h]
  rfl

theorem absorb_hit {d : Bool} (h : t.lines (t.geometry.lineOf addr) = some d) :
    ∃ t', t.absorb addr = .ok t' ∧
      t.Becomes t' (Function.update t.lines (t.geometry.lineOf addr) (some true)) t.counters := by
  obtain ⟨way, hfind, hway⟩ := ht.exists_way h
  have hs := ht.sets (t.geometry.setOf addr)
  simp only [absorb, ht.locate_eq, bind, Except.bind, hfind]
  refine ⟨_, rfl, ?_⟩
  exact ht.becomes_update h (hs.soil way) (hs.dirty?_soil hway) t.counters none

theorem absorb_miss (h : t.lines (t.geometry.lineOf addr) = none) :
    t.absorb addr = .error (.writeBackMissed t.name addr) := by
  simp only [absorb, ht.locate_eq, bind, Except.bind, ht.find?_eq_none h]
  rfl

theorem backInvalidate_hit {d : Bool} (h : t.lines (t.geometry.lineOf addr) = some d) :
    ∃ t', t.backInvalidate addr = .ok (d, t') ∧
      t.Becomes t' (Function.update t.lines (t.geometry.lineOf addr) none)
        (t.counters.countBackInvalidation d) := by
  obtain ⟨way, hfind, hway⟩ := ht.exists_way h
  have hs := ht.sets (t.geometry.setOf addr)
  simp only [backInvalidate, invalidate, ht.locate_eq, bind, Except.bind, pure, Except.pure,
    Except.map, hfind, hway, Option.getD_some]
  refine ⟨_, rfl, ?_⟩
  exact ht.becomes_update h (hs.drop way) (hs.dirty?_drop hway)
    (t.counters.countBackInvalidation d) t.lastEviction

theorem evictionOf_eq {i : Fin t.geometry.numSets} {way : Nat} {l : Line}
    (h : (t.setAt i).line? way = some l) :
    t.lines (l.tag * t.geometry.numSets + i) = some l.dirty ∧
      t.evictionOf i way = .ok (some
        { addr := (l.tag * t.geometry.numSets + i) * t.geometry.lineSize, dirty := l.dirty }) := by
  have hlines : t.lines (l.tag * t.geometry.numSets + i) = some l.dirty := by
    rw [t.lines_eq rfl]
    exact (ht.sets i).dirty?_of_line? h
  have hbase := ht.base_lt _ (hlines ▸ Option.some_ne_none l.dirty)
  refine ⟨hlines, ?_⟩
  simp only [evictionOf, h, Geometry.lineBase_eq_ok _ hbase, Except.map]

/-- A line that is not resident is installed, and a full set gives up one of its lines for it. -/
theorem install_fresh (kind : AccessKind) (haddr : addr < wordLimit)
    (h : t.lines (t.geometry.lineOf addr) = none) :
    ∃ t' lines victim, t.install addr kind = .ok t' ∧
      t.Becomes t' lines
        (if victim.any Prod.snd then t.counters.countWriteBack else t.counters) ∧
      Displaces t.lines lines (t.geometry.lineOf addr) kind.isWrite victim ∧
      t'.lastEviction = victim.map fun (line, dirty) =>
        { addr := line * t.geometry.lineSize, dirty } := by
  have hs := ht.sets (t.geometry.setOf addr)
  have hset := (t.geometry.setOf addr).isLt
  have hway := hs.victim_lt t.geometry.assoc_pos
  have hfresh := h
  rw [lines_lineOf] at hfresh
  have hbase : t.geometry.lineOf addr * t.geometry.lineSize < wordLimit :=
    Nat.lt_of_le_of_lt (t.geometry.lineOf_mul_le addr) haddr
  have hsound := hs.install (l := ⟨_, kind.isWrite⟩) hway hfresh
  have hbase' : ∀ lines victim, Displaces t.lines lines (t.geometry.lineOf addr) kind.isWrite
      victim → ∀ line, lines line ≠ none → t.lines line = none →
        line * t.geometry.lineSize < wordLimit := by
    intro lines victim hdisp line hline hnone
    by_cases heq : line = t.geometry.lineOf addr
    · exact heq ▸ hbase
    · rcases hdisp.of_ne heq with ⟨hsame, -⟩ | ⟨d, -, hold, -⟩
      · exact absurd (hsame.trans hnone) hline
      · rw [hnone] at hold
        cases hold
  simp only [install, ht.locate_eq, bind, Except.bind, ht.find?_eq_none h]
  cases hline : (t.setAt (t.geometry.setOf addr)).line?
      (t.setAt (t.geometry.setOf addr)).victim with
  | none =>
    simp only [evictionOf, hline]
    have hdisp : Displaces t.lines (Function.update t.lines (t.geometry.lineOf addr)
        (some kind.isWrite)) (t.geometry.lineOf addr) kind.isWrite none := ⟨h, rfl⟩
    refine ⟨_, _, none, rfl,
      ht.becomes_replaceSet hsound ?_ (hbase' _ _ hdisp) t.counters none, hdisp, rfl⟩
    rw [hs.dirty?_install_empty hway hfresh hline, t.linesWith_update hset, linesWith_self,
      ← lineOf_eq]
  | some old =>
    obtain ⟨hold, hevict⟩ := ht.evictionOf_eq hline
    simp only [hevict]
    have hdisp : Displaces t.lines _ (t.geometry.lineOf addr) kind.isWrite
        (some (_, old.dirty)) := ⟨h, hold, rfl⟩
    refine ⟨_, _, _, rfl,
      ht.becomes_replaceSet hsound ?_ (hbase' _ _ hdisp) _ (some ⟨_, old.dirty⟩), hdisp, rfl⟩
    rw [hs.dirty?_install_over hfresh hline, t.linesWith_update hset, t.linesWith_update hset,
      linesWith_self, ← lineOf_eq]

/-- A line is given up for a new one only if the set is full. -/
theorem full_of_install {kind : AccessKind} {t' : TagArray}
    (h : t.lines (t.geometry.lineOf addr) = none) (hinstall : t.install addr kind = .ok t')
    (hevict : t'.lastEviction ≠ none) : t.geometry.Full t.lines (t.geometry.lineOf addr) := by
  simp only [install, ht.locate_eq, bind, Except.bind, ht.find?_eq_none h] at hinstall
  have hs := ht.sets (t.geometry.setOf addr)
  cases hline : (t.setAt (t.geometry.setOf addr)).line?
      (t.setAt (t.geometry.setOf addr)).victim with
  | none =>
    simp only [evictionOf, hline] at hinstall
    cases hinstall
    exact absurd rfl hevict
  | some old =>
    obtain ⟨tags, hcard, hheld⟩ := hs.exists_tags_of_victim hline
    refine ⟨tags.image fun tag => tag * t.geometry.numSets + t.geometry.setOf addr, ?_, ?_⟩
    · rw [Finset.card_image_of_injective, hcard]
      intro tag tag' heq
      exact Nat.eq_of_mul_eq_mul_right t.geometry.numSets_pos (Nat.add_right_cancel heq)
    · intro other hother
      obtain ⟨tag, htag, rfl⟩ := Finset.mem_image.1 hother
      rw [t.lines_eq rfl]
      exact ⟨hheld tag htag, Nat.mul_add_mod_of_lt (t.geometry.setOf addr).isLt⟩

end Sound

theorem setAt_empty (name : String) (g : Geometry) (i : Fin (empty name g).geometry.numSets) :
    (empty name g).setAt i = LineSet.empty g.assoc :=
  Vector.getElem_replicate i.isLt

theorem lines_empty (name : String) (g : Geometry) : (empty name g).lines = fun _ => none := by
  funext line
  rw [lines, setAt_empty, LineSet.dirty?_empty]

theorem empty_sound {name : String} {g : Geometry} (h : g.numSets * g.lineSize < wordLimit) :
    (empty name g).Sound where
  span_lt := h
  sets i := by
    rw [setAt_empty]
    exact LineSet.empty_sound g.assoc
  base_lt line hline := by
    rw [lines_empty] at hline
    exact absurd rfl hline

end TagArray

end CacheHierarchy
