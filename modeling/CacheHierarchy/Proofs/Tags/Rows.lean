import CacheHierarchy.Proofs.Tags.Lines

/-!
# The rows of a tag array

Row number `k` of a tag array is its set number `k`, read for any number `k`. A line belongs to one
row under one tag, and an operation on the array is an operation on that row. Each operation has
one lemma that says which row a success of it turns into what. Unlike `lines`, rows show the ways
and the order of recency.

`LineSet.clean` forgets which lines are dirty. It commutes with every operation, for neither the
line that is hit nor the line that is displaced depends on dirtiness.
-/

namespace CacheHierarchy

/-- What comes of two computations comes of the first and then of the second. -/
theorem exists_ok_of_bind {ε : Type} {α β : Type*} {x : Except ε α} {f : α → Except ε β} {b : β}
    (h : x.bind f = .ok b) : ∃ a, x = .ok a ∧ f a = .ok b := by
  cases x with
  | error e => cases h
  | ok a => exact ⟨a, rfl, h⟩

/-- What is made from a result comes of that result. -/
theorem exists_ok_of_map {ε : Type} {α β : Type*} {x : Except ε α} {f : α → β} {b : β}
    (h : x.map f = .ok b) : ∃ a, x = .ok a ∧ f a = b := by
  cases x with
  | error e => cases h
  | ok a => exact ⟨a, rfl, Except.ok.inj h⟩

namespace LineSet

def holds (s : LineSet) (tag : Nat) : Bool := (s.find? tag).isSome

def use (isWrite : Bool) (s : LineSet) (tag : Nat) : LineSet :=
  (s.find? tag).elim s fun way => (if isWrite then s.soil way else s).touch way

def stain (s : LineSet) (tag : Nat) : LineSet := (s.find? tag).elim s s.soil

/-- A line with this tag takes the place of the victim. -/
def place (dirty : Bool) (s : LineSet) (tag : Nat) : LineSet := s.install s.victim { tag, dirty }

def remove (s : LineSet) (tag : Nat) : LineSet := (s.find? tag).elim s s.drop

/-- The line whose place the next one to be admitted takes. -/
def leaving? (s : LineSet) : Option Line := s.line? s.victim

theorem use_of_not_holds {s : LineSet} {tag : Nat} (h : s.holds tag = false) (isWrite : Bool) :
    s.use isWrite tag = s := by
  rw [holds, Option.isSome_eq_false_iff, Option.isNone_iff_eq_none] at h
  rw [use, h, Option.elim_none]

def clean (s : LineSet) : LineSet :=
  { s with ways := s.ways.map (Option.map fun l => { l with dirty := false }) }

section Clean

variable (s : LineSet) (tag way : Nat)

@[simp] theorem recency_clean : s.clean.recency = s.recency := rfl

@[simp] theorem find?_clean : s.clean.find? tag = s.find? tag := by
  simp only [find?, clean, List.findIdx?_map]
  congr 1
  funext l
  cases l <;> rfl

@[simp] theorem holds_clean : s.clean.holds tag = s.holds tag := by simp [holds]

@[simp] theorem victim_clean : s.clean.victim = s.victim := by
  have hnone : (Option.isNone ∘ Option.map fun l : Line => { l with dirty := false }) =
      Option.isNone := by
    funext l
    cases l <;> rfl
  simp [victim, clean, List.findIdx?_map, hnone]

@[simp] theorem line?_clean :
    s.clean.line? way = (s.line? way).map fun l => { l with dirty := false } := by
  simp only [line?, clean, List.getElem?_map]
  rcases s.ways[way]? with _ | _ | l <;> rfl

theorem clean_touch : (s.touch way).clean = s.clean.touch way := rfl

@[simp] theorem clean_soil : (s.soil way).clean = s.clean := by
  simp only [clean, soil, mk.injEq, and_true]
  rw [List.ext_getElem?_iff]
  intro i
  simp only [List.getElem?_map, List.getElem?_modify]
  split
  · rcases s.ways[i]? with _ | _ | l <;> rfl
  · simp

theorem clean_install (l : Line) :
    (s.install way l).clean = s.clean.install way { l with dirty := false } := by
  simp [clean, install, touch, List.map_set]

theorem clean_drop : (s.drop way).clean = s.clean.drop way := by
  simp [clean, drop, List.map_set]

theorem clean_use (isWrite : Bool) : (s.use isWrite tag).clean = s.clean.use false tag := by
  simp only [use, find?_clean]
  cases s.find? tag with
  | none => rfl
  | some way => cases isWrite <;> simp [clean_touch]

@[simp] theorem clean_stain : (s.stain tag).clean = s.clean := by
  simp only [stain]
  cases s.find? tag with
  | none => rfl
  | some way => simp

theorem clean_place (dirty : Bool) : (s.place dirty tag).clean = s.clean.place false tag := by
  simp [place, clean_install]

theorem clean_remove : (s.remove tag).clean = s.clean.remove tag := by
  simp only [remove, find?_clean]
  cases s.find? tag with
  | none => rfl
  | some way => simp [clean_drop]

theorem leaving?_clean :
    s.clean.leaving? = s.leaving?.map fun l => { l with dirty := false } := by
  simp [leaving?]

end Clean

end LineSet

namespace Geometry

variable (g : Geometry) (rows : Nat → LineSet) (line : Nat)

def holds : Bool := (rows (line % g.numSets)).holds (line / g.numSets)

def alter (f : LineSet → Nat → LineSet) : Nat → LineSet :=
  Function.update rows (line % g.numSets) (f (rows (line % g.numSets)) (line / g.numSets))

def leaving? : Option (Nat × Bool) :=
  (rows (line % g.numSets)).leaving?.map fun l =>
    (l.tag * g.numSets + line % g.numSets, l.dirty)

theorem lineBase_inv {g : Geometry} {tag set base : Nat} (h : g.lineBase tag set = .ok base) :
    base = (tag * g.numSets + set) * g.lineSize := by
  unfold lineBase Word.mul Word.add at h
  by_cases htag : tag * g.numSets < wordLimit
  · by_cases hline : tag * g.numSets + set < wordLimit
    · by_cases hbase : (tag * g.numSets + set) * g.lineSize < wordLimit
      · simpa [htag, hline, hbase, bind, Except.bind, eq_comm] using h
      · simp [htag, hline, hbase, bind, Except.bind] at h
    · simp [htag, hline, bind, Except.bind] at h
  · simp [htag, bind, Except.bind] at h

theorem alter_of_not_holds (h : g.holds rows line = false) (isWrite : Bool) :
    g.alter rows line (LineSet.use isWrite) = rows := by
  rw [alter, LineSet.use_of_not_holds h, Function.update_eq_self]

theorem holds_clean : g.holds (fun k => (rows k).clean) line = g.holds rows line := by
  simp [holds]

theorem leaving?_clean : g.leaving? (fun k => (rows k).clean) line =
    (g.leaving? rows line).map fun victim => (victim.1, false) := by
  simp only [leaving?, LineSet.leaving?_clean, Option.map_map]
  rfl

/-- An operation that does not look at dirtiness commutes with forgetting it. -/
theorem clean_alter {f f' : LineSet → Nat → LineSet}
    (h : ∀ s tag, (f s tag).clean = f' s.clean tag) :
    (fun k => (g.alter rows line f k).clean) = g.alter (fun k => (rows k).clean) line f' := by
  funext k
  by_cases hk : k = line % g.numSets
  · subst hk
    simp [alter, h]
  · simp [alter, hk]

end Geometry

namespace TagArray

/-- Set number `k`, or no way at all if there is no such set. -/
def row (t : TagArray) (k : Nat) : LineSet :=
  if h : k < t.geometry.numSets then t.setAt ⟨k, h⟩ else .empty 0

theorem row_val (t : TagArray) (i : Fin t.geometry.numSets) : t.row i = t.setAt i := by
  simp [row]

theorem row_replaceSet (t : TagArray) (i : Fin t.geometry.numSets) (s : LineSet) :
    (t.replaceSet i s).row = Function.update t.row i s := by
  funext k
  by_cases hk : k < t.geometry.numSets
  · refine ((t.replaceSet i s).row_val ⟨k, hk⟩).trans ((t.setAt_replaceSet i ⟨k, hk⟩ s).trans ?_)
    split
    · rename_i hi
      rw [hi, Function.update_self]
    · rename_i hi
      rw [Function.update_of_ne fun h => hi (Fin.ext h.symm), row, dif_pos hk]
  · have hne : k ≠ i := fun h => hk (h ▸ i.isLt)
    rw [Function.update_of_ne hne, row, row, dif_neg hk]
    exact dif_neg hk

/-- The array `t` turned into `t'`, with these rows and these counters. -/
structure Turns (t t' : TagArray) (rows : Nat → LineSet) (counters : Counters) : Prop where
  geometry : t'.geometry = t.geometry
  rows : t'.row = rows
  counters : t'.counters = counters

def rowOf (t : TagArray) (addr : Nat) : LineSet :=
  t.row (t.geometry.lineOf addr % t.geometry.numSets)

theorem rowOf_eq (t : TagArray) (addr : Nat) : t.rowOf addr = t.setAt (t.geometry.setOf addr) :=
  t.row_val (t.geometry.setOf addr)

theorem turns_replaceSet (t : TagArray) (addr : Nat) {s : LineSet} {f : LineSet → Nat → LineSet}
    (h : s = f (t.rowOf addr) (t.geometry.lineOf addr / t.geometry.numSets))
    (counters : Counters) (lastEviction : Option Eviction) :
    t.Turns { t.replaceSet (t.geometry.setOf addr) s with counters, lastEviction }
      (t.geometry.alter t.row (t.geometry.lineOf addr) f) counters :=
  ⟨rfl, h ▸ t.row_replaceSet (t.geometry.setOf addr) s, rfl⟩

variable {t t' : TagArray} {addr : Nat} {kind : AccessKind}

theorem locate_inv {place : Place t.geometry.numSets} (h : t.locate addr = .ok place) :
    place =
      { set := t.geometry.setOf addr
        tag := t.geometry.lineOf addr / t.geometry.numSets
        way? := (t.rowOf addr).find? (t.geometry.lineOf addr / t.geometry.numSets) } := by
  unfold locate Geometry.tagOf Word.mul at h
  split at h
  · cases h
    rw [rowOf_eq, Geometry.lineOf, Nat.div_div_eq_div_mul, Nat.mul_comm]
  · cases h

/-- What is computed from the place of an address, if that exists. -/
theorem of_locate {α : Type} {f : Place t.geometry.numSets → Except Fault α} {a : α}
    (h : (t.locate addr).bind f = .ok a) :
    f { set := t.geometry.setOf addr
        tag := t.geometry.lineOf addr / t.geometry.numSets
        way? := (t.rowOf addr).find? (t.geometry.lineOf addr / t.geometry.numSets) } = .ok a := by
  cases hplace : t.locate addr with
  | error fault =>
    rw [hplace] at h
    cases h
  | ok place =>
    rw [hplace] at h
    rw [← locate_inv hplace]
    exact h

theorem holds_eq (t : TagArray) (addr : Nat) : t.geometry.holds t.row (t.geometry.lineOf addr) =
    ((t.rowOf addr).find? (t.geometry.lineOf addr / t.geometry.numSets)).isSome := rfl

/-! What a success of each operation amounts to. -/

theorem contains_inv {b : Bool} (h : t.contains addr = .ok b) :
    b = t.geometry.holds t.row (t.geometry.lineOf addr) := by
  have hplace := of_locate (f := fun place => .ok place.way?.isSome) h
  exact (Except.ok.inj hplace).symm

theorem line?_inv {l? : Option Line} (h : t.line? addr = .ok l?) :
    l? = ((t.rowOf addr).find? (t.geometry.lineOf addr / t.geometry.numSets)).bind
      (t.rowOf addr).line? := by
  have hplace := of_locate
    (f := fun place => .ok (place.way?.bind (t.setAt place.set).line?)) h
  simp only [rowOf_eq] at hplace ⊢
  exact (Except.ok.inj hplace).symm

theorem lookupDemand_inv {hit : Bool} (h : t.lookupDemand addr kind = .ok (hit, t')) :
    hit = t.geometry.holds t.row (t.geometry.lineOf addr) ∧
      t.Turns t' (t.geometry.alter t.row (t.geometry.lineOf addr) (LineSet.use kind.isWrite))
        (t.counters.countLookup hit kind.isWrite) := by
  have hplace := of_locate (f := fun place => .ok _) h
  have hholds := holds_eq t addr
  cases hfind : (t.rowOf addr).find? (t.geometry.lineOf addr / t.geometry.numSets) with
  | none =>
    rw [hfind] at hplace hholds
    cases hplace
    refine ⟨hholds.symm, rfl, ?_, rfl⟩
    rw [Geometry.alter_of_not_holds _ _ _ hholds]
    rfl
  | some way =>
    rw [hfind] at hplace hholds
    cases hplace
    refine ⟨hholds.symm, t.turns_replaceSet addr ?_ _ t.lastEviction⟩
    rw [LineSet.use, hfind, rowOf_eq]
    rfl

theorem absorb_inv (h : t.absorb addr = .ok t') :
    t.geometry.holds t.row (t.geometry.lineOf addr) = true ∧
      t.Turns t' (t.geometry.alter t.row (t.geometry.lineOf addr) LineSet.stain) t.counters := by
  have hplace := of_locate h
  have hholds := holds_eq t addr
  cases hfind : (t.rowOf addr).find? (t.geometry.lineOf addr / t.geometry.numSets) with
  | none =>
    rw [hfind] at hplace
    cases hplace
  | some way =>
    rw [hfind] at hplace hholds
    cases hplace
    refine ⟨hholds, t.turns_replaceSet addr ?_ _ none⟩
    rw [LineSet.stain, hfind, rowOf_eq]
    rfl

theorem lastEviction_of_absorb (h : t.absorb addr = .ok t') : t'.lastEviction = none := by
  have hplace := of_locate h
  cases hfind : (t.rowOf addr).find? (t.geometry.lineOf addr / t.geometry.numSets) with
  | none =>
    rw [hfind] at hplace
    cases hplace
  | some way =>
    rw [hfind] at hplace
    cases hplace
    rfl

theorem evictionOf_inv {way : Nat} {eviction? : Option Eviction}
    (h : t.evictionOf (t.geometry.setOf addr) way = .ok eviction?) :
    eviction? = ((t.rowOf addr).line? way).map fun l =>
      { addr := (l.tag * t.geometry.numSets + t.geometry.lineOf addr % t.geometry.numSets) *
          t.geometry.lineSize
        dirty := l.dirty } := by
  unfold evictionOf at h
  rw [← rowOf_eq] at h
  cases hline : (t.rowOf addr).line? way with
  | none =>
    rw [hline] at h
    cases h
    rfl
  | some l =>
    rw [hline] at h
    dsimp only at h
    cases hbase : t.geometry.lineBase l.tag (t.geometry.setOf addr) with
    | error fault =>
      rw [hbase] at h
      cases h
    | ok base =>
      rw [hbase] at h
      cases h
      rw [Geometry.lineBase_inv hbase, Geometry.val_setOf]
      rfl

theorem install_inv (h : t.install addr kind = .ok t') :
    t.geometry.holds t.row (t.geometry.lineOf addr) = false ∧
      t.Turns t' (t.geometry.alter t.row (t.geometry.lineOf addr) (LineSet.place kind.isWrite))
        (if (t.geometry.leaving? t.row (t.geometry.lineOf addr)).any Prod.snd then
          t.counters.countWriteBack else t.counters) ∧
      t'.lastEviction = (t.geometry.leaving? t.row (t.geometry.lineOf addr)).map fun victim =>
        { addr := victim.1 * t.geometry.lineSize, dirty := victim.2 } := by
  have hplace := of_locate h
  have hholds := holds_eq t addr
  cases hfind : (t.rowOf addr).find? (t.geometry.lineOf addr / t.geometry.numSets) with
  | some way =>
    rw [hfind] at hplace
    cases hplace
  | none =>
    rw [hfind] at hplace hholds
    dsimp only at hplace
    cases hevict : t.evictionOf (t.geometry.setOf addr) (t.setAt (t.geometry.setOf addr)).victim with
    | error fault =>
      rw [hevict] at hplace
      cases hplace
    | ok eviction? =>
      rw [hevict] at hplace
      cases hplace
      rw [← rowOf_eq] at hevict
      have hleaving : eviction? = (t.geometry.leaving? t.row (t.geometry.lineOf addr)).map
          fun victim => { addr := victim.1 * t.geometry.lineSize, dirty := victim.2 } := by
        rw [evictionOf_inv hevict, Geometry.leaving?, Option.map_map]
        rfl
      have hdirty : eviction?.any Eviction.dirty =
          (t.geometry.leaving? t.row (t.geometry.lineOf addr)).any Prod.snd := by
        rw [hleaving, Option.any_map]
      rw [hdirty]
      refine ⟨hholds, t.turns_replaceSet addr ?_ _ eviction?, hleaving⟩
      rw [LineSet.place, rowOf_eq]

theorem fill_inv (hkind : kind.isDemand = true) {resident : Bool}
    (h : t.fill addr kind = .ok (resident, t')) :
    t.geometry.holds t.row (t.geometry.lineOf addr) = false ∧
      t.Turns t' (t.geometry.alter t.row (t.geometry.lineOf addr) (LineSet.place kind.isWrite))
        (if (t.geometry.leaving? t.row (t.geometry.lineOf addr)).any Prod.snd then
          t.counters.countWriteBack else t.counters) ∧
      t'.lastEviction = (t.geometry.leaving? t.row (t.geometry.lineOf addr)).map fun victim =>
        { addr := victim.1 * t.geometry.lineSize, dirty := victim.2 } := by
  rw [t.fill_demand addr hkind] at h
  cases hinstall : t.install addr kind with
  | error fault =>
    rw [hinstall] at h
    cases h
  | ok t'' =>
    rw [hinstall] at h
    cases h
    exact install_inv hinstall

theorem invalidate_inv {l : Line} (h : t.invalidate addr = .ok (l, t')) :
    (t.rowOf addr).dirty? (t.geometry.lineOf addr / t.geometry.numSets) = some l.dirty ∧
      t.Turns t' (t.geometry.alter t.row (t.geometry.lineOf addr) LineSet.remove) t.counters := by
  have hplace := of_locate h
  cases hfind : (t.rowOf addr).find? (t.geometry.lineOf addr / t.geometry.numSets) with
  | none =>
    rw [hfind] at hplace
    cases hplace
  | some way =>
    rw [hfind] at hplace
    cases hplace
    obtain ⟨d, hd⟩ := LineSet.line?_of_find? hfind
    refine ⟨?_, t.turns_replaceSet addr ?_ _ t.lastEviction⟩
    · rw [LineSet.dirty?, hfind, Option.bind_some, ← rowOf_eq, hd]
      rfl
    · rw [LineSet.remove, hfind, rowOf_eq]
      rfl

theorem backInvalidate_inv {dirty : Bool} (h : t.backInvalidate addr = .ok (dirty, t')) :
    (t.rowOf addr).dirty? (t.geometry.lineOf addr / t.geometry.numSets) = some dirty ∧
      t.Turns t' (t.geometry.alter t.row (t.geometry.lineOf addr) LineSet.remove)
        (t.counters.countBackInvalidation dirty) := by
  cases hinvalidate : t.invalidate addr with
  | error fault =>
    rw [backInvalidate, hinvalidate] at h
    cases h
  | ok result =>
    rw [backInvalidate, hinvalidate] at h
    cases h
    obtain ⟨hdirty, hturns⟩ := invalidate_inv hinvalidate
    refine ⟨hdirty, hturns.geometry, hturns.rows, ?_⟩
    rw [hturns.counters]

end TagArray

end CacheHierarchy
