import CacheHierarchy.Proofs.Tags.Calls
import Mathlib.Algebra.BigOperators.Fin
import Mathlib.Algebra.Order.BigOperators.Group.Finset

/-!
# The balance of dirty lines

A line becomes dirty in three ways: a write installs it, a write hits it while it is clean, or a
write-back reaches it while it is clean. It stops being dirty in three ways as well: a fill displaces
it, the level below has it dropped, or it is invalidated. `TagArray.tally` counts the calls of a run
of one such kind, and what became dirty is what is dirty still and what has been reported as dirty.

The two counters of a tag array stop at the largest word, and up to there they are these numbers.
-/

namespace CacheHierarchy

namespace LineSet

def dirtyCount (s : LineSet) : Nat := s.ways.countP (Option.any Line.dirty)

variable (s : LineSet) (tag way : Nat)

@[simp] theorem dirtyCount_empty (assoc : Nat) : (empty assoc).dirtyCount = 0 := by
  simp [dirtyCount, empty, List.countP_replicate]

theorem countP_set {s : LineSet} {way : Nat} (h : way < s.ways.length) (line? : Option Line) :
    (s.ways.set way line?).countP (Option.any Line.dirty) +
        ((s.line? way).any Line.dirty).toNat =
      s.dirtyCount + (line?.any Line.dirty).toNat := by
  have hway : s.line? way = s.ways[way] := by
    rw [LineSet.line?, List.getElem?_eq_getElem h]
    rfl
  have hpos : s.ways[way].any Line.dirty = true → 0 < s.ways.countP (Option.any Line.dirty) :=
    fun hdirty => List.countP_pos_iff.2 ⟨_, List.getElem_mem h, hdirty⟩
  rw [List.countP_set h, hway, dirtyCount]
  cases hold : s.ways[way].any Line.dirty <;> cases line?.any Line.dirty <;> simp_all

theorem ways_soil (s : LineSet) (way : Nat) :
    (s.soil way).ways = s.ways.set way ((s.line? way).map fun l => { l with dirty := true }) := by
  rw [soil, List.modify_eq_set, line?]
  cases s.ways[way]? <;> rfl

/-- A line is clean before it is soiled or dirty already. -/
theorem dirtyCount_soil {s : LineSet} {way : Nat} {l : Line} (h : s.line? way = some l) :
    (s.soil way).dirtyCount = s.dirtyCount + (!l.dirty).toNat := by
  have hset := countP_set (lt_length_of_line? h) (some { l with dirty := true })
  rw [dirtyCount, ways_soil, h, Option.map_some]
  rw [h] at hset
  cases hdirty : l.dirty <;> simp_all

theorem dirty?_of_find? {s : LineSet} {tag way : Nat} {d : Bool} (hfind : s.find? tag = some way)
    (h : s.line? way = some { tag, dirty := d }) : s.dirty? tag = some d := by
  rw [dirty?, hfind, Option.bind_some, h, Option.map_some]

theorem dirty?_of_find?_eq_none {s : LineSet} {tag : Nat} (hfind : s.find? tag = none) :
    s.dirty? tag = none := by
  rw [dirty?, hfind, Option.bind_none, Option.map_none]

theorem dirtyCount_stain :
    (s.stain tag).dirtyCount = s.dirtyCount + (s.dirty? tag == some false).toNat := by
  cases hfind : s.find? tag with
  | none => simp [stain, hfind, dirty?_of_find?_eq_none hfind]
  | some way =>
    obtain ⟨d, hd⟩ := line?_of_find? hfind
    rw [stain, hfind, Option.elim_some, dirtyCount_soil hd, dirty?_of_find? hfind hd]
    cases d <;> rfl

theorem dirtyCount_use (isWrite : Bool) : (s.use isWrite tag).dirtyCount =
    s.dirtyCount + (isWrite && s.dirty? tag == some false).toNat := by
  cases isWrite with
  | true =>
    have huse : (s.use true tag).dirtyCount = (s.stain tag).dirtyCount := by
      rw [use, stain]
      cases s.find? tag <;> rfl
    rw [huse, dirtyCount_stain, Bool.true_and]
  | false =>
    rw [use]
    cases s.find? tag <;> rfl

theorem dirtyCount_remove :
    (s.remove tag).dirtyCount + (s.dirty? tag == some true).toNat = s.dirtyCount := by
  cases hfind : s.find? tag with
  | none => simp [remove, hfind, dirty?_of_find?_eq_none hfind]
  | some way =>
    obtain ⟨d, hd⟩ := line?_of_find? hfind
    have hset := countP_set (lt_length_of_line? hd) none
    rw [remove, hfind, Option.elim_some, dirty?_of_find? hfind hd]
    rw [hd] at hset
    cases d <;> exact hset

theorem dirtyCount_place {assoc : Nat} {s : LineSet} (hs : s.Sound assoc) (hassoc : 0 < assoc)
    (dirty : Bool) (tag : Nat) :
    (s.place dirty tag).dirtyCount + (s.leaving?.any Line.dirty).toNat =
      s.dirtyCount + dirty.toNat :=
  countP_set (hs.victim_lt hassoc) (some { tag, dirty })

end LineSet

def TagAnswer.isDroppedDirty : TagAnswer → Bool
  | .dropped l => l.dirty
  | _ => false

def TagAnswer.isBackDirty : TagAnswer → Bool
  | .droppedDirty dirty => dirty
  | _ => false

namespace TagArray

def dirtyCount (t : TagArray) : Nat := ∑ i, (t.setAt i).dirtyCount

theorem dirtyCount_empty (name : String) (g : Geometry) : (empty name g).dirtyCount = 0 :=
  Finset.sum_eq_zero fun i _ => by rw [setAt_empty, LineSet.dirtyCount_empty]

theorem dirtyCount_eq_sum_rows (t : TagArray) :
    t.dirtyCount = ∑ k ∈ Finset.range t.geometry.numSets, (t.row k).dirtyCount := by
  rw [Finset.sum_range]
  exact Finset.sum_congr rfl fun i _ => by rw [row_val]

variable {t t' : TagArray} {addr : Nat}

/-- Only the row in which a line belongs may change its number of dirty lines. -/
theorem dirtyCount_of_turns {f : LineSet → Nat → LineSet} {counters : Counters}
    (h : t.Turns t' (t.geometry.alter t.row (t.geometry.lineOf addr) f) counters) :
    t'.dirtyCount + (t.rowOf addr).dirtyCount = t.dirtyCount +
      (f (t.rowOf addr) (t.geometry.lineOf addr / t.geometry.numSets)).dirtyCount := by
  have hrow : t.geometry.lineOf addr % t.geometry.numSets ∈ Finset.range t.geometry.numSets :=
    Finset.mem_range.2 (Nat.mod_lt _ t.geometry.numSets_pos)
  have hrest : ∑ k ∈ (Finset.range t.geometry.numSets).erase
        (t.geometry.lineOf addr % t.geometry.numSets), (t'.row k).dirtyCount =
      ∑ k ∈ (Finset.range t.geometry.numSets).erase
        (t.geometry.lineOf addr % t.geometry.numSets), (t.row k).dirtyCount := by
    refine Finset.sum_congr rfl fun k hk => ?_
    rw [h.rows, Geometry.alter, Function.update_of_ne (Finset.ne_of_mem_erase hk)]
  have hafter : t'.row (t.geometry.lineOf addr % t.geometry.numSets) =
      f (t.rowOf addr) (t.geometry.lineOf addr / t.geometry.numSets) := by
    rw [h.rows, Geometry.alter, Function.update_self]
    rfl
  rw [dirtyCount_eq_sum_rows, dirtyCount_eq_sum_rows, h.geometry, ← Finset.add_sum_erase _ _ hrow,
    ← Finset.add_sum_erase _ _ hrow, hrest, hafter, rowOf]
  omega

theorem dirtyCount_of_dropped {dirty : Bool} {counters : Counters}
    (hdirty : (t.rowOf addr).dirty? (t.geometry.lineOf addr / t.geometry.numSets) = some dirty)
    (h : t.Turns t' (t.geometry.alter t.row (t.geometry.lineOf addr) LineSet.remove) counters) :
    t.dirtyCount = t'.dirtyCount + dirty.toNat := by
  have hcount := dirtyCount_of_turns h
  have hremove := (t.rowOf addr).dirtyCount_remove (t.geometry.lineOf addr / t.geometry.numSets)
  have hbeq : (some dirty == some true) = dirty := by cases dirty <;> rfl
  rw [hdirty, hbeq] at hremove
  omega

/-! ### What a call does to dirty lines -/

def holdsClean (t : TagArray) (addr : Nat) : Bool :=
  match t.line? addr with
  | .ok (some l) => !l.dirty
  | _ => false

/-- A write installs its line. -/
def writeFills (_ : TagArray) : TagCall → Bool
  | .fill _ .write => true
  | _ => false

/-- A write is looked up and hits a clean line. -/
def writeSoils (t : TagArray) : TagCall → Bool
  | .lookUp addr .write => t.holdsClean addr
  | _ => false

/-- A write-back reaches a clean line. -/
def writeBackSoils (t : TagArray) : TagCall → Bool
  | .fill addr .writeBack => t.holdsClean addr
  | _ => false

/-- A fill displaces a dirty line. -/
def fillDisplacesDirty (t : TagArray) : TagCall → Bool
  | .fill addr kind =>
    match t.fill addr kind with
    | .ok (_, t) => t.lastEviction.any Eviction.dirty
    | .error _ => false
  | _ => false

/-- How many calls of a run are of a kind, each seen at the array that it is made on. -/
def tally (kind : TagArray → TagCall → Bool) (t : TagArray) : List TagCall → Nat
  | [] => 0
  | call :: rest =>
    (kind t call).toNat +
      match t.call call with
      | .ok (_, t) => t.tally kind rest
      | .error _ => 0

theorem tally_cons {kind : TagArray → TagCall → Bool} {call : TagCall} {answer : TagAnswer}
    (h : t.call call = .ok (answer, t')) (rest : List TagCall) :
    t.tally kind (call :: rest) = (kind t call).toNat + t'.tally kind rest := by
  rw [tally, h]

def soiled (t : TagArray) (calls : List TagCall) : Nat :=
  t.tally writeFills calls + t.tally writeSoils calls + t.tally writeBackSoils calls

/-- A call turned `t` into `t'`: the lines that it made dirty are dirty still or reported, and the
counters have counted what was reported to them. -/
structure Balances (t t' : TagArray) (call : TagCall) (answer : TagAnswer) : Prop where
  balance : t.dirtyCount + (t.writeFills call).toNat + (t.writeSoils call).toNat +
      (t.writeBackSoils call).toNat =
    t'.dirtyCount + (t.fillDisplacesDirty call).toNat + answer.isBackDirty.toNat +
      answer.isDroppedDirty.toNat
  writeBacks : t'.counters.writeBacks =
    if t.fillDisplacesDirty call then Word.bump t.counters.writeBacks else t.counters.writeBacks
  dirtyBackInvalidations : t'.counters.dirtyBackInvalidations =
    if answer.isBackDirty then Word.bump t.counters.dirtyBackInvalidations
    else t.counters.dirtyBackInvalidations

namespace Sound

variable {kind : AccessKind} (ht : t.Sound)

include ht

theorem holdsClean_eq (addr : Nat) : t.holdsClean addr =
    ((t.rowOf addr).dirty? (t.geometry.lineOf addr / t.geometry.numSets) == some false) := by
  rw [holdsClean, ht.line?_eq, lines_lineOf, ← rowOf_eq]
  cases (t.rowOf addr).dirty? (t.geometry.lineOf addr / t.geometry.numSets) with
  | none => rfl
  | some d => cases d <;> rfl

theorem lookupDemand_balances {hit : Bool} (h : t.lookupDemand addr kind = .ok (hit, t')) :
    t.Balances t' (.lookUp addr kind) (.resident hit) := by
  obtain ⟨-, hturns⟩ := lookupDemand_inv h
  have hcount := dirtyCount_of_turns hturns
  rw [LineSet.dirtyCount_use, ← ht.holdsClean_eq] at hcount
  have hsoils : t.writeSoils (.lookUp addr kind) = (kind.isWrite && t.holdsClean addr) := by
    cases kind <;> rfl
  refine ⟨?_, by rw [hturns.counters]; rfl, by rw [hturns.counters]; rfl⟩
  rw [hsoils]
  simp only [writeFills, writeBackSoils, fillDisplacesDirty, TagAnswer.isBackDirty,
    TagAnswer.isDroppedDirty, Bool.toNat_false]
  omega

theorem absorb_balances (h : t.absorb addr = .ok t') :
    t.Balances t' (.fill addr .writeBack) (.resident true) := by
  obtain ⟨-, hturns⟩ := absorb_inv h
  have hcount := dirtyCount_of_turns hturns
  rw [LineSet.dirtyCount_stain, ← ht.holdsClean_eq] at hcount
  have hdisplaces : t.fillDisplacesDirty (.fill addr .writeBack) = false := by
    rw [fillDisplacesDirty, fill, h]
    change t'.lastEviction.any Eviction.dirty = false
    rw [lastEviction_of_absorb h]
    rfl
  refine ⟨?_, by rw [hturns.counters, hdisplaces]; rfl, by rw [hturns.counters]; rfl⟩
  rw [hdisplaces]
  simp only [writeFills, writeSoils, writeBackSoils, TagAnswer.isBackDirty,
    TagAnswer.isDroppedDirty, Bool.toNat_false]
  omega

theorem fill_balances {resident : Bool} (hkind : kind.isDemand = true)
    (h : t.fill addr kind = .ok (resident, t')) :
    t.Balances t' (.fill addr kind) (.resident resident) := by
  obtain ⟨-, hturns, heviction⟩ := fill_inv hkind h
  have hcount := dirtyCount_of_turns hturns
  have hplace := LineSet.dirtyCount_place (ht.rowOf addr) t.geometry.assoc_pos kind.isWrite
    (t.geometry.lineOf addr / t.geometry.numSets)
  have hdisplaces : t.fillDisplacesDirty (.fill addr kind) =
      (t.rowOf addr).leaving?.any Line.dirty := by
    rw [fillDisplacesDirty, h]
    change t'.lastEviction.any Eviction.dirty = _
    rw [heviction, Geometry.leaving?, Option.map_map, Option.any_map]
    rfl
  have hleaving : (t.geometry.leaving? t.row (t.geometry.lineOf addr)).any Prod.snd =
      t.fillDisplacesDirty (.fill addr kind) := by
    rw [hdisplaces, Geometry.leaving?, Option.any_map]
    rfl
  have hcounters := hturns.counters
  rw [hleaving] at hcounters
  have hfills : t.writeFills (.fill addr kind) = kind.isWrite := by
    cases kind <;> rfl
  have hsoils : t.writeBackSoils (.fill addr kind) = false := by
    cases kind <;> first | rfl | cases hkind
  refine ⟨?_, ?_, ?_⟩
  · rw [hdisplaces, hfills, hsoils]
    simp only [writeSoils, TagAnswer.isBackDirty, TagAnswer.isDroppedDirty, Bool.toNat_false]
    omega
  · rw [hcounters]
    split <;> rfl
  · rw [hcounters]
    split <;> rfl

omit ht in
theorem invalidate_balances {l : Line} (h : t.invalidate addr = .ok (l, t')) :
    t.Balances t' (.invalidate addr) (.dropped l) := by
  obtain ⟨hdirty, hturns⟩ := invalidate_inv h
  exact ⟨dirtyCount_of_dropped hdirty hturns, by rw [hturns.counters]; rfl,
    by rw [hturns.counters]; rfl⟩

omit ht in
theorem backInvalidate_balances {dirty : Bool} (h : t.backInvalidate addr = .ok (dirty, t')) :
    t.Balances t' (.backInvalidate addr) (.droppedDirty dirty) := by
  obtain ⟨hdirty, hturns⟩ := backInvalidate_inv h
  exact ⟨dirtyCount_of_dropped hdirty hturns, by rw [hturns.counters]; rfl,
    by rw [hturns.counters]; rfl⟩

/-- Every call that is no fault balances. -/
theorem call_balances {call : TagCall} {answer : TagAnswer} (h : t.call call = .ok (answer, t')) :
    t.Balances t' call answer := by
  cases call with
  | lookUp addr kind =>
    obtain ⟨⟨hit, t''⟩, hlookup, heq⟩ := exists_ok_of_map h
    cases heq
    cases kind with
    | check =>
      obtain rfl := lookup_check hlookup
      exact ⟨rfl, rfl, rfl⟩
    | writeBack => cases hlookup
    | read | write | instFetch => exact ht.lookupDemand_balances hlookup
  | fill addr kind =>
    obtain ⟨⟨resident, t''⟩, hfill, heq⟩ := exists_ok_of_map h
    cases heq
    cases kind with
    | check => cases hfill
    | writeBack =>
      obtain ⟨t'', habsorb, heq⟩ := exists_ok_of_map hfill
      cases heq
      exact ht.absorb_balances habsorb
    | read | write | instFetch => exact ht.fill_balances rfl hfill
  | invalidate addr =>
    obtain ⟨⟨l, t''⟩, hinvalidate, heq⟩ := exists_ok_of_map h
    cases heq
    exact invalidate_balances hinvalidate
  | backInvalidate addr =>
    obtain ⟨⟨dirty, t''⟩, hinvalidate, heq⟩ := exists_ok_of_map h
    cases heq
    exact backInvalidate_balances hinvalidate

end Sound

/-! ### Runs -/

/-- Calls that turned `t` into `t'` balance as single calls do, and the counters have counted up to
the largest word. -/
structure BalancesAll (t t' : TagArray) (calls : List TagCall) (answers : List TagAnswer) :
    Prop where
  balance : t.dirtyCount + t.soiled calls =
    t'.dirtyCount + t.tally fillDisplacesDirty calls + answers.countP TagAnswer.isBackDirty +
      answers.countP TagAnswer.isDroppedDirty
  writeBacks : t'.counters.writeBacks =
    min (t.counters.writeBacks + t.tally fillDisplacesDirty calls) (wordLimit - 1)
  dirtyBackInvalidations : t'.counters.dirtyBackInvalidations =
    min (t.counters.dirtyBackInvalidations + answers.countP TagAnswer.isBackDirty) (wordLimit - 1)

structure CountsInWords (t : TagArray) : Prop where
  writeBacks : t.counters.writeBacks < wordLimit
  dirtyBackInvalidations : t.counters.dirtyBackInvalidations < wordLimit

theorem bump_if (counts : Bool) {n : Nat} (h : n < wordLimit) :
    (if counts then Word.bump n else n) = min (n + counts.toNat) (wordLimit - 1) := by
  cases counts with
  | false => simp only [Bool.false_eq_true, ↓reduceIte, Bool.toNat_false]; omega
  | true => rfl

theorem countP_cons_toNat {α : Type} (p : α → Bool) (a : α) (l : List α) :
    (a :: l).countP p = (p a).toNat + l.countP p := by
  rw [List.countP_cons, Nat.add_comm]
  cases p a <;> rfl

theorem Sound.calls_balance (ht : t.Sound) (hwords : t.CountsInWords) {calls : List TagCall}
    (haddr : ∀ call ∈ calls, call.addr < wordLimit) {answers : List TagAnswer}
    (h : t.calls calls = .ok (answers, t')) : t.BalancesAll t' calls answers := by
  induction calls generalizing t answers with
  | nil =>
    cases h
    have hwriteBacks := hwords.writeBacks
    have hinvalidations := hwords.dirtyBackInvalidations
    refine ⟨rfl, ?_, ?_⟩ <;> simp only [tally, List.countP_nil] <;> omega
  | cons call rest ih =>
    obtain ⟨hcall, hrest⟩ := List.forall_mem_cons.1 haddr
    obtain ⟨⟨answer, t₁⟩, hfirst, h⟩ := exists_ok_of_bind h
    obtain ⟨⟨answers', t₂⟩, hothers, heq⟩ := exists_ok_of_bind h
    cases heq
    have hstep := ht.call_balances hfirst
    have ht₁ : t₁.Sound := by
      have hrefines := ht.call_refines call hcall
      rw [hfirst] at hrefines
      exact hrefines.sound_of_eq_ok.1
    have hwriteBacks := hstep.writeBacks
    have hinvalidations := hstep.dirtyBackInvalidations
    rw [bump_if _ hwords.writeBacks] at hwriteBacks
    rw [bump_if _ hwords.dirtyBackInvalidations] at hinvalidations
    have hlimit : 0 < wordLimit := by decide
    have hrun := ih ht₁ ⟨by omega, by omega⟩ hrest hothers
    have hbalance := hstep.balance
    have hbalances := hrun.balance
    rw [soiled] at hbalances
    refine ⟨?_, ?_, ?_⟩
    · rw [soiled]
      simp only [tally_cons hfirst, countP_cons_toNat]
      omega
    · rw [hrun.writeBacks, tally_cons hfirst]
      omega
    · rw [hrun.dirtyBackInvalidations, countP_cons_toNat]
      omega

/-- A call that is no fault has computed a tag, so that one way of all sets fits in a word. -/
theorem span_lt_of_call {call : TagCall} {answer : TagAnswer} (h : t.call call = .ok (answer, t')) :
    t.geometry.numSets * t.geometry.lineSize < wordLimit := by
  by_contra hspan
  have hlocate : ∀ addr, t.locate addr = .error .productOverflow := fun addr => by
    rw [locate, Geometry.tagOf, Word.mul, if_neg hspan]
    rfl
  cases call with
  | lookUp addr kind =>
    cases kind <;> simp [call, lookup, contains, lookupDemand, hlocate, Except.map] at h
  | fill addr kind =>
    cases kind <;> simp [call, fill, absorb, install, hlocate, Except.map, bind, Except.bind] at h
  | invalidate addr => simp [call, invalidate, hlocate, Except.map, bind, Except.bind] at h
  | backInvalidate addr =>
    simp [call, backInvalidate, invalidate, hlocate, Except.map, bind, Except.bind] at h

/-- In every run of calls on an empty array that ends in no fault, the calls that made a line dirty
are as many as the lines that are dirty still and those that were reported as dirty: displaced by a
fill, dropped for the level below, or invalidated. The counters of the first two have these numbers
where a word can hold them, and the largest word otherwise. -/
theorem calls_account_for_dirt (name : String) (g : Geometry) {calls : List TagCall}
    (haddr : ∀ call ∈ calls, call.addr < wordLimit) {answers : List TagAnswer} {t : TagArray}
    (h : (empty name g).calls calls = .ok (answers, t)) :
    (empty name g).tally writeFills calls + (empty name g).tally writeSoils calls +
          (empty name g).tally writeBackSoils calls =
        t.dirtyCount + (empty name g).tally fillDisplacesDirty calls +
          answers.countP TagAnswer.isBackDirty + answers.countP TagAnswer.isDroppedDirty ∧
      t.counters.writeBacks =
        min ((empty name g).tally fillDisplacesDirty calls) (wordLimit - 1) ∧
      t.counters.dirtyBackInvalidations =
        min (answers.countP TagAnswer.isBackDirty) (wordLimit - 1) ∧
      ((empty name g).tally fillDisplacesDirty calls < wordLimit →
        answers.countP TagAnswer.isBackDirty < wordLimit →
        (empty name g).tally writeFills calls + (empty name g).tally writeSoils calls +
            (empty name g).tally writeBackSoils calls =
          t.dirtyCount + t.counters.writeBacks + t.counters.dirtyBackInvalidations +
            answers.countP TagAnswer.isDroppedDirty) := by
  have hbalances : (empty name g).BalancesAll t calls answers := by
    cases calls with
    | nil =>
      cases h
      exact ⟨rfl, rfl, rfl⟩
    | cons call rest =>
      obtain ⟨⟨answer, t₁⟩, hfirst, -⟩ := exists_ok_of_bind h
      have hempty : (empty name g).Sound := empty_sound (span_lt_of_call hfirst)
      have hzero : 0 < wordLimit := by decide
      exact hempty.calls_balance ⟨hzero, hzero⟩ haddr h
  obtain ⟨hbalance, hwriteBacks, hinvalidations⟩ := hbalances
  rw [dirtyCount_empty, Nat.zero_add, soiled] at hbalance
  rw [show (empty name g).counters.writeBacks = 0 from rfl, Nat.zero_add] at hwriteBacks
  rw [show (empty name g).counters.dirtyBackInvalidations = 0 from rfl, Nat.zero_add]
    at hinvalidations
  exact ⟨hbalance, hwriteBacks, hinvalidations, fun hdisplaced hdropped => by omega⟩

end TagArray

def Geometry.twoWay : Geometry := ⟨1, 2, 64, Nat.one_pos, by decide, by decide⟩

namespace TagArray

/-- Calls on one set of two ways: lines 0, 1 and 3 become dirty until they are displaced, dropped for
the level below and invalidated, and line 2 is dirty at the end. -/
def dirtyingCalls : List TagCall :=
  [.fill 0 .write, .fill 64 .read, .lookUp 64 .write, .fill 128 .read, .fill 128 .writeBack,
    .backInvalidate 64, .fill 192 .write, .lookUp 192 .write, .invalidate 192]

theorem calls_account_for_dirt_twoWay :
    (∀ call ∈ dirtyingCalls, call.addr < wordLimit) ∧
      ∃ answers t, (empty "L1D" .twoWay).calls dirtyingCalls = .ok (answers, t) ∧
        (empty "L1D" .twoWay).tally writeFills dirtyingCalls = 2 ∧
        (empty "L1D" .twoWay).tally writeSoils dirtyingCalls = 1 ∧
        (empty "L1D" .twoWay).tally writeBackSoils dirtyingCalls = 1 ∧
        t.dirtyCount = 1 ∧
        (empty "L1D" .twoWay).tally writeFills dirtyingCalls +
            (empty "L1D" .twoWay).tally writeSoils dirtyingCalls +
            (empty "L1D" .twoWay).tally writeBackSoils dirtyingCalls =
          t.dirtyCount + t.counters.writeBacks + t.counters.dirtyBackInvalidations +
            answers.countP TagAnswer.isDroppedDirty := by
  have haddr : ∀ call ∈ dirtyingCalls, call.addr < wordLimit := by decide
  refine ⟨haddr, _, _, rfl, rfl, rfl, rfl, rfl, ?_⟩
  exact (calls_account_for_dirt "L1D" .twoWay haddr rfl).2.2.2 (by decide) (by decide)

end TagArray

end CacheHierarchy
