import CacheHierarchy.Proofs.Tags.Stacks

/-!
# Tag arrays as least recently used caches

`LruCache` is what a set-associative cache with replacement by least recent use is in the books: a
stack of lines for each set, most recently used first, and the latest eviction. `call?` says what a
call on it answers and leaves; a call outside of the contract of tag arrays has no result.

`TagArray.lru` reads a tag array as such a cache. A call on a sound array succeeds exactly if the
call on the cache has a result, with the same answer and the same cache left, and what it leaves is
sound; so it is for any number of calls, from an empty array on.
-/

namespace CacheHierarchy

inductive TagCall
  | lookUp (addr : Nat) (kind : AccessKind)
  | fill (addr : Nat) (kind : AccessKind)
  | invalidate (addr : Nat)
  | backInvalidate (addr : Nat)
  deriving DecidableEq, Repr

/-- What a call returns: whether the line was resident, the line that was dropped, or whether the
dropped line was dirty. -/
inductive TagAnswer
  | resident (hit : Bool)
  | dropped (line : Line)
  | droppedDirty (dirty : Bool)
  deriving DecidableEq, Repr

def TagCall.addr : TagCall → Nat
  | lookUp addr _ | fill addr _ | invalidate addr | backInvalidate addr => addr

namespace TagArray

def call (t : TagArray) : TagCall → Except Fault (TagAnswer × TagArray)
  | .lookUp addr kind => (t.lookup addr kind).map fun (hit, t) => (.resident hit, t)
  | .fill addr kind => (t.fill addr kind).map fun (hit, t) => (.resident hit, t)
  | .invalidate addr => (t.invalidate addr).map fun (line, t) => (.dropped line, t)
  | .backInvalidate addr => (t.backInvalidate addr).map fun (dirty, t) => (.droppedDirty dirty, t)

/-- Calls one after the other, up to the first that is a fault. -/
def calls (t : TagArray) : List TagCall → Except Fault (List TagAnswer × TagArray)
  | [] => .ok ([], t)
  | call :: rest => do
    let (answer, t) ← t.call call
    let (answers, t) ← t.calls rest
    return (answer :: answers, t)

end TagArray

@[ext] structure LruCache where
  sets : Nat → Stack
  /-- The line that the latest fill displaced. -/
  lastEviction : Option Eviction

namespace LruCache

def empty : LruCache := { sets := fun _ => [], lastEviction := none }

section

variable (g : Geometry) (c : LruCache)

def stackOf (line : Nat) : Stack := c.sets (line % g.numSets)

/-- The stack in which a line belongs is changed by an operation on the tag of the line. All other
stacks are left alone. -/
def alter (line : Nat) (f : Stack → Nat → Stack) : LruCache :=
  { c with
    sets :=
      Function.update c.sets (line % g.numSets) (f (c.stackOf g line) (line / g.numSets)) }

def dirty? (line : Nat) : Option Bool := (c.stackOf g line).dirty? (line / g.numSets)

def holds (line : Nat) : Bool := (c.dirty? g line).isSome

/-- The eviction that installing a line amounts to: the last line of its stack, if that is full. -/
def eviction? (line : Nat) : Option Eviction :=
  ((c.stackOf g line).leaving? g.assoc).map fun l =>
    { addr := (l.tag * g.numSets + line % g.numSets) * g.lineSize, dirty := l.dirty }

/-- A look-up by a demand access. The line moves to the front if it is in its stack. -/
def lookUp (line : Nat) (isWrite : Bool) : TagAnswer × LruCache :=
  (.resident (c.holds g line), c.alter g line (Stack.use isWrite))

/-- A write-back makes its line dirty in place. The line has to be in its stack. -/
def absorb? (line : Nat) : Option (TagAnswer × LruCache) :=
  if c.holds g line then
    some (.resident true, { c.alter g line Stack.stain with lastEviction := none })
  else none

/-- A fill by a demand access puts its line at the front. The line must not be in its stack. -/
def install? (line : Nat) (isWrite : Bool) : Option (TagAnswer × LruCache) :=
  if c.holds g line then none
  else
    some (.resident false,
      { c.alter g line (Stack.place g.assoc isWrite) with lastEviction := c.eviction? g line })

def call? : TagCall → Option (TagAnswer × LruCache)
  | .lookUp addr .check => some (.resident (c.holds g (g.lineOf addr)), c)
  | .lookUp _ .writeBack => none
  | .lookUp addr kind => some (c.lookUp g (g.lineOf addr) kind.isWrite)
  | .fill _ .check => none
  | .fill addr .writeBack => c.absorb? g (g.lineOf addr)
  | .fill addr kind => c.install? g (g.lineOf addr) kind.isWrite
  | .invalidate addr => (c.dirty? g (g.lineOf addr)).map fun dirty =>
      (.dropped { tag := g.lineOf addr / g.numSets, dirty },
        c.alter g (g.lineOf addr) Stack.remove)
  | .backInvalidate addr => (c.dirty? g (g.lineOf addr)).map fun dirty =>
      (.droppedDirty dirty, c.alter g (g.lineOf addr) Stack.remove)

def calls? (c : LruCache) : List TagCall → Option (List TagAnswer × LruCache)
  | [] => some ([], c)
  | call :: rest => do
    let (answer, c) ← c.call? g call
    let (answers, c) ← c.calls? rest
    return (answer :: answers, c)

end

end LruCache

namespace TagArray

/-- What a tag array shows of itself: the stack of each set, and the latest eviction. -/
def lru (t : TagArray) : LruCache where
  sets k := (t.row k).stack
  lastEviction := t.lastEviction

theorem lru_empty (name : String) (g : Geometry) : (empty name g).lru = LruCache.empty := by
  refine LruCache.ext (funext fun k => ?_) rfl
  exact stack_row_empty name g k

/-- An array and a cache come to the same: they answer alike and leave a sound array of this
geometry and the cache that it shows, or the one ends in a fault and the other has no result. -/
inductive Refines {α : Type} (g : Geometry) :
    Except Fault (α × TagArray) → Option (α × LruCache) → Prop
  | ok (answer : α) (t : TagArray) (sound : t.Sound) (geometry : t.geometry = g) :
    Refines g (.ok (answer, t)) (some (answer, t.lru))
  | error (fault : Fault) : Refines g (.error fault) none

namespace Sound

variable {t t' : TagArray} (ht : t.Sound) {addr : Nat}

include ht

theorem rowOf (addr : Nat) : (t.rowOf addr).Sound t.geometry.assoc := by
  rw [rowOf_eq]
  exact ht.sets _

theorem dirty?_lru (addr : Nat) :
    t.lru.dirty? t.geometry (t.geometry.lineOf addr) = t.lines (t.geometry.lineOf addr) := by
  rw [lines_lineOf, ← rowOf_eq]
  exact (ht.rowOf addr).dirty?_stack _

theorem holds_lru (addr : Nat) : t.lru.holds t.geometry (t.geometry.lineOf addr) =
    t.geometry.holds t.row (t.geometry.lineOf addr) :=
  (ht.rowOf addr).holds_stack _

theorem eviction?_lru (addr : Nat) : t.lru.eviction? t.geometry (t.geometry.lineOf addr) =
    (t.geometry.leaving? t.row (t.geometry.lineOf addr)).map fun victim =>
      { addr := victim.1 * t.geometry.lineSize, dirty := victim.2 } := by
  have hleaving := (ht.rowOf addr).leaving?_stack t.geometry.assoc_pos
  rw [LruCache.eviction?, Geometry.leaving?, Option.map_map]
  exact congrArg (Option.map _) hleaving

omit ht in
/-- An operation on the row of a line shows as one on its stack. -/
theorem lru_of_turns {f : LineSet → Nat → LineSet} {f' : Stack → Nat → Stack} {counters : Counters}
    (h : t.Turns t' (t.geometry.alter t.row (t.geometry.lineOf addr) f) counters)
    (hf : ∀ tag, (f (t.rowOf addr) tag).stack = f' (t.rowOf addr).stack tag) :
    t'.lru = { t.lru.alter t.geometry (t.geometry.lineOf addr) f' with
      lastEviction := t'.lastEviction } := by
  refine LruCache.ext (funext fun k => ?_) rfl
  change (t'.row k).stack = (t.lru.alter t.geometry (t.geometry.lineOf addr) f').sets k
  rw [h.rows, LruCache.alter]
  dsimp only
  by_cases hk : k = t.geometry.lineOf addr % t.geometry.numSets
  · subst hk
    rw [Geometry.alter, Function.update_self, Function.update_self]
    exact hf _
  · rw [Geometry.alter, Function.update_of_ne hk, Function.update_of_ne hk]
    rfl

/-! Each operation, for a line that is resident and for one that is not. -/

theorem lookupDemand_refines (addr : Nat) (kind : AccessKind) :
    Refines t.geometry
      ((t.lookupDemand addr kind).map fun (hit, t) => (TagAnswer.resident hit, t))
      (some (t.lru.lookUp t.geometry (t.geometry.lineOf addr) kind.isWrite)) := by
  obtain ⟨hit, t', hlookup⟩ : ∃ hit t', t.lookupDemand addr kind = .ok (hit, t') := by
    simp only [lookupDemand, ht.locate_eq, Except.map]
    split <;> exact ⟨_, _, rfl⟩
  obtain ⟨hhit, hturns⟩ := lookupDemand_inv hlookup
  have hlru := lru_of_turns hturns fun tag => (ht.rowOf addr).stack_use kind.isWrite tag
  have heviction : t'.lastEviction = t.lastEviction := by
    simp only [lookupDemand, ht.locate_eq, Except.map] at hlookup
    split at hlookup <;> cases hlookup <;> rfl
  rw [heviction] at hlru
  rw [hlookup, LruCache.lookUp, ht.holds_lru, ← hhit, ← show t'.lru = t.lru.alter _ _ _ from hlru]
  exact .ok _ t' (ht.of_lookupDemand hlookup) hturns.geometry

theorem absorb_refines (addr : Nat) :
    Refines t.geometry ((t.absorb addr).map fun t => (TagAnswer.resident true, t))
      (t.lru.absorb? t.geometry (t.geometry.lineOf addr)) := by
  have hholds : t.lru.holds t.geometry (t.geometry.lineOf addr) =
      (t.lines (t.geometry.lineOf addr)).isSome := by rw [LruCache.holds, ht.dirty?_lru]
  rw [LruCache.absorb?, hholds]
  cases hline : t.lines (t.geometry.lineOf addr) with
  | none =>
    rw [ht.absorb_miss hline]
    exact .error _
  | some d =>
    obtain ⟨t', habsorb, hbecomes⟩ := ht.absorb_hit hline
    have hlru := lru_of_turns (absorb_inv habsorb).2 fun tag => (ht.rowOf addr).stack_stain tag
    rw [lastEviction_of_absorb habsorb] at hlru
    rw [habsorb, Option.isSome_some, if_pos rfl, ← hlru]
    exact .ok _ t' hbecomes.sound hbecomes.geometry

theorem install_refines (kind : AccessKind) (haddr : addr < wordLimit) :
    Refines t.geometry ((t.install addr kind).map fun t => (TagAnswer.resident false, t))
      (t.lru.install? t.geometry (t.geometry.lineOf addr) kind.isWrite) := by
  have hholds : t.lru.holds t.geometry (t.geometry.lineOf addr) =
      (t.lines (t.geometry.lineOf addr)).isSome := by rw [LruCache.holds, ht.dirty?_lru]
  rw [LruCache.install?, hholds]
  cases hline : t.lines (t.geometry.lineOf addr) with
  | none =>
    obtain ⟨t', lines, victim, hinstall, hbecomes, -, -⟩ := ht.install_fresh kind haddr hline
    obtain ⟨-, hturns, heviction⟩ := install_inv hinstall
    have hlru := lru_of_turns hturns fun tag =>
      (ht.rowOf addr).stack_place t.geometry.assoc_pos kind.isWrite tag
    rw [heviction, ← ht.eviction?_lru] at hlru
    rw [hinstall, Option.isSome_none, if_neg Bool.false_ne_true, ← hlru]
    exact .ok _ t' hbecomes.sound hbecomes.geometry
  | some d =>
    obtain ⟨way, hfind, -⟩ := ht.exists_way hline
    simp only [install, ht.locate_eq, bind, Except.bind, hfind]
    exact .error _

theorem fill_demand_refines (kind : AccessKind) (hkind : kind.isDemand = true)
    (haddr : addr < wordLimit) :
    Refines t.geometry ((t.fill addr kind).map fun (hit, t) => (TagAnswer.resident hit, t))
      (t.lru.install? t.geometry (t.geometry.lineOf addr) kind.isWrite) := by
  rw [t.fill_demand addr hkind]
  change Refines _ (_ <$> _ <$> t.install addr kind) _
  rw [Functor.map_map]
  exact ht.install_refines kind haddr

theorem invalidate_hit {d : Bool} (h : t.lines (t.geometry.lineOf addr) = some d) :
    ∃ t', t.invalidate addr =
        .ok ({ tag := t.geometry.lineOf addr / t.geometry.numSets, dirty := d }, t') ∧
      t.Becomes t' (Function.update t.lines (t.geometry.lineOf addr) none) t.counters ∧
      t'.lru = t.lru.alter t.geometry (t.geometry.lineOf addr) Stack.remove := by
  obtain ⟨way, hfind, hway⟩ := ht.exists_way h
  have hs := ht.sets (t.geometry.setOf addr)
  simp only [invalidate, ht.locate_eq, bind, Except.bind, pure, Except.pure, hfind, hway,
    Option.getD_some]
  refine ⟨_, rfl, ht.becomes_update h (hs.drop way) (hs.dirty?_drop hway) _ t.lastEviction, ?_⟩
  refine lru_of_turns (t.turns_replaceSet addr ?_ t.counters t.lastEviction)
    fun tag => (ht.rowOf addr).stack_remove tag
  rw [LineSet.remove, rowOf_eq, hfind]
  rfl

theorem invalidate_miss (h : t.lines (t.geometry.lineOf addr) = none) :
    t.invalidate addr = .error (.dropMissed t.name addr) := by
  simp only [invalidate, ht.locate_eq, bind, Except.bind, ht.find?_eq_none h]
  rfl

theorem call_refines (call : TagCall) (haddr : call.addr < wordLimit) :
    Refines t.geometry (t.call call) (t.lru.call? t.geometry call) := by
  cases call with
  | lookUp addr kind =>
    cases kind with
    | check =>
      have hcheck : t.call (.lookUp addr .check) =
          .ok (.resident (t.lru.holds t.geometry (t.geometry.lineOf addr)), t) := by
        rw [LruCache.holds, ht.dirty?_lru]
        simp only [call, lookup, ht.contains_eq, Except.map]
      rw [hcheck]
      exact .ok _ t ht rfl
    | writeBack => exact .error _
    | read => exact ht.lookupDemand_refines addr .read
    | write => exact ht.lookupDemand_refines addr .write
    | instFetch => exact ht.lookupDemand_refines addr .instFetch
  | fill addr kind =>
    cases kind with
    | check => exact .error _
    | writeBack =>
      change Refines _ (_ <$> _ <$> t.absorb addr) _
      rw [Functor.map_map]
      exact ht.absorb_refines addr
    | read => exact ht.fill_demand_refines .read rfl haddr
    | write => exact ht.fill_demand_refines .write rfl haddr
    | instFetch => exact ht.fill_demand_refines .instFetch rfl haddr
  | invalidate addr =>
    rw [LruCache.call?, ht.dirty?_lru, call]
    cases hline : t.lines (t.geometry.lineOf addr) with
    | none =>
      rw [ht.invalidate_miss hline]
      exact .error _
    | some d =>
      obtain ⟨t', hinvalidate, hbecomes, hlru⟩ := ht.invalidate_hit hline
      rw [hinvalidate, Option.map_some, ← hlru]
      exact .ok _ t' hbecomes.sound hbecomes.geometry
  | backInvalidate addr =>
    rw [LruCache.call?, ht.dirty?_lru, call, TagArray.backInvalidate]
    cases hline : t.lines (t.geometry.lineOf addr) with
    | none =>
      rw [ht.invalidate_miss hline]
      exact .error _
    | some d =>
      obtain ⟨t', hinvalidate, hbecomes, hlru⟩ := ht.invalidate_hit hline
      have hsound := (hbecomes.sound.becomes_counters (t'.counters.countBackInvalidation d)).sound
      rw [hinvalidate, Option.map_some, ← hlru]
      exact .ok _ _ hsound hbecomes.geometry

end Sound

theorem Refines.bind {α β : Type} {g : Geometry} {result : Except Fault (α × TagArray)}
    {reference : Option (α × LruCache)} {f : α × TagArray → Except Fault (β × TagArray)}
    {f' : α × LruCache → Option (β × LruCache)} (h : Refines g result reference)
    (hf : ∀ answer t, t.Sound → t.geometry = g → Refines g (f (answer, t)) (f' (answer, t.lru))) :
    Refines g (result >>= f) (reference >>= f') := by
  cases h with
  | ok answer t sound geometry => exact hf answer t sound geometry
  | error fault => exact .error fault

theorem Sound.calls_refines {t : TagArray} (ht : t.Sound) (calls : List TagCall)
    (haddr : ∀ call ∈ calls, call.addr < wordLimit) :
    Refines t.geometry (t.calls calls) (t.lru.calls? t.geometry calls) := by
  induction calls generalizing t with
  | nil => exact .ok [] t ht rfl
  | cons call rest ih =>
    obtain ⟨hcall, hrest⟩ := List.forall_mem_cons.1 haddr
    refine (ht.call_refines call hcall).bind fun answer t' ht' hgeometry => ?_
    have hcalls := ih ht' hrest
    rw [hgeometry] at hcalls
    refine hcalls.bind fun answers t'' ht'' hgeometry' => ?_
    exact .ok (answer :: answers) t'' ht'' hgeometry'

theorem Refines.toOption_eq {α : Type} {g : Geometry} {result : Except Fault (α × TagArray)}
    {reference : Option (α × LruCache)} (h : Refines g result reference) :
    result.toOption.map (fun x => (x.1, x.2.lru)) = reference := by
  cases h <;> rfl

theorem Refines.sound_of_eq_ok {α : Type} {g : Geometry} {answer : α} {t : TagArray}
    {reference : Option (α × LruCache)} (h : Refines g (.ok (answer, t)) reference) :
    t.Sound ∧ t.geometry = g := by
  cases h with
  | ok _ _ sound geometry => exact ⟨sound, geometry⟩

/-- A tag array is a cache with a least recently used list for each set. Calls on an empty array
answer as calls on an empty cache do and leave the stacks and the latest eviction that those leave;
they end in a fault exactly where the cache has no result. In what they leave, the recency list of
each set names each way in use once, and no two ways hold one tag. -/
theorem calls_refine_lru (name : String) {g : Geometry} (hspan : g.numSets * g.lineSize < wordLimit)
    (calls : List TagCall) (haddr : ∀ call ∈ calls, call.addr < wordLimit) :
    ((empty name g).calls calls).toOption.map (fun x => (x.1, x.2.lru)) =
        LruCache.empty.calls? g calls ∧
      ∀ answers t, (empty name g).calls calls = .ok (answers, t) →
        t.geometry = g ∧ ∀ k < g.numSets, (t.row k).Sound g.assoc := by
  have hempty : (empty name g).Sound := empty_sound hspan
  have hrefines := hempty.calls_refines calls haddr
  rw [lru_empty] at hrefines
  refine ⟨hrefines.toOption_eq, fun answers t hcalls => ?_⟩
  rw [hcalls] at hrefines
  obtain ⟨hsound, rfl⟩ := hrefines.sound_of_eq_ok
  refine ⟨rfl, fun k hk => ?_⟩
  rw [t.row_val ⟨k, hk⟩]
  exact hsound.sets _

/-- One set of two ways, filled up, used out of order, emptied and filled again: a write-back marks
its line and does not move it, and the line least recently used leaves. -/
theorem calls_refine_lru_twoWay :
    let g : Geometry := ⟨1, 2, 64, by decide, by decide, by decide⟩
    let calls : List TagCall := [.fill 0 .read, .fill 64 .write, .fill 0 .writeBack,
      .lookUp 0 .check, .fill 128 .read, .invalidate 64, .lookUp 128 .write, .fill 192 .read,
      .fill 0 .read]
    ((empty "L1D" g).calls calls).toOption.map (fun x => (x.1, x.2.lru)) =
        LruCache.empty.calls? g calls ∧
      (LruCache.empty.calls? g calls).map (fun x => (x.1, x.2.sets 0, x.2.lastEviction)) = some
        ([.resident false, .resident false, .resident true, .resident true, .resident false,
          .dropped ⟨1, true⟩, .resident true, .resident false, .resident false],
        [⟨0, false⟩, ⟨3, false⟩], some ⟨128, true⟩) := by
  intro g calls
  exact ⟨(calls_refine_lru "L1D" (by decide) calls (by decide)).1, by decide⟩

end TagArray

end CacheHierarchy
