import CacheHierarchy.Proofs.Atomic.Basic
import CacheHierarchy.Proofs.Execution.Repairs

/-!
# Scenes

A scene is what of a machine matters for its contents: the rows of its tag arrays, the requests
under way, the table of outstanding accesses, and the write-backs that memory has taken in. Clocks,
the order of queues, ledgers and the journal do not show.

The contents of a scene anticipate the write-backs under way: a line is dirty in a cache if a
write-back of it is still on its way there, and those on their way to memory are counted. So the
contents stay the same while a write-back travels and when it arrives.
-/

namespace CacheHierarchy

/-- What of a machine matters for its contents. -/
@[ext]
structure Scene where
  rows : Nat → Nat → LineSet
  traffic : Multiset (Spot × Request)
  outstanding : Outstanding
  writeBacks : Nat

def demands (traffic : Multiset (Spot × Request)) : Multiset (Spot × Request) :=
  traffic.filter fun y => y.2.kind.isDemand = true

namespace Scene

def add (s : Spot) (r : Request) (σ : Scene) : Scene := { σ with traffic := (s, r) ::ₘ σ.traffic }

section

variable (p : Plan)

def turn (i line : Nat) (f : LineSet → Nat → LineSet) (σ : Scene) : Scene :=
  { σ with rows := Function.update σ.rows i ((p.geometry i).alter (σ.rows i) line f) }

/-- No write-back is on its way to a cache. -/
def Calm (σ : Scene) : Prop := ∀ y ∈ σ.traffic, ∀ i line, ¬p.Doomed i line y

/-- A write-back of the line that set `k` holds under a tag is on its way to cache `i`. -/
def Due (i k tag : Nat) (σ : Scene) : Prop :=
  ∃ line, line % (p.geometry i).numSets = k ∧ line / (p.geometry i).numSets = tag ∧
    ∃ y ∈ σ.traffic, p.Doomed i line y

open Classical in
/-- A line as it is once the write-backs under way have arrived. -/
noncomputable def settled (i k : Nat) (σ : Scene) (l : Line) : Line :=
  { l with dirty := l.dirty || decide (σ.Due p i k l.tag) }

noncomputable def contents (σ : Scene) : Contents where
  sets i k := (σ.rows i k).stack.map (σ.settled p i k)
  writeBacks := σ.writeBacks + (p.writeBackIds .memory σ.traffic).card

def Tidy (σ : Scene) : Prop := ∀ i < p.topology.size, ∀ line,
  (σ.rows i (line % (p.geometry i).numSets)).Sound (p.geometry i).assoc

end

variable {p : Plan} {σ : Scene} {s : Spot} {r : Request} {i b line : Nat}

@[simp] theorem rows_add : (σ.add s r).rows = σ.rows := rfl

@[simp] theorem traffic_add : (σ.add s r).traffic = (s, r) ::ₘ σ.traffic := rfl

@[simp] theorem writeBacks_add : (σ.add s r).writeBacks = σ.writeBacks := rfl

theorem demands_add_writeBack (hr : r.kind = .writeBack) :
    demands (σ.add s r).traffic = demands σ.traffic := by
  simp [demands, hr]

theorem demands_add (hr : r.kind.isDemand = true) :
    demands (σ.add s r).traffic = (s, r) ::ₘ demands σ.traffic := by
  simp [demands, hr]

theorem demands_add_free (h : demands σ.traffic = 0) (hr : r.kind.isDemand = true) :
    demands (σ.add s r).traffic = {(s, r)} := by
  rw [demands_add hr, h]
  rfl

/-! Where write-backs are on their way to. -/

theorem Calm.add (h : σ.Calm p) (hr : ∀ i line, ¬p.Doomed i line (s, r)) : (σ.add s r).Calm p := by
  intro y hy
  rcases Multiset.mem_cons.1 hy with rfl | hy
  · exact hr
  · exact h y hy

theorem not_doomed_of_demand (hr : r.kind.isDemand = true) (i line : Nat) :
    ¬p.Doomed i line (s, r) :=
  fun hdoomed => Request.ne_writeBack hr hdoomed.isWriteBack

theorem not_doomed_of_memory (hs : p.receiver? s = some .memory) (i line : Nat) :
    ¬p.Doomed i line (s, r) := fun hdoomed => by
  have hreceiver := hdoomed.receiver
  rw [hs] at hreceiver
  cases hreceiver

theorem due_add (hr : ∀ i line, ¬p.Doomed i line (s, r)) (k tag : Nat) :
    (σ.add s r).Due p i k tag ↔ σ.Due p i k tag := by
  refine exists_congr fun line => and_congr_right' (and_congr_right' ?_)
  simp only [Scene.add, Multiset.mem_cons, exists_eq_or_imp, hr i line, false_or]

theorem due_add_doomed (hr : p.Doomed b line (s, r)) (i k tag : Nat) :
    (σ.add s r).Due p i k tag ↔ σ.Due p i k tag ∨
      i = b ∧ k = line % (p.geometry b).numSets ∧ tag = line / (p.geometry b).numSets := by
  constructor
  · rintro ⟨line', hset, htag, y, hy, hdoomed⟩
    rcases Multiset.mem_cons.1 hy with rfl | hy
    · obtain rfl : i = b := by
        have hreceiver := hdoomed.receiver.symm.trans hr.receiver
        exact Site.cache.inj (Option.some.inj hreceiver)
      obtain rfl : line' = line := hdoomed.line_eq.symm.trans hr.line_eq
      exact .inr ⟨rfl, hset.symm, htag.symm⟩
    · exact .inl ⟨line', hset, htag, y, hy, hdoomed⟩
  · rintro (⟨line', hset, htag, y, hy, hdoomed⟩ | ⟨rfl, rfl, rfl⟩)
    · exact ⟨line', hset, htag, y, Multiset.mem_cons_of_mem hy, hdoomed⟩
    · exact ⟨line, rfl, rfl, (s, r), Multiset.mem_cons_self _ _, hr⟩

theorem Calm.not_due (h : σ.Calm p) (i k tag : Nat) : ¬σ.Due p i k tag :=
  fun ⟨line, _, _, y, hy, hdoomed⟩ => h y hy i line hdoomed

/-- Where no write-back is on its way to a cache the stacks are those of the rows. -/
theorem Calm.sets_contents (h : σ.Calm p) (i k : Nat) :
    (σ.contents p).sets i k = (σ.rows i k).stack := by
  refine (List.map_congr_left fun l _ => ?_).trans (List.map_id _)
  simp [settled, h.not_due]

/-! How the contents change with the traffic. -/

theorem settled_add (hr : ∀ i line, ¬p.Doomed i line (s, r)) (i k : Nat) :
    (σ.add s r).settled p i k = σ.settled p i k := by
  funext l
  rw [settled, settled, decide_eq_decide.2 (due_add hr k l.tag)]

theorem settled_add_doomed (hr : p.Doomed b line (s, r)) (i k : Nat) :
    (σ.add s r).settled p i k = fun l =>
      { σ.settled p i k l with
        dirty := (σ.settled p i k l).dirty || decide (i = b ∧ k = line % (p.geometry b).numSets ∧
          l.tag = line / (p.geometry b).numSets) } := by
  funext l
  classical
  rw [settled, decide_eq_decide.2 (due_add_doomed hr i k l.tag), Bool.decide_or, ← Bool.or_assoc]
  rfl

theorem contents_add_demand (hr : r.kind.isDemand = true) :
    (σ.add s r).contents p = σ.contents p := by
  simp only [contents, settled_add (not_doomed_of_demand hr), rows_add, traffic_add,
    writeBacks_add, writeBackIds_cons_demand hr]

theorem contents_add_memory (hr : r.kind = .writeBack) (hs : p.receiver? s = some .memory) :
    (σ.add s r).contents p = (σ.contents p).spill true := by
  simp only [contents, settled_add (not_doomed_of_memory hs), rows_add, traffic_add,
    writeBacks_add, writeBackIds_cons hr hs, Multiset.card_cons]
  rfl

theorem contents_count : ({ σ with writeBacks := σ.writeBacks + 1 } : Scene).contents p =
    (σ.contents p).spill true :=
  Contents.ext rfl (Nat.add_right_comm ..)

theorem contents_add_cache (hr : p.Doomed b line (s, r)) :
    (σ.add s r).contents p = (σ.contents p).alter p b line Stack.stain := by
  have hne : p.receiver? s ≠ some .memory := by
    rw [hr.receiver]
    exact fun h => Site.noConfusion (Option.some.inj h)
  have hsets : ∀ i k, ((σ.add s r).contents p).sets i k =
      ((σ.contents p).alter p b line Stack.stain).sets i k := by
    intro i k
    simp only [contents, settled_add_doomed hr, Contents.alter, rows_add]
    by_cases hi : i = b
    · subst hi
      by_cases hk : k = line % (p.geometry i).numSets
      · subst hk
        simp only [Function.update_self, Stack.stain, List.map_map]
        refine List.map_congr_left fun l _ => ?_
        simp only [Function.comp_apply, settled, Line.mk.injEq, true_and]
        rw [Bool.eq_iff_iff]
        simp
      · simp [hk]
    · simp [hi]
  refine Contents.ext (funext fun i => funext (hsets i)) ?_
  simp only [contents, Contents.alter, traffic_add, writeBacks_add, writeBackIds_cons_of_ne hne]

/-! How the contents change with the rows. -/

@[simp] theorem settled_turn (f : LineSet → Nat → LineSet) (j k : Nat) :
    (σ.turn p i line f).settled p j k = σ.settled p j k := rfl

theorem rows_turn (f : LineSet → Nat → LineSet) : (σ.turn p i line f).rows =
    Function.update σ.rows i ((p.geometry i).alter (σ.rows i) line f) := rfl

/-- An operation on a row that is one on its stack. -/
theorem contents_turn {f : LineSet → Nat → LineSet} {f' : Stack → Nat → Stack}
    (hf : (f (σ.rows i (line % (p.geometry i).numSets))
        (line / (p.geometry i).numSets)).stack.map
          (σ.settled p i (line % (p.geometry i).numSets)) =
      f' ((σ.rows i (line % (p.geometry i).numSets)).stack.map
        (σ.settled p i (line % (p.geometry i).numSets))) (line / (p.geometry i).numSets)) :
    (σ.turn p i line f).contents p = (σ.contents p).alter p i line f' := by
  have hsets : ∀ j k, ((σ.turn p i line f).contents p).sets j k =
      ((σ.contents p).alter p i line f').sets j k := by
    intro j k
    simp only [contents, settled_turn, rows_turn, Contents.alter, Geometry.alter]
    by_cases hj : j = i
    · subst hj
      by_cases hk : k = line % (p.geometry j).numSets
      · subst hk
        simpa using hf
      · simp [hk]
    · simp [hj]
  exact Contents.ext (funext fun j => funext (hsets j)) rfl

section Calm

variable (hcalm : σ.Calm p) (htidy : σ.Tidy p) (hi : i < p.topology.size)

include hcalm

theorem Calm.map_settled (i k : Nat) (lines : Stack) : lines.map (σ.settled p i k) = lines := by
  refine (List.map_congr_left fun l _ => ?_).trans (List.map_id _)
  simp [settled, hcalm.not_due]

include htidy hi

theorem dirty?_contents (line : Nat) : (σ.contents p).dirty? p i line =
    (σ.rows i (line % (p.geometry i).numSets)).dirty? (line / (p.geometry i).numSets) := by
  rw [Contents.dirty?, hcalm.sets_contents, (htidy i hi line).dirty?_stack]

theorem holds_contents (line : Nat) :
    (σ.contents p).holds p i line = (p.geometry i).holds (σ.rows i) line := by
  rw [Contents.holds_eq, hcalm.sets_contents, (htidy i hi line).holds_stack, Geometry.holds]

theorem leaving?_contents (line : Nat) :
    (σ.contents p).leaving? p i line = (p.geometry i).leaving? (σ.rows i) line := by
  rw [Contents.leaving?, hcalm.sets_contents,
    (htidy i hi line).leaving?_stack (p.geometry i).assoc_pos, Geometry.leaving?]

theorem contents_turn_use (isWrite : Bool) (line : Nat) :
    (σ.turn p i line (LineSet.use isWrite)).contents p =
      (σ.contents p).alter p i line (Stack.use isWrite) := by
  apply contents_turn
  rw [hcalm.map_settled, hcalm.map_settled, (htidy i hi line).stack_use]

theorem contents_turn_place (dirty : Bool) (line : Nat) :
    (σ.turn p i line (LineSet.place dirty)).contents p =
      (σ.contents p).place p i line dirty := by
  apply contents_turn
  rw [hcalm.map_settled, hcalm.map_settled,
    (htidy i hi line).stack_place (p.geometry i).assoc_pos]

theorem contents_turn_remove (line : Nat) :
    (σ.turn p i line LineSet.remove).contents p =
      (σ.contents p).alter p i line Stack.remove := by
  apply contents_turn
  rw [hcalm.map_settled, hcalm.map_settled, (htidy i hi line).stack_remove]

end Calm

/-- A line becomes dirty, whatever is on its way. -/
theorem contents_turn_stain (htidy : σ.Tidy p) (hi : i < p.topology.size) (line : Nat) :
    (σ.turn p i line LineSet.stain).contents p =
      (σ.contents p).alter p i line Stack.stain := by
  apply contents_turn
  rw [(htidy i hi line).stack_stain, Stack.stain, Stack.stain, List.map_map, List.map_map]
  refine List.map_congr_left fun l _ => ?_
  simp [settled, Bool.or_right_comm]

end Scene

/-! The scene of a machine. -/

namespace Machine

variable {p : Plan} {x : Context} {m : Machine} {i line : Nat} {c : Cache} {s : Spot} {r : Request}

/-- What of a machine in the middle of an action matters for its contents. -/
def scene (x : Context) (m : Machine) : Scene where
  rows := m.view (fun c => c.tags.row) fun _ => .empty 0
  traffic := m.traffic + x.held
  outstanding := m.outstanding
  writeBacks := m.memory.writeBacks

structure Stands (p : Plan) (x : Context) (σ : Scene) (m : Machine) : Prop where
  sound : m.Sound p
  scene : m.scene x = σ

theorem rows_scene (hc : m.caches[i]? = some c) : (m.scene x).rows i = c.tags.row :=
  view_eq hc _ _

theorem Sound.tidy (h : m.Sound p) (x : Context) : (m.scene x).Tidy p := by
  intro i hi line
  obtain ⟨c, hc, hsound⟩ := h.exists_cache hi
  have hrow := c.tags.row_val ⟨line % c.tags.geometry.numSets,
    Nat.mod_lt _ c.tags.geometry.numSets_pos⟩
  have hset := hsound.tags.sets ⟨line % c.tags.geometry.numSets,
    Nat.mod_lt _ c.tags.geometry.numSets_pos⟩
  rw [← hrow, hsound.geometry] at hset
  rw [rows_scene hc]
  exact hset

namespace Stands

variable {σ : Scene} (h : m.Stands p x σ)

include h

theorem tidy : σ.Tidy p := h.scene ▸ h.sound.tidy x

theorem rows_eq (hc : m.caches[i]? = some c) : σ.rows i = c.tags.row := h.scene ▸ rows_scene hc

theorem put_push (c' : Cache) (hc : m.caches[i]? = some c)
    (htraffic : c'.traffic i = (s, r) ::ₘ c.traffic i) (hc' : c'.Sound p i)
    (htags : c'.tags = c.tags) : (m.put i c').Stands p x (σ.add s r) := by
  refine ⟨h.sound.put hc', ?_⟩
  have hrows : (m.put i c').view (fun c => c.tags.row) (fun _ => .empty 0) =
      m.view (fun c => c.tags.row) fun _ => .empty 0 :=
    view_put_same hc c' (congrArg TagArray.row htags) _
  rw [← Multiset.singleton_add] at htraffic
  rw [← h.scene]
  simp only [Machine.scene, hrows, traffic_put_add hc c' htraffic, Scene.add,
    Multiset.singleton_add, Multiset.cons_add]
  rfl

theorem put_same (c' : Cache) (hc : m.caches[i]? = some c)
    (htraffic : c'.traffic i = c.traffic i) (hc' : c'.Sound p i)
    (hrow : c'.tags.row = c.tags.row) : (m.put i c').Stands p x σ := by
  refine ⟨h.sound.put hc', ?_⟩
  have hrows : (m.put i c').view (fun c => c.tags.row) (fun _ => .empty 0) =
      m.view (fun c => c.tags.row) fun _ => .empty 0 :=
    view_put_same hc c' hrow _
  rw [← h.scene]
  simp only [Machine.scene, hrows, traffic_put_same hc c' htraffic]
  rfl

theorem put_tags (hc : m.caches[i]? = some c) {tags : TagArray} {f : LineSet → Nat → LineSet}
    {counters : Counters}
    (hturns : c.tags.Turns tags (c.tags.geometry.alter c.tags.row line f) counters)
    (htags : tags.Sound) (expected : WriteBackLedger) :
    (m.put i { c with tags, expected }).Stands p x (σ.turn p i line f) := by
  have hsound := h.sound.caches i c hc
  refine ⟨h.sound.put ⟨htags, hturns.geometry.trans hsound.geometry, hsound.above, hsound.below,
    hsound.side⟩, ?_⟩
  rw [← h.scene]
  simp only [Machine.scene, Scene.turn, view_put hc, hturns.rows, hsound.geometry,
    traffic_put_same hc { c with tags, expected } rfl, view_eq hc]
  rfl

theorem noted (event : Event) : (m.noted event).Stands p x σ :=
  ⟨h.sound.congr rfl rfl, h.scene⟩

theorem with_nextId : Stands p x σ { m with nextId := m.nextId + 1 } :=
  ⟨h.sound.congr rfl rfl, h.scene⟩

theorem with_expected (expected : WriteBackLedger) :
    Stands p x σ { m with memory := { m.memory with expected } } :=
  ⟨h.sound.congr rfl rfl, h.scene⟩

theorem with_outstanding (outstanding : Outstanding) :
    Stands p x { σ with outstanding } { m with outstanding } :=
  ⟨h.sound.congr rfl rfl, h.scene ▸ rfl⟩

theorem accepting (r : Request) : (m.accepting r).Stands p x (σ.add .memory r) := by
  refine ⟨h.sound.congr rfl rfl, ?_⟩
  rw [← h.scene]
  simp only [Machine.scene, traffic_accepting, Scene.add, Multiset.cons_add]
  rfl

theorem finish (r : Request) :
    Stands p x (σ.add .finished r.finish) { m with finished := m.finished ++ [r.finish] } := by
  refine ⟨h.sound.congr rfl rfl, ?_⟩
  rw [← h.scene]
  simp only [Machine.scene, Machine.traffic, Scene.add, List.map_append, List.map_cons,
    List.map_nil, ← Multiset.coe_add, Multiset.coe_singleton, ← Multiset.singleton_add]
  congr 1
  ac_rfl

end Stands

end Machine

end CacheHierarchy
