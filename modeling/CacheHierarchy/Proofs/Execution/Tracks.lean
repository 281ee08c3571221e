import CacheHierarchy.Proofs.Execution.Views

/-!
# Tracking a machine

A machine is tracked while its caches are wired as planned, its tag arrays are sound and its
overview is one that can be reached. Every action keeps that, or ends in one of two faults
(`Fails`): a number that has run out of the word, or a write-back that reaches the base after its
line has left it. What an action takes in hand or leaves to do shows in the context.
-/

namespace CacheHierarchy

/-- A cache that is wired as planned. -/
structure Cache.Sound (p : Plan) (i : Nat) (c : Cache) : Prop where
  tags : c.tags.Sound
  geometry : c.tags.geometry = p.geometry i
  above : c.above = p.topology.above i
  below : c.below = p.topology.below i
  side : c.side = p.topology.side i

/-- Being wired as planned is a matter of the tags and of the wiring. -/
theorem Cache.Sound.congr {p : Plan} {i : Nat} {c c' : Cache} (h : c.Sound p i)
    (htags : c'.tags = c.tags) (habove : c'.above = c.above) (hbelow : c'.below = c.below)
    (hside : c'.side = c.side) : c'.Sound p i :=
  ⟨htags ▸ h.tags, htags ▸ h.geometry, habove.trans h.above, hbelow.trans h.below,
    hside.trans h.side⟩

/-- An operation on the tags leaves a cache wired as planned. -/
theorem Cache.Sound.becomes {p : Plan} {i : Nat} {c c' : Cache} {lines : Nat → Option Bool}
    {counters : Counters} (h : c.Sound p i) (hbecomes : c.tags.Becomes c'.tags lines counters)
    (habove : c'.above = c.above) (hbelow : c'.below = c.below) (hside : c'.side = c.side) :
    c'.Sound p i :=
  ⟨hbecomes.sound, hbecomes.geometry.trans h.geometry, habove.trans h.above,
    hbelow.trans h.below, hside.trans h.side⟩

theorem Cache.Sound.line_eq {p : Plan} {i : Nat} {c : Cache} (h : c.Sound p i) (addr : Nat) :
    c.tags.geometry.lineOf addr = p.line i addr := by
  rw [h.geometry]
  rfl

theorem Cache.Sound.victim_base_lt {p : Plan} {i line : Nat} {c : Cache} (h : c.Sound p i)
    {after : Nat → Option Bool} {dirty : Bool} {victim : Option (Nat × Bool)}
    (hdisplaces : Displaces c.tags.lines after line dirty victim) :
    ∀ v d, victim = some (v, d) → p.base i v < wordLimit := by
  intro v d hv
  have hresident := (hdisplaces.victim_eq hv).1
  rw [Plan.base, ← h.geometry]
  exact h.tags.base_lt v (hresident ▸ Option.some_ne_none d)

/-- A demand request fills a line that is not resident: the line is installed, and only a full set
gives one up for it. -/
theorem Cache.Sound.fill_fresh {p : Plan} {i addr : Nat} {kind : AccessKind} {c : Cache}
    (h : c.Sound p i) (hkind : kind.isDemand = true) (haddr : addr < wordLimit)
    (hline : c.tags.lines (p.line i addr) = none) :
    ∃ tags lines victim, c.tags.fill addr kind = .ok (false, tags) ∧
      c.tags.Becomes tags lines
        (if victim.any Prod.snd then c.tags.counters.countWriteBack else c.tags.counters) ∧
      Displaces c.tags.lines lines (p.line i addr) kind.isWrite victim ∧
      (tags.lastEviction =
        victim.map fun (line, dirty) => { addr := p.base i line, dirty }) ∧
      (victim ≠ none → (p.geometry i).Full c.tags.lines (p.line i addr)) := by
  rw [← h.line_eq] at hline ⊢
  obtain ⟨tags, lines, victim, hinstall, hbecomes, hdisplaces, hevict⟩ :=
    h.tags.install_fresh kind haddr hline
  refine ⟨tags, lines, victim, ?_, hbecomes, hdisplaces, ?_, fun hne => ?_⟩
  · rw [c.tags.fill_demand addr hkind, hinstall]
    rfl
  · rw [hevict, h.geometry]
    rfl
  · rw [← h.geometry]
    refine h.tags.full_of_install hline hinstall ?_
    rwa [hevict, ne_eq, Option.map_eq_none_iff]

namespace Machine

structure Sound (p : Plan) (m : Machine) : Prop where
  length : m.caches.length = p.topology.size
  caches : ∀ i (c : Cache), m.caches[i]? = some c → c.Sound p i
  above : m.memory.above = p.topology.last?

/-- Some number has run out of the word: a request number, a counter of memory, a clock or the
time at which a component would be done with a request. -/
def Exhausted (m : Machine) : Prop :=
  wordLimit ≤ m.nextId + 1 ∨ wordLimit ≤ m.memory.reads + 1 ∨ wordLimit ≤ m.memory.writeBacks + 1 ∨
    wordLimit ≤ m.memory.cycle + max m.memory.latency 1 ∨
    ∃ c ∈ m.caches, wordLimit ≤ c.cycle + max c.latency 1

def OutOfNumbers (m : Machine) : Prop :=
  wordLimit ≤ m.nextId + 1 ∨ wordLimit ≤ m.memory.reads + 1 ∨ wordLimit ≤ m.memory.writeBacks + 1

def OutOfTime (m : Machine) : Prop :=
  wordLimit ≤ m.memory.cycle + max m.memory.latency 1 ∨
    ∃ c ∈ m.caches, wordLimit ≤ c.cycle + max c.latency 1

theorem exhausted_iff {m : Machine} : m.Exhausted ↔ m.OutOfNumbers ∨ m.OutOfTime := by
  simp only [Exhausted, OutOfNumbers, OutOfTime, or_assoc]

end Machine

/-- A write-back has reached the base, which does not hold its line. -/
def Overview.Stranded (p : Plan) (b : Nat) (o : Overview) : Prop :=
  o.repair = none ∧ ∃ r, (.fills b, r) ∈ o.traffic ∧ r.kind = .writeBack ∧
    o.lines b (p.line b r.addr) = none

/-- A machine is wired as planned, and its overview can be reached. -/
structure Tracks (p : Plan) (x : Context) (m : Machine) : Prop where
  sound : m.Sound p
  reach : Reach p (m.overview x)

/-- Some number has run out of the word; if it is no time, then in a machine that is tracked. -/
def Machine.Overflows (p : Plan) (m : Machine) : Prop :=
  m.OutOfTime ∨ m.OutOfNumbers ∧ ∃ x, Tracks p x m

theorem Machine.Overflows.exhausted {p : Plan} {m : Machine} (h : m.Overflows p) : m.Exhausted :=
  Machine.exhausted_iff.2 (h.elim .inr fun h => .inl h.1)

/-- The faults in which an action can end. -/
def Fails (p : Plan) (fault : Fault) (m : Machine) : Prop :=
  fault = .sumOverflow ∧ m.Overflows p ∨
    ∃ array addr, fault = .writeBackMissed array addr ∧
      ∃ b o, p.topology.base? = some b ∧ Reach p o ∧ o.Stranded p b

theorem Tracks.step {p : Plan} {x x' : Context} {m m' : Machine} {o : Overview}
    (h : Tracks p x m) (hsound : m'.Sound p) (hstep : Step p (m.overview x) o)
    (ho : m'.overview x' = o) : Tracks p x' m' :=
  ⟨hsound, ho ▸ h.reach.step hstep⟩

namespace Machine

variable {p : Plan} {x : Context} {m : Machine} {i : Nat} {c c' : Cache}

namespace Sound

variable (h : m.Sound p)

include h

theorem exists_cache (hi : i < p.topology.size) :
    ∃ c, m.caches[i]? = some c ∧ c.Sound p i := by
  rw [← h.length] at hi
  exact ⟨m.caches[i], List.getElem?_eq_getElem hi, h.caches i _ (List.getElem?_eq_getElem hi)⟩

/-- The caches and what stands above memory decide. -/
theorem congr {m' : Machine} (hcaches : m'.caches = m.caches)
    (habove : m'.memory.above = m.memory.above) : m'.Sound p :=
  ⟨hcaches ▸ h.length, hcaches ▸ h.caches, habove.trans h.above⟩

theorem put (hc' : c'.Sound p i) : (m.put i c').Sound p := by
  refine ⟨?_, fun j d hd => ?_, h.above⟩
  · rw [← h.length]
    exact List.length_set
  · by_cases hj : j = i
    · subst hj
      have hlt : j < (m.caches.set j c').length := (List.getElem?_eq_some_iff.1 hd).1
      rw [List.length_set] at hlt
      rw [Machine.put, List.getElem?_set_self hlt] at hd
      cases hd
      exact hc'
    · rw [caches_put_ne c' hj] at hd
      exact h.caches j d hd

end Sound

def noted (m : Machine) (event : Event) : Machine := { m with journal := event :: m.journal }

def accepting (m : Machine) (r : Request) : Machine :=
  { m with
    memory := { m.memory with queue := m.memory.queue.push r }
    journal := .accepted r :: m.journal }

def counting (m : Machine) (s : Spot) : Machine :=
  { m with memory := { m.memory with reads := m.memory.reads + s.reads } }

theorem overview_put (hc : m.caches[i]? = some c) (c' : Cache) :
    (m.put i c').overview x = { m.overview x with
      traffic := (m.put i c').traffic + x.held
      lines := Function.update (m.overview x).lines i c'.tags.lines
      expected := Function.update (m.overview x).expected (.cache i) c'.expected.ids
      counters := Function.update (m.overview x).counters i c'.tags.counters } := by
  simp only [overview, view_put hc, expectedAt_put hc]
  rfl

theorem lines_overview (hc : m.caches[i]? = some c) : (m.overview x).lines i = c.tags.lines :=
  view_eq hc _ _

theorem counters_overview (hc : m.caches[i]? = some c) :
    (m.overview x).counters i = c.tags.counters :=
  view_eq hc _ _

theorem expected_overview (hc : m.caches[i]? = some c) :
    (m.overview x).expected (.cache i) = c.expected.ids :=
  expectedAt_eq hc

theorem overview_put_settled (hc : m.caches[i]? = some c) {tags : TagArray}
    {lines : Nat → Option Bool} {counters : Counters} (h : c.tags.Becomes tags lines counters)
    {expected : WriteBackLedger} {id : Nat}
    (hids : (expected.ids : Multiset Nat) = (c.expected.ids : Multiset Nat).erase id) :
    (m.put i { c with tags, expected }).overview x = { m.overview x with
      lines := Function.update (m.overview x).lines i lines
      expected := (m.overview x).settle (.cache i) id
      counters := Function.update (m.overview x).counters i counters } := by
  rw [overview_put hc, traffic_put_same hc _ (by rfl), Overview.settle, expected_overview hc,
    ← hids, ← h.lines, ← h.counters]
  rfl

/-- An operation on a tag array shows in the lines and in the counters. -/
theorem overview_put_tags (hc : m.caches[i]? = some c) {tags : TagArray}
    {lines : Nat → Option Bool} {counters : Counters} (h : c.tags.Becomes tags lines counters) :
    (m.put i { c with tags }).overview x = { m.overview x with
      lines := Function.update (m.overview x).lines i lines
      counters := Function.update (m.overview x).counters i counters } := by
  rw [overview_put hc, traffic_put_same hc _ (by rfl), ← expected_overview hc (x := x),
    Function.update_eq_self, ← h.lines, ← h.counters]
  rfl

theorem update_lines_eq_self (hc : m.caches[i]? = some c) :
    Function.update (m.overview x).lines i c.tags.lines = (m.overview x).lines := by
  rw [← lines_overview hc (x := x), Function.update_eq_self]

theorem update_counters_eq_self (hc : m.caches[i]? = some c) :
    Function.update (m.overview x).counters i c.tags.counters = (m.overview x).counters := by
  rw [← counters_overview hc (x := x), Function.update_eq_self]

theorem overview_put_queues (hc : m.caches[i]? = some c) (c' : Cache) (htags : c'.tags = c.tags)
    (hexpected : c'.expected = c.expected) :
    (m.put i c').overview x = { m.overview x with traffic := (m.put i c').traffic + x.held } := by
  have hlines : (m.put i c').view (fun c => c.tags.lines) (fun _ => none) =
      m.view (fun c => c.tags.lines) fun _ => none :=
    view_put_same hc c' (congrArg TagArray.lines htags) _
  have hcounters : (m.put i c').view (fun c => c.tags.counters) {} =
      m.view (fun c => c.tags.counters) {} :=
    view_put_same hc c' (congrArg TagArray.counters htags) _
  simp only [overview, hlines, hcounters, expectedAt_put_same hc c' hexpected]
  rfl

theorem overview_noted (event : Event) : (m.noted event).overview x =
    { m.overview x with journal := event :: (m.overview x).journal } := rfl

theorem traffic_accepting (r : Request) :
    (m.accepting r).traffic = (.memory, r) ::ₘ m.traffic := by
  simp only [traffic, accepting, GatedQueue.items_push, List.map_append, List.map_cons,
    List.map_nil, ← Multiset.coe_add, Multiset.coe_singleton, ← Multiset.singleton_add]
  rw [add_right_comm, ← add_assoc, add_comm]

theorem overview_accepting (r : Request) :
    (m.accepting r).overview x = { m.overview x with
      traffic := (.memory, r) ::ₘ (m.overview x).traffic
      journal := .accepted r :: m.journal } := by
  simp only [overview, traffic_accepting, Multiset.cons_add]
  rfl

end Machine

end CacheHierarchy
