import CacheHierarchy.Machine.Stages
import CacheHierarchy.Proofs.Execution.Tracks

/-!
# The operations of a machine

One lemma for each operation that actions are made of, and one for each way in which a request
changes hands: out of a queue into the hands of an action, and from there into another queue.
-/

namespace CacheHierarchy

def Context.hold (x : Context) (s : Spot) (r : Request) : Context :=
  { x with held := (s, r) ::ₘ x.held }

theorem Fails.late {p : Plan} {m : Machine} (h : m.OutOfTime) : Fails p .sumOverflow m :=
  .inl ⟨rfl, .inl h⟩

theorem Tracks.fails {p : Plan} {x : Context} {m : Machine} (h : Tracks p x m)
    (hnumbers : m.OutOfNumbers) : Fails p .sumOverflow m :=
  .inl ⟨rfl, .inr ⟨hnumbers, x, h⟩⟩

namespace Machine

variable {p : Plan} {m : Machine} {i j : Nat} {c d : Cache} {r : Request}

section Operations

variable {α : Type} {Q : α → Machine → Prop} {E : Fault → Machine → Prop}

theorem cacheAt_ends {Q : Cache → Machine → Prop} (hc : m.caches[i]? = some c) (h : Q c m) :
    Ends Q E (cacheAt i m) := by
  apply Ends.get_bind
  rw [hc]
  exact h

theorem neighbour_ends {Q : Cache → Machine → Prop} (hne : j ≠ i) (hd : m.caches[j]? = some d)
    (h : Q d m) : Ends Q E (neighbour i j m) := by
  refine Ends.bind (Ends.attempt_ok ?_ h)
  rw [neighbour?, if_neg hne, hd]

theorem freshId_ends {Q : Nat → Machine → Prop} {x : Context} (htracks : Tracks p x m)
    (h : m.nextId + 1 < wordLimit → Q m.nextId { m with nextId := m.nextId + 1 }) :
    Ends Q (Fails p) (freshId m) := by
  refine Ends.bind (Ends.bind (Ends.attempt_add_of_lt (fun hlt => ?_) fun hlimit => ?_))
  · exact h hlt
  · exact htracks.fails (.inl hlimit)

variable {Q : Unit → Machine → Prop}

theorem setCache_ends (h : Q () (m.put i c)) : Ends Q E (setCache i c m) := h

theorem record_ends {event : Event} (h : Q () (m.noted event)) : Ends Q E (record event m) := h

theorem sendToMemory_ends (h : ∀ readyAt, Q () (m.accepting { r with readyAt })) :
    Ends Q (Fails p) (sendToMemory r m) := by
  refine Ends.bind (Ends.bind (Ends.attempt_add ?_ fun hlimit => ?_))
  · exact h _
  · exact .late (.inl (hlimit.trans (Nat.add_le_add_left (Nat.le_max_left ..) _)))

theorem arrival_eq (hc : m.caches[i]? = some c) :
    (∃ n, c.arrival = .ok n) ∨ c.arrival = .error .sumOverflow ∧ m.OutOfTime := by
  unfold Cache.arrival Word.add
  by_cases hlt : c.cycle + c.latency < wordLimit
  · rw [if_pos hlt]
    exact .inl ⟨_, rfl⟩
  · rw [if_neg hlt]
    refine .inr ⟨rfl, .inr ⟨c, List.mem_of_getElem? hc, ?_⟩⟩
    exact (Nat.le_of_not_lt hlt).trans (Nat.add_le_add_left (Nat.le_max_left ..) _)

theorem acceptFill_ends {Q : Cache → Machine → Prop} (hc : m.caches[i]? = some c)
    (h : ∀ readyAt, Q { c with fills := c.fills.push { r with readyAt } } m) :
    Ends Q (Fails p) (attempt (c.acceptFill r) m) := by
  rcases arrival_eq hc with ⟨n, hn⟩ | ⟨hn, hlate⟩
  · refine Ends.attempt_ok ?_ (h n)
    rw [Cache.acceptFill, hn]
    rfl
  · refine Ends.attempt_error ?_ (.late hlate)
    rw [Cache.acceptFill, hn]
    rfl

theorem acceptLookup_ends {Q : Cache → Machine → Prop} (hc : m.caches[i]? = some c)
    (h : ∀ readyAt, Q { c with lookups := c.lookups.push { r with readyAt } } m) :
    Ends Q (Fails p) (attempt (c.acceptLookup r) m) := by
  rcases arrival_eq hc with ⟨n, hn⟩ | ⟨hn, hlate⟩
  · refine Ends.attempt_ok ?_ (h n)
    rw [Cache.acceptLookup, hn]
    rfl
  · refine Ends.attempt_error ?_ (.late hlate)
    rw [Cache.acceptLookup, hn]
    rfl

theorem handFill_ends (hne : j ≠ i) (hd : m.caches[j]? = some d)
    (h : ∀ readyAt, Q () (m.put j { d with fills := d.fills.push { r with readyAt } })) :
    Ends Q (Fails p) (handFill i j r m) :=
  Ends.bind (neighbour_ends hne hd (Ends.bind (acceptFill_ends hd h)))

theorem handDown_ends (hne : j ≠ i) (hd : m.caches[j]? = some d)
    (h : ∀ readyAt, Q () (m.put j { d with lookups := d.lookups.push { r with readyAt } })) :
    Ends Q (Fails p) (handDown i j r m) :=
  Ends.bind (neighbour_ends hne hd (Ends.bind (acceptLookup_ends hd h)))

end Operations

end Machine

namespace Tracks

variable {p : Plan} {x : Context} {m : Machine} {i : Nat} {c : Cache} {s : Spot} {r : Request}

theorem note (h : Tracks p x m) (event : Event) (hevent : event.isTracked = false)
    (hread : event.isRead = false) : Tracks p x (m.noted event) :=
  h.step (h.sound.congr rfl rfl) (.note event hevent (.inl hread)) rfl

/-- What is in hand is part of the traffic. -/
theorem overview_hold (m : Machine) (x : Context) (s : Spot) (r : Request) :
    m.overview (x.hold s r) =
      { m.overview x with traffic := (s, r) ::ₘ (m.overview x).traffic } := by
  simp only [Machine.overview, Context.hold, Multiset.add_cons]

theorem traffic_hold (m : Machine) (x : Context) (s : Spot) (r : Request) :
    (m.overview (x.hold s r)).traffic = (s, r) ::ₘ (m.overview x).traffic := by
  rw [overview_hold]

theorem takeAll (h : Tracks p x m) (hc : m.caches[i]? = some c) {c' : Cache}
    (hc' : c'.Sound p i) {taken : Multiset (Spot × Request)}
    (htraffic : c.traffic i = taken + c'.traffic i) (htags : c'.tags = c.tags)
    (hexpected : c'.expected = c.expected) :
    Tracks p { x with held := taken + x.held } (m.put i c') := by
  refine ⟨h.sound.put hc', ?_⟩
  have hsame : (m.put i c').overview { x with held := taken + x.held } = m.overview x := by
    rw [Machine.overview_put_queues hc c' htags hexpected]
    simp only [Machine.overview, Machine.traffic_eq_put_add hc c' htraffic]
    rw [add_left_comm, add_assoc]
  rw [hsame]
  exact h.reach

theorem take (h : Tracks p x m) (hc : m.caches[i]? = some c) {c' : Cache} (hc' : c'.Sound p i)
    (htraffic : c.traffic i = (s, r) ::ₘ c'.traffic i) (htags : c'.tags = c.tags)
    (hexpected : c'.expected = c.expected) : Tracks p (x.hold s r) (m.put i c') := by
  rw [← Multiset.singleton_add] at htraffic
  have htaken := h.takeAll hc hc' htraffic htags hexpected
  rwa [Multiset.singleton_add] at htaken

theorem handTo (h : Tracks p (x.hold s r) m) {s' : Spot} {readyAt : Nat} {dirty done : Bool}
    (hroute : Route p (m.overview (x.hold s r)) r s s') (hleft : ∀ j, s ≠ .lookups j)
    (hkept : s' ≠ .memory) (hc : m.caches[i]? = some c) {c' : Cache} (hc' : c'.Sound p i)
    (htraffic : c'.traffic i = (s', { r with readyAt, dirty, done }) ::ₘ c.traffic i)
    (htags : c'.tags = c.tags) (hexpected : c'.expected = c.expected) :
    Tracks p x ((m.counting s).put i c') := by
  have hsound : (m.counting s).Sound p := h.sound.congr rfl rfl
  apply h.step (hsound.put hc') (.move (traffic_hold m x s r) hroute readyAt dirty done hleft
    fun _ => hkept)
  rw [← Multiset.singleton_add] at htraffic
  rw [Machine.overview_put_queues (m := m.counting s) hc c' htags hexpected]
  simp only [Machine.overview, Context.hold,
    Machine.traffic_put_add (m := m.counting s) hc c' htraffic, Multiset.singleton_add,
    Multiset.cons_add]
  rfl

theorem sendToMemory (h : Tracks p (x.hold s r) m)
    (hroute : Route p (m.overview (x.hold s r)) r s .memory) (readyAt : Nat) :
    Tracks p x (m.accepting { r with readyAt }) := by
  have hreads : s.reads = 0 := by
    cases hroute
    rfl
  have hleft : ∀ j, s ≠ .lookups j := by
    cases hroute
    exact fun j => Spot.noConfusion
  refine ⟨h.sound.congr rfl rfl, ?_⟩
  rw [Machine.overview_accepting]
  by_cases hdemand : r.kind.isDemand = true
  · cases hroute with
    | leave hbelow =>
      exact h.reach.step (.arrive (traffic_hold m x _ r) (.leave hbelow) readyAt hdemand)
  · have hmoved := h.reach.step (.move (traffic_hold m x s r) hroute readyAt r.dirty r.done hleft
      fun hr => absurd hr hdemand)
    rw [hreads] at hmoved
    exact hmoved.step (.note _ rfl (.inl (Bool.eq_false_of_not_eq_true hdemand)))

theorem finish (h : Tracks p (x.hold .finished r.finish) m) :
    Tracks p x { m with finished := m.finished ++ [r.finish] } := by
  refine ⟨h.sound.congr rfl rfl, ?_⟩
  have hsame : Machine.overview { m with finished := m.finished ++ [r.finish] } x =
      m.overview (x.hold .finished r.finish) := by
    simp only [Machine.overview, Machine.traffic, Context.hold, List.map_append, List.map_cons,
      List.map_nil, ← Multiset.coe_add, Multiset.coe_singleton, ← Multiset.singleton_add,
      add_assoc]
    rfl
  rw [hsame]
  exact h.reach

end Tracks

end CacheHierarchy
