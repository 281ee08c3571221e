import CacheHierarchy.Proofs.Outline.Basic

/-!
# Time in outline

The stages of a cycle come in a fixed order, so the cycle is cut into slots: each stage has one, and
so has each clock for its advance. `o.Timely t latency n` says that the first `n` slots of the cycle
are over and that no errand is late: an errand in a queue that has had its slot is not ready before
the next cycle, any other not before this one.

An errand is therefore dealt with in the very cycle from which it is ready, and when it is ready
follows from where it is and what it has been told (`Due`). No queue ever holds it up.
-/

namespace CacheHierarchy

variable {α : Type}

namespace Topology

def slot (t : Topology) : Spot → Nat
  | .fills i => 4 * i
  | .sends i => 4 * i + 1
  | .lookups i => 4 * i + 2
  | .memory => 4 * t.size
  | _ => 0

def turn (t : Topology) : Site → Nat
  | .cache i => 4 * i + 3
  | .memory => 4 * t.size + 1

/-- The component that a queue of errands belongs to, if they have to wait there. -/
def gate? (t : Topology) : Spot → Option Site
  | .lookups i => if i < t.size then some (.cache i) else none
  | .fills i => if i < t.size then some (.cache i) else none
  | .memory => some .memory
  | _ => none

/-- Where errands have to wait. -/
theorem gate?_cases {t : Topology} {s : Spot} {site : Site} (h : t.gate? s = some site) :
    (∃ i, i < t.size ∧ (s = .lookups i ∨ s = .fills i) ∧ site = .cache i) ∨
      s = .memory ∧ site = .memory := by
  unfold gate? at h
  cases s with
  | lookups i | fills i =>
    left
    by_cases hi : i < t.size
    · simp only [hi, if_true, Option.some.injEq] at h
      exact ⟨i, hi, by simp, h.symm⟩
    · simp [hi] at h
  | memory =>
    cases h
    exact .inr ⟨rfl, rfl⟩
  | _ => cases h

section Slots

variable {t : Topology} {s s' : Spot} {site site' : Site} {i : Nat}

/-- No two queues where errands have to wait share a slot. -/
theorem slot_inj (hs : t.gate? s = some site) (hs' : t.gate? s' = some site')
    (h : t.slot s = t.slot s') : s = s' := by
  rcases gate?_cases hs with ⟨i, hi, rfl | rfl, -⟩ | ⟨rfl, -⟩ <;>
    rcases gate?_cases hs' with ⟨j, hj, rfl | rfl, -⟩ | ⟨rfl, -⟩ <;>
    simp only [slot] at h <;> first | rfl | (congr 1; omega)

theorem slot_sends_ne (hs : t.gate? s = some site) (i : Nat) : t.slot (.sends i) ≠ t.slot s := by
  rcases gate?_cases hs with ⟨j, hj, rfl | rfl, -⟩ | ⟨rfl, -⟩ <;> simp only [slot] <;> omega

theorem slot_ne_turn (hs : t.gate? s = some site) (hs' : t.gate? s' = some site') :
    t.slot s ≠ t.turn site' := by
  rcases gate?_cases hs with ⟨i, hi, rfl | rfl, -⟩ | ⟨rfl, -⟩ <;>
    rcases gate?_cases hs' with ⟨j, hj, -, rfl⟩ | ⟨-, rfl⟩ <;> simp only [slot, turn] <;> omega

theorem slot_sends_ne_turn (hi : i < t.size) (hs : t.gate? s = some site) :
    t.slot (.sends i) ≠ t.turn site := by
  rcases gate?_cases hs with ⟨j, hj, -, rfl⟩ | ⟨-, rfl⟩ <;> simp only [slot, turn] <;> omega

theorem turn_inj (hs : t.gate? s = some site) (hs' : t.gate? s' = some site')
    (h : t.turn site = t.turn site') : site = site' := by
  rcases gate?_cases hs with ⟨i, hi, -, rfl⟩ | ⟨-, rfl⟩ <;>
    rcases gate?_cases hs' with ⟨j, hj, -, rfl⟩ | ⟨-, rfl⟩ <;>
    simp only [turn] at h <;> first | rfl | (congr 1; omega)

/-- A component's clock advances after it has dealt with its errands. -/
theorem slot_lt_turn (hs : t.gate? s = some site) : t.slot s < t.turn site := by
  rcases gate?_cases hs with ⟨i, hi, rfl | rfl, rfl⟩ | ⟨rfl, rfl⟩ <;> simp only [slot, turn] <;> omega

end Slots

theorem last?_of_entry? {t : Topology} (h : t.entry? = none) : t.last? = none := by
  cases t with
  | dramOnly => rfl
  | _ => cases h

theorem eq_of_last? {t : Topology} {i j : Nat} (hlast : t.last? = some i) (hb : t.base? = none)
    (hj : j ∈ t.tops) : i = j := by
  cases t with
  | singleLevel =>
    cases hlast
    exact (List.mem_singleton.1 hj).symm
  | dramOnly => cases hlast
  | multiLevel | splitL1 => cases hb

end Topology

/-- A completed access took as long as the latencies on its way say. -/
inductive Outcome.Prompt (t : Topology) (latency : Site → Nat) (d : Outcome α) : Prop
  /-- Memory answered it. -/
  | direct (hlast : t.last? = none) (hmiss : d.miss = false)
      (hdone : d.completedAt = d.issuedAt + latency .memory)
  /-- The first level answered it. -/
  | hit (htop : d.top ∈ t.tops) (hmiss : d.miss = false)
      (hdone : d.completedAt = d.issuedAt + latency (.cache d.top))
  /-- It missed in the only level. -/
  | miss (htop : d.top ∈ t.tops) (hbase : t.base? = none) (hmiss : d.miss = true)
      (hdone : d.completedAt = d.issuedAt + (2 * latency (.cache d.top) + latency .memory + 2))
  /-- The base answered it. -/
  | below {b : Nat} (htop : d.top ∈ t.tops) (hbase : t.base? = some b) (hmiss : d.miss = true)
      (hasked : d.asked = [true])
      (hdone : d.completedAt = d.issuedAt + (2 * latency (.cache d.top) + latency (.cache b) + 2))
  /-- It missed in the base as well. -/
  | beyond {b : Nat} (htop : d.top ∈ t.tops) (hbase : t.base? = some b) (hmiss : d.miss = true)
      (hasked : d.asked = [false])
      (hdone : d.completedAt = d.issuedAt +
        (2 * latency (.cache d.top) + 2 * latency (.cache b) + latency .memory + 4))

/-- An errand at a spot is ready when the latencies on its way so far say. -/
inductive Errand.Due (t : Topology) (latency : Site → Nat) (e : Errand α) : Spot → Prop
  | direct (hlast : t.last? = none) (hmiss : e.isMiss = false)
      (hready : e.readyAt = e.issuedAt + latency .memory) : Due t latency e .memory
  /-- It is looked up in the first level. -/
  | enters (htop : e.top ∈ t.tops) (hmiss : e.isMiss = false) (hasked : e.asked = [])
      (hready : e.readyAt = e.issuedAt + latency (.cache e.top)) : Due t latency e (.lookups e.top)
  | leaves (htop : e.top ∈ t.tops) (hmiss : e.isMiss = true) (hasked : e.asked = [])
      (hready : e.readyAt = e.issuedAt + latency (.cache e.top)) : Due t latency e (.sends e.top)
  /-- It is looked up in the base. -/
  | asks {b : Nat} (htop : e.top ∈ t.tops) (hbase : t.base? = some b) (hmiss : e.isMiss = true)
      (hasked : e.asked = [])
      (hready : e.readyAt = e.issuedAt + (latency (.cache e.top) + latency (.cache b) + 1)) :
      Due t latency e (.lookups b)
  | passes {b : Nat} (htop : e.top ∈ t.tops) (hbase : t.base? = some b) (hmiss : e.isMiss = true)
      (hasked : e.asked = [false])
      (hready : e.readyAt = e.issuedAt + (latency (.cache e.top) + latency (.cache b) + 1)) :
      Due t latency e (.sends b)
  /-- It is read from memory on behalf of the only level. -/
  | reads (htop : e.top ∈ t.tops) (hbase : t.base? = none) (hmiss : e.isMiss = true)
      (hready : e.readyAt = e.issuedAt + (latency (.cache e.top) + latency .memory + 1)) :
      Due t latency e .memory
  /-- It is read from memory on behalf of the base. -/
  | readsBelow {b : Nat} (htop : e.top ∈ t.tops) (hbase : t.base? = some b)
      (hmiss : e.isMiss = true) (hasked : e.asked = [false])
      (hready : e.readyAt = e.issuedAt +
        (latency (.cache e.top) + latency (.cache b) + latency .memory + 2)) :
      Due t latency e .memory
  | returns {b : Nat} (htop : e.top ∈ t.tops) (hbase : t.base? = some b) (hmiss : e.isMiss = true)
      (hasked : e.asked = [false])
      (hready : e.readyAt = e.issuedAt +
        (latency (.cache e.top) + 2 * latency (.cache b) + latency .memory + 3)) :
      Due t latency e (.fills b)
  /-- It fills a first-level cache, or has filled it, and is done. -/
  | fills (htop : e.top ∈ t.tops) (hmiss : e.isMiss = true)
      (hprompt : (e.outcome e.readyAt).Prompt t latency) : Due t latency e (.fills e.top)
  | done (hprompt : (e.outcome e.readyAt).Prompt t latency) : Due t latency e .finished

/-- What is filled in at the base did not enter there. -/
theorem Errand.Due.top_ne_base {t : Topology} {latency : Site → Nat} {e : Errand α} {b : Nat}
    (h : e.Due t latency (.fills b)) (hb : t.base? = some b) : e.top ≠ b := by
  cases h with
  | returns htop => exact fun htop' => Topology.base_not_mem_tops hb (htop' ▸ htop)
  | fills htop => exact absurd htop (Topology.base_not_mem_tops hb)

namespace Outline

variable {t : Topology} {latency : Site → Nat} {n i b : Nat} {s : Spot} {site : Site}
  {e : Errand α} {o : Outline α}

/-- The first slots of a cycle are over, and no errand is late. -/
structure Timely (t : Topology) (latency : Site → Nat) (n : Nat) (o : Outline α) : Prop where
  due : ∀ s, ∀ e ∈ o.queue s, e.Due t latency s
  clock : ∀ s site, t.gate? s = some site →
    o.clock site = o.now + if t.turn site < n then 1 else 0
  sorted : ∀ s site, t.gate? s = some site →
    (o.queue s).Pairwise fun e e' => e.readyAt ≤ e'.readyAt
  ready : ∀ s site, t.gate? s = some site → ∀ e ∈ o.queue s,
    o.now + (if t.slot s < n then 1 else 0) ≤ e.readyAt ∧ e.readyAt ≤ o.clock site + latency site
  sends : ∀ i, ∀ e ∈ o.queue (.sends i),
    e.readyAt + 1 = o.now + if t.slot (.sends i) < n then 1 else 0
  finished : ∀ e ∈ o.queue .finished, e.readyAt = o.now
  done : ∀ d ∈ o.done, d.Prompt t latency
  latency_eq : o.latency = latency

namespace Timely

variable (h : o.Timely t latency n)

include h

theorem of_queue {q : Spot → List (Errand α)}
    (hmem : ∀ s, ∀ e ∈ q s, ∃ e' ∈ o.queue s, e.readyAt = e'.readyAt ∧ e.Due t latency s)
    (hsorted : ∀ s site, t.gate? s = some site →
      (q s).Pairwise fun e e' => e.readyAt ≤ e'.readyAt) :
    Timely t latency n { o with queue := q } where
  due s e he := by
    obtain ⟨-, -, -, hdue⟩ := hmem s e he
    exact hdue
  clock := h.clock
  sorted := hsorted
  ready s site hs e he := by
    obtain ⟨e', he', hready, -⟩ := hmem s e he
    rw [hready]
    exact h.ready s site hs e' he'
  sends i e he := by
    obtain ⟨e', he', hready, -⟩ := hmem _ e he
    rw [hready]
    exact h.sends i e' he'
  finished e he := by
    obtain ⟨e', he', hready, -⟩ := hmem _ e he
    rw [hready]
    exact h.finished e' he'
  done := h.done
  latency_eq := h.latency_eq

theorem pop (s : Spot) : (o.pop s).Timely t latency n := by
  have hsublist : ∀ s', (Function.update o.queue s (o.queue s).tail s').Sublist (o.queue s') := by
    intro s'
    by_cases hs : s' = s
    · subst hs
      rw [Function.update_self]
      exact List.tail_sublist _
    · rw [Function.update_of_ne hs]
  refine h.of_queue (fun s' e he => ?_) fun s' site hs => (h.sorted s' site hs).sublist (hsublist s')
  have he' := (hsublist s').subset he
  exact ⟨e, he', rfl, h.due s' e he'⟩

theorem push (hdue : e.Due t latency s)
    (hready : ∀ site, t.gate? s = some site → o.now + (if t.slot s < n then 1 else 0) ≤ e.readyAt ∧
      e.readyAt = o.clock site + latency site)
    (hsends : ∀ i, s = .sends i → e.readyAt + 1 = o.now + if t.slot (.sends i) < n then 1 else 0)
    (hfinished : s = .finished → e.readyAt = o.now) : (o.push s e).Timely t latency n := by
  have hmem : ∀ {s' e'}, e' ∈ (o.push s e).queue s' → e' ∈ o.queue s' ∨ s' = s ∧ e' = e := by
    intro s' e' he'
    by_cases hs : s' = s
    · subst hs
      rw [queue_push_self, List.mem_append, List.mem_singleton] at he'
      exact he'.imp_right fun he' => ⟨rfl, he'⟩
    · rw [queue_push_of_ne hs] at he'
      exact .inl he'
  refine ⟨fun s' e' he' => ?_, h.clock, fun s' site hs' => ?_, fun s' site hs' e' he' => ?_,
    fun i e' he' => ?_, fun e' he' => ?_, h.done, h.latency_eq⟩
  · rcases hmem he' with he' | ⟨rfl, rfl⟩
    · exact h.due s' e' he'
    · exact hdue
  · by_cases hs : s' = s
    · subst hs
      rw [queue_push_self, List.pairwise_append]
      refine ⟨h.sorted s' site hs', List.pairwise_singleton _ _, fun e₁ he₁ e₂ he₂ => ?_⟩
      rw [List.mem_singleton.1 he₂, (hready site hs').2]
      exact (h.ready s' site hs' e₁ he₁).2
    · rw [queue_push_of_ne hs]
      exact h.sorted s' site hs'
  · rcases hmem he' with he' | ⟨rfl, rfl⟩
    · exact h.ready s' site hs' e' he'
    · exact ⟨(hready site hs').1, Nat.le_of_eq (hready site hs').2⟩
  · rcases hmem he' with he' | ⟨hs, rfl⟩
    · exact h.sends i e' he'
    · exact hsends i hs.symm
  · rcases hmem he' with he' | ⟨hs, rfl⟩
    · exact h.finished e' he'
    · exact hfinished hs.symm

theorem push_finished (hready : e.readyAt = o.now)
    (hprompt : (e.outcome e.readyAt).Prompt t latency) :
    (o.push .finished e).Timely t latency n :=
  h.push (.done hprompt) (fun _ hs => nomatch hs) (fun _ hs => nomatch hs) fun _ => hready

theorem push_sends (hdue : e.Due t latency (.sends i)) (hready : e.readyAt = o.now)
    (hslot : t.slot (.sends i) < n) : (o.push (.sends i) e).Timely t latency n := by
  refine h.push hdue (fun _ hs => nomatch hs) (fun j hs => ?_) fun hs => nomatch hs
  cases hs
  rw [hready, if_pos hslot]

theorem arrive (hgate : t.gate? s = some site) (hslot : t.slot s < n → t.turn site < n)
    (hdue : Errand.Due t latency
      { e with readyAt := o.now + (if t.turn site < n then 1 else 0) + latency site } s) :
    (o.arrive s site e).Timely t latency n := by
  have hclock := h.clock s site hgate
  rw [Outline.arrive, h.latency_eq, hclock]
  refine h.push hdue (fun site' hs => ?_) (fun i hs => ?_) fun hs => ?_
  · obtain rfl := Option.some.inj (hgate.symm.trans hs)
    refine ⟨?_, by rw [hclock]⟩
    by_cases hover : t.slot s < n
    · simp only [hover, hslot hover, if_true]
      omega
    · simp only [hover, if_false]
      omega
  · rw [hs] at hgate
    cases hgate
  · rw [hs] at hgate
    cases hgate

theorem overtake (line : Nat) : (o.overtake i line).Timely t latency n := by
  have hdue : ∀ {s} {e : Errand α}, e.Due t latency s →
      Errand.Due t latency { e with bypass := true } s := by
    intro s e he
    cases he with
    | direct hlast hmiss hready => exact .direct hlast hmiss hready
    | enters htop hmiss hasked hready =>
      exact .enters (e := { e with bypass := true }) htop hmiss hasked hready
    | leaves htop hmiss hasked hready =>
      exact .leaves (e := { e with bypass := true }) htop hmiss hasked hready
    | asks htop hbase hmiss hasked hready => exact .asks htop hbase hmiss hasked hready
    | passes htop hbase hmiss hasked hready => exact .passes htop hbase hmiss hasked hready
    | reads htop hbase hmiss hready => exact .reads htop hbase hmiss hready
    | readsBelow htop hbase hmiss hasked hready => exact .readsBelow htop hbase hmiss hasked hready
    | returns htop hbase hmiss hasked hready => exact .returns htop hbase hmiss hasked hready
    | fills htop hmiss hprompt =>
      exact .fills (e := { e with bypass := true }) htop hmiss hprompt
    | done hprompt => exact .done hprompt
  have hready : ∀ e : Errand α,
      (if e.line i = line then { e with bypass := true } else e).readyAt = e.readyAt := by
    intro e
    split <;> rfl
  refine h.of_queue (fun s e he => ?_) fun s site hs => ?_
  · by_cases hs : s = .fills i
    · subst hs
      rw [Function.update_self, List.mem_map] at he
      obtain ⟨e', he', rfl⟩ := he
      refine ⟨e', he', hready e', ?_⟩
      have hdue' := h.due _ e' he'
      split
      · exact hdue hdue'
      · exact hdue'
    · rw [Function.update_of_ne hs] at he
      exact ⟨e, he, rfl, h.due s e he⟩
  · by_cases hs' : s = .fills i
    · subst hs'
      rw [Function.update_self, List.pairwise_map]
      simpa only [hready] using h.sorted _ site hs
    · rw [Function.update_of_ne hs']
      exact h.sorted s site hs

/-- Rows and counters have nothing to do with time. -/
theorem alter (p : Plan) (i line : Nat) (f : LineSet → Nat → LineSet) :
    (o.alter p i line f).Timely t latency n :=
  ⟨h.due, h.clock, h.sorted, h.ready, h.sends, h.finished, h.done, h.latency_eq⟩

theorem count (i : Nat) (f : Counters → Counters) : (o.count i f).Timely t latency n :=
  ⟨h.due, h.clock, h.sorted, h.ready, h.sends, h.finished, h.done, h.latency_eq⟩

theorem withdraw (p : Plan) (b victim : Nat) (ports : List (Side × Nat)) :
    (ports.foldl (withdrawFrom p b victim) o).Timely t latency n := by
  induction ports generalizing o with
  | nil => exact h
  | cons port rest ih =>
    refine ih ?_
    unfold withdrawFrom
    split
    · exact (h.alter ..).count ..
    · exact h.overtake _

/-- An errand goes up from the base, whose turn comes after those of the caches above. -/
theorem sendUp (htop : e.top ∈ t.tops) (hmiss : e.isMiss = true)
    (hover : t.turn (.cache e.top) < n)
    (hprompt : ∀ readyAt, readyAt = o.now + 1 + latency (.cache e.top) →
      (Errand.outcome { e with readyAt } readyAt).Prompt t latency) :
    (o.sendUp e).Timely t latency n := by
  have hgate : t.gate? (.fills e.top) = some (.cache e.top) :=
    if_pos (Topology.lt_size_of_mem_tops htop)
  refine h.arrive hgate (fun _ => hover) ?_
  rw [if_pos hover]
  exact .fills (e := { e with readyAt := o.now + 1 + latency (.cache e.top) }) htop hmiss
    (hprompt _ rfl)

end Timely

/-! Dealing with an errand that is ready now. -/

section One

variable {p : Plan} (h : o.Timely p.topology latency n)

include h

theorem timely_fillOne (hdue : e.Due p.topology latency (.fills i)) (hready : e.readyAt = o.now)
    (hslot : n = p.topology.slot (.fills i)) :
    (o.fillOne p i e).Timely p.topology latency n := by
  unfold fillOne
  split
  · rename_i hb
    cases hdue with
    | fills htop => exact absurd hb (fun hb => Topology.base_not_mem_tops hb htop)
    | returns htop hbase hmiss hasked hreturns =>
      have hlt := Topology.lt_base htop hb
      have hup : (o.sendUp e).Timely p.topology latency n := by
        refine h.sendUp htop hmiss ?_ fun readyAt hup => ?_
        · rw [hslot, Topology.turn, Topology.slot]
          omega
        · refine .beyond htop hb hmiss hasked ?_
          rw [hup, ← hready, hreturns]
          simp only [Errand.outcome]
          omega
      unfold fillBelow
      split
      · exact hup
      · dsimp only
        split
        · exact hup.alter ..
        · exact (hup.alter ..).withdraw ..
  · rename_i hb
    cases hdue with
    | returns _ hbase => exact absurd hbase hb
    | fills htop hmiss hprompt =>
      unfold fillTop
      split
      · exact (h.count ..).push_finished hready hprompt
      · exact (h.alter ..).push_finished hready hprompt

theorem timely_sendOne (hdue : e.Due p.topology latency (.sends i))
    (hready : e.readyAt + 1 = o.now) (hslot : n = p.topology.slot (.sends i)) :
    (o.sendOne p i e).Timely p.topology latency n := by
  -- neither memory nor the base has had its turn
  have hmemory : i < p.topology.size →
      ¬p.topology.slot .memory < n ∧ ¬p.topology.turn .memory < n := by
    intro hi
    rw [hslot, Topology.turn, Topology.slot, Topology.slot]
    omega
  unfold sendOne
  cases hbelow : p.topology.below i with
  | memory =>
    cases hdue with
    | leaves htop hmiss hasked hleaves =>
      obtain ⟨hlate, hturn⟩ := hmemory (Topology.lt_size_of_mem_tops htop)
      have hbase : p.topology.base? = none := by
        cases hb : p.topology.base? with
        | none => rfl
        | some b =>
          rw [Topology.below_top hb htop] at hbelow
          cases hbelow
      refine h.arrive rfl (fun hslot => absurd hslot hlate) (.reads htop hbase hmiss ?_)
      rw [if_neg hturn]
      dsimp only
      omega
    | passes htop hbase hmiss hasked hpasses =>
      obtain ⟨hlate, hturn⟩ := hmemory (Topology.lt_size_of_base? hbase)
      refine h.arrive rfl (fun hslot => absurd hslot hlate) (.readsBelow htop hbase hmiss hasked ?_)
      rw [if_neg hturn]
      dsimp only
      omega
  | cache b =>
    obtain ⟨hb, hne⟩ := Topology.base?_of_below hbelow
    cases hdue with
    | passes htop hbase => exact absurd (Option.some.inj (hbase.symm.trans hb)) hne
    | leaves htop hmiss hasked hleaves =>
      have hlt := Topology.lt_base htop hb
      have hturn : ¬p.topology.turn (.cache b) < n := by
        rw [hslot, Topology.turn, Topology.slot]
        omega
      have hlate : ¬p.topology.slot (.lookups b) < n := by
        rw [hslot, Topology.slot, Topology.slot]
        omega
      refine h.arrive (if_pos (Topology.lt_size_of_base? hb)) (fun hslot => absurd hslot hlate)
        (.asks htop hb hmiss hasked ?_)
      rw [if_neg hturn]
      dsimp only
      omega

theorem timely_lookUpTop (hdue : e.Due p.topology latency (.lookups i)) (hready : e.readyAt = o.now)
    (hslot : n = p.topology.slot (.lookups i)) (hb : p.topology.base? ≠ some i) :
    (o.lookUpTop p i e).Timely p.topology latency n := by
  cases hdue with
  | asks _ hbase => exact absurd hbase hb
  | enters htop hmiss hasked henters =>
    have hprompt : (e.outcome e.readyAt).Prompt p.topology latency := .hit htop hmiss henters
    unfold lookUpTop
    split
    · exact ((h.alter ..).count ..).push_finished hready hprompt
    · split
      · exact (h.count ..).push_finished hready hprompt
      · refine (h.count ..).push_sends (e := { e with isMiss := true })
          (.leaves (e := { e with isMiss := true }) htop rfl hasked henters) hready ?_
        rw [hslot, Topology.slot, Topology.slot]
        omega

theorem timely_lookUpBelow (hdue : e.Due p.topology latency (.lookups b))
    (hready : e.readyAt = o.now) (hslot : n = p.topology.slot (.lookups b))
    (hb : p.topology.base? = some b) : (o.lookUpBelow p b e).Timely p.topology latency n := by
  cases hdue with
  | enters htop => exact absurd htop (Topology.base_not_mem_tops hb)
  | asks htop hbase hmiss hasked hasks =>
    have hlt := Topology.lt_base htop hb
    unfold lookUpBelow
    split
    · refine ((h.alter ..).count ..).sendUp (e := { e with asked := true :: e.asked }) htop hmiss ?_
        fun readyAt hup => ?_
      · rw [hslot, Topology.turn, Topology.slot]
        dsimp only
        omega
      · refine .below htop hb hmiss (congrArg (true :: ·) hasked) ?_
        rw [hup]
        change o.now + 1 + latency (.cache e.top) = _
        rw [← hready, hasks]
        simp only [Errand.outcome]
        omega
    · refine (h.count ..).push_sends (e := { e with asked := false :: e.asked })
        (.passes htop hb hmiss (congrArg (false :: ·) hasked) hasks) hready ?_
      rw [hslot, Topology.slot, Topology.slot]
      omega

theorem timely_lookUpOne (hdue : e.Due p.topology latency (.lookups i)) (hready : e.readyAt = o.now)
    (hslot : n = p.topology.slot (.lookups i)) :
    (o.lookUpOne p i e).Timely p.topology latency n := by
  unfold lookUpOne
  split
  · rename_i hb
    exact timely_lookUpBelow h hdue hready hslot hb
  · rename_i hb
    exact timely_lookUpTop h hdue hready hslot hb

theorem timely_read (hdue : e.Due p.topology latency .memory) (hready : e.readyAt = o.now)
    (hslot : n = p.topology.slot .memory) : (o.read p e).Timely p.topology latency n := by
  have hread : Timely p.topology latency n { o with reads := o.reads + 1 } :=
    ⟨h.due, h.clock, h.sorted, h.ready, h.sends, h.finished, h.done, h.latency_eq⟩
  unfold read
  cases hlast : p.topology.last? with
  | none =>
    cases hdue with
    | direct _ hmiss hdirect => exact hread.push_finished hready (.direct hlast hmiss hdirect)
    | reads htop =>
      rw [Topology.last?_eq_none_iff.1 hlast] at htop
      cases htop
    | readsBelow _ hbase =>
      rw [Topology.last?_of_base? hbase] at hlast
      cases hlast
  | some i =>
    have hi : i < p.topology.size := by
      rcases Topology.mem_tops_or_base?_of_last? hlast with ⟨htop, -⟩ | hbase
      · exact Topology.lt_size_of_mem_tops htop
      · exact Topology.lt_size_of_base? hbase
    have hover : p.topology.turn (.cache i) < n := by
      rw [hslot, Topology.turn, Topology.slot]
      omega
    refine hread.arrive (if_pos hi) (fun _ => hover) ?_
    rw [if_pos hover]
    cases hdue with
    | direct hnone =>
      rw [hlast] at hnone
      cases hnone
    | readsBelow htop hbase hmiss hasked hreads =>
      obtain rfl := Option.some.inj (hlast.symm.trans (Topology.last?_of_base? hbase))
      refine .returns htop hbase hmiss hasked ?_
      dsimp only
      omega
    | reads htop hbase hmiss hreads =>
      obtain rfl := Topology.eq_of_last? hlast hbase htop
      refine .fills (e := { e with readyAt := o.now + 1 + latency (.cache e.top) }) htop hmiss
        (.miss htop hbase hmiss ?_)
      simp only [Errand.outcome]
      omega

end One

end Outline

end CacheHierarchy
