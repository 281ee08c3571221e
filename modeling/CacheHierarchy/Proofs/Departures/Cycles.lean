import CacheHierarchy.Proofs.Departures.Actions
import CacheHierarchy.Proofs.Execution.Start
import CacheHierarchy.Proofs.Watch.Runs

/-!
# Departures over a cycle

In its turn a cache goes from one standing to the next, and at the end it rests one cycle later.
-/

namespace CacheHierarchy

namespace Machine

open Watch departures

variable {m : Machine} {clock clock' : Nat → Nat} {i n : Nat} {left : List Ticket}

theorem releaseStage_departs (h : m.Departs clock i .rests []) :
    Yields (fun _ m' => ∃ left, m'.Departs clock i (.sends left) []) (releaseStage i m) := by
  refine Ends.bind (cacheAt_yields fun c hc => setCache_ends ?_)
  have hrests : (m.history [] i).Rests c.cycle c.sends.items c.writeBacks.items := h.own c hc
  refine ⟨c.writeBacks.items.map Request.ticket, ?_⟩
  exact h.put hc rfl (fun j _ => .refl _) (h.cycle i c hc) (fun _ _ => rfl) hrests.release

theorem fillStage_departs (h : m.Departs clock i (.sends left) []) :
    Yields (fun _ m' => m'.Departs clock i (.sends left) []) (fillStage i m) := by
  refine Ends.bind (cacheAt_yields fun c _ => ?_)
  refine drain_yields (I := fun _ m => m.Departs clock i (.sends left) [])
    (fun _ _ _ h _ _ => h) (fun _ m c r c' h hc htake => fillOne_departs (h.same ?_)) _ h
  obtain ⟨taken, -, heq⟩ := Option.map_eq_some_iff.1 htake
  cases heq
  exact Same.put hc rfl

theorem sendStage_departs (h : m.Departs clock i (.sends left) []) :
    Yields (fun _ m' => m'.Departs clock i .looksUp []) (sendStage i m) := by
  let I (n : Nat) (m : Machine) : Prop := m.Departs clock i (.sends left) [] ∧
    ∀ c, m.caches[i]? = some c → c.sends.items.length = n
  have hone : ∀ n m c r c', I (n + 1) m → m.caches[i]? = some c → c.takeSend? = some (r, c') →
      Yields (fun _ => I n) (sendOne i r (m.put i c')) := by
    rintro n m c r c' ⟨h, hlength⟩ hc htake
    obtain ⟨⟨r', sends⟩, hpop, heq⟩ := Option.map_eq_some_iff.1 htake
    cases heq
    have hitems := (GatedQueue.popReady?_eq_some_iff.1 hpop).1
    have hleft := hlength c hc
    rw [hitems, List.length_cons, Nat.add_right_cancel_iff] at hleft
    refine (sendOne_departs hc hitems h).mono ?_ fun _ _ => id
    rintro - m' ⟨h', hsends⟩
    exact ⟨h', fun d hd => by rw [hsends d hd, hleft]⟩
  have hstop : ∀ n m c, I n m → m.caches[i]? = some c → c.takeSend? = none → I 0 m := by
    rintro n m c ⟨h, hlength⟩ hc htake
    refine ⟨h, fun d hd => ?_⟩
    cases hc.symm.trans hd
    have hpop := Option.map_eq_none_iff.1 htake
    have hown : (m.history [] i).Sends left c.cycle c.sends.items c.writeBacks.items := h.own c hc
    cases hitems : c.sends.items with
    | nil => rfl
    | cons r rest =>
      have hready := hown.ready r (List.mem_append_left _ (hitems ▸ List.mem_cons_self))
      simp [GatedQueue.popReady?, hitems, Timed.isReady, hready] at hpop
  refine Ends.bind (cacheAt_yields fun c hc => ?_)
  have hstart : I c.sends.length m := by
    refine ⟨h, fun d hd => ?_⟩
    cases hc.symm.trans hd
    rfl
  refine (drain_yields hstop hone _ hstart).mono ?_ fun _ _ => id
  rintro - m' ⟨h', hlength⟩
  refine ⟨h'.cycle, fun d hd => ?_, h'.others⟩
  have hown : (m'.history [] i).Sends left d.cycle d.sends.items d.writeBacks.items := h'.own d hd
  have hempty := List.length_eq_zero_iff.1 (hlength d hd)
  rw [hempty] at hown
  change (m'.history [] i).Rests (d.cycle + 1) d.sends.items d.writeBacks.items
  rw [hempty]
  exact hown.over

theorem lookUpStage_departs (h : m.Departs clock i .looksUp []) :
    Yields (fun _ m' => m'.Departs clock i .looksUp []) (lookUpStage i m) := by
  refine Ends.bind (cacheAt_yields fun c _ => ?_)
  refine drain_yields (I := fun _ m => m.Departs clock i .looksUp []) (fun _ _ _ h _ _ => h) ?_ _ h
  intro _ m c r c' h hc htake
  obtain ⟨taken, hpop, heq⟩ := Option.map_eq_some_iff.1 htake
  cases heq
  have hready := (GatedQueue.popReady?_eq_some_iff.1 hpop).2
  exact lookUpOne_departs (caches_put_self hc _) (Timed.isReady_iff.1 hready)
    (h.same (Same.put hc rfl))

theorem advanceCache_departs (hself : clock' i = clock i + 1)
    (hothers : ∀ j, j ≠ i → clock' j = clock j) (h : m.Departs clock i .looksUp []) :
    Yields (fun _ m' => m'.Departs clock' i .rests []) (advanceCache i m) := by
  refine Ends.bind (cacheAt_yields fun c hc => ?_)
  refine Ends.bind (Yields.attempt_add (setCache_ends ?_))
  refine h.put hc rfl (fun j _ => .refl _) ?_ hothers (h.own c hc)
  rw [hself, ← h.cycle i c hc]

theorem runCache_departs (hself : clock' i = clock i + 1)
    (hothers : ∀ j, j ≠ i → clock' j = clock j) (h : m.Departs clock i .rests []) :
    Yields (fun _ m' => m'.Departs clock' i .rests []) (runCache i m) := by
  refine Ends.seq (releaseStage_departs h) ?_
  rintro - m ⟨left, h⟩
  refine Ends.seq (fillStage_departs h) fun _ m h => ?_
  refine Ends.seq (sendStage_departs h) fun _ m h => ?_
  exact Ends.seq (lookUpStage_departs h) fun _ m h => advanceCache_departs hself hothers h

theorem runMemory_departs (h : m.Departs clock i .rests []) :
    Yields (fun _ m' => m'.Departs clock i .rests []) (runMemory m) := by
  refine Ends.get_bind (Ends.seq (answerReady_yields (fun m r memory h _ => ?_) _ h)
    fun _ m h => h.seq unseen_advanceMemory)
  have htaken := h.same (Same.of_eq rfl rfl : departures.Same m { m with memory })
  exact (memoryOne_same (fun j _ => overlooksFills j) r).mono (fun _ _ => htaken.same) fun _ _ => id

theorem Departs.reclock (h : m.Departs clock i .rests [])
    (hclock : ∀ j, j < m.caches.length → clock' j = clock j) :
    m.Departs clock' i .rests [] where
  cycle j d hd := (h.cycle j d hd).trans (hclock j (List.getElem?_eq_some_iff.1 hd).1).symm
  own := h.own
  others := h.others

theorem runCycle_departs (h : m.Departs (fun _ => n) 0 .rests []) :
    Yields (fun _ m' => m'.Departs (fun _ => n + 1) 0 .rests []) (runCycle m) := by
  let I (rest : List Nat) (m : Machine) : Prop :=
    rest.Nodup ∧ m.Departs (fun j => if j ∈ rest then n else n + 1) 0 .rests []
  have hstart : I (List.range m.caches.length) m :=
    ⟨List.nodup_range, h.reclock fun j hj => if_pos (List.mem_range.2 hj)⟩
  refine Ends.get_bind (Ends.seq (Ends.forM (I := I) ?_ hstart) ?_)
  · rintro i rest m ⟨hnodup, h⟩
    obtain ⟨hi, hrest⟩ := List.nodup_cons.1 hnodup
    refine (runCache_departs ?_ ?_ (h.refocus i)).mono (fun _ m' h' => ⟨hrest, h'.refocus 0⟩)
      fun _ _ => id
    · rw [if_neg hi, if_pos List.mem_cons_self]
    · intro j hj
      simp [hj]
  · rintro - m' ⟨-, h'⟩
    exact runMemory_departs (h'.reclock fun j _ => rfl)

end Machine

namespace Hierarchy

variable {h : Hierarchy}

def Departs (h : Hierarchy) : Prop := h.machine.Departs (fun _ => h.cycle) 0 .rests []

theorem perform_departs (command : Command) (h' : h.Departs) :
    Yields (fun _ => Departs) (perform command h) := by
  cases command with
  | access addr kind haddr hkind =>
    refine (access_same departures.overlooksLookups hkind).mono ?_ fun _ _ => id
    rintro - s ⟨hsame, hcycle⟩
    rw [Departs, hcycle]
    exact Machine.Departs.same h' hsame
  | cycle =>
    refine (runCycle_yields (w := departures) (Machine.runCycle_departs h')
      fun _ _ hm hsame => hm.same hsame).mono ?_ fun _ _ => id
    rintro - s ⟨hs, hcycle⟩
    rw [Departs, hcycle]
    exact hs

theorem run_departs (commands : List Command) (h' : h.Departs) :
    Yields (fun _ => Departs) (run commands h) :=
  Ends.forM (I := fun _ => Departs) (fun command _ _ => perform_departs command) h'

theorem departs_of_ofConfig {c : HierarchyConfig} (hvalid : c.validate = .ok ()) (hsized : c.Sized)
    (hstart : ofConfig c = .ok h) : h.Departs := by
  obtain ⟨hcycle, hjournal, hfresh⟩ := exists_fresh_of_ofConfig_eq_ok hvalid hsized hstart
  have htold : ∀ tells, tells (.assembled c.topology) = none → h.machine.told tells = [] := by
    intro tells htells
    rw [Machine.told, hjournal, List.reverse_singleton, List.filterMap_cons, htells,
      List.filterMap_nil]
  have hadmits : ∀ (i : Nat) (d : Cache), h.machine.caches[i]? = some d →
      Standing.rests.Admits (h.machine.history [] i) d := by
    intro i d hd
    obtain ⟨name, g, latency, rfl⟩ := hfresh i d hd
    exact History.Rests.of_nil (fun _ => htold _ rfl) (fun _ => htold _ rfl) fun _ => htold _ rfl
  refine ⟨fun i d hd => ?_, hadmits 0, fun i d _ => hadmits i d⟩
  obtain ⟨name, g, latency, rfl⟩ := hfresh i d hd
  exact hcycle.symm

end Hierarchy

end CacheHierarchy
