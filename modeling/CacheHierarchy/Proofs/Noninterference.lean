import CacheHierarchy.Proofs.Outline.Runs
import CacheHierarchy.Proofs.Safety

/-!
# Writing does not show

Two runs that agree on which calls are made, on the line of each access, and where the first level
is split also on its side, cannot be told apart by time or by residency: whether an access writes,
and where in its line it is, shows in dirty bits, write-backs and request numbers only.

Such runs have one and the same outline, for an outline is made by functions and all that goes into
them is the line of an access and the cache that it enters.
-/

namespace CacheHierarchy

structure CacheObservation where
  /-- The tag in each way of each set that is in use. -/
  tags : List (List (Option Nat))
  recency : List (List Nat)
  accesses : Nat
  hits : Nat
  misses : Nat
  backInvalidations : Nat
  deriving DecidableEq

/-- What can be seen of a hierarchy without its dirty bits and what they lead to. -/
structure Observation where
  /-- When each completed access was issued and when it completed, and whether it missed. -/
  completions : List (Nat × Nat × Bool)
  caches : List CacheObservation
  reads : Nat
  deriving DecidableEq

def Cache.observe (c : Cache) : CacheObservation where
  tags := c.tags.sets.toList.map fun s => s.ways.map (Option.map Line.tag)
  recency := c.tags.sets.toList.map LineSet.recency
  accesses := c.tags.counters.accesses
  hits := c.tags.counters.hits
  misses := c.tags.counters.misses
  backInvalidations := c.tags.counters.backInvalidations

def Hierarchy.observe (h : Hierarchy) : Observation where
  completions := h.completions.map fun d => (d.issuedAt, d.completedAt, d.miss)
  caches := h.machine.caches.map Cache.observe
  reads := h.machine.memory.reads

/-- Commands that differ in nothing but the kind of an access and its place in the line. -/
inductive Command.Alike (t : Topology) (lineSize : Nat) : Command → Command → Prop
  | access {addr addr' : Nat} {kind kind' : AccessKind} {haddr : addr < wordLimit}
      {haddr' : addr' < wordLimit} {hkind : kind.isDemand = true} {hkind' : kind'.isDemand = true}
      (hline : addr / lineSize = addr' / lineSize) (hside : t = .splitL1 → kind.side = kind'.side) :
      Alike t lineSize (.access addr kind haddr hkind) (.access addr' kind' haddr' hkind')
  | cycle : Alike t lineSize .cycle .cycle

open AccessKind in
/-- As `Command.mixed`, with reads for its writes and writes for its reads, elsewhere in their
lines. -/
def Command.mixedAlike : List Command :=
  .low 31 .read isDemand_read :: .low 40 .instFetch isDemand_instFetch ::
    List.replicate 16 .cycle ++ .low 0 .read isDemand_read :: .low 63 .write isDemand_write ::
      .low 70 .read isDemand_read :: .low 159 .read isDemand_read ::
        .low 128 .write isDemand_write :: List.replicate 14 .cycle

/-! Alike commands do the same in outline. -/

theorem Topology.top_congr {t : Topology} {side side' : Side} (h : t = .splitL1 → side = side') :
    t.top side = t.top side' := by
  cases t with
  | splitL1 => rw [h rfl]
  | dramOnly => rfl
  | singleLevel | multiLevel => exact (Ports.on_both 0 side).trans (Ports.on_both 0 side').symm

theorem Plan.Uniform.lines_congr {p : Plan} {lineSize addr addr' : Nat} (h : p.Uniform lineSize)
    (hline : addr / lineSize = addr' / lineSize) : p.lines addr = p.lines addr' := by
  funext i
  unfold Plan.lines
  split
  · rename_i hi
    rw [h.line_eq hi, h.line_eq hi, hline]
  · rfl

namespace Outline

variable {p : Plan} {lineSize : Nat}

theorem perform_alike (huniform : p.Uniform lineSize) {command command' : Command}
    (h : command.Alike p.topology lineSize command') (o : Outline Unit) :
    o.perform p command = o.perform p command' := by
  cases h with
  | access hline hside =>
    rw [perform, perform, huniform.lines_congr hline, Topology.top_congr hside]
  | cycle => rfl

theorem run_alike (huniform : p.Uniform lineSize) {commands commands' : List Command}
    (h : List.Forall₂ (Command.Alike p.topology lineSize) commands commands') (o : Outline Unit) :
    o.run p commands = o.run p commands' := by
  induction h generalizing o with
  | nil => rfl
  | cons hhead _ ih =>
    rw [run, run, List.foldl_cons, List.foldl_cons, perform_alike huniform hhead]
    exact ih _

end Outline

/-! What can be observed follows from the outline. -/

theorem TagArray.toList_sets (t : TagArray) :
    t.sets.toList = (List.range t.geometry.numSets).map t.row := by
  refine List.ext_getElem (by simp) fun k hk hk' => ?_
  rw [Vector.length_toList] at hk
  rw [List.getElem_map, List.getElem_range, row, dif_pos hk]
  rfl

theorem LineSet.tags_clean (s : LineSet) :
    s.clean.ways.map (Option.map Line.tag) = s.ways.map (Option.map Line.tag) := by
  rw [clean, List.map_map]
  refine List.map_congr_left fun way _ => ?_
  cases way <;> rfl

theorem Cache.observe_congr {c c' : Cache} (hgeometry : c.tags.geometry = c'.tags.geometry)
    (hrows : (fun k => (c.tags.row k).clean) = fun k => (c'.tags.row k).clean)
    (hcounters : c.tags.counters.bare = c'.tags.counters.bare) : c.observe = c'.observe := by
  have htags : ∀ k, (c.tags.row k).ways.map (Option.map Line.tag) =
      (c'.tags.row k).ways.map (Option.map Line.tag) := fun k => by
    rw [← LineSet.tags_clean, ← LineSet.tags_clean (c'.tags.row k)]
    exact congrArg (fun s : LineSet => s.ways.map (Option.map Line.tag)) (congrFun hrows k)
  have hrecency : ∀ k, (c.tags.row k).recency = (c'.tags.row k).recency := fun k => by
    rw [← LineSet.recency_clean, ← LineSet.recency_clean (c'.tags.row k)]
    exact congrArg LineSet.recency (congrFun hrows k)
  simp only [Counters.bare, Counters.mk.injEq] at hcounters
  obtain ⟨haccesses, hhits, hmisses, -, -, hdropped, -⟩ := hcounters
  rw [observe, observe, TagArray.toList_sets, TagArray.toList_sets, hgeometry, haccesses, hhits,
    hmisses, hdropped]
  simp only [List.map_map, Function.comp_def, htags, hrecency]

namespace Hierarchy

variable {p : Plan} {o : Outline Unit} {h h' : Hierarchy}

/-- Hierarchies with one outline look the same. -/
theorem Shows.observe_eq (hshows : h.Shows p (fun _ => ()) o)
    (hshows' : h'.Shows p (fun _ => ()) o) : h.observe = h'.observe := by
  obtain ⟨-, asked, houtlined⟩ := hshows
  obtain ⟨-, asked', houtlined'⟩ := hshows'
  have hcompletions : ∀ {h : Hierarchy} {asked : Nat → List Bool},
      h.machine.Outlined (h.vantage p fun _ => ()) none asked o →
      h.completions.map (fun d => (d.issuedAt, d.completedAt, d.miss)) =
        o.done.map fun d => (d.issuedAt, d.completedAt, d.miss) := by
    intro h asked houtlined
    rw [← houtlined.outline, Machine.outline, List.map_map]
    rfl
  have hreads : h.machine.memory.reads = h'.machine.memory.reads :=
    congrArg Outline.reads (houtlined.outline.trans houtlined'.outline.symm)
  have hcaches : h.machine.caches.map Cache.observe = h'.machine.caches.map Cache.observe := by
    refine List.ext_getElem ?_ fun i hi hi' => ?_
    · rw [List.length_map, List.length_map]
      exact houtlined.regular.length.trans houtlined'.regular.length.symm
    · rw [List.length_map] at hi hi'
      have hc := List.getElem?_eq_getElem hi
      have hc' := List.getElem?_eq_getElem hi'
      rw [List.getElem_map, List.getElem_map]
      refine Cache.observe_congr ?_ ?_ ?_
      · exact (houtlined.regular.caches i _ hc).geometry.trans
          (houtlined'.regular.caches i _ hc').geometry.symm
      · exact (houtlined.rows_eq hc).symm.trans (houtlined'.rows_eq hc')
      · exact (houtlined.counters_eq hc).symm.trans (houtlined'.counters_eq hc')
  rw [observe, observe, hcompletions houtlined, hcompletions houtlined', hreads, hcaches]

/-- Where all levels have lines of one size, two runs of alike commands look the same, unless one of
them ends in an overflow. -/
theorem run_ignores_writing {c : HierarchyConfig} {lineSize : Nat} (hvalid : c.validate = .ok ())
    (hsized : c.Sized) (huniform : c.Uniform lineSize) {commands commands' : List Command}
    (halike : List.Forall₂ (Command.Alike c.topology lineSize) commands commands') :
    ∃ start, ofConfig c = .ok start ∧
      Ends (fun _ h => Ends (fun _ h' => h.observe = h'.observe)
          (fun fault h' => fault = .sumOverflow ∧ h'.Exhausted) (run commands' start))
        (fun fault h => fault = .sumOverflow ∧ h.Exhausted) (run commands start) := by
  obtain ⟨start, o, hstart, ht, hshows, -, hlines⟩ :=
    exists_outlined_start hvalid hsized fun _ => ()
  have hplan : start.plan.Uniform lineSize := huniform.plan ht hlines
  have hends : ∀ commands, Ends (fun _ h => h.Shows start.plan (fun _ => ())
      (o.run start.plan commands)) (fun fault h => fault = .sumOverflow ∧ h.Exhausted)
      (run commands start) := by
    intro commands
    refine ((run_ends commands hshows.tracked).and (run_outlined commands hshows)).mono
      (fun _ _ h => h.2) fun fault h hfails => hfails.overflow ?_
    cases hb : start.plan.topology.base? with
    | none => exact .inl rfl
    | some b => exact .inr ⟨b, rfl, hplan.aligned hb⟩
  have hsame := Outline.run_alike hplan (ht.symm ▸ halike) o
  refine ⟨start, hstart, (hends commands).mono (fun _ h hh => ?_) fun _ _ => id⟩
  exact (hends commands').mono (fun _ h' hh' => hh.observe_eq (hsame ▸ hh')) fun _ _ => id

theorem run_ignores_writing_narrow :
    HierarchyConfig.narrow.validate = .ok () ∧ HierarchyConfig.narrow.Sized ∧
      HierarchyConfig.narrow.Uniform 32 ∧
      List.Forall₂ (Command.Alike HierarchyConfig.narrow.topology 32) Command.mixed
        Command.mixedAlike ∧
      ∃ start, ofConfig .narrow = .ok start ∧
        Ends (fun _ h => Ends (fun _ h' => h.observe = h'.observe)
            (fun fault h' => fault = .sumOverflow ∧ h'.Exhausted) (run Command.mixedAlike start))
          (fun fault h => fault = .sumOverflow ∧ h.Exhausted) (run Command.mixed start) := by
  have hcycles (n : Nat) : List.Forall₂ (Command.Alike HierarchyConfig.narrow.topology 32)
      (List.replicate n .cycle) (List.replicate n .cycle) :=
    List.forall₂_same.2 fun _ h => List.eq_of_mem_replicate h ▸ .cycle
  have halike : List.Forall₂ (Command.Alike HierarchyConfig.narrow.topology 32)
      Command.mixed Command.mixedAlike :=
    List.rel_append
      (.cons (.access rfl fun _ => rfl) (.cons (.access rfl fun _ => rfl) (hcycles 16)))
      (.cons (.access rfl fun _ => rfl) (.cons (.access rfl fun _ => rfl)
        (.cons (.access rfl fun _ => rfl) (.cons (.access rfl fun _ => rfl)
          (.cons (.access rfl fun _ => rfl) (hcycles 14))))))
  exact ⟨rfl, by decide, by decide, halike, run_ignores_writing rfl (by decide)
    (show HierarchyConfig.narrow.Uniform 32 by decide) halike⟩

end Hierarchy

end CacheHierarchy
