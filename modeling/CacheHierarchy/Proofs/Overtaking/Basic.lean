import CacheHierarchy.Proofs.Execution.Tracks
import CacheHierarchy.Proofs.Tags.Lines
import CacheHierarchy.Proofs.Watch.Actions

/-!
# Fills that are overtaken

The second level hands a request up and installs its line; while the request waits to be filled in
above, the second level may displace the line again. The journal tells for each request that waits
whether this has happened since the request was handed up (`Machine.displacedSince`), and the mark
on the request is to say the same. `m.Marks b lineSize due` is that, except that the second level may
still be at work: some marks are due and not yet set.
-/

namespace CacheHierarchy

namespace Event

def handsUp (i id : Nat) : Event → Bool
  | sentUp j _ r _ => j == i && r.id == id
  | _ => false

def displaces (i lineSize addr : Nat) : Event → Bool
  | evicted j victim _ _ => j == i && victim / lineSize == addr / lineSize
  | _ => false

def movesLine (i : Nat) : Event → Bool
  | sentUp j .. | evicted j .. => j == i
  | _ => false

theorem handsUp_of_not_movesLine {i : Nat} {event : Event} (h : event.movesLine i = false)
    (id : Nat) : event.handsUp i id = false := by
  cases event <;> first | rfl | skip
  exact (congrArg (· && _) h).trans (Bool.false_and _)

theorem displaces_of_not_movesLine {i : Nat} {event : Event} (h : event.movesLine i = false)
    (lineSize addr : Nat) : event.displaces i lineSize addr = false := by
  cases event <;> first | rfl | skip
  exact (congrArg (· && _) h).trans (Bool.false_and _)

end Event

namespace Machine

def handedUp (m : Machine) (i id : Nat) : Bool := m.journal.any (Event.handsUp i id)

def sinceHandedUp (m : Machine) (i id : Nat) : List Event :=
  m.journal.takeWhile fun event => !event.handsUp i id

/-- Cache `i` displaced the line of a request since it handed the request up. -/
def displacedSince (m : Machine) (i lineSize : Nat) (r : Request) : Bool :=
  (m.sinceHandedUp i r.id).any (Event.displaces i lineSize r.addr)

/-- The fills that wait above cache `b` were handed up by it, and are marked if it has displaced
their lines since, except for those whose mark is due. -/
def Marks (b lineSize : Nat) (due : Nat → Nat → Bool) (m : Machine) : Prop :=
  ∀ (j : Nat) (d : Cache), j ≠ b → m.caches[j]? = some d → ∀ r ∈ d.fills.items,
    m.handedUp b r.id = true ∧ (r.bypass || due j r.addr) = m.displacedSince b lineSize r

/-- A request may go up from cache `b`: it is not marked, and no fill above carries its number. -/
structure MayGoUp (b : Nat) (r : Request) (m : Machine) : Prop where
  bypass : r.bypass = false
  id_ne : ∀ (j : Nat) (d : Cache), j ≠ b → m.caches[j]? = some d → ∀ r' ∈ d.fills.items,
    r'.id ≠ r.id

def nothingDue (_ _ : Nat) : Bool := false

end Machine

/-- A tag array is sound, and the lines that fills are for are not resident in it. -/
structure TagArray.Awaits (lineSize : Nat) (t : TagArray) (fills : List Request) : Prop where
  sound : t.Sound
  lineSize_eq : t.geometry.lineSize = lineSize
  fits : ∀ r ∈ fills, r.kind.isWriteBack = false
  absent : ∀ r ∈ fills, t.lines (r.addr / lineSize) = none

/-- Cache `b` stands below these ports, which all other caches are at, and none of the caches at some
positions holds a line that it waits for. -/
structure Machine.Awaits (b lineSize : Nat) (ports : Ports) (js : List Nat) (m : Machine) :
    Prop where
  above : ∀ c : Cache, m.caches[b]? = some c → c.above = .caches ports
  at_port : ∀ (j : Nat) (d : Cache), j ≠ b → m.caches[j]? = some d →
    j ∈ ports.distinct.map Prod.snd
  tags : ∀ j ∈ js, j ≠ b → ∀ d : Cache, m.caches[j]? = some d →
    d.tags.Awaits lineSize d.fills.items

/-- What waits above cache `b`, with the tags of the caches at some positions, and what the cache
does about it. -/
def waiting (b : Nat) (js : List Nat) :
    Watch (Above × Option (Option TagArray × GatedQueue Request)) where
  view j c := (c.above, if j = b then none else some (if j ∈ js then some c.tags else none, c.fills))
  hears := Event.movesLine b
  deaf event h := by cases event <;> first | rfl | cases h

namespace waiting

variable {b : Nat} {js : List Nat} {i : Nat}

theorem overlooksLookups (i : Nat) : (waiting b js).OverlooksLookups i := fun _ _ => rfl

theorem overlooksSends (i : Nat) : (waiting b js).OverlooksSends i := fun _ _ _ => rfl

theorem overlooksExpected (i : Nat) : (waiting b js).OverlooksExpected i := fun _ _ => rfl

theorem overlooksFills (b : Nat) (js : List Nat) : (waiting b js).OverlooksFills b := fun c fills => by
  simp only [waiting, if_pos]

theorem overlooksTags (b : Nat) (js : List Nat) : (waiting b js).OverlooksTags b := fun c tags => by
  simp only [waiting, if_pos]

theorem overlooksTags_of_not_mem (h : i ∉ js) : (waiting b js).OverlooksTags i := fun c tags => by
  simp only [waiting, if_neg h]

variable {m m' : Machine}

theorem fills_eq {j : Nat} {c c' : Cache} (hj : j ≠ b)
    (h : (waiting b js).view j c' = (waiting b js).view j c) : c'.fills = c.fills := by
  simp only [waiting, if_neg hj, Prod.mk.injEq, Option.some.injEq] at h
  exact h.2.2

theorem tags_eq {j : Nat} {c c' : Cache} (hj : j ≠ b) (hmem : j ∈ js)
    (h : (waiting b js).view j c' = (waiting b js).view j c) : c'.tags = c.tags := by
  simp only [waiting, if_neg hj, if_pos hmem, Prod.mk.injEq, Option.some.injEq] at h
  exact h.2.1

end waiting

/-- What is not listened for does not matter for what happened since. -/
theorem any_takeWhile_filter {α : Type} {hears stops counts : α → Bool}
    (hstops : ∀ a, hears a = false → stops a = false)
    (hcounts : ∀ a, hears a = false → counts a = false) (l : List α) :
    ((l.filter hears).takeWhile fun a => !stops a).any counts =
      (l.takeWhile fun a => !stops a).any counts := by
  induction l with
  | nil => rfl
  | cons a l ih =>
    cases hhears : hears a with
    | true =>
      rw [List.filter_cons_of_pos hhears, List.takeWhile_cons, List.takeWhile_cons]
      split
      · rw [List.any_cons, List.any_cons, ih]
      · rfl
    | false =>
      rw [List.filter_cons_of_neg (by simp [hhears]), List.takeWhile_cons, hstops a hhears,
        Bool.not_false, if_pos rfl, List.any_cons, hcounts a hhears, Bool.false_or, ih]

namespace Machine

variable {m m' : Machine} {b lineSize : Nat} {due due' : Nat → Nat → Bool} {js js' : List Nat}
  {ports : Ports} {r : Request}

theorem handedUp_mono {id : Nat} (h : m.handedUp b id = true) (hgrows : m.journal <:+ m'.journal) :
    m'.handedUp b id = true := by
  obtain ⟨event, hevent, hup⟩ := List.any_eq_true.1 h
  exact List.any_eq_true.2 ⟨event, hgrows.subset hevent, hup⟩

theorem displacedSince_of_same (h : (waiting b js).Same m m') (lineSize : Nat) (r : Request) :
    m'.displacedSince b lineSize r = m.displacedSince b lineSize r := by
  have hfilter : ∀ m : Machine, m.displacedSince b lineSize r =
      ((m.journal.filter (Event.movesLine b)).takeWhile fun event => !event.handsUp b r.id).any
        (Event.displaces b lineSize r.addr) := fun m =>
    (any_takeWhile_filter (fun _ hmoves => Event.handsUp_of_not_movesLine hmoves r.id)
      (fun _ hmoves => Event.displaces_of_not_movesLine hmoves lineSize r.addr) _).symm
  rw [hfilter, hfilter, ← show (waiting b js).hears = Event.movesLine b from rfl, h.heard]

namespace Marks

/-- What holds outlasts unseen steps. -/
theorem same (h : m.Marks b lineSize due) (hsame : (waiting b js).Same m m') :
    m'.Marks b lineSize due := by
  intro j d' hj hd' r hr
  obtain ⟨d, hd, hview⟩ := hsame.view j d' hd'
  rw [waiting.fills_eq hj hview] at hr
  obtain ⟨hup, hmark⟩ := h j d hj hd r hr
  refine ⟨handedUp_mono hup hsame.grows, ?_⟩
  rw [hmark, displacedSince_of_same hsame]

/-- An unseen action goes on. -/
theorem seq (h : m.Marks b lineSize due) {α : Type} {x : Action α} (hx : (waiting b []).Unseen x) :
    Yields (fun _ m' => m'.Marks b lineSize due) (x m) :=
  (hx m).mono (fun _ _ hsame => h.same hsame) fun _ _ _ => trivial

theorem sublist (h : m.Marks b lineSize due) {i : Nat} {c c' : Cache} (hc : m.caches[i]? = some c)
    (hfills : c'.fills.items.Sublist c.fills.items) : (m.put i c').Marks b lineSize due := by
  intro j d hj hd r hr
  by_cases hji : j = i
  · subst hji
    rw [caches_put_self hc] at hd
    cases hd
    exact h j c hj hc r (hfills.subset hr)
  · rw [caches_put_ne _ hji] at hd
    exact h j d hj hd r hr

theorem congr (h : m.Marks b lineSize due)
    (hdue : ∀ (j : Nat) (d : Cache), j ≠ b → m.caches[j]? = some d → ∀ r ∈ d.fills.items,
      (r.bypass || due' j r.addr) = (r.bypass || due j r.addr)) : m.Marks b lineSize due' := by
  intro j d hj hd r hr
  rw [hdue j d hj hd r hr]
  exact h j d hj hd r hr

theorem evict (h : m.Marks b lineSize nothingDue) (addr : Nat) (dirty : Bool) (cycle : Nat) :
    (m.noted (.evicted b addr dirty cycle)).Marks b lineSize
      fun _ addr' => addr / lineSize == addr' / lineSize := by
  intro j d hj hd r hr
  obtain ⟨hup, hmark⟩ := h j d hj hd r hr
  refine ⟨handedUp_mono hup (List.suffix_cons _ _), ?_⟩
  rw [nothingDue, Bool.or_false] at hmark
  rw [displacedSince, sinceHandedUp, noted, List.takeWhile_cons_of_pos rfl, List.any_cons, hmark,
    Event.displaces, beq_self_eq_true, Bool.true_and, Bool.or_comm]
  rfl

theorem noted_sentUp (h : m.Marks b lineSize nothingDue) (hup : m.MayGoUp b r) (j cycle : Nat) :
    (m.noted (.sentUp b j r cycle)).Marks b lineSize nothingDue := by
  intro k e hk he r' hr'
  obtain ⟨hearlier, hmark⟩ := h k e hk he r' hr'
  refine ⟨handedUp_mono hearlier (List.suffix_cons _ _), ?_⟩
  have hother : Event.handsUp b r'.id (.sentUp b j r cycle) = false := by
    rw [Event.handsUp, beq_eq_false_iff_ne.2 (hup.id_ne k e hk he r' hr').symm, Bool.and_false]
  rw [displacedSince, sinceHandedUp, noted, List.takeWhile_cons_of_pos (by rw [hother]; rfl),
    List.any_cons, hmark]
  exact (Bool.false_or _).symm

theorem handUp (h : m.Marks b lineSize nothingDue) (hup : m.MayGoUp b r) {j : Nat} {d : Cache}
    (hd : m.caches[j]? = some d) (readyAt cycle : Nat) :
    ((m.put j { d with fills := d.fills.push { r with readyAt } }).noted
      (.sentUp b j r cycle)).Marks b lineSize nothingDue := by
  have hold := h.noted_sentUp hup j cycle
  intro k e hk he r' hr'
  by_cases hkj : k = j
  · subst hkj
    change (m.put k _).caches[k]? = some e at he
    rw [caches_put_self hd] at he
    cases he
    rcases List.mem_append.1 hr' with hr' | hr'
    · exact hold k d hk hd r' hr'
    · rw [List.mem_singleton] at hr'
      subst hr'
      have hself : Event.handsUp b r.id (.sentUp b k r cycle) = true := by
        rw [Event.handsUp, beq_self_eq_true, beq_self_eq_true, Bool.and_self]
      refine ⟨?_, ?_⟩
      · exact List.any_eq_true.2 ⟨_, List.mem_cons_self, hself⟩
      · rw [displacedSince, sinceHandedUp, noted, List.takeWhile_cons_of_neg (by rw [hself]; simp)]
        exact (Bool.or_false _).trans hup.bypass
  · change (m.put j _).caches[k]? = some e at he
    rw [caches_put_ne _ hkj] at he
    exact hold k e hk he r' hr'

end Marks

theorem MayGoUp.same (h : m.MayGoUp b r) (hsame : (waiting b js).Same m m') : m'.MayGoUp b r where
  bypass := h.bypass
  id_ne j d' hj hd' := by
    obtain ⟨d, hd, hview⟩ := hsame.view j d' hd'
    rw [waiting.fills_eq hj hview]
    exact h.id_ne j d hj hd

namespace Awaits

theorem same (h : m.Awaits b lineSize ports js) (hsame : (waiting b js).Same m m') :
    m'.Awaits b lineSize ports js where
  above c' hc' := by
    obtain ⟨c, hc, hview⟩ := hsame.view b c' hc'
    exact (congrArg Prod.fst hview).trans (h.above c hc)
  at_port j d' hj hd' := by
    obtain ⟨d, hd, -⟩ := hsame.view j d' hd'
    exact h.at_port j d hj hd
  tags j hmem hj d' hd' := by
    obtain ⟨d, hd, hview⟩ := hsame.view j d' hd'
    rw [waiting.tags_eq hj hmem hview, waiting.fills_eq hj hview]
    exact h.tags j hmem hj d hd

theorem noted (h : m.Awaits b lineSize ports js) (event : Event) :
    (m.noted event).Awaits b lineSize ports js := ⟨h.above, h.at_port, h.tags⟩

theorem mono (h : m.Awaits b lineSize ports js) (hjs : js' ⊆ js) :
    m.Awaits b lineSize ports js' := ⟨h.above, h.at_port, fun j hmem => h.tags j (hjs hmem)⟩

end Awaits

end Machine

end CacheHierarchy
