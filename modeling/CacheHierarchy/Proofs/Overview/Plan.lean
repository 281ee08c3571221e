import CacheHierarchy.Machine.Basic
import CacheHierarchy.Proofs.Tags.Lines

/-!
# The plan of a hierarchy

What never changes in a hierarchy: its topology and the geometry of each cache. The caches of the
first level are the `tops`; the cache below them, if there is one, is the `base?`; `last?` is the
cache directly above memory.

A request is at a *spot*: in one of the queues, or finished. A write-back at a spot is on its way
to one component, the `receiver?`, which has to expect it. `p.Fits r s` says which requests a spot
can hold.
-/

namespace CacheHierarchy

@[simp] theorem Ports.on_both (i : Nat) (side : Side) : (Ports.both i).on side = i := by
  cases side <;> rfl

namespace Topology

def tops : Topology → List Nat
  | dramOnly => []
  | singleLevel => [0]
  | multiLevel => [0]
  | splitL1 => [0, 1]

/-- The cache below the first level. -/
def base? : Topology → Option Nat
  | dramOnly => none
  | singleLevel => none
  | multiLevel => some 1
  | splitL1 => some 2

def last? : Topology → Option Nat
  | dramOnly => none
  | singleLevel => some 0
  | multiLevel => some 1
  | splitL1 => some 2

def size : Topology → Nat
  | dramOnly => 0
  | singleLevel => 1
  | multiLevel => 2
  | splitL1 => 3

def entryFor? (t : Topology) (kind : AccessKind) : Option Nat :=
  t.entry?.map fun ports => ports.on kind.side

def above (t : Topology) (i : Nat) : Above :=
  if t.base? = some i then t.entry?.elim .core .caches else .core

def below (t : Topology) (i : Nat) : Below :=
  match t.base? with
  | some b => if i = b then .memory else .cache b
  | none => .memory

def side (t : Topology) (i : Nat) : Option Side :=
  if t = splitL1 then [Side.instruction, .data][i]? else none

theorem mem_tops_of_entryFor? {t : Topology} {kind : AccessKind} {i : Nat}
    (h : t.entryFor? kind = some i) : i ∈ t.tops := by
  cases t <;> cases kind <;> simp_all [entryFor?, entry?, tops, Ports.on, Ports.both,
    AccessKind.side]

theorem base_not_mem_tops {t : Topology} {b : Nat} (h : t.base? = some b) : b ∉ t.tops := by
  cases t <;> simp_all [base?, tops] <;> omega

theorem top_ne_base {t : Topology} {i b : Nat} (hi : i ∈ t.tops) (hb : t.base? = some b) :
    i ≠ b := by
  rintro rfl
  exact base_not_mem_tops hb hi

theorem lt_base {t : Topology} {i b : Nat} (hi : i ∈ t.tops) (hb : t.base? = some b) : i < b := by
  cases t with
  | dramOnly | singleLevel => cases hb
  | multiLevel | splitL1 =>
    cases hb
    simp [tops] at hi
    omega

theorem last?_of_base? {t : Topology} {b : Nat} (h : t.base? = some b) : t.last? = some b := by
  cases t <;> simp_all [base?, last?]

theorem mem_tops_or_base?_of_last? {t : Topology} {i : Nat} (h : t.last? = some i) :
    i ∈ t.tops ∧ t.base? = none ∨ t.base? = some i := by
  cases t <;> simp_all [base?, last?, tops]

theorem entryFor?_of_last? {t : Topology} {i : Nat} (h : t.last? = some i) (hb : t.base? = none)
    (kind : AccessKind) : t.entryFor? kind = some i := by
  cases t <;> simp_all [base?, last?, entryFor?, entry?]

theorem last?_eq_none_iff {t : Topology} : t.last? = none ↔ t = dramOnly := by
  cases t <;> simp [last?]

theorem entryFor?_eq_none_iff {t : Topology} {kind : AccessKind} :
    t.entryFor? kind = none ↔ t = dramOnly := by
  cases t <;> simp [entryFor?, entry?]

/-- Where there are caches, every access enters one. -/
theorem exists_entryFor? {t : Topology} (h : t.last? ≠ none) (kind : AccessKind) :
    ∃ i, t.entryFor? kind = some i := by
  rw [← Option.ne_none_iff_exists', ne_eq, entryFor?_eq_none_iff, ← last?_eq_none_iff]
  exact h

theorem lt_size_iff {t : Topology} {i : Nat} : i < t.size ↔ i ∈ t.tops ∨ t.base? = some i := by
  cases t <;> simp [size, tops, base?] <;> omega

theorem lt_size_of_mem_tops {t : Topology} {i : Nat} (h : i ∈ t.tops) : i < t.size :=
  lt_size_iff.2 (.inl h)

theorem lt_size_of_base? {t : Topology} {b : Nat} (h : t.base? = some b) : b < t.size :=
  lt_size_iff.2 (.inr h)

theorem below_base {t : Topology} {b : Nat} (h : t.base? = some b) : t.below b = .memory := by
  simp [below, h]

theorem below_top {t : Topology} {b i : Nat} (h : t.base? = some b) (hi : i ∈ t.tops) :
    t.below i = .cache b := by
  have hne : i ≠ b := fun heq => base_not_mem_tops h (heq ▸ hi)
  simp [below, h, hne]

theorem below_of_base?_eq_none {t : Topology} (h : t.base? = none) (i : Nat) :
    t.below i = .memory := by
  simp [below, h]

/-- A cache that sends to another one is a first-level cache above the base. -/
theorem base?_of_below {t : Topology} {i b : Nat} (h : t.below i = .cache b) :
    t.base? = some b ∧ i ≠ b := by
  unfold below at h
  cases hb : t.base? with
  | none => simp [hb] at h
  | some b' =>
    simp only [hb] at h
    split at h
    · cases h
    · cases h
      exact ⟨rfl, ‹_›⟩

theorem mem_tops_of_below {t : Topology} {i b : Nat} (h : t.below i = .cache b) (hi : i < t.size) :
    i ∈ t.tops := by
  obtain ⟨hb, hne⟩ := base?_of_below h
  rcases lt_size_iff.1 hi with htop | hbase
  · exact htop
  · exact absurd (Option.some.inj (hbase.symm.trans hb)) hne

theorem last?_of_below {t : Topology} {i : Nat} (h : t.below i = .memory) (hi : i < t.size) :
    t.last? = some i := by
  rcases lt_size_iff.1 hi with htop | hbase
  · cases hb : t.base? with
    | none => cases t <;> simp_all [base?, tops, last?]
    | some b =>
      rw [below_top hb htop] at h
      cases h
  · exact last?_of_base? hbase

theorem above_top {t : Topology} {i : Nat} (hi : i ∈ t.tops) : t.above i = .core := by
  rw [above, if_neg]
  intro h
  exact base_not_mem_tops h hi

theorem above_base {t : Topology} {b : Nat} (h : t.base? = some b) :
    ∃ ports, t.above b = .caches ports ∧
      (∀ kind, t.entryFor? kind = some (ports.on kind.side)) ∧
      (∀ i, i ∈ t.tops ↔ ∃ side, (side, i) ∈ ports.distinct) ∧
      ∀ i, (Side.instruction, i) ∈ ports.distinct → t.side i = some .instruction := by
  cases t <;>
    simp_all [base?, above, entry?, entryFor?, tops, side, Ports.distinct, Ports.both]
  exact fun i => by
    constructor
    · rintro (rfl | rfl)
      · exact ⟨.instruction, .inr ⟨rfl, rfl⟩⟩
      · exact ⟨.data, .inl ⟨rfl, rfl⟩⟩
    · rintro ⟨side, ⟨-, rfl⟩ | ⟨-, rfl⟩⟩
      · exact .inr rfl
      · exact .inl rfl

theorem base?_of_above {t : Topology} {i : Nat} {ports : Ports} (h : t.above i = .caches ports) :
    t.base? = some i ∧ ∀ kind, t.entryFor? kind = some (ports.on kind.side) := by
  have hbase : t.base? = some i := by
    by_contra hne
    rw [above, if_neg hne] at h
    cases h
  obtain ⟨ports', habove, hentry, -⟩ := above_base hbase
  cases habove.symm.trans h
  exact ⟨hbase, hentry⟩

theorem mem_tops_of_above {t : Topology} {i : Nat} (h : t.above i = .core) (hi : i < t.size) :
    i ∈ t.tops := by
  rcases lt_size_iff.1 hi with htop | hbase
  · exact htop
  · obtain ⟨ports, habove, -⟩ := above_base hbase
    rw [habove] at h
    cases h

theorem instFetch_of_side {t : Topology} {i : Nat} {kind : AccessKind}
    (h : t.side i = some .instruction) (he : t.entryFor? kind = some i) : kind = .instFetch := by
  have hsplit : t = splitL1 := by
    by_contra hne
    simp [side, hne] at h
  subst hsplit
  cases kind with
  | instFetch => rfl
  | _ =>
    simp only [entryFor?, entry?, Option.map_some, Ports.on, AccessKind.side,
      Option.some.injEq] at he
    subst he
    cases h

end Topology

/-- What never changes in a hierarchy. -/
structure Plan where
  topology : Topology
  geometry : Nat → Geometry

inductive Spot
  | lookups (cache : Nat)
  | fills (cache : Nat)
  | sends (cache : Nat)
  | writeBacks (cache : Nat)
  | memory
  | finished
  deriving DecidableEq

/-- What memory counts as read when a demand request leaves a spot. -/
def Spot.reads : Spot → Nat
  | memory => 1
  | _ => 0

def Below.site : Below → Site
  | memory => .memory
  | cache i => .cache i

namespace Plan

def line (p : Plan) (i addr : Nat) : Nat := (p.geometry i).lineOf addr

def base (p : Plan) (i line : Nat) : Nat := line * (p.geometry i).lineSize

theorem line_base (p : Plan) (i line : Nat) : p.line i (p.base i line) = line :=
  (p.geometry i).lineOf_mul_self line

theorem base_line_le (p : Plan) (i addr : Nat) : p.base i (p.line i addr) ≤ addr :=
  (p.geometry i).lineOf_mul_le addr

def Uniform (p : Plan) (lineSize : Nat) : Prop :=
  ∀ i, i < p.topology.size → (p.geometry i).lineSize = lineSize

theorem Uniform.line_eq {p : Plan} {lineSize i : Nat} (h : p.Uniform lineSize)
    (hi : i < p.topology.size) (addr : Nat) : p.line i addr = addr / lineSize := by
  rw [line, Geometry.lineOf, h i hi]

def entry (p : Plan) (kind : AccessKind) : Spot :=
  (p.topology.entryFor? kind).elim .memory .lookups

theorem entry_ne_fills (p : Plan) (kind : AccessKind) (i : Nat) : p.entry kind ≠ .fills i := by
  unfold entry
  cases p.topology.entryFor? kind <;> exact fun h => Spot.noConfusion h

theorem entry_ne_finished (p : Plan) (kind : AccessKind) : p.entry kind ≠ .finished := by
  unfold entry
  cases p.topology.entryFor? kind <;> exact fun h => Spot.noConfusion h

theorem exists_entry {p : Plan} (h : p.topology.last? ≠ none) (kind : AccessKind) :
    ∃ i ∈ p.topology.tops, p.entry kind = .lookups i := by
  obtain ⟨i, hi⟩ := Topology.exists_entryFor? h kind
  exact ⟨i, Topology.mem_tops_of_entryFor? hi, by rw [entry, hi, Option.elim_some]⟩

/-- The component that a write-back at a spot is on its way to. -/
def receiver? (p : Plan) : Spot → Option Site
  | .lookups _ => none
  | .fills i => some (.cache i)
  | .sends i => some (p.topology.below i).site
  | .writeBacks i => some (p.topology.below i).site
  | .memory => some .memory
  | .finished => none

/-- A cache that may hold dirty lines: any but an instruction cache of its own. -/
structure Dirties (p : Plan) (i : Nat) : Prop where
  lt_size : i < p.topology.size
  side_ne : p.topology.side i ≠ some .instruction

/-- A missed demand request passes cache `i`. -/
structure Passes (p : Plan) (r : Request) (i : Nat) : Prop where
  isDemand : r.kind.isDemand = true
  isMiss : r.isMiss = true
  on_way : p.topology.entryFor? r.kind = some i ∨ p.topology.base? = some i

theorem Passes.lt_size {p : Plan} {r : Request} {i : Nat} (h : p.Passes r i) :
    i < p.topology.size := by
  rcases h.on_way with htop | hbase
  · exact Topology.lt_size_of_mem_tops (Topology.mem_tops_of_entryFor? htop)
  · exact Topology.lt_size_of_base? hbase

/-- A request that can be at a spot. -/
def Fits (p : Plan) (r : Request) : Spot → Prop
  | .lookups i => r.kind.isDemand = true ∧
      (p.topology.entryFor? r.kind = some i ∧ r.isMiss = false ∨
        p.topology.base? = some i ∧ r.isMiss = true)
  | .fills i => p.Passes r i ∨ r.kind = .writeBack ∧ p.topology.base? = some i
  | .sends i => p.Passes r i ∨ r.kind = .writeBack ∧ p.Dirties i
  | .writeBacks i => r.kind = .writeBack ∧ p.Dirties i
  | .memory =>
      r.kind.isDemand = true ∧ (r.isMiss = true ↔ p.topology.last? ≠ none) ∨
        r.kind = .writeBack ∧ p.topology.last? ≠ none
  | .finished => r.kind.isDemand = true

end Plan

end CacheHierarchy
