import CacheHierarchy.Proofs.Atomic.Scene

/-!
# Tasks

A task is an access that is served by itself, with what it is to come to. At each spot on its way
`p.rest` says what is left of the atomic access for a request that is there, as a function of the
contents: the base looks its line up or brings it in, the cache it entered takes it in, or nothing
is left.

`σ.Stage p t true` says that the request of the task `t` is in the scene `σ`, and that what is left
of it leads from the contents of the scene to the result of the task. `σ.Stage p t false` says that
no demand request is left and that the contents are the result.
-/

namespace CacheHierarchy

def Plan.rest (p : Plan) (line : Nat) (kind : AccessKind) (s : Spot) (miss : Bool)
    (c : Contents) : Bool × Contents :=
  let filled := fun c : Contents => (miss, c.fillIn p (p.topology.top kind.side) line kind.isWrite)
  match s with
  | .lookups i =>
    if p.topology.base? = some i then filled (c.fetch p line) else c.access p line kind
  | .sends i =>
    if p.topology.base? = some i then filled (c.bring p line) else filled (c.fetch p line)
  | .memory => filled (c.bring p line)
  | .fills i => if p.topology.base? = some i then filled (c.bring p line) else filled c
  | .writeBacks _ | .finished => (miss, c)

namespace Plan

variable {p : Plan} {line i b : Nat} {kind : AccessKind} {miss : Bool} {c : Contents}

section Top

variable (hi : i ∈ p.topology.tops)

include hi

theorem base?_ne_top : p.topology.base? ≠ some i :=
  fun hb => Topology.base_not_mem_tops hb hi

theorem rest_lookups_top : p.rest line kind (.lookups i) miss c = c.access p line kind := by
  simp [rest, base?_ne_top hi]

theorem rest_sends_top : p.rest line kind (.sends i) miss c =
    (miss, (c.fetch p line).fillIn p (p.topology.top kind.side) line kind.isWrite) := by
  simp [rest, base?_ne_top hi]

theorem rest_fills_top : p.rest line kind (.fills i) miss c =
    (miss, c.fillIn p (p.topology.top kind.side) line kind.isWrite) := by
  simp [rest, base?_ne_top hi]

end Top

section Base

variable (hb : p.topology.base? = some b)

include hb

theorem rest_lookups_base : p.rest line kind (.lookups b) miss c =
    (miss, (c.fetch p line).fillIn p (p.topology.top kind.side) line kind.isWrite) := by
  simp [rest, hb]

theorem rest_sends_base : p.rest line kind (.sends b) miss c =
    (miss, (c.bring p line).fillIn p (p.topology.top kind.side) line kind.isWrite) := by
  simp [rest, hb]

theorem rest_fills_base : p.rest line kind (.fills b) miss c =
    (miss, (c.bring p line).fillIn p (p.topology.top kind.side) line kind.isWrite) := by
  simp [rest, hb]

end Base

theorem rest_leave (h : p.topology.below i = .memory) :
    p.rest line kind .memory miss c = p.rest line kind (.sends i) miss c := by
  simp only [rest]
  cases hb : p.topology.base? with
  | none => simp [Contents.fetch, Contents.bring, hb]
  | some b =>
    by_cases hi : i = b
    · simp [hi]
    · simp [Topology.below, hb, hi] at h

theorem rest_handDown (h : p.topology.below i = .cache b) :
    p.rest line kind (.lookups b) miss c = p.rest line kind (.sends i) miss c := by
  obtain ⟨hb, hne⟩ := Topology.base?_of_below h
  simp [rest, hb, hne.symm]

theorem rest_read (h : p.topology.last? = some i) :
    p.rest line kind (.fills i) miss c = p.rest line kind .memory miss c := by
  rcases Topology.mem_tops_or_base?_of_last? h with ⟨-, hnone⟩ | hb
  · simp [rest, hnone, Contents.bring]
  · simp [rest, hb]

end Plan

/-- An access that is served by itself. -/
structure Task where
  lineSize : Nat
  addr : Nat
  kind : AccessKind
  /-- Whether it is to be a miss, and the contents that it is to leave. -/
  result : Bool × Contents

def Task.line (t : Task) : Nat := t.addr / t.lineSize

namespace Scene

variable {p : Plan} {t : Task} {σ σ' : Scene} {s s' : Spot} {r r' : Request} {waits : Bool}

structure Serves (p : Plan) (t : Task) (s : Spot) (r : Request) (σ : Scene) : Prop where
  addr : r.addr = t.addr
  kind : r.kind = t.kind
  bypass : r.bypass = false
  serviced : ∀ e ∈ σ.outstanding.entries, e.kind = t.kind
  calm : σ.Calm p
  rest : p.rest t.line t.kind s r.isMiss (σ.contents p) = t.result

/-- How far a task is. -/
inductive Stage (p : Plan) (t : Task) (σ : Scene) : Bool → Prop
  | underWay {s : Spot} {r : Request} (alone : demands σ.traffic = {(s, r)}) (hs : s ≠ .finished)
      (serves : σ.Serves p t s r) : Stage p t σ true
  | finished {r : Request} (alone : demands σ.traffic = {(.finished, r)})
      (miss : r.isMiss = t.result.1) (contents : σ.contents p = t.result.2) : Stage p t σ true
  | left (none : demands σ.traffic = 0) (contents : σ.contents p = t.result.2) : Stage p t σ false

theorem Serves.congr (h : σ.Serves p t s r) (hcontents : σ'.contents p = σ.contents p)
    (houtstanding : σ'.outstanding = σ.outstanding) (hcalm : σ.Calm p → σ'.Calm p) :
    σ'.Serves p t s r :=
  ⟨h.addr, h.kind, h.bypass, houtstanding ▸ h.serviced, hcalm h.calm, hcontents ▸ h.rest⟩

/-- The request is for the line of the task in every cache. -/
theorem Serves.line_eq {i : Nat} (h : σ.Serves p t s r) (huniform : p.Uniform t.lineSize)
    (hi : i < p.topology.size) : p.line i r.addr = t.line := by
  rw [huniform.line_eq hi, h.addr, Task.line]

theorem Serves.hand (h : σ.Serves p t s r) (haddr : r'.addr = r.addr) (hkind : r'.kind = r.kind)
    (hbypass : r'.bypass = r.bypass)
    (hrest : p.rest t.line t.kind s' r'.isMiss (σ.contents p) =
      p.rest t.line t.kind s r.isMiss (σ.contents p)) : σ.Serves p t s' r' :=
  ⟨haddr.trans h.addr, hkind.trans h.kind, hbypass.trans h.bypass, h.serviced, h.calm,
    hrest.trans h.rest⟩

namespace Stage

theorem congr (h : σ.Stage p t waits) (hdemands : demands σ'.traffic = demands σ.traffic)
    (hcontents : σ'.contents p = σ.contents p) (houtstanding : σ'.outstanding = σ.outstanding)
    (hcalm : σ.Calm p → σ'.Calm p) : σ'.Stage p t waits := by
  cases h with
  | underWay alone hs serves =>
    exact .underWay (hdemands.trans alone) hs (serves.congr hcontents houtstanding hcalm)
  | finished alone miss contents =>
    exact .finished (hdemands.trans alone) miss (hcontents.trans contents)
  | left none contents => exact .left (hdemands.trans none) (hcontents.trans contents)

theorem eq_of_alone (hr : r.kind.isDemand = true)
    (h : demands (σ.add s r).traffic = {(s', r')}) :
    s' = s ∧ r' = r ∧ demands σ.traffic = 0 := by
  rw [demands_add hr] at h
  have hmem : (s, r) ∈ ({(s', r')} : Multiset (Spot × Request)) := h ▸ Multiset.mem_cons_self _ _
  obtain ⟨rfl, rfl⟩ : s = s' ∧ r = r' := by simpa using hmem
  exact ⟨rfl, rfl, add_left_cancel (a := {(s, r)}) (h.trans (add_zero _).symm)⟩

theorem not_left (hr : r.kind.isDemand = true) : ¬demands (σ.add s r).traffic = 0 := by
  rw [demands_add hr]
  exact Multiset.cons_ne_zero

/-- A demand request that is not done is the one of the task, and there is no other. -/
theorem held (h : (σ.add s r).Stage p t waits) (hr : r.kind.isDemand = true)
    (hs : s ≠ .finished) : waits = true ∧ demands σ.traffic = 0 ∧ σ.Serves p t s r := by
  cases h with
  | underWay alone hs' serves =>
    obtain ⟨rfl, rfl, hfree⟩ := eq_of_alone hr alone
    refine ⟨rfl, hfree, serves.congr (contents_add_demand hr).symm rfl fun hcalm y hy => ?_⟩
    exact hcalm y (Multiset.mem_cons_of_mem hy)
  | finished alone => exact absurd (eq_of_alone hr alone).1.symm hs
  | left none => exact absurd none (not_left hr)

theorem retired (h : (σ.add .finished r).Stage p t waits) (hr : r.kind.isDemand = true) :
    waits = true ∧ demands σ.traffic = 0 ∧ (r.isMiss, σ.contents p) = t.result := by
  cases h with
  | underWay alone hs => exact absurd (eq_of_alone hr alone).1 hs
  | finished alone miss contents =>
    obtain ⟨-, rfl, hfree⟩ := eq_of_alone hr alone
    exact ⟨rfl, hfree, Prod.ext miss ((contents_add_demand hr).symm.trans contents)⟩
  | left none => exact absurd none (not_left hr)

theorem hand (h : σ.Serves p t s r) (hfree : demands σ.traffic = 0)
    (hr : r.kind.isDemand = true) (hs : s ≠ .finished) : (σ.add s r).Stage p t true := by
  refine .underWay (demands_add_free hfree hr) hs ?_
  exact h.congr (contents_add_demand hr) rfl fun hcalm => hcalm.add (not_doomed_of_demand hr)

theorem done (hfree : demands σ.traffic = 0) (hr : r.kind.isDemand = true)
    (hmiss : r.isMiss = t.result.1) (hcontents : σ.contents p = t.result.2) :
    (σ.add .finished r).Stage p t true :=
  .finished (demands_add_free hfree hr) hmiss ((contents_add_demand hr).trans hcontents)

theorem reroute {site : Site} (h : (σ.add s r).Stage p t waits) (hr : r.kind = .writeBack)
    (hs : p.receiver? s = some site) (hs' : p.receiver? s' = some site)
    (hkind : r'.kind = r.kind) (haddr : r'.addr = r.addr) : (σ.add s' r').Stage p t waits := by
  have hr' : r'.kind = .writeBack := hkind.trans hr
  have hdoomed : ∀ i line, p.Doomed i line (s', r') → p.Doomed i line (s, r) :=
    fun i line hdoomed => ⟨hr, (hs.trans hs'.symm).trans hdoomed.receiver,
      haddr ▸ hdoomed.line_eq⟩
  refine h.congr ?_ ?_ rfl fun hcalm => ?_
  · rw [demands_add_writeBack hr, demands_add_writeBack hr']
  · cases site with
    | memory => rw [contents_add_memory hr hs, contents_add_memory hr' hs']
    | cache i =>
      have hleft : p.Doomed i (p.line i r.addr) (s, r) := ⟨hr, hs, rfl⟩
      have harrived : p.Doomed i (p.line i r.addr) (s', r') :=
        ⟨hr', hs', congrArg (p.line i) haddr⟩
      rw [contents_add_cache hleft, contents_add_cache harrived]
  · intro y hy i line hy'
    rcases Multiset.mem_cons.1 hy with rfl | hy
    · exact hcalm (s, r) (Multiset.mem_cons_self _ _) i line (hdoomed i line hy')
    · exact hcalm y (Multiset.mem_cons_of_mem hy) i line hy'

theorem move (h : (σ.add s r).Stage p t waits)
    (hr : (r.kind.isDemand || r.kind.isWriteBack) = true) (hs : s ≠ .finished)
    (hs' : s' ≠ .finished) (hr' : { r with readyAt := r'.readyAt } = r')
    (hreceiver : r.kind = .writeBack →
      ∃ site, p.receiver? s = some site ∧ p.receiver? s' = some site)
    (hrest : r.kind.isDemand = true → ∀ miss c,
      p.rest t.line t.kind s' miss c = p.rest t.line t.kind s miss c) :
    (σ.add s' r').Stage p t waits := by
  rw [← hr']
  rcases Bool.or_eq_true_iff.1 hr with hdemand | hwriteBack
  · obtain ⟨rfl, hfree, hserves⟩ := h.held hdemand hs
    exact .hand (hserves.hand rfl rfl rfl (hrest hdemand _ _)) hfree hdemand hs'
  · have hkind := AccessKind.isWriteBack_iff.1 hwriteBack
    obtain ⟨site, hsite, hsite'⟩ := hreceiver hkind
    exact h.reroute hkind hsite hsite' rfl rfl

end Stage

end Scene

end CacheHierarchy
