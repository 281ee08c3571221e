import CacheHierarchy.Proofs.Overview.Plan
import CacheHierarchy.Proofs.Tags.Rows

/-!
# Outlines

An outline is what is left of a hierarchy if writing is forgotten: the demand requests in their
queues, with the lines that they are for and the cycles from which they are ready, and the rows of
every cache without dirty bits. Write-backs do not show at all. A demand request in an outline is
an `Errand`. It carries a label of any type in place of its number, address and kind, and what the
look-ups below the first level found for it.

Each stage of a cycle is a total function of outlines, and a run of a hierarchy shows as a run of
these functions. Two runs with equal outlines therefore stay equal, and what holds of every
outline holds of every hierarchy.
-/

namespace CacheHierarchy

/-- What an access is issued as. -/
structure Ticket where
  id : Nat
  addr : Nat
  kind : AccessKind
  issuedAt : Nat
  deriving DecidableEq

def Request.ticket (r : Request) : Ticket :=
  { id := r.id, addr := r.addr, kind := r.kind, issuedAt := r.issuedAt }

def Completion.ticket (d : Completion) : Ticket :=
  { id := d.id, addr := d.addr, kind := d.kind, issuedAt := d.issuedAt }

/-- A demand request in an outline. -/
structure Errand (α : Type) where
  label : α
  /-- The number of its line at each cache. -/
  line : Nat → Nat
  /-- The first-level cache that it entered. -/
  top : Nat
  issuedAt : Nat
  readyAt : Nat
  isMiss : Bool
  bypass : Bool
  /-- Whether its look-ups below the first level were hits, the latest one first. -/
  asked : List Bool

structure Outcome (α : Type) where
  label : α
  top : Nat
  issuedAt : Nat
  completedAt : Nat
  miss : Bool
  asked : List Bool

def Errand.outcome {α : Type} (e : Errand α) (completedAt : Nat) : Outcome α where
  label := e.label
  top := e.top
  issuedAt := e.issuedAt
  completedAt
  miss := e.isMiss
  asked := e.asked

structure Outline (α : Type) where
  queue : Spot → List (Errand α)
  rows : Nat → Nat → LineSet
  counters : Nat → Counters
  clock : Site → Nat
  latency : Site → Nat
  reads : Nat
  now : Nat
  done : List (Outcome α)
  /-- The number of accesses that are not done. -/
  inFlight : Nat

def Plan.lines (p : Plan) (addr i : Nat) : Nat := if i < p.topology.size then p.line i addr else 0

theorem Plan.lines_of_lt {p : Plan} {i : Nat} (h : i < p.topology.size) (addr : Nat) :
    p.lines addr i = p.line i addr :=
  if_pos h

namespace Topology

def top (t : Topology) (side : Side) : Nat := t.entry?.elim 0 fun ports => ports.on side

def ports (t : Topology) : List (Side × Nat) := t.entry?.elim [] Ports.distinct

theorem top_mem_tops {t : Topology} {ports : Ports} (h : t.entry? = some ports) (side : Side) :
    t.top side ∈ t.tops := by
  cases t with
  | dramOnly => cases h
  | singleLevel | multiLevel | splitL1 => cases side <;> decide

theorem top_ne_of_base? {t : Topology} {b : Nat} (hb : t.base? = some b) (side : Side) :
    t.top side ≠ b := by
  cases t with
  | dramOnly | singleLevel => cases hb
  | multiLevel | splitL1 =>
    cases hb
    cases side <;> decide

end Topology

namespace Outline

variable {α : Type}

def push (s : Spot) (e : Errand α) (o : Outline α) : Outline α :=
  { o with queue := Function.update o.queue s (o.queue s ++ [e]) }

def arrive (s : Spot) (site : Site) (e : Errand α) (o : Outline α) : Outline α :=
  o.push s { e with readyAt := o.clock site + o.latency site }

def pop (s : Spot) (o : Outline α) : Outline α :=
  { o with queue := Function.update o.queue s (o.queue s).tail }

def alter (p : Plan) (i line : Nat) (f : LineSet → Nat → LineSet) (o : Outline α) : Outline α :=
  { o with rows := Function.update o.rows i ((p.geometry i).alter (o.rows i) line f) }

def count (i : Nat) (f : Counters → Counters) (o : Outline α) : Outline α :=
  { o with counters := Function.update o.counters i (f (o.counters i)) }

def holds (p : Plan) (i line : Nat) (o : Outline α) : Bool :=
  (p.geometry i).holds (o.rows i) line

/-- A miss for a line of cache `i` that was found there is not done. -/
def Awaits (i line : Nat) (o : Outline α) : Prop :=
  ∃ s, ∃ e ∈ o.queue s, e.isMiss = true ∧ e.top = i ∧ e.line i = line

def overtake (i line : Nat) (o : Outline α) : Outline α :=
  { o with queue := Function.update o.queue (.fills i) ((o.queue (.fills i)).map fun e =>
      if e.line i = line then { e with bypass := true } else e) }

/-! Fills. -/

def sendUp (e : Errand α) (o : Outline α) : Outline α :=
  o.arrive (.fills e.top) (.cache e.top) e

def fillTop (p : Plan) (i : Nat) (e : Errand α) (o : Outline α) : Outline α :=
  (if e.bypass then o.count i (·.countBackInvalidation false)
    else o.alter p i (e.line i) (LineSet.place false)).push .finished e

def withdrawFrom (p : Plan) (b victim : Nat) (o : Outline α) (port : Side × Nat) : Outline α :=
  if o.holds p port.2 (p.line port.2 (p.base b victim)) then
    (o.alter p port.2 (p.line port.2 (p.base b victim)) LineSet.remove).count port.2
      (·.countBackInvalidation false)
  else o.overtake port.2 (p.line port.2 (p.base b victim))

def fillBelow (p : Plan) (b : Nat) (e : Errand α) (o : Outline α) : Outline α :=
  if o.holds p b (e.line b) then o.sendUp e
  else
    let o' := (o.sendUp e).alter p b (e.line b) (LineSet.place false)
    match (p.geometry b).leaving? (o.rows b) (e.line b) with
    | none => o'
    | some victim => p.topology.ports.foldl (withdrawFrom p b victim.1) o'

def fillOne (p : Plan) (i : Nat) (e : Errand α) (o : Outline α) : Outline α :=
  if p.topology.base? = some i then o.fillBelow p i e else o.fillTop p i e

/-! Sending. -/

def sendOne (p : Plan) (i : Nat) (e : Errand α) (o : Outline α) : Outline α :=
  match p.topology.below i with
  | .memory => o.arrive .memory .memory e
  | .cache j => o.arrive (.lookups j) (.cache j) e

/-! Look-ups. -/

open Classical in
/-- A first-level look-up is done if it finds its line or an outstanding miss on it. -/
noncomputable def lookUpTop (p : Plan) (i : Nat) (e : Errand α) (o : Outline α) : Outline α :=
  if o.holds p i (e.line i) then
    ((o.alter p i (e.line i) (LineSet.use false)).count i (·.countLookup true false)).push
      .finished e
  else if o.Awaits i (e.line i) then (o.count i (·.countLookup true false)).push .finished e
  else (o.count i (·.countLookup false false)).push (.sends i) { e with isMiss := true }

def lookUpBelow (p : Plan) (b : Nat) (e : Errand α) (o : Outline α) : Outline α :=
  if o.holds p b (e.line b) then
    ((o.alter p b (e.line b) (LineSet.use false)).count b (·.countLookup true false)).sendUp
      { e with asked := true :: e.asked }
  else
    (o.count b (·.countLookup false false)).push (.sends b) { e with asked := false :: e.asked }

noncomputable def lookUpOne (p : Plan) (i : Nat) (e : Errand α) (o : Outline α) : Outline α :=
  if p.topology.base? = some i then o.lookUpBelow p i e else o.lookUpTop p i e

/-! Memory. -/

def read (p : Plan) (e : Errand α) (o : Outline α) : Outline α :=
  match p.topology.last? with
  | none => { o with reads := o.reads + 1 }.push .finished e
  | some i => { o with reads := o.reads + 1 }.arrive (.fills i) (.cache i) e

/-! Stages and cycles. -/

def next? (s : Spot) (site : Site) (o : Outline α) : Option (Errand α) :=
  (o.queue s).head?.filter fun e => e.readyAt ≤ o.clock site

/-- Ready errands leave a queue of a component one by one, at most as many as the last argument
says. -/
def drain (s : Spot) (site : Site) (one : Errand α → Outline α → Outline α) :
    Nat → Outline α → Outline α
  | 0, o => o
  | n + 1, o =>
    match o.next? s site with
    | none => o
    | some e => drain s site one n (one e (o.pop s))

def stage (s : Spot) (site : Site) (one : Errand α → Outline α → Outline α) (o : Outline α) :
    Outline α :=
  o.drain s site one (o.queue s).length

def advance (site : Site) (o : Outline α) : Outline α :=
  { o with clock := Function.update o.clock site (o.clock site + 1) }

noncomputable def runCache (p : Plan) (i : Nat) (o : Outline α) : Outline α :=
  (((o.stage (.fills i) (.cache i) (fillOne p i)).stage (.sends i) (.cache i) (sendOne p i)).stage
    (.lookups i) (.cache i) (lookUpOne p i)).advance (.cache i)

def runMemory (p : Plan) (o : Outline α) : Outline α :=
  (o.stage .memory .memory (read p)).advance .memory

noncomputable def runMachine (p : Plan) (o : Outline α) : Outline α :=
  ((List.range p.topology.size).foldl (fun o i => o.runCache p i) o).runMemory p

def retire (o : Outline α) : Outline α :=
  { o with
    queue := Function.update o.queue .finished []
    done := o.done ++ (o.queue .finished).map fun e => e.outcome o.now
    inFlight := o.inFlight - (o.queue .finished).length }

noncomputable def runCycle (p : Plan) (o : Outline α) : Outline α :=
  let o := (o.runMachine p).retire
  { o with now := o.now + 1 }

def issue (p : Plan) (label : α) (line : Nat → Nat) (top : Nat) (o : Outline α) : Outline α :=
  let e : Errand α :=
    { label, line, top, issuedAt := o.now, readyAt := o.now, isMiss := false, bypass := false,
      asked := [] }
  let o := { o with inFlight := o.inFlight + 1 }
  match p.topology.entry? with
  | none => o.arrive .memory .memory e
  | some _ => o.arrive (.lookups top) (.cache top) e

section Queues

variable {p : Plan} {i b : Nat} {s : Spot} {e : Errand α} {o : Outline α}

@[simp] theorem queue_push_self : (o.push s e).queue s = o.queue s ++ [e] :=
  Function.update_self ..

@[simp] theorem queue_pop (s : Spot) (o : Outline α) : (o.pop s).queue s = (o.queue s).tail :=
  Function.update_self ..

/-! Dealing with a request adds none to the queue that it comes from. -/

theorem queue_push_of_ne {s' : Spot} (h : s ≠ s') : (o.push s' e).queue s = o.queue s :=
  Function.update_of_ne h _ _

theorem queue_arrive_of_ne {s' : Spot} {site : Site} (h : s ≠ s') :
    (o.arrive s' site e).queue s = o.queue s :=
  queue_push_of_ne h

theorem length_queue_overtake (line : Nat) :
    ((o.overtake i line).queue s).length = (o.queue s).length := by
  unfold overtake
  by_cases hs : s = .fills i
  · subst hs
    simp
  · simp [hs]

theorem length_queue_withdrawFrom (victim : Nat) (port : Side × Nat) :
    ((o.withdrawFrom p b victim port).queue s).length = (o.queue s).length := by
  unfold withdrawFrom
  split
  · rfl
  · exact length_queue_overtake _

theorem length_queue_withdraw (victim : Nat) (ports : List (Side × Nat)) :
    ((ports.foldl (withdrawFrom p b victim) o).queue s).length = (o.queue s).length := by
  induction ports generalizing o with
  | nil => rfl
  | cons port rest ih => exact ih.trans (length_queue_withdrawFrom victim port)

theorem length_queue_fillOne (htop : p.topology.base? = some i → e.top ≠ i) :
    ((o.fillOne p i e).queue (.fills i)).length = (o.queue (.fills i)).length := by
  unfold fillOne
  split
  · rename_i hb
    have hne : Spot.fills i ≠ .fills e.top := fun h => htop hb (Spot.fills.inj h).symm
    have hup : (o.sendUp e).queue (.fills i) = o.queue (.fills i) := queue_arrive_of_ne hne
    unfold fillBelow
    split
    · rw [hup]
    · dsimp only
      split
      · exact congrArg _ hup
      · exact (length_queue_withdraw _ _).trans (congrArg _ hup)
  · rw [fillTop, queue_push_of_ne (by simp)]
    split <;> rfl

theorem length_queue_sendOne :
    ((o.sendOne p i e).queue (.sends i)).length = (o.queue (.sends i)).length := by
  unfold sendOne
  split <;> rw [queue_arrive_of_ne (by simp)]

theorem length_queue_lookUpOne :
    ((o.lookUpOne p i e).queue (.lookups i)).length = (o.queue (.lookups i)).length := by
  unfold lookUpOne
  split
  · unfold lookUpBelow
    split
    · rw [sendUp, queue_arrive_of_ne (by simp)]
      rfl
    · rw [queue_push_of_ne (by simp)]
      rfl
  · unfold lookUpTop
    split
    · rw [queue_push_of_ne (by simp)]
      rfl
    · split <;> rw [queue_push_of_ne (by simp)] <;> rfl

theorem length_queue_read :
    ((o.read p e).queue .memory).length = (o.queue .memory).length := by
  unfold read
  split
  · rw [queue_push_of_ne (by simp)]
  · rw [queue_arrive_of_ne (by simp)]

theorem drain_of_next?_eq_none {site : Site} (h : o.next? s site = none)
    (one : Errand α → Outline α → Outline α) (n : Nat) : o.drain s site one n = o := by
  cases n with
  | zero => rfl
  | succ n => rw [drain, h]

/-- What is finished leaves before a cycle is over. -/
@[simp] theorem queue_finished_runCycle (p : Plan) (o : Outline α) :
    (o.runCycle p).queue .finished = [] := by
  simp [runCycle, retire]

@[simp] theorem queue_finished_issue (p : Plan) (label : α) (line : Nat → Nat) (top : Nat)
    (o : Outline α) : (o.issue p label line top).queue .finished = o.queue .finished := by
  unfold issue
  dsimp only
  split <;> rw [queue_arrive_of_ne (by simp)]

end Queues

end Outline

end CacheHierarchy
