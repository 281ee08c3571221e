import CacheHierarchy.Proofs.Overview.Basic

/-!
# Steps of an overview

`Step p o o'` lists everything that can happen in a hierarchy, one constructor for each thing.
A step says nothing of the order within a queue or of the time at which a request is ready, so a
run of the machine is one of many runs of these steps.

`Route` lists the ways on which a request is handed from one spot to the next unchanged. A request
that goes up from the base needs its line to be resident there.

An invariant that holds at the start and is kept by each step holds of every overview that can be
reached (`Reach.invariant`).
-/

namespace CacheHierarchy

/-- A request is handed from one spot to the next. -/
inductive Route (p : Plan) (o : Overview) (r : Request) : Spot → Spot → Prop
  | release (i : Nat) : Route p o r (.writeBacks i) (.sends i)
  | leave {i : Nat} (h : p.topology.below i = .memory) : Route p o r (.sends i) .memory
  | handFill {i b : Nat} (h : p.topology.below i = .cache b) (hr : r.kind = .writeBack) :
      Route p o r (.sends i) (.fills b)
  | handDown {i b : Nat} (h : p.topology.below i = .cache b) (hr : r.kind.isDemand = true) :
      Route p o r (.sends i) (.lookups b)
  | missBelow {b : Nat} (hb : p.topology.base? = some b)
      (hline : o.lines b (p.line b r.addr) = none) : Route p o r (.lookups b) (.sends b)
  | answer {b i : Nat} {s : Spot} (hb : p.topology.base? = some b)
      (hs : s = .lookups b ∨ s = .fills b) (hr : r.kind.isDemand = true)
      (hi : p.topology.entryFor? r.kind = some i) (hline : o.lines b (p.line b r.addr) ≠ none) :
      Route p o r s (.fills i)
  | read {i : Nat} (hi : p.topology.last? = some i) (hr : r.kind.isDemand = true) :
      Route p o r .memory (.fills i)
  | finish (h : p.topology.last? = none) (hr : r.kind.isDemand = true) :
      Route p o r .memory .finished

theorem Route.ne_finished {p : Plan} {o : Overview} {r : Request} {s s' : Spot}
    (h : Route p o r s s') : s ≠ .finished := by
  rintro rfl
  cases h with
  | answer _ hs => rcases hs with hs | hs <;> cases hs

theorem Route.reads_eq_zero {p : Plan} {o : Overview} {r : Request} {s s' : Spot}
    (h : Route p o r s s') (hr : ¬r.kind.isDemand = true) : s.reads = 0 := by
  cases h with
  | read _ hdemand | finish _ hdemand => exact absurd hdemand hr
  | answer _ _ hdemand => exact absurd hdemand hr
  | _ => rfl

/-- One thing happens. -/
inductive Step (p : Plan) (o : Overview) : Overview → Prop
  /-- An entry of the journal that needs no step of its own. -/
  | note (event : Event) (h : event.isTracked = false)
      (hread : event.isRead = false ∨ p.topology.last? = none) :
      Step p o { o with journal := event :: o.journal }
  | issue {addr : Nat} {kind : AccessKind} (readyAt : Nat) (haddr : addr < wordLimit)
      (hkind : kind.isDemand = true) (hnext : o.nextId + 1 < wordLimit) :
      Step p o { o with
        nextId := o.nextId + 1
        outstanding := ⟨o.outstanding.entries ++ [{ id := o.nextId, addr, kind }]⟩
        traffic := (p.entry kind, { Request.ofAccess o.nextId addr kind o.now with readyAt }) ::ₘ
          o.traffic }
  | move {s s' : Spot} {r : Request} {rest : Multiset (Spot × Request)}
      (ht : o.traffic = (s, r) ::ₘ rest) (hs : Route p o r s s') (readyAt : Nat)
      (dirty done : Bool) (hleft : ∀ i, s ≠ .lookups i)
      (hread : r.kind.isDemand = true → s' ≠ .memory) :
      Step p o { o with
        traffic := (s', { r with readyAt, dirty, done }) ::ₘ rest
        memoryReads := o.memoryReads + s.reads }
  /-- Memory takes a read in. -/
  | arrive {i : Nat} {r : Request} {rest : Multiset (Spot × Request)}
      (ht : o.traffic = (.sends i, r) ::ₘ rest) (hs : Route p o r (.sends i) .memory)
      (readyAt : Nat) (hr : r.kind.isDemand = true) :
      Step p o { o with
        traffic := (.memory, { r with readyAt }) ::ₘ rest
        journal := .accepted { r with readyAt } :: o.journal }
  /-- A look-up at the base is counted, and its request goes up if the line is there and down if
  not. -/
  | lookUp {b : Nat} {s' : Spot} {r : Request} {rest : Multiset (Spot × Request)}
      (ht : o.traffic = (.lookups b, r) ::ₘ rest) (hs : Route p o r (.lookups b) s')
      (readyAt : Nat) (dirty : Bool) (hb : p.topology.base? = some b) (cycle : Nat) :
      Step p o { o with
        traffic := (s', { r with readyAt, dirty }) ::ₘ rest
        counters := Function.update o.counters b
          ((o.counters b).countLookup (o.lines b (p.line b r.addr)).isSome false)
        journal := .lookedUp b r (o.lines b (p.line b r.addr)).isSome cycle :: o.journal }
  /-- A write-back that is owed is made and announced. -/
  | pay {d : Debt} (site : Site) (hd : o.debt = some d) (hsite : p.receiver? d.spot = some site)
      (now readyAt : Nat) :
      Step p o { o with
        nextId := o.nextId + 1
        traffic := (d.spot, { Request.ofWriteBack o.nextId d.addr now with readyAt }) ::ₘ o.traffic
        expected := o.announce site o.nextId
        debt := none }
  | absorb {b : Nat} {r : Request} {rest : Multiset (Spot × Request)} {dirty : Bool}
      (ht : o.traffic = (.fills b, r) ::ₘ rest) (hr : r.kind = .writeBack)
      (hb : p.topology.base? = some b) (hline : o.lines b (p.line b r.addr) = some dirty)
      (cycle : Nat) :
      Step p o { o with
        traffic := rest
        lines := Function.update o.lines b
          (Function.update (o.lines b) (p.line b r.addr) (some true))
        expected := o.settle (.cache b) r.id
        journal := .absorbed (.cache b) r cycle :: o.journal }
  | memoryAbsorb {r : Request} {rest : Multiset (Spot × Request)}
      (ht : o.traffic = (.memory, r) ::ₘ rest) (hr : r.kind = .writeBack) :
      Step p o { o with
        traffic := rest
        expected := o.settle .memory r.id
        memoryWriteBacks := o.memoryWriteBacks + 1
        journal := .absorbed .memory r o.memoryCycle :: o.journal }
  /-- A first-level look-up finds its line. -/
  | hit {i : Nat} {r : Request} {rest : Multiset (Spot × Request)} {dirty : Bool}
      (ht : o.traffic = (.lookups i, r) ::ₘ rest) (hi : i ∈ p.topology.tops)
      (hline : o.lines i (p.line i r.addr) = some dirty) (cycle : Nat) :
      Step p o { o with
        traffic := (.finished, r.finish) ::ₘ rest
        lines := Function.update o.lines i
          (Function.update (o.lines i) (p.line i r.addr) (some (dirty || r.kind.isWrite)))
        counters := Function.update o.counters i ((o.counters i).countLookup true r.kind.isWrite)
        journal := .lookedUp i r true cycle :: o.journal }
  /-- A first-level look-up finds an outstanding miss on its line. -/
  | merge {i : Nat} {r : Request} {rest : Multiset (Spot × Request)} {e : OutstandingAccess}
      (ht : o.traffic = (.lookups i, r) ::ₘ rest) (hi : i ∈ p.topology.tops)
      (he : e ∈ o.outstanding.entries) (hmark : e.mark = some ⟨i, p.line i r.addr⟩)
      (hline : o.lines i (p.line i r.addr) = none) (cycle : Nat) :
      Step p o { o with
        traffic := (.finished, r.finish) ::ₘ rest
        outstanding := o.outstanding.join e.id r.kind
        counters := Function.update o.counters i ((o.counters i).countLookup true r.kind.isWrite)
        journal := .merged i r e.id cycle :: o.journal }
  /-- A first-level look-up finds neither. -/
  | miss {i : Nat} {r : Request} {rest : Multiset (Spot × Request)}
      (ht : o.traffic = (.lookups i, r) ::ₘ rest) (hi : i ∈ p.topology.tops)
      (hline : o.lines i (p.line i r.addr) = none)
      (hmark : ∀ e ∈ o.outstanding.entries, e.mark ≠ some ⟨i, p.line i r.addr⟩) (cycle : Nat) :
      Step p o { o with
        traffic := (.sends i, { r with isMiss := true }) ::ₘ rest
        outstanding := o.outstanding.await r.id ⟨i, p.line i r.addr⟩
        counters := Function.update o.counters i ((o.counters i).countLookup false r.kind.isWrite)
        journal := .lookedUp i r false cycle :: o.journal }
  /-- A first-level cache installs a line, and owes the line that it displaces if that is dirty. -/
  | install {i : Nat} {r : Request} {rest : Multiset (Spot × Request)}
      {after : Nat → Option Bool} {victim : Option (Nat × Bool)}
      (ht : o.traffic = (.fills i, r) ::ₘ rest) (hi : i ∈ p.topology.tops)
      (hbypass : r.bypass = false) (hdebt : o.debt = none) (hrepair : o.repair = none)
      (hline : Displaces (o.lines i) after (p.line i r.addr) (o.kindOf r).isWrite victim)
      (haddr : ∀ v d, victim = some (v, d) → p.base i v < wordLimit) (cycle : Nat) :
      Step p o { o with
        traffic := (.finished, r.finish) ::ₘ rest
        lines := Function.update o.lines i after
        counters := Function.update o.counters i
          (if victim.any Prod.snd then (o.counters i).countWriteBack else o.counters i)
        debt := (victim.filter Prod.snd).map fun v => { via := some i, addr := p.base i v.1 }
        journal := .filled i r (o.kindOf r) cycle :: o.journal }
  /-- A first-level cache completes a fill whose line the base has given up. -/
  | bypass {i : Nat} {r : Request} {rest : Multiset (Spot × Request)}
      (ht : o.traffic = (.fills i, r) ::ₘ rest) (hi : i ∈ p.topology.tops)
      (hbypass : r.bypass = true) (hdebt : o.debt = none) (cycle : Nat) :
      Step p o { o with
        traffic := (.finished, r.finish) ::ₘ rest
        counters := Function.update o.counters i
          ((o.counters i).countBackInvalidation (o.kindOf r).isWrite)
        debt := if (o.kindOf r).isWrite then
            some { via := none, addr := p.base i (p.line i r.addr) }
          else none
        journal := .bypassed i r (o.kindOf r) cycle :: o.journal }
  /-- The base hands a request up and installs its line. The line that it displaces is to be
  repaired. -/
  | place {b i : Nat} {r : Request} {rest : Multiset (Spot × Request)}
      {after : Nat → Option Bool} {victim : Option (Nat × Bool)}
      (ht : o.traffic = (.fills b, r) ::ₘ rest) (hb : p.topology.base? = some b)
      (hr : r.kind.isDemand = true) (hi : p.topology.entryFor? r.kind = some i)
      (hdebt : o.debt = none) (hrepair : o.repair = none)
      (hline : Displaces (o.lines b) after (p.line b r.addr) false victim)
      (haddr : ∀ v d, victim = some (v, d) → p.base b v < wordLimit) (readyAt cycle : Nat)
      (hfull : victim ≠ none → (p.geometry b).Full (o.lines b) (p.line b r.addr)) :
      Step p o { o with
        traffic := (.fills i, { r with readyAt }) ::ₘ rest
        lines := Function.update o.lines b after
        counters := Function.update o.counters b
          (if victim.any Prod.snd then (o.counters b).countWriteBack else o.counters b)
        debt := (victim.filter Prod.snd).map fun v => { via := some b, addr := p.base b v.1 }
        repair := victim.map fun v => { line := v.1 }
        journal := .installed b r cycle :: o.journal }
  /-- A write-back of the line under repair, on its way to the base, is passed on to memory. -/
  | divert {b : Nat} {s : Spot} {r : Request} {rest : Multiset (Spot × Request)} {ρ : Repair}
      (ht : o.traffic = (s, r) ::ₘ rest) (hr : r.kind = .writeBack)
      (hb : p.topology.base? = some b) (hs : p.receiver? s = some (.cache b))
      (hrepair : o.repair = some ρ) (hline : p.line b r.addr = ρ.line) (readyAt cycle : Nat) :
      Step p o { o with
        traffic := (.memory, { r with readyAt }) ::ₘ rest
        expected := Function.update (o.settle (.cache b) r.id) .memory
          (r.id ::ₘ o.expected .memory)
        counters := Function.update o.counters b (o.counters b).countWriteBack
        journal := .diverted b r cycle :: o.journal }
  | recalled {b : Nat} {ρ : Repair} (hb : p.topology.base? = some b) (hrepair : o.repair = some ρ)
      (hnone : ∀ s r, (s, r) ∈ o.traffic → r.kind = .writeBack →
        p.receiver? s = some (.cache b) → p.line b r.addr ≠ ρ.line) :
      Step p o { o with repair := some { ρ with recalled := true } }
  /-- A first-level cache drops its copy of the line under repair. -/
  | drop {b i : Nat} {ρ : Repair} {dirty : Bool} (hb : p.topology.base? = some b)
      (hi : i ∈ p.topology.tops) (hdebt : o.debt = none) (hrepair : o.repair = some ρ)
      (hline : o.lines i (p.line i (p.base b ρ.line)) = some dirty) :
      Step p o { o with
        lines := Function.update o.lines i
          (Function.update (o.lines i) (p.line i (p.base b ρ.line)) none)
        counters := Function.update o.counters i ((o.counters i).countBackInvalidation dirty)
        debt := if dirty then some { via := none, addr := p.base b ρ.line } else none
        repair := some { ρ with withdrawn := i :: ρ.withdrawn } }
  /-- A first-level cache has no copy of the line under repair; a fill for it is overtaken. -/
  | overtake {b i : Nat} {ρ : Repair} (hb : p.topology.base? = some b) (hi : i ∈ p.topology.tops)
      (hrepair : o.repair = some ρ) (hline : o.lines i (p.line i (p.base b ρ.line)) = none) :
      Step p o { o with
        traffic := o.traffic.map (p.overtake i (p.base b ρ.line))
        repair := some { ρ with withdrawn := i :: ρ.withdrawn } }
  | repaired {ρ : Repair} (hrepair : o.repair = some ρ) (hrecalled : ρ.recalled = true)
      (hwithdrawn : ∀ i ∈ p.topology.tops, i ∈ ρ.withdrawn) :
      Step p o { o with repair := none }
  | retire {r : Request} {rest : Multiset (Spot × Request)} {e : OutstandingAccess}
      {outstanding : Outstanding} (ht : o.traffic = (.finished, r) ::ₘ rest)
      (he : o.outstanding.remove? r.id = some (e, outstanding)) :
      Step p o { o with
        traffic := rest
        outstanding
        journal := .retired r o.now :: o.journal
        completions := o.completions ++ [.ofRequest r o.now] }
  | tick : Step p o { o with memoryCycle := o.memoryCycle + 1 }
  | newCycle (hnow : o.now < o.memoryCycle) (hnone : ∀ r, (.finished, r) ∉ o.traffic) :
      Step p o { o with now := o.now + 1 }

/-- An overview that can be reached. -/
def Reach (p : Plan) (o : Overview) : Prop := Relation.ReflTransGen (Step p) .start o

namespace Reach

variable {p : Plan} {o o' : Overview}

theorem start : Reach p .start := .refl

theorem step (h : Reach p o) (hstep : Step p o o') : Reach p o' := .tail h hstep

/-- An invariant that holds at the start and is kept by each step. -/
theorem invariant (Inv : Overview → Prop) (hstart : Inv .start)
    (hstep : ∀ o o', Reach p o → Inv o → Step p o o' → Inv o') (h : Reach p o) : Inv o := by
  induction h with
  | refl => exact hstart
  | tail hreach hlast ih => exact hstep _ _ hreach ih hlast

end Reach

end CacheHierarchy
