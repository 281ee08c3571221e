import CacheHierarchy.Proofs.Overview.Preservation
import Mathlib.Algebra.BigOperators.Group.Multiset.Defs
import Mathlib.Algebra.Group.Nat.Defs
import Mathlib.Data.Finset.Card

/-!
# What accesses cost

Request numbers and the counts of memory are used up by accesses only. An access takes a number of
its own. A demand fill of the base can displace one dirty line there, and then a copy of that line
in each of at most two caches above; a fill of a first-level cache can displace one more dirty line,
or be bypassed and owe one. Each of these is worth one write-back, which takes a number, so an
access takes five at most. Those that it has not taken yet are its *credit*, which depends on how
far its request has come.
-/

namespace CacheHierarchy

def Event.isRetired : Event → Bool
  | retired .. => true
  | _ => false

theorem Event.not_isRetired {event : Event} (h : event.isTracked = false) :
    event.isRetired = false := by
  cases event with
  | retired => cases h
  | _ => rfl

def Overview.accesses (o : Overview) : Nat :=
  o.outstanding.length + o.journal.countP Event.isRetired

def weigh (w : Spot → AccessKind → Nat) (t : Multiset (Spot × Request)) : Nat :=
  (t.map fun x => w x.1 x.2.kind).sum

section Weigh

variable {w : Spot → AccessKind → Nat} {t : Multiset (Spot × Request)}

theorem weigh_cons (s : Spot) (r : Request) :
    weigh w ((s, r) ::ₘ t) = w s r.kind + weigh w t := by
  rw [weigh, Multiset.map_cons, Multiset.sum_cons]
  rfl

theorem weigh_of_eq_cons {u : Multiset (Spot × Request)} {s : Spot} {r : Request}
    (hu : u = (s, r) ::ₘ t) : weigh w u = w s r.kind + weigh w t := by
  rw [hu, weigh_cons]

variable {u : Multiset (Spot × Request)} {s s' : Spot} {r r' : Request} {used used' n : Nat}

theorem weigh_enter (hu : u = (s, r) ::ₘ t) (h : w s r.kind ≤ n) (hused : used' = used) :
    used' + weigh w u ≤ used + weigh w t + n := by
  rw [weigh_of_eq_cons hu, hused]
  omega

theorem weigh_move {u' : Multiset (Spot × Request)} (hu : u = (s, r) ::ₘ t)
    (hu' : u' = (s', r') ::ₘ t) (hkind : r'.kind = r.kind) (h : n + w s' r.kind ≤ w s r.kind)
    (hused : used' = used + n) : used' + weigh w u' ≤ used + weigh w u := by
  rw [weigh_of_eq_cons hu, weigh_of_eq_cons hu', hkind, hused]
  omega

theorem weigh_move_eq (hu : u = (s, r) ::ₘ t)
    (hu' : u' = (s', r') ::ₘ t) (hkind : r'.kind = r.kind) (h : n + w s' r.kind = w s r.kind)
    (hused : used' = used + n) : used' + weigh w u' = used + weigh w u := by
  rw [weigh_of_eq_cons hu, weigh_of_eq_cons hu', hkind, hused]
  omega
theorem weigh_leave (hu : u = (s, r) ::ₘ t) (h : n ≤ w s r.kind) (hused : used' = used + n) :
    used' + weigh w t ≤ used + weigh w u := by
  rw [weigh_of_eq_cons hu, hused]
  omega

theorem weigh_overtake (p : Plan) (i addr : Nat) :
    weigh w (t.map (p.overtake i addr)) = weigh w t := by
  rw [weigh, weigh, Multiset.map_map]
  refine congrArg Multiset.sum (Multiset.map_congr rfl fun x _ => ?_)
  rw [Function.comp_apply, overtake_fst, overtake_snd]

end Weigh

/-- The request numbers that a request can still make necessary. -/
def Plan.credit (p : Plan) (s : Spot) (kind : AccessKind) : Nat :=
  if kind.isDemand then
    match s with
    | .finished => 0
    | .fills i => if i ∈ p.topology.tops then 1 else 4
    | _ => 4
  else 0

/-- A demand request that memory has still to read, if it is sent down. -/
def Spot.unread (s : Spot) (kind : AccessKind) : Nat :=
  if kind.isDemand then
    match s with
    | finished => 0
    | fills _ => 0
    | _ => 1
  else 0

theorem Spot.unread_le (s : Spot) (kind : AccessKind) : s.unread kind ≤ 1 := by
  unfold unread
  split
  · split <;> decide
  · exact Nat.zero_le 1

theorem Spot.unread_route {p : Plan} {o : Overview} {r : Request} {s s' : Spot}
    (h : Route p o r s s') : s.reads + s'.unread r.kind ≤ s.unread r.kind := by
  have hfills : ∀ i, (Spot.fills i).unread r.kind = 0 := fun i => by
    unfold unread
    split <;> rfl
  cases h with
  | handFill => simp [hfills, reads]
  | answer _ hs => rcases hs with rfl | rfl <;> simp [hfills, reads]
  | read _ hr => simp [reads, unread, hr]
  | finish _ hr => simp [reads, unread, hr]
  | _ => exact (Nat.zero_add _).le

def Spot.due (s : Spot) (kind : AccessKind) : Nat := if kind.isDemand then s.reads else 0

theorem Spot.due_of_ne {s : Spot} (hs : s ≠ .memory) (kind : AccessKind) : s.due kind = 0 := by
  unfold due
  split
  · cases s with
    | memory => exact absurd rfl hs
    | _ => rfl
  · rfl

theorem weigh_due_eq_zero {t : Multiset (Spot × Request)} (h : demandIds t = 0) :
    weigh Spot.due t = 0 := by
  induction t using Multiset.induction with
  | empty => rfl
  | cons x t ih =>
    by_cases hdemand : x.2.kind.isDemand = true
    · rw [demandIds_cons (s := x.1) hdemand] at h
      exact absurd h (Multiset.cons_ne_zero)
    · rw [demandIds_cons_of_not (s := x.1) hdemand] at h
      rw [weigh_cons, Spot.due, if_neg hdemand, ih h]

/-- On its way a request is read where it leaves memory. -/
theorem Spot.due_route {p : Plan} {o : Overview} {r : Request} {s s' : Spot}
    (h : Route p o r s s') (hread : r.kind.isDemand = true → s' ≠ .memory) :
    s.reads + s'.due r.kind = s.due r.kind := by
  by_cases hr : r.kind.isDemand = true
  · rw [due_of_ne (hread hr), due, if_pos hr]
    rfl
  · rw [due, due, if_neg hr, if_neg hr, h.reads_eq_zero hr]

def writeBackWeight (_ : Spot) (kind : AccessKind) : Nat := if kind.isWriteBack then 1 else 0

/-- The caches above that still hold the line under repair. -/
def Plan.holders (p : Plan) (o : Overview) : Finset Nat :=
  match p.topology.base?, o.repair with
  | some b, some ρ => p.topology.tops.toFinset.filter fun i =>
      o.lines i (p.line i (p.base b ρ.line)) ≠ none
  | _, _ => ∅

def Overview.owed (o : Overview) : Nat := o.debt.elim 0 fun _ => 1

theorem Overview.owed_le (o : Overview) : o.owed ≤ 1 := by
  unfold owed
  cases o.debt with
  | none => exact Nat.zero_le 1
  | some d => exact le_rfl

theorem Overview.owed_of_debt {o : Overview} (h : o.debt = none) : o.owed = 0 := by
  rw [owed, h]
  rfl

/-- The request numbers that are given out or may become necessary without another access. -/
def Plan.spent (p : Plan) (o : Overview) : Nat :=
  o.nextId + weigh p.credit o.traffic + o.owed + (p.holders o).card

namespace Plan

variable {p : Plan} {o o' : Overview}

theorem credit_le (s : Spot) (kind : AccessKind) : p.credit s kind ≤ 4 := by
  unfold credit
  split
  · cases s with
    | fills i =>
      dsimp only
      split <;> decide
    | finished => exact Nat.zero_le 4
    | _ => exact le_rfl
  · exact Nat.zero_le 4

theorem credit_fills_top {i : Nat} {kind : AccessKind} (hi : i ∈ p.topology.tops)
    (hkind : kind.isDemand = true) : p.credit (.fills i) kind = 1 := by
  simp only [credit, hkind, hi, if_true]

theorem credit_fills_base {b : Nat} {kind : AccessKind} (hb : p.topology.base? = some b)
    (hkind : kind.isDemand = true) : p.credit (.fills b) kind = 4 := by
  simp only [credit, hkind, Topology.base_not_mem_tops hb, if_true, if_false]

theorem credit_writeBack (s : Spot) : p.credit s .writeBack = 0 := rfl

theorem credit_finished (kind : AccessKind) : p.credit .finished kind = 0 := by
  unfold credit
  split <;> rfl

/-- On its way a request loses credit, if anything. -/
theorem credit_route {r : Request} {s s' : Spot} (h : Route p o r s s') :
    p.credit s' r.kind ≤ p.credit s r.kind := by
  cases h with
  | handFill _ hr =>
    rw [hr]
    exact le_rfl
  | @answer b i s hb hs hr hi =>
    rw [credit_fills_top (Topology.mem_tops_of_entryFor? hi) hr]
    rcases hs with rfl | rfl
    · simp [credit, hr]
    · simp [credit_fills_base hb hr]
  | read hi hr =>
    refine (credit_le _ _).trans (le_of_eq ?_)
    simp [credit, hr]
  | finish => simp [credit_finished]
  | _ => exact le_rfl

theorem holders_of_repair (h : o.repair = none) : p.holders o = ∅ := by
  rw [holders, h]
  split <;> first | rfl | (rename_i heq; cases heq)

theorem holders_eq {b : Nat} {ρ : Repair} (hb : p.topology.base? = some b)
    (hrepair : o.repair = some ρ) : p.holders o = p.topology.tops.toFinset.filter fun i =>
      o.lines i (p.line i (p.base b ρ.line)) ≠ none := by
  rw [holders, hb, hrepair]

theorem card_holders_le (o : Overview) : (p.holders o).card ≤ 2 := by
  have htops : p.topology.tops.toFinset.card ≤ 2 := by cases p.topology <;> decide
  unfold holders
  split
  · exact (Finset.card_filter_le _ _).trans htops
  · exact Nat.zero_le 2

theorem holders_congr (hline : o'.repair.map Repair.line = o.repair.map Repair.line)
    (hlines : ∀ i ∈ p.topology.tops, ∀ line, o'.lines i line = none ↔ o.lines i line = none) :
    p.holders o' = p.holders o := by
  cases hb : p.topology.base? with
  | none => rw [holders, holders, hb]
  | some b =>
    cases hrepair : o.repair with
    | none =>
      rw [hrepair, Option.map_none, Option.map_eq_none_iff] at hline
      rw [holders_of_repair hline, holders_of_repair hrepair]
    | some ρ =>
      rw [hrepair, Option.map_some] at hline
      obtain ⟨ρ', hrepair', hρ⟩ := Option.map_eq_some_iff.1 hline
      rw [holders_eq hb hrepair, holders_eq hb hrepair', hρ]
      refine Finset.filter_congr fun i hi => ?_
      exact not_congr (hlines i (List.mem_toFinset.1 hi) _)

theorem update_some_eq_none_iff {lines : Nat → Nat → Option Bool} {i k : Nat}
    (h : lines i k ≠ none) (dirty : Bool) (j line : Nat) :
    Function.update lines i (Function.update (lines i) k (some dirty)) j line = none ↔
      lines j line = none := by
  by_cases hj : j = i
  · subst hj
    rw [Function.update_self]
    by_cases hk : line = k
    · rw [hk, Function.update_self]
      exact iff_of_false (Option.some_ne_none dirty) h
    · rw [Function.update_of_ne hk]
  · rw [Function.update_of_ne hj]

theorem holders_update_base {b : Nat} (hb : p.topology.base? = some b) {lines : Nat → Option Bool}
    (hrepair : o'.repair = o.repair) (hlines : o'.lines = Function.update o.lines b lines) :
    p.holders o' = p.holders o := by
  refine holders_congr (by rw [hrepair]) fun i hi line => ?_
  rw [hlines, Function.update_of_ne (Topology.top_ne_base hi hb)]

theorem card_holders_drop {b i : Nat} {ρ ρ' : Repair} (hb : p.topology.base? = some b)
    (hi : i ∈ p.topology.tops) (hrepair : o.repair = some ρ) (hrepair' : o'.repair = some ρ')
    (hρ : ρ'.line = ρ.line) (hline : o.lines i (p.line i (p.base b ρ.line)) ≠ none)
    (hlines : o'.lines = Function.update o.lines i
      (Function.update (o.lines i) (p.line i (p.base b ρ.line)) none)) :
    (p.holders o').card + 1 ≤ (p.holders o).card := by
  rw [holders_eq hb hrepair, holders_eq hb hrepair', hρ]
  refine Finset.card_lt_card ⟨fun j hj => ?_, fun hle => ?_⟩
  · rw [Finset.mem_filter, hlines] at hj
    refine Finset.mem_filter.2 ⟨hj.1, ?_⟩
    by_cases hji : j = i
    · exact hji ▸ hline
    · rw [Function.update_of_ne hji] at hj
      exact hj.2
  · have hmem := hle (Finset.mem_filter.2 ⟨List.mem_toFinset.2 hi, hline⟩)
    rw [Finset.mem_filter, hlines, Function.update_self, Function.update_self] at hmem
    exact hmem.2 rfl

end Plan

section Steps

variable {p : Plan} {o o' : Overview}

theorem Overview.accesses_le_cons {event : Event} (hevent : event.isRetired = false)
    (hids : o'.outstanding.ids = o.outstanding.ids) (hjournal : o'.journal = event :: o.journal) :
    o.accesses ≤ o'.accesses := by
  have hlength : o'.outstanding.length = o.outstanding.length := by
    rw [Outstanding.length_eq, hids, ← Outstanding.length_eq]
  rw [accesses, accesses, hlength, hjournal, List.countP_cons_of_neg]
  rw [hevent]
  exact Bool.false_ne_true

theorem Overview.accesses_issue (o : Overview) (addr : Nat) (kind : AccessKind) :
    o.accesses + 1 = accesses { o with
      outstanding := ⟨o.outstanding.entries ++ [{ id := o.nextId, addr, kind }]⟩ } := by
  simp only [accesses, Outstanding.length, List.length_append, List.length_singleton]
  omega

/-- No step loses count of an access. -/
theorem Step.accesses_le (h : Step p o o') (horderly : Orderly p o) :
    o.accesses ≤ o'.accesses := by
  cases h with
  | note event hevent => exact Overview.accesses_le_cons (Event.not_isRetired hevent) rfl rfl
  | issue =>
    refine Nat.add_le_add_right ?_ _
    simp [Outstanding.length]
  | arrive | lookUp | absorb | memoryAbsorb | hit | install | bypass | place | divert =>
    exact Overview.accesses_le_cons rfl rfl rfl
  | merge => exact Overview.accesses_le_cons rfl (Outstanding.ids_join ..) rfl
  | miss => exact Overview.accesses_le_cons rfl (Outstanding.ids_await ..) rfl
  | retire ht he =>
    obtain ⟨-, -, hids, -⟩ := Outstanding.remove?_eq_some horderly.nodup he
    have hlength := hids.length_eq
    rw [List.length_cons] at hlength
    simp only [Overview.accesses, Outstanding.length_eq, List.countP_cons, Event.isRetired,
      if_true]
    omega
  | _ => exact le_rfl

namespace Plan

variable {s s' : Spot} {r r' : Request} {rest : Multiset (Spot × Request)}

theorem spent_issue (ht' : o'.traffic = (s, r) ::ₘ o.traffic) (hnext : o'.nextId = o.nextId + 1)
    (hdebt : o'.debt = o.debt) (hholders : p.holders o' = p.holders o) :
    p.spent o' ≤ p.spent o + 5 := by
  have hcredit := p.credit_le s r.kind
  rw [spent, spent, weigh_of_eq_cons ht', hnext, hholders, Overview.owed, Overview.owed, hdebt]
  omega

theorem spent_pay {d : Debt} (hd : o.debt = some d) (ht' : o'.traffic = (s, r) ::ₘ o.traffic)
    (hr : r.kind = .writeBack) (hnext : o'.nextId = o.nextId + 1) (hdebt : o'.debt = none)
    (hholders : p.holders o' = p.holders o) : p.spent o' ≤ p.spent o := by
  have howed : o.owed = 1 := by
    rw [Overview.owed, hd]
    rfl
  rw [spent, spent, weigh_of_eq_cons ht', hr, credit_writeBack, hnext, hholders, howed,
    Overview.owed_of_debt hdebt]
  omega

theorem spent_move (ht : o.traffic = (s, r) ::ₘ rest) (ht' : o'.traffic = (s', r') ::ₘ rest)
    (hcredit : p.credit s' r'.kind ≤ p.credit s r.kind) (hnext : o'.nextId = o.nextId)
    (hdebt : o'.debt = o.debt) (hholders : p.holders o' = p.holders o) :
    p.spent o' ≤ p.spent o := by
  rw [spent, spent, weigh_of_eq_cons ht, weigh_of_eq_cons ht', hnext, hholders, Overview.owed,
    Overview.owed, hdebt]
  omega

theorem spent_leave (ht : o.traffic = (s, r) ::ₘ o'.traffic) (hnext : o'.nextId = o.nextId)
    (hdebt : o'.debt = o.debt) (hholders : p.holders o' = p.holders o) :
    p.spent o' ≤ p.spent o := by
  rw [spent, spent, weigh_of_eq_cons ht, hnext, hholders, Overview.owed, Overview.owed, hdebt]
  omega

theorem spent_stay (hweigh : weigh p.credit o'.traffic = weigh p.credit o.traffic)
    (hnext : o'.nextId = o.nextId)
    (howed : o'.owed + (p.holders o').card ≤ o.owed + (p.holders o).card) :
    p.spent o' ≤ p.spent o := by
  rw [spent, spent, hweigh, hnext]
  omega

theorem spent_fill {i : Nat} (ht : o.traffic = (.fills i, r) ::ₘ rest)
    (ht' : o'.traffic = (.finished, r') ::ₘ rest) (hi : i ∈ p.topology.tops)
    (hfits : p.Fits r (.fills i)) (hnext : o'.nextId = o.nextId)
    (hholders : p.holders o' = p.holders o) : p.spent o' ≤ p.spent o := by
  have howed := o'.owed_le
  rw [spent, spent, weigh_of_eq_cons ht, weigh_of_eq_cons ht', hnext, hholders, credit_finished,
    credit_fills_top hi (hfits.fills_top hi).1]
  omega

theorem spent_place {b i : Nat} (ht : o.traffic = (.fills b, r) ::ₘ rest)
    (ht' : o'.traffic = (.fills i, r') ::ₘ rest) (hb : p.topology.base? = some b)
    (hi : i ∈ p.topology.tops) (hr : r.kind.isDemand = true) (hkind : r'.kind = r.kind)
    (hnext : o'.nextId = o.nextId) : p.spent o' ≤ p.spent o := by
  have howed := o'.owed_le
  have hholders := p.card_holders_le o'
  rw [spent, spent, weigh_of_eq_cons ht, weigh_of_eq_cons ht', hnext, credit_fills_base hb hr,
    hkind, credit_fills_top hi hr]
  omega

end Plan

/-- Only an access costs anything. -/
theorem Step.spent_le (h : Step p o o') (horderly : Orderly p o) :
    p.spent o' + 5 * o.accesses ≤ p.spent o + 5 * o'.accesses := by
  have haccesses := h.accesses_le horderly
  have hfits : ∀ {s r rest}, o.traffic = (s, r) ::ₘ rest → p.Fits r s := fun ht =>
    (horderly.admits _ (mem_of_eq_cons ht)).fits
  have hdone : ∀ s kind, p.credit .finished kind ≤ p.credit s kind := fun s kind =>
    (Plan.credit_finished kind).trans_le (Nat.zero_le _)
  suffices hspent : p.spent o' ≤ p.spent o ∨ p.spent o' ≤ p.spent o + 5 ∧
      o'.accesses = o.accesses + 1 by omega
  cases h with
  | issue =>
    exact .inr ⟨Plan.spent_issue rfl rfl rfl rfl, (Overview.accesses_issue ..).symm⟩
  | @move s s' r rest ht hs | @arrive i r rest ht hs | @lookUp b s' r rest ht hs =>
    exact .inl (Plan.spent_move ht rfl (Plan.credit_route (r := r) hs) rfl rfl rfl)
  | pay site hd => exact .inl (Plan.spent_pay hd rfl rfl rfl rfl rfl)
  | absorb ht hr hb =>
    exact .inl (Plan.spent_leave ht rfl rfl (Plan.holders_update_base hb rfl rfl))
  | memoryAbsorb ht => exact .inl (Plan.spent_leave ht rfl rfl rfl)
  | retire ht => exact .inl (Plan.spent_leave ht rfl rfl rfl)
  | @hit i r rest dirty ht hi hline =>
    refine .inl (Plan.spent_move ht rfl (hdone _ _) rfl rfl (Plan.holders_congr rfl ?_))
    exact fun j _ line => Plan.update_some_eq_none_iff (hline ▸ Option.some_ne_none dirty) _ j line
  | merge ht => exact .inl (Plan.spent_move ht rfl (hdone _ _) rfl rfl rfl)
  | miss ht => exact .inl (Plan.spent_move ht rfl le_rfl rfl rfl rfl)
  | install ht hi hbypass hdebt hrepair =>
    refine .inl (Plan.spent_fill ht rfl hi (hfits ht) rfl ?_)
    rw [Plan.holders_of_repair hrepair]
    exact Plan.holders_of_repair hrepair
  | bypass ht hi => exact .inl (Plan.spent_fill ht rfl hi (hfits ht) rfl rfl)
  | place ht hb hr hi =>
    exact .inl (Plan.spent_place ht rfl hb (Topology.mem_tops_of_entryFor? hi) hr rfl rfl)
  | divert ht hr =>
    refine .inl (Plan.spent_move ht rfl ?_ rfl rfl rfl)
    exact (congrArg _ hr).trans_le (Nat.zero_le _)
  | recalled hb hrepair =>
    refine .inl (Plan.spent_stay rfl rfl (Nat.add_le_add_left (le_of_eq ?_) _))
    exact congrArg _ (Plan.holders_congr (by rw [hrepair]; rfl) fun _ _ _ => Iff.rfl)
  | @drop b i ρ dirty hb hi hdebt hrepair hline =>
    refine .inl (Plan.spent_stay rfl rfl ?_)
    have howed := Overview.owed_le { o with
      debt := if dirty then some { via := none, addr := p.base b ρ.line } else none }
    refine (Nat.add_le_add_right howed _).trans ?_
    rw [Nat.add_comm 1, Overview.owed_of_debt hdebt, Nat.zero_add]
    exact Plan.card_holders_drop hb hi hrepair rfl rfl (hline ▸ Option.some_ne_none dirty) rfl
  | overtake hb hi hrepair =>
    refine .inl (Plan.spent_stay (weigh_overtake ..) rfl (Nat.add_le_add_left (le_of_eq ?_) _))
    exact congrArg _ (Plan.holders_congr (by rw [hrepair]; rfl) fun _ _ _ => Iff.rfl)
  | repaired =>
    refine .inl (Plan.spent_stay rfl rfl (Nat.add_le_add_left ?_ _))
    rw [Plan.holders_of_repair rfl]
    exact Nat.zero_le _
  | note | tick | newCycle => exact .inl le_rfl

/-- Memory reads a demand request once. -/
theorem Step.reads_le (h : Step p o o') (horderly : Orderly p o) :
    o'.memoryReads + weigh Spot.unread o'.traffic + o.accesses ≤
      o.memoryReads + weigh Spot.unread o.traffic + o'.accesses := by
  have haccesses := h.accesses_le horderly
  have hdone : ∀ (s : Spot) (kind : AccessKind), 0 + Spot.finished.unread kind ≤ s.unread kind := by
    intro s kind
    simp [Spot.unread]
  suffices hreads : o'.memoryReads + weigh Spot.unread o'.traffic ≤
      o.memoryReads + weigh Spot.unread o.traffic ∨
      o'.memoryReads + weigh Spot.unread o'.traffic ≤
        o.memoryReads + weigh Spot.unread o.traffic + 1 ∧ o'.accesses = o.accesses + 1 by omega
  cases h with
  | issue =>
    exact .inr ⟨weigh_enter rfl (Spot.unread_le _ _) rfl, (Overview.accesses_issue ..).symm⟩
  | move ht hs | arrive ht hs | lookUp ht hs =>
    exact .inl (weigh_move ht rfl rfl (Spot.unread_route hs) rfl)
  | pay => exact .inl (weigh_enter (n := 0) rfl le_rfl rfl)
  | absorb ht | memoryAbsorb ht | retire ht => exact .inl (weigh_leave ht (Nat.zero_le _) rfl)
  | hit ht | merge ht | install ht | bypass ht =>
    exact .inl (weigh_move ht rfl rfl (hdone _ _) rfl)
  | miss ht | place ht => exact .inl (weigh_move (n := 0) ht rfl rfl (Nat.zero_add _).le rfl)
  | divert ht hr =>
    refine .inl (weigh_move (n := 0) ht rfl rfl ?_ rfl)
    rw [hr]
    exact Nat.zero_le _
  | overtake => exact .inl (Nat.add_le_add_left (weigh_overtake ..).le _)
  | _ => exact .inl le_rfl

/-- What memory takes in it holds until it reads it. -/
theorem Step.reads_eq (h : Step p o o') (hlast : p.topology.last? ≠ none) :
    o'.memoryReads + weigh Spot.due o'.traffic + o.journal.countP Event.isRead =
      o.memoryReads + weigh Spot.due o.traffic + o'.journal.countP Event.isRead := by
  have hdue : ∀ {s s' : Spot} (kind : AccessKind), s ≠ .memory → s' ≠ .memory →
      0 + s'.due kind = s.due kind := by
    intro s s' kind hs hs'
    rw [Spot.due_of_ne hs, Spot.due_of_ne hs']
  suffices hreads : o'.memoryReads + weigh Spot.due o'.traffic =
      o.memoryReads + weigh Spot.due o.traffic ∧
        o'.journal.countP Event.isRead = o.journal.countP Event.isRead ∨
      o'.memoryReads + weigh Spot.due o'.traffic =
        o.memoryReads + weigh Spot.due o.traffic + 1 ∧
        o'.journal.countP Event.isRead = o.journal.countP Event.isRead + 1 by omega
  cases h with
  | note event _ hread =>
    refine .inl ⟨rfl, List.countP_cons_of_neg ?_⟩
    simpa using hread.resolve_right hlast
  | recalled | drop | repaired | tick | newCycle => exact .inl ⟨rfl, rfl⟩
  | @issue addr kind =>
    obtain ⟨i, -, hentry⟩ := Plan.exists_entry hlast kind
    refine .inl ⟨?_, rfl⟩
    dsimp only
    rw [weigh_cons, hentry, Spot.due_of_ne Spot.noConfusion, Nat.zero_add]
  | pay =>
    refine .inl ⟨?_, rfl⟩
    dsimp only
    rw [weigh_cons]
    exact congrArg _ (Nat.zero_add _)
  | move ht hs readyAt dirty done hleft hread =>
    exact .inl ⟨weigh_move_eq ht rfl rfl (Spot.due_route hs hread) rfl, rfl⟩
  | @arrive i r rest ht hs readyAt hdemand =>
    refine .inr ⟨?_, List.countP_cons_of_pos hdemand⟩
    dsimp only
    have hsends : (Spot.sends i).due r.kind = 0 := Spot.due_of_ne Spot.noConfusion _
    have hmemory : Spot.memory.due r.kind = 1 := if_pos hdemand
    rw [weigh_of_eq_cons ht, weigh_cons, hsends, hmemory]
    omega
  | lookUp ht hs =>
    refine .inl ⟨weigh_move_eq ht rfl rfl (hdue _ Spot.noConfusion ?_) rfl, rfl⟩
    cases hs <;> exact Spot.noConfusion
  | absorb ht hr | memoryAbsorb ht hr =>
    refine .inl ⟨?_, rfl⟩
    dsimp only
    rw [weigh_of_eq_cons ht, hr]
    exact congrArg _ (Nat.zero_add _).symm
  | hit ht | merge ht | miss ht | install ht | bypass ht | place ht =>
    exact .inl ⟨weigh_move_eq ht rfl rfl (hdue _ Spot.noConfusion Spot.noConfusion) rfl, rfl⟩
  | divert ht hr =>
    refine .inl ⟨weigh_move_eq (n := 0) ht rfl rfl ?_ rfl, rfl⟩
    rw [hr]
    rfl
  | overtake => exact .inl ⟨congrArg _ (weigh_overtake ..), rfl⟩
  | retire ht =>
    refine .inl ⟨?_, rfl⟩
    dsimp only
    rw [weigh_of_eq_cons ht, Spot.due_of_ne Spot.noConfusion, Nat.zero_add]

theorem Step.writeBacks_le (h : Step p o o') :
    o'.memoryWriteBacks + weigh writeBackWeight o'.traffic + o.nextId ≤
      o.memoryWriteBacks + weigh writeBackWeight o.traffic + o'.nextId := by
  have hsame : ∀ (s s' : Spot) (kind : AccessKind),
      0 + writeBackWeight s' kind ≤ writeBackWeight s kind := fun _ _ _ => (Nat.zero_add _).le
  suffices hwriteBacks : o'.memoryWriteBacks + weigh writeBackWeight o'.traffic ≤
      o.memoryWriteBacks + weigh writeBackWeight o.traffic ∧ o.nextId ≤ o'.nextId ∨
      o'.memoryWriteBacks + weigh writeBackWeight o'.traffic ≤
        o.memoryWriteBacks + weigh writeBackWeight o.traffic + 1 ∧ o'.nextId = o.nextId + 1 by
    omega
  cases h with
  | memoryAbsorb ht hr =>
    refine .inl ⟨weigh_leave ht ?_ rfl, le_rfl⟩
    rw [hr]
    exact le_rfl
  | pay => exact .inr ⟨weigh_enter rfl le_rfl rfl, rfl⟩
  | issue _ _ hkind =>
    refine .inl ⟨weigh_enter (n := 0) rfl (le_of_eq (if_neg ?_)) rfl, Nat.le_succ _⟩
    exact Bool.not_eq_true _ ▸ AccessKind.isWriteBack_of_isDemand hkind
  | absorb ht | retire ht => exact .inl ⟨weigh_leave ht (Nat.zero_le _) rfl, le_rfl⟩
  | move ht | arrive ht | lookUp ht | hit ht | merge ht | miss ht | install ht | bypass ht
  | place ht | divert ht =>
    exact .inl ⟨weigh_move ht rfl rfl (hsame _ _ _) rfl, le_rfl⟩
  | overtake => exact .inl ⟨Nat.add_le_add_left (weigh_overtake ..).le _, le_rfl⟩
  | _ => exact .inl ⟨le_rfl, le_rfl⟩

end Steps

/-- The numbers that accesses have used up. -/
structure Frugal (p : Plan) (o : Overview) : Prop where
  spent : p.spent o ≤ 5 * o.accesses
  reads : o.memoryReads + weigh Spot.unread o.traffic ≤ o.accesses
  writeBacks : o.memoryWriteBacks + weigh writeBackWeight o.traffic ≤ o.nextId

theorem Reach.frugal {p : Plan} {o : Overview} (h : Reach p o) : Frugal p o := by
  refine h.invariant (Frugal p) ⟨?_, le_rfl, le_rfl⟩ fun o o' hreach ho hstep => ?_
  · rw [Plan.spent, Plan.holders_of_repair rfl]
    exact le_rfl
  · have hspent := hstep.spent_le hreach.orderly
    have hreads := hstep.reads_le hreach.orderly
    have hwriteBacks := hstep.writeBacks_le
    obtain ⟨hspent', hreads', hwriteBacks'⟩ := ho
    constructor <;> omega

namespace Reach

variable {p : Plan} {o : Overview} (h : Reach p o)

include h

theorem nextId_le : o.nextId ≤ 5 * o.accesses := by
  have hspent := h.frugal.spent
  rw [Plan.spent] at hspent
  omega

theorem memoryReads_le : o.memoryReads ≤ o.accesses :=
  (Nat.le_add_right _ _).trans h.frugal.reads

theorem memoryWriteBacks_le : o.memoryWriteBacks ≤ 5 * o.accesses :=
  (Nat.le_add_right _ _).trans (h.frugal.writeBacks.trans h.nextId_le)

/-- Where there are caches, memory has read what it has taken in, but for what it still holds. -/
theorem reads_eq (hlast : p.topology.last? ≠ none) :
    o.memoryReads + weigh Spot.due o.traffic = o.journal.countP Event.isRead := by
  refine h.invariant (fun o => o.memoryReads + weigh Spot.due o.traffic =
    o.journal.countP Event.isRead) rfl fun o o' _ hreads hstep => ?_
  have hnew := hstep.reads_eq hlast
  omega

end Reach

end CacheHierarchy
