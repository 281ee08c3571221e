import CacheHierarchy.Proofs.Outline.Basic
import CacheHierarchy.Proofs.Watch.Actions

/-!
# What leaves a cache

For each cache and each cycle the journal tells, in the order in which it happened, what the cache
sent down in the cycle, for which requests it had found no line in the cycle before, and which
write-backs it had made in the cycle before. What is sent is the misses first and the write-backs
after them (`History.Settled`), except for write-backs that the level below took back.

`m.Departs clock i standing held` says how the queues of each cache come by that. In between turns
(`Standing.rests`) the send queue holds the misses of the last cycle. When the write-backs of the
last cycle have joined it (`Standing.sends`), it holds what the cycle has still to send; once that is
empty the misses of the cycle gather in it (`Standing.looksUp`).
-/

namespace CacheHierarchy

namespace Event

def departsFrom? : Event → Option Nat
  | sentDown j .. => some j
  | lookedUp j _ false _ => some j
  | wroteBack j .. => some j
  | _ => none

def sentIn? (i n : Nat) : Event → Option Ticket
  | sentDown j r cycle => if j = i ∧ cycle = n then some r.ticket else none
  | _ => none

def missedBefore? (i n : Nat) : Event → Option Ticket
  | lookedUp j r hit cycle => if j = i ∧ hit = false ∧ cycle + 1 = n then some r.ticket else none
  | _ => none

def madeBefore? (i n : Nat) : Event → Option Ticket
  | wroteBack j r cycle => if j = i ∧ cycle + 1 = n then some r.ticket else none
  | _ => none

end Event

namespace Machine

/-- What events tell, the oldest one first. -/
def told (m : Machine) (tells : Event → Option Ticket) : List Ticket :=
  m.journal.reverse.filterMap tells

/-- What cache `i` sent down in cycle `n`, in this order. -/
def sentIn (m : Machine) (i n : Nat) : List Ticket := m.told (Event.sentIn? i n)

/-- The requests whose lines cache `i` did not find in the cycle before `n`, in this order. -/
def missedBefore (m : Machine) (i n : Nat) : List Ticket := m.told (Event.missedBefore? i n)

/-- The write-backs that cache `i` made in the cycle before `n`, in this order. -/
def madeBefore (m : Machine) (i n : Nat) : List Ticket := m.told (Event.madeBefore? i n)

def Diverted (m : Machine) (w : Ticket) : Prop :=
  ∃ i r cycle, Event.diverted i r cycle ∈ m.journal ∧ r.ticket = w

theorem told_noted (m : Machine) (event : Event) (tells : Event → Option Ticket) :
    (m.noted event).told tells = m.told tells ++ (tells event).toList := by
  rw [told, told, noted, List.reverse_cons, List.filterMap_append]
  cases htells : tells event <;> simp [htells]

end Machine

/-- What a journal tells of one cache, by cycles. -/
structure History where
  sent : Nat → List Ticket
  missed : Nat → List Ticket
  made : Nat → List Ticket
  gone : Ticket → Prop

def Machine.history (m : Machine) (held : List Request) (i : Nat) : History where
  sent := m.sentIn i
  missed := m.missedBefore i
  made := m.madeBefore i
  gone w := m.Diverted w ∨ w ∈ held.map Request.ticket

/-- The same has happened, and more write-backs may be gone. -/
structure History.Later (H H' : History) : Prop where
  sent : H'.sent = H.sent
  missed : H'.missed = H.missed
  made : H'.made = H.made
  gone : ∀ w, H.gone w → H'.gone w

theorem History.Later.refl (H : History) : H.Later H := ⟨rfl, rfl, rfl, fun _ => id⟩

def addTicket (f : Nat → List Ticket) (n : Nat) (r : Ticket) : Nat → List Ticket :=
  Function.update f n (f n ++ [r])

theorem addTicket_self (f : Nat → List Ticket) (n : Nat) (r : Ticket) :
    addTicket f n r n = f n ++ [r] := Function.update_self ..

theorem addTicket_of_ne {k n : Nat} (h : k ≠ n) (f : Nat → List Ticket) (r : Ticket) :
    addTicket f n r k = f k := Function.update_of_ne h ..

theorem forall_mem_addTicket {P : Ticket → Prop} {f : Nat → List Ticket}
    (h : ∀ k, ∀ w ∈ f k, P w) {n : Nat} {r : Ticket} (hr : P r) :
    ∀ k, ∀ w ∈ addTicket f n r k, P w := by
  intro k w hw
  by_cases hk : k = n
  · subst hk
    rw [addTicket_self, List.mem_append, List.mem_singleton] at hw
    rcases hw with hw | rfl
    · exact h _ w hw
    · exact hr
  · rw [addTicket_of_ne hk] at hw
    exact h k w hw

namespace History

variable (H : History)

/-- What was sent in a cycle are the misses of the cycle before and then those write-backs of the
cycle before that were left. -/
structure Settled (n : Nat) (left : List Ticket) : Prop where
  sent : H.sent n = H.missed n ++ left
  sublist : left.Sublist (H.made n)
  gone : ∀ w ∈ H.made n, w ∈ left ∨ H.gone w

structure Kept (n : Nat) : Prop where
  settled : ∀ k < n, ∃ left, H.Settled k left
  missed_kind : ∀ k, ∀ r ∈ H.missed k, r.kind.isWriteBack = false
  made_kind : ∀ k, ∀ w ∈ H.made k, w.kind.isWriteBack = true

/-- Nothing of a cycle has been sent. The send queue holds its misses, and its write-backs wait. -/
structure Rests (n : Nat) (sends writeBacks : List Request) : Prop where
  kept : H.Kept n
  misses : sends.map Request.ticket = H.missed n
  sublist : (writeBacks.map Request.ticket).Sublist (H.made n)
  gone : ∀ w ∈ H.made n, w ∈ writeBacks.map Request.ticket ∨ H.gone w
  ready : ∀ r ∈ sends ++ writeBacks, r.readyAt ≤ n
  sent_later : ∀ k, n ≤ k → H.sent k = []
  missed_later : ∀ k, n < k → H.missed k = []
  made_later : ∀ k, n < k → H.made k = []

/-- The write-backs of a cycle have joined the send queue behind its misses, and those of the next
one wait. -/
structure Sends (left : List Ticket) (n : Nat) (sends writeBacks : List Request) : Prop where
  kept : H.Kept n
  outgoing : H.sent n ++ sends.map Request.ticket = H.missed n ++ left
  left_sublist : left.Sublist (H.made n)
  left_gone : ∀ w ∈ H.made n, w ∈ left ∨ H.gone w
  sublist : (writeBacks.map Request.ticket).Sublist (H.made (n + 1))
  gone : ∀ w ∈ H.made (n + 1), w ∈ writeBacks.map Request.ticket ∨ H.gone w
  ready : ∀ r ∈ sends ++ writeBacks, r.readyAt ≤ n
  sent_later : ∀ k, n < k → H.sent k = []
  missed_later : ∀ k, n < k → H.missed k = []
  made_later : ∀ k, n + 1 < k → H.made k = []

end History

inductive Standing
  | rests
  | sends (left : List Ticket)
  | looksUp

/-- The queues of a cache stand so that its history will be settled. -/
def Standing.Admits (H : History) (c : Cache) : Standing → Prop
  | rests => H.Rests c.cycle c.sends.items c.writeBacks.items
  | sends left => H.Sends left c.cycle c.sends.items c.writeBacks.items
  | looksUp => H.Rests (c.cycle + 1) c.sends.items c.writeBacks.items

/-- The clocks show this, cache `i` has come to this in its turn, no other cache is in its turn, and
these requests are in hand. -/
structure Machine.Departs (clock : Nat → Nat) (i : Nat) (standing : Standing)
    (held : List Request) (m : Machine) : Prop where
  cycle : ∀ (j : Nat) (d : Cache), m.caches[j]? = some d → d.cycle = clock j
  own : ∀ c : Cache, m.caches[i]? = some c → standing.Admits (m.history held i) c
  others : ∀ (j : Nat) (d : Cache), j ≠ i → m.caches[j]? = some d →
    Standing.rests.Admits (m.history held j) d

namespace History

variable {H H' : History} {n : Nat} {left : List Ticket} {sends writeBacks : List Request}

theorem Settled.later (h : H.Settled n left) (hlater : H.Later H') : H'.Settled n left where
  sent := by rw [hlater.sent, hlater.missed, h.sent]
  sublist := hlater.made ▸ h.sublist
  gone w hw := (h.gone w (hlater.made ▸ hw)).imp_right (hlater.gone w)

theorem Kept.later (h : H.Kept n) (hlater : H.Later H') : H'.Kept n where
  settled k hk := (h.settled k hk).imp fun _ h => h.later hlater
  missed_kind := hlater.missed ▸ h.missed_kind
  made_kind := hlater.made ▸ h.made_kind

theorem Rests.later (h : H.Rests n sends writeBacks) (hlater : H.Later H') :
    H'.Rests n sends writeBacks where
  kept := h.kept.later hlater
  misses := hlater.missed ▸ h.misses
  sublist := hlater.made ▸ h.sublist
  gone w hw := (h.gone w (hlater.made ▸ hw)).imp_right (hlater.gone w)
  ready := h.ready
  sent_later := hlater.sent ▸ h.sent_later
  missed_later := hlater.missed ▸ h.missed_later
  made_later := hlater.made ▸ h.made_later

theorem Sends.later (h : H.Sends left n sends writeBacks) (hlater : H.Later H') :
    H'.Sends left n sends writeBacks where
  kept := h.kept.later hlater
  outgoing := by rw [hlater.sent, hlater.missed, h.outgoing]
  left_sublist := hlater.made ▸ h.left_sublist
  left_gone w hw := (h.left_gone w (hlater.made ▸ hw)).imp_right (hlater.gone w)
  sublist := hlater.made ▸ h.sublist
  gone w hw := (h.gone w (hlater.made ▸ hw)).imp_right (hlater.gone w)
  ready := h.ready
  sent_later := hlater.sent ▸ h.sent_later
  missed_later := hlater.missed ▸ h.missed_later
  made_later := hlater.made ▸ h.made_later

theorem Rests.of_nil (hsent : ∀ k, H.sent k = []) (hmissed : ∀ k, H.missed k = [])
    (hmade : ∀ k, H.made k = []) : H.Rests 0 [] [] where
  kept :=
    { settled := fun k hk => absurd hk k.not_lt_zero
      missed_kind := fun k r hr => by
        rw [hmissed] at hr
        cases hr
      made_kind := fun k w hw => by
        rw [hmade] at hw
        cases hw }
  misses := (hmissed 0).symm
  sublist := List.nil_sublist _
  gone w hw := by
    rw [hmade] at hw
    cases hw
  ready r hr := nomatch hr
  sent_later k _ := hsent k
  missed_later k _ := hmissed k
  made_later k _ := hmade k

theorem Rests.release (h : H.Rests n sends writeBacks) :
    H.Sends (writeBacks.map Request.ticket) n (sends ++ writeBacks) [] where
  kept := h.kept
  outgoing := by rw [h.sent_later n le_rfl, List.nil_append, List.map_append, h.misses]
  left_sublist := h.sublist
  left_gone := h.gone
  sublist := List.nil_sublist _
  gone w hw := by
    rw [h.made_later _ n.lt_succ_self] at hw
    cases hw
  ready := by
    rw [List.append_nil]
    exact h.ready
  sent_later k hk := h.sent_later k hk.le
  missed_later := h.missed_later
  made_later k hk := h.made_later k (Nat.lt_of_succ_lt hk)

theorem Settled.congr {k : Nat} (h : H.Settled k left) (hsent : H'.sent k = H.sent k)
    (hmissed : H'.missed k = H.missed k) (hmade : H'.made k = H.made k)
    (hgone : H'.gone = H.gone) : H'.Settled k left where
  sent := by rw [hsent, hmissed, h.sent]
  sublist := hmade ▸ h.sublist
  gone := by
    rw [hmade, hgone]
    exact h.gone

theorem Sends.make (h : H.Sends left n sends writeBacks) {r : Request} (hready : r.readyAt ≤ n)
    (hkind : r.kind.isWriteBack = true) :
    { H with made := addTicket H.made (n + 1) r.ticket }.Sends left n sends
      (writeBacks ++ [r]) where
  kept :=
    { settled := fun k hk => (h.kept.settled k hk).imp fun _ h =>
        h.congr rfl rfl (addTicket_of_ne (by omega) _ _) rfl
      missed_kind := h.kept.missed_kind
      made_kind := forall_mem_addTicket h.kept.made_kind hkind }
  outgoing := h.outgoing
  left_sublist := by
    dsimp only
    rw [addTicket_of_ne n.lt_succ_self.ne]
    exact h.left_sublist
  left_gone := by
    dsimp only
    rw [addTicket_of_ne n.lt_succ_self.ne]
    exact h.left_gone
  sublist := by
    dsimp only
    rw [addTicket_self, List.map_append]
    exact h.sublist.append (List.Sublist.refl _)
  gone w hw := by
    dsimp only at hw
    rw [addTicket_self, List.mem_append] at hw
    rw [List.map_append, List.mem_append]
    rcases hw with hw | hw
    · exact (h.gone w hw).imp_left .inl
    · exact .inl (.inr hw)
  ready r' hr' := by
    rw [← List.append_assoc, List.mem_append, List.mem_singleton] at hr'
    rcases hr' with hr' | rfl
    · exact h.ready r' hr'
    · exact hready
  sent_later := h.sent_later
  missed_later := h.missed_later
  made_later k hk := by
    dsimp only
    rw [addTicket_of_ne (by omega)]
    exact h.made_later k hk

theorem Sends.send {r : Request} (h : H.Sends left n (r :: sends) writeBacks) :
    { H with sent := addTicket H.sent n r.ticket }.Sends left n sends writeBacks where
  kept :=
    { settled := fun k hk => (h.kept.settled k hk).imp fun _ h =>
        h.congr (addTicket_of_ne hk.ne _ _) rfl rfl rfl
      missed_kind := h.kept.missed_kind
      made_kind := h.kept.made_kind }
  outgoing := by
    dsimp only
    rw [addTicket_self, List.append_assoc, List.singleton_append, ← List.map_cons, h.outgoing]
  left_sublist := h.left_sublist
  left_gone := h.left_gone
  sublist := h.sublist
  gone := h.gone
  ready r' hr' := h.ready r' (List.mem_cons_of_mem _ hr')
  sent_later k hk := by
    dsimp only
    rw [addTicket_of_ne hk.ne']
    exact h.sent_later k hk
  missed_later := h.missed_later
  made_later := h.made_later

theorem Sends.over (h : H.Sends left n [] writeBacks) : H.Rests (n + 1) [] writeBacks where
  kept :=
    { settled := fun k hk => by
        rcases Nat.lt_succ_iff_lt_or_eq.1 hk with hk | rfl
        · exact h.kept.settled k hk
        · exact ⟨left, by simpa using h.outgoing, h.left_sublist, h.left_gone⟩
      missed_kind := h.kept.missed_kind
      made_kind := h.kept.made_kind }
  misses := (h.missed_later _ n.lt_succ_self).symm
  sublist := h.sublist
  gone := h.gone
  ready r hr := (h.ready r hr).trans n.le_succ
  sent_later k hk := h.sent_later k hk
  missed_later k hk := h.missed_later k (Nat.lt_of_succ_lt hk)
  made_later k hk := h.made_later k hk

theorem Rests.miss (h : H.Rests n sends writeBacks) (r : Request) (hready : r.readyAt ≤ n)
    (hkind : r.kind.isWriteBack = false) :
    { H with missed := addTicket H.missed n r.ticket }.Rests n (sends ++ [r]) writeBacks where
  kept :=
    { settled := fun k hk => (h.kept.settled k hk).imp fun _ h =>
        h.congr rfl (addTicket_of_ne hk.ne _ _) rfl rfl
      missed_kind := forall_mem_addTicket h.kept.missed_kind hkind
      made_kind := h.kept.made_kind }
  misses := by
    dsimp only
    rw [List.map_append, h.misses, addTicket_self]
    rfl
  sublist := h.sublist
  gone := h.gone
  ready r' hr' := by
    simp only [List.append_assoc, List.mem_append, List.mem_singleton] at hr'
    rcases hr' with hr' | rfl | hr'
    · exact h.ready r' (List.mem_append_left _ hr')
    · exact hready
    · exact h.ready r' (List.mem_append_right _ hr')
  sent_later := h.sent_later
  missed_later k hk := by
    dsimp only
    rw [addTicket_of_ne hk.ne']
    exact h.missed_later k hk
  made_later := h.made_later

theorem Rests.recall (h : H.Rests n sends writeBacks) (recalls : Request → Bool) :
    { H with
      gone := fun w => H.gone w ∨
        w ∈ (writeBacks.filter recalls).map Request.ticket }.Rests n sends
          (writeBacks.filter fun r => !recalls r) where
  kept := h.kept.later ⟨rfl, rfl, rfl, fun _ => .inl⟩
  misses := h.misses
  sublist := (List.filter_sublist.map _).trans h.sublist
  gone w hw := by
    rcases h.gone w hw with hw | hw
    · obtain ⟨r, hr, rfl⟩ := List.mem_map.1 hw
      cases hrecalls : recalls r with
      | true => exact .inr (.inr (List.mem_map_of_mem (List.mem_filter.2 ⟨hr, hrecalls⟩)))
      | false =>
        exact .inl (List.mem_map_of_mem (List.mem_filter.2 ⟨hr, by simp [hrecalls]⟩))
    · exact .inr (.inl hw)
  ready r hr := by
    rcases List.mem_append.1 hr with hr | hr
    · exact h.ready r (List.mem_append_left _ hr)
    · exact h.ready r (List.mem_append_right _ (List.mem_filter.1 hr).1)
  sent_later := h.sent_later
  missed_later := h.missed_later
  made_later := h.made_later

theorem Rests.isWriteBack_eq_false (h : H.Rests n sends writeBacks) {r : Request}
    (hr : r ∈ sends) : r.kind.isWriteBack = false :=
  h.kept.missed_kind n r.ticket (h.misses ▸ List.mem_map_of_mem hr)

end History

namespace Machine

variable {m m' : Machine} {held held' : List Request} {i n : Nat} {r : Request}

theorem told_noted_addTicket {tells : Nat → Event → Option Ticket} {event : Event} {t : Ticket}
    (htells : ∀ k, tells k event = if k = n then some t else none) :
    (fun k => (m.noted event).told (tells k)) = addTicket (fun k => m.told (tells k)) n t := by
  funext k
  rw [told_noted, htells]
  by_cases hk : k = n
  · subst hk
    rw [if_pos rfl, addTicket_self, Option.toList_some]
  · rw [if_neg hk, addTicket_of_ne hk, Option.toList_none, List.append_nil]

/-- A family of accounts is not told of anything. -/
theorem told_noted_same {tells : Nat → Event → Option Ticket} {event : Event}
    (htells : ∀ k, tells k event = none) :
    (fun k => (m.noted event).told (tells k)) = fun k => m.told (tells k) := by
  funext k
  rw [told_noted, htells, Option.toList_none, List.append_nil]

theorem Diverted.mono {w : Ticket} (h : m.Diverted w) (hgrows : m.journal <:+ m'.journal) :
    m'.Diverted w := by
  obtain ⟨i, r, cycle, hr, hw⟩ := h
  exact ⟨i, r, cycle, hgrows.subset hr, hw⟩

theorem gone_noted (event : Event) (w : Ticket) (h : (m.history held i).gone w) :
    ((m.noted event).history held i).gone w :=
  h.imp_left fun h => h.mono (List.suffix_cons _ _)

theorem later_noted_sentDown (m : Machine) (held : List Request) (i n : Nat) (r : Request) :
    History.Later { m.history held i with sent := addTicket (m.history held i).sent n r.ticket }
      ((m.noted (.sentDown i r n)).history held i) where
  sent := told_noted_addTicket fun k => by simp [Event.sentIn?, eq_comm]
  missed := told_noted_same fun _ => rfl
  made := told_noted_same fun _ => rfl
  gone := gone_noted _

theorem later_noted_miss (m : Machine) (held : List Request) (i n : Nat) (r : Request) :
    History.Later
      { m.history held i with missed := addTicket (m.history held i).missed (n + 1) r.ticket }
      ((m.noted (.lookedUp i r false n)).history held i) where
  sent := told_noted_same fun _ => rfl
  missed := told_noted_addTicket fun k => by simp [Event.missedBefore?, eq_comm]
  made := told_noted_same fun _ => rfl
  gone := gone_noted _

theorem later_noted_wroteBack (m : Machine) (held : List Request) (i n : Nat) (r : Request) :
    History.Later
      { m.history held i with made := addTicket (m.history held i).made (n + 1) r.ticket }
      ((m.noted (.wroteBack i r n)).history held i) where
  sent := told_noted_same fun _ => rfl
  missed := told_noted_same fun _ => rfl
  made := told_noted_addTicket fun k => by simp [Event.madeBefore?, eq_comm]
  gone := gone_noted _

theorem later_noted {event : Event} {j : Nat} (hevent : event.departsFrom? = some i) (hne : j ≠ i)
    (m : Machine) (held : List Request) :
    (m.history held j).Later ((m.noted event).history held j) where
  sent := told_noted_same fun _ => by
    cases event <;> first | rfl | skip
    cases hevent
    exact if_neg fun h => hne h.1.symm
  missed := told_noted_same fun _ => by
    cases event <;> first | rfl | skip
    refine if_neg ?_
    rintro ⟨rfl, rfl, -⟩
    exact hne (Option.some.inj hevent)
  made := told_noted_same fun _ => by
    cases event <;> first | rfl | skip
    cases hevent
    exact if_neg fun h => hne h.1.symm
  gone := gone_noted _

theorem later_held (hheld : held ⊆ held') (m : Machine) (i : Nat) :
    (m.history held i).Later (m.history held' i) :=
  ⟨rfl, rfl, rfl, fun _ => .imp_right fun h => List.map_subset _ hheld h⟩

end Machine

def departures : Watch (GatedQueue Request × GatedQueue Request × Nat) where
  view _ c := (c.sends, c.writeBacks, c.cycle)
  hears event := event.departsFrom?.isSome
  deaf event h := by cases event <;> first | rfl | cases h

namespace Machine

variable {m m' : Machine} {held held' : List Request}

theorem told_eq_of_same (h : departures.Same m m') {tells : Event → Option Ticket}
    (htells : ∀ event, event.departsFrom? = none → tells event = none) :
    m'.told tells = m.told tells := by
  have hfilter : ∀ l : List Event,
      (l.filter departures.hears).filterMap tells = l.filterMap tells := by
    intro l
    rw [List.filterMap_filter]
    refine List.filterMap_congr fun event _ => ?_
    cases hdeparts : event.departsFrom? with
    | some j => simp [departures, hdeparts]
    | none => simp [departures, hdeparts, htells event hdeparts]
  rw [told, told, ← hfilter m'.journal.reverse, List.filter_reverse, h.heard,
    ← List.filter_reverse, hfilter]

theorem later_of_same (h : departures.Same m m') (held : List Request) (i : Nat) :
    (m.history held i).Later (m'.history held i) where
  sent := funext fun _ => told_eq_of_same h fun event _ => by
    cases event <;> first | rfl | contradiction
  missed := funext fun _ => told_eq_of_same h fun event hevent => by
    cases event <;> first | rfl | skip
    refine if_neg ?_
    rintro ⟨rfl, rfl, -⟩
    cases hevent
  made := funext fun _ => told_eq_of_same h fun event _ => by
    cases event <;> first | rfl | contradiction
  gone _ hw := hw.imp_left fun hw => hw.mono h.grows

end Machine

theorem Standing.Admits.later {H H' : History} {c : Cache} {standing : Standing}
    (h : standing.Admits H c) (hlater : H.Later H') : standing.Admits H' c := by
  cases standing with
  | rests | looksUp => exact History.Rests.later h hlater
  | sends left => exact History.Sends.later h hlater

theorem Standing.Admits.congr {H : History} {c c' : Cache} {standing : Standing}
    (h : standing.Admits H c) (hview : ∀ i, departures.view i c' = departures.view i c) :
    standing.Admits H c' := by
  have hview := hview 0
  simp only [departures, Prod.mk.injEq] at hview
  obtain ⟨hsends, hwriteBacks, hcycle⟩ := hview
  cases standing <;> simpa only [Standing.Admits, hsends, hwriteBacks, hcycle] using h

namespace Machine.Departs

variable {m m' : Machine} {clock clock' : Nat → Nat} {standing standing' : Standing}
  {held held' : List Request} {i j : Nat} {c c' : Cache}

/-- What holds outlasts unseen steps. -/
theorem same (h : m.Departs clock i standing held) (hsame : departures.Same m m') :
    m'.Departs clock i standing held where
  cycle j d' hd' := by
    obtain ⟨d, hd, hview⟩ := hsame.view j d' hd'
    exact (congrArg (fun v => v.2.2) hview).trans (h.cycle j d hd)
  own c' hc' := by
    obtain ⟨c, hc, hview⟩ := hsame.view i c' hc'
    exact ((h.own c hc).later (later_of_same hsame held i)).congr fun _ => hview
  others j d' hne hd' := by
    obtain ⟨d, hd, hview⟩ := hsame.view j d' hd'
    exact ((h.others j d hne hd).later (later_of_same hsame held j)).congr fun _ => hview

/-- An unseen action goes on. -/
theorem seq (h : m.Departs clock i standing held) {α : Type} {x : Action α}
    (hx : departures.Unseen x) :
    Yields (fun _ m' => m'.Departs clock i standing held) (x m) :=
  (hx m).mono (fun _ _ hsame => h.same hsame) fun _ _ _ => trivial

theorem mono (h : m.Departs clock i standing held) (hheld : held ⊆ held') :
    m.Departs clock i standing held' :=
  ⟨h.cycle, fun c hc => (h.own c hc).later (later_held hheld m i),
    fun j d hne hd => (h.others j d hne hd).later (later_held hheld m j)⟩

theorem refocus (h : m.Departs clock i .rests held) (j : Nat) : m.Departs clock j .rests held := by
  have hall : ∀ (k : Nat) (d : Cache), m.caches[k]? = some d →
      Standing.rests.Admits (m.history held k) d := by
    intro k d hd
    by_cases hk : k = i
    · exact hk ▸ h.own d (hk ▸ hd)
    · exact h.others k d hk hd
  exact ⟨h.cycle, fun c hc => hall j c hc, fun k d _ hd => hall k d hd⟩

theorem put (h : m.Departs clock i standing held) (hc : m.caches[i]? = some c)
    (hcaches : m'.caches = m.caches.set i c')
    (hlater : ∀ j, j ≠ i → (m.history held j).Later (m'.history held j))
    (hcycle : c'.cycle = clock' i) (hclock : ∀ j, j ≠ i → clock' j = clock j)
    (hadmits : standing'.Admits (m'.history held i) c') : m'.Departs clock' i standing' held := by
  have hself : (m.caches.set i c')[i]? = some c' := caches_put_self hc c'
  have hothers : ∀ j, j ≠ i → (m.caches.set i c')[j]? = m.caches[j]? := fun j hne =>
    caches_put_ne c' hne
  rw [← hcaches] at hself hothers
  refine ⟨fun j d hd => ?_, fun d hd => ?_, fun j d hne hd => ?_⟩
  · by_cases hj : j = i
    · subst hj
      cases hself.symm.trans hd
      exact hcycle
    · rw [hothers j hj] at hd
      exact (h.cycle j d hd).trans (hclock j hj).symm
  · cases hself.symm.trans hd
    exact hadmits
  · rw [hothers j hne] at hd
    exact (h.others j d hne hd).later (hlater j hne)

end Machine.Departs

end CacheHierarchy
