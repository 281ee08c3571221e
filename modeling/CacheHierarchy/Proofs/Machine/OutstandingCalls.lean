import CacheHierarchy.Proofs.Machine.OutstandingTable
import CacheHierarchy.Proofs.Tags.Rows

/-!
# The table of outstanding accesses and its past

The past of a table is the calls on it so far with their answers, oldest first. It tells all that
the table holds: an access is in the table if a call inserted it and none removed it since, and the
calls since then say what it waits for and whether it is serviced as a write.

`Outstanding.Follows` says that a table is the one that its past tells. A call keeps it so, and with
it any number of calls does; a call is a fault only if it inserts a number that is in the table.
-/

namespace CacheHierarchy

/-- A call on the table of outstanding accesses that asks for something and changes nothing. -/
inductive OutstandingQuery
  | get (id : Nat)
  | kindOf (id : Nat)
  | contains (id : Nat)
  | findMiss (owner line : Nat)
  | length
  | isEmpty
  deriving DecidableEq, Repr

inductive OutstandingCall
  | insert (id addr : Nat) (kind : AccessKind)
  | markMiss (id owner line : Nat)
  | merge (owner line : Nat) (kind : AccessKind)
  | remove (id : Nat)
  | query (query : OutstandingQuery)
  deriving DecidableEq, Repr

inductive OutstandingAnswer
  | done
  /-- The number of the miss that the access was merged into. -/
  | merged (into : Option Nat)
  | entry (found : Option OutstandingAccess)
  | kind (found : Option AccessKind)
  | verdict (yes : Bool)
  | count (n : Nat)
  deriving DecidableEq, Repr

abbrev OutstandingPast := List (OutstandingCall × OutstandingAnswer)

namespace OutstandingCall

def isFresh (present : List Nat) : OutstandingCall → Bool
  | insert id _ _ => decide (id ∉ present)
  | _ => true

def leaves (present : List Nat) : OutstandingCall → List Nat
  | insert id _ _ => present ++ [id]
  | remove id => present.filter fun other => other != id
  | _ => present

/-- None of the calls inserts a number that is in the table then. -/
def areFresh (present : List Nat) : List OutstandingCall → Bool
  | [] => true
  | call :: rest => call.isFresh present && areFresh (call.leaves present) rest

def mark? (id : Nat) : OutstandingCall → Option MissMark
  | markMiss marked owner line => if id = marked then some { owner, line } else none
  | _ => none

def isWrite : OutstandingCall → Bool
  | merge _ _ kind => kind.isWrite
  | _ => false

end OutstandingCall

/-- What a call makes of an entry that it leaves in the table. -/
def OutstandingAccess.after (step : OutstandingCall × OutstandingAnswer) (e : OutstandingAccess) :
    OutstandingAccess :=
  { e with
    kind := if step.1.isWrite && step.2 == .merged (some e.id) then .write else e.kind
    mark := (step.1.mark? e.id).or e.mark }

namespace OutstandingAccess

variable (e : OutstandingAccess) (answer : OutstandingAnswer) (id into owner line : Nat)
  (kind : AccessKind)

theorem after_markMiss : e.after (.markMiss id owner line, answer) =
    if e.id = id then { e with mark := some { owner, line } } else e := by
  by_cases hid : e.id = id <;>
    simp [after, OutstandingCall.mark?, OutstandingCall.isWrite, hid]

theorem after_merge_none : e.after (.merge owner line kind, .merged none) = e := by
  simp [after, OutstandingCall.mark?]

theorem after_merge_some : e.after (.merge owner line kind, .merged (some into)) =
    if kind.isWrite = true ∧ e.id = into then { e with kind := .write } else e := by
  rcases eq_or_ne e.id into with rfl | hid
  · cases hwrite : kind.isWrite <;>
      simp [after, OutstandingCall.mark?, OutstandingCall.isWrite, hwrite]
  · simp [after, OutstandingCall.mark?, hid, hid.symm]

end OutstandingAccess

namespace Outstanding

def answer (t : Outstanding) : OutstandingQuery → OutstandingAnswer
  | .get id => .entry (t.get? id)
  | .kindOf id => .kind (t.kindOf? id)
  | .contains id => .verdict (t.contains id)
  | .findMiss owner line => .entry (t.findMiss? owner line)
  | .length => .count t.length
  | .isEmpty => .verdict t.isEmpty

def call (t : Outstanding) : OutstandingCall → Except Fault (OutstandingAnswer × Outstanding)
  | .insert id addr kind => (t.insert id addr kind).map fun t => (.done, t)
  | .markMiss id owner line => .ok (.done, t.markMiss id owner line)
  | .merge owner line kind =>
    match t.merge? owner line kind with
    | some (into, t) => .ok (.merged (some into), t)
    | none => .ok (.merged none, t)
  | .remove id =>
    match t.remove? id with
    | some (entry, t) => .ok (.entry (some entry), t)
    | none => .ok (.entry none, t)
  | .query query => .ok (t.answer query, t)

/-- Calls one after the other, up to the first that is a fault. -/
def calls (t : Outstanding) :
    List OutstandingCall → Except Fault (List OutstandingAnswer × Outstanding)
  | [] => .ok ([], t)
  | call :: rest => do
    let (answer, t) ← t.call call
    let (answers, t) ← t.calls rest
    return (answer :: answers, t)

/-- An access that a call inserted, and what came since. -/
structure Insertion where
  id : Nat
  addr : Nat
  kind : AccessKind
  since : OutstandingPast

namespace Insertion

def isLive (i : Insertion) : Bool := i.since.all fun step => step.1 != .remove i.id

def latestMark? (i : Insertion) : Option MissMark :=
  (i.since.filterMap fun step => step.1.mark? i.id).getLast?

/-- A write was merged into the access since: a call asked for it, and the answer names the
access. -/
def isWritten (i : Insertion) : Bool :=
  i.since.any fun step => step.1.isWrite && step.2 == .merged (some i.id)

def access (i : Insertion) : OutstandingAccess where
  id := i.id
  addr := i.addr
  kind := if i.isWritten then .write else i.kind
  mark := i.latestMark?

def extend (step : OutstandingCall × OutstandingAnswer) (i : Insertion) : Insertion :=
  { i with since := i.since ++ [step] }

end Insertion

/-- All insertions of a past, oldest first. What follows a call in the past is what came since. -/
def insertions : OutstandingPast → List Insertion
  | [] => []
  | (.insert id addr kind, _) :: since => { id, addr, kind, since } :: insertions since
  | _ :: since => insertions since

def live (past : OutstandingPast) : List Insertion := (insertions past).filter Insertion.isLive

/-- The table holds what its past tells, and no number twice. -/
structure Follows (t : Outstanding) (past : OutstandingPast) : Prop where
  nodup : t.ids.Nodup
  entries : t.entries = (live past).map Insertion.access

theorem follows_nil : Follows {} [] := ⟨List.nodup_nil, rfl⟩

/-! What one more call makes of the insertions. -/

section Append

variable (past : OutstandingPast) (step : OutstandingCall × OutstandingAnswer)

theorem insertions_append_singleton :
    insertions (past ++ [step]) =
      (insertions past).map (Insertion.extend step) ++ insertions [step] := by
  induction past with
  | nil => rfl
  | cons first since ih =>
    obtain ⟨call, answer⟩ := first
    cases call with
    | insert id addr kind =>
      simp only [List.cons_append, insertions, List.map_cons, ih]
      rfl
    | _ => exact ih

/-- An access that was inserted last is live, for nothing has come since. -/
theorem filter_isLive_insertions_singleton :
    (insertions [step]).filter Insertion.isLive = insertions [step] := by
  obtain ⟨call, answer⟩ := step
  cases call <;> rfl

/-- A removal takes its access out of the live ones, and an insertion adds its own at the end. -/
theorem live_append_singleton :
    live (past ++ [step]) =
      ((live past).filter fun i => step.1 != .remove i.id).map (Insertion.extend step) ++
        insertions [step] := by
  rw [live, insertions_append_singleton, List.filter_append, filter_isLive_insertions_singleton,
    List.filter_map, live, List.filter_filter]
  congr 2
  refine List.filter_congr fun i _ => ?_
  simp [Insertion.isLive, Insertion.extend, Bool.and_comm]

end Append

theorem Insertion.access_extend (step : OutstandingCall × OutstandingAnswer) (i : Insertion) :
    (i.extend step).access = i.access.after step := by
  have hmark : (i.extend step).latestMark? = (step.1.mark? i.id).or i.latestMark? := by
    simp only [latestMark?, extend, List.filterMap_append, List.getLast?_append]
    congr 1
    cases h : step.1.mark? i.id <;> simp [h]
  have hwritten : (i.extend step).isWritten =
      (i.isWritten || step.1.isWrite && step.2 == .merged (some i.id)) := by
    simp [isWritten, extend]
  simp only [access, OutstandingAccess.after, hmark, hwritten]
  congr 1
  cases i.isWritten
  · rfl
  · simp

def entriesAfter (step : OutstandingCall × OutstandingAnswer) (entries : List OutstandingAccess) :
    List OutstandingAccess :=
  (entries.filter fun e => step.1 != .remove e.id).map (OutstandingAccess.after step) ++
    (insertions [step]).map Insertion.access

theorem map_access_live_append_singleton (past : OutstandingPast)
    (step : OutstandingCall × OutstandingAnswer) :
    (live (past ++ [step])).map Insertion.access =
      entriesAfter step ((live past).map Insertion.access) := by
  rw [live_append_singleton, entriesAfter, List.map_append, List.filter_map, List.map_map,
    List.map_map]
  congr 1
  exact List.map_congr_left fun i _ => i.access_extend step

/-! The entries that each call leaves. -/

section Entries

variable {t t' : Outstanding} {call : OutstandingCall} {answer : OutstandingAnswer}
  {entries : List OutstandingAccess}

/-- A call that removes and inserts nothing changes each entry by itself. -/
theorem entriesAfter_eq_map (hremove : ∀ id, call ≠ .remove id)
    (hinsert : insertions [(call, answer)] = []) :
    entriesAfter (call, answer) entries =
      entries.map (OutstandingAccess.after (call, answer)) := by
  have hall : (entries.filter fun e => call != .remove e.id) = entries :=
    List.filter_eq_self.2 fun e _ => bne_iff_ne.2 (hremove e.id)
  rw [entriesAfter, hall, hinsert, List.map_nil, List.append_nil]

theorem entriesAfter_query (query : OutstandingQuery) :
    entriesAfter (.query query, answer) entries = entries := by
  rw [entriesAfter_eq_map (fun _ => OutstandingCall.noConfusion) rfl]
  exact List.map_id _

theorem entriesAfter_insert (id addr : Nat) (kind : AccessKind) :
    entriesAfter (.insert id addr kind, answer) entries =
      entries ++ [{ id := id, addr, kind }] := by
  have hall : (entries.filter fun e => OutstandingCall.insert id addr kind != .remove e.id) =
      entries := List.filter_eq_self.2 fun e _ => rfl
  rw [entriesAfter, hall]
  exact congrArg (· ++ _) (List.map_id _)

theorem entriesAfter_remove (id : Nat) :
    entriesAfter (.remove id, answer) entries = entries.filter fun e => e.id != id := by
  refine (List.append_nil _).trans ((List.map_id _).trans (List.filter_congr fun e _ => ?_))
  simp [bne, eq_comm]

theorem entriesAfter_markMiss (id owner line : Nat) :
    entriesAfter (.markMiss id owner line, answer) t.entries =
      (t.await id { owner, line }).entries := by
  rw [entriesAfter_eq_map (fun _ => OutstandingCall.noConfusion) rfl]
  exact List.map_congr_left fun e _ => e.after_markMiss answer id owner line

theorem entriesAfter_merge_none (owner line : Nat) (kind : AccessKind) :
    entriesAfter (.merge owner line kind, .merged none) entries = entries := by
  rw [entriesAfter_eq_map (fun _ => OutstandingCall.noConfusion) rfl]
  exact List.map_id'' (fun e => e.after_merge_none owner line kind) entries

theorem entriesAfter_merge_some (into owner line : Nat) (kind : AccessKind) :
    entriesAfter (.merge owner line kind, .merged (some into)) t.entries =
      (t.join into kind).entries := by
  rw [entriesAfter_eq_map (fun _ => OutstandingCall.noConfusion) rfl, join]
  cases hwrite : kind.isWrite with
  | false =>
    refine List.map_id'' (fun e => ?_) t.entries
    rw [e.after_merge_some, if_neg fun h => Bool.false_ne_true (hwrite.symm.trans h.1)]
  | true =>
    refine List.map_congr_left fun e _ => ?_
    rw [e.after_merge_some, hwrite]
    simp only [true_and]

/-- While no number is in the table twice, each call leaves the entries that it is said to. -/
theorem entries_call (h : t.ids.Nodup) (hcall : t.call call = .ok (answer, t')) :
    t'.entries = entriesAfter (call, answer) t.entries := by
  cases call with
  | insert id addr kind =>
    obtain ⟨t₁, hinsert, heq⟩ := exists_ok_of_map hcall
    cases heq
    rw [(insert_eq_ok_iff.1 hinsert).2, entriesAfter_insert]
  | markMiss id owner line =>
    cases hcall
    rw [entriesAfter_markMiss, markMiss_eq_await h]
  | merge owner line kind =>
    rw [Outstanding.call] at hcall
    split at hcall
    · rename_i into t₁ hmerge
      cases hcall
      rw [entriesAfter_merge_some, (merge?_eq_some h hmerge).2]
    · cases hcall
      rw [entriesAfter_merge_none]
  | remove id =>
    rw [Outstanding.call, remove?_eq h] at hcall
    rw [entriesAfter_remove]
    cases hget : t.get? id with
    | none =>
      rw [hget] at hcall
      cases hcall
      exact (List.filter_eq_self.2 fun e he => by simpa using List.find?_eq_none.1 hget e he).symm
    | some e =>
      rw [hget] at hcall
      cases hcall
      rfl
  | query query =>
    cases hcall
    rw [entriesAfter_query]

end Entries

/-! Which calls succeed, and what a run of calls leaves. -/

section Runs

variable {t t' : Outstanding} {past : OutstandingPast} {call : OutstandingCall}
  {answer : OutstandingAnswer} {calls : List OutstandingCall} {answers : List OutstandingAnswer}

theorem exists_call_iff :
    (∃ answer t', t.call call = .ok (answer, t')) ↔ call.isFresh t.ids = true := by
  cases call with
  | insert id addr kind =>
    rw [OutstandingCall.isFresh, decide_eq_true_eq]
    constructor
    · rintro ⟨answer, t', hcall⟩
      obtain ⟨t₁, hinsert, -⟩ := exists_ok_of_map hcall
      exact (insert_eq_ok_iff.1 hinsert).1
    · intro hid
      have hinsert : t.insert id addr kind = .ok _ := insert_eq_ok_iff.2 ⟨hid, rfl⟩
      exact ⟨.done, _, congrArg (Except.map _) hinsert⟩
  | markMiss id owner line => exact ⟨fun _ => rfl, fun _ => ⟨_, _, rfl⟩⟩
  | merge owner line kind =>
    refine ⟨fun _ => rfl, fun _ => ?_⟩
    rw [Outstanding.call]
    split <;> exact ⟨_, _, rfl⟩
  | remove id =>
    refine ⟨fun _ => rfl, fun _ => ?_⟩
    rw [Outstanding.call]
    split <;> exact ⟨_, _, rfl⟩
  | query query => exact ⟨fun _ => rfl, fun _ => ⟨_, _, rfl⟩⟩

theorem ids_call (h : t.ids.Nodup) (hcall : t.call call = .ok (answer, t')) :
    t'.ids = call.leaves t.ids := by
  rw [ids, ids, entries_call h hcall]
  cases call with
  | insert id addr kind =>
    rw [entriesAfter_insert, List.map_append]
    rfl
  | remove id =>
    rw [entriesAfter_remove, OutstandingCall.leaves, List.filter_map]
    rfl
  | _ =>
    rw [entriesAfter_eq_map (fun _ => OutstandingCall.noConfusion) rfl, List.map_map]
    rfl

theorem nodup_call (h : t.ids.Nodup) (hcall : t.call call = .ok (answer, t')) : t'.ids.Nodup := by
  have hfresh := exists_call_iff.1 ⟨answer, t', hcall⟩
  rw [ids_call h hcall]
  cases call with
  | insert id addr kind =>
    rw [OutstandingCall.leaves, ← List.concat_eq_append]
    exact h.concat (of_decide_eq_true hfresh)
  | remove id => exact h.filter _
  | _ => exact h

/-- Calls are no fault exactly if none inserts a number that is in the table then. -/
theorem exists_calls_iff (h : t.ids.Nodup) :
    (∃ answers t', t.calls calls = .ok (answers, t')) ↔
      OutstandingCall.areFresh t.ids calls = true := by
  induction calls generalizing t with
  | nil => exact ⟨fun _ => rfl, fun _ => ⟨_, _, rfl⟩⟩
  | cons call rest ih =>
    rw [OutstandingCall.areFresh, Bool.and_eq_true]
    constructor
    · rintro ⟨answers, t', hcalls⟩
      obtain ⟨⟨answer, t₁⟩, hcall, hcalls⟩ := exists_ok_of_bind hcalls
      obtain ⟨⟨answers₁, t₂⟩, hrest, -⟩ := exists_ok_of_bind hcalls
      rw [← ids_call h hcall]
      exact ⟨exists_call_iff.1 ⟨_, _, hcall⟩, (ih (nodup_call h hcall)).1 ⟨_, _, hrest⟩⟩
    · rintro ⟨hfresh, hrest⟩
      obtain ⟨answer, t₁, hcall⟩ := exists_call_iff.2 hfresh
      rw [← ids_call h hcall] at hrest
      obtain ⟨answers, t₂, hcalls⟩ := (ih (nodup_call h hcall)).2 hrest
      refine ⟨answer :: answers, t₂, ?_⟩
      simp only [Outstanding.calls, hcall, bind, Except.bind, hcalls, pure, Except.pure]

theorem Follows.of_call (h : t.Follows past) (hcall : t.call call = .ok (answer, t')) :
    t'.Follows (past ++ [(call, answer)]) where
  nodup := nodup_call h.nodup hcall
  entries := by rw [entries_call h.nodup hcall, map_access_live_append_singleton, h.entries]

theorem Follows.of_calls (h : t.Follows past) (hcalls : t.calls calls = .ok (answers, t')) :
    t'.Follows (past ++ calls.zip answers) := by
  -- each call makes the past longer that the calls after it start from
  induction calls generalizing t past answers with
  | nil =>
    cases hcalls
    rwa [List.zip_nil_left, List.append_nil]
  | cons call rest ih =>
    obtain ⟨⟨answer, t₁⟩, hcall, hcalls⟩ := exists_ok_of_bind hcalls
    obtain ⟨⟨answers₁, t₂⟩, hrest, heq⟩ := exists_ok_of_bind hcalls
    cases heq
    rw [List.zip_cons_cons, List.append_cons]
    exact ih (h.of_call hcall) hrest

end Runs

end Outstanding

end CacheHierarchy
