import CacheHierarchy.Proofs.Machine.OutstandingCalls

/-!
# Matching accesses with outstanding misses

An access is matched with the miss that waits for its line at its cache, and the table of
outstanding accesses is where it looks for one. `Outstanding.Accords` says what it may rely on,
in terms of what was called: which access a look-up finds, what a merge and a removal change, and
as what kind an access is serviced. Every run of calls that inserts no number which is in the table
keeps to it, wherever the run is left.
-/

namespace CacheHierarchy

namespace Outstanding

/-- What a table owes to its past. -/
structure Accords (t : Outstanding) (past : OutstandingPast) : Prop where
  /-- It holds the accesses that were inserted and not removed since, in the order of their
  insertion. -/
  entries : t.entries = (live past).map Insertion.access
  /-- A look-up finds a miss exactly if the latest mark of an access in the table is the one looked
  for. -/
  isSome_findMiss? : ∀ owner line, (t.findMiss? owner line).isSome = true ↔
    ∃ i ∈ live past, i.latestMark? = some ⟨owner, line⟩
  /-- If there are several such accesses, it finds the one that was inserted first. -/
  first : ∀ owner line e, t.findMiss? owner line = some e →
    ∃ before i after, live past = before ++ i :: after ∧ e = i.access ∧
      i.latestMark? = some ⟨owner, line⟩ ∧
      ∀ j ∈ before, j.latestMark? ≠ some ⟨owner, line⟩
  /-- An access is merged if a look-up finds a miss for it, -/
  merge?_eq_none_iff : ∀ owner line kind,
    t.merge? owner line kind = none ↔ t.findMiss? owner line = none
  /-- and into that miss. A write turns the miss into a write, and nothing else changes. -/
  merge? : ∀ owner line kind e, t.findMiss? owner line = some e →
    ∃ before after, t.entries = before ++ e :: after ∧
      t.merge? owner line kind = some (e.id,
        ⟨before ++ { e with kind := if kind = .write then .write else e.kind } :: after⟩)
  /-- An access is serviced as a write if it was inserted as one or a write was merged into it
  since. -/
  kindOf?_write : ∀ i ∈ live past,
    (i.kind = .write ∨
      ∃ owner line, (.merge owner line .write, .merged (some i.id)) ∈ i.since) →
    t.kindOf? i.id = some .write
  /-- Otherwise it is serviced as what it was inserted as. -/
  kindOf?_inserted : ∀ i ∈ live past,
    ¬(i.kind = .write ∨
      ∃ owner line, (.merge owner line .write, .merged (some i.id)) ∈ i.since) →
    t.kindOf? i.id = some i.kind
  /-- A number that is not in the table is not removed, -/
  remove?_eq_none_iff : ∀ id, t.remove? id = none ↔ ∀ i ∈ live past, i.id ≠ id
  /-- and one that is takes its entry along and leaves all others as they are. -/
  remove? : ∀ before e after, t.entries = before ++ e :: after →
    t.remove? e.id = some (e, ⟨before ++ after⟩)

theorem Insertion.isWritten_iff {i : Insertion} :
    i.isWritten = true ↔
      ∃ owner line, (.merge owner line .write, .merged (some i.id)) ∈ i.since := by
  rw [isWritten, List.any_eq_true]
  constructor
  · rintro ⟨⟨call, answer⟩, hstep, hwrite⟩
    rw [Bool.and_eq_true, beq_iff_eq] at hwrite
    obtain ⟨hcall, rfl⟩ := hwrite
    cases call with
    | merge owner line kind =>
      obtain rfl := AccessKind.isWrite_iff.1 hcall
      exact ⟨owner, line, hstep⟩
    | _ => cases hcall
  · rintro ⟨owner, line, hstep⟩
    exact ⟨_, hstep, by simp [OutstandingCall.isWrite, AccessKind.isWrite]⟩

namespace Follows

variable {t : Outstanding} {past : OutstandingPast} (h : t.Follows past)

include h

/-- A look-up goes through the accesses in the order of their insertion. -/
theorem findMiss?_eq (owner line : Nat) : t.findMiss? owner line =
    ((live past).find? fun i => i.latestMark? == some ⟨owner, line⟩).map Insertion.access := by
  rw [findMiss?, h.entries, List.find?_map]
  rfl

theorem kindOf?_eq {i : Insertion} (hi : i ∈ live past) : t.kindOf? i.id = some i.access.kind :=
  (kindOf?_eq_some_iff h.nodup).2 ⟨i.access, h.entries ▸ List.mem_map_of_mem hi, rfl, rfl⟩

theorem accords : t.Accords past where
  entries := h.entries
  isSome_findMiss? owner line := by
    rw [h.findMiss?_eq, Option.isSome_map, List.find?_isSome]
    simp only [beq_iff_eq]
  first owner line e he := by
    rw [h.findMiss?_eq] at he
    obtain ⟨i, hi, rfl⟩ := Option.map_eq_some_iff.1 he
    obtain ⟨hmark, before, after, hlive, hbefore⟩ := List.find?_eq_some_iff_append.1 hi
    refine ⟨before, i, after, hlive, rfl, beq_iff_eq.1 hmark, fun j hj => ?_⟩
    simpa using hbefore j hj
  merge?_eq_none_iff owner line kind := by rw [merge?, Option.map_eq_none_iff]
  merge? owner line kind e he := by
    obtain ⟨-, before, after, hentries, -⟩ := List.find?_eq_some_iff_append.1 he
    have hmerge : t.merge? owner line kind = some (e.id, _) := congrArg (Option.map _) he
    have hjoin := (merge?_eq_some h.nodup hmerge).2
    rw [join_of_append h.nodup hentries] at hjoin
    exact ⟨before, after, hentries, hjoin ▸ hmerge⟩
  kindOf?_write i hi hwrite := by
    rw [← Insertion.isWritten_iff] at hwrite
    rw [h.kindOf?_eq hi, Insertion.access]
    rcases hwrite with hkind | hmerged <;> simp [*]
  kindOf?_inserted i hi hwrite := by
    rw [← Insertion.isWritten_iff, not_or] at hwrite
    rw [h.kindOf?_eq hi, Insertion.access]
    simp only [if_neg hwrite.2]
  remove?_eq_none_iff id := by
    rw [Outstanding.remove?, Option.map_eq_none_iff, get?, h.entries, List.find?_eq_none]
    simp [Insertion.access]
  remove? before e after hentries := remove?_of_append h.nodup hentries

end Follows

/-- Calls on an empty table succeed as long as none inserts a number that is in the table, and what
they leave is matched by their past. -/
theorem calls_accord_with_past {calls : List OutstandingCall}
    (h : OutstandingCall.areFresh [] calls = true) :
    ∃ answers t, ({} : Outstanding).calls calls = .ok (answers, t) ∧
      t.Accords (calls.zip answers) := by
  obtain ⟨answers, t, hcalls⟩ := (exists_calls_iff follows_nil.nodup).2 h
  exact ⟨answers, t, hcalls, (follows_nil.of_calls hcalls).accords⟩

/-- Three accesses wait for one line. Merges go to the first of them until it waits for another
line; the second is removed, and its number given out again. -/
def remarkingCalls : List OutstandingCall :=
  [.insert 0 64 .read, .insert 1 68 .read, .insert 2 72 .read, .markMiss 0 0 1, .markMiss 1 0 1,
    .markMiss 2 0 1, .merge 0 1 .read, .merge 0 1 .write, .markMiss 0 0 2, .merge 0 1 .write,
    .remove 1, .query (.findMiss 0 1), .remove 1, .insert 1 128 .instFetch, .query (.kindOf 1)]

theorem calls_accord_with_past_remarked :
    OutstandingCall.areFresh [] remarkingCalls = true ∧
      ∃ answers t, ({} : Outstanding).calls remarkingCalls = .ok (answers, t) ∧
        answers.drop 6 = [.merged (some 0), .merged (some 0), .done, .merged (some 1),
          .entry (some ⟨1, 68, .write, some ⟨0, 1⟩⟩), .entry (some ⟨2, 72, .read, some ⟨0, 1⟩⟩),
          .entry none, .done, .kind (some .instFetch)] ∧
        t.entries = [⟨0, 64, .write, some ⟨0, 2⟩⟩, ⟨2, 72, .read, some ⟨0, 1⟩⟩,
          ⟨1, 128, .instFetch, none⟩] ∧
        t.Accords (remarkingCalls.zip answers) := by
  have hfresh : OutstandingCall.areFresh [] remarkingCalls = true := by decide
  obtain ⟨answers, t, hcalls, haccords⟩ := calls_accord_with_past hfresh
  refine ⟨hfresh, answers, t, hcalls, ?_, ?_, haccords⟩ <;> cases hcalls <;> rfl

end Outstanding

end CacheHierarchy
