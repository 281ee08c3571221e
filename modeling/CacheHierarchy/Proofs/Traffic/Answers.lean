import CacheHierarchy.Traffic
import Mathlib.Algebra.Order.Group.Nat
import Mathlib.Data.List.Basic
import Mathlib.Order.MinMax

/-!
# The answers of a generator

A generator is asked for one access after the other. While there are accesses left to make it answers
with one, whose place is in the region of its configuration, and afterwards it answers that there is
none and stays as it is. Nothing that it computes on the way leaves the word, provided that the numbers
of its configuration are words and that its source keeps to the bounds asked for.

`answers_eq` says this of any number of calls in a row.
-/

namespace CacheHierarchy

structure TrafficConfig.Places (c : TrafficConfig) (offset : Nat) : Prop where
  lt_span : offset < Traffic.span c
  line_dvd : c.pattern = .random → Traffic.line c ∣ offset
  /-- A line that fits in the region lies in it as a whole. -/
  add_line_le : c.pattern = .random → Traffic.line c ≤ Traffic.span c →
    offset + Traffic.line c ≤ Traffic.span c
  eq_zero : c.pattern = .random → Traffic.span c < Traffic.line c → offset = 0

namespace Traffic

open CacheHierarchy.Random

variable {σ : Type}

def start (config : TrafficConfig) (source : σ) : Traffic σ := { config, source }

@[simp] theorem start_config (c : TrafficConfig) (source : σ) : (start c source).config = c := rfl

@[simp] theorem start_issued (c : TrafficConfig) (source : σ) : (start c source).issued = 0 := rfl

@[simp] theorem start_offset (c : TrafficConfig) (source : σ) : (start c source).offset = 0 := rfl

variable [Source σ] {t t' : Traffic σ} {c : TrafficConfig} {offset : Nat}

/-- The answers of a generator to the next `n` calls. -/
def answers (t : Traffic σ) : Nat → Except Fault (List (Option TraceRecord))
  | 0 => return []
  | n + 1 => do
    match ← t.next with
    | none => return none :: (← t.answers n)
    | some (record, t) => return some record :: (← t.answers n)

theorem span_pos (c : TrafficConfig) : 0 < span c := Nat.lt_of_lt_of_le Nat.one_pos (le_max_right _ _)

theorem line_pos (c : TrafficConfig) : 0 < line c := Nat.lt_of_lt_of_le Nat.one_pos (le_max_right _ _)

theorem span_lt (hsized : c.Sized) : span c < wordLimit := max_lt hsized.workingSet (by decide)

/-! ### One call -/

theorem ne_random_of_sequential (h : c.pattern = .sequential) : c.pattern ≠ .random := by
  rw [h]
  decide

theorem places_pick {pick : Nat}
    (hpick : pick < max (span c / line c) 1) : c.Places (pick * line c) := by
  have hline := line_pos c
  have hspan := span_pos c
  by_cases hfits : line c ≤ span c
  · have hlt : pick < span c / line c :=
      hpick.trans_eq (max_eq_left ((Nat.one_le_div_iff hline).2 hfits))
    have hle : pick * line c + line c ≤ span c := by
      calc pick * line c + line c
        _ = (pick + 1) * line c := (Nat.succ_mul ..).symm
        _ ≤ span c / line c * line c := Nat.mul_le_mul_right _ hlt
        _ ≤ span c := Nat.div_mul_le_self ..
    exact ⟨by omega, fun _ => Nat.dvd_mul_left .., fun _ _ => hle, fun _ hlt => by omega⟩
  · rw [Nat.div_eq_of_lt (Nat.lt_of_not_le hfits), Nat.max_eq_right (Nat.zero_le 1)] at hpick
    rw [Nat.lt_one_iff.1 hpick, Nat.zero_mul]
    exact ⟨hspan, fun _ => Nat.dvd_zero _, fun _ hle => absurd hle hfits, fun _ _ => rfl⟩

theorem nextOffset_sequential (hpattern : t.config.pattern = .sequential) :
    t.nextOffset = .ok (t.offset % span t.config,
      { t with offset := (t.offset + t.config.stride) % wordLimit }) := by
  have hrem : Word.rem t.offset (span t.config) = .ok (t.offset % span t.config) :=
    Word.rem_eq_ok_iff.2 ⟨(span_pos _).ne', rfl⟩
  simp [nextOffset, hpattern, hrem, bind, Except.bind, pure, Except.pure]

structure Moves (t : Traffic σ) (offset : Nat) (t' : Traffic σ) : Prop where
  config : t'.config = t.config
  issued : t'.issued = t.issued
  places : t.config.Places offset
  strides : t.config.pattern = .sequential →
    offset = t.offset % span t.config ∧ t'.offset = (t.offset + t.config.stride) % wordLimit

theorem exists_nextOffset (hsource : t.config.pattern = .random → Source.IsBounded σ)
    (hsized : t.config.Sized) : ∃ offset t', t.nextOffset = .ok (offset, t') ∧ t.Moves offset t' := by
  cases hpattern : t.config.pattern with
  | sequential =>
    refine ⟨_, _, nextOffset_sequential hpattern, rfl, rfl, ?_, fun _ => ⟨rfl, rfl⟩⟩
    have hnot := ne_random_of_sequential hpattern
    exact ⟨Nat.mod_lt _ (span_pos _), fun h => absurd h hnot, fun h => absurd h hnot,
      fun h => absurd h hnot⟩
  | random =>
    have hdiv : Word.div (span t.config) (line t.config) = .ok (span t.config / line t.config) :=
      Word.div_eq_ok_iff.2 ⟨(line_pos _).ne', rfl⟩
    have hpick := hsource hpattern (max (span t.config / line t.config) 1)
      (Nat.lt_of_lt_of_le Nat.one_pos (le_max_right _ _))
      (max_lt ((Nat.div_le_self ..).trans_lt (span_lt hsized)) (by decide)) t.source
    have hplaces := places_pick hpick
    have hmul := Word.mul_eq_ok_iff.2 ⟨hplaces.lt_span.trans (span_lt hsized), rfl⟩
    refine ⟨_, { t with source := (Source.below (max (span t.config / line t.config) 1) t.source).2 },
      ?_, rfl, rfl, hplaces, fun hsequential => ?_⟩
    · simp [nextOffset, hpattern, hdiv, hmul, bind, Except.bind, pure, Except.pure]
    · exact absurd hpattern (ne_random_of_sequential hsequential)

theorem next_of_le (h : t.config.count ≤ t.issued) : t.next = .ok none := by
  simp [next, Nat.not_lt.2 h, pure, Except.pure]

/-- What a generator answers and how it goes on, while it has accesses left to make. -/
structure Makes (t : Traffic σ) (record : TraceRecord) (t' : Traffic σ) : Prop where
  config : t'.config = t.config
  issued : t'.issued = t.issued + 1
  addr : ∃ offset, t.config.Places offset ∧ record.addr = (t.config.base + offset) % wordLimit
  strides : t.config.pattern = .sequential →
    record.addr = (t.config.base + t.offset % span t.config) % wordLimit ∧
      t'.offset = (t.offset + t.config.stride) % wordLimit

theorem exists_next (hsource : t.config.pattern = .random → Source.IsBounded σ)
    (hsized : t.config.Sized) (h : t.issued < t.config.count) :
    ∃ record t', t.next = .ok (some (record, t')) ∧ t.Makes record t' := by
  have hissued : Word.add t.issued 1 = .ok (t.issued + 1) :=
    Word.add_eq_ok_iff.2 ⟨Nat.lt_of_le_of_lt h hsized.count, rfl⟩
  obtain ⟨offset, t', hoffset, hconfig, hcount, hplaces, hstrides⟩ :=
    exists_nextOffset (t := ({ t with issued := t.issued + 1 } : Traffic σ).nextKind.2) hsource hsized
  refine ⟨⟨(nextKind { t with issued := t.issued + 1 }).1, (t.config.base + offset) % wordLimit⟩, t', ?_,
    hconfig, hcount, ⟨offset, hplaces, rfl⟩, fun hpattern => ?_⟩
  · simp only [next, h, hissued, hoffset, if_true, bind, Except.bind, pure, Except.pure, hconfig]
    rfl
  · exact ⟨congrArg (fun n => (t.config.base + n) % wordLimit) (hstrides hpattern).1,
      (hstrides hpattern).2⟩

/-! ### Many calls -/

theorem answers_of_le (h : t.config.count ≤ t.issued) (n : Nat) :
    t.answers n = .ok (List.replicate n none) := by
  induction n with
  | zero => rfl
  | succ n ih => simp [answers, next_of_le h, ih, List.replicate_succ, bind, Except.bind, pure, Except.pure]

theorem take_of_le (h : t.config.count ≤ t.issued) (n : Nat) : t.take n = [] := by
  cases n with
  | zero => rfl
  | succ n => simp [take, next_of_le h]

theorem take_succ {record : TraceRecord} (h : t.next = .ok (some (record, t'))) (n : Nat) :
    t.take (n + 1) = record :: t'.take n := by
  rw [take, h]

theorem answers_succ {record : TraceRecord} {rest : List (Option TraceRecord)} {n : Nat}
    (h : t.next = .ok (some (record, t'))) (hrest : t'.answers n = .ok rest) :
    t.answers (n + 1) = .ok (some record :: rest) := by
  simp [answers, h, hrest, bind, Except.bind, pure, Except.pure]

/-- A generator answers with the accesses that it has left to make, and then with none. -/
theorem answers_eq (hsource : t.config.pattern = .random → Source.IsBounded σ)
    (hsized : t.config.Sized) (n : Nat) :
    t.answers n = .ok ((t.take n).map some ++
        List.replicate (n - (t.config.count - t.issued)) none) ∧
      (t.take n).length = min n (t.config.count - t.issued) ∧
      ∀ record ∈ t.take n, ∃ offset, t.config.Places offset ∧
        record.addr = (t.config.base + offset) % wordLimit := by
  -- over all generators, as every call but the first is one of the generator behind the access before
  induction n generalizing t with
  | zero => simp [answers, take, pure, Except.pure]
  | succ n ih =>
    by_cases hlt : t.issued < t.config.count
    · obtain ⟨record, t', hnext, hconfig, hissued, haddr, -⟩ := exists_next hsource hsized hlt
      obtain ⟨hanswers, hlength, hplaces⟩ := ih (t := t') (hconfig ▸ hsource) (hconfig ▸ hsized)
      rw [hconfig, hissued] at hanswers hlength
      rw [hconfig] at hplaces
      rw [take_succ hnext]
      refine ⟨?_, ?_, List.forall_mem_cons.2 ⟨haddr, hplaces⟩⟩
      · rw [answers_succ hnext hanswers, List.map_cons, List.cons_append]
        congr 4
        omega
      · rw [List.length_cons, hlength]
        omega
    · have hle := Nat.le_of_not_lt hlt
      rw [answers_of_le hle, take_of_le hle, Nat.sub_eq_zero_of_le hle]
      exact ⟨rfl, rfl, fun _ h => absurd h List.not_mem_nil⟩

end Traffic

end CacheHierarchy
