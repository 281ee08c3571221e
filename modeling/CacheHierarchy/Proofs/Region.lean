import CacheHierarchy.Proofs.Traffic.Answers

/-!
# Traffic in its region

Whatever region, stride, line and seed a configuration asks for, its generator makes as many accesses
as it says and then no more, and each of them lies in the region: random traffic at the start of a
line, and with that line as a whole in the region where the region has room for one. The region may
reach beyond the last address, where it goes on at the first one.

The numbers may come from any source that keeps to the bounds asked for.
-/

namespace CacheHierarchy.Traffic

open CacheHierarchy.Random

section

variable {σ : Type} [Source σ] {c : TrafficConfig}

/-- A generator answers without a fault, with as many accesses to its region as it is to make and with
nothing afterwards. -/
theorem answers_stay_in_region (hsource : Source.IsBounded σ) (hsized : c.Sized) (source : σ)
    (n : Nat) :
    (start c source).answers n =
        .ok (((start c source).take n).map some ++ List.replicate (n - c.count) none) ∧
      ((start c source).take n).length = min n c.count ∧
      ∀ record ∈ (start c source).take n, ∃ offset,
        record.addr = (c.base + offset) % wordLimit ∧ offset < max c.workingSet 1 ∧
        (c.pattern = .random → max c.lineSize 1 ∣ offset ∧
          (max c.lineSize 1 ≤ max c.workingSet 1 →
            offset + max c.lineSize 1 ≤ max c.workingSet 1) ∧
          (max c.workingSet 1 < max c.lineSize 1 → offset = 0)) := by
  obtain ⟨hanswers, hlength, hplaces⟩ :=
    answers_eq (t := start c source) (fun _ => hsource) hsized n
  refine ⟨hanswers, hlength, fun record hrecord => ?_⟩
  obtain ⟨offset, hplace, haddr⟩ := hplaces record hrecord
  exact ⟨offset, haddr, hplace.lt_span, fun hpattern =>
    ⟨hplace.line_dvd hpattern, hplace.add_line_le hpattern, hplace.eq_zero hpattern⟩⟩

end

def acrossTheEnd : TrafficConfig where
  count := 4
  base := wordLimit - 100
  workingSet := 200
  pattern := .random

theorem answers_stay_in_region_acrossTheEnd :
    Source.IsBounded KeyStream ∧ acrossTheEnd.Sized ∧
      (ofConfig acrossTheEnd).answers 6 =
        .ok (((ofConfig acrossTheEnd).take 6).map some ++ [none, none]) ∧
      ((ofConfig acrossTheEnd).take 6).length = 4 ∧
      ∀ record ∈ (ofConfig acrossTheEnd).take 6, ∃ offset,
        record.addr = (wordLimit - 100 + offset) % wordLimit ∧ 64 ∣ offset ∧ offset + 64 ≤ 200 := by
  have hsized : acrossTheEnd.Sized := by constructor <;> decide
  obtain ⟨hanswers, hlength, hplaces⟩ := answers_stay_in_region isBounded_keyStream hsized
    (.ofSeed acrossTheEnd.seed.toUInt64) 6
  refine ⟨isBounded_keyStream, hsized, hanswers, hlength, fun record hrecord => ?_⟩
  obtain ⟨offset, haddr, -, hplace⟩ := hplaces record hrecord
  obtain ⟨hdvd, hle, -⟩ := hplace rfl
  exact ⟨offset, haddr, hdvd, hle (by decide)⟩

end CacheHierarchy.Traffic
