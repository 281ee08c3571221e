import CacheHierarchy.Proofs.Traffic.Answers
import Mathlib.Data.Nat.ModEq

/-!
# Traffic that strides

Sequential traffic keeps count of its strides in a word, and the place of an access is what remains of
that count in the region. As long as the count stays in the word, the accesses walk through the region
by their stride and start over at its end. Where the count passes the word it loses the word, and with
it the walk jumps, unless the region divides the word.
-/

namespace CacheHierarchy

/-- Where sequential traffic stands in its region after `k` strides. -/
def TrafficConfig.place (c : TrafficConfig) (k : Nat) : Nat :=
  k * c.stride % wordLimit % Traffic.span c

namespace Traffic

open CacheHierarchy.Random

section Places

variable {c : TrafficConfig}

/-- What is lost of a count in a word is lost of its place as well, unless the region divides it. -/
theorem mod_wordLimit_mod_eq_iff (n span : Nat) :
    n % wordLimit % span = n % span ↔ span ∣ wordLimit * (n / wordLimit) := by
  have hrest : n - n % wordLimit = wordLimit * (n / wordLimit) := by
    have := Nat.mod_add_div n wordLimit
    omega
  rw [← hrest]
  exact Nat.modEq_iff_dvd' (Nat.mod_le ..)

theorem place_lt (k : Nat) : c.place k < span c := Nat.mod_lt _ (span_pos c)

theorem place_eq_iff (k : Nat) : c.place k = k * c.stride % span c ↔
    span c ∣ wordLimit * (k * c.stride / wordLimit) :=
  mod_wordLimit_mod_eq_iff ..

/-- The next stride moves on in the region, unless the count passes the word with it. -/
theorem place_succ_modEq_iff (hsized : c.Sized) (k : Nat) :
    c.place (k + 1) ≡ c.place k + c.stride [MOD span c] ↔
      k * c.stride % wordLimit + c.stride < wordLimit ∨ span c ∣ wordLimit := by
  have hstride := hsized.stride
  have hpassed : k * c.stride % wordLimit < wordLimit := Nat.mod_lt _ (by decide)
  have hsum : c.place (k + 1) ≡ c.place k + c.stride [MOD span c] ↔
      span c ∣ wordLimit * ((k * c.stride % wordLimit + c.stride) / wordLimit) := by
    rw [← mod_wordLimit_mod_eq_iff, TrafficConfig.place, TrafficConfig.place, Nat.ModEq, Nat.mod_mod,
      Nat.mod_add_mod, Nat.succ_mul, Nat.mod_add_mod]
  rw [hsum]
  by_cases hlt : k * c.stride % wordLimit + c.stride < wordLimit
  · simp [hlt, Nat.div_eq_of_lt]
  · -- two words hold the sum, so it passes the first one once
    have hone : (k * c.stride % wordLimit + c.stride) / wordLimit = 1 :=
      Nat.div_eq_of_lt_le (by omega) (by omega)
    simp [hlt, hone]

theorem add_base_mod_eq_iff (hsized : c.Sized) {offset offset' : Nat} (h : offset < span c)
    (h' : offset' < span c) :
    (c.base + offset) % wordLimit = (c.base + offset') % wordLimit ↔ offset = offset' := by
  have hspan := span_lt hsized
  refine ⟨fun heq => ?_, fun heq => heq ▸ rfl⟩
  exact (Nat.ModEq.add_left_cancel' c.base heq).eq_of_lt_of_lt (h.trans hspan) (h'.trans hspan)

end Places

variable {σ : Type} [Source σ] {t : Traffic σ}

/-- The accesses that sequential traffic has left to make, each one stride behind the one before. -/
theorem exists_getElem?_take (hsized : t.config.Sized) (hpattern : t.config.pattern = .sequential)
    (hoffset : t.offset < wordLimit) {k n : Nat} (hlt : k < n) (hle : t.issued + k < t.config.count) :
    ∃ record, (t.take n)[k]? = some record ∧
      record.addr =
        (t.config.base + (t.offset + k * t.config.stride) % wordLimit % span t.config) % wordLimit := by
  have hsource : t.config.pattern = .random → Source.IsBounded σ := fun h =>
    absurd h (ne_random_of_sequential hpattern)
  -- the generator behind the first access has come one stride further, and makes the others
  induction k generalizing t n with
  | zero =>
    obtain ⟨record, t', hnext, -, -, -, hstrides⟩ := exists_next hsource hsized (by omega)
    obtain ⟨n, rfl⟩ := Nat.exists_eq_add_of_lt hlt
    refine ⟨record, ?_, ?_⟩
    · rw [take_succ hnext, List.getElem?_cons_zero]
    · rw [(hstrides hpattern).1, Nat.zero_mul, Nat.add_zero, Nat.mod_eq_of_lt hoffset]
  | succ k ih =>
    obtain ⟨_, t', hnext, hconfig, hissued, -, hstrides⟩ := exists_next hsource hsized (by omega)
    obtain ⟨n, rfl⟩ := Nat.exists_eq_add_of_lt hlt
    have hmoved : t'.offset = (t.offset + t.config.stride) % wordLimit := (hstrides hpattern).2
    obtain ⟨record, hget, haddr⟩ := ih (t := t') (n := k + 1 + n) (hconfig ▸ hsized)
      (hconfig ▸ hpattern) (hmoved ▸ Nat.mod_lt _ (by decide)) (by omega) (by rw [hconfig]; omega)
      (hconfig ▸ hsource)
    refine ⟨record, ?_, ?_⟩
    · rw [take_succ hnext, List.getElem?_cons_succ, hget]
    · have hsum : (t'.offset + k * t.config.stride) % wordLimit =
          (t.offset + (k + 1) * t.config.stride) % wordLimit := by
        rw [hmoved, Nat.mod_add_mod, Nat.succ_mul, Nat.add_assoc, Nat.add_comm t.config.stride]
      rw [haddr, hconfig, hsum]

/-- Sequential traffic makes its accesses without a fault, and each lies at the place where its strides
have come to in the word. That is where they would have come to altogether exactly if the region
divides what the word has lost of them, and a further stride moves on by as much exactly if it does not
leave the word or the region divides the word. -/
theorem answers_stride {c : TrafficConfig} (hsized : c.Sized) (hpattern : c.pattern = .sequential)
    (source : σ) :
    (start c source).answers c.count = .ok (((start c source).take c.count).map some) ∧
      ((start c source).take c.count).length = c.count ∧
      ∀ k < c.count, ∃ record, ((start c source).take c.count)[k]? = some record ∧
        record.addr = (c.base + c.place k) % wordLimit ∧
        (record.addr = (c.base + k * c.stride % span c) % wordLimit ↔
          span c ∣ wordLimit * (k * c.stride / wordLimit)) ∧
        (c.place (k + 1) ≡ c.place k + c.stride [MOD span c] ↔
          k * c.stride % wordLimit + c.stride < wordLimit ∨ span c ∣ wordLimit) := by
  have hsource : c.pattern = .random → Source.IsBounded σ := fun h =>
    absurd h (ne_random_of_sequential hpattern)
  obtain ⟨hanswers, hlength, -⟩ := answers_eq (t := start c source) hsource hsized c.count
  refine ⟨?_, ?_, fun k hk => ?_⟩
  · simpa using hanswers
  · simpa using hlength
  · obtain ⟨record, hget, haddr⟩ := exists_getElem?_take (t := start c source) hsized hpattern
      (Nat.zero_lt_of_lt hsized.stride) hk (by simpa using hk)
    have hplace : record.addr = (c.base + c.place k) % wordLimit := by
      simpa [TrafficConfig.place] using haddr
    refine ⟨record, hget, hplace, ?_, place_succ_modEq_iff hsized k⟩
    rw [hplace, add_base_mod_eq_iff hsized (place_lt k) (Nat.mod_lt _ (span_pos c)), place_eq_iff]

/-- Two strides of half a word each, in a region of three places. -/
def halfWordStrides : TrafficConfig where
  count := 3
  base := 0
  workingSet := 3
  stride := 9223372036854775808

theorem answers_stride_halfWordStrides :
    halfWordStrides.Sized ∧ halfWordStrides.pattern = .sequential ∧
      ∃ record, ((ofConfig halfWordStrides).take 3)[1]? = some record ∧ record.addr = 2 ∧
        ¬halfWordStrides.place 2 ≡ 2 + halfWordStrides.stride [MOD 3] := by
  have hsized : halfWordStrides.Sized := by constructor <;> decide
  obtain ⟨-, -, hplaces⟩ := answers_stride hsized rfl (KeyStream.ofSeed halfWordStrides.seed.toUInt64)
  obtain ⟨record, hget, haddr, -, hstride⟩ := hplaces 1 (by decide)
  exact ⟨hsized, rfl, record, hget, haddr, fun h => absurd (hstride.1 h) (by decide)⟩

/-- The second stride passes the word, and the third access is back at the first place of the region
instead of the second. -/
theorem halfWordStrides_jump :
    ¬∀ c : TrafficConfig, c.Sized → c.pattern = .sequential → ∀ k < c.count,
      ((records c).map TraceRecord.addr)[k]? =
        some ((c.base + k * c.stride % max c.workingSet 1) % wordLimit) := by
  intro h
  have hsized : halfWordStrides.Sized := by constructor <;> decide
  have hjump := h halfWordStrides hsized rfl 2 (by decide)
  exact absurd hjump (by decide)

end Traffic

end CacheHierarchy
