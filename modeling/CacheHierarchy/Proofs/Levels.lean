import CacheHierarchy.Hierarchy.Config
import CacheHierarchy.Proofs.Tags.Addresses

/-!
# Levels that are well formed

A level is well formed if its dimensions are positive and the bytes of one set divide its size.
`validate` accepts exactly these levels and reports all others, with one exception: it multiplies
the associativity and the line size in a word, and where that product leaves the word it stops with
a fault. No such level is well formed, as the size is a word.

A level that is accepted has a tag array of the dimensions it asks for, in which every address can
be taken apart and put together again.
-/

namespace CacheHierarchy

namespace LevelConfig

structure Positive (c : LevelConfig) : Prop where
  size : 0 < c.size
  assoc : 0 < c.assoc
  lineSize : 0 < c.lineSize

theorem Positive.setBytes {c : LevelConfig} (h : c.Positive) : 0 < c.assoc * c.lineSize :=
  Nat.mul_pos h.assoc h.lineSize

/-- The dimensions are positive and the bytes of one set divide the size. -/
structure WellFormed (c : LevelConfig) : Prop extends c.Positive where
  dvd : c.assoc * c.lineSize ∣ c.size

section

variable {c : LevelConfig} {level : String}

/-! ### What is accepted -/

theorem validate_of_not_positive (h : ¬c.Positive) (level : String) :
    ∃ dimension, c.validate level = .error (.error (.zeroDimension level dimension)) := by
  unfold validate
  by_cases hsize : c.size = 0
  · exact ⟨_, if_pos hsize⟩
  rw [if_neg hsize]
  by_cases hassoc : c.assoc = 0
  · exact ⟨_, if_pos hassoc⟩
  rw [if_neg hassoc]
  by_cases hline : c.lineSize = 0
  · exact ⟨_, if_pos hline⟩
  exact absurd ⟨Nat.pos_of_ne_zero hsize, Nat.pos_of_ne_zero hassoc, Nat.pos_of_ne_zero hline⟩ h

theorem validate_of_lt (h : c.Positive) (hlt : c.assoc * c.lineSize < wordLimit) (level : String) :
    c.validate level =
      if c.assoc * c.lineSize ∣ c.size then .ok ()
      else .error (.error (.unevenSize level c.size (c.assoc * c.lineSize))) := by
  rw [validate, if_neg h.size.ne', if_neg h.assoc.ne', if_neg h.lineSize.ne',
    Word.mul_eq_ok_iff.2 ⟨hlt, rfl⟩]
  dsimp only
  by_cases hdvd : c.assoc * c.lineSize ∣ c.size
  · rw [if_pos hdvd, if_neg]
    rw [not_or, not_not, not_lt]
    exact ⟨Nat.mod_eq_zero_of_dvd hdvd, Nat.le_of_dvd h.size hdvd⟩
  · rw [if_neg hdvd, if_pos (.inl fun hmod => hdvd (Nat.dvd_of_mod_eq_zero hmod))]

theorem validate_of_le (h : c.Positive) (hle : wordLimit ≤ c.assoc * c.lineSize) (level : String) :
    c.validate level = .error (.fault .productOverflow) := by
  rw [validate, if_neg h.size.ne', if_neg h.assoc.ne', if_neg h.lineSize.ne', Word.mul,
    if_neg (Nat.not_lt.2 hle)]

/-- The only fault is that the bytes of one set leave the word. -/
theorem validate_eq_fault_iff {fault : Fault} : c.validate level = .error (.fault fault) ↔
    fault = .productOverflow ∧ c.Positive ∧ wordLimit ≤ c.assoc * c.lineSize := by
  by_cases hpos : c.Positive
  · rcases Nat.lt_or_ge (c.assoc * c.lineSize) wordLimit with hlt | hle
    · rw [validate_of_lt hpos hlt]
      split <;> simp [hlt]
    · simp [validate_of_le hpos hle, hpos, hle, eq_comm]
  · obtain ⟨dimension, h⟩ := validate_of_not_positive hpos level
    simp [h, hpos]

theorem WellFormed.setBytes_lt (h : c.WellFormed) (hsize : c.size < wordLimit) :
    c.assoc * c.lineSize < wordLimit :=
  Nat.lt_of_le_of_lt (Nat.le_of_dvd h.size h.dvd) hsize

/-- What is accepted is well formed, and the bytes of one set have not left the word. -/
theorem wellFormed_of_validate (h : c.validate level = .ok ()) :
    c.WellFormed ∧ c.assoc * c.lineSize < wordLimit := by
  by_cases hpos : c.Positive
  · rcases Nat.lt_or_ge (c.assoc * c.lineSize) wordLimit with hlt | hle
    · rw [validate_of_lt hpos hlt] at h
      by_cases hdvd : c.assoc * c.lineSize ∣ c.size
      · exact ⟨⟨hpos, hdvd⟩, hlt⟩
      · rw [if_neg hdvd] at h
        cases h
    · rw [validate_of_le hpos hle] at h
      cases h
  · obtain ⟨dimension, hzero⟩ := validate_of_not_positive hpos level
    rw [hzero] at h
    cases h

theorem validate_eq_ok_iff (hsize : c.size < wordLimit) :
    c.validate level = .ok () ↔ c.WellFormed := by
  constructor
  · intro h
    exact (wellFormed_of_validate h).1
  · intro h
    rw [validate_of_lt h.toPositive (h.setBytes_lt hsize), if_pos h.dvd]

/-! ### The tag array of a level -/

def WellFormed.geometry (h : c.WellFormed) : Geometry where
  numSets := c.size / (c.assoc * c.lineSize)
  assoc := c.assoc
  lineSize := c.lineSize
  numSets_pos := Nat.div_pos (Nat.le_of_dvd h.size h.dvd) h.setBytes
  assoc_pos := h.assoc
  lineSize_pos := h.lineSize

/-- The sets of a well-formed level make up its size. -/
theorem WellFormed.numSets_mul (h : c.WellFormed) :
    h.geometry.numSets * c.assoc * c.lineSize = c.size := by
  rw [Nat.mul_assoc]
  exact Nat.div_mul_cancel h.dvd

theorem WellFormed.span_le (h : c.WellFormed) :
    h.geometry.numSets * h.geometry.lineSize ≤ c.size :=
  calc h.geometry.numSets * c.lineSize
    _ ≤ h.geometry.numSets * c.assoc * c.lineSize :=
      Nat.mul_le_mul_right _ (Nat.le_mul_of_pos_right _ h.assoc)
    _ = c.size := h.numSets_mul

theorem WellFormed.numSets_eq (h : c.WellFormed) (hlt : c.assoc * c.lineSize < wordLimit) :
    c.numSets = .ok h.geometry.numSets := by
  rw [numSets, Word.mul_eq_ok_iff.2 ⟨hlt, rfl⟩]
  exact Word.div_eq_ok_iff.2 ⟨h.setBytes.ne', rfl⟩

theorem WellFormed.tagArray_eq (h : c.WellFormed) (hlt : c.assoc * c.lineSize < wordLimit)
    (name : String) : c.tagArray name = .ok (TagArray.empty name h.geometry) := by
  rw [tagArray, h.numSets_eq hlt]
  change TagArray.ofDimensions name h.geometry.numSets c.assoc c.lineSize = _
  rw [TagArray.ofDimensions, Geometry.ofDimensions, dif_neg h.geometry.numSets_pos.ne',
    dif_neg h.assoc.ne', dif_neg h.lineSize.ne']
  rfl

/-- For a level whose size is a word, `validate` faults exactly if the bytes of one set leave the
word, and accepts exactly the positive dimensions of which the bytes of one set divide the size. A
level that is accepted has the sets that make up its size, at least one, and a tag array of these
dimensions in which every address is taken apart and put together without an overflow. -/
theorem validate_decides_dimensions (hsize : c.size < wordLimit) (level name : String) :
    (∀ fault, c.validate level = .error (.fault fault) ↔
        fault = .productOverflow ∧ (0 < c.size ∧ 0 < c.assoc ∧ 0 < c.lineSize) ∧
          wordLimit ≤ c.assoc * c.lineSize) ∧
      (c.validate level = .ok () ↔
        (0 < c.size ∧ 0 < c.assoc ∧ 0 < c.lineSize) ∧ c.assoc * c.lineSize ∣ c.size) ∧
      (c.validate level = .ok () →
        ∃ numSets t, c.numSets = .ok numSets ∧ 1 ≤ numSets ∧
          numSets * c.assoc * c.lineSize = c.size ∧ numSets * c.lineSize < wordLimit ∧
          c.tagArray name = .ok t ∧ t.geometry.numSets = numSets ∧ t.geometry.assoc = c.assoc ∧
          t.geometry.lineSize = c.lineSize ∧
          ∀ addr < wordLimit, ∃ tag base, t.geometry.Decomposes addr tag base) := by
  have hpositive : c.Positive ↔ 0 < c.size ∧ 0 < c.assoc ∧ 0 < c.lineSize :=
    ⟨fun h => ⟨h.size, h.assoc, h.lineSize⟩, fun ⟨hsize, hassoc, hline⟩ => ⟨hsize, hassoc, hline⟩⟩
  refine ⟨fun fault => ?_, ?_, fun h => ?_⟩
  · rw [validate_eq_fault_iff, hpositive]
  · rw [validate_eq_ok_iff hsize, ← hpositive]
    exact ⟨fun h => ⟨h.toPositive, h.dvd⟩, fun ⟨hpos, hdvd⟩ => ⟨hpos, hdvd⟩⟩
  · obtain ⟨hwell, hlt⟩ := wellFormed_of_validate h
    have hspan : hwell.geometry.numSets * hwell.geometry.lineSize < wordLimit :=
      Nat.lt_of_le_of_lt hwell.span_le hsize
    exact ⟨_, _, hwell.numSets_eq hlt, hwell.geometry.numSets_pos, hwell.numSets_mul, hspan,
      hwell.tagArray_eq hlt name, rfl, rfl, rfl,
      fun addr haddr => ⟨_, _, Geometry.decomposes hspan haddr⟩⟩

end

/-- Five sets of three ways, with lines of 24 bytes. -/
theorem validate_decides_dimensions_fiveSets :
    let c : LevelConfig := { size := 360, assoc := 3, lineSize := 24 }
    c.size < wordLimit ∧ c.validate "l1d" = .ok () ∧
      ∃ numSets t, c.numSets = .ok numSets ∧ 1 ≤ numSets ∧ numSets * 3 * 24 = 360 ∧
        numSets * 24 < wordLimit ∧ c.tagArray "L1D" = .ok t ∧ t.geometry.numSets = numSets ∧
        t.geometry.assoc = 3 ∧ t.geometry.lineSize = 24 ∧
        ∀ addr < wordLimit, ∃ tag base, t.geometry.Decomposes addr tag base := by
  intro c
  have hsize : c.size < wordLimit := by decide
  obtain ⟨-, haccepts, htagArray⟩ := validate_decides_dimensions hsize "l1d" "L1D"
  have hvalid : c.validate "l1d" = .ok () := haccepts.2 (by decide)
  exact ⟨hsize, hvalid, htagArray hvalid⟩

/-- Two dimensions that are words and whose product is not: what should be reported as an uneven
size stops the program instead. -/
theorem validate_overflows :
    ¬∀ (c : LevelConfig) (level : String), c.size < wordLimit → c.assoc < wordLimit →
      c.lineSize < wordLimit → ∀ fault, c.validate level ≠ .error (.fault fault) := by
  intro h
  exact h { size := 64, assoc := 4294967296, lineSize := 4294967296 } "l1d" (by decide) (by decide)
    (by decide) .productOverflow rfl

end LevelConfig

end CacheHierarchy
