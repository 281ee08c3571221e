import CacheHierarchy.Text.Cut
import Mathlib.Data.List.DropRight
import Mathlib.Data.List.TakeWhile

/-!
# The fields of a text

A text is white space and words in turn. `fields_eq_cons_iff` says so for the first of its fields,
whatever follows, and what is said here of the number of fields is read off it. White space at
either end changes nothing (`fields_trim`), and a trimmed text with two fields is the one, a gap
and the other (`fields_eq_pair_iff`).
-/

namespace CacheHierarchy.Text

variable {text word gap before after : List Char}

def AllBlank (text : List Char) : Prop := ∀ c ∈ text, isBlank c = true

instance : Decidable (AllBlank text) := decidable_of_iff (text.all isBlank) List.all_eq_true

structure IsGap (text : List Char) : Prop where
  ne_nil : text ≠ []
  blank : AllBlank text

structure IsWord (text : List Char) : Prop where
  ne_nil : text ≠ []
  not_blank : ∀ c ∈ text, isBlank c = false

def trim (text : List Char) : List Char := (text.dropWhile isBlank).rdropWhile isBlank

/-! ### Texts of one kind and joined texts -/

theorem cut_eq_splitOnP {α : Type} (p : α → Bool) (l : List α) : cut p l = l.splitOnP p := by
  induction l with
  | nil => simp
  | cons a l ih =>
    rw [cut_cons, ih, List.splitOnP_cons_eq_if_modifyHead, cutStep.eq_def]
    split
    · rfl
    · cases h : l.splitOnP p with
      | nil => exact absurd h (List.splitOnP_ne_nil p l)
      | cons piece rest => rfl

@[simp] theorem fields_nil : fields [] = [] := rfl

theorem fields_append_cons {c : Char} (hc : isBlank c = true) (front back : List Char) :
    fields (front ++ c :: back) = fields front ++ fields back := by
  simp [fields, cut_eq_splitOnP, List.splitOnP_append_cons front back hc]

theorem fields_cons {c : Char} (hc : isBlank c = true) (back : List Char) :
    fields (c :: back) = fields back := by
  simpa using fields_append_cons hc [] back

theorem fields_of_isWord (h : IsWord word) : fields word = [word] := by
  simp [fields, cut_of_forall_not h.not_blank, h.ne_nil]

/-- White space in front of a text adds no field. -/
theorem fields_append_left (h : AllBlank before) (text : List Char) :
    fields (before ++ text) = fields text := by
  induction before with
  | nil => rfl
  | cons c before ih =>
    rw [List.cons_append, fields_cons (h c (by simp)), ih fun a ha => h a (by simp [ha])]

/-- A gap ends one field and starts the next. -/
theorem fields_append_gap (front back : List Char) (h : IsGap gap) :
    fields (front ++ (gap ++ back)) = fields front ++ fields back := by
  cases gap with
  | nil => exact absurd rfl h.ne_nil
  | cons c gap =>
    have hgap : AllBlank gap := fun a ha => h.blank a (by simp [ha])
    rw [List.cons_append, fields_append_cons (h.blank c (by simp)), fields_append_left hgap]

theorem fields_append_right (h : AllBlank after) (text : List Char) :
    fields (text ++ after) = fields text := by
  by_cases hnil : after = []
  · simp [hnil]
  · simpa using fields_append_gap text [] ⟨hnil, h⟩

/-! ### The first field -/

/-- The white space in front of a text, its first word and the rest, which starts with white
space. -/
theorem exists_word_of_not_allBlank (h : ¬ AllBlank text) :
    ∃ before word rest, text = before ++ (word ++ rest) ∧ AllBlank before ∧ IsWord word ∧
      ∀ c ∈ rest.head?, isBlank c = true := by
  cases hback : text.dropWhile isBlank with
  | nil => exact absurd (List.dropWhile_eq_nil_iff.1 hback) h
  | cons c back =>
    have hc : isBlank c = false := by simpa [hback] using List.head?_dropWhile_not isBlank text
    have hwhile : ∀ a ∈ back.takeWhile (!isBlank ·), isBlank a = false := fun a ha => by
      simpa using List.mem_takeWhile_imp ha
    have hword : IsWord (c :: back.takeWhile (!isBlank ·)) := ⟨by simp, by simpa [hc] using hwhile⟩
    have hrest : ∀ a ∈ (back.dropWhile (!isBlank ·)).head?, isBlank a = true := fun a ha => by
      simpa [Option.mem_def.1 ha] using List.head?_dropWhile_not (!isBlank ·) back
    refine ⟨text.takeWhile isBlank, _, _, ?_, fun a ha => List.mem_takeWhile_imp ha, hword, hrest⟩
    rw [List.cons_append, List.takeWhile_append_dropWhile, ← hback,
      List.takeWhile_append_dropWhile]

theorem fields_word_append (hword : IsWord word) {rest : List Char}
    (hrest : ∀ c ∈ rest.head?, isBlank c = true) : fields (word ++ rest) = word :: fields rest := by
  cases rest with
  | nil => simp [fields_of_isWord hword]
  | cons c rest =>
    have hc : isBlank c = true := hrest c (by simp)
    rw [fields_append_cons hc, fields_of_isWord hword, fields_cons hc, List.singleton_append]

theorem fields_eq_nil_iff : fields text = [] ↔ AllBlank text := by
  constructor
  · intro hnil
    by_contra h
    obtain ⟨before, word, rest, rfl, hbefore, hword, hrest⟩ := exists_word_of_not_allBlank h
    simp [fields_append_left hbefore, fields_word_append hword hrest] at hnil
  · intro h
    simpa using fields_append_left h []

theorem fields_eq_cons_iff {others : List (List Char)} :
    fields text = word :: others ↔
      ∃ before rest, text = before ++ (word ++ rest) ∧ AllBlank before ∧ IsWord word ∧
        (∀ c ∈ rest.head?, isBlank c = true) ∧ fields rest = others := by
  constructor
  · intro h
    have hne : ¬ AllBlank text := fun hblank => by simp [fields_eq_nil_iff.2 hblank] at h
    obtain ⟨before, first, rest, rfl, hbefore, hfirst, hrest⟩ := exists_word_of_not_allBlank hne
    rw [fields_append_left hbefore, fields_word_append hfirst hrest, List.cons.injEq] at h
    obtain ⟨rfl, hothers⟩ := h
    exact ⟨before, rest, rfl, hbefore, hfirst, hrest, hothers⟩
  · rintro ⟨before, rest, rfl, hbefore, hword, hrest, rfl⟩
    rw [fields_append_left hbefore, fields_word_append hword hrest]

/-! ### Trimming -/

theorem exists_eq_append_trim (text : List Char) :
    ∃ before after, text = before ++ (trim text ++ after) ∧ AllBlank before ∧ AllBlank after := by
  refine ⟨text.takeWhile isBlank, (text.dropWhile isBlank).rtakeWhile isBlank, ?_,
    fun c hc => List.mem_takeWhile_imp hc, fun c hc => List.mem_rtakeWhile_imp hc⟩
  rw [trim, List.rdropWhile_append_rtakeWhile, List.takeWhile_append_dropWhile]

theorem fields_trim (text : List Char) : fields (trim text) = fields text := by
  obtain ⟨before, after, htext, hbefore, hafter⟩ := exists_eq_append_trim text
  conv_rhs => rw [htext, fields_append_left hbefore, fields_append_right hafter]

theorem trim_eq_nil_iff : trim text = [] ↔ AllBlank text := by
  constructor
  · intro hnil
    obtain ⟨before, after, htext, hbefore, hafter⟩ := exists_eq_append_trim text
    rw [hnil, List.nil_append] at htext
    rw [htext, ← fields_eq_nil_iff, fields_append_right hafter, fields_eq_nil_iff]
    exact hbefore
  · intro h
    rw [trim, List.dropWhile_eq_nil_iff.2 h, List.rdropWhile_nil]

theorem IsWord.reverse (h : IsWord word) : IsWord word.reverse :=
  ⟨by simpa using h.ne_nil, by simpa using h.not_blank⟩

theorem dropWhile_word_append (h : IsWord word) (rest : List Char) :
    (word ++ rest).dropWhile isBlank = word ++ rest := by
  cases word with
  | nil => exact absurd rfl h.ne_nil
  | cons c word => simp [h.not_blank c]

theorem trim_append_word_append {first middle last : List Char} (hbefore : AllBlank before)
    (hfirst : IsWord first) (hlast : IsWord last) (hafter : AllBlank after) :
    trim (before ++ (first ++ (middle ++ (last ++ after)))) = first ++ (middle ++ last) := by
  have hback : ∀ c ∈ after.reverse, isBlank c = true := by simpa [AllBlank] using hafter
  rw [trim, List.dropWhile_append_of_pos hbefore, dropWhile_word_append hfirst, List.rdropWhile]
  simp [List.dropWhile_append_of_pos hback, dropWhile_word_append hlast.reverse]

/-- A text has two fields if there is a gap between two words after trimming. -/
theorem fields_eq_pair_iff {first second : List Char} :
    fields text = [first, second] ↔
      IsWord first ∧ IsWord second ∧ ∃ gap, IsGap gap ∧ trim text = first ++ (gap ++ second) := by
  constructor
  · intro h
    obtain ⟨before, rest, rfl, hbefore, hfirst, hrest, h⟩ := fields_eq_cons_iff.1 h
    obtain ⟨gap, after, rfl, hgap, hsecond, -, h⟩ := fields_eq_cons_iff.1 h
    have hafter : AllBlank after := fields_eq_nil_iff.1 h
    refine ⟨hfirst, hsecond, gap, ⟨?_, hgap⟩, ?_⟩
    · rintro rfl
      obtain ⟨c, second, rfl⟩ := List.exists_cons_of_ne_nil hsecond.ne_nil
      simp [hsecond.not_blank c] at hrest
    · exact trim_append_word_append hbefore hfirst hsecond hafter
  · rintro ⟨hfirst, hsecond, gap, hgap, htrim⟩
    rw [← fields_trim, htrim, fields_append_gap _ _ hgap, fields_of_isWord hfirst,
      fields_of_isWord hsecond, List.singleton_append]

end CacheHierarchy.Text
