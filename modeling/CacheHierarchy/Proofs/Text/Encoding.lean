import CacheHierarchy.Proofs.Text.Lines

/-!
# Texts as bytes

The bytes of a text are those of its characters in UTF-8, and bytes are read as the text whose bytes
they are, if there is one. Only one character has a carriage return as its last byte, so a text that
is read with a carriage return at its end has that character there (`utf8_eq_append_return_iff`).
-/

namespace CacheHierarchy.Text

variable {text : String} {bytes line : List UInt8}

def utf8 (text : String) : List UInt8 := text.toUTF8.data.toList

theorem fromUTF8?_eq_some_iff : String.fromUTF8? ⟨bytes.toArray⟩ = some text ↔ utf8 text = bytes := by
  unfold String.fromUTF8?
  constructor
  · intro h
    split at h
    · cases h
      exact List.toList_toArray
    · cases h
  · rintro rfl
    exact dif_pos text.isValidUTF8

theorem fromUTF8?_eq_none_iff :
    String.fromUTF8? ⟨bytes.toArray⟩ = none ↔ ∀ text, utf8 text ≠ bytes := by
  rw [Option.eq_none_iff_forall_not_mem]
  exact forall_congr' fun text => not_congr fromUTF8?_eq_some_iff

theorem utf8_eq_flatMap (text : String) :
    utf8 text = text.toList.flatMap String.utf8EncodeChar := by
  rw [utf8, String.toUTF8_eq_toByteArray, ← String.utf8Encode_toList, List.utf8Encode,
    List.data_toByteArray]

theorem utf8_ofList (l : List Char) :
    utf8 (String.ofList l) = l.flatMap String.utf8EncodeChar := by
  rw [utf8_eq_flatMap, String.toList_ofList]

/-- The bytes of a character behind its first are no characters of their own. -/
theorem eq_return_of_getLast? {c : Char}
    (h : (String.utf8EncodeChar c).getLast? = some carriageReturn) : c = '\r' := by
  have hbyte : ∀ n, UInt8.ofNat n = carriageReturn → n % 256 = 13 := fun n hn =>
    congrArg UInt8.toNat hn
  have hchar : c.val.toNat = 13 → c = '\r' := fun hval => Char.toNat_inj.1 hval
  unfold String.utf8EncodeChar at h
  dsimp only at h
  split at h
  · have hval := hbyte _ (Option.some.inj h)
    exact hchar (by omega)
  · -- every other character ends in a byte from 128 on
    have hlast : ∀ n, UInt8.ofNat (n % 64 + 128) ≠ carriageReturn := fun n hn => by
      have hval := hbyte _ hn
      omega
    split at h
    · exact absurd (Option.some.inj h) (hlast _)
    · split at h
      · exact absurd (Option.some.inj h) (hlast _)
      · exact absurd (Option.some.inj h) (hlast _)

theorem utf8_eq_append_return_iff :
    utf8 text = line ++ [carriageReturn] ↔
      ∃ front : List Char, text.toList = front ++ ['\r'] ∧ utf8 (String.ofList front) = line := by
  simp only [utf8_ofList, utf8_eq_flatMap text]
  constructor
  · intro h
    rcases List.eq_nil_or_concat text.toList with hnil | ⟨front, c, htext⟩
    · simp [hnil] at h
    · rw [htext, List.concat_eq_append, List.flatMap_append, List.flatMap_singleton] at h
      have hlast := congrArg List.getLast? h
      rw [List.getLast?_append_of_ne_nil _ String.utf8EncodeChar_ne_nil, List.getLast?_concat] at hlast
      obtain rfl := eq_return_of_getLast? hlast
      exact ⟨front, by rw [htext, List.concat_eq_append], List.append_cancel_right h⟩
  · rintro ⟨front, htext, rfl⟩
    rw [htext, List.flatMap_append]
    rfl

end CacheHierarchy.Text
