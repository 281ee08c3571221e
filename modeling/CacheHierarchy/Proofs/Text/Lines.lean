import CacheHierarchy.Text.Cut
import Mathlib.Data.List.Forall2

/-!
# The lines of a sequence of bytes

`IsLines` says what the lines of bytes are, by what stands in front of the first newline, and
`lines_eq_iff` that cutting finds them. Every sequence of bytes is a piece without newlines or such a
piece, a newline and a shorter sequence; `newlineInduction` is the induction along this, and what is
said here of the lines of other bytes is proved by it.

Bytes that end in a newline have their lines in front of those of what follows (`lines_append`), and
carriage returns put in front of the newlines are dropped again, but for a line that had one at its
end already (`forall₂_lines_withReturns`).
-/

namespace CacheHierarchy.Text

abbrev newline : UInt8 := 10

abbrev carriageReturn : UInt8 := 13

/-- The lines of bytes: each ends at a newline, and the last one may do without it if it is not
empty. A carriage return directly in front of a newline is not part of the line. -/
inductive IsLines : List UInt8 → List (List UInt8) → Prop
  | empty : IsLines [] []
  | unended {line : List UInt8} (hne : line ≠ []) (hline : newline ∉ line) : IsLines line [line]
  | ended {line rest : List UInt8} {lines : List (List UInt8)} (hline : newline ∉ line)
      (hlast : line.getLast? ≠ some carriageReturn) (hrest : IsLines rest lines) :
      IsLines (line ++ newline :: rest) (line :: lines)
  | returned {line rest : List UInt8} {lines : List (List UInt8)} (hline : newline ∉ line)
      (hrest : IsLines rest lines) :
      IsLines (line ++ carriageReturn :: newline :: rest) (line :: lines)

/-- Bytes are a piece without newlines, or one in front of a newline and other bytes. -/
@[elab_as_elim]
theorem newlineInduction {motive : List UInt8 → Prop}
    (last : ∀ piece, newline ∉ piece → motive piece)
    (more : ∀ piece rest, newline ∉ piece → motive rest → motive (piece ++ newline :: rest))
    (bytes : List UInt8) : motive bytes := by
  induction hlength : bytes.length using Nat.strongRecOn generalizing bytes with
  | _ length ih =>
    by_cases hmem : newline ∈ bytes
    · obtain ⟨piece, rest, rfl, hpiece⟩ := List.eq_append_cons_of_mem hmem
      refine more piece rest hpiece (ih rest.length ?_ rest rfl)
      rw [← hlength, List.length_append, List.length_cons]
      omega
    · exact last bytes hmem

variable {line piece rest front back bytes : List UInt8}

/-! ### Cutting -/

theorem dropReturn_append_return (line : List UInt8) :
    dropReturn (line ++ [carriageReturn]) = line := by
  simp [dropReturn]

theorem dropReturn_of_ne (h : line.getLast? ≠ some carriageReturn) : dropReturn line = line :=
  if_neg h

theorem eq_dropReturn_or (line : List UInt8) :
    line = dropReturn line ∧ line.getLast? ≠ some carriageReturn ∨
      line = dropReturn line ++ [carriageReturn] := by
  by_cases h : line.getLast? = some carriageReturn
  · obtain ⟨front, rfl⟩ := List.getLast?_eq_some_iff.1 h
    exact .inr (by rw [dropReturn_append_return])
  · exact .inl ⟨(dropReturn_of_ne h).symm, h⟩

theorem not_newline (h : newline ∉ piece) : ∀ b ∈ piece, (b == (10 : UInt8)) = false := by
  intro b hb
  refine beq_false_of_ne ?_
  rintro rfl
  exact h hb

theorem lines_of_not_mem (h : newline ∉ piece) (hne : piece ≠ []) : lines piece = [piece] := by
  simp [lines, cut_of_forall_not (not_newline h), hne]

/-- A newline ends the first line. -/
theorem lines_append_newline (h : newline ∉ piece) (rest : List UInt8) :
    lines (piece ++ newline :: rest) = dropReturn piece :: lines rest := by
  have hne := cut_ne_nil (· == (10 : UInt8)) rest
  rw [lines, cut_append_cons (not_newline h) rfl, List.dropLast_cons_of_ne_nil hne,
    List.getLast?_cons_of_ne_nil hne]
  rfl

theorem isLines_lines (bytes : List UInt8) : IsLines bytes (lines bytes) := by
  induction bytes using newlineInduction with
  | last piece h =>
    by_cases hne : piece = []
    · subst hne
      exact .empty
    · rw [lines_of_not_mem h hne]
      exact .unended hne h
  | more piece rest h ih =>
    rw [lines_append_newline h]
    rcases eq_dropReturn_or piece with ⟨hdrop, hlast⟩ | hdrop
    · rw [← hdrop]
      exact .ended h hlast ih
    · have hmem : newline ∉ dropReturn piece := fun hmem =>
        h (hdrop ▸ List.mem_append_left _ hmem)
      have hreturned := IsLines.returned hmem ih
      rwa [List.append_cons, ← hdrop] at hreturned

theorem IsLines.lines_eq {found : List (List UInt8)} (h : IsLines bytes found) :
    lines bytes = found := by
  induction h with
  | empty => rfl
  | unended hne hline => exact lines_of_not_mem hline hne
  | ended hline hlast _ ih => rw [lines_append_newline hline, dropReturn_of_ne hlast, ih]
  | returned hline _ ih =>
    have hmem : newline ∉ _ ++ [carriageReturn] := fun hmem =>
      hline (by simpa [newline, carriageReturn] using hmem)
    rw [List.append_cons, lines_append_newline hmem, dropReturn_append_return, ih]

/-- Cutting finds the lines. -/
theorem lines_eq_iff {found : List (List UInt8)} : lines bytes = found ↔ IsLines bytes found :=
  ⟨fun h => h ▸ isLines_lines bytes, IsLines.lines_eq⟩

/-! ### Other bytes -/

def IsEnded (bytes : List UInt8) : Prop := bytes = [] ∨ bytes.getLast? = some newline

theorem lines_append (h : IsEnded front) (back : List UInt8) :
    lines (front ++ back) = lines front ++ lines back := by
  induction front using newlineInduction with
  | last piece hpiece =>
    have hnil : piece = [] := h.resolve_right fun hlast => hpiece (List.mem_of_getLast? hlast)
    rw [hnil, List.nil_append, lines_nil, List.nil_append]
  | more piece rest hpiece ih =>
    have hrest : IsEnded rest := by
      by_cases hnil : rest = []
      · exact .inl hnil
      · refine .inr (h.resolve_left (by simp) ▸ ?_)
        rw [List.getLast?_append_of_ne_nil _ (List.cons_ne_nil _ _),
          List.getLast?_cons_of_ne_nil hnil]
    rw [List.append_assoc, List.cons_append, lines_append_newline hpiece,
      lines_append_newline hpiece, ih hrest, List.cons_append]

/-- The bytes with a carriage return in front of every newline. -/
def withReturns (bytes : List UInt8) : List UInt8 :=
  bytes.flatMap fun b => if b = newline then [carriageReturn, newline] else [b]

theorem withReturns_of_not_mem (h : newline ∉ piece) : withReturns piece = piece := by
  induction piece with
  | nil => rfl
  | cons b piece ih =>
    obtain ⟨hb, hpiece⟩ := not_or.1 (List.mem_cons.not.1 h)
    rw [withReturns, List.flatMap_cons, if_neg (Ne.symm hb), ← withReturns, ih hpiece,
      List.singleton_append]

theorem withReturns_append_newline (h : newline ∉ piece) (rest : List UInt8) :
    withReturns (piece ++ newline :: rest) =
      (piece ++ [carriageReturn]) ++ newline :: withReturns rest := by
  rw [withReturns, List.flatMap_append, ← withReturns, withReturns_of_not_mem h, List.flatMap_cons,
    if_pos rfl, ← withReturns, List.append_assoc]
  rfl

def MayReturn (line line' : List UInt8) : Prop := line' = line ∨ line' = line ++ [carriageReturn]

theorem forall₂_lines_withReturns (bytes : List UInt8) :
    List.Forall₂ MayReturn (lines bytes) (lines (withReturns bytes)) := by
  induction bytes using newlineInduction with
  | last piece h =>
    rw [withReturns_of_not_mem h]
    exact List.forall₂_same.2 fun _ _ => .inl rfl
  | more piece rest h ih =>
    have hmem : newline ∉ piece ++ [carriageReturn] := fun hmem =>
      h (by simpa [newline, carriageReturn] using hmem)
    rw [withReturns_append_newline h, lines_append_newline h, lines_append_newline hmem,
      dropReturn_append_return]
    refine .cons ?_ ih
    rcases eq_dropReturn_or piece with ⟨hdrop, -⟩ | hdrop
    · exact .inl hdrop
    · exact .inr hdrop

end CacheHierarchy.Text
