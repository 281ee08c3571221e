import CacheHierarchy.Text.Blank

/-!
# Cutting text into pieces

`cut p` cuts a list at each element that satisfies `p` and drops that element; there is always at
least one piece, and the pieces joined again give the list back. Fields and lines are cut this way.
Fields are separated by white space, and an empty piece is no field. Lines end at a newline byte:
a carriage return directly before the newline belongs to the line's end, and nothing follows the
last newline.
-/

namespace CacheHierarchy.Text

variable {α : Type}

/-- An element in front of a list of pieces: a separator starts a new piece, any other element
joins the first. -/
def cutStep (p : α → Bool) (a : α) (pieces : List (List α)) : List (List α) :=
  if p a then [] :: pieces
  else match pieces with
    | [] => [[a]]
    | piece :: rest => (a :: piece) :: rest

/-- The pieces between the elements that satisfy `p`. -/
def cut (p : α → Bool) (l : List α) : List (List α) := l.foldr (cutStep p) [[]]

def fields (text : List Char) : List (List Char) :=
  (cut isBlank text).filter fun piece => !piece.isEmpty

/-- A line without the carriage return at its end, if it has one. -/
def dropReturn (line : List UInt8) : List UInt8 :=
  if line.getLast? = some 13 then line.dropLast else line

def lines (bytes : List UInt8) : List (List UInt8) :=
  let pieces := cut (· == 10) bytes
  let last := pieces.getLast?.getD []
  pieces.dropLast.map dropReturn ++ if last.isEmpty then [] else [last]

@[simp] theorem cut_nil (p : α → Bool) : cut p [] = [[]] := rfl

theorem cut_cons (p : α → Bool) (a : α) (l : List α) : cut p (a :: l) = cutStep p a (cut p l) := rfl

theorem cut_ne_nil (p : α → Bool) (l : List α) : cut p l ≠ [] := by
  cases l with
  | nil => simp
  | cons a l =>
    rw [cut_cons, cutStep.eq_def]
    split
    · simp
    · split <;> simp

/-- A list without separators is one piece. -/
theorem cut_of_forall_not {p : α → Bool} {l : List α} (h : ∀ a ∈ l, p a = false) :
    cut p l = [l] := by
  induction l with
  | nil => rfl
  | cons a l ih =>
    have ha : p a = false := h a (by simp)
    rw [cut_cons, cutStep.eq_def, ih fun b hb => h b (by simp [hb])]
    simp [ha]

/-- Cutting takes off one piece after the other. -/
theorem cut_append_cons {p : α → Bool} {l : List α} (h : ∀ a ∈ l, p a = false) {mark : α}
    (hmark : p mark = true) (rest : List α) : cut p (l ++ mark :: rest) = l :: cut p rest := by
  induction l with
  | nil => simp [cut_cons, cutStep, hmark]
  | cons a l ih =>
    have ha : p a = false := h a (by simp)
    rw [List.cons_append, cut_cons, cutStep.eq_def, ih fun b hb => h b (by simp [hb])]
    simp [ha]

@[simp] theorem lines_nil : lines [] = [] := rfl

end CacheHierarchy.Text
