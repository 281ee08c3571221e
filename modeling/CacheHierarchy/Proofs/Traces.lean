import CacheHierarchy.Proofs.Text.Encoding
import CacheHierarchy.Proofs.Text.Fields
import CacheHierarchy.Trace.Basic

/-!
# Reading traces

A trace is read if every one of its lines is a text that holds a record or nothing, and its records
are those of its lines in their order. Any other bytes are refused for the first line that is no such
text, and the error names the number of that line.

As the lines of bytes behind a newline are read on their own, traces can be joined; and as a carriage
return at the end of a line is white space, it does not matter whether newlines have one in front.
-/

namespace CacheHierarchy.Trace

open Text

variable {number : Nat} {line line' bytes front back : List UInt8} {lines : List (List UInt8)}
  {found : Option TraceRecord} {records records' : List TraceRecord} {error : Error}

/-! ### One line -/

/-- The bytes are those of a text that holds this record, or nothing. -/
def Holds (line : List UInt8) (found : Option TraceRecord) : Prop :=
  ∃ text, utf8 text = line ∧ ofLine text.toList = .ok found

/-- The bytes are those of no text, or of one that is refused, and the error says so of the line with
this number. -/
inductive Fails (number : Nat) (line : List UInt8) : Error → Prop
  | notText (h : ∀ text, utf8 text ≠ line) : Fails number line (.notText number)
  | badLine {text : String} {cause : LineError} (htext : utf8 text = line)
      (hcause : ofLine text.toList = .error cause) : Fails number line (.badLine number text cause)

/-- The outermost message of an error is about the line with this number. -/
def Error.Names (error : Error) (number : Nat) : Prop :=
  error.chain.head? = some ("cannot read trace line " ++ toString number) ∨
    ∃ text, error.chain.head? = some ("trace line " ++ toString number ++ ": '" ++ text ++ "'")

theorem Fails.names (h : Fails number line error) : error.Names number := by
  cases h with
  | notText h => exact .inl rfl
  | badLine htext hcause => exact .inr ⟨_, rfl⟩

theorem ofBytesLine_eq_ok_iff : ofBytesLine number line = .ok found ↔ Holds line found := by
  simp only [ofBytesLine, Holds, ← fromUTF8?_eq_some_iff]
  cases String.fromUTF8? ⟨line.toArray⟩ with
  | none => simp
  | some text => cases hline : ofLine text.toList <;> simp [Except.mapError, hline]

theorem ofBytesLine_eq_error_iff :
    ofBytesLine number line = .error error ↔ Fails number line error := by
  rw [ofBytesLine]
  constructor
  · intro h
    cases htext : String.fromUTF8? ⟨line.toArray⟩ with
    | none =>
      rw [htext] at h
      cases h
      exact .notText (fromUTF8?_eq_none_iff.1 htext)
    | some text =>
      rw [htext] at h
      cases hcause : ofLine text.toList with
      | error cause =>
        simp only [hcause, Except.mapError, Except.error.injEq] at h
        exact h ▸ .badLine (fromUTF8?_eq_some_iff.1 htext) hcause
      | ok found => simp [hcause, Except.mapError] at h
  · rintro (h | ⟨htext, hcause⟩)
    · rw [fromUTF8?_eq_none_iff.2 h]
    · simp [fromUTF8?_eq_some_iff.2 htext, hcause, Except.mapError]

theorem ofLine_append_return (text : List Char) : ofLine (text ++ ['\r']) = ofLine text := by
  have hfields : fields (beforeComment (text ++ ['\r'])) = fields (beforeComment text) := by
    have hblank : AllBlank ['\r'] := by decide
    rw [beforeComment, List.takeWhile_append]
    split
    · next hall =>
      rw [beforeComment, (List.takeWhile_prefix _).eq_of_length hall]
      exact fields_append_right hblank text
    · rfl
  rw [ofLine, hfields, ← ofLine]

theorem holds_of_mayReturn (h : MayReturn line line') : Holds line' found ↔ Holds line found := by
  rcases h with rfl | rfl
  · rfl
  · simp only [Holds, utf8_eq_append_return_iff]
    constructor
    · rintro ⟨text, ⟨front, htext, hfront⟩, hfound⟩
      rw [htext, ofLine_append_return, ← String.toList_ofList (l := front)] at hfound
      exact ⟨_, hfront, hfound⟩
    · rintro ⟨text, htext, hfound⟩
      refine ⟨String.ofList (text.toList ++ ['\r']), ⟨text.toList, String.toList_ofList, ?_⟩, ?_⟩
      · rw [String.ofList_toList, htext]
      · rw [String.toList_ofList, ofLine_append_return, hfound]

/-! ### All lines -/

section Except

variable {α β ε : Type} {f : α → Except ε β} {l : List α}

theorem mapM_eq_ok_iff {results : List β} :
    l.mapM f = .ok results ↔ List.Forall₂ (fun a b => f a = .ok b) l results := by
  induction l generalizing results with
  | nil => cases results <;> simp [pure, Except.pure]
  | cons a l ih =>
    rw [List.mapM_cons]
    cases hfirst : f a with
    | error e => cases results <;> simp [bind, Except.bind, hfirst]
    | ok b =>
      cases hrest : l.mapM f with
      | error e => cases results <;> simp [bind, Except.bind, hfirst, hrest, ← ih]
      | ok rest => cases results <;> simp [bind, Except.bind, pure, Except.pure, hfirst, hrest, ← ih]

/-- What fails first is reported. -/
theorem mapM_eq_error_iff {e : ε} :
    l.mapM f = .error e ↔ ∃ before a after, l = before ++ a :: after ∧
      (∀ a ∈ before, ∃ b, f a = .ok b) ∧ f a = .error e := by
  induction l with
  | nil => simp [pure, Except.pure]
  | cons a l ih =>
    rw [List.mapM_cons]
    cases hfirst : f a with
    | error e' =>
      change Except.error e' = Except.error e ↔ _
      constructor
      · intro h
        obtain rfl := Except.error.inj h
        exact ⟨[], a, l, rfl, by simp, hfirst⟩
      · rintro ⟨before, a', after, hl, hbefore, ha'⟩
        cases before with
        | nil =>
          cases hl
          rw [Except.error.inj (hfirst.symm.trans ha')]
        | cons a'' before =>
          cases hl
          obtain ⟨b, hb⟩ := hbefore a List.mem_cons_self
          cases hfirst.symm.trans hb
    | ok b =>
      have hrest : (do let rest ← l.mapM f; return b :: rest : Except ε (List β)) = .error e ↔
          l.mapM f = .error e := by
        cases l.mapM f <;> simp [bind, Except.bind, pure, Except.pure]
      refine (hrest.trans ih).trans ⟨?_, ?_⟩
      · rintro ⟨before, a', after, rfl, hbefore, ha'⟩
        refine ⟨a :: before, a', after, rfl, ?_, ha'⟩
        exact List.forall_mem_cons.2 ⟨⟨b, hfirst⟩, hbefore⟩
      · rintro ⟨before, a', after, hl, hbefore, ha'⟩
        cases before with
        | nil =>
          cases hl
          cases hfirst.symm.trans ha'
        | cons a'' before =>
          cases hl
          exact ⟨before, a', after, rfl, (List.forall_mem_cons.1 hbefore).2, ha'⟩

end Except

theorem ofBytes_eq (bytes : List UInt8) :
    ofBytes bytes = (((Text.lines bytes).zipIdx 1).mapM fun x => ofBytesLine x.2 x.1).map
      (List.filterMap id) := by
  rw [ofBytes]
  cases ((Text.lines bytes).zipIdx 1).mapM fun x => ofBytesLine x.2 x.1 <;> rfl

theorem ofBytes_eq_ok_iff_lines :
    ofBytes bytes = .ok records ↔
      ∃ found, List.Forall₂ Holds (Text.lines bytes) found ∧ records = found.filterMap id := by
  have hholds : ∀ found, List.Forall₂ Holds (Text.lines bytes) found ↔
      ((Text.lines bytes).zipIdx 1).mapM (fun x => ofBytesLine x.2 x.1) = .ok found := fun found => by
    rw [mapM_eq_ok_iff]
    simp only [ofBytesLine_eq_ok_iff]
    conv_lhs => rw [← List.zipIdx_map_fst 1 (Text.lines bytes), List.forall₂_map_left_iff]
  simp only [ofBytes_eq, hholds]
  cases ((Text.lines bytes).zipIdx 1).mapM fun x => ofBytesLine x.2 x.1 <;>
    simp [Except.map, eq_comm]

/-- The first line that holds nothing and no record is the one that is reported. -/
theorem ofBytes_eq_error_iff_lines :
    ofBytes bytes = .error error ↔ ∃ before line after,
      Text.lines bytes = before ++ line :: after ∧ (∀ line ∈ before, ∃ found, Holds line found) ∧
        Fails (before.length + 1) line error := by
  have hmap : ofBytes bytes = .error error ↔
      ((Text.lines bytes).zipIdx 1).mapM (fun x => ofBytesLine x.2 x.1) = .error error := by
    rw [ofBytes_eq]
    cases ((Text.lines bytes).zipIdx 1).mapM fun x => ofBytesLine x.2 x.1 <;> simp [Except.map]
  rw [hmap, mapM_eq_error_iff]
  simp only [ofBytesLine_eq_ok_iff, ofBytesLine_eq_error_iff]
  constructor
  · rintro ⟨before, ⟨line, number⟩, after, hlines, hbefore, hfails⟩
    obtain ⟨front, rest, hsplit, hfront, hrest⟩ := List.zipIdx_eq_append_iff.1 hlines
    obtain ⟨_, back, rfl, hhead, -⟩ := List.zipIdx_eq_cons_iff.1 hrest.symm
    cases hhead
    subst hfront
    refine ⟨front, _, back, hsplit, fun l hl => ?_, Nat.add_comm 1 _ ▸ hfails⟩
    rw [← List.zipIdx_map_fst 1 front] at hl
    obtain ⟨x, hx, rfl⟩ := List.mem_map.1 hl
    exact hbefore x hx
  · rintro ⟨before, line, after, hlines, hbefore, hfails⟩
    refine ⟨before.zipIdx 1, (line, before.length + 1), after.zipIdx (before.length + 2), ?_,
      fun x hx => hbefore _ (List.fst_mem_of_mem_zipIdx hx), hfails⟩
    rw [hlines, List.zipIdx_append, List.zipIdx_cons, Nat.add_comm 1]

/-! ### Other bytes -/

theorem ofBytes_append (hfront : IsEnded front) (h : ofBytes front = .ok records)
    (h' : ofBytes back = .ok records') : ofBytes (front ++ back) = .ok (records ++ records') := by
  obtain ⟨found, hfound, rfl⟩ := ofBytes_eq_ok_iff_lines.1 h
  obtain ⟨found', hfound', rfl⟩ := ofBytes_eq_ok_iff_lines.1 h'
  refine ofBytes_eq_ok_iff_lines.2 ⟨found ++ found', ?_, List.filterMap_append.symm⟩
  rw [lines_append hfront]
  exact List.rel_append hfound hfound'

theorem ofBytes_withReturns_eq_ok_iff :
    ofBytes (withReturns bytes) = .ok records ↔ ofBytes bytes = .ok records := by
  have hholds : ∀ {l l' : List (List UInt8)}, List.Forall₂ MayReturn l l' → ∀ found,
      (List.Forall₂ Holds l' found ↔ List.Forall₂ Holds l found) := fun h => by
    induction h with
    | nil => exact fun _ => Iff.rfl
    | cons hline _ ih =>
      intro found
      cases found with
      | nil => simp
      | cons first found => simp only [List.forall₂_cons, holds_of_mayReturn hline, ih found]
  simp only [ofBytes_eq_ok_iff_lines, hholds (forall₂_lines_withReturns bytes)]

/-! ### Reading -/

/-- Bytes have lines in one way only. They are read if every line holds a record or nothing, and the
first line that does not is the one that the error names. What is read is read from joined traces and
from lines that end in a carriage return as well. -/
theorem ofBytes_extends_ofLine :
    (∀ bytes, ∃! lines, IsLines bytes lines) ∧
      (∀ bytes records, ofBytes bytes = .ok records ↔ ∃ lines found, IsLines bytes lines ∧
        List.Forall₂ Holds lines found ∧ records = found.filterMap id) ∧
      (∀ bytes error, ofBytes bytes = .error error ↔ ∃ before line after,
        IsLines bytes (before ++ line :: after) ∧ (∀ line ∈ before, ∃ found, Holds line found) ∧
          Fails (before.length + 1) line error ∧ error.Names (before.length + 1)) ∧
      (∀ front back records records', IsEnded front → ofBytes front = .ok records →
        ofBytes back = .ok records' → ofBytes (front ++ back) = .ok (records ++ records')) ∧
      ∀ bytes records, ofBytes (withReturns bytes) = .ok records ↔ ofBytes bytes = .ok records := by
  refine ⟨fun bytes => ⟨_, isLines_lines bytes, fun _ h => h.lines_eq.symm⟩,
    fun bytes records => ?_, fun bytes error => ?_, fun _ _ _ _ => ofBytes_append,
    fun _ _ => ofBytes_withReturns_eq_ok_iff⟩
  · simp only [ofBytes_eq_ok_iff_lines, ← lines_eq_iff, exists_and_left, exists_eq_left']
  · rw [ofBytes_eq_error_iff_lines]
    simp only [← lines_eq_iff, and_iff_left_of_imp Fails.names]

/-- A write on a line of its own and a line of comment, in front of a read without a newline, and the
first line of a trace that is refused for its third. -/
theorem ofBytes_extends_ofLine_joined :
    ofBytes (utf8 "w 10\r\n# no record\n" ++ utf8 "r 0x20") =
        .ok ([⟨.write, 0x10⟩] ++ [⟨.read, 0x20⟩]) ∧
      ∃ before line after, IsLines (utf8 "w 10\n\n5 20\nr") (before ++ line :: after) ∧
        (∀ line ∈ before, ∃ found, Holds line found) ∧
          Fails (before.length + 1) line (.badLine 3 "5 20" (.unknownKind ['5'])) ∧
            (Error.badLine 3 "5 20" (.unknownKind ['5'])).Names (before.length + 1) :=
  ⟨ofBytes_extends_ofLine.2.2.2.1 _ _ _ _ (.inr rfl) rfl rfl,
    (ofBytes_extends_ofLine.2.2.1 _ _).1 rfl⟩

end CacheHierarchy.Trace
