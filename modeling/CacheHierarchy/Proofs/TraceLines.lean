import CacheHierarchy.Proofs.Text.Fields
import CacheHierarchy.Proofs.Text.Hexadecimal
import CacheHierarchy.Trace.Line

/-!
# The grammar of trace lines

What a line says is said of its content: the text in front of its first number sign, trimmed. An
empty content says nothing, and a content that denotes a record is a token, a gap and a numeral.
Reading a line finds the record its content denotes, if there is one, and refuses every other line
that is not empty. A record may be printed in many ways, and each of them reads back to it.
-/

namespace CacheHierarchy

/-! ### Tokens -/

namespace AccessKind

def tokens : List (String × AccessKind) :=
  [("0", read), ("r", read), ("read", read), ("1", write), ("w", write), ("write", write),
    ("2", instFetch), ("i", instFetch), ("ifetch", instFetch), ("inst_fetch", instFetch)]

/-- `field` is a token of the kind, whatever the case of its letters. -/
def Spells (field : List Char) (kind : AccessKind) : Prop :=
  ∃ token, (token, kind) ∈ tokens ∧ field.map Char.toLower = token.toList

theorem mem_tokens_iff {word : String} {kind : AccessKind} :
    (word, kind) ∈ tokens ↔ kind.words.contains word = true := by
  cases kind <;> simp [tokens, words]

theorem find?_eq_some_iff_mem_tokens {word : String} {kind : AccessKind} :
    demandKinds.find? (fun kind => kind.words.contains word) = some kind ↔
      (word, kind) ∈ tokens := by
  constructor
  · intro h
    exact mem_tokens_iff.2 (by simpa using List.find?_some h)
  · intro h
    have hfirst : ∀ token ∈ tokens,
        demandKinds.find? (fun kind => kind.words.contains token.1) = some token.2 := by decide
    exact hfirst (word, kind) h

theorem ofWord?_eq_some_iff {field : List Char} {kind : AccessKind} :
    ofWord? field = some kind ↔ Spells field kind := by
  rw [ofWord?, find?_eq_some_iff_mem_tokens]
  constructor
  · intro h
    exact ⟨_, h, String.toList_ofList.symm⟩
  · rintro ⟨token, htoken, hfield⟩
    rwa [hfield, String.ofList_toList]

end AccessKind

namespace Trace

open Text AccessKind

variable {line field kind addr : List Char} {record : TraceRecord}

/-- The text of a line in front of its first number sign, trimmed. -/
def content (line : List Char) : List Char := trim (line.takeWhile (· != '#'))

/-- `text` has two fields, a token for the kind and a numeral for the address. -/
def Denotes (text : List Char) (record : TraceRecord) : Prop :=
  ∃ kind gap addr, text = kind ++ (gap ++ addr) ∧ IsWord kind ∧ IsGap gap ∧ IsWord addr ∧
    Spells kind record.kind ∧ IsMarkedNumeral addr record.addr ∧ record.addr < wordLimit

theorem ofFields_eq_ok_iff :
    ofFields kind addr = .ok record ↔
      Spells kind record.kind ∧ IsMarkedNumeral addr record.addr ∧ record.addr < wordLimit := by
  rw [← ofWord?_eq_some_iff, and_comm (a := IsMarkedNumeral _ _), ← readHex_dropHexMark_eq_ok_iff,
    ofFields]
  cases hkind : ofWord? kind with
  | none => simp
  | some demand =>
    cases haddr : readHex (dropHexMark addr) with
    | error cause => simp
    | ok n =>
      cases record
      simp

theorem ofLine_eq_none_iff : ofLine line = .ok none ↔ content line = [] := by
  rw [content, trim_eq_nil_iff, ← fields_eq_nil_iff, ← beforeComment, ofLine]
  split
  · simp [*]
  · simp [*]
  · next kind addr hfields => cases ofFields kind addr <;> simp [hfields, Except.map]
  · simp [*]

theorem ofLine_eq_some_iff_fields :
    ofLine line = .ok (some record) ↔
      ∃ kind addr, fields (beforeComment line) = [kind, addr] ∧ ofFields kind addr = .ok record := by
  rw [ofLine]
  split
  · simp [*]
  · simp [*]
  · next kind addr hfields =>
    cases hrecord : ofFields kind addr <;> simp_all [Except.map]
  · simp [*]

theorem ofLine_eq_some_iff : ofLine line = .ok (some record) ↔ Denotes (content line) record := by
  simp only [ofLine_eq_some_iff_fields, fields_eq_pair_iff, ofFields_eq_ok_iff, Denotes]
  constructor
  · rintro ⟨kind, addr, ⟨hkind, haddr, gap, hgap, hcontent⟩, hrecord⟩
    exact ⟨kind, gap, addr, hcontent, hkind, hgap, haddr, hrecord⟩
  · rintro ⟨kind, gap, addr, hcontent, hkind, hgap, haddr, hrecord⟩
    exact ⟨kind, addr, ⟨hkind, haddr, gap, hgap, hcontent⟩, hrecord⟩

/-! ### Plain text

A line that is printed has its first number sign where the comment starts, as there is none in
white space, in tokens and in numerals. -/

def IsPlain (text : List Char) : Prop := ∀ c ∈ text, isBlank c = false ∧ c ≠ '#'

instance : Decidable (IsPlain field) :=
  decidable_of_iff (field.all fun c => !isBlank c && c != '#') (by simp [IsPlain])

theorem IsPlain.isWord (h : IsPlain field) (hne : field ≠ []) : IsWord field :=
  ⟨hne, fun c hc => (h c hc).1⟩

theorem IsPlain.of_map_toLower (h : IsPlain (field.map Char.toLower)) : IsPlain field := by
  intro c hc
  obtain ⟨hblank, hsign⟩ := h c.toLower (List.mem_map_of_mem hc)
  refine ⟨isBlank_toLower c ▸ hblank, ?_⟩
  rintro rfl
  exact hsign rfl

theorem isPlain_of_spells {demand : AccessKind} (h : Spells field demand) : IsPlain field := by
  obtain ⟨token, htoken, hfield⟩ := h
  have hplain : ∀ pair ∈ tokens, IsPlain pair.1.toList := by decide
  exact .of_map_toLower (hfield ▸ hplain _ htoken)

theorem ne_nil_of_spells {demand : AccessKind} (h : Spells field demand) : field ≠ [] := by
  obtain ⟨token, htoken, hfield⟩ := h
  have hne : ∀ pair ∈ tokens, pair.1.toList ≠ [] := by decide
  rintro rfl
  exact hne _ htoken hfield.symm

theorem isPlain_of_isNumeral {n : Nat} (h : IsNumeral field n) : IsPlain field := by
  have hplain : ∀ d < 16, isBlank d.digitChar = false ∧ d.digitChar ≠ '#' := by decide
  refine .of_map_toLower fun c hc => ?_
  obtain ⟨digit, hdigit, rfl⟩ := List.mem_map.1 hc
  obtain ⟨d, hd, hlower⟩ := h.isHexDigit hdigit
  exact hlower ▸ hplain d hd

theorem ne_of_allBlank (h : AllBlank field) : ∀ c ∈ field, c ≠ '#' := by
  rintro c hc rfl
  exact absurd (h _ hc) (by decide)

/-! ### Printed lines -/

/-- A record on a line: a token of its kind and its address in base sixteen, white space between
and around the two, and behind them a comment or nothing. -/
structure PrintedLine where
  record : TraceRecord
  token : List Char
  mark : List Char
  zeros : Nat
  digits : List Char
  before : List Char
  gap : List Char
  after : List Char
  comment : List Char
  addr_lt : record.addr < wordLimit
  token_spells : Spells token record.kind
  mark_mem : mark ∈ hexMarks
  map_digits : digits.map Char.toLower =
    List.replicate zeros '0' ++ (hexDigits record.addr).toList
  before_blank : AllBlank before
  gap_isGap : IsGap gap
  after_blank : AllBlank after
  comment_head : ∀ c ∈ comment.head?, c = '#'

namespace PrintedLine

variable (printed : PrintedLine)

def numeral : List Char := printed.mark ++ printed.digits

def text : List Char :=
  (printed.before ++ (printed.token ++ (printed.gap ++ (printed.numeral ++ printed.after)))) ++
    printed.comment

theorem isNumeral_digits : IsNumeral printed.digits printed.record.addr :=
  .of_hexDigits printed.map_digits

theorem isPlain_numeral : IsPlain printed.numeral := by
  have hmark : ∀ mark ∈ hexMarks, IsPlain mark := by decide
  intro c hc
  rcases List.mem_append.1 hc with hc | hc
  · exact hmark _ printed.mark_mem c hc
  · exact isPlain_of_isNumeral printed.isNumeral_digits c hc

theorem isWord_numeral : IsWord printed.numeral :=
  printed.isPlain_numeral.isWord (by simp [numeral, printed.isNumeral_digits.1])

theorem isWord_token : IsWord printed.token :=
  (isPlain_of_spells printed.token_spells).isWord (ne_nil_of_spells printed.token_spells)

theorem isMarkedNumeral_numeral : IsMarkedNumeral printed.numeral printed.record.addr :=
  ⟨_, printed.mark_mem, _, rfl, [], by simp, _, rfl, printed.isNumeral_digits⟩

theorem content_text :
    content printed.text = printed.token ++ (printed.gap ++ printed.numeral) := by
  have hfront : ∀ c ∈ printed.before ++ (printed.token ++ (printed.gap ++
      (printed.numeral ++ printed.after))), (c != '#') = true := by
    have hbefore := ne_of_allBlank printed.before_blank
    have htoken := isPlain_of_spells printed.token_spells
    have hgap := ne_of_allBlank printed.gap_isGap.blank
    have hnumeral := printed.isPlain_numeral
    have hafter := ne_of_allBlank printed.after_blank
    intro c hc
    simp only [List.mem_append, bne_iff_ne] at hc ⊢
    rcases hc with hc | hc | hc | hc | hc
    · exact hbefore c hc
    · exact (htoken c hc).2
    · exact hgap c hc
    · exact (hnumeral c hc).2
    · exact hafter c hc
  have hcomment : printed.comment.takeWhile (· != '#') = [] := by
    have hhead := printed.comment_head
    cases h : printed.comment <;> simp_all
  rw [content, text, List.takeWhile_append_of_pos hfront, hcomment, List.append_nil]
  exact trim_append_word_append printed.before_blank printed.isWord_token printed.isWord_numeral
    printed.after_blank

/-- The content of a printed line denotes the record printed. -/
theorem denotes_content : Denotes (content printed.text) printed.record :=
  ⟨_, _, _, printed.content_text, printed.isWord_token, printed.gap_isGap, printed.isWord_numeral,
    printed.token_spells, printed.isMarkedNumeral_numeral, printed.addr_lt⟩

end PrintedLine

/-! ### Reading -/

/-- An empty content holds nothing, a content that denotes a record holds it, and any other is an
error. However a record is printed, it reads back. -/
theorem ofLine_decides_grammar :
    (∀ line, ofLine line = .ok none ↔ content line = []) ∧
      (∀ line record, ofLine line = .ok (some record) ↔ Denotes (content line) record) ∧
      (∀ line, (∃ error, ofLine line = .error error) ↔
        content line ≠ [] ∧ ∀ record, ¬ Denotes (content line) record) ∧
      ∀ printed : PrintedLine, ofLine printed.text = .ok (some printed.record) := by
  refine ⟨fun line => ofLine_eq_none_iff, fun line record => ofLine_eq_some_iff, fun line => ?_,
    fun printed => ofLine_eq_some_iff.2 printed.denotes_content⟩
  simp only [← ofLine_eq_none_iff, ← ofLine_eq_some_iff, ne_eq]
  rcases ofLine line with error | record | record <;> simp

/-- A fetch printed in mixed case and with zeros in front, between an em space and a comment that
holds another record. -/
def printedFetch : PrintedLine where
  record := ⟨.instFetch, 0xff⟩
  token := "iFetch".toList
  mark := ['0', 'X']
  zeros := 2
  digits := "00fF".toList
  before := ['\u2003']
  gap := ['\t']
  after := []
  comment := "#r 10".toList
  addr_lt := by decide
  token_spells := ⟨"ifetch", by decide, by decide⟩
  mark_mem := by decide
  map_digits := by decide
  before_blank := by decide
  gap_isGap := ⟨by decide, by decide⟩
  after_blank := by decide
  comment_head := fun _ hc => (Option.some.inj hc).symm

/-- One line is read as printed, and a mark written twice is refused. -/
theorem ofLine_decides_grammar_fetch :
    ofLine "\u2003iFetch\t0X00fF#r 10".toList = .ok (some ⟨.instFetch, 0xff⟩) ∧
      ∀ record, ¬ Denotes (content "w 0x0x10".toList) record :=
  ⟨ofLine_decides_grammar.2.2.2 printedFetch, ((ofLine_decides_grammar.2.2.1 _).1 ⟨_, rfl⟩).2⟩

end Trace

end CacheHierarchy
