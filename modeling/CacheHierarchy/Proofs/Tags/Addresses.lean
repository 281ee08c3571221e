import CacheHierarchy.Proofs.Tags.Calls

/-!
# Addresses of lines

An address is taken apart by two divisions, into the tag and the set of its line, and `lineBase`
puts the two together again. Where the bytes of one way of all sets fit in a word nothing is lost
on the way, whatever the dimensions are: `Geometry.Decomposes` says what comes of an address, and
tag and set tell lines apart.

A tag array computes the address of a line it displaces from the tag that it holds. Every tag that
it holds has come from an address, so the address that it reports is one of the displaced line.
-/

namespace CacheHierarchy

namespace Geometry

/-- An address has this tag, and its tag and its set give the address at which its line begins. -/
structure Decomposes (g : Geometry) (addr tag base : Nat) : Prop where
  tagOf_addr : g.tagOf addr = .ok tag
  setOf_lt : (g.setOf addr).val < g.numSets
  lineBase_eq : g.lineBase tag (g.setOf addr) = .ok base
  dvd_base : g.lineSize ∣ base
  base_le : base ≤ addr
  sub_base_lt : addr - base < g.lineSize
  tagOf_base : g.tagOf base = .ok tag
  setOf_base : g.setOf base = g.setOf addr

variable {g : Geometry}

theorem setOf_mul_eq (line : Nat) {i : Fin g.numSets} (h : line % g.numSets = i) :
    g.setOf (line * g.lineSize) = i := by
  apply Fin.ext
  rw [val_setOf, lineOf_mul_self, h]

theorem decomposes (hspan : g.numSets * g.lineSize < wordLimit) {addr : Nat}
    (haddr : addr < wordLimit) :
    g.Decomposes addr (g.lineOf addr / g.numSets) (g.lineOf addr * g.lineSize) := by
  have hline : g.lineOf addr / g.numSets * g.numSets + g.setOf addr = g.lineOf addr :=
    Nat.div_add_mod' (g.lineOf addr) g.numSets
  have hle : g.lineOf addr * g.lineSize ≤ addr := g.lineOf_mul_le addr
  have hlt : addr < g.lineOf addr * g.lineSize + g.lineSize := Nat.lt_div_mul_add g.lineSize_pos
  refine ⟨tagOf_eq hspan addr, (g.setOf addr).isLt, ?_, Nat.dvd_mul_left _ _, hle, by omega, ?_,
    setOf_mul_eq _ rfl⟩
  · rw [lineBase_eq_ok g (by rw [hline]; omega), hline]
  · rw [tagOf_eq hspan, lineOf_mul_self]

/-- Tag and set together name a line. -/
theorem tagOf_setOf_eq_iff (hspan : g.numSets * g.lineSize < wordLimit) (a b : Nat) :
    g.tagOf a = g.tagOf b ∧ g.setOf a = g.setOf b ↔ g.lineOf a = g.lineOf b := by
  rw [tagOf_eq hspan, tagOf_eq hspan, Except.ok.injEq, Fin.ext_iff, val_setOf, val_setOf]
  constructor
  · rintro ⟨htag, hset⟩
    calc g.lineOf a
      _ = g.lineOf a / g.numSets * g.numSets + g.lineOf a % g.numSets :=
        (Nat.div_add_mod' _ _).symm
      _ = g.lineOf b / g.numSets * g.numSets + g.lineOf b % g.numSets := by rw [htag, hset]
      _ = g.lineOf b := Nat.div_add_mod' _ _
  · intro hline
    rw [hline]
    exact ⟨rfl, rfl⟩

end Geometry

namespace TagArray

/-- A fill of `addr` turned `t` into `t'` and displaced the line `l`. What it reports is an address
of that line, which was resident before the fill and is not resident after it. -/
structure Reports (t t' : TagArray) (addr : Nat) (e : Eviction) (l : Line) : Prop where
  displaced : (t.rowOf addr).line? (t.rowOf addr).victim = some l
  dirty : e.dirty = l.dirty
  addr_lt : e.addr < wordLimit
  lineBase_eq : t.geometry.lineBase l.tag (t.geometry.setOf addr) = .ok e.addr
  tagOf_addr : t.geometry.tagOf e.addr = .ok l.tag
  setOf_addr : t.geometry.setOf e.addr = t.geometry.setOf addr
  resident : t.line? e.addr = .ok (some l)
  gone : t'.contains e.addr = .ok false

namespace Sound

variable {t t' : TagArray} (ht : t.Sound) {addr : Nat} {kind : AccessKind} {e : Eviction}

include ht

theorem reports_of_install (haddr : addr < wordLimit) (h : t.install addr kind = .ok t')
    (he : t'.lastEviction = some e) : ∃ l, t.Reports t' addr e l := by
  obtain ⟨hnot, -, heviction⟩ := install_inv h
  obtain ⟨l, hl, rfl⟩ : ∃ l, (t.rowOf addr).line? (t.rowOf addr).victim = some l ∧
      e = { addr := (l.tag * t.geometry.numSets + t.geometry.setOf addr) * t.geometry.lineSize
            dirty := l.dirty } := by
    rw [he, Geometry.leaving?, Option.map_map] at heviction
    obtain ⟨l, hl, heq⟩ := Option.map_eq_some_iff.1 heviction.symm
    exact ⟨l, hl, heq.symm⟩
  obtain ⟨hset, htag⟩ := (t.geometry.div_mod_eq_iff (t.geometry.setOf addr).isLt).2
    (Eq.refl (l.tag * t.geometry.numSets + t.geometry.setOf addr))
  have hlines : t.lines (l.tag * t.geometry.numSets + t.geometry.setOf addr) = some l.dirty := by
    rw [rowOf_eq] at hl
    exact (ht.evictionOf_eq hl).1
  have hlt := ht.base_lt _ (hlines ▸ Option.some_ne_none l.dirty)
  refine ⟨l, hl, rfl, hlt, t.geometry.lineBase_eq_ok hlt, ?_, Geometry.setOf_mul_eq _ hset, ?_, ?_⟩
  · rw [Geometry.tagOf_eq ht.span_lt, Geometry.lineOf_mul_self, htag]
  · rw [ht.line?_eq, Geometry.lineOf_mul_self, hlines, htag]
    rfl
  · have hfresh : t.lines (t.geometry.lineOf addr) = none := by
      rw [← ht.dirty?_lru, ← Option.not_isSome_iff_eq_none, ← LruCache.holds, ht.holds_lru, hnot]
      exact Bool.false_ne_true
    obtain ⟨t'', lines, victim, hinstall, hbecomes, hdisplaces, hvictim⟩ :=
      ht.install_fresh kind haddr hfresh
    rw [h] at hinstall
    cases hinstall
    rw [he] at hvictim
    obtain ⟨⟨line, dirty⟩, rfl, heq⟩ := Option.map_eq_some_iff.1 hvictim.symm
    obtain rfl : line = l.tag * t.geometry.numSets + t.geometry.setOf addr :=
      Nat.eq_of_mul_eq_mul_right t.geometry.lineSize_pos (congrArg Eviction.addr heq)
    obtain ⟨-, -, hgone⟩ := hdisplaces.victim_eq rfl
    rw [hbecomes.sound.contains_eq, hbecomes.geometry, Geometry.lineOf_mul_self, hbecomes.lines,
      hgone]
    rfl

theorem reports_of_fill (haddr : addr < wordLimit) {resident : Bool}
    (h : t.fill addr kind = .ok (resident, t')) (he : t'.lastEviction = some e) :
    ∃ l, t.Reports t' addr e l := by
  by_cases hkind : kind.isDemand = true
  · rw [t.fill_demand addr hkind] at h
    obtain ⟨t'', hinstall, heq⟩ := exists_ok_of_map h
    cases heq
    exact ht.reports_of_install haddr hinstall he
  · cases kind with
    | check => cases h
    | writeBack =>
      obtain ⟨t'', habsorb, heq⟩ := exists_ok_of_map h
      cases heq
      rw [lastEviction_of_absorb habsorb] at he
      cases he
    | read | write | instFetch => exact absurd rfl hkind

end Sound

end TagArray

/-- Where the bytes of one way of all sets fit in a word, every address is taken apart and put
together again without an overflow, two addresses have the same tag and the same set exactly if
they are of one line, and what any tag array reports as displaced is an address of the line that it
displaced. -/
theorem Geometry.addresses_name_lines {g : Geometry}
    (hspan : g.numSets * g.lineSize < wordLimit) :
    (∀ addr < wordLimit, ∃ tag base, g.Decomposes addr tag base) ∧
      (∀ a < wordLimit, ∀ b < wordLimit,
        (g.tagOf a = g.tagOf b ∧ g.setOf a = g.setOf b ↔ g.lineOf a = g.lineOf b)) ∧
      ∀ name calls answers t, (∀ call ∈ calls, call.addr < wordLimit) →
        (TagArray.empty name g).calls calls = .ok (answers, t) →
        t.geometry = g ∧ ∀ addr kind resident t' e, addr < wordLimit →
          t.fill addr kind = .ok (resident, t') → t'.lastEviction = some e →
          ∃ l, t.Reports t' addr e l := by
  refine ⟨fun addr haddr => ⟨_, _, decomposes hspan haddr⟩,
    fun a _ b _ => tagOf_setOf_eq_iff hspan a b, fun name calls answers t haddr hcalls => ?_⟩
  have hempty : (TagArray.empty name g).Sound := TagArray.empty_sound hspan
  have hrefines := hempty.calls_refines calls haddr
  rw [hcalls] at hrefines
  obtain ⟨hsound, hgeometry⟩ := hrefines.sound_of_eq_ok
  exact ⟨hgeometry, fun addr kind resident t' e haddr hfill he =>
    hsound.reports_of_fill haddr hfill he⟩

def Geometry.threeSets : Geometry := ⟨3, 1, 24, by decide, by decide, by decide⟩

/-- The last address of all is in the last line, and line 44 goes where line 41 was, which begins at
address 984. -/
theorem Geometry.addresses_name_lines_threeSets :
    threeSets.numSets * threeSets.lineSize < wordLimit ∧
      threeSets.Decomposes (wordLimit - 1) 256204778801521550 (wordLimit - 16) ∧
      ∃ t t', (TagArray.empty "L1D" threeSets).calls [.fill 1000 .write] =
          .ok ([.resident false], t) ∧
        t.fill 1072 .read = .ok (false, t') ∧ t'.lastEviction = some ⟨984, true⟩ ∧
        ∃ l, t.Reports t' 1072 ⟨984, true⟩ l := by
  have hspan : threeSets.numSets * threeSets.lineSize < wordLimit := by decide
  obtain ⟨hdecomposes, -, hreports⟩ := addresses_name_lines hspan
  refine ⟨hspan, ?_, _, _, rfl, rfl, rfl, ?_⟩
  · obtain ⟨tag, base, h⟩ := hdecomposes (wordLimit - 1) (by decide)
    cases h.tagOf_addr
    cases h.lineBase_eq
    exact h
  · exact (hreports "L1D" [.fill 1000 .write] _ _ (by decide) rfl).2 1072 .read false _ _ (by decide)
      rfl rfl

end CacheHierarchy
