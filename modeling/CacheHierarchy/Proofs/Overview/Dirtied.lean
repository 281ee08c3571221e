import CacheHierarchy.Proofs.Overview.Accounted

/-!
# What the journal tells of a dirty line

The journal has an entry for every look-up of a first-level cache, and for every line that comes in.
So it tells since when a copy of a line has been in a cache, or on its way there: since the look-up
that missed on it (`Awaited`), and from its fill on (`Copied`). The copy is dirty if a write to the
line was looked up in that time. A copy at the base is dirty if a write-back of the line was
absorbed since it was installed (`Soiled`).

While an access is on its way, what it will be serviced as says the same: it is a write, or one was
merged into it.
-/

namespace CacheHierarchy

namespace Event

def writes (g : Geometry) (i line : Nat) : Event → Bool
  | lookedUp j r _ _ | merged j r _ _ => j == i && r.kind.isWrite && g.lineOf r.addr == line
  | _ => false

def fills (g : Geometry) (i line : Nat) : Event → Bool
  | filled j r _ _ => j == i && g.lineOf r.addr == line
  | _ => false

def installs (g : Geometry) (b line : Nat) : Event → Bool
  | installed j r _ => j == b && g.lineOf r.addr == line
  | _ => false

def absorbs (g : Geometry) (b line : Nat) : Event → Bool
  | absorbed site r _ => site == .cache b && g.lineOf r.addr == line
  | _ => false

def looksUp (i id : Nat) : Event → Bool
  | lookedUp j r _ _ => j == i && r.id == id
  | _ => false

end Event

structure Latest (P : Event → Bool) (journal since : List Event) (event : Event)
    (earlier : List Event) : Prop where
  journal_eq : journal = since ++ event :: earlier
  event : P event = true
  since : ∀ e ∈ since, P e = false

/-- An access has missed on a line in cache `i`; `written` if a write to the line was looked up
there by that look-up or since. -/
def Awaited (g : Geometry) (i line id : Nat) (journal : List Event) (written : Bool) : Prop :=
  ∃ since r cycle earlier,
    Latest (Event.looksUp i id) journal since (.lookedUp i r false cycle) earlier ∧
    g.lineOf r.addr = line ∧
    written = (.lookedUp i r false cycle :: since).any (Event.writes g i line)

/-- A fill of cache `i` has installed a line; `written` if a write to the line was looked up there
by the look-up that missed on it or since. -/
def Copied (g : Geometry) (i line : Nat) (journal : List Event) (written : Bool) : Prop :=
  ∃ since r kind cycle earlier before,
    Latest (Event.fills g i line) journal since (.filled i r kind cycle) earlier ∧
    Awaited g i line r.id earlier before ∧
    written = (before || since.any (Event.writes g i line))

/-- Cache `b` has installed a line; `soiled` if it has taken in a write-back of the line since. -/
def Soiled (g : Geometry) (b line : Nat) (journal : List Event) (soiled : Bool) : Prop :=
  ∃ since r cycle earlier,
    Latest (Event.installs g b line) journal since (.installed b r cycle) earlier ∧
    soiled = since.any (Event.absorbs g b line)

section Histories

variable {P : Event → Bool} {g : Geometry} {i line id : Nat} {journal since earlier : List Event}
  {event e : Event} {written : Bool}

theorem Latest.new (he : P e = true) : Latest P (e :: journal) [] e journal :=
  ⟨rfl, he, fun _ h => absurd h List.not_mem_nil⟩

theorem Latest.cons (h : Latest P journal since event earlier) (he : P e = false) :
    Latest P (e :: journal) (e :: since) event earlier :=
  ⟨congrArg (e :: ·) h.journal_eq, h.event, List.forall_mem_cons.2 ⟨he, h.since⟩⟩

theorem Awaited.new {r : Request} {cycle : Nat} :
    Awaited g i (g.lineOf r.addr) r.id (.lookedUp i r false cycle :: journal) r.kind.isWrite := by
  refine ⟨[], r, cycle, journal, .new ?_, rfl, ?_⟩
  · simp [Event.looksUp]
  · simp [Event.writes]

theorem Awaited.cons (h : Awaited g i line id journal written)
    (he : e.looksUp i id = false) :
    Awaited g i line id (e :: journal) (e.writes g i line || written) := by
  obtain ⟨since, r, cycle, earlier, hlatest, hline, rfl⟩ := h
  refine ⟨e :: since, r, cycle, earlier, hlatest.cons he, hline, ?_⟩
  simp only [List.any_cons, Bool.or_left_comm]

theorem Awaited.quiet (h : Awaited g i line id journal written) (he : e.looksUp i id = false)
    (hw : e.writes g i line = false) : Awaited g i line id (e :: journal) written := by
  have hcons := h.cons he
  rwa [hw] at hcons

theorem Awaited.fill {r : Request} {kind : AccessKind} {cycle : Nat}
    (h : Awaited g i (g.lineOf r.addr) r.id journal written) :
    Copied g i (g.lineOf r.addr) (.filled i r kind cycle :: journal) written := by
  refine ⟨[], r, kind, cycle, journal, written, .new ?_, h, ?_⟩
  · simp [Event.fills]
  · simp

theorem Copied.cons (h : Copied g i line journal written) (he : e.fills g i line = false) :
    Copied g i line (e :: journal) (e.writes g i line || written) := by
  obtain ⟨since, r, kind, cycle, earlier, before, hlatest, hawaited, rfl⟩ := h
  refine ⟨e :: since, r, kind, cycle, earlier, before, hlatest.cons he, hawaited, ?_⟩
  simp only [List.any_cons, Bool.or_left_comm]

theorem Copied.quiet (h : Copied g i line journal written) (he : e.fills g i line = false)
    (hw : e.writes g i line = false) : Copied g i line (e :: journal) written := by
  have hcons := h.cons he
  rwa [hw] at hcons

theorem Soiled.new {r : Request} {cycle : Nat} :
    Soiled g i (g.lineOf r.addr) (.installed i r cycle :: journal) false :=
  ⟨[], r, cycle, journal, .new (by simp [Event.installs]), rfl⟩

theorem Soiled.cons (h : Soiled g i line journal written) (he : e.installs g i line = false) :
    Soiled g i line (e :: journal) (e.absorbs g i line || written) := by
  obtain ⟨since, r, cycle, earlier, hlatest, rfl⟩ := h
  exact ⟨e :: since, r, cycle, earlier, hlatest.cons he, rfl⟩

theorem Soiled.quiet (h : Soiled g i line journal written) (he : e.installs g i line = false)
    (hw : e.absorbs g i line = false) : Soiled g i line (e :: journal) written := by
  have hcons := h.cons he
  rwa [hw] at hcons

theorem Event.quiet_of_not_isTracked (h : e.isTracked = false) :
    (∀ i id, e.looksUp i id = false) ∧ ∀ g i line, e.writes g i line = false ∧
      e.fills g i line = false ∧ e.installs g i line = false ∧ e.absorbs g i line = false := by
  cases e with
  | lookedUp | merged | absorbed | filled | bypassed | installed | diverted | retired => cases h
  | _ => exact ⟨fun _ _ => rfl, fun _ _ _ => ⟨rfl, rfl, rfl, rfl⟩⟩

section OtherLines

variable {j cycle : Nat} {r : Request}

theorem Event.looksUp_of_ne {hit : Bool} (h : ¬(j = i ∧ r.id = id)) :
    (lookedUp j r hit cycle).looksUp i id = false := by
  rw [Bool.eq_false_iff]
  intro htrue
  simp only [looksUp, Bool.and_eq_true, beq_iff_eq] at htrue
  exact h htrue

theorem Event.writes_lookedUp_of_ne {hit : Bool} (h : ¬(j = i ∧ g.lineOf r.addr = line)) :
    (lookedUp j r hit cycle).writes g i line = false := by
  rw [Bool.eq_false_iff]
  intro htrue
  simp only [writes, Bool.and_eq_true, beq_iff_eq] at htrue
  exact h ⟨htrue.1.1, htrue.2⟩

theorem Event.writes_merged_of_ne {into : Nat} (h : ¬(j = i ∧ g.lineOf r.addr = line)) :
    (merged j r into cycle).writes g i line = false := by
  rw [Bool.eq_false_iff]
  intro htrue
  simp only [writes, Bool.and_eq_true, beq_iff_eq] at htrue
  exact h ⟨htrue.1.1, htrue.2⟩

theorem Event.fills_of_ne {kind : AccessKind} (h : ¬(j = i ∧ g.lineOf r.addr = line)) :
    (filled j r kind cycle).fills g i line = false := by
  rw [Bool.eq_false_iff]
  intro htrue
  simp only [fills, Bool.and_eq_true, beq_iff_eq] at htrue
  exact h htrue

end OtherLines

end Histories

/-! What a first-level cache waits for. -/

/-- If a request waits for a line, its entry is one of a write if a write to the line has been looked
up since it missed. -/
def Plan.Tells (p : Plan) (table : Outstanding) (journal : List Event) (r : Request) : Prop :=
  r.kind.isDemand = true → ∀ e ∈ table.entries, e.id = r.id → ∀ i line, e.mark = some ⟨i, line⟩ →
    Awaited (p.geometry i) i line e.id journal e.kind.isWrite

theorem Plan.Tells.quiet {p : Plan} {table : Outstanding} {journal : List Event} {r : Request}
    {event : Event} (h : p.Tells table journal r) (hlook : ∀ i id, event.looksUp i id = false)
    (hwrite : ∀ g i line, event.writes g i line = false) :
    p.Tells table (event :: journal) r := by
  intro hdemand e he hid i line hmark
  exact (h hdemand e he hid i line hmark).quiet (hlook i e.id) (hwrite _ i line)

/-- The table of outstanding accesses and the journal agree. -/
structure Awaiting (p : Plan) (o : Overview) : Prop where
  /-- An access that has not missed is serviced as what it is. -/
  kind : ∀ x ∈ o.traffic, x.2.kind.isDemand = true → ∀ e ∈ o.outstanding.entries, e.id = x.2.id →
    e.mark = none → e.kind = x.2.kind
  awaited : ∀ x ∈ o.traffic, x.1 ≠ .finished → p.Tells o.outstanding o.journal x.2

namespace Awaiting

variable {p : Plan} {o o' : Overview} (h : Awaiting p o) (ho : Orderly p o) (hstep : Step p o o')

include h ho hstep

omit hstep in
theorem kind_join {e₀ : OutstandingAccess} {mark : MissMark} (he₀ : e₀ ∈ o.outstanding.entries)
    (hmark₀ : e₀.mark = some mark) (kind : AccessKind) :
    ∀ x ∈ o.traffic, x.2.kind.isDemand = true →
      ∀ e ∈ (o.outstanding.join e₀.id kind).entries, e.id = x.2.id → e.mark = none →
        e.kind = x.2.kind := by
  intro x hx hdemand e he hid hmark
  obtain ⟨e₁, he₁, hid₁, hmark₁, hkind₁⟩ := Outstanding.exists_of_mem_join he
  rcases hkind₁ with hsame | ⟨-, hinto, -⟩
  · rw [hsame]
    exact h.kind x hx hdemand e₁ he₁ (hid₁.symm.trans hid) (hmark₁.symm.trans hmark)
  · obtain rfl := Outstanding.eq_of_id ho.nodup he₁ he₀ hinto
    rw [hmark₁, hmark₀] at hmark
    cases hmark

omit ho hstep in
theorem kind_await (id : Nat) (mark : MissMark) :
    ∀ x ∈ o.traffic, x.2.kind.isDemand = true →
      ∀ e ∈ (o.outstanding.await id mark).entries, e.id = x.2.id → e.mark = none →
        e.kind = x.2.kind := by
  intro x hx hdemand e he hid hmark
  obtain ⟨e₁, he₁, hid₁, hkind₁, hmark₁⟩ := Outstanding.exists_of_mem_await he
  rcases hmark₁ with ⟨-, hmark₁⟩ | ⟨-, hmark₁⟩
  · rw [hmark] at hmark₁
    cases hmark₁
  · rw [hkind₁]
    exact h.kind x hx hdemand e₁ he₁ (hid₁.symm.trans hid) (hmark₁.symm.trans hmark)

theorem kind_step : ∀ x ∈ o'.traffic, x.2.kind.isDemand = true →
    ∀ e ∈ o'.outstanding.entries, e.id = x.2.id → e.mark = none → e.kind = x.2.kind := by
  have hkind := h.kind
  cases hstep with
  | note | recalled | drop | repaired | tick | newCycle => exact hkind
  | issue =>
    intro x hx hdemand e he hid hmark
    rcases List.mem_append.1 he with he | he
    · rcases Multiset.mem_cons.1 hx with rfl | hx
      · exact absurd (ho.fresh _ (Outstanding.mem_ids.2 ⟨e, he, hid⟩)) (Nat.lt_irrefl _)
      · exact hkind x hx hdemand e he hid hmark
    · obtain rfl := List.mem_singleton.1 he
      rcases Multiset.mem_cons.1 hx with rfl | hx
      · rfl
      · exact absurd hid.symm (Nat.ne_of_lt (ho.id_lt hx hdemand))
  | pay => exact forall_mem_cons (fun hdemand => absurd hdemand Bool.false_ne_true) hkind
  | absorb ht | memoryAbsorb ht => exact forall_mem_rest hkind ht
  | move ht | arrive ht | lookUp ht | hit ht | install ht | bypass ht | place ht | divert ht =>
    have hr := hkind _ (mem_of_eq_cons ht)
    exact forall_mem_cons hr (forall_mem_rest hkind ht)
  | @merge i r rest e₀ ht hi he₀ hmark₀ =>
    have hjoin := h.kind_join ho he₀ hmark₀ r.kind
    have hr := hjoin _ (mem_of_eq_cons ht)
    exact forall_mem_cons hr (forall_mem_rest hjoin ht)
  | @miss i r rest ht =>
    have hawait := h.kind_await r.id ⟨i, p.line i r.addr⟩
    have hr := hawait _ (mem_of_eq_cons ht)
    exact forall_mem_cons hr (forall_mem_rest hawait ht)
  | overtake => exact forall_mem_overtake hkind fun _ _ _ => id
  | retire ht he =>
    obtain ⟨-, -, -, hmem⟩ := Outstanding.remove?_eq_some ho.nodup he
    intro x hx hdemand e he hid
    exact forall_mem_rest hkind ht x hx hdemand e ((hmem e).1 he).1 hid

omit hstep

section FirstLevel

variable {i : Nat} {r : Request} {rest : Multiset (Spot × Request)}
  (ht : o.traffic = (.lookups i, r) ::ₘ rest) (hi : i ∈ p.topology.tops) (cycle : Nat)

include ht hi

/-- The line that is found is not one that another request waits for. -/
theorem tells_of_hit {dirty : Bool} (hline : o.lines i (p.line i r.addr) = some dirty) :
    ∀ x ∈ rest, x.1 ≠ .finished →
      p.Tells o.outstanding (.lookedUp i r true cycle :: o.journal) x.2 := by
  have hdemand := ((ho.admits _ (mem_of_eq_cons ht)).fits.lookups_top hi).1
  intro x hx hs hxdemand e he hid j line hmark
  have hxmem : x ∈ o.traffic := ht ▸ Multiset.mem_cons_of_mem hx
  obtain ⟨hmiss, hentry, rfl⟩ := (ho.describes x hxmem hxdemand e he hid).of_mark hmark
  have habsent := ho.absent x hxmem hs hxdemand hmiss j hentry
  refine (h.awaited x hxmem hs hxdemand e he hid j _ hmark).quiet (Event.looksUp_of_ne ?_)
    (Event.writes_lookedUp_of_ne ?_)
  · rw [hid]
    exact fun heq => ho.id_ne ht hdemand hx hxdemand heq.2.symm
  · rintro ⟨rfl, hsame : p.line _ r.addr = _⟩
    rw [← hsame] at habsent
    exact Option.some_ne_none dirty (hline.symm.trans habsent)

omit hi in
theorem tells_of_merge {e₀ : OutstandingAccess} (he₀ : e₀ ∈ o.outstanding.entries)
    (hmark₀ : e₀.mark = some ⟨i, p.line i r.addr⟩) :
    ∀ x ∈ rest, x.1 ≠ .finished →
      p.Tells (o.outstanding.join e₀.id r.kind) (.merged i r e₀.id cycle :: o.journal) x.2 := by
  intro x hx hs hdemand e he hid j line hmark
  have hxmem : x ∈ o.traffic := ht ▸ Multiset.mem_cons_of_mem hx
  obtain ⟨e₁, he₁, hid₁, hmark₁, hkind₁⟩ := Outstanding.exists_of_mem_join he
  rw [hmark₁] at hmark
  have hcons := (h.awaited x hxmem hs hdemand e₁ he₁ (hid₁.symm.trans hid) j line hmark).cons
    (e := .merged i r e₀.id cycle) rfl
  rw [hid₁]
  by_cases hinto : e₁.id = e₀.id
  · obtain rfl := Outstanding.eq_of_id ho.nodup he₁ he₀ hinto
    obtain ⟨rfl, rfl⟩ := MissMark.mk.inj (Option.some.inj (hmark₀.symm.trans hmark))
    rw [Outstanding.isWrite_of_mem_join ho.nodup he₁ he hid₁]
    simpa [Event.writes, Plan.line] using hcons
  · have hsame : e.kind = e₁.kind := hkind₁.resolve_right fun hjoin => hinto hjoin.2.1
    rw [Event.writes_merged_of_ne ?_] at hcons
    · rw [hsame]
      exact hcons
    · -- the line that is joined is one that another access waits for
      rintro ⟨rfl, rfl⟩
      exact hinto (ho.marks e₁ he₁ e₀ he₀ _ hmark hmark₀)

/-- The line that is missed is not one that another request waits for. -/
theorem tells_of_miss (hmark₀ : ∀ e ∈ o.outstanding.entries, e.mark ≠ some ⟨i, p.line i r.addr⟩) :
    ∀ x ∈ rest, x.1 ≠ .finished →
      p.Tells (o.outstanding.await r.id ⟨i, p.line i r.addr⟩)
        (.lookedUp i r false cycle :: o.journal) x.2 := by
  have hdemand := ((ho.admits _ (mem_of_eq_cons ht)).fits.lookups_top hi).1
  intro x hx hs hxdemand e he hid j line hmark
  have hxmem : x ∈ o.traffic := ht ▸ Multiset.mem_cons_of_mem hx
  have hne := ho.id_ne ht hdemand hx hxdemand
  obtain ⟨e₁, he₁, hid₁, hkind₁, hmark₁⟩ := Outstanding.exists_of_mem_await he
  rcases hmark₁ with ⟨heq, -⟩ | ⟨-, hmark₁⟩
  · exact absurd (hid.symm.trans (hid₁.trans heq)) hne
  · rw [hmark₁] at hmark
    rw [hid₁, hkind₁]
    refine (h.awaited x hxmem hs hxdemand e₁ he₁ (hid₁.symm.trans hid) j line hmark).quiet
      (Event.looksUp_of_ne ?_) (Event.writes_lookedUp_of_ne ?_)
    · rw [← hid₁, hid]
      exact fun heq => hne heq.2.symm
    · rintro ⟨rfl, rfl⟩
      exact hmark₀ e₁ he₁ hmark

/-- A request that misses waits from now on, and is serviced as what it is. -/
theorem tells_missed :
    p.Tells (o.outstanding.await r.id ⟨i, p.line i r.addr⟩)
      (.lookedUp i r false cycle :: o.journal) r := by
  obtain ⟨hdemand, -, hmiss⟩ := (ho.admits _ (mem_of_eq_cons ht)).fits.lookups_top hi
  intro _ e he hid j line hmark
  obtain ⟨e₁, he₁, hid₁, hkind₁, hmark₁⟩ := Outstanding.exists_of_mem_await he
  have hid₀ : e₁.id = r.id := hid₁.symm.trans hid
  have hunmarked := (ho.describes _ (mem_of_eq_cons ht) hdemand e₁ he₁ hid₀).mark
  rw [if_neg (by rw [hmiss]; exact Bool.false_ne_true)] at hunmarked
  rcases hmark₁ with ⟨-, hmark₁⟩ | ⟨hne, -⟩
  · obtain ⟨rfl, rfl⟩ := MissMark.mk.inj (Option.some.inj (hmark₁.symm.trans hmark))
    rw [hid, hkind₁, h.kind _ (mem_of_eq_cons ht) hdemand e₁ he₁ hid₀ hunmarked]
    exact Awaited.new
  · exact absurd hid₀ hne

end FirstLevel

theorem tells_of_lookUp {b : Nat} (hb : p.topology.base? = some b) (r : Request) (hit : Bool)
    (cycle : Nat) : ∀ x ∈ o.traffic, x.1 ≠ .finished →
      p.Tells o.outstanding (.lookedUp b r hit cycle :: o.journal) x.2 := by
  intro x hx hs hdemand e he hid i line hmark
  have hi := Topology.mem_tops_of_entryFor?
    ((ho.describes x hx hdemand e he hid).entry_of_mark hmark)
  have hne := (Topology.top_ne_base hi hb).symm
  exact (h.awaited x hx hs hdemand e he hid i line hmark).quiet
    (Event.looksUp_of_ne fun heq => hne heq.1) (Event.writes_lookedUp_of_ne fun heq => hne heq.1)

omit ho in
theorem tells_of_issue {access : OutstandingAccess} (haccess : access.id = o.nextId)
    (hmark₀ : access.mark = none) : ∀ x ∈ o.traffic, x.1 ≠ .finished →
      p.Tells ⟨o.outstanding.entries ++ [access]⟩ o.journal x.2 := by
  intro x hx hs hdemand e he hid i line hmark
  rcases List.mem_append.1 he with he | he
  · exact h.awaited x hx hs hdemand e he hid i line hmark
  · obtain rfl := List.mem_singleton.1 he
    rw [hmark₀] at hmark
    cases hmark

include hstep

theorem awaited_step : ∀ x ∈ o'.traffic, x.1 ≠ .finished →
    p.Tells o'.outstanding o'.journal x.2 := by
  have hawaited := h.awaited
  have hquiet : ∀ {e : Event}, (∀ i id, e.looksUp i id = false) →
      (∀ g i line, e.writes g i line = false) →
      ∀ x ∈ o.traffic, x.1 ≠ .finished → p.Tells o.outstanding (e :: o.journal) x.2 :=
    fun hlook hwrite x hx hs => (hawaited x hx hs).quiet hlook hwrite
  cases hstep with
  | recalled | drop | repaired | tick | newCycle => exact hawaited
  | note event hevent =>
    obtain ⟨hlook, hwrite⟩ := Event.quiet_of_not_isTracked hevent
    exact hquiet hlook fun g i line => (hwrite g i line).1
  | issue =>
    refine forall_mem_cons ?_ (h.tells_of_issue rfl rfl)
    intro _ _ e he hid i line hmark
    rcases List.mem_append.1 he with he | he
    · exact absurd (ho.fresh _ (Outstanding.mem_ids.2 ⟨e, he, hid⟩)) (Nat.lt_irrefl _)
    · rw [List.mem_singleton.1 he] at hmark
      cases hmark
  | pay =>
    exact forall_mem_cons (fun _ hdemand => absurd hdemand Bool.false_ne_true) hawaited
  | move ht hroute =>
    have hr := hawaited _ (mem_of_eq_cons ht) hroute.ne_finished
    exact forall_mem_cons (fun _ => hr) (forall_mem_rest hawaited ht)
  | @lookUp b s' r rest ht hroute _ _ hb cycle =>
    have hall := h.tells_of_lookUp ho hb r (o.lines b (p.line b r.addr)).isSome cycle
    have hr := hall _ (mem_of_eq_cons ht) hroute.ne_finished
    exact forall_mem_cons (fun _ => hr) (forall_mem_rest hall ht)
  | absorb ht | memoryAbsorb ht =>
    exact forall_mem_rest (hquiet (fun _ _ => rfl) fun _ _ _ => rfl) ht
  | install ht | bypass ht =>
    exact forall_mem_cons (fun hs => absurd rfl hs)
      (forall_mem_rest (hquiet (fun _ _ => rfl) fun _ _ _ => rfl) ht)
  | @arrive i r rest ht hroute readyAt =>
    have hall := hquiet (e := .accepted { r with readyAt }) (fun _ _ => rfl) fun _ _ _ => rfl
    have hr := hall _ (mem_of_eq_cons ht) fun hs => Spot.noConfusion hs
    exact forall_mem_cons (fun _ => hr) (forall_mem_rest hall ht)
  | @place b i r rest after victim ht hb hr hi hdebt hrepair hline haddr readyAt cycle =>
    have hall := hquiet (e := .installed b r cycle) (fun _ _ => rfl) fun _ _ _ => rfl
    have hr := hall _ (mem_of_eq_cons ht) fun hs => Spot.noConfusion hs
    exact forall_mem_cons (fun _ => hr) (forall_mem_rest hall ht)
  | divert ht hkind =>
    exact forall_mem_cons (fun _ hdemand => absurd hdemand (Request.not_isDemand hkind))
      (forall_mem_rest (hquiet (fun _ _ => rfl) fun _ _ _ => rfl) ht)
  | hit ht hi hline cycle =>
    exact forall_mem_cons (fun hs => absurd rfl hs) (h.tells_of_hit ho ht hi cycle hline)
  | merge ht hi he hmark hline cycle =>
    exact forall_mem_cons (fun hs => absurd rfl hs) (h.tells_of_merge ho ht cycle he hmark)
  | miss ht hi hline hmark cycle =>
    exact forall_mem_cons (fun _ => h.tells_missed ho ht hi cycle)
      (h.tells_of_miss ho ht hi cycle hmark)
  | overtake => exact forall_mem_overtake hawaited fun _ _ _ => id
  | retire ht he₀ =>
    obtain ⟨-, -, -, hmem⟩ := Outstanding.remove?_eq_some ho.nodup he₀
    intro x hx hs hdemand e he
    exact forall_mem_rest (hquiet (fun _ _ => rfl) fun _ _ _ => rfl) ht x hx hs hdemand e
      ((hmem e).1 he).1

theorem step : Awaiting p o' where
  kind := h.kind_step ho hstep
  awaited := h.awaited_step ho hstep

end Awaiting

theorem Reach.awaiting {p : Plan} {o : Overview} (h : Reach p o) : Awaiting p o := by
  refine h.invariant (Awaiting p) ?_ fun _ _ hreach ho hstep => ho.step hreach.orderly hstep
  exact ⟨fun _ hx => absurd hx (Multiset.notMem_zero _),
    fun _ hx => absurd hx (Multiset.notMem_zero _)⟩

/-! What a cache holds. -/

/-- The journal tells which lines are dirty. -/
structure Dirtied (p : Plan) (o : Overview) : Prop where
  copied : ∀ i ∈ p.topology.tops, ∀ line dirty, o.lines i line = some dirty →
    Copied (p.geometry i) i line o.journal dirty
  soiled : ∀ b, p.topology.base? = some b → ∀ line dirty, o.lines b line = some dirty →
    Soiled (p.geometry b) b line o.journal dirty

namespace Dirtied

variable {p : Plan} {o o' : Overview} (h : Dirtied p o) (ho : Orderly p o) (hwait : Awaiting p o)
  (hstep : Step p o o')

include h ho hwait hstep

omit ho hwait hstep in
/-- What is looked up by a hit is a write to the copy, or nothing to any other. -/
theorem copied_of_hit {i : Nat} {r : Request} {found : Bool}
    (hfound : o.lines i (p.line i r.addr) = some found) (cycle : Nat) :
    ∀ j ∈ p.topology.tops, ∀ line dirty,
      Function.update o.lines i (Function.update (o.lines i) (p.line i r.addr)
        (some (found || r.kind.isWrite))) j line = some dirty →
      Copied (p.geometry j) j line (.lookedUp i r true cycle :: o.journal) dirty := by
  intro j hj line dirty hline
  rw [update_line_apply] at hline
  split at hline
  · rename_i hhit
    obtain ⟨rfl, rfl⟩ := hhit
    rw [Option.some.injEq, Bool.or_comm] at hline
    have hcons := (h.copied j hj _ _ hfound).cons (e := .lookedUp j r true cycle) rfl
    rw [← hline]
    simpa [Event.writes, Plan.line] using hcons
  · rename_i hmiss
    refine (h.copied j hj line dirty hline).quiet rfl (Event.writes_lookedUp_of_ne ?_)
    rintro ⟨rfl, rfl⟩
    exact hmiss ⟨rfl, rfl⟩

omit h hstep in
/-- A fill makes a copy of the line that it was waited for. -/
theorem copied_of_install {i : Nat} {r : Request} {rest : Multiset (Spot × Request)}
    (ht : o.traffic = (.fills i, r) ::ₘ rest) (hi : i ∈ p.topology.tops) (cycle : Nat) :
    Copied (p.geometry i) i (p.line i r.addr) (.filled i r (o.kindOf r) cycle :: o.journal)
      (o.kindOf r).isWrite := by
  have hmem := mem_of_eq_cons ht
  obtain ⟨hdemand, hentry, hmiss⟩ := (ho.admits _ hmem).fits.fills_top hi
  obtain ⟨e, he, hid, hdescribes, hkind⟩ := ho.exists_kindOf hmem hdemand
  have hmark := hdescribes.mark
  rw [if_pos hmiss, hentry, Option.map_some] at hmark
  have hawaited := hwait.awaited _ hmem (fun hs => Spot.noConfusion hs) hdemand e he hid i _ hmark
  rw [hid, ← hkind] at hawaited
  exact hawaited.fill

theorem copied_step : ∀ i ∈ p.topology.tops, ∀ line dirty, o'.lines i line = some dirty →
    Copied (p.geometry i) i line o'.journal dirty := by
  have hcopied := h.copied
  cases hstep with
  | issue | move | pay | recalled | overtake | repaired | tick | newCycle => exact hcopied
  | note event hevent =>
    intro i hi line dirty hline
    obtain ⟨hwrite, hfill, -⟩ := (Event.quiet_of_not_isTracked hevent).2 (p.geometry i) i line
    exact (hcopied i hi line dirty hline).quiet hfill hwrite
  | lookUp ht hroute _ _ hb =>
    intro i hi line dirty hline
    exact (hcopied i hi line dirty hline).quiet rfl
      (Event.writes_lookedUp_of_ne fun heq => Topology.top_ne_base hi hb heq.1.symm)
  | absorb ht hr hb =>
    intro i hi line dirty hline
    dsimp only at hline
    rw [Function.update_of_ne (Topology.top_ne_base hi hb)] at hline
    exact (hcopied i hi line dirty hline).quiet rfl rfl
  | arrive | memoryAbsorb | bypass | divert | retire =>
    exact fun i hi line dirty hline => (hcopied i hi line dirty hline).quiet rfl rfl
  | place ht hb =>
    intro i hi line dirty hline
    dsimp only at hline
    rw [Function.update_of_ne (Topology.top_ne_base hi hb)] at hline
    exact (hcopied i hi line dirty hline).quiet rfl rfl
  | hit ht hj hfound cycle => exact h.copied_of_hit hfound cycle
  | merge ht hj he hmark hnone =>
    intro i hi line dirty hline
    refine (hcopied i hi line dirty hline).quiet rfl (Event.writes_merged_of_ne ?_)
    rintro ⟨rfl, rfl⟩
    exact Option.some_ne_none dirty (hline.symm.trans hnone)
  | miss ht hj hnone =>
    intro i hi line dirty hline
    refine (hcopied i hi line dirty hline).quiet rfl (Event.writes_lookedUp_of_ne ?_)
    rintro ⟨rfl, rfl⟩
    exact Option.some_ne_none dirty (hline.symm.trans hnone)
  | @install j r rest after victim ht hj hbypass hdebt hrepair hplaced haddr cycle =>
    intro i hi line dirty hline
    dsimp only at hline
    by_cases hfill : j = i ∧ p.line j r.addr = line
    · obtain ⟨rfl, rfl⟩ := hfill
      rw [Function.update_self, hplaced.installed, Option.some.injEq] at hline
      rw [← hline]
      exact copied_of_install ho hwait ht hj cycle
    · refine (hcopied i hi line dirty (hplaced.of_update hline fun heq => hfill ?_)).quiet
        (Event.fills_of_ne fun heq => hfill ⟨heq.1, heq.1 ▸ heq.2⟩) rfl
      exact ⟨heq.1.symm, heq.2.symm⟩
  | drop =>
    intro i hi line dirty hline
    dsimp only at hline
    rw [update_line_apply] at hline
    split at hline
    · cases hline
    · exact hcopied i hi line dirty hline

omit ho hwait in
theorem soiled_step : ∀ b, p.topology.base? = some b → ∀ line dirty, o'.lines b line = some dirty →
    Soiled (p.geometry b) b line o'.journal dirty := by
  intro b hb
  have hsoiled := h.soiled b hb
  cases hstep with
  | issue | move | pay | recalled | overtake | repaired | tick | newCycle => exact hsoiled
  | note event hevent =>
    intro line dirty hline
    obtain ⟨-, -, hinstall, habsorb⟩ :=
      (Event.quiet_of_not_isTracked hevent).2 (p.geometry b) b line
    exact (hsoiled line dirty hline).quiet hinstall habsorb
  | arrive | lookUp | memoryAbsorb | merge | miss | bypass | divert | retire =>
    exact fun line dirty hline => (hsoiled line dirty hline).quiet rfl rfl
  | hit ht hi | install ht hi =>
    intro line dirty hline
    dsimp only at hline
    rw [Function.update_of_ne (Topology.top_ne_base hi hb).symm] at hline
    exact (hsoiled line dirty hline).quiet rfl rfl
  | drop hb' hi =>
    intro line dirty hline
    dsimp only at hline
    rw [Function.update_of_ne (Topology.top_ne_base hi hb).symm] at hline
    exact hsoiled line dirty hline
  | @absorb b' r rest dirty₀ ht hr hb' hfound cycle =>
    obtain rfl := Option.some.inj (hb.symm.trans hb')
    intro line dirty hline
    dsimp only at hline
    rw [update_line_apply] at hline
    split at hline
    · rename_i hsame
      obtain ⟨-, rfl⟩ := hsame
      rw [Option.some.injEq] at hline
      have hcons := (hsoiled _ _ hfound).cons (e := .absorbed (.cache b) r cycle) rfl
      rw [← hline]
      simpa [Event.absorbs, Plan.line] using hcons
    · rename_i hne
      refine (hsoiled line dirty hline).quiet rfl (Bool.and_eq_false_imp.2 fun _ => ?_)
      exact beq_eq_false_iff_ne.2 fun hsame => hne ⟨rfl, hsame.symm⟩
  | @place b' i r rest after victim ht hb' hr hi hdebt hrepair hplaced =>
    obtain rfl := Option.some.inj (hb.symm.trans hb')
    intro line dirty hline
    dsimp only at hline
    by_cases hsame : p.line b r.addr = line
    · subst hsame
      rw [Function.update_self, hplaced.installed, Option.some.injEq] at hline
      rw [← hline]
      exact Soiled.new
    · have hbefore := hplaced.of_update hline fun heq => hsame heq.2.symm
      refine (hsoiled line dirty hbefore).quiet ?_ rfl
      exact Bool.and_eq_false_imp.2 fun _ => beq_eq_false_iff_ne.2 hsame

theorem step : Dirtied p o' where
  copied := h.copied_step ho hwait hstep
  soiled := h.soiled_step hstep

end Dirtied

theorem Reach.dirtied {p : Plan} {o : Overview} (h : Reach p o) : Dirtied p o := by
  refine h.invariant (Dirtied p) ⟨?_, ?_⟩ fun _ _ hreach ho hstep =>
    ho.step hreach.orderly hreach.awaiting hstep
  · exact fun _ _ _ _ hline => absurd hline.symm (Option.some_ne_none _)
  · exact fun _ _ _ _ hline => absurd hline.symm (Option.some_ne_none _)

end CacheHierarchy
