import CacheHierarchy.Outstanding
import Mathlib.Data.List.Basic
import Mathlib.Data.List.Nodup

/-!
# The table of outstanding accesses

While no two entries share a number, the first entry with a number is the only one. Marking a
miss, merging an access and removing an entry are then a `map` or a `filter` of the table, and the
kind of an access is the kind of its one entry.
-/

namespace CacheHierarchy

theorem modifyFirst_eq_map {α β : Type} [DecidableEq β] (key : α → β) (f : α → α) (b : β)
    {l : List α} (h : (l.map key).Nodup) :
    modifyFirst (fun a => decide (key a = b)) f l =
      l.map fun a => if key a = b then f a else a := by
  induction l with
  | nil => rfl
  | cons a rest ih =>
    rw [List.map_cons, List.nodup_cons] at h
    simp only [modifyFirst, List.map_cons, decide_eq_true_eq]
    split
    · rename_i hab
      congr 1
      refine (List.map_id _).symm.trans (List.map_congr_left fun a' ha' => ?_)
      rw [if_neg]
      · rfl
      · rintro rfl
        exact h.1 (hab ▸ List.mem_map_of_mem ha')
    · rw [ih h.2]

theorem eraseP_eq_filter {α β : Type} [DecidableEq β] (key : α → β) (b : β) {l : List α}
    (h : (l.map key).Nodup) : l.eraseP (fun a => key a == b) = l.filter fun a => key a != b := by
  induction l with
  | nil => rfl
  | cons a rest ih =>
    rw [List.map_cons, List.nodup_cons] at h
    rw [List.eraseP_cons, List.filter_cons]
    by_cases hab : key a = b
    · have hrest : ∀ a' ∈ rest, (key a' != b) = true := fun a' ha' =>
        bne_iff_ne.2 fun ha'b => h.1 (hab.trans ha'b.symm ▸ List.mem_map_of_mem ha')
      simp only [hab, beq_self_eq_true, bne_self_eq_false, cond_true, Bool.false_eq_true, if_false]
      exact (List.filter_eq_self.2 hrest).symm
    · rw [beq_eq_false_iff_ne.2 hab, bne_iff_ne.2 hab, if_pos rfl, cond_false, ih h.2]

theorem length_modifyFirst {α : Type} (p : α → Bool) (f : α → α) (l : List α) :
    (modifyFirst p f l).length = l.length := by
  induction l with
  | nil => rfl
  | cons a rest ih =>
    unfold modifyFirst
    split
    · rfl
    · exact congrArg Nat.succ ih

namespace Outstanding

def change (t : Outstanding) (id : Nat) (f : OutstandingAccess → OutstandingAccess) :
    Outstanding :=
  ⟨t.entries.map fun entry => if entry.id = id then f entry else entry⟩

theorem mem_ids {t : Outstanding} {id : Nat} :
    id ∈ t.ids ↔ ∃ entry ∈ t.entries, entry.id = id := by
  simp [ids]

theorem eq_of_id {t : Outstanding} (h : t.ids.Nodup) {e e' : OutstandingAccess}
    (he : e ∈ t.entries) (he' : e' ∈ t.entries) (hid : e.id = e'.id) : e = e' :=
  List.inj_on_of_nodup_map h he he' hid

theorem mem_change {t : Outstanding} {id : Nat} {f : OutstandingAccess → OutstandingAccess}
    {e : OutstandingAccess} :
    e ∈ (t.change id f).entries ↔
      ∃ entry ∈ t.entries, (if entry.id = id then f entry else entry) = e := by
  simp [change]

theorem ids_change {t : Outstanding} {id : Nat} {f : OutstandingAccess → OutstandingAccess}
    (hf : ∀ entry, (f entry).id = entry.id) : (t.change id f).ids = t.ids := by
  simp only [ids, change, List.map_map]
  refine List.map_congr_left fun entry _ => ?_
  simp only [Function.comp]
  split
  · exact hf entry
  · rfl

def await (t : Outstanding) (id : Nat) (mark : MissMark) : Outstanding :=
  t.change id fun entry => { entry with mark := some mark }

def join (t : Outstanding) (into : Nat) (kind : AccessKind) : Outstanding :=
  if kind.isWrite then t.change into fun entry => { entry with kind := .write } else t

@[simp] theorem ids_await (t : Outstanding) (id : Nat) (mark : MissMark) :
    (t.await id mark).ids = t.ids :=
  ids_change fun _ => rfl

@[simp] theorem ids_join (t : Outstanding) (into : Nat) (kind : AccessKind) :
    (t.join into kind).ids = t.ids := by
  unfold join
  split
  · exact ids_change fun _ => rfl
  · rfl

/-- An entry that waits for a line keeps its kind. -/
theorem exists_of_mem_await {t : Outstanding} {id : Nat} {mark : MissMark} {e : OutstandingAccess}
    (h : e ∈ (t.await id mark).entries) :
    ∃ e₀ ∈ t.entries, e.id = e₀.id ∧ e.kind = e₀.kind ∧
      (e₀.id = id ∧ e.mark = some mark ∨ e₀.id ≠ id ∧ e.mark = e₀.mark) := by
  obtain ⟨e₀, he₀, rfl⟩ := mem_change.1 h
  refine ⟨e₀, he₀, ?_⟩
  split
  · rename_i hid
    exact ⟨rfl, rfl, .inl ⟨hid, rfl⟩⟩
  · rename_i hid
    exact ⟨rfl, rfl, .inr ⟨hid, rfl⟩⟩

theorem mem_await_of_mem {t : Outstanding} {id : Nat} {mark : MissMark} {e : OutstandingAccess}
    (h : e ∈ t.entries) : ∃ e' ∈ (t.await id mark).entries, e'.id = e.id ∧ e'.kind = e.kind := by
  refine ⟨_, mem_change.2 ⟨e, h, rfl⟩, ?_⟩
  split <;> exact ⟨rfl, rfl⟩

/-- An entry keeps its mark when an access is merged, and may only turn into a write. -/
theorem exists_of_mem_join {t : Outstanding} {into : Nat} {kind : AccessKind}
    {e : OutstandingAccess} (h : e ∈ (t.join into kind).entries) :
    ∃ e₀ ∈ t.entries, e.id = e₀.id ∧ e.mark = e₀.mark ∧
      (e.kind = e₀.kind ∨ kind = .write ∧ e₀.id = into ∧ e.kind = .write) := by
  unfold join at h
  split at h
  · rename_i hwrite
    obtain ⟨e₀, he₀, rfl⟩ := mem_change.1 h
    refine ⟨e₀, he₀, ?_⟩
    split
    · rename_i hid
      exact ⟨rfl, rfl, .inr ⟨AccessKind.isWrite_iff.1 hwrite, hid, rfl⟩⟩
    · exact ⟨rfl, rfl, .inl rfl⟩
  · exact ⟨e, h, rfl, rfl, .inl rfl⟩

theorem mem_join_of_mem {t : Outstanding} {e : OutstandingAccess} (into : Nat) (kind : AccessKind)
    (h : e ∈ t.entries) :
    ∃ e' ∈ (t.join into kind).entries, e'.id = e.id ∧
      (e.kind = .write ∨ kind = .write ∧ e.id = into → e'.kind = .write) := by
  unfold join
  split
  · refine ⟨_, mem_change.2 ⟨e, h, rfl⟩, ?_⟩
    split
    · exact ⟨rfl, fun _ => rfl⟩
    · rename_i hid
      exact ⟨rfl, fun hk => hk.resolve_right fun hj => hid hj.2⟩
  · rename_i hwrite
    refine ⟨e, h, rfl, fun hk => hk.resolve_right fun hj => hwrite ?_⟩
    rw [hj.1]
    rfl

theorem isWrite_of_mem_join {t : Outstanding} (h : t.ids.Nodup) {kind : AccessKind}
    {e e₀ : OutstandingAccess} (he₀ : e₀ ∈ t.entries) (he : e ∈ (t.join e₀.id kind).entries)
    (hid : e.id = e₀.id) : e.kind.isWrite = (kind.isWrite || e₀.kind.isWrite) := by
  have hnodup : (t.join e₀.id kind).ids.Nodup := (ids_join t e₀.id kind).symm ▸ h
  obtain ⟨e₁, he₁, hid₁, hkind₁⟩ := mem_join_of_mem e₀.id kind he₀
  obtain rfl := eq_of_id hnodup he he₁ (hid.trans hid₁.symm)
  obtain ⟨e₂, he₂, hid₂, -, hkind₂⟩ := exists_of_mem_join he
  obtain rfl := eq_of_id h he₂ he₀ (hid₂.symm.trans hid)
  by_cases hwrite : e₂.kind = .write ∨ kind = .write
  · rw [hkind₁ (hwrite.imp_right fun hk => ⟨hk, rfl⟩)]
    rcases hwrite with hk | hk <;> simp [hk, AccessKind.isWrite]
  · obtain ⟨hk₂, hk⟩ := not_or.1 hwrite
    have hfalse : kind.isWrite = false := by
      rw [Bool.eq_false_iff, ne_eq, AccessKind.isWrite_iff]
      exact hk
    rw [hkind₂.resolve_right fun hjoin => hk hjoin.1, hfalse, Bool.false_or]

theorem markMiss_eq_await {t : Outstanding} (h : t.ids.Nodup) (id owner line : Nat) :
    t.markMiss id owner line = t.await id ⟨owner, line⟩ := by
  have := modifyFirst_eq_map OutstandingAccess.id
    (fun entry => { entry with mark := some { owner, line } }) id h
  simp only [markMiss, await, change]
  rw [← this]
  rfl

/-- An access is merged into the one entry that waits for its line, and a write makes that entry a
write. -/
theorem merge?_eq_some {t t' : Outstanding} (h : t.ids.Nodup) {owner line into : Nat}
    {kind : AccessKind} (hm : t.merge? owner line kind = some (into, t')) :
    (∃ e ∈ t.entries, e.id = into ∧ e.mark = some { owner, line }) ∧ t' = t.join into kind := by
  obtain ⟨e, he, heq⟩ := Option.map_eq_some_iff.1 hm
  rw [Prod.mk.injEq] at heq
  obtain ⟨rfl, rfl⟩ := heq
  refine ⟨⟨e, List.mem_of_find?_eq_some he, rfl, by simpa using List.find?_some he⟩, ?_⟩
  have := modifyFirst_eq_map OutstandingAccess.id
    (fun entry => { entry with kind := .write }) e.id h
  simp only [join, change]
  rw [← this]
  rfl

theorem merge?_eq_none {t : Outstanding} {owner line : Nat} {kind : AccessKind}
    (hm : t.merge? owner line kind = none) :
    ∀ e ∈ t.entries, e.mark ≠ some { owner, line } := by
  simp only [merge?, findMiss?, Option.map_eq_none_iff, List.find?_eq_none, beq_iff_eq] at hm
  exact hm

theorem kindOf?_eq_some_iff {t : Outstanding} (h : t.ids.Nodup) {id : Nat} {kind : AccessKind} :
    t.kindOf? id = some kind ↔ ∃ e ∈ t.entries, e.id = id ∧ e.kind = kind := by
  constructor
  · intro hk
    obtain ⟨e, he, rfl⟩ := Option.map_eq_some_iff.1 hk
    exact ⟨e, List.mem_of_find?_eq_some he, by simpa using List.find?_some he, rfl⟩
  · rintro ⟨e, he, rfl, rfl⟩
    cases hget : t.get? e.id with
    | none =>
      have := List.find?_eq_none.1 hget e he
      simp at this
    | some e' =>
      have he' := List.mem_of_find?_eq_some hget
      have hid : e'.id = e.id := by simpa using List.find?_some hget
      rw [eq_of_id h he' he hid] at hget
      simp [kindOf?, hget]

theorem remove?_eq_some {t t' : Outstanding} (h : t.ids.Nodup) {id : Nat} {e : OutstandingAccess}
    (hr : t.remove? id = some (e, t')) :
    e ∈ t.entries ∧ e.id = id ∧ t.ids.Perm (id :: t'.ids) ∧
      ∀ e', e' ∈ t'.entries ↔ e' ∈ t.entries ∧ e'.id ≠ id := by
  obtain ⟨e', he, heq⟩ := Option.map_eq_some_iff.1 hr
  rw [Prod.mk.injEq] at heq
  obtain ⟨rfl, rfl⟩ := heq
  have hmem := List.mem_of_find?_eq_some he
  have hid : e'.id = id := by simpa using List.find?_some he
  have hperm : t.entries.Perm (e' :: t.entries.eraseP fun entry => entry.id == id) := by
    obtain ⟨a, l₁, l₂, hl₁, ha, heq, herase⟩ := List.exists_of_eraseP
      (p := fun entry => entry.id == id) hmem (by simpa using hid)
    have haid : a.id = id := by simpa using ha
    have : a = e' := eq_of_id h (heq ▸ by simp) hmem (haid.trans hid.symm)
    rw [herase, heq, this]
    exact List.perm_middle
  have hids := hperm.map OutstandingAccess.id
  rw [List.map_cons, hid] at hids
  refine ⟨hmem, hid, hids, fun e'' => ?_⟩
  have hnodup := hids.nodup_iff.1 h
  rw [List.nodup_cons] at hnodup
  rw [hperm.mem_iff, List.mem_cons]
  constructor
  · intro hmem''
    refine ⟨.inr hmem'', ?_⟩
    rintro rfl
    exact hnodup.1 (List.mem_map_of_mem hmem'')
  · rintro ⟨rfl | hmem'', hne⟩
    · exact absurd hid hne
    · exact hmem''

theorem exists_remove? {t : Outstanding} {id : Nat} (h : id ∈ t.ids) :
    ∃ e t', t.remove? id = some (e, t') := by
  obtain ⟨e, he, hid⟩ := mem_ids.1 h
  cases hget : t.get? id with
  | none =>
    have := List.find?_eq_none.1 hget e he
    simp [hid] at this
  | some e' => exact ⟨e', _, by rw [remove?, hget]; rfl⟩

theorem remove?_eq {t : Outstanding} (h : t.ids.Nodup) (id : Nat) :
    t.remove? id = (t.get? id).map fun e => (e, ⟨t.entries.filter fun e => e.id != id⟩) := by
  rw [remove?, eraseP_eq_filter OutstandingAccess.id id h]

/-! One entry among all others. -/

section Entry

variable {t : Outstanding} {before after : List OutstandingAccess} {e : OutstandingAccess}

theorem id_ne_of_append (h : t.ids.Nodup) (hentries : t.entries = before ++ e :: after) :
    (∀ other ∈ before, other.id ≠ e.id) ∧ ∀ other ∈ after, other.id ≠ e.id := by
  rw [ids, hentries, List.map_append, List.map_cons, List.nodup_middle, List.nodup_cons,
    List.mem_append, not_or] at h
  exact ⟨fun other hother hid => h.1.1 (hid ▸ List.mem_map_of_mem hother),
    fun other hother hid => h.1.2 (hid ▸ List.mem_map_of_mem hother)⟩

theorem get?_of_append (h : t.ids.Nodup) (hentries : t.entries = before ++ e :: after) :
    t.get? e.id = some e := by
  obtain ⟨hbefore, -⟩ := id_ne_of_append h hentries
  refine List.find?_eq_some_iff_append.2 ⟨beq_self_eq_true e.id, before, after, hentries, ?_⟩
  intro other hother
  simpa using hbefore other hother

theorem change_of_append (h : t.ids.Nodup) (hentries : t.entries = before ++ e :: after)
    (f : OutstandingAccess → OutstandingAccess) :
    t.change e.id f = ⟨before ++ f e :: after⟩ := by
  obtain ⟨hbefore, hafter⟩ := id_ne_of_append h hentries
  have hkeep : ∀ l : List OutstandingAccess, (∀ other ∈ l, other.id ≠ e.id) →
      (l.map fun other => if other.id = e.id then f other else other) = l := fun l hl =>
    (List.map_congr_left fun other hother => if_neg (hl other hother)).trans (List.map_id _)
  rw [change, hentries, List.map_append, List.map_cons, hkeep before hbefore, hkeep after hafter,
    if_pos rfl]

theorem join_of_append (h : t.ids.Nodup) (hentries : t.entries = before ++ e :: after)
    (kind : AccessKind) :
    t.join e.id kind =
      ⟨before ++ { e with kind := if kind = .write then .write else e.kind } :: after⟩ := by
  rw [join]
  split
  · rename_i hwrite
    rw [change_of_append h hentries, if_pos (AccessKind.isWrite_iff.1 hwrite)]
  · rename_i hwrite
    rw [if_neg fun hkind => hwrite (AccessKind.isWrite_iff.2 hkind), ← hentries]

theorem remove?_of_append (h : t.ids.Nodup) (hentries : t.entries = before ++ e :: after) :
    t.remove? e.id = some (e, ⟨before ++ after⟩) := by
  obtain ⟨hbefore, hafter⟩ := id_ne_of_append h hentries
  rw [remove?_eq h, get?_of_append h hentries, hentries, List.filter_append,
    List.filter_cons_of_neg (by simp),
    List.filter_eq_self.2 fun other hother => bne_iff_ne.2 (hbefore other hother),
    List.filter_eq_self.2 fun other hother => bne_iff_ne.2 (hafter other hother)]
  rfl

end Entry

/-! The number of entries, whatever their numbers. -/

section Length

variable {t t' : Outstanding}

theorem length_eq (t : Outstanding) : t.length = t.ids.length :=
  (List.length_map OutstandingAccess.id).symm

theorem length_markMiss (id owner line : Nat) : (t.markMiss id owner line).length = t.length :=
  length_modifyFirst ..

theorem length_of_merge? {owner line into : Nat} {kind : AccessKind}
    (h : t.merge? owner line kind = some (into, t')) : t'.length = t.length := by
  obtain ⟨miss, -, heq⟩ := Option.map_eq_some_iff.1 h
  cases heq
  split
  · exact length_modifyFirst ..
  · rfl

theorem length_of_remove? {id : Nat} {e : OutstandingAccess}
    (h : t.remove? id = some (e, t')) : t.length = t'.length + 1 := by
  obtain ⟨e', he, heq⟩ := Option.map_eq_some_iff.1 h
  cases heq
  have hmem := List.mem_of_find?_eq_some he
  have hpos := List.length_pos_of_mem hmem
  rw [length, length, List.length_eraseP_of_mem hmem (List.find?_some he)]
  omega

end Length

end Outstanding

end CacheHierarchy
