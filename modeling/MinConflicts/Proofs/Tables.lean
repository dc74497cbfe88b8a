import MinConflicts.Proofs.Effects
import MinConflicts.Table

/-!
# Tables entry by entry

Boards, assignments and flattened trees are tables over the same paths. `Pointwise` compares two
of them: the keys are equal and in the same order, and the entries of each key are related.
Reading a table entry by entry gives a table that is `Pointwise` related to it, and changing one
entry on both sides keeps the relation.
-/
namespace MinConflicts.Table

variable {α β γ : Type}

def Pointwise (R : String → α → β → Prop) (s : Table α) (t : Table β) : Prop :=
  List.Forall₂ (fun e f => e.1 = f.1 ∧ R e.1 e.2 f.2) s.entries t.entries

variable {R : String → α → β → Prop} {s : Table α} {t : Table β}

theorem Pointwise.keys_eq (h : Pointwise R s t) : s.keys = t.keys := by
  have hkeys : List.Forall₂ (· = ·) s.keys t.keys := by
    simp only [keys, List.forall₂_map_left_iff, List.forall₂_map_right_iff]
    exact h.imp fun _ _ hef => hef.1
  rwa [List.forall₂_eq_eq_eq] at hkeys

theorem Pointwise.imp {Q : String → α → β → Prop} (h : Pointwise R s t)
    (hRQ : ∀ k a b, R k a b → Q k a b) : Pointwise Q s t :=
  List.Forall₂.imp (fun _ _ hef => ⟨hef.1, hRQ _ _ _ hef.2⟩) h

theorem Pointwise.comp {Q : String → β → γ → Prop} {P : String → α → γ → Prop} {u : Table γ}
    (hst : Pointwise R s t) (htu : Pointwise Q t u)
    (hP : ∀ k a b c, R k a b → Q k b c → P k a c) : Pointwise P s u := by
  obtain ⟨es⟩ := s
  obtain ⟨fs⟩ := t
  obtain ⟨gs⟩ := u
  simp only [Pointwise] at hst htu ⊢
  induction hst generalizing gs with
  | nil => simpa using htu
  | cons hef _ ih =>
    obtain ⟨g, gs', hfg, hgs, rfl⟩ := List.forall₂_cons_left_iff.1 htu
    obtain ⟨hk, hR⟩ := hef
    exact .cons ⟨hk.trans hfg.1, hP _ _ _ _ hR (hk ▸ hfg.2)⟩ (ih gs' hgs)

theorem Pointwise.flip (h : Pointwise R s t) : Pointwise (fun k b a => R k a b) t s := by
  refine List.Forall₂.flip (List.Forall₂.imp ?_ h)
  intro e f hef
  obtain ⟨hk, hR⟩ := hef
  exact ⟨hk.symm, hk ▸ hR⟩

theorem exists_pointwise {Q : String → α → γ → Prop} (h : ∀ e ∈ s.entries, ∃ c, Q e.1 e.2 c) :
    ∃ u, Pointwise Q s u := by
  obtain ⟨es⟩ := s
  induction es with
  | nil => exact ⟨⟨[]⟩, .nil⟩
  | cons e es ih =>
    obtain ⟨hfirst, hrest⟩ := List.forall_mem_cons.1 h
    obtain ⟨c, hc⟩ := hfirst
    obtain ⟨u, hu⟩ := ih hrest
    exact ⟨⟨(e.1, c) :: u.entries⟩, .cons ⟨rfl, hc⟩ hu⟩

theorem Pointwise.of_mem_right (h : Pointwise R s t) {f : String × β} (hf : f ∈ t.entries) :
    ∃ e ∈ s.entries, e.1 = f.1 ∧ R e.1 e.2 f.2 := by
  obtain ⟨es⟩ := s
  obtain ⟨fs⟩ := t
  simp only [Pointwise] at h hf ⊢
  induction h with
  | nil => cases hf
  | cons hef _ ih =>
    rcases List.mem_cons.1 hf with rfl | hf
    · exact ⟨_, List.mem_cons_self, hef⟩
    · obtain ⟨e, he, hR⟩ := ih hf
      exact ⟨e, List.mem_cons_of_mem _ he, hR⟩

theorem Pointwise.get? (h : Pointwise R s t) {key : String} {a : α} (ha : s.get? key = some a) :
    ∃ b, t.get? key = some b ∧ R key a b := by
  obtain ⟨es⟩ := s
  obtain ⟨fs⟩ := t
  simp only [Pointwise, Table.get?] at h ha ⊢
  induction h with
  | nil => cases ha
  | @cons e f _ _ hef _ ih =>
    obtain ⟨k, x⟩ := e
    obtain ⟨k', y⟩ := f
    obtain ⟨rfl, hR⟩ := hef
    simp only [lookup?] at ha ⊢
    split_ifs at ha ⊢ with hk
    · cases ha
      exact ⟨y, rfl, hk ▸ hR⟩
    · exact ih ha

theorem Pointwise.unchanged {u : Table α} {P : α → Prop}
    (h : Pointwise (fun _ a b => b = a ∧ P a) s u) : u = s ∧ ∀ a ∈ s.values, P a := by
  obtain ⟨es⟩ := s
  obtain ⟨gs⟩ := u
  have hentries : List.Forall₂ (fun e g => P e.2 ∧ e = g) es gs :=
    List.Forall₂.imp (fun e g heg => ⟨heg.2.2, Prod.ext heg.1 heg.2.1.symm⟩) h
  obtain ⟨hall, hsame⟩ := (List.forall₂_and_left es gs).1 hentries
  rw [List.forall₂_eq_eq_eq] at hsame
  subst hsame
  exact ⟨rfl, List.forall_mem_map.2 hall⟩

theorem get?_of_mem_entries (hn : s.keys.Nodup) {key : String} {a : α}
    (h : (key, a) ∈ s.entries) : s.get? key = some a := by
  obtain ⟨es⟩ := s
  simp only [keys, Table.get?] at hn h ⊢
  induction es with
  | nil => cases h
  | cons e es ih =>
    obtain ⟨k, b⟩ := e
    simp only [List.map_cons, List.nodup_cons] at hn
    rcases List.mem_cons.1 h with he | he
    · cases he
      simp [lookup?]
    · have hk : k ≠ key := by
        intro h
        subst h
        exact hn.1 (List.mem_map_of_mem he)
      simp only [lookup?, if_neg hk]
      exact ih hn.2 he

theorem mem_entries_of_get? {key : String} {a : α} (h : s.get? key = some a) :
    (key, a) ∈ s.entries := by
  obtain ⟨es⟩ := s
  simp only [Table.get?] at h ⊢
  induction es with
  | nil => cases h
  | cons e es ih =>
    obtain ⟨k, b⟩ := e
    simp only [lookup?] at h
    split_ifs at h with hk
    · cases h
      simp [hk]
    · exact List.mem_cons_of_mem _ (ih h)

theorem get?_of_mem_keys {key : String} (h : key ∈ s.keys) : ∃ a, s.get? key = some a := by
  obtain ⟨es⟩ := s
  simp only [keys, Table.get?] at h ⊢
  induction es with
  | nil => cases h
  | cons e es ih =>
    obtain ⟨k, b⟩ := e
    simp only [lookup?]
    split_ifs with hk
    · exact ⟨b, rfl⟩
    · exact ih ((List.mem_cons.1 h).resolve_left (Ne.symm hk))

theorem mem_entries_iff (hn : s.keys.Nodup) {e : String × α} :
    e ∈ s.entries ↔ s.get? e.1 = some e.2 :=
  ⟨get?_of_mem_entries hn, mem_entries_of_get?⟩

theorem entries_eq_map_keys (hn : s.keys.Nodup) (a : α) :
    s.entries = s.keys.map fun key => (key, (s.get? key).getD a) := by
  rw [keys, List.map_map]
  refine ((List.map_congr_left fun e he => ?_).trans (List.map_id _)).symm
  simp only [Function.comp_apply, get?_of_mem_entries hn he]
  rfl

theorem get?_map (f : α → β) (s : Table α) (key : String) :
    (s.map f).get? key = (s.get? key).map f := by
  obtain ⟨es⟩ := s
  simp only [map, Table.get?]
  induction es with
  | nil => rfl
  | cons e es ih =>
    simp only [List.map_cons, lookup?]
    split_ifs
    · rfl
    · exact ih

theorem keys_map (f : α → β) (s : Table α) : (s.map f).keys = s.keys := by
  simp [keys, map]

theorem mapM_eq_ok {f : String → α → Except Fault β} :
    s.mapM f = .ok t ↔ Pointwise (fun k a b => f k a = .ok b) s t := by
  obtain ⟨es⟩ := s
  obtain ⟨fs⟩ := t
  simp only [Table.mapM, Fault.bind_eq_ok, Fault.pure_eq_ok, Table.mk.injEq, exists_eq_right,
    Pointwise]
  induction es generalizing fs with
  | nil =>
    rw [List.forall₂_nil_left_iff, mapM.go, Fault.pure_eq_ok]
    exact eq_comm
  | cons e es ih =>
    simp only [mapM.go, Fault.bind_eq_ok, Fault.pure_eq_ok, List.forall₂_cons_left_iff]
    constructor
    · intro h
      obtain ⟨b, hb, fs', hfs, rfl⟩ := h
      exact ⟨(e.1, b), fs', ⟨rfl, hb⟩, (ih fs').1 hfs, rfl⟩
    · intro h
      obtain ⟨⟨k, b⟩, fs', ⟨rfl, hb⟩, hfs, rfl⟩ := h
      exact ⟨b, hb, fs', (ih fs').2 hfs, rfl⟩

theorem mapM_eq_self {f : String → α → Except Fault α}
    (h : ∀ e ∈ s.entries, f e.1 e.2 = .ok e.2) : s.mapM f = .ok s :=
  mapM_eq_ok.2 (List.forall₂_same.2 fun e he => ⟨rfl, h e he⟩)

theorem exists_mapM_eq_error {f : String → α → Except Fault β} {Kind : Fault → Prop}
    {before after : List (String × α)} {e : String × α} (hs : s.entries = before ++ e :: after)
    (hbefore : ∀ e ∈ before, (∃ b, f e.1 e.2 = .ok b) ∨ ∃ fault, Kind fault ∧
      f e.1 e.2 = .error fault)
    (hentry : ∃ fault, Kind fault ∧ f e.1 e.2 = .error fault) :
    ∃ fault, Kind fault ∧ s.mapM f = .error fault := by
  obtain ⟨es⟩ := s
  simp only at hs
  subst hs
  have hgo : ∃ fault, Kind fault ∧ mapM.go f (before ++ e :: after) = .error fault := by
    induction before with
    | nil =>
      obtain ⟨fault, hkind, hfault⟩ := hentry
      refine ⟨fault, hkind, ?_⟩
      simp only [List.nil_append, mapM.go, hfault]
      rfl
    | cons d before ih =>
      obtain ⟨hfirst, hrest⟩ := List.forall_mem_cons.1 hbefore
      rcases hfirst with ⟨b, hb⟩ | ⟨fault, hkind, hfault⟩
      · obtain ⟨fault, hkind, hlater⟩ := ih hrest
        refine ⟨fault, hkind, ?_⟩
        simp only [List.cons_append, mapM.go, hb, hlater]
        rfl
      · refine ⟨fault, hkind, ?_⟩
        simp only [List.cons_append, mapM.go, hfault]
        rfl
  obtain ⟨fault, hkind, hgo⟩ := hgo
  refine ⟨fault, hkind, ?_⟩
  simp only [Table.mapM, hgo]
  rfl

theorem mapM_eq_error_iff {f : String → α → Except Fault β} {fault : Fault} :
    s.mapM f = .error fault ↔ ∃ before e after, s.entries = before ++ e :: after ∧
      (∀ d ∈ before, ∃ b, f d.1 d.2 = .ok b) ∧ f e.1 e.2 = .error fault := by
  constructor
  · obtain ⟨es⟩ := s
    simp only [Table.mapM, Fault.bind_eq_error, Fault.pure_ne_error, and_false, exists_false,
      or_false]
    intro h
    induction es with
    | nil => exact absurd h Fault.pure_ne_error
    | cons d es ih =>
      simp only [mapM.go, Fault.bind_eq_error, Fault.pure_ne_error, and_false, exists_false,
        or_false] at h
      rcases h with hfirst | ⟨b, hb, hlater⟩
      · exact ⟨[], d, es, rfl, by simp, hfirst⟩
      · obtain ⟨before, e, after, hes, hbefore, he⟩ := ih hlater
        refine ⟨d :: before, e, after, congrArg (d :: ·) hes, ?_, he⟩
        exact List.forall_mem_cons.2 ⟨⟨b, hb⟩, hbefore⟩
  · intro h
    obtain ⟨before, e, after, hs, hbefore, he⟩ := h
    have hentry : ∃ fault', fault' = fault ∧ f e.1 e.2 = .error fault' := ⟨fault, rfl, he⟩
    obtain ⟨fault', rfl, herror⟩ :=
      exists_mapM_eq_error hs (fun d hd => .inl (hbefore d hd)) hentry
    exact herror

theorem mapM_eq_error {f : String → α → Except Fault β} {fault : Fault}
    (h : ∀ e ∈ s.entries, (∃ b, f e.1 e.2 = .ok b) ∨ f e.1 e.2 = .error fault)
    (hrefused : ∃ e ∈ s.entries, f e.1 e.2 = .error fault) : s.mapM f = .error fault := by
  obtain ⟨e, he, hfault⟩ := hrefused
  obtain ⟨before, after, hs⟩ := List.append_of_mem he
  have hbefore : ∀ d ∈ before, (∃ b, f d.1 d.2 = .ok b) ∨ ∃ fault', fault' = fault ∧
      f d.1 d.2 = .error fault' := by
    intro d hd
    exact (h d (hs ▸ List.mem_append_left _ hd)).imp id fun hd => ⟨fault, rfl, hd⟩
  obtain ⟨fault', rfl, herror⟩ := exists_mapM_eq_error hs hbefore ⟨fault, rfl, hfault⟩
  exact herror

theorem pointwise_map (f : α → β) (s : Table α) : Pointwise (fun _ a b => b = f a) s (s.map f) := by
  simp [Pointwise, map, List.forall₂_map_right_iff, List.forall₂_same]

theorem pointwise_modify (s : Table α) (key : String) (f : α → α) :
    Pointwise (fun k a b => b = if k = key then f a else a) s (s.modify key f) := by
  simp only [Pointwise, modify, List.forall₂_map_right_iff, List.forall₂_same]
  intro e _
  split_ifs <;> exact ⟨rfl, rfl⟩

theorem modify_of_not_mem_keys {key : String} (h : key ∉ s.keys) (f : α → α) :
    s.modify key f = s := by
  obtain ⟨es⟩ := s
  simp only [keys, List.mem_map, not_exists, not_and] at h
  simp only [modify, Table.mk.injEq]
  refine (List.map_congr_left fun e he => ?_).trans (List.map_id es)
  exact if_neg (h e he)

/-- A change of the entry of one key on the left goes with an insertion of that key on the right.
The keys must be distinct: `modify` would change each of several entries, `insert` the first. -/
theorem Pointwise.modify_insert (h : Pointwise R s t) (hn : s.keys.Nodup) {key : String} {a : α}
    (ha : s.get? key = some a) {f : α → α} {b : β} (hb : R key (f a) b) :
    Pointwise R (s.modify key f) (t.insert key b) := by
  obtain ⟨es⟩ := s
  obtain ⟨fs⟩ := t
  simp only [Pointwise, keys, Table.get?] at h hn ha ⊢
  induction h with
  | nil => cases ha
  | @cons e e' es' fs' hef hrest ih =>
    obtain ⟨k, x⟩ := e
    obtain ⟨k', y⟩ := e'
    obtain ⟨rfl, hR⟩ := hef
    simp only [List.map_cons, List.nodup_cons] at hn
    simp only [lookup?] at ha
    by_cases hk : k = key
    · subst hk
      rw [if_pos rfl] at ha
      cases ha
      have hes := Table.mk.inj (modify_of_not_mem_keys (s := ⟨es'⟩) hn.1 f)
      simp only [modify, insert, setEntry, List.map_cons, if_pos, hes]
      exact .cons ⟨rfl, hb⟩ hrest
    · rw [if_neg hk] at ha
      simp only [modify, insert, setEntry, List.map_cons, if_neg hk]
      exact .cons ⟨rfl, hR⟩ (ih hn.2 ha)

theorem get?_insert (s : Table α) (key k : String) (a : α) :
    (s.insert key a).get? k = if key = k then some a else s.get? k := by
  obtain ⟨es⟩ := s
  simp only [insert, Table.get?]
  induction es with
  | nil => simp [setEntry, lookup?]
  | cons e es ih =>
    obtain ⟨k', b⟩ := e
    by_cases hk : k' = key
    · subst hk
      simp only [setEntry, if_pos, lookup?]
      split_ifs <;> rfl
    · simp only [setEntry, if_neg hk, lookup?, ih]
      by_cases hkk : key = k
      · subst hkk
        simp [hk]
      · simp [hkk]

theorem map_fst_setEntry (key : String) (a : α) (es : List (String × α)) :
    (setEntry key a es).map (·.1) =
      if key ∈ es.map (·.1) then es.map (·.1) else es.map (·.1) ++ [key] := by
  induction es with
  | nil => simp [setEntry]
  | cons e es ih =>
    obtain ⟨k, b⟩ := e
    by_cases hk : k = key
    · simp [setEntry, hk]
    · simp only [setEntry, if_neg hk, List.map_cons, ih, List.mem_cons, Ne.symm hk, false_or]
      split_ifs <;> rfl

theorem keys_insert (s : Table α) (key : String) (a : α) :
    (s.insert key a).keys = if key ∈ s.keys then s.keys else s.keys ++ [key] :=
  map_fst_setEntry key a s.entries

theorem nodup_keys_insert (h : s.keys.Nodup) (key : String) (a : α) :
    (s.insert key a).keys.Nodup := by
  rw [keys_insert]
  split_ifs with hk
  · exact h
  · refine List.nodup_append.2 ⟨h, by simp, ?_⟩
    intro k hks k' hk'
    rw [List.mem_singleton.1 hk']
    exact ne_of_mem_of_not_mem hks hk

theorem nodup_keys_ofList (es : List (String × α)) : (ofList es).keys.Nodup := by
  have hfold : ∀ (t : Table α), t.keys.Nodup →
      (es.foldl (fun t e => t.insert e.1 e.2) t).keys.Nodup := by
    induction es with
    | nil => exact fun t ht => ht
    | cons e es ih => exact fun t ht => ih _ (nodup_keys_insert ht e.1 e.2)
  exact hfold empty .nil

theorem entries_insert_of_not_mem_keys {key : String} (h : key ∉ s.keys) (a : α) :
    (s.insert key a).entries = s.entries ++ [(key, a)] := by
  obtain ⟨es⟩ := s
  simp only [insert, keys] at h ⊢
  induction es with
  | nil => rfl
  | cons e es ih =>
    obtain ⟨k, b⟩ := e
    simp only [List.map_cons, List.mem_cons, not_or] at h
    simp only [setEntry, if_neg (Ne.symm h.1), ih h.2, List.cons_append]

theorem entries_ofList {es : List (String × α)} (h : (es.map (·.1)).Nodup) :
    (ofList es).entries = es := by
  have hfold : ∀ (t : Table α), (t.keys ++ es.map (·.1)).Nodup →
      (es.foldl (fun t e => t.insert e.1 e.2) t).entries = t.entries ++ es := by
    clear h
    induction es with
    | nil => exact fun t _ => (List.append_nil _).symm
    | cons e es ih =>
      intro t ht
      have hmem : e.1 ∉ t.keys := by
        intro he
        exact (List.nodup_append.1 ht).2.2 _ he _ List.mem_cons_self rfl
      have hentries := entries_insert_of_not_mem_keys hmem e.2
      have hkeys : (t.insert e.1 e.2).keys = t.keys ++ [e.1] := by
        rw [keys, hentries, List.map_append, ← keys]
        rfl
      rw [List.foldl_cons, ih, hentries, List.append_assoc, List.singleton_append]
      rw [hkeys, List.append_assoc]
      exact ht
  exact hfold empty h

end MinConflicts.Table
