import MinConflicts.Proofs.Rankings

/-!
# Where a search starts

A board can rank the slots of its cursors or leave them as the domains list them. Both boards
start at the same slots: the first slot of a ranking is the first one of the greatest preference,
and that is the one found by going through the slots as they are.
-/
namespace MinConflicts

variable {ss : List Slot} {s : Slot} {place : Nat}

namespace Cursor

theorem firstBest_append {before after : List Slot} {best : Binary64} {bestPlace : Nat}
    (hbest : best.lt s.preference = true)
    (hbefore : ∀ t ∈ before, t.preference.lt s.preference = true)
    (hafter : ∀ t ∈ after, s.preference.lt t.preference = false) (start : Nat) :
    firstBest best bestPlace start (before ++ s :: after) = start + before.length := by
  induction before generalizing best bestPlace start with
  | nil =>
    rw [List.nil_append, firstBest, if_pos hbest]
    exact firstBest_of_not_lt hafter (start + 1)
  | cons t before ih =>
    obtain ⟨ht, hrest⟩ := List.forall_mem_cons.1 hbefore
    rw [List.cons_append, firstBest, List.length_cons]
    split_ifs
    · rw [ih ht hrest]
      omega
    · rw [ih hbest hrest]
      omega

theorem preferredAt_append {before after : List Slot}
    (hbefore : ∀ t ∈ before, t.preference.lt s.preference = true)
    (hafter : ∀ t ∈ after, s.preference.lt t.preference = false) :
    preferredAt (before ++ s :: after) = before.length := by
  cases before with
  | nil => exact firstBest_of_not_lt hafter 1
  | cons t before =>
    obtain ⟨ht, hrest⟩ := List.forall_mem_cons.1 hbefore
    rw [List.cons_append, preferredAt, firstBest_append ht hrest hafter, List.length_cons,
      Nat.add_comm]

theorem preferredAt_eq (hfinite : ∀ t ∈ ss, t.preference.isFinite = true)
    (h : IsFirstBest ss s place) : preferredAt ss = place := by
  obtain ⟨before, after, rfl, rfl, hbefore, hafter⟩ := h.exists_append hfinite
  exact preferredAt_append hbefore hafter

end Cursor

/-- Over the values of a domain the first cursor holds a ranking and the second one the values as
they are listed. Both point to the slot from one place, which is the first best one. -/
structure Domain.StartsAt (d : Domain) (c c' : Cursor) (s : Slot) (place : Nat) : Prop where
  values : d.values = .ok (c'.slots.map (·.value))
  preferences : ∀ t ∈ c'.slots, d.preference t.value = .ok t.preference
  ranking : ∃ ranking, IsRanking (c'.slots.map (·.value)) ranking ∧
    c.slots = ranking.map (·.1) ∧ ranking.head? = some (s, place)
  firstBest : IsFirstBest c'.slots s place
  index : c.index = 0
  index' : c'.index = place
  current : c.current = .ok s
  current' : c'.current = .ok s

theorem Domain.StartsAt.values_perm {d : Domain} {c c' : Cursor} (h : d.StartsAt c c' s place) :
    (c.slots.map (·.value)).Perm (c'.slots.map (·.value)) := by
  obtain ⟨ranking, hranking, hslots, -⟩ := h.ranking
  have hvalues := hranking.perm.map Prod.fst
  rw [List.zipIdx_map_fst, List.map_map] at hvalues
  rw [hslots, List.map_map]
  exact hvalues

namespace Board

theorem exists_cursorOf_iff {sorted : Bool} {path : String} {d : Domain} :
    (∃ c, cursorOf sorted path d = .ok c) ↔ ∃ ss, d.slots = .ok ss ∧ ss ≠ [] := by
  simp only [cursorOf_iff]
  constructor
  · intro h
    obtain ⟨-, ss, hss, hne, -⟩ := h
    exact ⟨ss, hss, hne⟩
  · intro h
    obtain ⟨ss, hss, hne⟩ := h
    exact ⟨_, ss, hss, hne, rfl⟩

theorem exists_ofTree_iff {t : Tree} {sorted : Bool} : (∃ b, ofTree t sorted = .ok b) ↔
    ∃ flat, t.flatten "" = .ok flat ∧ ∀ e ∈ flat.entries, ∃ ss, e.2.slots = .ok ss ∧ ss ≠ [] := by
  simp only [ofTree_eq_ok]
  constructor
  · intro h
    obtain ⟨b, flat, hflat, hb⟩ := h
    refine ⟨flat, hflat, fun e he => ?_⟩
    obtain ⟨f, -, -, hf⟩ := hb.flip.of_mem_right he
    exact exists_cursorOf_iff.1 ⟨_, hf⟩
  · intro h
    obtain ⟨flat, hflat, hslots⟩ := h
    have hboard : ∃ b : Board,
        flat.Pointwise (fun path d c => cursorOf sorted path d = .ok c) b :=
      Table.exists_pointwise fun e he => exists_cursorOf_iff.2 (hslots e he)
    obtain ⟨b, hb⟩ := hboard
    exact ⟨b, flat, hflat, hb⟩

variable {b b' : Board}

theorem largest_eq_of_sizes (h : b.Pointwise (fun _ c c' => c.size = c'.size) b') :
    b.largest = b'.largest := by
  have hsizes : List.Forall₂ (· = ·) (b.values.map Cursor.size) (b'.values.map Cursor.size) := by
    simp only [Table.values, List.map_map, List.forall₂_map_left_iff, List.forall₂_map_right_iff]
    exact List.Forall₂.imp (fun _ _ hef => hef.2) h
  rw [List.forall₂_eq_eq_eq] at hsizes
  rw [largest, largest, hsizes]

theorem exists_assignment_eq
    (h : b.Pointwise (fun _ c c' => ∃ s, c.current = .ok s ∧ c'.current = .ok s) b') :
    ∃ a, b.assignment = .ok a ∧ b'.assignment = .ok a := by
  have hvalues : ∃ a : Assignment, b.Pointwise (fun _ c v => ∃ s, c.current = .ok s ∧
      s.value = v) a := by
    refine Table.exists_pointwise fun e he => ?_
    obtain ⟨f, -, -, s, hs, -⟩ := h.flip.of_mem_right he
    exact ⟨s.value, s, hs, rfl⟩
  obtain ⟨a, ha⟩ := hvalues
  refine ⟨a, assignment_eq_ok.2 ha, assignment_eq_ok.2 (h.flip.comp ha ?_)⟩
  intro path c' c v hcurrent hv
  obtain ⟨s, hs, hs'⟩ := hcurrent
  obtain ⟨t, ht, rfl⟩ := hv
  cases hs.symm.trans ht
  exact ⟨s, hs', rfl⟩

theorem cursorOf_startsAt {path : String} {d : Domain} {c c' : Cursor}
    (h : cursorOf true path d = .ok c) (h' : cursorOf false path d = .ok c') :
    ∃ s place, d.StartsAt c c' s place := by
  obtain ⟨hindex, -⟩ := (cursorOf_ranked h).1
  obtain ⟨ss, hss, hne, rfl⟩ := cursorOf_iff.1 h
  obtain ⟨ss', hss', -, rfl⟩ := cursorOf_iff.1 h'
  cases hss.symm.trans hss'
  have hfinite := Domain.slots_isFinite hss
  obtain ⟨ranking, hranking, hperm, hranked⟩ := Domain.exists_ranking hfinite
  cases ranking with
  | nil =>
    have hlength := hperm.length_eq
    rw [List.length_zipIdx] at hlength
    exact absurd (List.length_eq_zero_iff.1 hlength.symm) hne
  | cons e rest =>
    obtain ⟨s, place⟩ := e
    have hbest := isFirstBest_of_head hperm hranking.ordered rfl
    have hplace := Cursor.preferredAt_eq hfinite hbest
    refine ⟨s, place, ?_⟩
    exact {
      values := Domain.values_of_slots hss
      preferences := (Domain.slots_eq_ok.1 hss).2
      ranking := ⟨_, hranking, hranked, rfl⟩
      firstBest := hbest
      index := hindex
      index' := congrArg Nat.cast hplace
      current := by
        rw [Cursor.current, hindex]
        exact nth_natCast (by simp [Cursor.ofSlots, hranked])
      current' := by
        have hslot := nth_natCast hbest.slot
        rw [← hplace] at hslot
        exact hslot }

/-- A tree gives a board of ranked slots if and only if it gives one of unranked slots. Both have
the same paths in the same order, cursors of the same sizes and the same assignment, and at each
path they hold the same slots and start at the slot from the same place: the first one of the
greatest preference in the order of the domain. -/
theorem ranked_starts_as_unranked (t : Tree) :
    ((∃ b, ofTree t true = .ok b) ↔ ∃ b, ofTree t false = .ok b) ∧
    ∀ b b', ofTree t true = .ok b → ofTree t false = .ok b' →
      b.keys = b'.keys ∧ b.largest = b'.largest ∧
      (∃ a, b.assignment = .ok a ∧ b'.assignment = .ok a) ∧
      ∃ flat, t.flatten "" = .ok flat ∧ flat.keys = b.keys ∧ ∀ path d, (path, d) ∈ flat.entries →
        ∃ c c' s place, b.get? path = some c ∧ b'.get? path = some c' ∧
          (c.slots.map (·.value)).Perm (c'.slots.map (·.value)) ∧ d.StartsAt c c' s place := by
  refine ⟨exists_ofTree_iff.trans exists_ofTree_iff.symm, fun b b' hb hb' => ?_⟩
  obtain ⟨flat, hflat, hcursors⟩ := ofTree_eq_ok.1 hb
  obtain ⟨flat', hflat', hcursors'⟩ := ofTree_eq_ok.1 hb'
  cases hflat.symm.trans hflat'
  have hstarts : b.Pointwise (fun _ c c' => ∃ (d : Domain) (s : Slot) (place : Nat),
      d.StartsAt c c' s place) b' := by
    refine hcursors.flip.comp hcursors' fun path c d c' hc hc' => ?_
    obtain ⟨s, place, hstart⟩ := cursorOf_startsAt hc hc'
    exact ⟨d, s, place, hstart⟩
  refine ⟨hstarts.keys_eq, largest_eq_of_sizes (hstarts.imp ?_),
    exists_assignment_eq (hstarts.imp ?_), flat, hflat, hcursors.keys_eq, ?_⟩
  · intro path c c' hstart
    obtain ⟨d, s, place, hstart⟩ := hstart
    simpa [Cursor.size] using hstart.values_perm.length_eq
  · intro path c c' hstart
    obtain ⟨d, s, place, hstart⟩ := hstart
    exact ⟨s, hstart.current, hstart.current'⟩
  · intro path d hd
    have hflatAt := Table.get?_of_mem_entries (flatten_keys_nodup hflat) hd
    obtain ⟨c, hcAt, hc⟩ := hcursors.get? hflatAt
    obtain ⟨c', hcAt', hc'⟩ := hcursors'.get? hflatAt
    obtain ⟨s, place, hstart⟩ := cursorOf_startsAt hc hc'
    exact ⟨c, c', s, place, hcAt, hcAt', hstart.values_perm, hstart⟩

theorem tiedTree_starts_at_second : ∃ b b' a c c' s, ofTree (tiedTree []) true = .ok b ∧
    ofTree (tiedTree []) false = .ok b' ∧ b.assignment = .ok a ∧ b'.assignment = .ok a ∧
    b.values.map (·.index) = [0] ∧ b'.values.map (·.index) = [1] ∧
    b.get? "a" = some c ∧ b'.get? "a" = some c' ∧ tiedDomain.StartsAt c c' s 1 := by
  have hindex : (ofTree (tiedTree []) true).toOption.map (fun b => b.values.map (·.index)) =
      some [0] := by decide +kernel
  have hindex' : (ofTree (tiedTree []) false).toOption.map (fun b => b.values.map (·.index)) =
      some [1] := by decide +kernel
  cases hb : ofTree (tiedTree []) true with
  | error e =>
    rw [hb] at hindex
    cases hindex
  | ok b =>
    cases hb' : ofTree (tiedTree []) false with
    | error e =>
      rw [hb'] at hindex'
      cases hindex'
    | ok b' =>
      rw [hb, Except.toOption, Option.map_some, Option.some.injEq] at hindex
      rw [hb', Except.toOption, Option.map_some, Option.some.injEq] at hindex'
      obtain ⟨-, -, ⟨a, ha, ha'⟩, flat, hflat, -, hstarts⟩ :=
        (ranked_starts_as_unranked (tiedTree [])).2 b b' hb hb'
      cases hflat
      obtain ⟨c, c', s, place, hc, hc', -, hstart⟩ :=
        hstarts "a" tiedDomain List.mem_cons_self
      have hmem : c'.index ∈ b'.values.map (·.index) :=
        List.mem_map.2 ⟨c', List.mem_map.2 ⟨_, Table.mem_entries_of_get? hc', rfl⟩, rfl⟩
      rw [hindex', List.mem_singleton, hstart.index'] at hmem
      cases Int.ofNat_inj.1 hmem
      exact ⟨b, b', a, c, c', s, rfl, rfl, ha, ha', hindex, hindex', hc, hc', hstart⟩

end Board

end MinConflicts
