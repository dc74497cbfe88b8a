import MinConflicts.Proofs.Boards

/-!
# Favourite slots

Preferences are finite numbers, so they are ordered by value. A ranking lists slots from the most
to the least preferred, each with the place it has in its domain; slots of one preference are in
the order of their places. The favourite of some slots is the first one of the greatest
preference, and a ranking puts it in front: a board made of ranked slots starts with every cursor
at place 0, which is also the preferred place, and its assignment gives every path the favourite
value of the domain there.
-/
namespace MinConflicts

namespace Binary64

/-- The value of a finite number; other numbers have none and count as 0. -/
def toRat : Binary64 → ℚ
  | .finite x => x.toRat
  | _ => 0

theorem toRat_zero (neg : Bool) : (zero neg).toRat = 0 := by
  cases neg <;> simp [zero, toRat, Finite.toRat, Finite.signed]

theorem lt_iff_toRat_lt {x y : Binary64} (hx : x.isFinite = true) (hy : y.isFinite = true) :
    x.lt y = true ↔ x.toRat < y.toRat := by
  cases x with
  | nan | infinity => simp [isFinite] at hx
  | finite x =>
    cases y with
    | nan | infinity => simp [isFinite] at hy
    | finite y =>
      simp only [lt, compare?, toRat, Finite.compare_eq, beq_iff_eq, Option.some.injEq,
        compare_lt_iff_lt]

end Binary64

namespace Domain

theorem clampPreference_isFinite (x : Binary64) : (clampPreference x).isFinite = true := by
  cases x with
  | nan l => rfl
  | infinity neg => cases neg <;> decide
  | finite x =>
    simp only [clampPreference]
    split_ifs <;> rfl

theorem exists_clampPreference {d : Domain} {v : Value} {p : Binary64}
    (h : d.preference v = .ok p) : ∃ x, p = clampPreference x := by
  obtain ⟨w, -, hw⟩ := Fault.bind_eq_ok.1 h
  obtain ⟨x, -, hx⟩ := Fault.bind_eq_ok.1 hw
  exact ⟨x, (Fault.pure_eq_ok.1 hx).symm⟩

theorem slots_isFinite {d : Domain} {ss : List Slot} (h : d.slots = .ok ss) :
    ∀ s ∈ ss, s.preference.isFinite = true := by
  intro s hs
  obtain ⟨x, hx⟩ := exists_clampPreference ((slots_eq_ok.1 h).2 s hs)
  rw [hx]
  exact clampPreference_isFinite x

end Domain

variable {ss rest : List Slot} {s : Slot} {place : Nat}

def Precedes (e f : Slot × Nat) : Prop :=
  f.1.preference.toRat < e.1.preference.toRat ∨
    (f.1.preference.toRat = e.1.preference.toRat ∧ e.2 < f.2)

theorem Precedes.trans (e f g : Slot × Nat) (hef : Precedes e f) (hfg : Precedes f g) :
    Precedes e g := by
  rcases hef with hef | ⟨hef, hplace⟩
  · rcases hfg with hfg | ⟨hfg, -⟩
    · exact .inl (hfg.trans hef)
    · exact .inl (hfg.trans_lt hef)
  · rcases hfg with hfg | ⟨hfg, hplace'⟩
    · exact .inl (hef ▸ hfg)
    · exact .inr ⟨hfg.trans hef, hplace.trans hplace'⟩

/-- Every value has one slot with its place, and each slot goes before all later ones. -/
structure IsRanking (vs : List Value) (ranking : List (Slot × Nat)) : Prop where
  perm : (ranking.map fun e => (e.1.value, e.2)).Perm vs.zipIdx
  ordered : ranking.Pairwise Precedes

def Slot.follows (t s : Slot) : Bool := !s.preference.lt t.preference

namespace Domain

theorem exists_ranking (hfinite : ∀ s ∈ ss, s.preference.isFinite = true) :
    ∃ ranking, IsRanking (ss.map (·.value)) ranking ∧ ranking.Perm ss.zipIdx ∧
      ranked ss = ranking.map (·.1) := by
  have hperm := sortBy_perm (fun f e : Slot × Nat => f.1.follows e.1) ss.zipIdx
  refine ⟨_, ⟨?_, ?_⟩, hperm, ?_⟩
  · rw [List.zipIdx_map]
    exact hperm.map _
  · refine pairwise_sortBy Precedes.trans ((zipIdx_pairwise_lt ss).imp_of_mem ?_)
    intro e f he hf hplace
    have hefinite := hfinite e.1 (List.fst_mem_of_mem_zipIdx he)
    have hffinite := hfinite f.1 (List.fst_mem_of_mem_zipIdx hf)
    -- the later of two places goes first only if its slot is preferred
    by_cases hlt : e.1.preference.lt f.1.preference = true
    · rw [if_neg (by simp [Slot.follows, hlt])]
      exact .inl ((Binary64.lt_iff_toRat_lt hefinite hffinite).1 hlt)
    · rw [if_pos (by simpa [Slot.follows] using hlt)]
      rw [Binary64.lt_iff_toRat_lt hefinite hffinite, not_lt] at hlt
      exact hlt.lt_or_eq.imp id fun heq => ⟨heq, hplace⟩
  · have hcarried := map_sortBy Slot.follows Prod.fst ss.zipIdx
    rw [List.zipIdx_map_fst] at hcarried
    exact hcarried.symm

end Domain

/-- No slot is preferred to the one at a place, and those before it are less preferred. -/
structure IsFirstBest (ss : List Slot) (s : Slot) (place : Nat) : Prop where
  slot : ss[place]? = some s
  best : ∀ (k : Nat) (t : Slot), ss[k]? = some t → t.preference.toRat ≤ s.preference.toRat
  first : ∀ (k : Nat) (t : Slot), ss[k]? = some t → k < place →
    t.preference.toRat < s.preference.toRat

theorem isFirstBest_of_head {ranking : List (Slot × Nat)} (hperm : ranking.Perm ss.zipIdx)
    (hordered : ranking.Pairwise Precedes) (hhead : ranking.head? = some (s, place)) :
    IsFirstBest ss s place := by
  obtain ⟨rest, rfl⟩ := List.head?_eq_some_iff.1 hhead
  obtain ⟨hfirst, -⟩ := List.pairwise_cons.1 hordered
  have hcases : ∀ (k : Nat) (t : Slot), ss[k]? = some t →
      (t, k) = (s, place) ∨ Precedes (s, place) (t, k) := by
    intro k t ht
    have hmem := hperm.mem_iff.2 (List.mk_mem_zipIdx_iff_getElem?.2 ht)
    exact (List.mem_cons.1 hmem).imp id (hfirst (t, k))
  refine ⟨List.mk_mem_zipIdx_iff_getElem?.1 (hperm.mem_iff.1 List.mem_cons_self), ?_, ?_⟩
  · intro k t ht
    rcases hcases k t ht with heq | hless | ⟨heq, -⟩
    · cases heq
      exact le_rfl
    · exact hless.le
    · exact heq.le
  · intro k t ht hk
    rcases hcases k t ht with heq | hless | ⟨-, hplace⟩
    · cases heq
      exact absurd hk (lt_irrefl _)
    · exact hless
    · exact absurd hk (not_lt.2 (Nat.le_of_lt hplace))

def IsFavourite (ss : List Slot) (s : Slot) : Prop :=
  ∃ before after, ss = before ++ s :: after ∧
    (∀ t ∈ before, t.preference.lt s.preference = true) ∧
    ∀ t ∈ after, s.preference.lt t.preference = false

theorem IsFavourite.mem (h : IsFavourite ss s) : s ∈ ss := by
  obtain ⟨before, after, rfl, -, -⟩ := h
  simp

theorem IsFavourite.not_lt (hfinite : ∀ t ∈ ss, t.preference.isFinite = true)
    (h : IsFavourite ss s) : ∀ t ∈ ss, s.preference.lt t.preference = false := by
  have hs := hfinite s h.mem
  obtain ⟨before, after, rfl, hbefore, hafter⟩ := h
  intro t ht
  have hts := hfinite t ht
  rcases List.mem_append.1 ht with hmem | hmem
  · have hlt := hbefore t hmem
    rw [Binary64.lt_iff_toRat_lt hts hs] at hlt
    rw [Bool.eq_false_iff, ne_eq, Binary64.lt_iff_toRat_lt hs hts]
    exact not_lt.2 hlt.le
  · rcases List.mem_cons.1 hmem with rfl | hmem
    · rw [Bool.eq_false_iff, ne_eq, Binary64.lt_iff_toRat_lt hs hs]
      exact lt_irrefl _
    · exact hafter t hmem

theorem IsFirstBest.exists_append (hfinite : ∀ t ∈ ss, t.preference.isFinite = true)
    (h : IsFirstBest ss s place) : ∃ before after, ss = before ++ s :: after ∧
      before.length = place ∧ (∀ t ∈ before, t.preference.lt s.preference = true) ∧
      ∀ t ∈ after, s.preference.lt t.preference = false := by
  obtain ⟨hlt, hs⟩ := List.getElem?_eq_some_iff.1 h.slot
  have hsplit : ss = ss.take place ++ s :: ss.drop (place + 1) := by
    rw [← hs, List.getElem_cons_drop, List.take_append_drop]
  have hsfinite := hfinite s (List.mem_of_getElem? h.slot)
  refine ⟨_, _, hsplit, List.length_take_of_le hlt.le, ?_, ?_⟩
  · intro t ht
    obtain ⟨k, hk⟩ := List.mem_iff_getElem?.1 ht
    rw [List.getElem?_take] at hk
    split_ifs at hk with hkplace
    rw [Binary64.lt_iff_toRat_lt (hfinite t (List.mem_of_mem_take ht)) hsfinite]
    exact h.first k t hk hkplace
  · intro t ht
    obtain ⟨k, hk⟩ := List.mem_iff_getElem?.1 ht
    rw [List.getElem?_drop] at hk
    rw [Bool.eq_false_iff, ne_eq,
      Binary64.lt_iff_toRat_lt hsfinite (hfinite t (List.mem_of_mem_drop ht)), not_lt]
    exact h.best _ t hk

namespace Domain

theorem isFavourite_of_ranked (hfinite : ∀ t ∈ ss, t.preference.isFinite = true)
    (h : ranked ss = s :: rest) : IsFavourite ss s := by
  obtain ⟨ranking, hranking, hperm, hranked⟩ := exists_ranking hfinite
  obtain ⟨⟨t, place⟩, later, rfl, rfl, -⟩ := List.map_eq_cons_iff.1 (hranked.symm.trans h)
  have hbest := isFirstBest_of_head hperm hranking.ordered rfl
  obtain ⟨before, after, hsplit, -, hbefore, hafter⟩ := hbest.exists_append hfinite
  exact ⟨before, after, hsplit, hbefore, hafter⟩

def Favours (d : Domain) (v : Value) : Prop :=
  ∃ ss s, d.slots = .ok ss ∧ IsFavourite ss s ∧ s.value = v

end Domain

/-- The assignment gives every flattened path the favourite value of the domain there. -/
def Tree.Prefers (t : Tree) (a : Assignment) : Prop :=
  ∃ flat, t.flatten "" = .ok flat ∧ flat.Pointwise (fun _ d v => d.Favours v) a

namespace Cursor

theorem firstBest_of_not_lt {best : Binary64} {bestPlace : Nat}
    (h : ∀ t ∈ ss, best.lt t.preference = false) (place : Nat) :
    firstBest best bestPlace place ss = bestPlace := by
  induction ss generalizing place with
  | nil => rfl
  | cons t ts ih =>
    obtain ⟨ht, hts⟩ := List.forall_mem_cons.1 h
    simp only [firstBest, ht, Bool.false_eq_true, if_false]
    exact ih hts (place + 1)

/-- The cursor is at place 0, and that is its preferred place. -/
def AtFront (c : Cursor) : Prop := c.index = 0 ∧ c.preferred = 0

end Cursor

namespace Board

variable {b : Board}

def AtFront (b : Board) : Prop := ∀ e ∈ b.entries, e.2.AtFront

theorem cursorOf_ranked {path : String} {d : Domain} {c : Cursor}
    (h : cursorOf true path d = .ok c) : c.AtFront ∧
      ∃ s, c.slots[0]? = some s ∧ d.Favours s.value := by
  obtain ⟨ss, hss, hne, rfl⟩ := cursorOf_iff.1 h
  have hfinite := Domain.slots_isFinite hss
  have hperm : (Domain.ranked ss).Perm ss := sortBy_perm _ ss
  cases hranked : Domain.ranked ss with
  | nil =>
    rw [hranked] at hperm
    exact absurd (List.nil_perm.1 hperm) hne
  | cons s rest =>
    have hfavourite := Domain.isFavourite_of_ranked hfinite hranked
    have hfront : Cursor.preferredAt (s :: rest) = 0 := by
      apply Cursor.firstBest_of_not_lt
      intro t ht
      have hmem : t ∈ ss := hperm.mem_iff.1 (hranked ▸ List.mem_cons_of_mem s ht)
      exact hfavourite.not_lt hfinite t hmem
    refine ⟨?_, s, ?_, ss, s, hss, hfavourite, rfl⟩
    · simp [Cursor.AtFront, Cursor.ofSlots, hfront]
    · simp [Cursor.ofSlots]

theorem ofTree_atFront {t : Tree} (h : ofTree t true = .ok b) : b.AtFront := by
  intro e he
  obtain ⟨flat, -, hb⟩ := ofTree_eq_ok.1 h
  obtain ⟨d, -, -, hd⟩ := hb.of_mem_right he
  exact (cursorOf_ranked hd).1

theorem ofTree_prefers {t : Tree} (h : ofTree t true = .ok b) {a : Assignment}
    (ha : b.assignment = .ok a) : t.Prefers a := by
  obtain ⟨flat, hflat, hb⟩ := ofTree_eq_ok.1 h
  refine ⟨flat, hflat, hb.comp (assignment_eq_ok.1 ha) ?_⟩
  intro path d c v hc hv
  obtain ⟨hfront, s, hs, hfavours⟩ := cursorOf_ranked hc
  obtain ⟨s', hs', rfl⟩ := hv
  have hnth : c.current = .ok s := by
    rw [Cursor.current, hfront.1]
    exact nth_natCast hs
  rw [hnth] at hs'
  cases hs'
  exact hfavours

theorem AtFront.reset (h : b.AtFront) : b.reset = b := by
  obtain ⟨es⟩ := b
  simp only [Board.reset, Table.map, Table.mk.injEq]
  refine (List.map_congr_left fun e he => ?_).trans (List.map_id es)
  obtain ⟨hindex, hpreferred⟩ := h e he
  obtain ⟨path, ⟨index, slots, preferred⟩⟩ := e
  simp_all

theorem AtFront.move_zero (h : b.AtFront) (path : String) : b.move path 0 = b := by
  obtain ⟨es⟩ := b
  simp only [Board.move, Table.modify, Table.mk.injEq]
  refine (List.map_congr_left fun e he => ?_).trans (List.map_id es)
  obtain ⟨hindex, -⟩ := h e he
  obtain ⟨k, ⟨index, slots, preferred⟩⟩ := e
  simp_all

end Board

end MinConflicts
