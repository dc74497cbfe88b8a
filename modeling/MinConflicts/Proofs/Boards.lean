import MinConflicts.Proofs.Positions
import MinConflicts.Proofs.Sorting
import MinConflicts.Proofs.Tables
import MinConflicts.Search.Board

/-!
# Boards

The board of a tree has a cursor for each flattened path. Its slots hold the values of the domain
at the path in some order, and it starts at its preferred slot. Afterwards only indices change:
`Alike` cursors have the same slots and the same preferred one, and every operation on boards
leads to cursors alike.
-/
namespace MinConflicts

namespace Domain

variable {d : Domain} {ss : List Slot}

theorem slot_eq_ok {v : Value} {s : Slot} :
    (do return ⟨v, ← d.preference v⟩ : Except Fault Slot) = .ok s ↔
      d.preference s.value = .ok s.preference ∧ v = s.value := by
  simp only [Fault.bind_eq_ok, Fault.pure_eq_ok]
  constructor
  · intro h
    obtain ⟨p, hp, rfl⟩ := h
    exact ⟨hp, rfl⟩
  · intro h
    obtain ⟨hp, rfl⟩ := h
    exact ⟨_, hp, rfl⟩

theorem slots_eq_ok : d.slots = .ok ss ↔ d.values = .ok (ss.map (·.value)) ∧
    ∀ s ∈ ss, d.preference s.value = .ok s.preference := by
  constructor
  · intro h
    obtain ⟨vs, hvs, hss⟩ := Fault.bind_eq_ok.1 h
    have hslots := (Fault.mapM_eq_ok.1 hss).imp fun _ _ => slot_eq_ok.1
    obtain ⟨hpreferences, hvalues⟩ := (List.forall₂_and_left ss vs).1 hslots.flip
    have hmap : List.Forall₂ (· = ·) vs (ss.map (·.value)) :=
      List.forall₂_map_right_iff.2 hvalues.flip
    rw [List.forall₂_eq_eq_eq] at hmap
    exact ⟨hmap ▸ hvs, hpreferences⟩
  · intro h
    obtain ⟨hvalues, hpreferences⟩ := h
    refine Fault.bind_eq_ok.2 ⟨_, hvalues, Fault.mapM_eq_ok.2 (List.forall₂_map_left_iff.2 ?_)⟩
    exact List.forall₂_same.2 fun s hs => slot_eq_ok.2 ⟨hpreferences s hs, rfl⟩

theorem values_of_slots (h : d.slots = .ok ss) : d.values = .ok (ss.map (·.value)) :=
  (slots_eq_ok.1 h).1

end Domain

namespace Cursor

/-- Same slots, same preferred slot; the index may differ. -/
def Alike (c d : Cursor) : Prop := d.slots = c.slots ∧ d.preferred = c.preferred

def InRange (c : Cursor) : Prop := 0 ≤ c.index ∧ c.index < c.size

theorem Alike.trans {c d e : Cursor} (hcd : c.Alike d) (hde : d.Alike e) : c.Alike e :=
  ⟨hde.1.trans hcd.1, hde.2.trans hcd.2⟩

theorem firstBest_lt (best : Binary64) {bestPlace place n : Nat} (ss : List Slot)
    (hb : bestPlace < n) (hp : place + ss.length ≤ n) : firstBest best bestPlace place ss < n := by
  induction ss generalizing best bestPlace place with
  | nil => exact hb
  | cons s ss ih =>
    simp only [List.length_cons] at hp
    unfold firstBest
    split_ifs
    · exact ih _ (by omega) (by omega)
    · exact ih _ hb (by omega)

theorem preferredAt_lt {ss : List Slot} (h : ss ≠ []) : preferredAt ss < ss.length := by
  cases ss with
  | nil => exact absurd rfl h
  | cons s ss => exact firstBest_lt _ ss (by simp) (by simp [Nat.add_comm])

theorem mem_slots_of_current {c : Cursor} {s : Slot} (h : c.current = .ok s) : s ∈ c.slots :=
  mem_of_nth h

end Cursor

namespace Board

theorem cursorOf_iff {sorted : Bool} {path : String} {d : Domain} {c : Cursor} :
    cursorOf sorted path d = .ok c ↔ ∃ ss, d.slots = .ok ss ∧ ss ≠ [] ∧
      c = .ofSlots (if sorted then Domain.ranked ss else ss) := by
  simp only [cursorOf, Fault.bind_eq_ok]
  refine exists_congr fun ss => and_congr_right fun _ => ?_
  by_cases hempty : ss = []
  · simp [hempty]
  · rw [if_neg (by simpa using hempty), Fault.pure_eq_ok, eq_comm]
    simp [hempty]

theorem cursorOf_eq_ok {sorted : Bool} {path : String} {d : Domain} {c : Cursor}
    (h : cursorOf sorted path d = .ok c) : ∃ ss, d.slots = .ok ss ∧ c.slots.Perm ss ∧
      c.slots ≠ [] ∧ c = .ofSlots c.slots := by
  obtain ⟨ss, hss, hne, rfl⟩ := cursorOf_iff.1 h
  have hperm : (if sorted then Domain.ranked ss else ss).Perm ss := by
    split_ifs
    · exact sortBy_perm _ ss
    · exact .refl ss
  exact ⟨ss, hss, hperm, fun hnil => hne (List.nil_perm.1 (hnil ▸ hperm)), rfl⟩

theorem cursorOf_values {sorted : Bool} {path : String} {d : Domain} {c : Cursor}
    (h : cursorOf sorted path d = .ok c) :
    ∃ vs, d.values = .ok vs ∧ (c.slots.map (·.value)).Perm vs := by
  obtain ⟨ss, hss, hperm, -⟩ := cursorOf_eq_ok h
  exact ⟨_, Domain.values_of_slots hss, hperm.map _⟩

theorem cursorOf_start {sorted : Bool} {path : String} {d : Domain} {c : Cursor}
    (h : cursorOf sorted path d = .ok c) : c.index = c.preferred ∧ c.preferred < c.size := by
  obtain ⟨-, -, -, hne, hc⟩ := cursorOf_eq_ok h
  rw [hc]
  exact ⟨rfl, Cursor.preferredAt_lt hne⟩

theorem flatten_keys_nodup {t : Tree} {place : String} {flat : Table Domain}
    (h : t.flatten place = .ok flat) : flat.keys.Nodup := by
  cases t with
  | leaf d => cases h
  | other kind => cases h
  | branch items =>
    obtain ⟨es, -, hes⟩ := Fault.bind_eq_ok.1 h
    rw [← Fault.pure_eq_ok.1 hes]
    exact Table.nodup_keys_ofList es

theorem ofTree_eq_ok {t : Tree} {sorted : Bool} {b : Board} :
    ofTree t sorted = .ok b ↔ ∃ flat, t.flatten "" = .ok flat ∧
      flat.Pointwise (fun path d c => cursorOf sorted path d = .ok c) b := by
  simp only [ofTree, Fault.bind_eq_ok, Table.mapM_eq_ok]

theorem ofTree_keys_nodup {t : Tree} {sorted : Bool} {b : Board} (h : ofTree t sorted = .ok b) :
    b.keys.Nodup := by
  obtain ⟨flat, hflat, hb⟩ := ofTree_eq_ok.1 h
  exact hb.keys_eq ▸ flatten_keys_nodup hflat

variable {b b' : Board}

theorem assignment_eq_ok {a : Assignment} : b.assignment = .ok a ↔
    b.Pointwise (fun _ c v => ∃ s, c.current = .ok s ∧ s.value = v) a := by
  simp only [assignment, Table.mapM_eq_ok, Fault.bind_eq_ok, Fault.pure_eq_ok]

def Alike (b b' : Board) : Prop := b.Pointwise (fun _ => Cursor.Alike) b'

def InRange (b : Board) : Prop := ∀ e ∈ b.entries, e.2.InRange

theorem Alike.trans {b'' : Board} (h : b.Alike b') (h' : b'.Alike b'') : b.Alike b'' :=
  h.comp h' fun _ _ _ _ => Cursor.Alike.trans

theorem alike_refl (b : Board) : b.Alike b :=
  List.forall₂_same.2 fun _ _ => ⟨rfl, rfl, rfl⟩

theorem alike_reset (b : Board) : b.Alike b.reset :=
  (Table.pointwise_map _ b).imp fun _ _ _ h => h ▸ ⟨rfl, rfl⟩

theorem alike_move (b : Board) (path : String) (i : Int) : b.Alike (b.move path i) := by
  refine (Table.pointwise_modify b path _).imp fun k c c' h => ?_
  subst h
  split_ifs <;> exact ⟨rfl, rfl⟩

theorem assignment_move {a : Assignment} (h : b.assignment = .ok a) (hn : b.keys.Nodup)
    {path : String} {c : Cursor} (hc : b.get? path = some c) {i : Nat} {s : Slot}
    (hs : c.slots[i]? = some s) : (b.move path i).assignment = .ok (a.insert path s.value) := by
  rw [assignment_eq_ok] at h ⊢
  exact h.modify_insert hn hc ⟨s, nth_natCast hs, rfl⟩

/-- The cursors can be moved to where the assignment is. -/
def Offers (b : Board) (a : Assignment) : Prop := ∃ b', b.Alike b' ∧ b'.assignment = .ok a

theorem Offers.pointwise {sorted : Bool} {flat : Table Domain} {a : Assignment}
    (hboard : flat.Pointwise (fun path d c => cursorOf sorted path d = .ok c) b)
    (h : b.Offers a) : flat.Pointwise (fun _ d v => ∃ vs, d.values = .ok vs ∧ v ∈ vs) a := by
  obtain ⟨b', halike, ha⟩ := h
  have hcursors := hboard.comp halike (P := fun _ d c => ∃ vs, d.values = .ok vs ∧
      ∀ s ∈ c.slots, s.value ∈ vs) ?_
  · refine hcursors.comp (assignment_eq_ok.1 ha) ?_
    intro path d c v h h'
    obtain ⟨vs, hvs, hslots⟩ := h
    obtain ⟨s, hs, rfl⟩ := h'
    exact ⟨vs, hvs, hslots s (Cursor.mem_slots_of_current hs)⟩
  · intro path d c c' hc halike
    obtain ⟨vs, hvs, hperm⟩ := cursorOf_values hc
    refine ⟨vs, hvs, fun s hs => hperm.mem_iff.1 ?_⟩
    rw [halike.1] at hs
    exact List.mem_map_of_mem hs

theorem scatterEntries_cons_eq_ok {M : Type} {source : Draws} {path : String} {c : Cursor}
    {es moved : List (String × Cursor)} {j j' : Journal M} :
    scatterEntries source ((path, c) :: es) j = .ok (moved, none) j' ↔
      ∃ i moved', position (source j.draws) c.size = .ok i ∧
        scatterEntries source es { j with draws := j.draws + 1 } = .ok (moved', none) j' ∧
        moved = (path, { c with index := i }) :: moved' := by
  simp only [scatterEntries, Search.bind_eq_ok, Search.draw_eq_ok]
  constructor
  · intro h
    obtain ⟨r, j₁, ⟨rfl, rfl⟩, h⟩ := h
    cases hi : position (source j.draws) c.size with
    | error e =>
      simp only [hi] at h
      cases (Search.pure_eq_ok.1 h).1
    | ok i =>
      simp only [hi] at h
      obtain ⟨⟨moved', fault⟩, j₂, hrest, h⟩ := Search.bind_eq_ok.1 h
      obtain ⟨hm, rfl⟩ := Search.pure_eq_ok.1 h
      cases hm
      exact ⟨i, moved', rfl, hrest, rfl⟩
  · intro h
    obtain ⟨i, moved', hi, hrest, rfl⟩ := h
    refine ⟨_, _, ⟨rfl, rfl⟩, ?_⟩
    simp only [hi]
    exact Search.bind_eq_ok.2 ⟨_, _, hrest, rfl⟩

theorem scatterEntries_eq_ok {M : Type} {source : Draws} {es moved : List (String × Cursor)}
    {j j' : Journal M} (h : scatterEntries source es j = .ok (moved, none) j') :
    List.Forall₂ (fun e e' => e.1 = e'.1 ∧ ∃ k i, position (source k) e.2.size = .ok i ∧
      e'.2 = { e.2 with index := i }) es moved := by
  induction es generalizing moved j with
  | nil =>
    cases (Search.pure_eq_ok.1 h).1
    exact .nil
  | cons e es ih =>
    obtain ⟨i, moved', hi, hrest, rfl⟩ := scatterEntries_cons_eq_ok.1 h
    exact .cons ⟨rfl, j.draws, i, hi, rfl⟩ (ih hrest)

theorem randomize_iff_scatterEntries {M : Type} {source : Draws} {j j' : Journal M} :
    b.randomize source j = .ok b' j' ↔
      scatterEntries source b.entries j = .ok (b'.entries, none) j' := by
  constructor
  · intro h
    obtain ⟨⟨moved, fault⟩, j₁, hs, h⟩ := Search.bind_eq_ok.1 h
    obtain ⟨⟨es, f⟩, j₂, hes, hs⟩ := Search.bind_eq_ok.1 hs
    obtain ⟨hm, rfl⟩ := Search.pure_eq_ok.1 hs
    cases hm
    cases fault with
    | some e => exact absurd h Search.throw_ne_ok
    | none =>
      obtain ⟨rfl, rfl⟩ := Search.pure_eq_ok.1 h
      exact hes
  · intro h
    have hscatter : b.scatter source j = .ok (b', none) j' :=
      Search.bind_eq_ok.2 ⟨_, _, h, rfl⟩
    exact Search.bind_eq_ok.2 ⟨_, _, hscatter, rfl⟩

theorem randomize_eq_ok {M : Type} {source : Draws} {j j' : Journal M}
    (h : b.randomize source j = .ok b' j') :
    b.Pointwise (fun _ c c' => ∃ k i, position (source k) c.size = .ok i ∧
      c' = { c with index := i }) b' :=
  scatterEntries_eq_ok (randomize_iff_scatterEntries.1 h)

theorem alike_randomize {M : Type} {source : Draws} {j j' : Journal M}
    (h : b.randomize source j = .ok b' j') : b.Alike b' := by
  refine (randomize_eq_ok h).imp ?_
  intro k c c' h
  obtain ⟨-, i, -, rfl⟩ := h
  exact ⟨rfl, rfl⟩

def Furnished (b : Board) : Prop := ∀ e ∈ b.entries, e.2.preferred < e.2.size

theorem Alike.furnished (h : b.Alike b') (hb : b.Furnished) : b'.Furnished := by
  intro e' he'
  obtain ⟨e, he, -, hslots, hpref⟩ := h.of_mem_right he'
  have hlt := hb e he
  rwa [Cursor.size, hslots, hpref]

theorem ofTree_furnished {t : Tree} {sorted : Bool} (h : ofTree t sorted = .ok b) :
    b.Furnished := by
  intro e he
  obtain ⟨flat, -, hb⟩ := ofTree_eq_ok.1 h
  obtain ⟨d, -, -, hd⟩ := hb.of_mem_right he
  exact (cursorOf_start hd).2

theorem ofTree_inRange {t : Tree} {sorted : Bool} (h : ofTree t sorted = .ok b) :
    b.InRange := by
  intro e he
  obtain ⟨flat, -, hb⟩ := ofTree_eq_ok.1 h
  obtain ⟨d, -, -, hd⟩ := hb.of_mem_right he
  obtain ⟨hi, hlt⟩ := cursorOf_start hd
  unfold Cursor.InRange
  omega

theorem Furnished.inRange_reset (hb : b.Furnished) : b.reset.InRange := by
  intro e' he'
  obtain ⟨e, he, -, hc⟩ := (Table.pointwise_map _ b).of_mem_right he'
  have hlt := hb e he
  rw [hc]
  exact ⟨Int.natCast_nonneg _, Int.ofNat_lt.2 hlt⟩

theorem InRange.move (hb : b.InRange) (hn : b.keys.Nodup) {path : String} {c : Cursor}
    (hc : b.get? path = some c) {i : Int} (h0 : 0 ≤ i) (hi : i < c.size) :
    (b.move path i).InRange := by
  intro e' he'
  obtain ⟨⟨k, c'⟩, he, -, hmoved⟩ := (Table.pointwise_modify b path _).of_mem_right he'
  rw [hmoved]
  split_ifs with hk
  · -- with distinct keys the entry that was changed is the one that was looked up
    subst hk
    have hcc := (Table.get?_of_mem_entries hn he).symm.trans hc
    cases hcc
    exact ⟨h0, hi⟩
  · exact hb _ he

theorem Furnished.inRange_randomize {M : Type} {source : Draws} {j j' : Journal M}
    (hb : b.Furnished) (hunit : ∀ k, (source k).InUnit)
    (h : b.randomize source j = .ok b' j') : b'.InRange := by
  intro e' he'
  obtain ⟨e, he, -, k, i, hi, hc⟩ := (randomize_eq_ok h).of_mem_right he'
  have hsize : 0 < e.2.size := Nat.zero_lt_of_lt (hb e he)
  rw [hc]
  exact position_bounds (hunit k) hsize hi

end Board

end MinConflicts
