import MinConflicts.Formula
import MinConflicts.Proofs.Favourites
import MinConflicts.Proofs.Flattening

/-!
# Boards of rankings

The cursors of a board of ranked slots hold rankings of the values of their domains, and their
preferences are numbers from 0 to 10, whatever the rating of a domain answers. A tree that cannot
be flattened gives no board, and neither does a tree with a domain without values.
-/
namespace MinConflicts

namespace Binary64

theorem toRat_ten : (ofNat 10).toRat = 10 := by
  have hten : ofNat 10 = .finite ⟨false, 0x14000000000000, -49, by decide⟩ := rfl
  rw [hten, toRat, Finite.toRat, Finite.signed]
  norm_num

end Binary64

namespace Domain

theorem clampPreference_bounds (x : Binary64) :
    0 ≤ (clampPreference x).toRat ∧ (clampPreference x).toRat ≤ 10 := by
  have hzero : 0 ≤ (Binary64.zero false).toRat ∧ (Binary64.zero false).toRat ≤ 10 := by
    rw [Binary64.toRat_zero]
    norm_num
  have hmax : 0 ≤ maxPreference.toRat ∧ maxPreference.toRat ≤ 10 := by
    rw [maxPreference, Binary64.toRat_ten]
    norm_num
  cases x with
  | nan l => exact hzero
  | infinity neg =>
    cases neg with
    | false => exact hmax
    | true => exact hzero
  | finite x =>
    simp only [clampPreference, Binary64.isNaN, Bool.false_eq_true, if_false]
    by_cases hten : maxPreference.lt (.finite x) = true
    · rw [if_pos hten]
      exact hmax
    · rw [if_neg hten]
      split_ifs with hpos
      · rw [Binary64.lt_iff_toRat_lt rfl rfl, maxPreference, Binary64.toRat_ten, not_lt] at hten
        rw [Binary64.lt_iff_toRat_lt rfl rfl, Binary64.toRat_zero] at hpos
        exact ⟨hpos.le, hten⟩
      · exact hzero

end Domain

/-- The cursor holds a ranking of the values of a domain and points to its first slot. -/
structure Cursor.Ranks (c : Cursor) (d : Domain) : Prop where
  ranking : ∃ vs ranking, d.values = .ok vs ∧ vs ≠ [] ∧ IsRanking vs ranking ∧
    c.slots = ranking.map (·.1)
  preferences : ∀ s ∈ c.slots, d.preference s.value = .ok s.preference ∧
    s.preference.isFinite = true ∧ 0 ≤ s.preference.toRat ∧ s.preference.toRat ≤ 10
  front : c.AtFront

namespace Board

theorem cursorOf_of_no_values {d : Domain} (h : d.values = .ok []) (sorted : Bool)
    (path : String) : cursorOf sorted path d = .error (.invalidDomain (.noValues path)) := by
  have hnone : d.slots = .ok [] := Domain.slots_eq_ok.2 ⟨h, by simp⟩
  simp only [cursorOf, hnone]
  rfl

theorem cursorOf_ranks {path : String} {d : Domain} {c : Cursor}
    (h : cursorOf true path d = .ok c) : c.Ranks d := by
  obtain ⟨ss, hss, hne, rfl⟩ := cursorOf_iff.1 h
  have hfinite := Domain.slots_isFinite hss
  obtain ⟨ranking, hranking, -, hranked⟩ := Domain.exists_ranking hfinite
  refine ⟨⟨_, ranking, Domain.values_of_slots hss, by simpa using hne, hranking, hranked⟩, ?_,
    (cursorOf_ranked h).1⟩
  intro s hs
  have hmem : s ∈ ss := (sortBy_perm _ ss).mem_iff.1 hs
  have hpreference := (Domain.slots_eq_ok.1 hss).2 s hmem
  obtain ⟨x, hx⟩ := Domain.exists_clampPreference hpreference
  refine ⟨hpreference, hfinite s hmem, ?_⟩
  rw [hx]
  exact Domain.clampPreference_bounds x

theorem ofTree_of_flawed {t : Tree} {sorted : Bool} {fault : Fault}
    (h : t.flatten "" = .error fault) :
    ∃ flaw, ofTree t sorted = .error (.invalidDomain flaw) := by
  rw [Tree.flatten_eq] at h
  rw [ofTree, Tree.flatten_eq]
  cases hflaw : (t.walk "").findSome? Tree.Encounter.flaw? with
  | none =>
    rw [hflaw] at h
    cases h
  | some flaw => exact ⟨flaw, rfl⟩

theorem ofTree_of_no_values {t : Tree} {sorted : Bool} {flat : Table Domain}
    (hflat : t.flatten "" = .ok flat) {before after : List (String × Domain)}
    {e : String × Domain} (hentries : flat.entries = before ++ e :: after)
    (hvalues : e.2.values = .ok []) (hbefore : ∀ d ∈ before, ∃ ss, d.2.slots = .ok ss) :
    ∃ path, ofTree t sorted = .error (.invalidDomain (.noValues path)) := by
  have hentry := cursorOf_of_no_values hvalues sorted e.1
  have hcursors : ∀ d ∈ before, (∃ c, cursorOf sorted d.1 d.2 = .ok c) ∨
      ∃ fault, (∃ path, fault = .invalidDomain (.noValues path)) ∧
        cursorOf sorted d.1 d.2 = .error fault := by
    intro d hd
    obtain ⟨ss, hss⟩ := hbefore d hd
    by_cases hempty : ss = []
    · subst hempty
      have hnone : d.2.values = .ok [] := Domain.values_of_slots hss
      exact .inr ⟨_, ⟨d.1, rfl⟩, cursorOf_of_no_values hnone sorted d.1⟩
    · exact .inl ⟨_, cursorOf_iff.2 ⟨ss, hss, hempty, rfl⟩⟩
  obtain ⟨fault, ⟨path, rfl⟩, herror⟩ :=
    Table.exists_mapM_eq_error hentries hcursors ⟨_, ⟨e.1, rfl⟩, hentry⟩
  refine ⟨path, ?_⟩
  rw [ofTree, hflat]
  exact herror

/-- A board of ranked slots has a cursor for each flattened path, in order. The cursor ranks the
values of the domain there and points to the first of them. A tree that cannot be flattened gives
no board, and neither does a domain without values: the tree is refused as an invalid one, unless
an earlier domain cannot be read for a reason of its own. -/
theorem ofTree_ranks (t : Tree) :
    (∀ b, ofTree t true = .ok b → ∃ flat, t.flatten "" = .ok flat ∧ b.keys = flat.keys ∧
      flat.Pointwise (fun _ d c => c.Ranks d) b) ∧
    (∀ fault, t.flatten "" = .error fault →
      ∃ flaw, ofTree t true = .error (.invalidDomain flaw)) ∧
    ∀ flat before e after, t.flatten "" = .ok flat → flat.entries = before ++ e :: after →
      e.2.values = .ok [] → (∀ d ∈ before, ∃ ss, d.2.slots = .ok ss) →
      ∃ path, ofTree t true = .error (.invalidDomain (.noValues path)) := by
  refine ⟨fun b hb => ?_, fun fault => ofTree_of_flawed, ?_⟩
  · obtain ⟨flat, hflat, hcursors⟩ := ofTree_eq_ok.1 hb
    exact ⟨flat, hflat, hcursors.keys_eq.symm, hcursors.imp fun _ _ _ => cursorOf_ranks⟩
  · intro flat before e after hflat hentries hvalues hbefore
    exact ofTree_of_no_values hflat hentries hvalues hbefore

def tiedDomain : Domain where
  choices := .distinct [.str "p", .str "q", .str "r", .str "s"]
  rating := Formula.rating (.lookup .value [(.str "p", .int (-5)), (.str "q", .int 15),
    (.str "r", .float (.nan 0))] (.float (.infinity false)))

def tiedTree (rest : List (Value × Tree)) : Tree := .branch ((.str "a", .leaf tiedDomain) :: rest)

theorem tiedTree_ranked : ∃ b flat, ofTree (tiedTree []) true = .ok b ∧
    (tiedTree []).flatten "" = .ok flat ∧ flat.Pointwise (fun _ d c => c.Ranks d) b ∧
    b.values.map (fun c => c.slots.map (·.value.display)) = [["q", "s", "p", "r"]] ∧
    ∃ path, ofTree (tiedTree [(.str "b", .leaf { choices := .distinct [] })]) true =
      .error (.invalidDomain (.noValues path)) := by
  have htexts : (ofTree (tiedTree []) true).toOption.map
      (fun b => b.values.map fun c => c.slots.map (·.value.display)) =
        some [["q", "s", "p", "r"]] := by decide +kernel
  cases hb : ofTree (tiedTree []) true with
  | error e =>
    rw [hb] at htexts
    cases htexts
  | ok b =>
    rw [hb] at htexts
    obtain ⟨flat, hflat, -, hranks⟩ := (ofTree_ranks (tiedTree [])).1 b hb
    refine ⟨b, flat, rfl, hflat, hranks, Option.some.inj htexts, ?_⟩
    have hread : tiedDomain.slots.toOption.isSome = true := by decide +kernel
    cases hss : tiedDomain.slots with
    | error e =>
      rw [hss] at hread
      cases hread
    | ok ss =>
      obtain ⟨-, -, hempty⟩ :=
        ofTree_ranks (tiedTree [(.str "b", .leaf { choices := .distinct [] })])
      refine hempty _ [("a", tiedDomain)] ("b", { choices := .distinct [] }) [] rfl rfl rfl ?_
      simp [hss]

def unratedTree : Tree := .branch
  [(.str "a", .leaf { choices := .distinct [.int 1], rating := fun _ => .ok .null }),
   (.str "b", .leaf { choices := .distinct [] })]

theorem unratedTree_of_wrong_type : (∃ flat, unratedTree.flatten "" = .ok flat ∧
    ∃ e ∈ flat.entries, e.2.values = .ok []) ∧ ofTree unratedTree true = .error .wrongType :=
  ⟨⟨_, rfl, ("b", { choices := .distinct [] }), List.mem_cons_of_mem _ List.mem_cons_self, rfl⟩,
    rfl⟩

end Board

end MinConflicts
