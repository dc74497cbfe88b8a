import MinConflicts.Proofs.Flattening

/-!
# Assembled models

A model that is assembled from an assignment of the paths of a tree is the tree itself, with
values for domains. Each node lies under a key that the dictionary does not have yet, so the
values below it fill a new dictionary, and it comes last; a branch without leaves has no value
to make a dictionary for.
-/
namespace MinConflicts

open Value (Parted findKey? findKey?_append_of_eq_none findKey?_cons setAll setAll_append
  setAll_under_key)

theorem Assignment.nested_eq (a : Assignment) :
    a.nested = .dict (setAll (a.entries.map fun e => (Path.segments e.1, e.2)) []) := by
  rw [nested, setAll, List.foldl_map]
  congr 2
  funext es e
  cases Path.segments e.1 <;> rfl

theorem Assignment.getPath_nested {a : Assignment} (h : a.keys.Pairwise fun p q =>
    Parted (Path.segments p) (Path.segments q)) {e : String × Value} (he : e ∈ a.entries) :
    a.nested.getPath e.1 = .ok e.2 := by
  rw [nested_eq]
  have hmem : (Path.segments e.1, e.2) ∈ a.entries.map fun e => (Path.segments e.1, e.2) :=
    List.mem_map_of_mem he
  refine Value.descend_setAll ?_ ?_ [] _ hmem
  · intro l hl
    obtain ⟨e', -, rfl⟩ := List.mem_map.1 hl
    exact Path.segments_ne_nil e'.1
  · rw [Table.keys, List.pairwise_map] at h
    exact List.pairwise_map.2 h

namespace Tree

mutual

/-- The tree with values for domains: those of an assignment at the paths below a place. Branches
without leaves are left out. -/
def filled (a : Assignment) (path : String) : Tree → Value
  | .leaf _ => (a.get? path).getD .null
  | .branch items => .dict (filledItems a path items)
  | .other _ => .null

def filledItems (a : Assignment) (place : String) : List (Value × Tree) → List (Value × Value)
  | [] => []
  | (key, t) :: items =>
    if t.leaves = [] then filledItems a place items
    else (key, t.filled a (Path.join place key.display)) :: filledItems a place items

end

def valued (a : Assignment) (place : String) (ls : List (List String × Domain)) :
    List (List String × Value) :=
  ls.map fun l => (l.1, (a.get? (Path.dotted place l.1)).getD .null)

variable {a : Assignment} {place : String}

theorem valued_cons_key {key : String} (h : key ≠ "") (ls : List (List String × Domain)) :
    valued a place (ls.map fun l => (key :: l.1, l.2)) =
      (valued a (Path.join place key) ls).map fun l => (key :: l.1, l.2) := by
  simp [valued, Path.dotted_join h]

mutual

theorem setAll_leaves (a : Assignment) (k : String) : ∀ {t : Tree}, t.Sound → t.Keyed →
    ∀ (path : String) {es : List (Value × Value)}, findKey? k es = none →
      setAll ((valued a path t.leaves).map fun l => (k :: l.1, l.2)) es =
        es ++ if t.leaves = [] then [] else [(.str k, t.filled a path)]
  | .leaf d, _, _, path, es, hk => by
    rw [leaves, valued, List.map_singleton, Path.dotted_nil, if_neg (List.cons_ne_nil _ _)]
    exact Value.setKey_of_findKey?_eq_none hk
  | .branch items, h, hkeyed, path, es, hk => by
    rw [leaves, filled]
    -- A branch without leaves sets nothing, so no dictionary is made for it.
    by_cases hempty : itemLeaves items = []
    · rw [hempty, if_pos rfl, List.append_nil]
      rfl
    · have hne : ∀ l ∈ valued a path (itemLeaves items), l.1 ≠ [] := by
        intro l hl
        obtain ⟨l', hl', rfl⟩ := List.mem_map.1 hl
        exact ne_nil_of_mem_itemLeaves hl'
      have hvalued : valued a path (itemLeaves items) ≠ [] := mt List.map_eq_nil_iff.1 hempty
      have hfilled : setAll (valued a path (itemLeaves items)) [] = filledItems a path items :=
        setAll_itemLeaves a h hkeyed.1 hkeyed.2 path fun _ _ => rfl
      rw [setAll_under_key hvalued hne hk, hfilled, if_neg hempty]
  | .other _, h, _, _, _, _ => h.elim

theorem setAll_itemLeaves (a : Assignment) : ∀ {items : List (Value × Tree)}, SoundItems items →
    items.Pairwise (fun e f => e.1.same f.1 = false) → KeyedItems items →
    ∀ (place : String) {es : List (Value × Value)},
      (∀ e ∈ items, findKey? e.1.display es = none) →
      setAll (valued a place (itemLeaves items)) es = es ++ filledItems a place items
  | [], _, _, _, _, es, _ => (List.append_nil es).symm
  | (key, t) :: items, h, hdistinct, hkeyed, place, es, hnew => by
    obtain ⟨⟨k, rfl, hk⟩, ht, hitems⟩ := h
    obtain ⟨hfirst, hrest⟩ := List.pairwise_cons.1 hdistinct
    obtain ⟨hnewKey, hnewItems⟩ := List.forall_mem_cons.1 hnew
    have hhere := setAll_leaves a k ht hkeyed.1 (Path.join place k) hnewKey
    -- The keys to come are as new as before, since none of them is the key that was just set.
    have hlater : ∀ e ∈ items, findKey? e.1.display (es ++
        if t.leaves = [] then [] else [(.str k, t.filled a (Path.join place k))]) = none := by
      intro e he
      obtain ⟨k', hk', -⟩ := hitems.exists_key e he
      have hsame := hfirst e he
      rw [hk'] at hsame
      rw [findKey?_append_of_eq_none (hnewItems e he), hk']
      split_ifs
      · rfl
      · rw [findKey?_cons, Value.display, if_neg (Bool.eq_false_iff.1 hsame)]
        rfl
    rw [itemLeaves, valued, List.map_append, ← valued, ← valued, Value.display,
      valued_cons_key hk.1, setAll_append, hhere, setAll_itemLeaves a hitems hrest hkeyed.2 place hlater, filledItems]
    split_ifs
    · rw [List.append_nil]
    · rw [List.append_assoc, List.singleton_append, Value.display]

end

theorem nested_eq_filled {t : Tree} (h : t.Keyed) {flat : Table Domain}
    (hflat : t.flatten "" = .ok flat) {a : Assignment} (hkeys : a.keys = flat.keys) :
    a.nested = t.filled a "" := by
  obtain ⟨⟨items, rfl⟩, hsound⟩ := flatten_eq_ok_iff.1 ⟨flat, hflat⟩
  obtain ⟨hentries, hnodup, -⟩ := flatten_entries h hflat
  have hvalues : a.entries.map (fun e => (Path.segments e.1, e.2)) =
      valued a "" (itemLeaves items) := by
    rw [Table.entries_eq_map_keys (hkeys ▸ hnodup) .null, hkeys, Table.keys, hentries, pathed,
      valued]
    simp only [List.map_map]
    refine List.map_congr_left fun l hl => ?_
    simp only [Function.comp_apply]
    rw [Path.segments_dotted (ne_nil_of_mem_itemLeaves hl) (hsound.isKey_of_mem_leaves l hl)]
    rfl
  rw [Assignment.nested_eq, hvalues, setAll_itemLeaves a hsound h.1 h.2 "" fun _ _ => rfl]
  rfl

/-- A model that is assembled from values for the paths of a tree is the tree with these values
filled in: with the same keys in the same order, but without the branches that have no leaf. Each
value is found again under its path, whatever the values are. -/
theorem assembly_rebuilds {t : Tree} (h : t.Keyed) {flat : Table Domain}
    (hflat : t.flatten "" = .ok flat) {a : Assignment} (hkeys : a.keys = flat.keys) :
    a.nested = t.filled a "" ∧
      ∀ path ∈ flat.keys, ∃ v, a.get? path = some v ∧ a.nested.getPath path = .ok v := by
  refine ⟨nested_eq_filled h hflat hkeys, fun path hpath => ?_⟩
  obtain ⟨v, hv⟩ := Table.get?_of_mem_keys (hkeys ▸ hpath)
  obtain ⟨-, -, hparted⟩ := flatten_entries h hflat
  rw [← hkeys] at hparted
  exact ⟨v, hv, Assignment.getPath_nested hparted (Table.mem_entries_of_get? hv)⟩

def shelfValues : Assignment :=
  ⟨[("a.b", .dict [(.str "x", .int 1)]), ("a.c", .int 2), ("d", .null)]⟩

theorem shelfTree_rebuilt : ∃ flat, (shelfTree (.constant .null)).Keyed ∧
    (shelfTree (.constant .null)).flatten "" = .ok flat ∧ shelfValues.keys = flat.keys ∧
    shelfValues.nested = .dict [(.str "a", .dict [(.str "b", .dict [(.str "x", .int 1)]),
      (.str "c", .int 2)]), (.str "d", .null)] := by
  have hkeyed := shelfTree_keyed (.constant .null)
  have hflattens : ∃ flat, (shelfTree (.constant .null)).flatten "" = .ok flat :=
    flatten_eq_ok_iff.2 ⟨⟨_, rfl⟩, shelfTree_sound _⟩
  obtain ⟨flat, hflat⟩ := hflattens
  have hkeys : shelfValues.keys = flat.keys := by
    rw [Table.keys, Table.keys, (flatten_entries hkeyed hflat).1]
    rfl
  exact ⟨flat, hkeyed, hflat, hkeys, (assembly_rebuilds hkeyed hflat hkeys).1⟩

end Tree

end MinConflicts
