import Mathlib.Data.List.Infix
import MinConflicts.Proofs.Effects
import MinConflicts.Proofs.Sameness
import MinConflicts.Path

/-!
# Addresses in nested dictionaries

A value set under segments is found again there, and what lies under segments that go another way
is as before. Two ways part when neither is the beginning of the other: then there is a first
dictionary in which they take different keys. So values set one after another, under segments that
part pairwise, are all found in the end.
-/
namespace MinConflicts

namespace Value

theorem same_str_right {b : Value} {s : String} : same b (.str s) = true ↔ b = .str s := by
  constructor
  · intro h
    cases b with
    | str t => exact same_str_iff.1 h
    | null | bool | int | float | list | dict => simp [same, sameNumber, number?] at h
  · rintro rfl
    exact same_refl _

variable {es : List (Value × Value)} {k k' : String} {v w : Value}

theorem findKey?_cons (e : Value × Value) : findKey? k (e :: es) =
    if e.1.same (.str k) then some e.2 else findKey? k es := by
  obtain ⟨key, v⟩ := e
  cases key with
  | str s => simp [findKey?, same]
  | null | bool | int | float | list | dict => simp [findKey?, same, sameNumber, number?]

theorem setKey_cons (e : Value × Value) : setKey k v (e :: es) =
    if e.1.same (.str k) then (e.1, v) :: es else e :: setKey k v es := rfl

theorem findKey?_setKey : findKey? k' (setKey k v es) =
    if k = k' then some v else findKey? k' es := by
  induction es with
  | nil => simp [setKey, insertKey, findKey?]
  | cons e es ih =>
    rw [setKey_cons]
    by_cases hk : e.1.same (.str k)
    · rw [if_pos hk, findKey?_cons, findKey?_cons, same_str_right.1 hk]
      by_cases hkk : k = k' <;> simp [same, hkk]
    · rw [if_neg hk, findKey?_cons, findKey?_cons, ih]
      by_cases hkk : k = k'
      · subst hkk
        simp [hk]
      · simp [hkk]

theorem item_setKey : (Value.dict (setKey k v es)).item k' =
    if k = k' then .ok v else (Value.dict es).item k' := by
  simp only [item, findKey?_setKey]
  split_ifs <;> rfl

theorem setKey_of_findKey?_eq_none (h : findKey? k es = none) :
    setKey k v es = es ++ [(.str k, v)] := by
  induction es with
  | nil => rfl
  | cons e es ih =>
    rw [findKey?_cons] at h
    split_ifs at h with hk
    rw [setKey_cons, if_neg hk, ih h, List.cons_append]

theorem setKey_append_of_findKey?_eq_none (h : findKey? k es = none) (fs : List (Value × Value)) :
    setKey k v (es ++ fs) = es ++ setKey k v fs := by
  induction es with
  | nil => rfl
  | cons e es ih =>
    rw [findKey?_cons] at h
    split_ifs at h with hk
    rw [List.cons_append, setKey_cons, if_neg hk, ih h, List.cons_append]

theorem findKey?_append_of_eq_none (h : findKey? k es = none) (fs : List (Value × Value)) :
    findKey? k (es ++ fs) = findKey? k fs := by
  induction es with
  | nil => rfl
  | cons e es ih =>
    rw [findKey?_cons] at h
    split_ifs at h with hk
    rw [List.cons_append, findKey?_cons, if_neg hk, ih h]

def setUnder (w : Value) : List String → List (Value × Value) → List (Value × Value)
  | [], es => es
  | k :: ks, es => setAt w k ks es

theorem setUnder_single : setUnder w [k] es = setKey k w es := rfl

theorem setUnder_cons {ks : List String} (h : ks ≠ []) :
    setUnder w (k :: ks) es = setKey k (.dict (setUnder w ks (branch k es))) es := by
  cases ks with
  | nil => exact absurd rfl h
  | cons k' ks => rfl

theorem descend_cons {v : Value} {ks : List String} :
    v.descend (k :: ks) = .ok w ↔ ∃ u, v.item k = .ok u ∧ u.descend ks = .ok w :=
  Fault.bind_eq_ok

theorem descend_branch {ks : List String} (h : ks ≠ []) :
    (Value.dict (branch k es)).descend ks = .ok w ↔
      (Value.dict es).descend (k :: ks) = .ok w := by
  obtain ⟨k', ks, rfl⟩ := List.exists_cons_of_ne_nil h
  simp only [descend_cons, item, branch]
  cases findKey? k es with
  | none => simp [findKey?]
  | some u => cases u <;> simp [findKey?]

theorem descend_setUnder {ks : List String} (h : ks ≠ []) (w : Value)
    (es : List (Value × Value)) : (Value.dict (setUnder w ks es)).descend ks = .ok w := by
  induction ks generalizing es with
  | nil => exact absurd rfl h
  | cons k ks ih =>
    rw [descend_cons]
    by_cases hks : ks = []
    · subst hks
      refine ⟨w, ?_, rfl⟩
      rw [setUnder_single, item_setKey, if_pos rfl]
    · refine ⟨_, ?_, ih hks (branch k es)⟩
      rw [setUnder_cons hks, item_setKey, if_pos rfl]

/-- The segments part: neither are the beginning of the others. -/
def Parted (ks js : List String) : Prop := ¬ks <+: js ∧ ¬js <+: ks

theorem Parted.symm {ks js : List String} (h : Parted ks js) : Parted js ks := ⟨h.2, h.1⟩

theorem parted_cons_iff {ks js : List String} :
    Parted (k :: ks) (k' :: js) ↔ k ≠ k' ∨ Parted ks js := by
  simp only [Parted, List.cons_prefix_cons]
  by_cases hk : k = k'
  · simp [hk]
  · simp [hk, Ne.symm hk]

theorem Parted.ne_nil {ks js : List String} (h : Parted ks js) : ks ≠ [] := by
  rintro rfl
  exact h.1 List.nil_prefix

theorem descend_setUnder_of_parted {ks js : List String} (h : Parted ks js) (w v : Value)
    (es : List (Value × Value)) : (Value.dict (setUnder w ks es)).descend js = .ok v ↔
      (Value.dict es).descend js = .ok v := by
  induction ks generalizing js es with
  | nil => exact absurd rfl h.ne_nil
  | cons k ks ih =>
    obtain ⟨k', js, rfl⟩ := List.exists_cons_of_ne_nil h.symm.ne_nil
    by_cases hk : k = k'
    · subst hk
      have hparted : Parted ks js := (parted_cons_iff.1 h).resolve_left (absurd rfl)
      rw [setUnder_cons hparted.ne_nil, descend_cons, item_setKey, if_pos rfl,
        ← descend_branch hparted.symm.ne_nil, ← ih hparted]
      simp
    · have hitem : (Value.dict (setUnder w (k :: ks) es)).item k' = (Value.dict es).item k' := by
        cases ks with
        | nil => rw [setUnder_single, item_setKey, if_neg hk]
        | cons j ks => rw [setUnder_cons (List.cons_ne_nil _ _), item_setKey, if_neg hk]
      rw [descend_cons, descend_cons, hitem]

def setAll (ls : List (List String × Value)) (es : List (Value × Value)) : List (Value × Value) :=
  ls.foldl (fun es l => setUnder l.2 l.1 es) es

theorem setAll_append (ls ls' : List (List String × Value)) (es : List (Value × Value)) :
    setAll (ls ++ ls') es = setAll ls' (setAll ls es) :=
  List.foldl_append

theorem descend_setAll_of_parted {ls : List (List String × Value)} {js : List String}
    (h : ∀ l ∈ ls, Parted l.1 js) (v : Value) (es : List (Value × Value)) :
    (Value.dict (setAll ls es)).descend js = .ok v ↔ (Value.dict es).descend js = .ok v := by
  induction ls generalizing es with
  | nil => rfl
  | cons l ls ih =>
    obtain ⟨hl, hls⟩ := List.forall_mem_cons.1 h
    exact (ih hls _).trans (descend_setUnder_of_parted hl l.2 v es)

theorem descend_setAll {ls : List (List String × Value)} (hne : ∀ l ∈ ls, l.1 ≠ [])
    (h : ls.Pairwise fun l l' => Parted l.1 l'.1) (es : List (Value × Value)) :
    ∀ l ∈ ls, (Value.dict (setAll ls es)).descend l.1 = .ok l.2 := by
  induction ls generalizing es with
  | nil => simp
  | cons l ls ih =>
    obtain ⟨hparted, hrest⟩ := List.pairwise_cons.1 h
    obtain ⟨hl, hls⟩ := List.forall_mem_cons.1 hne
    intro l' hl'
    rcases List.mem_cons.1 hl' with rfl | hl'
    · refine (descend_setAll_of_parted (fun d hd => (hparted d hd).symm) _ _).2 ?_
      exact descend_setUnder hl _ es
    · exact ih hls hrest _ l' hl'

theorem setAll_into_key {ls : List (List String × Value)} (hne : ∀ l ∈ ls, l.1 ≠ [])
    (hk : findKey? k es = none) (fs : List (Value × Value)) :
    setAll (ls.map fun l => (k :: l.1, l.2)) (es ++ [(.str k, .dict fs)]) =
      es ++ [(.str k, .dict (setAll ls fs))] := by
  induction ls generalizing fs with
  | nil => rfl
  | cons l ls ih =>
    obtain ⟨hl, hls⟩ := List.forall_mem_cons.1 hne
    have hbranch : branch k (es ++ [(.str k, .dict fs)]) = fs := by
      rw [branch, findKey?_append_of_eq_none hk, findKey?_cons, if_pos (same_refl _)]
    have hset : setUnder l.2 (k :: l.1) (es ++ [(.str k, .dict fs)]) =
        es ++ [(.str k, .dict (setUnder l.2 l.1 fs))] := by
      rw [setUnder_cons hl, hbranch, setKey_append_of_findKey?_eq_none hk, setKey_cons,
        if_pos (same_refl _)]
    simp only [List.map_cons, setAll, List.foldl_cons, hset]
    exact ih hls _

theorem setAll_under_key {ls : List (List String × Value)} (hls : ls ≠ [])
    (hne : ∀ l ∈ ls, l.1 ≠ []) (hk : findKey? k es = none) :
    setAll (ls.map fun l => (k :: l.1, l.2)) es = es ++ [(.str k, .dict (setAll ls []))] := by
  obtain ⟨l, ls, rfl⟩ := List.exists_cons_of_ne_nil hls
  obtain ⟨hl, hrest⟩ := List.forall_mem_cons.1 hne
  have hbranch : branch k es = [] := by rw [branch, hk]
  -- the first value makes the dictionary, and all others go into it
  have hset : setUnder l.2 (k :: l.1) es = es ++ [(.str k, .dict (setUnder l.2 l.1 []))] := by
    rw [setUnder_cons hl, hbranch, setKey_of_findKey?_eq_none hk]
  simp only [List.map_cons, setAll, List.foldl_cons, hset]
  exact setAll_into_key hrest hk _

end Value

end MinConflicts
