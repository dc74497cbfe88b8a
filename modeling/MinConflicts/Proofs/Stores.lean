import MinConflicts.Proofs.Addresses
import MinConflicts.Proofs.Segments

/-!
# Models as stores

A model is a store and its paths are the addresses. What was written last at a path is read there,
an earlier value there leaves no trace, and writes at paths that part do not meet: neither is seen
at the other path, and their order does not matter but for the order of new keys. All this holds
of any model, also where a write has to make a dictionary in place of another value.
-/
namespace MinConflicts.Value

variable {es es' : List (Value × Value)} {k k' : String} {v w : Value}

theorem setKey_setKey : setKey k w (setKey k v es) = setKey k w es := by
  induction es with
  | nil =>
    have hself : (Value.str k).same (.str k) = true := same_refl _
    simp [setKey, insertKey, hself]
  | cons e es ih =>
    rw [setKey_cons, setKey_cons]
    by_cases hk : e.1.same (.str k)
    · rw [if_pos hk, if_pos hk, setKey_cons, if_pos hk]
    · rw [if_neg hk, if_neg hk, setKey_cons, if_neg hk, ih]

theorem setKey_comm (h : k ≠ k') :
    (setKey k v (setKey k' w es)).Perm (setKey k' w (setKey k v es)) := by
  have hother : ∀ {b : Value}, b.same (.str k) = true → ¬b.same (.str k') = true := by
    intro b hb hb'
    rw [same_str_right] at hb hb'
    exact h (Value.str.inj (hb.symm.trans hb'))
  induction es with
  | nil =>
    have hfirst : ¬(Value.str k).same (.str k') = true := hother (same_refl _)
    have hsecond : ¬(Value.str k').same (.str k) = true := fun hb => hother hb (same_refl _)
    simp only [setKey, insertKey, hfirst, hsecond]
    exact .swap _ _ _
  | cons e es ih =>
    rw [setKey_cons (v := w), setKey_cons (v := v)]
    by_cases hk : e.1.same (.str k)
    · rw [if_neg (hother hk), if_pos hk, setKey_cons, if_pos hk, setKey_cons, if_neg (hother hk)]
    · by_cases hk' : e.1.same (.str k')
      · rw [if_pos hk', if_neg hk, setKey_cons, if_neg hk, setKey_cons, if_pos hk']
      · rw [if_neg hk', if_neg hk, setKey_cons, if_neg hk, setKey_cons, if_neg hk']
        exact ih.cons e

theorem branch_setKey (fs : List (Value × Value)) : branch k (setKey k (.dict fs) es) = fs := by
  rw [branch, findKey?_setKey, if_pos rfl]

theorem branch_setKey_of_ne (h : k ≠ k') : branch k' (setKey k v es) = branch k' es := by
  rw [branch, findKey?_setKey, if_neg h, branch]

theorem same_dict_of_perm (h : es.Perm es') : (Value.dict es).same (.dict es') = true := by
  refine same_dict_iff.2 ⟨es', rfl, h.length_eq, sameEntries_iff.2 fun e he => ?_⟩
  exact ⟨e, h.mem_iff.1 he, same_refl _, same_refl _⟩

theorem same_dict_of_forall₂
    (h : List.Forall₂ (fun e f => e.1.same f.1 = true ∧ e.2.same f.2 = true) es es') :
    (Value.dict es).same (.dict es') = true := by
  refine same_dict_iff.2 ⟨es', rfl, h.length_eq, sameEntries_iff.2 ?_⟩
  induction h with
  | nil => simp
  | cons hef _ ih =>
    refine List.forall_mem_cons.2 ⟨⟨_, List.mem_cons_self, hef⟩, fun e he => ?_⟩
    obtain ⟨f, hf, hsame⟩ := ih e he
    exact ⟨f, List.mem_cons_of_mem _ hf, hsame⟩

theorem same_setKey (h : v.same w = true) :
    (Value.dict (setKey k v es)).same (.dict (setKey k w es)) = true := by
  apply same_dict_of_forall₂
  induction es with
  | nil => exact .cons ⟨same_refl _, h⟩ .nil
  | cons e es ih =>
    rw [setKey_cons, setKey_cons]
    split_ifs
    · exact .cons ⟨same_refl _, h⟩ (List.forall₂_same.2 fun f _ => ⟨same_refl _, same_refl _⟩)
    · exact .cons ⟨same_refl _, same_refl _⟩ ih

def written (w : Value) (ks : List String) (es : List (Value × Value)) : Value :=
  if ks = [] then w else .dict (setUnder w ks es)

theorem setUnder_cons_eq (w : Value) (k : String) (ks : List String)
    (es : List (Value × Value)) :
    setUnder w (k :: ks) es = setKey k (written w ks (branch k es)) es := by
  cases ks with
  | nil => rfl
  | cons k' ks => rfl

theorem setUnder_setUnder (ks : List String) (v w : Value) (es : List (Value × Value)) :
    setUnder w ks (setUnder v ks es) = setUnder w ks es := by
  induction ks generalizing es with
  | nil => rfl
  | cons k ks ih =>
    by_cases hks : ks = []
    · subst hks
      exact setKey_setKey
    · simp only [setUnder_cons hks, setKey_setKey, branch_setKey, ih]

theorem setUnder_comm {ks js : List String} (h : Parted ks js) (v w : Value)
    (es : List (Value × Value)) : (Value.dict (setUnder v ks (setUnder w js es))).same
      (.dict (setUnder w js (setUnder v ks es))) = true := by
  induction ks generalizing js es with
  | nil => exact absurd rfl h.ne_nil
  | cons k ks ih =>
    obtain ⟨k', js, rfl⟩ := List.exists_cons_of_ne_nil h.symm.ne_nil
    by_cases hk : k = k'
    · -- both writes go into the dictionary under `k`; the segments part below it
      subst hk
      have hparted : Parted ks js := (parted_cons_iff.1 h).resolve_left (absurd rfl)
      simp only [setUnder_cons hparted.ne_nil, setUnder_cons hparted.symm.ne_nil, branch_setKey,
        setKey_setKey]
      exact same_setKey (ih hparted (branch k es))
    · simp only [setUnder_cons_eq, branch_setKey_of_ne hk, branch_setKey_of_ne (Ne.symm hk)]
      exact same_dict_of_perm (setKey_comm hk)

theorem insertPath_dict (es : List (Value × Value)) (path : String) (w : Value) :
    (Value.dict es).insertPath path w = .ok (.dict (setUnder w (Path.segments path) es)) := by
  unfold insertPath
  cases Path.segments path <;> rfl

/-- A value written at a path is read there, and it is all that is left of the writes there. Paths
of which neither is the beginning of the other are apart: a write at one changes nothing that is
read at the other, nor whether anything is, and writes at both can change places. -/
theorem paths_are_addresses (es : List (Value × Value)) (p : String) (v : Value) :
    ∃ m, (Value.dict es).insertPath p v = .ok m ∧ m.getPath p = .ok v ∧
      (∀ w, m.insertPath p w = (Value.dict es).insertPath p w) ∧
      ∀ q, Parted (Path.segments p) (Path.segments q) →
        (∀ u, m.getPath q = .ok u ↔ (Value.dict es).getPath q = .ok u) ∧
        ∀ w, ∃ m₁ m₂ m₃, m.insertPath q w = .ok m₁ ∧ (Value.dict es).insertPath q w = .ok m₂ ∧
          m₂.insertPath p v = .ok m₃ ∧ m₁.eq m₃ = true := by
  refine ⟨_, insertPath_dict es p v, descend_setUnder (Path.segments_ne_nil p) v es, ?_, ?_⟩
  · intro w
    rw [insertPath_dict, insertPath_dict, setUnder_setUnder]
  · intro q hq
    refine ⟨fun u => descend_setUnder_of_parted hq v u es, fun w => ?_⟩
    exact ⟨_, _, _, insertPath_dict _ q w, insertPath_dict es q w, insertPath_dict _ p v,
      setUnder_comm hq.symm w v es⟩

theorem branching_paths_are_addresses : Parted (Path.segments "a..b") (Path.segments "a..c") ∧
    ∃ m m₁ m₂ m₃, (Value.dict [(.str "a", .int 5)]).insertPath "a..b" .null = .ok m ∧
      m.getPath "a..b" = .ok .null ∧ (∀ u, m.getPath "a..c" ≠ .ok u) ∧
      m.insertPath "a..c" (.int 1) = .ok m₁ ∧
      (Value.dict [(.str "a", .int 5)]).insertPath "a..c" (.int 1) = .ok m₂ ∧
      m₂.insertPath "a..b" .null = .ok m₃ ∧ m₁.eq m₃ = true := by
  have hparted : Parted (Path.segments "a..b") (Path.segments "a..c") := by
    constructor <;> decide +kernel
  obtain ⟨m, hm, hget, -, hapart⟩ := paths_are_addresses [(.str "a", .int 5)] "a..b" .null
  obtain ⟨hread, hwrite⟩ := hapart "a..c" hparted
  obtain ⟨m₁, m₂, m₃, h₁, h₂, h₃, heq⟩ := hwrite (.int 1)
  refine ⟨hparted, m, m₁, m₂, m₃, hm, hget, fun u hu => ?_, h₁, h₂, h₃, heq⟩
  have hbefore := (hread u).1 hu
  cases hbefore

end MinConflicts.Value
