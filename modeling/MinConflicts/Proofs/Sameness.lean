import MinConflicts.Proofs.ExactOrder
import MinConflicts.Table

/-!
# Sameness of values and of tables

`Value.same` is the equality by which recorded assignments are recognised. It is reflexive, also
for values that hold a NaN, and transitive, also from `1` over `1.0` to `true` and through nested
lists and dictionaries. Both carry over to tables of values.
-/
namespace MinConflicts

namespace Value

theorem same_null_iff {b : Value} : same .null b = true ↔ b = .null := by
  cases b <;> simp [same, sameNumber, number?]

theorem same_str_iff {s : String} {b : Value} : same (.str s) b = true ↔ .str s = b := by
  cases b <;> simp [same, sameNumber, number?]

theorem same_list_iff {xs : List Value} {b : Value} :
    same (.list xs) b = true ↔ ∃ ys, b = .list ys ∧ sameList xs ys = true := by
  cases b <;> simp [same, sameNumber, number?]

theorem same_dict_iff {es : List (Value × Value)} {b : Value} :
    same (.dict es) b = true ↔
      ∃ fs, b = .dict fs ∧ es.length = fs.length ∧ sameEntries es fs = true := by
  cases b <;> simp [same, sameNumber, number?]

theorem same_number_iff {a b : Value} {x : Number} (ha : a.number? = some x) :
    same a b = true ↔ ∃ y, b.number? = some y ∧ x.exact = y.exact := by
  have hnumber : same a b = sameNumber a b := by
    cases a <;> first | rfl | cases ha
  rw [hnumber, sameNumber, ha]
  cases b.number? with
  | none => simp
  | some y => simp [Number.same_iff]

theorem sameEntries_iff {es fs : List (Value × Value)} :
    sameEntries es fs = true ↔
      ∀ e ∈ es, ∃ f ∈ fs, same e.1 f.1 = true ∧ same e.2 f.2 = true := by
  induction es with
  | nil => simp [sameEntries]
  | cons e es ih =>
    obtain ⟨k, v⟩ := e
    simp [sameEntries, ih]

theorem same_self_of_number {a : Value} {x : Number} (ha : a.number? = some x) :
    same a a = true :=
  (same_number_iff ha).2 ⟨x, ha, rfl⟩

mutual

theorem same_refl : ∀ v : Value, same v v = true
  | .null => same_null_iff.2 rfl
  | .bool _ => same_self_of_number rfl
  | .int _ => same_self_of_number rfl
  | .float _ => same_self_of_number rfl
  | .str _ => same_str_iff.2 rfl
  | .list xs => same_list_iff.2 ⟨xs, rfl, sameList_refl xs⟩
  | .dict es => same_dict_iff.2 ⟨es, rfl, rfl, sameEntries_iff.2 fun e he =>
      ⟨e, he, same_refl_of_mem es e he⟩⟩

theorem sameList_refl : ∀ xs : List Value, sameList xs xs = true
  | [] => by simp [sameList]
  | x :: xs => by simp [sameList, same_refl x, sameList_refl xs]

theorem same_refl_of_mem : ∀ (es : List (Value × Value)), ∀ e ∈ es,
    same e.1 e.1 = true ∧ same e.2 e.2 = true
  | (k, v) :: es, e, he => by
    rcases List.mem_cons.1 he with rfl | he
    · exact ⟨same_refl k, same_refl v⟩
    · exact same_refl_of_mem es e he

end

theorem same_trans_of_number {a b c : Value} {x : Number} (ha : a.number? = some x)
    (hab : same a b = true) (hbc : same b c = true) : same a c = true := by
  obtain ⟨y, hb, hxy⟩ := (same_number_iff ha).1 hab
  obtain ⟨z, hc, hyz⟩ := (same_number_iff hb).1 hbc
  exact (same_number_iff ha).2 ⟨z, hc, hxy.trans hyz⟩

mutual

theorem same_trans : ∀ {a b c : Value}, same a b = true → same b c = true → same a c = true
  | .null, _, _, hab, hbc => same_null_iff.1 hab ▸ hbc
  | .bool _, _, _, hab, hbc => same_trans_of_number rfl hab hbc
  | .int _, _, _, hab, hbc => same_trans_of_number rfl hab hbc
  | .float _, _, _, hab, hbc => same_trans_of_number rfl hab hbc
  | .str _, _, _, hab, hbc => same_str_iff.1 hab ▸ hbc
  | .list xs, _, _, hab, hbc => by
    obtain ⟨ys, rfl, hxy⟩ := same_list_iff.1 hab
    obtain ⟨zs, rfl, hyz⟩ := same_list_iff.1 hbc
    exact same_list_iff.2 ⟨zs, rfl, sameList_trans hxy hyz⟩
  | .dict es, _, _, hab, hbc => by
    obtain ⟨fs, rfl, hlen, hef⟩ := same_dict_iff.1 hab
    obtain ⟨gs, rfl, hlen', hfg⟩ := same_dict_iff.1 hbc
    exact same_dict_iff.2 ⟨gs, rfl, hlen.trans hlen', sameEntries_trans hef hfg⟩

theorem sameList_trans : ∀ {xs ys zs : List Value},
    sameList xs ys = true → sameList ys zs = true → sameList xs zs = true
  | [], [], _, _, hyz => hyz
  | x :: xs, y :: ys, z :: zs, hxy, hyz => by
    simp only [sameList, Bool.and_eq_true] at hxy hyz ⊢
    exact ⟨same_trans hxy.1 hyz.1, sameList_trans hxy.2 hyz.2⟩

theorem sameEntries_trans : ∀ {es fs gs : List (Value × Value)},
    sameEntries es fs = true → sameEntries fs gs = true → sameEntries es gs = true
  | [], _, _, _, _ => by simp [sameEntries]
  | (k, v) :: es, fs, gs, hef, hfg => by
    simp only [sameEntries, Bool.and_eq_true, List.any_eq_true] at hef ⊢
    obtain ⟨⟨f, hf, hkf, hvf⟩, hrest⟩ := hef
    obtain ⟨g, hg, hfk, hfv⟩ := sameEntries_iff.1 hfg f hf
    exact ⟨⟨g, hg, same_trans hkf hfk, same_trans hvf hfv⟩, sameEntries_trans hrest hfg⟩

end

end Value

namespace Table

theorem same_iff {s t : Table Value} : s.same t = true ↔ s.size = t.size ∧
    ∀ e ∈ s.entries, ∃ f ∈ t.entries, e.1 = f.1 ∧ e.2.same f.2 = true := by
  simp [same]

theorem same_refl (s : Table Value) : s.same s = true :=
  same_iff.2 ⟨rfl, fun e he => ⟨e, he, rfl, Value.same_refl e.2⟩⟩

theorem same_trans {s t u : Table Value} (hst : s.same t = true) (htu : t.same u = true) :
    s.same u = true := by
  rw [same_iff] at hst htu ⊢
  refine ⟨hst.1.trans htu.1, fun e he => ?_⟩
  obtain ⟨f, hf, hk, hv⟩ := hst.2 e he
  obtain ⟨g, hg, hk', hv'⟩ := htu.2 f hf
  exact ⟨g, hg, hk.trans hk', Value.same_trans hv hv'⟩

end Table

end MinConflicts
