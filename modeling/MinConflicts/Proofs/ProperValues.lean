import Mathlib.Data.List.Forall2
import MinConflicts.Proofs.Sameness

/-!
# Values whose dictionaries have distinct keys

Sameness of dictionaries asks for each entry of the one whether it is found in the other. Where no
two keys are the same, entries that are found are found at different places, so that two
dictionaries of one size have no entry left over: then sameness is symmetric. Every value is of
this kind, as dictionaries are built entry by entry.
-/
namespace MinConflicts

theorem Number.eq_iff_exact {x y : Number} :
    x.eq y = true ↔ x.exact = y.exact ∧ ∀ l, x.exact ≠ .nan l := by
  rw [← same_iff]
  cases x with
  | int a => cases y <;> simp [same, exact]
  | float x =>
    cases x with
    | nan l =>
      cases y with
      | int b => simp [Number.eq, compare?, Binary64.compareInt?, exact]
      | float y => cases y <;> simp [Number.eq, compare?, Binary64.compare?, exact]
    | infinity s => cases y <;> simp [same, exact]
    | finite x => cases y <;> simp [same, exact]

namespace Value

/-- No two keys of a dictionary are the same, in the value and in all its parts. -/
inductive IsProper : Value → Prop
  | null : IsProper .null
  | number {v : Value} {x : Number} : v.number? = some x → IsProper v
  | str (s : String) : IsProper (.str s)
  | list {xs : List Value} : (∀ x ∈ xs, IsProper x) → IsProper (.list xs)
  | dict {es : List (Value × Value)} : es.Pairwise (fun e f => e.1.same f.1 = false) →
      (∀ e ∈ es, IsProper e.1) → (∀ e ∈ es, IsProper e.2) → IsProper (.dict es)

theorem sameList_iff {xs ys : List Value} :
    sameList xs ys = true ↔ List.Forall₂ (fun x y => same x y = true) xs ys := by
  induction xs generalizing ys with
  | nil => cases ys <;> simp [sameList]
  | cons x xs ih => cases ys <;> simp [sameList, ih]

theorem forall₂_symm_of_mem {α : Type} {R : α → α → Prop} {xs ys : List α}
    (h : List.Forall₂ R xs ys) (hsymm : ∀ x ∈ xs, ∀ y, R x y → R y x) :
    List.Forall₂ R ys xs := by
  induction h with
  | nil => exact .nil
  | cons hxy _ ih =>
    obtain ⟨hx, hxs⟩ := List.forall_mem_cons.1 hsymm
    exact .cons (hx _ hxy) (ih hxs)

theorem exists_partner {α : Type} {R : α → α → Prop} {es fs : List α}
    (hlength : es.length = fs.length) (hpartner : ∀ e ∈ es, ∃ f ∈ fs, R e f)
    (hapart : es.Pairwise fun d e => ∀ f, R d f → ¬R e f) : ∀ f ∈ fs, ∃ e ∈ es, R e f := by
  induction es generalizing fs with
  | nil =>
    rw [List.eq_nil_of_length_eq_zero hlength.symm]
    exact fun f hf => absurd hf List.not_mem_nil
  | cons e es ih =>
    obtain ⟨⟨g, hg, hR⟩, hrest⟩ := List.forall_mem_cons.1 hpartner
    obtain ⟨hfirst, hapart⟩ := List.pairwise_cons.1 hapart
    -- take out the partner of the first member: the others have theirs elsewhere
    obtain ⟨before, after, rfl⟩ := List.append_of_mem hg
    have hothers : ∀ d ∈ es, ∃ f ∈ before ++ after, R d f := by
      intro d hd
      obtain ⟨f, hf, hdf⟩ := hrest d hd
      refine ⟨f, ?_, hdf⟩
      rw [List.mem_append, List.mem_cons] at hf
      rw [List.mem_append]
      rcases hf with hf | rfl | hf
      · exact .inl hf
      · exact absurd hdf (hfirst d hd f hR)
      · exact .inr hf
    have hcount : es.length = (before ++ after).length := by
      simp only [List.length_cons, List.length_append] at hlength ⊢
      omega
    intro f hf
    rw [List.mem_append, List.mem_cons] at hf
    have hcases : f = g ∨ f ∈ before ++ after := by
      rw [List.mem_append]
      tauto
    rcases hcases with rfl | hf
    · exact ⟨e, List.mem_cons_self, hR⟩
    · obtain ⟨d, hd, hdf⟩ := ih hcount hothers hapart f hf
      exact ⟨d, List.mem_cons_of_mem e hd, hdf⟩

theorem IsProper.same_symm {a b : Value} (ha : a.IsProper) (h : a.same b = true) :
    b.same a = true := by
  induction ha generalizing b with
  | null => exact same_null_iff.1 h ▸ same_refl _
  | number hx =>
    obtain ⟨y, hy, hxy⟩ := (same_number_iff hx).1 h
    exact (same_number_iff hy).2 ⟨_, hx, hxy.symm⟩
  | str s => exact same_str_iff.1 h ▸ same_refl _
  | list _ ih =>
    obtain ⟨ys, rfl, hsame⟩ := same_list_iff.1 h
    refine same_list_iff.2 ⟨_, rfl, sameList_iff.2 ?_⟩
    exact forall₂_symm_of_mem (sameList_iff.1 hsame) fun x hx y => ih x hx
  | @dict es hkeys _ _ ihk ihv =>
    obtain ⟨fs, rfl, hlength, hsame⟩ := same_dict_iff.1 h
    have hapart : es.Pairwise fun d e => ∀ f : Value × Value,
        d.1.same f.1 = true ∧ d.2.same f.2 = true →
          ¬(e.1.same f.1 = true ∧ e.2.same f.2 = true) := by
      refine hkeys.imp_of_mem ?_
      intro d e _ he hde f hdf hef
      have := same_trans hdf.1 (ihk e he hef.1)
      rw [hde] at this
      cases this
    refine same_dict_iff.2 ⟨es, rfl, hlength.symm, sameEntries_iff.2 ?_⟩
    intro f hf
    obtain ⟨e, he, hk, hv⟩ := exists_partner hlength (sameEntries_iff.1 hsame) hapart f hf
    exact ⟨e, he, ihk e he hk, ihv e he hv⟩

def label? : Value → Option Nat
  | .float (.nan label) => some label
  | _ => none

theorem label?_eq_some_iff {a : Value} {x : Number} (ha : a.number? = some x) {l : Nat} :
    a.label? = some l ↔ x.exact = .nan l := by
  cases a with
  | float y =>
    cases ha
    cases y <;> simp [label?, Number.exact]
  | _ => cases ha <;> simp [label?, Number.exact]

theorem label?_of_same {a b : Value} (h : a.same b = true) : a.label? = b.label? := by
  cases ha : a.number? with
  | some x =>
    obtain ⟨y, hb, hxy⟩ := (same_number_iff ha).1 h
    ext l
    rw [label?_eq_some_iff ha, label?_eq_some_iff hb, hxy]
  | none =>
    cases a with
    | null => rw [same_null_iff.1 h]
    | str s => rw [same_str_iff.1 h]
    | list xs =>
      obtain ⟨ys, rfl, -⟩ := same_list_iff.1 h
      rfl
    | dict es =>
      obtain ⟨fs, rfl, -, -⟩ := same_dict_iff.1 h
      rfl
    | _ => cases ha

theorem eq_iff_same {a b : Value} : a.eq b = true ↔ a.same b = true ∧ a.label? = none := by
  unfold Value.eq
  cases ha : a.number? with
  | none =>
    have hlabel : a.label? = none := by
      cases a with
      | float x => cases ha
      | _ => rfl
    simp [hlabel]
  | some x =>
    have hlabel : a.label? = none ↔ ∀ l, x.exact ≠ .nan l := by
      simp only [Option.eq_none_iff_forall_ne_some, ne_eq, label?_eq_some_iff ha]
    rw [hlabel, same_number_iff ha]
    cases hb : b.number? with
    | none => simp [same_number_iff ha, hb]
    | some y => simp [Number.eq_iff_exact]

theorem IsProper.eq_symm {a b : Value} (ha : a.IsProper) (h : a.eq b = true) :
    b.eq a = true := by
  obtain ⟨hsame, hlabel⟩ := eq_iff_same.1 h
  exact eq_iff_same.2 ⟨ha.same_symm hsame, label?_of_same hsame ▸ hlabel⟩

theorem eq_trans {a b c : Value} (hab : a.eq b = true) (hbc : b.eq c = true) :
    a.eq c = true := by
  obtain ⟨hsame, hlabel⟩ := eq_iff_same.1 hab
  exact eq_iff_same.2 ⟨same_trans hsame (eq_iff_same.1 hbc).1, hlabel⟩

variable {es : List (Value × Value)} {k v : Value}

theorem parts_of_mem_insertKey {f : Value × Value} (h : f ∈ insertKey k v es) :
    (f.1 = k ∨ ∃ e ∈ es, e.1 = f.1) ∧ (f.2 = v ∨ ∃ e ∈ es, e.2 = f.2) := by
  induction es with
  | nil =>
    obtain rfl := List.mem_singleton.1 h
    exact ⟨.inl rfl, .inl rfl⟩
  | cons e es ih =>
    rw [insertKey] at h
    split_ifs at h with hk
    · rcases List.mem_cons.1 h with rfl | hf
      · exact ⟨.inr ⟨e, List.mem_cons_self, rfl⟩, .inl rfl⟩
      · exact ⟨.inr ⟨f, List.mem_cons_of_mem e hf, rfl⟩, .inr ⟨f, List.mem_cons_of_mem e hf, rfl⟩⟩
    · rcases List.mem_cons.1 h with rfl | hf
      · exact ⟨.inr ⟨f, List.mem_cons_self, rfl⟩, .inr ⟨f, List.mem_cons_self, rfl⟩⟩
      · obtain ⟨hkey, hvalue⟩ := ih hf
        refine ⟨hkey.imp_right ?_, hvalue.imp_right ?_⟩ <;>
        · rintro ⟨d, hd, hdf⟩
          exact ⟨d, List.mem_cons_of_mem e hd, hdf⟩

theorem pairwise_insertKey (h : es.Pairwise fun e f => e.1.same f.1 = false) (k v : Value) :
    (insertKey k v es).Pairwise fun e f => e.1.same f.1 = false := by
  induction es with
  | nil => exact List.pairwise_singleton _ _
  | cons e es ih =>
    obtain ⟨hfirst, hrest⟩ := List.pairwise_cons.1 h
    rw [insertKey]
    split_ifs with hk
    · exact List.pairwise_cons.2 ⟨hfirst, hrest⟩
    · refine List.pairwise_cons.2 ⟨?_, ih hrest⟩
      intro f hf
      rcases (parts_of_mem_insertKey hf).1 with hfk | ⟨d, hd, hdf⟩
      · rw [hfk]
        exact Bool.eq_false_iff.2 hk
      · rw [← hdf]
        exact hfirst d hd

theorem IsProper.insertKey (hes : (Value.dict es).IsProper) (hk : k.IsProper)
    (hv : v.IsProper) : (Value.dict (insertKey k v es)).IsProper := by
  cases hes with
  | number hx => cases hx
  | dict hapart hkeys hvalues =>
    refine .dict (pairwise_insertKey hapart k v) ?_ ?_
    · intro f hf
      rcases (parts_of_mem_insertKey hf).1 with hfk | ⟨d, hd, hdf⟩
      · exact hfk ▸ hk
      · exact hdf ▸ hkeys d hd
    · intro f hf
      rcases (parts_of_mem_insertKey hf).2 with hfv | ⟨d, hd, hdf⟩
      · exact hfv ▸ hv
      · exact hdf ▸ hvalues d hd

theorem IsProper.ofEntries (hkeys : ∀ e ∈ es, e.1.IsProper) (hvalues : ∀ e ∈ es, e.2.IsProper) :
    (ofEntries es).IsProper := by
  have hfold : ∀ acc, (Value.dict acc).IsProper →
      (Value.dict (es.foldl (fun acc e => Value.insertKey e.1 e.2 acc) acc)).IsProper := by
    induction es with
    | nil => exact fun acc hacc => hacc
    | cons e es ih =>
      intro acc hacc
      obtain ⟨hkey, hkeys⟩ := List.forall_mem_cons.1 hkeys
      obtain ⟨hvalue, hvalues⟩ := List.forall_mem_cons.1 hvalues
      exact ih hkeys hvalues _ (hacc.insertKey hkey hvalue)
  exact hfold [] (.dict .nil (by simp) (by simp))

end Value

end MinConflicts
