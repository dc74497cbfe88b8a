import Mathlib.Data.List.Basic
import MinConflicts.Sort

/-!
# Sorted lists

Insertion keeps what is in a list. It puts a list in any order for which the rule of insertion is
right on every two members as they come, so an order that also looks at the places of members says
that sorting is stable.
-/
namespace MinConflicts

variable {α β : Type}

theorem insertBy_perm (follows : α → α → Bool) (x : α) (xs : List α) :
    (insertBy follows x xs).Perm (x :: xs) := by
  induction xs with
  | nil => exact .refl _
  | cons y ys ih =>
    unfold insertBy
    split_ifs
    · exact .refl _
    · exact (ih.cons y).trans (.swap x y ys)

theorem sortBy_perm (follows : α → α → Bool) (xs : List α) : (sortBy follows xs).Perm xs := by
  induction xs with
  | nil => exact .refl _
  | cons x xs ih => exact (insertBy_perm follows x _).trans (ih.cons x)

theorem map_insertBy (follows : α → α → Bool) (f : β → α) (x : β) (ys : List β) :
    (insertBy (fun y z => follows (f y) (f z)) x ys).map f = insertBy follows (f x) (ys.map f) := by
  induction ys with
  | nil => rfl
  | cons y ys ih =>
    simp only [insertBy, List.map_cons]
    split_ifs
    · rfl
    · rw [List.map_cons, ih]

theorem map_sortBy (follows : α → α → Bool) (f : β → α) (xs : List β) :
    (sortBy (fun y z => follows (f y) (f z)) xs).map f = sortBy follows (xs.map f) := by
  induction xs with
  | nil => rfl
  | cons x xs ih => rw [sortBy, map_insertBy, ih, List.map_cons, sortBy]

variable {follows : α → α → Bool} {R : α → α → Prop}

theorem pairwise_insertBy (htrans : ∀ x y z, R x y → R y z → R x z) {x : α} {ys : List α}
    (hx : ∀ y ∈ ys, if follows y x = true then R x y else R y x) (hys : ys.Pairwise R) :
    (insertBy follows x ys).Pairwise R := by
  induction ys with
  | nil => exact List.pairwise_singleton R x
  | cons y ys ih =>
    obtain ⟨hfirst, hrest⟩ := List.pairwise_cons.1 hys
    obtain ⟨hy, hlater⟩ := List.forall_mem_cons.1 hx
    rw [insertBy]
    split_ifs at hy ⊢
    · refine List.pairwise_cons.2 ⟨List.forall_mem_cons.2 ⟨hy, fun z hz => ?_⟩, hys⟩
      exact htrans x y z hy (hfirst z hz)
    · refine List.pairwise_cons.2 ⟨fun z hz => ?_, ih hlater hrest⟩
      rcases List.mem_cons.1 ((insertBy_perm follows x ys).mem_iff.1 hz) with rfl | hz
      · exact hy
      · exact hfirst z hz

theorem pairwise_sortBy (htrans : ∀ x y z, R x y → R y z → R x z) {xs : List α}
    (h : xs.Pairwise fun x y => if follows y x = true then R x y else R y x) :
    (sortBy follows xs).Pairwise R := by
  induction xs with
  | nil => exact .nil
  | cons x xs ih =>
    obtain ⟨hx, hxs⟩ := List.pairwise_cons.1 h
    refine pairwise_insertBy htrans (fun y hy => ?_) (ih hxs)
    exact hx y ((sortBy_perm follows xs).mem_iff.1 hy)

theorem zipIdx_pairwise_lt (xs : List α) : xs.zipIdx.Pairwise fun e f => e.2 < f.2 := by
  have hplaces : (xs.zipIdx.map Prod.snd).Pairwise (· < ·) := by
    rw [List.zipIdx_map_snd]
    exact List.pairwise_lt_range'
  exact List.pairwise_map.1 hplaces

end MinConflicts
