import MinConflicts.Domain.Basic
import MinConflicts.Proofs.Effects
import MinConflicts.Proofs.ProperValues

/-!
# Sets keep first occurrences

A set is built member by member: a member is kept unless it is the same as one kept before. As
sameness is transitive, it makes no difference to ask the members that were not kept as well. So
the values of a set are the members that are equal to no earlier one, where each NaN is a member
of its own.
-/
namespace MinConflicts

namespace Value

variable {vs : List Value} {v : Value}

def isFirst (vs : List Value) (v : Value) (i : Nat) : Bool :=
  (vs.take i).all fun u => !v.eq u

/-- The members that are equal to no earlier one. -/
def firstOccurrences (vs : List Value) : List Value :=
  (vs.zipIdx.filter fun e => isFirst vs e.1 e.2).map (·.1)

theorem distinct_concat (vs : List Value) (v : Value) : distinct (vs ++ [v]) =
    if (distinct vs).any (same v) then distinct vs else distinct vs ++ [v] := by
  rw [distinct, List.foldl_append]
  rfl

theorem firstOccurrences_concat (vs : List Value) (v : Value) : firstOccurrences (vs ++ [v]) =
    if vs.all fun u => !v.eq u then firstOccurrences vs ++ [v] else firstOccurrences vs := by
  have hbefore : (vs.zipIdx.filter fun e => isFirst (vs ++ [v]) e.1 e.2) =
      vs.zipIdx.filter fun e => isFirst vs e.1 e.2 := by
    apply List.filter_congr
    intro e he
    have hlt : e.2 < vs.length := by
      have := List.snd_lt_of_mem_zipIdx he
      omega
    rw [isFirst, isFirst, List.take_append_of_le_length hlt.le]
  have hlast : isFirst (vs ++ [v]) v vs.length = vs.all fun u => !v.eq u := by
    rw [isFirst, List.take_left']
    rfl
  rw [firstOccurrences, List.zipIdx_append, List.filter_append, hbefore, List.map_append]
  simp only [List.zipIdx_singleton, Nat.zero_add, List.filter_singleton, hlast]
  split_ifs with hnew
  · rw [hnew]
    rfl
  · rw [Bool.eq_false_iff.2 hnew]
    exact List.append_nil _

theorem mem_of_mem_distinct (h : v ∈ distinct vs) : v ∈ vs := by
  induction vs using List.reverseRecOn with
  | nil => exact h
  | append_singleton vs u ih =>
    rw [distinct_concat] at h
    split_ifs at h
    · exact List.mem_append_left _ (ih h)
    · rcases List.mem_append.1 h with h | h
      · exact List.mem_append_left _ (ih h)
      · exact List.mem_append_right _ h

theorem exists_kept (h : v ∈ vs) : ∃ k ∈ distinct vs, v.same k = true := by
  induction vs using List.reverseRecOn with
  | nil => exact absurd h List.not_mem_nil
  | append_singleton vs u ih =>
    rw [distinct_concat]
    rcases List.mem_append.1 h with h | h
    · obtain ⟨k, hk, hsame⟩ := ih h
      refine ⟨k, ?_, hsame⟩
      split_ifs
      · exact hk
      · exact List.mem_append_left _ hk
    · obtain rfl := List.mem_singleton.1 h
      split_ifs with hany
      · exact List.any_eq_true.1 hany
      · exact ⟨v, List.mem_append_right _ h, same_refl v⟩

theorem any_same_distinct (vs : List Value) (v : Value) :
    (distinct vs).any (same v) = vs.any (same v) := by
  rw [Bool.eq_iff_iff, List.any_eq_true, List.any_eq_true]
  constructor
  · rintro ⟨k, hk, hsame⟩
    exact ⟨k, mem_of_mem_distinct hk, hsame⟩
  · rintro ⟨u, hu, hsame⟩
    obtain ⟨k, hk, huk⟩ := exists_kept hu
    exact ⟨k, hk, same_trans hsame huk⟩

theorem pairwise_distinct (vs : List Value) :
    (distinct vs).Pairwise fun u v => v.same u = false := by
  induction vs using List.reverseRecOn with
  | nil => exact .nil
  | append_singleton vs v ih =>
    rw [distinct_concat]
    split_ifs with hany
    · exact ih
    · refine List.pairwise_append.2 ⟨ih, List.pairwise_singleton _ _, ?_⟩
      intro u hu w hw
      rw [List.mem_singleton.1 hw, Bool.eq_false_iff]
      exact fun hsame => hany (List.any_eq_true.2 ⟨u, hu, hsame⟩)

theorem distinct_of_pairwise (h : vs.Pairwise fun u v => v.same u = false) : distinct vs = vs := by
  induction vs using List.reverseRecOn with
  | nil => rfl
  | append_singleton vs v ih =>
    obtain ⟨hvs, -, hlast⟩ := List.pairwise_append.1 h
    have hnone : ¬(vs.any (same v) = true) := by
      rw [List.any_eq_true]
      rintro ⟨u, hu, hsame⟩
      rw [hlast u hu v (List.mem_singleton_self v)] at hsame
      cases hsame
    rw [distinct_concat, ih hvs, if_neg hnone]

theorem distinct_eq_firstOccurrences (hnan : (vs.filterMap label?).Nodup) :
    distinct vs = firstOccurrences vs := by
  induction vs using List.reverseRecOn with
  | nil => rfl
  | append_singleton vs v ih =>
    rw [List.filterMap_append, List.nodup_append] at hnan
    obtain ⟨hvs, -, hapart⟩ := hnan
    have hequal : ∀ u ∈ vs, v.same u = v.eq u := by
      intro u hu
      rw [Bool.eq_iff_iff, eq_iff_same, iff_self_and]
      intro hsame
      by_contra hlabel
      obtain ⟨l, hl⟩ := Option.ne_none_iff_exists'.1 hlabel
      have hlu : u.label? = some l := label?_of_same hsame ▸ hl
      refine hapart l (List.mem_filterMap.2 ⟨u, hu, hlu⟩) l ?_ rfl
      exact List.mem_filterMap.2 ⟨v, List.mem_singleton_self v, hl⟩
    have hnew : (vs.all fun u => !v.eq u) = !vs.any (same v) := by
      rw [List.not_any_eq_all_not, Bool.eq_iff_iff, List.all_eq_true, List.all_eq_true]
      exact forall₂_congr fun u hu => by rw [hequal u hu]
    rw [distinct_concat, firstOccurrences_concat, any_same_distinct, ih hvs, hnew]
    cases vs.any (same v) <;> rfl

theorem firstOccurrences_sublist (vs : List Value) : (firstOccurrences vs).Sublist vs := by
  have hsublist := (List.filter_sublist (p := fun e => isFirst vs e.1 e.2) (l := vs.zipIdx)).map (·.1)
  rwa [List.zipIdx_map_fst] at hsublist

theorem pairwise_firstOccurrences (vs : List Value) :
    (firstOccurrences vs).Pairwise fun u v => v.eq u = false := by
  induction vs using List.reverseRecOn with
  | nil => exact .nil
  | append_singleton vs v ih =>
    rw [firstOccurrences_concat]
    split_ifs with hnew
    · refine List.pairwise_append.2 ⟨ih, List.pairwise_singleton _ _, ?_⟩
      intro u hu w hw
      rw [List.mem_singleton.1 hw]
      have hdiffers := List.all_eq_true.1 hnew u ((firstOccurrences_sublist vs).subset hu)
      simpa using hdiffers
    · exact ih

theorem isFirst_eq_false_iff {i : Nat} : isFirst vs v i = false ↔
    ∃ j u, j < i ∧ vs[j]? = some u ∧ v.eq u = true := by
  simp only [isFirst, List.all_eq_false, List.mem_iff_getElem?, List.getElem?_take,
    Bool.not_eq_true', Bool.not_eq_false]
  constructor
  · rintro ⟨u, ⟨j, hj⟩, heq⟩
    rw [Option.ite_none_right_eq_some] at hj
    exact ⟨j, u, hj.1, hj.2, heq⟩
  · rintro ⟨j, u, hj, hu, heq⟩
    exact ⟨u, ⟨j, by rw [if_pos hj, hu]⟩, heq⟩

theorem exists_first {i : Nat} (hnot : isFirst vs v i = false) :
    ∃ j u, j < i ∧ vs[j]? = some u ∧ isFirst vs u j = true ∧ v.eq u = true := by
  -- of the earlier members that it is equal to, the earliest is kept, as equality is transitive
  induction i using Nat.strong_induction_on generalizing v with
  | _ i ih =>
    obtain ⟨j, u, hj, hu, hvu⟩ := isFirst_eq_false_iff.1 hnot
    cases hfirst : isFirst vs u j with
    | true => exact ⟨j, u, hj, hu, hfirst, hvu⟩
    | false =>
      obtain ⟨k, w, hk, hw, hkept, huw⟩ := ih j hj hfirst
      exact ⟨k, w, hk.trans hj, hw, hkept, eq_trans hvu huw⟩

theorem IsProper.of_mem_members {u : Value} (hv : v.IsProper) (hvs : v.members = .ok vs)
    (hu : u ∈ vs) : u.IsProper := by
  cases hv with
  | null => cases hvs
  | number hx =>
    cases v with
    | bool b => cases hvs
    | int z => cases hvs
    | float x => cases hvs
    | _ => cases hx
  | str s =>
    cases hvs
    obtain ⟨c, -, rfl⟩ := List.mem_map.1 hu
    exact .str _
  | list hxs =>
    cases hvs
    exact hxs u hu
  | dict _ hkeys _ =>
    cases hvs
    obtain ⟨e, he, rfl⟩ := List.mem_map.1 hu
    exact hkeys e he

end Value

namespace Domain

open Value

/-- The set of the members of a value, each NaN of which is a member of its own. Its values are
the members that are equal to no earlier one, in their order. They are equal to none of each
other, a member that is left out is equal to an earlier one that is kept, and the set of the
values has these values again. -/
theorem set_keeps_first_occurrences {v : Value} {vs : List Value} (hv : v.IsProper)
    (hmembers : v.members = .ok vs) (hnan : (vs.filterMap label?).Nodup) (rating : Rating) :
    (∃ d, ofMembers v rating = .ok d ∧ d.values = .ok (firstOccurrences vs)) ∧
    (firstOccurrences vs).Sublist vs ∧
    ((firstOccurrences vs).Pairwise fun u w => u.eq w = false ∧ w.eq u = false) ∧
    (∀ i u, vs[i]? = some u → isFirst vs u i = false → ∃ j w, j < i ∧ vs[j]? = some w ∧
      isFirst vs w j = true ∧ u.eq w = true ∧ w.eq u = true) ∧
    ∃ d, ofMembers (.list (firstOccurrences vs)) rating = .ok d ∧
      d.values = .ok (firstOccurrences vs) := by
  have hproper : ∀ u ∈ vs, u.IsProper := fun u hu => hv.of_mem_members hmembers hu
  have hkept := distinct_eq_firstOccurrences hnan
  have hsublist := firstOccurrences_sublist vs
  refine ⟨⟨⟨.distinct (distinct vs), rating⟩, ?_, ?_⟩, hsublist, ?_, ?_, ?_⟩
  · exact Fault.bind_eq_ok.2 ⟨vs, hmembers, rfl⟩
  · exact congrArg Except.ok hkept
  · refine (pairwise_firstOccurrences vs).imp_of_mem ?_
    intro u w hu _ hwu
    refine ⟨?_, hwu⟩
    rw [Bool.eq_false_iff]
    intro huw
    rw [(hproper u (hsublist.subset hu)).eq_symm huw] at hwu
    cases hwu
  · intro i u hu hnot
    obtain ⟨j, w, hj, hw, hfirst, heq⟩ := exists_first hnot
    exact ⟨j, w, hj, hw, hfirst, heq, (hproper u (List.mem_of_getElem? hu)).eq_symm heq⟩
  · have hagain : distinct (firstOccurrences vs) = firstOccurrences vs := by
      rw [← hkept]
      exact distinct_of_pairwise (pairwise_distinct vs)
    exact ⟨⟨.distinct (distinct (firstOccurrences vs)), rating⟩, rfl, congrArg Except.ok hagain⟩

def mixedMembers : List Value :=
  [.int 1, .float (.nan 0), .float (.ofNat 1),
    .ofEntries [(.str "k", .int 2), (.str "l", .null)], .float (.nan 1), .bool true,
    .ofEntries [(.str "l", .null), (.str "k", .float (.ofNat 2))]]

theorem mixedMembers_proper : (Value.list mixedMembers).IsProper := by
  have htexts : ∀ s t : String, ∀ v w : Value, v.IsProper → w.IsProper →
      (Value.ofEntries [(.str s, v), (.str t, w)]).IsProper := by
    intro s t v w hv hw
    apply IsProper.ofEntries
    · simp [IsProper.str]
    · simp [hv, hw]
  apply IsProper.list
  simp only [mixedMembers, List.forall_mem_cons]
  exact ⟨.number rfl, .number rfl, .number rfl, htexts _ _ _ _ (.number rfl) .null, .number rfl,
    .number rfl, htexts _ _ _ _ .null (.number rfl), by simp⟩

theorem mixedMembers_keep_four : ∃ d, ofMembers (.list mixedMembers) Rating.uniform = .ok d ∧
    d.values = .ok [.int 1, .float (.nan 0),
      .ofEntries [(.str "k", .int 2), (.str "l", .null)], .float (.nan 1)] := by
  have hkept : firstOccurrences mixedMembers = [.int 1, .float (.nan 0),
      .ofEntries [(.str "k", .int 2), (.str "l", .null)], .float (.nan 1)] := rfl
  obtain ⟨hset, -⟩ :=
    set_keeps_first_occurrences mixedMembers_proper rfl (by decide) Rating.uniform
  rwa [hkept] at hset

end Domain

end MinConflicts
