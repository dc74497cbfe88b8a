import MinConflicts.Proofs.Positions
import MinConflicts.Proofs.Success

/-!
# Shuffles

A shuffle swaps each place but the first, from the last one down, with a position that is not
above it. Swaps only reorder, and with draws from the unit interval every position exists. A swap
settles the place it is for: the swaps after it stay below. So the position can be read off the
order that comes out, and where the members are distinct, every order comes out for exactly one
sequence of positions.
-/
namespace MinConflicts.Search

variable {M α : Type}

inductive SwapsDown : Nat → List Nat → Prop
  | nil : SwapsDown 0 []
  | cons {i k : Nat} {ks : List Nat} : k ≤ i + 1 → SwapsDown i ks → SwapsDown (i + 1) (k :: ks)

/-- The order in which swaps from the last place down leave a list. -/
def swapped (ks : List Nat) (xs : List α) : List α :=
  (applySwaps (xs.length - 1) ks xs.toArray).toList

variable {xs ys : Array α} {ks : List Nat} {i k m : Nat}

theorem swapIfInBounds_perm (xs : Array α) (i k : Nat) :
    (xs.swapIfInBounds i k).toList.Perm xs.toList := by
  unfold Array.swapIfInBounds
  split_ifs
  · exact (Array.swap_perm _ _).toList
  · exact .refl _
  · exact .refl _

theorem getElem?_swapIfInBounds (hi : i < xs.size) (hk : k < xs.size) (m : Nat) :
    (xs.swapIfInBounds i k)[m]? =
      if k = m then xs[i]? else if i = m then xs[k]? else xs[m]? := by
  rw [Array.swapIfInBounds_def, dif_pos hi, dif_pos hk, Array.getElem?_swap,
    Array.getElem?_eq_getElem hi, Array.getElem?_eq_getElem hk]

theorem getElem?_swapIfInBounds_left (hi : i < xs.size) (hk : k < xs.size) :
    (xs.swapIfInBounds i k)[i]? = xs[k]? := by
  rw [getElem?_swapIfInBounds hi hk, if_pos rfl]
  split_ifs with h
  · rw [h]
  · rfl

theorem getElem?_swapIfInBounds_of_lt (hki : k ≤ i) (hi : i < xs.size) (hm : i < m) :
    (xs.swapIfInBounds i k)[m]? = xs[m]? := by
  rw [getElem?_swapIfInBounds hi (by omega), if_neg (by omega), if_neg (by omega)]

theorem applySwaps_perm (i : Nat) (ks : List Nat) (xs : Array α) :
    (applySwaps i ks xs).toList.Perm xs.toList := by
  induction ks generalizing i xs with
  | nil => exact .refl _
  | cons k ks ih => exact (ih _ _).trans (swapIfInBounds_perm xs i k)

theorem SwapsDown.length_eq (h : SwapsDown i ks) : ks.length = i := by
  induction h with
  | nil => rfl
  | cons _ _ ih => rw [List.length_cons, ih]

theorem applySwaps_above (h : SwapsDown i ks) (hi : i ≤ xs.size - 1) (hm : i < m) :
    (applySwaps i ks xs)[m]? = xs[m]? := by
  induction h generalizing xs with
  | nil => rfl
  | @cons i k ks hk _ ih =>
    have hsize : i ≤ (xs.swapIfInBounds (i + 1) k).size - 1 := by
      rw [Array.size_swapIfInBounds]
      omega
    rw [applySwaps, Nat.add_sub_cancel, ih hsize (by omega)]
    exact getElem?_swapIfInBounds_of_lt hk (by omega) hm

theorem applySwaps_settles (hk : k ≤ i + 1) (h : SwapsDown i ks) (hi : i + 1 < xs.size) :
    (applySwaps (i + 1) (k :: ks) xs)[i + 1]? = xs[k]? := by
  have hsize : i ≤ (xs.swapIfInBounds (i + 1) k).size - 1 := by
    rw [Array.size_swapIfInBounds]
    omega
  rw [applySwaps, Nat.add_sub_cancel, applySwaps_above h hsize (Nat.lt_succ_self i)]
  exact getElem?_swapIfInBounds_left hi (by omega)

theorem eq_of_perm_of_tail {xs ys : List α} (h : ys.Perm xs)
    (htail : ∀ m, 0 < m → ys[m]? = xs[m]?) : ys = xs := by
  cases xs with
  | nil => exact List.perm_nil.1 h
  | cons x xs =>
    cases ys with
    | nil => exact absurd h.symm.eq_nil (List.cons_ne_nil x xs)
    | cons y ys =>
      have hrest : ys = xs := List.ext_getElem? fun m => htail (m + 1) (Nat.succ_pos m)
      rw [hrest] at h ⊢
      have hfirst : [y].Perm [x] := (List.perm_append_right_iff xs).1 h
      rw [List.singleton_perm_singleton.1 hfirst]

theorem exists_open_place (hn : ys.toList.Nodup) (hperm : ys.toList.Perm xs.toList)
    (hi : i < ys.size) (habove : ∀ m, i < m → ys[m]? = xs[m]?) :
    ∃ k ≤ i, xs[k]? = ys[i]? := by
  have hmem : ys[i] ∈ xs.toList := hperm.mem_iff.1 (Array.getElem_mem_toList hi)
  obtain ⟨k, hk⟩ := List.mem_iff_getElem?.1 hmem
  rw [Array.getElem?_toList] at hk
  refine ⟨k, ?_, hk.trans (Array.getElem?_eq_getElem hi).symm⟩
  -- a member above `i` is in order already, so it does not belong at `i`
  by_contra hik
  have htwice : ys.toList[k]? = ys.toList[i]? := by
    rw [Array.getElem?_toList, Array.getElem?_toList, habove k (by omega), hk,
      Array.getElem?_eq_getElem hi]
  have hlt : i < ys.toList.length := hi
  have hplace := (List.getElem?_inj hlt hn).1 htwice.symm
  omega

/-- Where distinct members are in order above the place `i`, exactly one sequence of swaps from
`i` down puts the others in order too. -/
theorem existsUnique_swaps (hn : xs.toList.Nodup) (hperm : ys.toList.Perm xs.toList)
    (hi : i ≤ xs.size - 1) (habove : ∀ m, i < m → ys[m]? = xs[m]?) :
    ∃! ks, SwapsDown i ks ∧ applySwaps i ks xs = ys := by
  -- the member that belongs at `i` gives the swap for `i`; then `i` is in order too
  induction i generalizing xs with
  | zero =>
    have heq : ys = xs := by
      apply Array.toList_inj.1
      apply eq_of_perm_of_tail hperm
      simpa only [Array.getElem?_toList] using habove
    refine ⟨[], ⟨.nil, heq.symm⟩, ?_⟩
    intro ls hls
    exact List.length_eq_zero_iff.1 hls.1.length_eq
  | succ i ih =>
    have hsize : ys.size = xs.size := hperm.length_eq
    obtain ⟨k, hk, hmember⟩ :=
      exists_open_place (hperm.nodup_iff.2 hn) hperm (by omega) habove
    have hswap := swapIfInBounds_perm xs (i + 1) k
    have hopen : i ≤ (xs.swapIfInBounds (i + 1) k).size - 1 := by
      rw [Array.size_swapIfInBounds]
      omega
    have habove' : ∀ m, i < m → ys[m]? = (xs.swapIfInBounds (i + 1) k)[m]? := by
      intro m hm
      rcases Nat.eq_or_lt_of_le (Nat.succ_le_of_lt hm) with rfl | hlt
      · rw [Nat.succ_eq_add_one, getElem?_swapIfInBounds_left (by omega) (by omega), hmember]
      · rw [getElem?_swapIfInBounds_of_lt hk (by omega) hlt, habove m hlt]
    obtain ⟨ks, ⟨hks, hys⟩, hunique⟩ :=
      ih (hswap.nodup_iff.2 hn) (hperm.trans hswap.symm) hopen habove'
    refine ⟨k :: ks, ⟨.cons hk hks, hys⟩, ?_⟩
    intro ls hls
    obtain ⟨hdown, hls⟩ := hls
    cases hdown with
    | @cons _ l ls hl hrest =>
      have hsame : xs.toList[l]? = xs.toList[k]? := by
        rw [Array.getElem?_toList, Array.getElem?_toList, hmember, ← hls]
        exact (applySwaps_settles hl hrest (by omega)).symm
      have hlt : l < xs.toList.length := by
        rw [Array.length_toList]
        omega
      obtain rfl : l = k := (List.getElem?_inj hlt hn).1 hsame
      rw [hunique ls ⟨hrest, hls⟩]

variable {source : Draws}

theorem exists_drawSwaps (hunit : ∀ k, (source k).InUnit) {n : Nat} (hi : i ≤ n - 1)
    (j : Journal M) :
    ∃ ks, drawSwaps source n i j = .ok ks { j with draws := j.draws + i } ∧ SwapsDown i ks ∧
      ∀ m < i, ∃ k : Nat, ks[m]? = some k ∧
        position (source (j.draws + m)) (i + 1 - m) = .ok k := by
  induction i generalizing j with
  | zero =>
    refine ⟨[], rfl, .nil, ?_⟩
    intro m hm
    omega
  | succ i ih =>
    obtain ⟨z, hz⟩ := position_succeeds (hunit j.draws) (i + 2)
    obtain ⟨hlow, hhigh⟩ := position_bounds (hunit j.draws) (Nat.succ_pos _) hz
    obtain ⟨k, rfl⟩ := Int.eq_ofNat_of_zero_le hlow
    have hplace : (position (source j.draws) (i + 2) >>= place n) = .ok k :=
      Fault.bind_eq_ok.2 ⟨k, hz, place_natCast (by omega)⟩
    obtain ⟨ks, hks, hdown, hdrawn⟩ := ih (by omega) { j with draws := j.draws + 1 }
    have hjournal : j.draws + 1 + i = j.draws + (i + 1) := by omega
    simp only [hjournal] at hks
    refine ⟨k :: ks, ?_, .cons (by omega) hdown, ?_⟩
    · apply bind_eq_ok.2
      refine ⟨_, _, draw_eq_ok.2 ⟨rfl, rfl⟩, ?_⟩
      apply bind_eq_ok.2
      refine ⟨k, _, lift_eq_ok.2 ⟨hplace, rfl⟩, ?_⟩
      apply bind_eq_ok.2
      exact ⟨ks, _, hks, pure_eq_ok.2 ⟨rfl, rfl⟩⟩
    · intro m hm
      cases m with
      | zero => exact ⟨k, rfl, hz⟩
      | succ m =>
        obtain ⟨l, hl, hposition⟩ := hdrawn m (by omega)
        refine ⟨l, hl, ?_⟩
        have hdraw : j.draws + (m + 1) = j.draws + 1 + m := by omega
        rw [hdraw, Nat.add_sub_add_right]
        exact hposition

theorem shuffle_of_drawSwaps {xs : List α} {j j' : Journal M}
    (h : drawSwaps source xs.length (xs.length - 1) j = .ok ks j') :
    shuffle source xs j = .ok (swapped ks xs) j' :=
  bind_eq_ok.2 ⟨ks, j', h, pure_eq_ok.2 ⟨rfl, rfl⟩⟩

theorem shuffle_perm {xs ys : List α} {j j' : Journal M}
    (h : shuffle source xs j = .ok ys j') : ys.Perm xs := by
  obtain ⟨ks, j₁, -, h⟩ := bind_eq_ok.1 h
  obtain ⟨rfl, -⟩ := pure_eq_ok.1 h
  exact applySwaps_perm _ ks xs.toArray

theorem shuffle_succeeds (hunit : ∀ k, (source k).InUnit) (xs : List α) :
    Succeeds (shuffle source xs : Search M (List α)) := by
  intro j
  obtain ⟨ks, hks, -, -⟩ := exists_drawSwaps hunit (Nat.le_refl (xs.length - 1)) j
  exact ⟨swapped ks xs, _, shuffle_of_drawSwaps hks⟩

/-- A shuffle with draws from the unit interval, both ends included. It makes one draw for each
place but the first, from the last place down. The draw for the place `i` stands for a position
among the places up to `i`, and the result is the order that these swaps give. Where the members
are distinct, each of their orders is given by exactly one sequence of swaps. -/
theorem shuffle_gives_each_order_once (hunit : ∀ k, (source k).InUnit) (xs : List α) :
    (∀ j : Journal M, ∃ ks, SwapsDown (xs.length - 1) ks ∧
      (∀ i, 0 < i → i < xs.length → ∃ k : Nat, k ≤ i ∧ ks[xs.length - 1 - i]? = some k ∧
        position (source (j.draws + (xs.length - 1 - i))) (i + 1) = .ok k) ∧
      shuffle source xs j = .ok (swapped ks xs) { j with draws := j.draws + (xs.length - 1) } ∧
      (swapped ks xs).Perm xs) ∧
    (xs.Nodup → ∀ ys, ys.Perm xs →
      ∃! ks, SwapsDown (xs.length - 1) ks ∧ swapped ks xs = ys) := by
  constructor
  · intro j
    obtain ⟨ks, hks, hdown, hdrawn⟩ := exists_drawSwaps hunit (Nat.le_refl (xs.length - 1)) j
    have hshuffle := shuffle_of_drawSwaps hks
    refine ⟨ks, hdown, ?_, hshuffle, shuffle_perm hshuffle⟩
    intro i hpos hlt
    obtain ⟨k, hk, hposition⟩ := hdrawn (xs.length - 1 - i) (by omega)
    have hplaces : xs.length - 1 + 1 - (xs.length - 1 - i) = i + 1 := by omega
    rw [hplaces] at hposition
    obtain ⟨-, hhigh⟩ := position_bounds (hunit _) (Nat.succ_pos i) hposition
    exact ⟨k, by omega, hk, hposition⟩
  · intro hn ys hperm
    have habove : ∀ m, xs.length - 1 < m → ys.toArray[m]? = xs.toArray[m]? := by
      intro m hm
      have hlength := hperm.length_eq
      rw [List.getElem?_toArray, List.getElem?_toArray, List.getElem?_eq_none (by omega),
        List.getElem?_eq_none (by omega)]
    have hswaps : ∃! ks, SwapsDown (xs.length - 1) ks ∧
        applySwaps (xs.length - 1) ks xs.toArray = ys.toArray :=
      existsUnique_swaps hn hperm le_rfl habove
    simpa only [swapped, ← Array.toList_inj] using hswaps

theorem shuffle_reverses_three :
    shuffle (fun k => if k = 0 then .zero false else .ofNat 1) ["a", "b", "c"]
        ({} : Journal Unit) = .ok ["c", "b", "a"] { draws := 2 } ∧
      ∃! ks, SwapsDown 2 ks ∧ swapped ks ["a", "b", "c"] = ["c", "b", "a"] := by
  have hunit : ∀ k : Nat, (if k = 0 then Binary64.zero false else .ofNat 1).InUnit := by
    intro k
    split_ifs <;> decide
  obtain ⟨hdrawn, horders⟩ := shuffle_gives_each_order_once (M := Unit) hunit ["a", "b", "c"]
  obtain ⟨ks, hdown, hplaces, hshuffle, -⟩ := hdrawn {}
  obtain ⟨k, -, hk, hposition⟩ := hplaces 2 (by decide) (by decide)
  obtain ⟨l, -, hl, hposition'⟩ := hplaces 1 (by decide) (by decide)
  obtain rfl : k = 0 := Int.ofNat.inj (Except.ok.inj (hposition.symm.trans rfl))
  obtain rfl : l = 1 := Int.ofNat.inj (Except.ok.inj (hposition'.symm.trans rfl))
  obtain ⟨a, b, rfl⟩ := List.length_eq_two.1 hdown.length_eq
  cases hk
  cases hl
  exact ⟨hshuffle, horders (by decide) _ (by decide)⟩

end MinConflicts.Search
