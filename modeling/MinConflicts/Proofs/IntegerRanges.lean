import MinConflicts.Domain.Range
import MinConflicts.Proofs.Counts
import MinConflicts.Proofs.Quotients

/-!
# Ranges of integers

The values of a range of integers are to be all integers from its lower bound that are whole steps
apart and not above its upper bound. Their number goes through a quotient that is rounded to a
double-precision number, and nothing holds them below the upper bound: where the quotient is
rounded up to the next integer there is one value more, which lies above the bound or has wrapped
around. A span below `2 ^ 53` leaves no room for that.
-/
namespace MinConflicts.Range

def grid (low : Int) (step n : Nat) : List Int :=
  (List.range n).map fun k : Nat => low + step * k

/-- The integers from `low` to `high` that are whole steps from `low`, in increasing order. -/
structure IsGrid (low high : Int) (step : Nat) (zs : List Int) : Prop where
  mem_iff : ∀ z, z ∈ zs ↔ low ≤ z ∧ z ≤ high ∧ (step : Int) ∣ z - low
  increasing : zs.Pairwise (· < ·)

def span (a b : Int) : Nat := (max a b - min a b).toNat

theorem add_mul_le_iff {low high : Int} {step : Nat} (hle : low ≤ high) (hstep : step ≠ 0)
    (k : Nat) : low + step * k ≤ high ↔ k ≤ (high - low).toNat / step := by
  have hcast : ((k * step : Nat) : Int) = step * k := by rw [Nat.cast_mul, mul_comm]
  rw [Nat.le_div_iff_mul_le (Nat.pos_of_ne_zero hstep)]
  omega

theorem grid_isGrid {low high : Int} {step : Nat} (hle : low ≤ high) (hstep : step ≠ 0) :
    IsGrid low high step (grid low step ((high - low).toNat / step + 1)) := by
  constructor
  · intro z
    simp only [grid, List.mem_map, List.mem_range, Nat.lt_succ_iff, ← add_mul_le_iff hle hstep]
    constructor
    · rintro ⟨k, hk, rfl⟩
      have hnonneg : 0 ≤ (step : Int) * k := by positivity
      exact ⟨by omega, hk, ⟨k, by omega⟩⟩
    · rintro ⟨hlow, hhigh, c, hc⟩
      have hpos : (0 : Int) < step := by omega
      have hmul : 0 ≤ (step : Int) * c := by omega
      obtain ⟨k, rfl⟩ := Int.eq_ofNat_of_zero_le (nonneg_of_mul_nonneg_right hmul hpos)
      exact ⟨k, by omega, by omega⟩
  · rw [grid, List.pairwise_map]
    refine List.pairwise_lt_range.imp fun {i j} hij => ?_
    have hmul : step * i < step * j := Nat.mul_lt_mul_of_pos_left hij (Nat.pos_of_ne_zero hstep)
    exact_mod_cast Int.add_lt_add_left (Int.ofNat_lt.2 hmul) low

theorem fits64_iff {z : Int} :
    fits64 z = true ↔ -0x8000000000000000 ≤ z ∧ z < 0x8000000000000000 :=
  decide_eq_true_iff

theorem wrap64_of_fits64 {z : Int} (h : fits64 z) : wrap64 z = z := by
  obtain ⟨hlow, hhigh⟩ := fits64_iff.1 h
  exact Int.bmod_eq_of_le (by omega) (by omega)

theorem checkFinite_int {z : Int} (h : z.natAbs < 2 ^ 128) (bound : String) :
    checkFinite bound (.int z) = .ok () := by
  obtain ⟨x, hx⟩ := Number.toReal_int h
  refine Fault.bind_eq_ok.2 ⟨.int z, rfl, ?_⟩
  exact Fault.bind_eq_ok.2 ⟨_, hx, rfl⟩

theorem lt_int (a b : Int) : (Value.int a).lt (.int b) = .ok (decide (a < b)) := by
  have hcompare : Number.lt (.int a) (.int b) = decide (a < b) := by
    rw [Bool.eq_iff_iff, decide_eq_true_iff, ← Int.compare_eq_lt]
    simp [Number.lt, Number.compare?]
  exact congrArg Except.ok hcompare

theorem least_int (a b : Int) : (Value.int a).least (.int b) = .ok (.int (min a b)) := by
  refine Fault.bind_eq_ok.2 ⟨decide (b < a), lt_int b a, Fault.pure_eq_ok.2 ?_⟩
  by_cases h : b < a
  · simp [h, min_eq_right h.le]
  · simp [h, min_eq_left (not_lt.1 h)]

theorem greatest_int (a b : Int) : (Value.int a).greatest (.int b) = .ok (.int (max a b)) := by
  refine Fault.bind_eq_ok.2 ⟨decide (a < b), lt_int a b, Fault.pure_eq_ok.2 ?_⟩
  by_cases h : a < b
  · simp [h, max_eq_right h.le]
  · simp [h, max_eq_left (not_lt.1 h)]

theorem make_int {a b s : Int} (ha : a.natAbs < 2 ^ 128) (hb : b.natAbs < 2 ^ 128)
    (hstep : s.natAbs < 2 ^ 128) (hs : s ≠ 0) :
    make (.int a) (.int b) (.int s) = .ok ⟨.int (min a b), .int (max a b), .int s.natAbs⟩ := by
  have hzero : ¬(Value.int s).eq (.int 0) = true := by
    have hcompare : Number.eq (.int s) (.int 0) = true ↔ s = 0 := by
      rw [← Int.compare_eq_eq]
      simp [Number.eq, Number.compare?]
    exact fun h => hs (hcompare.1 h)
  refine Fault.bind_eq_ok.2 ⟨(), checkFinite_int ha _, ?_⟩
  refine Fault.bind_eq_ok.2 ⟨(), checkFinite_int hb _, ?_⟩
  refine Fault.bind_eq_ok.2 ⟨(), checkFinite_int hstep _, ?_⟩
  rw [if_neg hzero]
  refine Fault.bind_eq_ok.2 ⟨_, least_int a b, ?_⟩
  exact Fault.bind_eq_ok.2 ⟨_, greatest_int a b, rfl⟩

def listed (low : Int) (step n : Nat) : Except Fault (List Value) :=
  if n < 0x1000000000000000 then .ok ((List.range n).map (integerAt low step))
  else .error (if n < 0x8000000000000000 then .badValue else .overflow)

theorem div_int {a : Int} {d : Nat} {x : Binary64.Finite} (ha : 0 ≤ a) (hd : d ≠ 0)
    (hx : Binary64.ofRatio false a.toNat d = .finite x) :
    (Value.int a).div (.int d) = .ok (.float (.finite x)) := by
  have hsign : (decide (a < 0) != decide ((d : Int) < 0)) = false := by
    rw [decide_eq_false (not_lt.2 ha), decide_eq_false (not_lt.2 (Int.natCast_nonneg d))]
    rfl
  have hquotient : Number.div (.int a) (.int d) = .ok (.float (.finite x)) := by
    have habs : a.natAbs = a.toNat := by omega
    have hne : (d : Int) ≠ 0 := Int.natCast_ne_zero.2 hd
    simp only [Number.div, if_neg hne, hsign, habs, Int.natAbs_natCast, hx]
  change Value.ofNumber <$> Number.div (.int a) (.int d) = _
  rw [hquotient]
  rfl

theorem count_int {low high : Int} {step : Nat} {x : Binary64.Finite} (hle : low ≤ high)
    (hstep : step ≠ 0) (hx : Binary64.ofRatio false (high - low).toNat step = .finite x) :
    count ⟨.int low, .int high, .int step⟩ = .ok (x.floor + 1) := by
  refine Fault.bind_eq_ok.2 ⟨.int (high - low), rfl, ?_⟩
  refine Fault.bind_eq_ok.2 ⟨_, div_int (by omega) hstep hx, ?_⟩
  exact Fault.bind_eq_ok.2 ⟨_, rfl, rfl⟩

theorem listable_of_count {r : Range} {n : Nat} (hcount : r.count = .ok (n : Int)) :
    r.listable = if n < 0x1000000000000000 then .ok n
      else .error (if n < 0x8000000000000000 then .badValue else .overflow) := by
  have hsize : r.size = if n < 0x8000000000000000 then .ok n else .error .overflow := by
    have hcast : (n : Int) < 0x8000000000000000 ↔ n < 0x8000000000000000 := by omega
    simp only [size, hcount, bind, Except.bind, hcast, Int.toNat_natCast]
    rfl
  rw [listable, hsize]
  by_cases hwords : n < 0x1000000000000000
  · have hindex : n < 0x8000000000000000 := by omega
    rw [if_pos hindex, if_pos hwords]
    exact if_pos hwords
  · rw [if_neg hwords]
    by_cases hindex : n < 0x8000000000000000
    · rw [if_pos hindex, if_pos hindex]
      exact if_neg hwords
    · rw [if_neg hindex, if_neg hindex]
      rfl

theorem values_int {low high : Int} {step n : Nat} (hlow : fits64 low) (hstep : fits64 step)
    (hcount : count ⟨.int low, .int high, .int step⟩ = .ok (n : Int)) :
    values ⟨.int low, .int high, .int step⟩ = listed low step n := by
  have hfits : (fits64 low && fits64 step) = true := Bool.and_eq_true_iff.2 ⟨hlow, hstep⟩
  rw [values, listable_of_count hcount, listed]
  split_ifs
  · exact if_pos hfits
  · rfl
  · rfl

theorem listed_exact {low high : Int} {step n : Nat} (hlow : fits64 low) (hhigh : fits64 high)
    (hle : low ≤ high) (hstep : step ≠ 0) (hn : n ≤ (high - low).toNat / step + 1) :
    (List.range n).map (integerAt low step) = (grid low step n).map .int := by
  rw [grid, List.map_map]
  refine List.map_congr_left fun k hk => congrArg Value.int (wrap64_of_fits64 ?_)
  have hk' := List.mem_range.1 hk
  have hbelow := (add_mul_le_iff hle hstep k).2 (by omega)
  have hnonneg : 0 ≤ (step : Int) * k := by positivity
  have hlow' := fits64_iff.1 hlow
  have hhigh' := fits64_iff.1 hhigh
  exact fits64_iff.2 ⟨by omega, by omega⟩

theorem listed_eq_grid_iff {low high : Int} {step n : Nat} (hlow : fits64 low)
    (hhigh : fits64 high) (hle : low ≤ high) (hstep : step ≠ 0) :
    listed low step n = .ok ((grid low step ((high - low).toNat / step + 1)).map .int) ↔
      n = (high - low).toNat / step + 1 ∧ n < 0x1000000000000000 := by
  by_cases hwords : n < 0x1000000000000000
  · rw [listed, if_pos hwords]
    constructor
    · intro h
      have hlength := congrArg List.length (Except.ok.inj h)
      simp only [grid, List.length_map, List.length_range] at hlength
      exact ⟨hlength, hwords⟩
    · rintro ⟨rfl, -⟩
      rw [listed_exact hlow hhigh hle hstep le_rfl]
  · rw [listed, if_neg hwords]
    refine iff_of_false (fun h => ?_) fun h => hwords h.2
    cases h

def exactValues (a b s : Int) : List Int :=
  grid (min a b) s.natAbs (span a b / s.natAbs + 1)

/-- A range of integers lists as many values as the rounded quotient gives, `m` and one more. These
are the exact ones exactly when rounding keeps the integer part of the quotient and the list is not
refused for its length. Of the quotients below `2 ^ 52` rounding changes the integer part of those
that lie at most half a unit of their last bit below the next integer: then one value is listed
beyond the exact ones, and so beyond the upper bound. A span below `2 ^ 53` has no such quotient. -/
theorem integer_values {a b s : Int} (hlow : fits64 (min a b)) (hhigh : fits64 (max a b))
    (hs : s ≠ 0) (hstep : fits64 |s|) :
    ∃ r x m, make (.int a) (.int b) (.int s) = .ok r ∧
      Binary64.ofRatio false (span a b) s.natAbs = .finite x ∧ x.floor = (m : Nat) ∧
      r.values = listed (min a b) s.natAbs (m + 1) ∧
      (r.values = .ok ((exactValues a b s).map .int) ↔
        m = span a b / s.natAbs ∧ m + 1 < 0x1000000000000000) ∧
      (span a b / s.natAbs < 2 ^ 52 →
        m = if Binary64.RoundsUp (span a b) s.natAbs then span a b / s.natAbs + 1
          else span a b / s.natAbs) ∧
      (span a b < 2 ^ 53 → r.values = .ok ((exactValues a b s).map .int)) ∧
      IsGrid (min a b) (max a b) s.natAbs (exactValues a b s) := by
  have hlowest := fits64_iff.1 hlow
  have hhighest := fits64_iff.1 hhigh
  have hlongest := fits64_iff.1 hstep
  rw [Int.abs_eq_natAbs] at hstep hlongest
  have hle : min a b ≤ max a b := min_le_max
  have hne : s.natAbs ≠ 0 := Int.natAbs_ne_zero.2 hs
  have hstep64 : s.natAbs < 2 ^ 64 := by omega
  have hspan : span a b < 2 ^ 64 := by
    unfold span
    omega
  have hmake : make (.int a) (.int b) (.int s) =
      .ok ⟨.int (min a b), .int (max a b), .int s.natAbs⟩ :=
    make_int (by omega) (by omega) (by omega) hs
  obtain ⟨x, hx⟩ := Binary64.ofRatio_isFinite hspan hne hstep64 false
  have hfloor := Binary64.Finite.floor_of_pos (Binary64.neg_of_round hx)
  generalize x.mant * 2 ^ x.exp.toNat / 2 ^ (-x.exp).toNat = m at hfloor
  have hcount : count ⟨.int (min a b), .int (max a b), .int s.natAbs⟩ =
      .ok ((m + 1 : Nat) : Int) := by
    rw [count_int hle hne hx, hfloor, Nat.cast_succ]
  have hvalues := values_int hlow hstep hcount
  have hexact := listed_eq_grid_iff (n := m + 1) hlow hhigh hle hne
  rw [← hvalues] at hexact
  refine ⟨_, x, m, hmake, hx, hfloor, hvalues, ?_, ?_, ?_, grid_isGrid hle hne⟩
  · exact hexact.trans (and_congr_left' Nat.succ_inj)
  · intro hsmall
    have hround := Binary64.floor_ofRatio_of_div_lt hspan hne hstep64 hsmall hx
    exact Int.ofNat_inj.1 (hfloor.symm.trans hround)
  · intro hsmall
    have hround := Binary64.floor_ofRatio_of_lt hsmall hne hstep64 hx
    have hm : m = span a b / s.natAbs := Int.ofNat_inj.1 (hfloor.symm.trans hround)
    have hdiv := Nat.div_le_self (span a b) s.natAbs
    exact hexact.2 ⟨congrArg Nat.succ hm, by omega⟩

theorem descending_range_is_exact :
    ∃ r, make (.int 10) (.int 0) (.int (-2)) = .ok r ∧
      r.values = .ok ([0, 2, 4, 6, 8, 10].map .int) := by
  obtain ⟨r, x, m, hmake, -, -, -, -, -, hvalues, -⟩ :=
    integer_values (a := 10) (b := 0) (s := -2) (by decide) (by decide) (by decide) (by decide)
  exact ⟨r, hmake, hvalues (by decide)⟩

/-- The quotient `(2 ^ 54 - 1) / 2 ^ 53` is rounded up to 2, and the third value is `2 ^ 54`. -/
theorem wide_range_passes_bound :
    ∃ r, make (.int 0) (.int 0x3fffffffffffff) (.int 0x20000000000000) = .ok r ∧
      r.values = .ok ([0, 0x20000000000000, 0x40000000000000].map .int) ∧
      exactValues 0 0x3fffffffffffff 0x20000000000000 = [0, 0x20000000000000] :=
  ⟨_, rfl, rfl, rfl⟩

end MinConflicts.Range
