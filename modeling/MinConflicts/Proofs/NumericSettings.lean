import Mathlib.Data.Rat.Floor
import MinConflicts.Proofs.LargeIntegers
import MinConflicts.Proofs.Spellings

/-!
# Numbers for settings

A setting may be given as any number, as a text that spells one or as null. Such settings are never
refused: a number is cut to its integer part or brought between 0 and 1, and null, a NaN and an
infinite count or look-ahead have a value that stands for them. There is one exception. A factor
that is an integer beyond all double-precision numbers ends the reading with an overflow, although
a count or a look-ahead of that size is read like any other.

A look-ahead is dropped when its integer part is negative, so one of -1/2 is 0.
-/
namespace MinConflicts

def towardZero (q : ℚ) : ℤ := if 0 ≤ q then ⌊q⌋ else ⌈q⌉

theorem towardZero_intCast (z : ℤ) : towardZero z = z := by
  unfold towardZero
  split_ifs
  · exact Int.floor_intCast z
  · exact Int.ceil_intCast z

theorem towardZero_of_nonneg {q : ℚ} (h : 0 ≤ q) : towardZero q = ⌊q⌋ := if_pos h

theorem towardZero_neg_of_nonneg {q : ℚ} (h : 0 ≤ q) : towardZero (-q) = -⌊q⌋ := by
  unfold towardZero
  split_ifs with hneg
  · have hzero : q = 0 := le_antisymm (neg_nonneg.1 hneg) h
    rw [hzero, neg_zero, Int.floor_zero, neg_zero]
  · exact Int.ceil_neg

namespace Binary64

theorem Finite.floor_magnitude (x : Finite) :
    ⌊x.magnitude⌋ = (x.mant * 2 ^ x.exp.toNat / 2 ^ (-x.exp).toNat : Nat) := by
  have hexp : x.exp = x.exp.toNat - (-x.exp).toNat := by omega
  have hratio : x.magnitude =
      (x.mant * 2 ^ x.exp.toNat : Nat) / (2 ^ (-x.exp).toNat : Nat) := by
    rw [magnitude]
    conv_lhs => rw [hexp, zpow_sub₀ two_ne_zero, zpow_natCast, zpow_natCast]
    push_cast
    ring
  rw [hratio, Rat.floor_natCast_div_natCast]
  exact (Int.natCast_div _ _).symm

theorem Finite.truncate_eq (x : Finite) : x.truncate = towardZero x.toRat := by
  have hparts : x.truncate = if x.neg then -⌊x.magnitude⌋ else ⌊x.magnitude⌋ := by
    rw [truncate, floor_magnitude, scaleUp_eq, Nat.shiftLeft_eq, Nat.shiftRight_eq_div_pow]
  rw [hparts]
  cases hneg : x.neg with
  | false => rw [toRat_of_pos hneg, towardZero_of_nonneg x.magnitude_nonneg]; rfl
  | true => rw [toRat_of_neg hneg, towardZero_neg_of_nonneg x.magnitude_nonneg]; rfl

end Binary64

namespace Binary64

/-- The number of this value. Of the zeros it is the positive one. -/
def IsUnsigned (x : Binary64) (q : ℚ) : Prop :=
  ∃ y, x = .finite y ∧ y.neg = false ∧ y.toRat = q

theorem isUnsigned_zero : (zero false).IsUnsigned 0 := ⟨_, rfl, rfl, toRat_zero false⟩

theorem isUnsigned_one : (ofNat 1).IsUnsigned 1 := ⟨_, rfl, rfl, toRat_one⟩

theorem isUnsigned_of_pos {x : Finite} (h : 0 < x.toRat) : IsUnsigned (.finite x) x.toRat := by
  have hsign : x.neg = false := by
    cases hneg : x.neg with
    | false => rfl
    | true =>
      rw [Finite.toRat_of_neg hneg, neg_pos] at h
      exact absurd x.magnitude_nonneg (not_le.2 h)
  exact ⟨x, rfl, hsign, rfl⟩

end Binary64

def Exact.unit : Exact → ℚ
  | .rational q => max 0 (min q 1)
  | .infinity neg => if neg then 0 else 1
  | .nan _ => 0

namespace Value

/-- The number that a setting is given as. -/
def amount? (v : Value) : Option Exact := (Settings.asNumber v).number?.map Number.exact

def IsNumeric (v : Value) : Prop := v = .null ∨ v.amount?.isSome = true

theorem asNumber_of_isNumeric {v : Value} (h : v.IsNumeric) :
    Settings.asNumber v = .null ∨ ∃ x, (Settings.asNumber v).number? = some x := by
  rcases h with rfl | h
  · exact .inl rfl
  · rw [amount?, Option.isSome_map, Option.isSome_iff_exists] at h
    exact .inr h

theorem isOversized_asNumber (v : Value) : (Settings.asNumber v).isOversized = v.isOversized := by
  cases v with
  | str s => cases hs : Decimal.real? s <;> simp [Settings.asNumber, hs, isOversized]
  | null | bool | int | float | list | dict => rfl

theorem natAbs_lt_of_fits {v : Value} (h : ¬v.isOversized = true) {z : Int}
    (hz : v.number? = some (.int z)) : z.natAbs < Binary64.overflowFrom := by
  cases v with
  | int n =>
    cases hz
    exact not_le.1 (mt isOversized_int.2 h)
  | bool b => cases b <;> cases hz <;> exact Binary64.ofInt_isFinite_iff.1 ⟨_, rfl⟩
  | null | float | str | list | dict => cases hz

end Value

namespace Settings

def countOf (default : Int) : Option Exact → Int
  | some (.rational q) => max 0 (towardZero q)
  | _ => default

def lookAheadOf : Option Exact → Option Int
  | some (.rational q) => if towardZero q < 0 then none else some (towardZero q)
  | _ => none

def IsFactorOf (default : Binary64) : Option Exact → Binary64 → Prop
  | some a, x => x.IsUnsigned a.unit
  | none, x => x = default

variable {v : Value} {default : Binary64}

theorem readCount_of_isNumeric (h : v.IsNumeric) (default : Int) :
    readCount default v = .ok (countOf default v.amount?) := by
  have hnumber := Value.asNumber_of_isNumeric h
  rw [readCount, Value.amount?]
  cases hv : asNumber v with
  | null => rfl
  | bool b => cases b <;> simp [Value.number?, Number.exact, countOf, towardZero]
  | int z => simp [Value.number?, Number.exact, countOf, towardZero_intCast]
  | float x =>
    cases x with
    | nan | infinity => rfl
    | finite x => simp [Value.number?, Number.exact, countOf, x.truncate_eq]
  | str | list | dict => simp [hv, Value.number?] at hnumber

theorem readLookAhead_of_isNumeric (h : v.IsNumeric) :
    readLookAhead v = .ok (lookAheadOf v.amount?) := by
  have hnumber := Value.asNumber_of_isNumeric h
  rw [readLookAhead, Value.amount?]
  cases hv : asNumber v with
  | null => rfl
  | bool b => cases b <;> simp [Value.number?, Number.exact, lookAheadOf, towardZero]
  | int z => simp [Value.number?, Number.exact, lookAheadOf, towardZero_intCast]
  | float x =>
    cases x with
    | nan | infinity => rfl
    | finite x => simp [Value.number?, Number.exact, lookAheadOf, x.truncate_eq]
  | str | list | dict => simp [hv, Value.number?] at hnumber

theorem clampFactor_finite (x : Binary64.Finite) :
    (clampFactor (.finite x)).IsUnsigned (max 0 (min x.toRat 1)) := by
  have hone : (Binary64.ofNat 1).lt (.finite x) = true ↔ 1 < x.toRat := by
    rw [Binary64.lt_iff_toRat_lt rfl rfl, Binary64.toRat_one]
    rfl
  have hzero : (Binary64.zero false).lt (.finite x) = true ↔ 0 < x.toRat := by
    rw [Binary64.lt_iff_toRat_lt rfl rfl, Binary64.toRat_zero]
    rfl
  simp only [clampFactor, Binary64.isNaN, Bool.false_eq_true, if_false]
  by_cases hhigh : 1 < x.toRat
  · rw [if_pos (hone.2 hhigh), if_pos (by rfl), min_eq_right hhigh.le, max_eq_right zero_le_one]
    exact Binary64.isUnsigned_one
  · rw [if_neg (mt hone.1 hhigh), min_eq_left (not_lt.1 hhigh)]
    by_cases hlow : 0 < x.toRat
    · rw [if_pos (hzero.2 hlow), max_eq_right hlow.le]
      exact Binary64.isUnsigned_of_pos hlow
    · rw [if_neg (mt hzero.1 hlow), max_eq_left (not_lt.1 hlow)]
      exact Binary64.isUnsigned_zero

theorem clampFactor_isUnsigned (x : Binary64) :
    (clampFactor x).IsUnsigned (Number.float x).exact.unit := by
  cases x with
  | nan label => exact Binary64.isUnsigned_zero
  | infinity neg =>
    cases neg with
    | true => exact Binary64.isUnsigned_zero
    | false => exact Binary64.isUnsigned_one
  | finite x => exact clampFactor_finite x

theorem unit_of_ofInt {z : Int} {x : Binary64.Finite} (h : Binary64.ofInt z = .finite x) :
    (Number.float (.finite x)).exact.unit = (Number.int z).exact.unit := by
  simp only [Number.exact, Exact.unit]
  -- rounding moves no integer across 0 or 1, and there are none between the two
  by_cases hz : 1 ≤ z
  · have hcast : (1 : ℚ) ≤ z := by exact_mod_cast hz
    rw [min_eq_right hcast, min_eq_right (Binary64.one_le_of_ofInt hz h)]
  · have hcast : (z : ℚ) ≤ 0 := by exact_mod_cast (by omega : z ≤ 0)
    rw [max_eq_left ((min_le_left _ _).trans hcast),
      max_eq_left ((min_le_left _ _).trans (Binary64.toRat_nonpos_of_ofInt (by omega) h))]

theorem exists_toReal {x : Number} (h : ∀ z, x = .int z → z.natAbs < Binary64.overflowFrom) :
    ∃ y, x.toReal = .ok y ∧ (clampFactor y).IsUnsigned x.exact.unit := by
  cases x with
  | float y => exact ⟨y, rfl, clampFactor_isUnsigned y⟩
  | int z =>
    obtain ⟨y, hy, hreal⟩ := Number.toReal_int_of_lt (h z rfl)
    exact ⟨_, hreal, unit_of_ofInt hy ▸ clampFactor_isUnsigned _⟩

theorem readFactor_of_isNumeric (h : v.IsNumeric) (hfits : ¬v.isOversized = true) :
    ∃ x, readFactor default v = .ok (.ok x) ∧ IsFactorOf default v.amount? x := by
  rw [← v.isOversized_asNumber] at hfits
  rw [readFactor, Value.amount?]
  rcases Value.asNumber_of_isNumeric h with hnull | ⟨x, hx⟩
  · rw [hnull]
    exact ⟨default, rfl, rfl⟩
  · have hsize : ∀ z, x = .int z → z.natAbs < Binary64.overflowFrom :=
      fun z hz => Value.natAbs_lt_of_fits hfits (hz ▸ hx)
    obtain ⟨y, hreal, hy⟩ := exists_toReal hsize
    refine ⟨clampFactor y, ?_, by rw [hx]; exact hy⟩
    cases hv : asNumber v with
    | bool | int | float =>
      rw [hv] at hx
      simp only [hx, hreal]
      rfl
    | null | str | list | dict => rw [hv] at hx; cases hx

theorem readFactor_of_oversized (h : v.isOversized = true) (default : Binary64) :
    readFactor default v = .error .overflow := by
  cases v with
  | int z =>
    have hreal := Number.toReal_int_of_le (Value.isOversized_int.1 h)
    simp only [readFactor, asNumber, Value.number?, hreal]
    rfl
  | null | bool | float | str | list | dict => cases h

variable {es : List (Value × Value)}

def amountFor (es : List (Value × Value)) (f : Setting) : Option Exact :=
  (found es f).bind Value.amount?

def overflows (es : List (Value × Value)) : Bool :=
  (found es .randomness).any Value.isOversized || (found es .preference).any Value.isOversized

/-- Settings that have the values of the numbers found for them, in their ranges. -/
structure Clamped (es : List (Value × Value)) (s : Settings) : Prop where
  maxIterations : s.maxIterations = countOf defaultMaxIterations (amountFor es .maxIterations)
  retryIterations :
    s.retryIterations = countOf defaultRetryIterations (amountFor es .retryIterations)
  lookAhead : s.lookAhead = lookAheadOf (amountFor es .lookAhead)
  randomness : IsFactorOf defaultRandomness (amountFor es .randomness) s.randomness
  preference : IsFactorOf defaultPreference (amountFor es .preference) s.preference

theorem exists_given {α : Type} {R : Value → α → Prop} {P : Option Exact → α → Prop} {default : α}
    {o : Option Value} (hdefault : P none default)
    (hread : ∀ v, o = some v → ∃ a, R v a ∧ P v.amount? a) :
    ∃ given, Option.Rel R o given ∧ P (o.bind Value.amount?) (given.getD default) := by
  cases o with
  | none => exact ⟨none, .none, hdefault⟩
  | some v =>
    obtain ⟨a, ha, hvalue⟩ := hread v rfl
    exact ⟨some a, .some ha, hvalue⟩

theorem exists_factor {o : Option Value} (hnumeric : ∀ v, o = some v → v.IsNumeric)
    (hfits : ¬o.any Value.isOversized = true) (default : Binary64) :
    ∃ given, Option.Rel (fun v x => readFactor default v = .ok (.ok x)) o given ∧
      IsFactorOf default (o.bind Value.amount?) (given.getD default) := by
  refine exists_given (P := IsFactorOf default) rfl fun v hv => ?_
  have hv' : ¬v.isOversized = true := fun h => hfits ((Option.any_eq_true _ _).2 ⟨v, hv, h⟩)
  exact readFactor_of_isNumeric (hnumeric v hv) hv'

theorem exists_clamped (hnumeric : ∀ f v, found es f = some v → v.IsNumeric)
    (hfits : ¬overflows es = true) : ∃ s, ofValue (.dict es) = .ok s ∧ Clamped es s := by
  rw [overflows, Bool.or_eq_true, not_or] at hfits
  have hcount (f : Setting) (default : Int) :
      ∃ given, Option.Rel (fun v a => readCount default v = .ok a) (found es f) given ∧
        given.getD default = countOf default (amountFor es f) :=
    exists_given (P := fun a n => n = countOf default a) rfl fun v hv =>
      ⟨_, readCount_of_isNumeric (hnumeric f v hv) default, rfl⟩
  have hlookAhead :
      ∃ given, Option.Rel (fun v a => readLookAhead v = .ok a) (found es .lookAhead) given ∧
        given.getD none = lookAheadOf (amountFor es .lookAhead) :=
    exists_given (P := fun a n => n = lookAheadOf a) rfl fun v hv =>
      ⟨_, readLookAhead_of_isNumeric (hnumeric .lookAhead v hv), rfl⟩
  obtain ⟨a, ha, hmax⟩ := hcount .maxIterations defaultMaxIterations
  obtain ⟨b, hb, hretry⟩ := hcount .retryIterations defaultRetryIterations
  obtain ⟨c, hc, hahead⟩ := hlookAhead
  obtain ⟨d, hd, hrandom⟩ := exists_factor (hnumeric .randomness) hfits.1 defaultRandomness
  obtain ⟨e, he, hprefer⟩ := exists_factor (hnumeric .preference) hfits.2 defaultPreference
  exact ⟨⟨a, b, c, d, e⟩, ofEntries_eq_ok_iff_found.2 ⟨ha, hb, hc, hd, he⟩,
    ⟨hmax, hretry, hahead, hrandom, hprefer⟩⟩

theorem readFactorWith_of_oversized {entry : Option (String × Value)}
    (h : (entry.map (·.2)).any Value.isOversized = true) (default : Binary64) :
    readFactorWith default entry = .error .overflow := by
  cases entry with
  | none => cases h
  | some e =>
    rw [readFactorWith, readFactor_of_oversized h]
    rfl

theorem ofValue_of_overflows (hnumeric : ∀ f v, found es f = some v → v.IsNumeric)
    (h : overflows es = true) : ofValue (.dict es) = .error .overflow := by
  rw [ofValue, ofEntries]
  -- The randomness is read first. If it fits, the reading comes to the preference.
  by_cases hrandom : (found es .randomness).any Value.isOversized = true
  · rw [found_eq] at hrandom
    rw [readFactorWith_of_oversized hrandom]
    rfl
  · have hprefer : (found es .preference).any Value.isOversized = true := by
      simpa [overflows, hrandom] using h
    obtain ⟨x, hx, -⟩ := exists_factor (hnumeric .randomness) hrandom defaultRandomness
    rw [found_eq] at hx hprefer
    rw [readFactorWith_eq_ok.2 hx, readFactorWith_of_oversized hprefer]
    rfl

/-- A dictionary of numbers is read, and each value is the number in its range, unless a factor is
an integer beyond all double-precision numbers. -/
theorem numbers_clamped_or_overflow (es : List (Value × Value))
    (hnumeric : ∀ f v, found es f = some v → v.IsNumeric) :
    (¬overflows es = true → ∃ s, ofValue (.dict es) = .ok s ∧ Clamped es s) ∧
    (overflows es = true → ofValue (.dict es) = .error .overflow) :=
  ⟨exists_clamped hnumeric, ofValue_of_overflows hnumeric⟩

def mixedEntries : List (Value × Value) :=
  [(.str "maxIterations", .str "12.9"), (.str "retry_iterations", .int (-5)),
    (.str "lookAheadModels", .float (.ofRatio true 1 2)), (.str "randomness_factor", .null),
    (.str "preferenceFactor", .float (.nan 0))]

theorem mixedEntries_clamped : ∃ s, ofValue (.dict mixedEntries) = .ok s ∧
    s.maxIterations = 12 ∧ s.retryIterations = 0 ∧ s.lookAhead = some 0 ∧
    s.randomness = defaultRandomness ∧ s.preference.IsUnsigned 0 := by
  have hnumeric : ∀ f v, found mixedEntries f = some v → v.IsNumeric := by
    intro f v hv
    cases f <;> cases hv
    case randomness => exact .inl rfl
    all_goals exact .inr rfl
  have hfits : ¬overflows mixedEntries = true := fun h => nomatch h
  obtain ⟨s, hs, hclamped⟩ := (numbers_clamped_or_overflow mixedEntries hnumeric).1 hfits
  have htext : ∃ x : Binary64.Finite, x.truncate = 12 ∧
      amountFor mixedEntries .maxIterations = some (.rational x.toRat) := ⟨_, rfl, rfl⟩
  have hhalf : ∃ x : Binary64.Finite, x.truncate = 0 ∧
      amountFor mixedEntries .lookAhead = some (.rational x.toRat) := ⟨_, rfl, rfl⟩
  obtain ⟨x, hx, hmax⟩ := htext
  obtain ⟨y, hy, hahead⟩ := hhalf
  have hretry : amountFor mixedEntries .retryIterations = some (.rational (-5 : Int)) := rfl
  refine ⟨s, hs, ?_, ?_, ?_, hclamped.randomness, hclamped.preference⟩
  · rw [hclamped.maxIterations, hmax, countOf, ← x.truncate_eq, hx]
    rfl
  · rw [hclamped.retryIterations, hretry, countOf, towardZero_intCast]
    rfl
  · rw [hclamped.lookAhead, hahead, lookAheadOf, ← y.truncate_eq, hy]
    rfl

def powerFactor : List (Value × Value) := [(.str "randomness_factor", .int (2 ^ 1024))]

theorem powerFactor_overflows : (∀ f v, found powerFactor f = some v → v.IsNumeric) ∧
    ofValue (.dict powerFactor) = .error .overflow := by
  have hfactor : found powerFactor .randomness = some (.int (2 ^ 1024)) := rfl
  have hnumeric : ∀ f v, found powerFactor f = some v → v.IsNumeric := by
    intro f v hv
    cases f <;> cases hv
    exact .inr rfl
  have hoverflows : overflows powerFactor = true := by
    rw [overflows, hfactor, Option.any_some, Value.isOversized_two_pow le_rfl, Bool.true_or]
  exact ⟨hnumeric, ofValue_of_overflows hnumeric hoverflows⟩

end Settings

end MinConflicts
