import MinConflicts.Proofs.Counts
import MinConflicts.Proofs.Favourites
import MinConflicts.Proofs.LargeIntegers

/-!
# Counts that evaluators report

A count passes its check, as it is, exactly when it is a finite number that is not negative, no
truth value and no integer beyond all double-precision numbers. Such an integer cannot be compared
with infinity: the check fails with an overflow, although the number may be a good count. In all
other cases the cause names the count. A report passes with its counts, and fails as the first of
them that does not pass.
-/
namespace MinConflicts

namespace Value

def plainNumber? : Value → Option Number
  | .int z => some (.int z)
  | .float x => some (.float x)
  | _ => none

def IsAmount (v : Value) : Prop :=
  ∃ x q, v.plainNumber? = some x ∧ x.exact = .rational q ∧ 0 ≤ q

def Passes (v : Value) : Prop := v.IsAmount ∧ ¬v.isOversized = true

def breach (what : String) (v : Value) : Fault :=
  if v.isOversized then .overflow
  else if v.plainNumber?.isSome then .contract (.outOfRange what v)
  else .contract (.notNumber what v)

variable {z : Int} {x : Binary64.Finite}

theorem isAmount_int : (Value.int z).IsAmount ↔ 0 ≤ z := by
  simp [IsAmount, plainNumber?, Number.exact]

theorem isAmount_finite : (Value.float (.finite x)).IsAmount ↔ 0 ≤ x.toRat := by
  simp [IsAmount, plainNumber?, Number.exact]

theorem not_isAmount_nan (label : Nat) : ¬(Value.float (.nan label)).IsAmount := by
  simp [IsAmount, plainNumber?, Number.exact]

theorem not_isAmount_infinity (neg : Bool) : ¬(Value.float (.infinity neg)).IsAmount := by
  simp [IsAmount, plainNumber?, Number.exact]

theorem not_isAmount_of_plainNumber? {v : Value} (h : v.plainNumber? = none) : ¬v.IsAmount := by
  simp [IsAmount, h]

end Value

theorem checkedCount_of_oversized {v : Value} (h : v.isOversized = true) (what : String) :
    checkedCount what v = .error .overflow := by
  cases v with
  | int z =>
    have hreal := Number.toReal_int_of_le (Value.isOversized_int.1 h)
    simp only [checkedCount, hreal]
    rfl
  | null | bool | float | str | list | dict => cases h

theorem checkedCount_int_of_fits {z : Int} (h : ¬(Value.int z).isOversized = true)
    (what : String) : checkedCount what (.int z) =
      if 0 ≤ z then .ok (.int z) else .error (.contract (.outOfRange what (.int z))) := by
  obtain ⟨x, -, hx⟩ := Number.toReal_int_of_lt (not_le.1 (mt Value.isOversized_int.2 h))
  split_ifs with hz
  · exact checkedCount_int hz hx what
  · simp only [checkedCount, hx]
    change (if (true && decide (0 ≤ z)) = true then _ else _) = _
    rw [decide_eq_false hz]
    rfl

theorem checkedCount_finite (x : Binary64.Finite) (what : String) :
    checkedCount what (.float (.finite x)) = if 0 ≤ x.toRat then .ok (.float (.finite x))
      else .error (.contract (.outOfRange what (.float (.finite x)))) := by
  have hlt : (Binary64.finite x).lt (.zero false) = true ↔ ¬0 ≤ x.toRat := by
    rw [Binary64.lt_iff_toRat_lt rfl rfl, Binary64.toRat_zero, not_le]
    rfl
  split_ifs with hx
  · have hnot : (Binary64.finite x).lt (.zero false) = false := by
      simpa [hx] using hlt
    simp [checkedCount, Binary64.isFinite, hnot]
  · simp [checkedCount, Binary64.isFinite, hlt.2 hx]

theorem checkedCount_of_passes {v : Value} (h : v.Passes) (what : String) :
    checkedCount what v = .ok v := by
  obtain ⟨hamount, hfits⟩ := h
  cases v with
  | int z => rw [checkedCount_int_of_fits hfits, if_pos (Value.isAmount_int.1 hamount)]
  | float x =>
    cases x with
    | finite x => rw [checkedCount_finite, if_pos (Value.isAmount_finite.1 hamount)]
    | nan label => exact absurd hamount (Value.not_isAmount_nan label)
    | infinity neg => exact absurd hamount (Value.not_isAmount_infinity neg)
  | null | bool | str | list | dict =>
    exact absurd hamount (Value.not_isAmount_of_plainNumber? rfl)

theorem checkedCount_of_not_passes {v : Value} (h : ¬v.Passes) (what : String) :
    checkedCount what v = .error (v.breach what) := by
  by_cases hfits : v.isOversized = true
  · rw [checkedCount_of_oversized hfits, Value.breach, if_pos hfits]
  · have hamount : ¬v.IsAmount := fun hamount => h ⟨hamount, hfits⟩
    rw [Value.breach, if_neg hfits]
    cases v with
    | int z =>
      rw [checkedCount_int_of_fits hfits,
        if_neg (fun hz => hamount (Value.isAmount_int.2 hz))]
      rfl
    | float x =>
      cases x with
      | finite x =>
        rw [checkedCount_finite, if_neg (fun hx => hamount (Value.isAmount_finite.2 hx))]
        rfl
      | nan | infinity => rfl
    | null | bool | str | list | dict => rfl

theorem checkedCount_eq_ok_iff {what : String} {v w : Value} :
    checkedCount what v = .ok w ↔ w = v ∧ v.Passes := by
  by_cases h : v.Passes
  · simp [checkedCount_of_passes h, h, eq_comm]
  · simp [checkedCount_of_not_passes h, h]

theorem checkedCount_eq_error_iff {what : String} {v : Value} {fault : Fault} :
    checkedCount what v = .error fault ↔ ¬v.Passes ∧ fault = v.breach what := by
  by_cases h : v.Passes
  · simp [checkedCount_of_passes h, h]
  · simp [checkedCount_of_not_passes h, h, eq_comm]

namespace Evaluator

variable {M S : Type} {e : Evaluator M S} {model : M} {state : S} {r : Option (Table Value)}

theorem influence_of_report (hr : e.report model state = .ok r) :
    e.influence model state =
      (r.getD Table.empty).mapM fun path v => checkedCount (influenceName path) v := by
  rw [influence, hr]
  rfl

theorem influence_eq_ok_iff (hr : e.report model state = .ok r) {t : Table Value} :
    e.influence model state = .ok t ↔
      t = r.getD Table.empty ∧ ∀ v ∈ (r.getD Table.empty).values, v.Passes := by
  rw [influence_of_report hr]
  constructor
  · intro h
    apply Table.Pointwise.unchanged
    exact (Table.mapM_eq_ok.1 h).imp fun path v w => checkedCount_eq_ok_iff.1
  · rintro ⟨rfl, hpasses⟩
    apply Table.mapM_eq_self
    intro entry hentry
    exact checkedCount_of_passes (hpasses _ (List.mem_map_of_mem hentry)) _

theorem influence_eq_error_iff (hr : e.report model state = .ok r) {fault : Fault} :
    e.influence model state = .error fault ↔ ∃ before path v after,
      (r.getD Table.empty).entries = before ++ (path, v) :: after ∧
      (∀ d ∈ before, d.2.Passes) ∧ ¬v.Passes ∧ fault = v.breach (influenceName path) := by
  rw [influence_of_report hr, Table.mapM_eq_error_iff]
  simp only [checkedCount_eq_ok_iff, checkedCount_eq_error_iff, exists_eq_left, Prod.exists]

/-- A count passes unchanged or is a breach, which is an overflow for an integer beyond all
double-precision numbers and names the count otherwise. A report passes unchanged with all its
counts, and fails with the breach of the first one that does not pass. -/
theorem counts_pass_or_breach (e : Evaluator M S) {model : M} {state : S}
    (hr : e.report model state = .ok r) :
    (∀ what v, (v.Passes → checkedCount what v = .ok v) ∧
      (¬v.Passes → checkedCount what v = .error (v.breach what))) ∧
    (∀ t, e.influence model state = .ok t ↔
      t = r.getD Table.empty ∧ ∀ v ∈ (r.getD Table.empty).values, v.Passes) ∧
    ∀ fault, e.influence model state = .error fault ↔ ∃ before path v after,
      (r.getD Table.empty).entries = before ++ (path, v) :: after ∧
      (∀ d ∈ before, d.2.Passes) ∧ ¬v.Passes ∧ fault = v.breach (influenceName path) := by
  refine ⟨fun what v => ⟨fun h => ?_, fun h => ?_⟩, fun t => ?_, fun fault => ?_⟩
  · exact checkedCount_of_passes h what
  · exact checkedCount_of_not_passes h what
  · exact influence_eq_ok_iff hr
  · exact influence_eq_error_iff hr

def mixedReport : Table Value := ⟨[("a", .int 2), ("b", .float (.ofInt (-1))), ("c", .str "3")]⟩

def mixedReporter : Evaluator Unit Unit where
  count _ _ := .ok (.int 2)
  report _ _ := .ok (some mixedReport)

theorem mixedReporter_breaks_at_b : mixedReporter.influence () () =
    .error (.contract (.outOfRange (influenceName "b") (.float (.ofInt (-1))))) := by
  have htwo : (Value.int 2).IsCount := ⟨2, rfl, by decide, by decide⟩
  have hfirst := (checkedCount_eq_ok_iff.1 (checkedCount_of_isCount htwo countName)).2
  have hsecond : ¬(Value.float (.ofInt (-1))).Passes := by
    have hvalue : (Binary64.ofInt (-1)) = .finite ⟨true, 0x10000000000000, -52, by decide⟩ := rfl
    rw [hvalue]
    rintro ⟨hamount, -⟩
    have hnonneg := Value.isAmount_finite.1 hamount
    norm_num [Binary64.Finite.toRat, Binary64.Finite.signed] at hnonneg
  have hreport : mixedReporter.report () () = .ok (some mixedReport) := rfl
  refine ((counts_pass_or_breach mixedReporter hreport).2.2 _).2 ?_
  refine ⟨[("a", .int 2)], "b", _, [("c", .str "3")], rfl, ?_, hsecond, rfl⟩
  simpa using hfirst

end Evaluator

theorem powerOfTwo_overflows : (Value.int (2 ^ 1024)).IsAmount ∧
    checkedCount countName (.int (2 ^ 1024)) = .error .overflow :=
  ⟨Value.isAmount_int.2 (by positivity),
    checkedCount_of_oversized (Value.isOversized_two_pow le_rfl) countName⟩

end MinConflicts
