import MinConflicts.Proofs.Positions
import MinConflicts.Proofs.Tables
import MinConflicts.Search.Choice

/-!
# Arithmetic on counts

A count is a whole number from 0 to `2 ^ 53`. Counts pass the check of an evaluator's answers as
they are, and the arithmetic on them never fails: a sum of counts stays exact and far below the
range of double-precision numbers, one more than a count is not 0, so that a score divides by no
zero, and all other operations are on double-precision numbers.
-/
namespace MinConflicts

theorem Number.toReal_int {z : Int} (h : z.natAbs < 2 ^ 128) :
    ∃ x, (Number.int z).toReal = .ok (.finite x) := by
  obtain ⟨x, hx⟩ := Binary64.ofInt_isFinite h
  exact ⟨x, by simp only [toReal, hx]⟩

namespace Value

def IsCount (v : Value) : Prop := ∃ z : Int, v = .int z ∧ 0 ≤ z ∧ z ≤ 0x20000000000000

theorem isCount_zero : (Value.int 0).IsCount := ⟨0, rfl, le_rfl, by decide⟩

variable {z : Int} {x y : Binary64}

theorem add_int_float (h : z.natAbs < 2 ^ 128) (x : Binary64) :
    ∃ y, add (.int z) (.float x) = .ok (.float y) := by
  obtain ⟨w, hw⟩ := Number.toReal_int h
  refine ⟨(Binary64.finite w).add x, ?_⟩
  simp only [add, onNumbers, number?, Number.add, Number.combine, Number.onReals, hw]
  rfl

theorem mul_float_int (h : z.natAbs < 2 ^ 128) (x : Binary64) :
    ∃ y, mul (.float x) (.int z) = .ok (.float y) := by
  obtain ⟨w, hw⟩ := Number.toReal_int h
  refine ⟨x.mul (.finite w), ?_⟩
  simp only [mul, repetitions?, repeated?, onNumbers, number?, Number.mul, Number.combine,
    Number.onReals, hw]
  rfl

theorem div_float (h : y.isZero = false) : div (.float x) (.float y) = .ok (.float (x.div y)) := by
  have hreals : Number.onRealsDividing Binary64.div (.float x) (.float y) =
      .ok (.float (x.div y)) := by
    change (if y.isZero = true then _ else _) = _
    rw [h]
    rfl
  change ofNumber <$> Number.onRealsDividing Binary64.div (.float x) (.float y) = _
  rw [hreals]
  rfl

theorem one_add_count {v : Value} (h : v.IsCount) :
    ∃ x, add (.float (.ofNat 1)) v = .ok (.float x) ∧ x.isZero = false := by
  obtain ⟨z, rfl, hlow, hhigh⟩ := h
  obtain ⟨w, hw⟩ := Binary64.ofInt_isFinite (z := z) (by omega)
  have hneg : w.neg = false := by
    rw [Binary64.neg_of_round hw]
    simpa using hlow
  have hone : ∃ x, Binary64.ofNat 1 = .finite x ∧ x.neg = false ∧ x.mant ≠ 0 :=
    ⟨⟨false, 0x10000000000000, -52, by decide⟩, by decide, rfl, by decide⟩
  obtain ⟨x, hx, hxneg, hmant⟩ := hone
  refine ⟨x.add w, ?_, Binary64.Finite.add_isZero (hxneg.trans hneg.symm) hmant⟩
  simp only [add, onNumbers, number?, Number.add, Number.combine, Number.onReals, Number.toReal,
    hw, hx]
  rfl

end Value

theorem checkedCount_int {z : Int} (hlow : 0 ≤ z) {x : Binary64.Finite}
    (hx : (Number.int z).toReal = .ok (.finite x)) (what : String) :
    checkedCount what (.int z) = .ok (.int z) := by
  simp only [checkedCount, Fault.bind_eq_ok]
  refine ⟨_, hx, ?_⟩
  simp [Binary64.isFinite, hlow, pure, Except.pure]

theorem checkedCount_of_isCount {v : Value} (h : v.IsCount) (what : String) :
    checkedCount what v = .ok v := by
  obtain ⟨z, rfl, hlow, hhigh⟩ := h
  obtain ⟨x, hx⟩ := Number.toReal_int (z := z) (by omega)
  exact checkedCount_int hlow hx what

theorem checkedCount_natCast (n : Nat) :
    (∀ what, checkedCount what (.int n) = .ok (.int n)) ∨
      ∀ what, checkedCount what (.int n) = .error .overflow := by
  cases hreal : Binary64.ofInt n with
  | finite x =>
    have hx : (Number.int n).toReal = .ok (.finite x) := by simp only [Number.toReal, hreal]
    exact .inl (checkedCount_int (Int.natCast_nonneg n) hx)
  | infinity _ | nan _ =>
    have herror : (Number.int n).toReal = .error .overflow := by simp only [Number.toReal, hreal]
    refine .inr fun what => ?_
    simp only [checkedCount, herror]
    rfl

namespace Evaluator

variable {M S : Type}

/-- The evaluator answers both questions about a model, with counts only. -/
structure AnswersCounts (e : Evaluator M S) (model : M) (state : S) : Prop where
  count : ∃ v, e.count model state = .ok v ∧ v.IsCount
  report : ∃ r, e.report model state = .ok r ∧ ∀ v ∈ (r.getD Table.empty).values, v.IsCount

variable {e : Evaluator M S} {model : M} {state : S}

theorem AnswersCounts.checked (h : e.AnswersCounts model state) :
    ∃ v, e.checked model state = .ok v ∧ v.IsCount := by
  obtain ⟨v, hv, hcount⟩ := h.count
  exact ⟨v, Fault.bind_eq_ok.2 ⟨v, hv, checkedCount_of_isCount hcount countName⟩, hcount⟩

theorem AnswersCounts.influence (h : e.AnswersCounts model state) :
    ∃ t, e.influence model state = .ok t ∧ ∀ v ∈ t.values, v.IsCount := by
  obtain ⟨r, hr, hcounts⟩ := h.report
  refine ⟨r.getD Table.empty, Fault.bind_eq_ok.2 ⟨r, hr, Table.mapM_eq_self ?_⟩, hcounts⟩
  intro entry hentry
  exact checkedCount_of_isCount (hcounts _ (List.mem_map_of_mem hentry)) _

end Evaluator

namespace Score

theorem conflict_of_isCount {v : Value} (h : v.IsCount) : ∃ x, conflict v = .ok (.float x) := by
  obtain ⟨s, hs, hzero⟩ := Value.one_add_count h
  exact ⟨_, Fault.bind_eq_ok.2 ⟨.float s, hs, Value.div_float hzero⟩⟩

theorem preference_float (p f : Binary64) :
    ∃ x, preference (Value.float p) (.float f) = .ok (.float x) := by
  have hten : Value.div (.float p) (.float (.ofNat 10)) = .ok (.float (p.div (.ofNat 10))) :=
    Value.div_float (by decide)
  refine ⟨((Binary64.ofNat 1).sub f).add ((p.div (.ofNat 10)).mul f), ?_⟩
  refine Fault.bind_eq_ok.2 ⟨.float ((Binary64.ofNat 1).sub f), rfl, ?_⟩
  exact Fault.bind_eq_ok.2 ⟨_, hten, rfl⟩

theorem harmonicMean_float (a b : Binary64) :
    ∃ x, harmonicMean (Value.float a) (.float b) = .ok (.float x) := by
  by_cases hzero : (a.add b).isZero = true
  · refine ⟨.zero false, Fault.bind_eq_ok.2 ⟨.float (a.add b), rfl, ?_⟩⟩
    have htotal : Arith.isZero (Value.float (a.add b)) = true := hzero
    rw [if_pos htotal]
    rfl
  · refine ⟨(((Binary64.ofNat 2).mul a).mul b).div (a.add b), ?_⟩
    refine Fault.bind_eq_ok.2 ⟨.float (a.add b), rfl, ?_⟩
    have htotal : ¬Arith.isZero (Value.float (a.add b)) = true := hzero
    rw [if_neg htotal]
    exact Value.div_float (by simpa using hzero)

theorem candidate_of_isCount {v : Value} (h : v.IsCount) (p f : Binary64) :
    ∃ x, candidate v (.float p) (.float f) = .ok (.float x) := by
  obtain ⟨a, ha⟩ := conflict_of_isCount h
  obtain ⟨b, hb⟩ := preference_float p f
  obtain ⟨x, hx⟩ := harmonicMean_float a b
  exact ⟨x, Fault.bind_eq_ok.2 ⟨_, ha, Fault.bind_eq_ok.2 ⟨_, hb, hx⟩⟩⟩

end Score

namespace KeyChoice

theorem foldlM_add_counts {ws : List Value} (h : ∀ w ∈ ws, w.IsCount) (a : Int) :
    ∃ s : Int, ws.foldlM Value.add (.int a) = .ok (.int s) ∧
      a ≤ s ∧ s ≤ a + ws.length * 0x20000000000000 := by
  induction ws generalizing a with
  | nil => exact ⟨a, rfl, le_rfl, by simp⟩
  | cons w ws ih =>
    obtain ⟨hw, hws⟩ := List.forall_mem_cons.1 h
    obtain ⟨z, rfl, hlow, hhigh⟩ := hw
    obtain ⟨s, hs, hleast, hmost⟩ := ih hws (a + z)
    refine ⟨s, hs, by omega, ?_⟩
    rw [List.length_cons]
    omega

theorem total_of_counts {ws : List Value} (h : ∀ w ∈ ws, w.IsCount)
    (hsize : ws.length < 0x20000000000000) (alpha : Binary64) :
    ∃ x, total (.float alpha) ws = .ok (.float x) := by
  obtain ⟨s, hs, hlow, hhigh⟩ := foldlM_add_counts h 0
  obtain ⟨y, hy⟩ := Value.mul_float_int (z := ws.length) (by omega) alpha
  obtain ⟨x, hx⟩ := Value.add_int_float (z := s) (by omega) y
  exact ⟨x, Fault.bind_eq_ok.2 ⟨_, hs, Fault.bind_eq_ok.2 ⟨_, hy, hx⟩⟩⟩

end KeyChoice

end MinConflicts
