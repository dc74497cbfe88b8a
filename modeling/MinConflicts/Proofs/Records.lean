import MinConflicts.Proofs.Coherence
import MinConflicts.Proofs.Sameness

/-!
# What a search records

The solutions at the head of an iteration are those of the visits so far: a visit is recorded if
its model violates no constraint and its assignment is not known yet. Being known is the same as
being the same as any earlier visit without violation, recorded or not, because sameness is
transitive. So no such visit is lost and nothing else is recorded.
-/
namespace MinConflicts

variable {M S : Type}

def Evaluator.accepts (e : Evaluator M S) (model : M) (state : S) : Bool :=
  match e.feasible model state with
  | .ok feasible => feasible
  | .error _ => false

theorem Evaluator.accepts_of_feasible {e : Evaluator M S} {model : M} {state : S} {b : Bool}
    (h : e.feasible model state = .ok b) : e.accepts model state = b := by
  simp only [accepts, h]

def Context.recordVisit (ctx : Context M S) (known : List (Solution M)) (v : Progress M) :
    List (Solution M) :=
  if ctx.evaluator.accepts v.model ctx.state && !isKnown known v.assignment then
    known ++ [⟨v.assignment, v.model⟩]
  else known

namespace Solver

variable {ctx : Context M S} {i : Nat} {p q : Progress M} {j j' : Journal M}

theorem restart_keeps (h : restart ctx i p j = .ok q j') :
    q.solutions = p.solutions ∧ q.iterations = p.iterations := by
  rcases restart_cases h with ⟨-, rfl, -⟩ | ⟨-, b, j₁, p₁, -, hp₁, rfl, -⟩
  · exact ⟨rfl, rfl⟩
  · obtain ⟨a, m, -, -, rfl⟩ := Progress.place_eq_ok.1 hp₁
    exact ⟨rfl, rfl⟩

theorem attempt_records (h : attempt ctx i p j = .ok q j') :
    q.solutions = ctx.recordVisit p.solutions p ∧ q.iterations = p.iterations + 1 := by
  obtain ⟨feasible, j₁, hfeasible, hcases⟩ := attempt_cases h
  have haccepts := Evaluator.accepts_of_feasible (Search.feasible_eq_ok.1 hfeasible).1
  rcases hcases with ⟨rfl, hknown, hrecord⟩ | ⟨hnot, hadvance⟩
  · obtain ⟨a, m, -, -, rfl⟩ := Progress.place_eq_ok.1 (record_eq_ok hrecord).1
    simp [Context.recordVisit, haccepts, hknown]
  · obtain ⟨move, j₂, -, rfl, -⟩ := advance_eq_ok hadvance
    rcases hnot with rfl | hknown
    · simp [Context.recordVisit, haccepts]
    · simp [Context.recordVisit, hknown]

theorem Course.records {limit : Int} {budget : Nat} {visits : List (Progress M)}
    (h : Course ctx limit budget i p j visits q j') :
    q.solutions = visits.foldl ctx.recordVisit p.solutions ∧
      q.iterations = p.iterations + visits.length := by
  induction h with
  | done => exact ⟨rfl, rfl⟩
  | step _ _ restarted attempted _ ih =>
    obtain ⟨hsolutions, hiterations⟩ := restart_keeps restarted
    obtain ⟨hrecords, hcounts⟩ := attempt_records attempted
    rw [hsolutions] at hrecords
    rw [hiterations] at hcounts
    refine ⟨?_, ?_⟩
    · rw [ih.1, hrecords, List.foldl_cons]
    · rw [ih.2, hcounts, List.length_cons]
      omega

end Solver

/-- The assignments that are the same as none before them, where those of `seen` come first. -/
def newOnes (seen : List Assignment) : List Assignment → List Assignment
  | [] => []
  | a :: as =>
    if seen.any (·.same a) then newOnes (seen ++ [a]) as else a :: newOnes (seen ++ [a]) as

theorem isKnown_append (known : List (Solution M)) (s : Solution M) (a : Assignment) :
    isKnown (known ++ [s]) a = (isKnown known a || s.assignment.same a) := by
  simp [isKnown]

theorem isKnown_of_same {known : List (Solution M)} {a b : Assignment}
    (ha : isKnown known a = true) (hab : a.same b = true) : isKnown known b = true := by
  simp only [isKnown, List.any_eq_true] at ha ⊢
  obtain ⟨s, hs, hsa⟩ := ha
  exact ⟨s, hs, Table.same_trans hsa hab⟩

theorem assignments_foldl_recordVisit (ctx : Context M S) (visits : List (Progress M))
    (known : List (Solution M)) (seen : List Assignment)
    (hseen : ∀ a, isKnown known a = seen.any (·.same a)) :
    (visits.foldl ctx.recordVisit known).map (·.assignment) =
      known.map (·.assignment) ++ newOnes seen
        ((visits.filter fun v => ctx.evaluator.accepts v.model ctx.state).map (·.assignment)) := by
  induction visits generalizing known seen with
  | nil => simp [newOnes]
  | cons v visits ih =>
    rw [List.foldl_cons]
    by_cases haccepts : ctx.evaluator.accepts v.model ctx.state = true
    · rw [List.filter_cons, if_pos haccepts, List.map_cons, newOnes, ← hseen]
      by_cases hknown : isKnown known v.assignment = true
      · -- a visit that is known stays unrecorded; what is the same as it is known already
        have hstep : ctx.recordVisit known v = known := by simp [Context.recordVisit, hknown]
        rw [hstep, if_pos hknown]
        refine ih known _ fun a => ?_
        rw [List.any_append, ← hseen]
        by_cases hva : v.assignment.same a = true
        · simp [hva, isKnown_of_same hknown hva]
        · simp [hva]
      · have hstep : ctx.recordVisit known v = known ++ [⟨v.assignment, v.model⟩] := by
          simp [Context.recordVisit, haccepts, hknown]
        have hrest := ih (known ++ [⟨v.assignment, v.model⟩]) (seen ++ [v.assignment])
          fun a => by simp [isKnown_append, hseen]
        rw [hstep, if_neg hknown, hrest]
        simp
    · have hstep : ctx.recordVisit known v = known := by simp [Context.recordVisit, haccepts]
      rw [hstep, List.filter_cons, if_neg haccepts]
      exact ih known seen hseen

namespace Solver

theorem Reaches.records {solver : Solver M S} {maxSolutions : Value} {tree : Tree} {state : S}
    {overrides : Option Settings.Overrides} {source : Draws} {j j' : Journal M} {s : Setup M S}
    {visits : List (Progress M)} {p : Progress M}
    (h : solver.Reaches maxSolutions tree state overrides source j s visits p j') :
    p.solutions = visits.foldl s.ctx.recordVisit [] ∧ p.iterations = visits.length := by
  obtain ⟨j₁, p₀, j₂, -, hstart, hcourse⟩ := h
  obtain ⟨a, m, -, -, rfl, -⟩ := Setup.start_eq_ok hstart
  simpa using hcourse.records

def solves (solver : Solver M S) (state : S) (a : Assignment) : Bool :=
  match solver.factory a with
  | .ok model => solver.evaluator.accepts model state
  | .error _ => false

/-- A search that gives an outcome has made as many iterations as it tells, and its assignments
are exactly those of its visits, in order, that solve and are the same as no earlier visit that
solves. -/
theorem assignments_are_new_visits {solver : Solver M S} {maxSolutions : Value} {tree : Tree}
    {state : S} {overrides : Option Settings.Overrides} {source : Draws} {j j' : Journal M}
    {o : Outcome M} (h : solver.solve maxSolutions tree state overrides source j = .ok o j') :
    ∃ s visits p j₁, solver.Reaches maxSolutions tree state overrides source j s visits p j₁ ∧
      (visits.length = s.budget ∨ s.limit ≤ p.solutions.length) ∧
      o.iterations = visits.length ∧
      o.assignments = newOnes [] ((visits.map (·.assignment)).filter (solver.solves state)) := by
  obtain ⟨s, visits, p, j₁, hreaches, hend, rfl, -⟩ := solve_eq_ok h
  obtain ⟨-, hcoherent⟩ := hreaches.coherent
  obtain ⟨-, hevaluator, hstate, -, hfactory⟩ := hreaches.setting
  obtain ⟨hsolutions, hiterations⟩ := hreaches.records
  refine ⟨s, visits, p, j₁, hreaches, hend, hiterations, ?_⟩
  have haccepts : ∀ v ∈ visits,
      s.ctx.evaluator.accepts v.model s.ctx.state = solver.solves state v.assignment := by
    intro v hv
    have hmodel := (hcoherent v hv).model
    rw [hfactory] at hmodel
    simp only [solves, hmodel, hevaluator, hstate]
  simp only [Outcome.assignments, hsolutions]
  rw [assignments_foldl_recordVisit s.ctx visits [] [] fun _ => rfl, List.map_nil,
    List.nil_append, List.filter_map, List.filter_congr haccepts]
  rfl

theorem mixed_assignments_are_new : ∃ o j' visited,
    mixedSolver.solve (.int 5) mixedTree () none alternating {} = .ok o j' ∧
      o.assignments.length = 2 ∧ o.iterations = List.length visited ∧
      o.assignments = newOnes [] (visited.filter (mixedSolver.solves ())) := by
  obtain ⟨o, j', hsolve, hlength⟩ := mixedSolver_finds_two
  obtain ⟨-, visits, -, -, -, -, hiterations, hassignments⟩ := assignments_are_new_visits hsolve
  refine ⟨o, j', visits.map (·.assignment), hsolve, ?_, ?_, hassignments⟩
  · simpa only [Outcome.assignments, List.length_map] using hlength
  · simpa only [List.length_map] using hiterations

end Solver

end MinConflicts
