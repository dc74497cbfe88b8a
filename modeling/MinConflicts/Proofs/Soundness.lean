import MinConflicts.Proofs.Records

/-!
# Soundness

Every solution of an outcome answers the tree of domains: its assignment gives each flattened path
a value of the domain there, its model is built from the assignment, and the evaluator counts no
violated constraint. For a constraint system every predicate then holds.
-/
namespace MinConflicts

variable {M S : Type}

theorem checkedCount_eq_ok {what : String} {v w : Value} (h : checkedCount what v = .ok w) :
    w = v := by
  cases v with
  | int z =>
    obtain ⟨x, -, h⟩ := Fault.bind_eq_ok.1 h
    split_ifs at h
    cases h
    rfl
  | float x =>
    simp only [checkedCount] at h
    split_ifs at h
    cases h
    rfl
  | null | bool | str | list | dict => cases h

theorem Evaluator.count_of_accepts {e : Evaluator M S} {model : M} {state : S}
    (h : e.accepts model state = true) :
    ∃ n, e.count model state = .ok n ∧ n.eq (.int 0) = true := by
  unfold accepts at h
  cases hfeasible : e.feasible model state with
  | error f =>
    rw [hfeasible] at h
    cases h
  | ok b =>
    rw [hfeasible] at h
    obtain ⟨n, hchecked, hn⟩ := Fault.bind_eq_ok.1 hfeasible
    obtain ⟨n', hcount, hn'⟩ := Fault.bind_eq_ok.1 hchecked
    have hsame := checkedCount_eq_ok hn'
    subst hsame
    exact ⟨n, hcount, (Fault.pure_eq_ok.1 hn).trans h⟩

namespace ConstraintSystem

theorem holds_of_violatedOf_nil {model : M} {state : S} {cs : List (Constraint M S)}
    (h : violatedOf model state cs = .ok []) : ∀ c ∈ cs, c.holds model state = .ok true := by
  induction cs with
  | nil => simp
  | cons c cs ih =>
    obtain ⟨holds, hholds, h⟩ := Fault.bind_eq_ok.1 h
    obtain ⟨rest, hrest, h⟩ := Fault.bind_eq_ok.1 h
    have hviolated := Fault.pure_eq_ok.1 h
    cases holds with
    | false => cases hviolated
    | true =>
      simp only [if_true] at hviolated
      subst hviolated
      exact List.forall_mem_cons.2 ⟨hholds, ih hrest⟩

theorem holds_of_count_zero {cs : ConstraintSystem M S} {model : M} {state : S} {n : Value}
    (h : cs.evaluator.count model state = .ok n) (hn : n.eq (.int 0) = true) :
    ∀ c ∈ cs.constraints, c.holds model state = .ok true := by
  obtain ⟨k, hk, hkn⟩ := Fault.bind_eq_ok.1 h
  obtain ⟨violated, hviolated, hlength⟩ := Fault.bind_eq_ok.1 hk
  have hnil : violated = [] := by
    rw [← Fault.pure_eq_ok.1 hkn, ← Fault.pure_eq_ok.1 hlength] at hn
    simpa [Value.eq, Value.number?, Number.eq, Number.compare?] using hn
  subst hnil
  exact holds_of_violatedOf_nil hviolated

end ConstraintSystem

theorem mem_foldl_recordVisit {ctx : Context M S} {visits : List (Progress M)}
    {known : List (Solution M)} {found : Solution M}
    (h : found ∈ visits.foldl ctx.recordVisit known) : found ∈ known ∨
      ∃ v ∈ visits, ctx.evaluator.accepts v.model ctx.state = true ∧
        found = ⟨v.assignment, v.model⟩ := by
  induction visits generalizing known with
  | nil => exact .inl h
  | cons v visits ih =>
    rcases ih h with hknown | ⟨w, hw, hrest⟩
    · unfold Context.recordVisit at hknown
      split_ifs at hknown with hrecorded
      · simp only [Bool.and_eq_true] at hrecorded
        rcases List.mem_append.1 hknown with hold | hnew
        · exact .inl hold
        · exact .inr ⟨v, List.mem_cons_self, hrecorded.1, List.mem_singleton.1 hnew⟩
      · exact .inl hknown
    · exact .inr ⟨w, List.mem_cons_of_mem _ hw, hrest⟩

/-- What a solution must be: values of the domains at the flattened paths, with the model built
from them, in which no constraint is violated. -/
structure Answers (solver : Solver M S) (flat : Table Domain) (state : S) (a : Assignment)
    (model : M) : Prop where
  keys : a.keys = flat.keys
  values : ∀ path d, flat.get? path = some d →
    ∃ v vs, a.get? path = some v ∧ d.values = .ok vs ∧ v ∈ vs
  built : solver.factory a = .ok model
  unviolated : ∃ n, solver.evaluator.count model state = .ok n ∧ n.eq (.int 0) = true

theorem Coherent.pointwise {ctx : Context M S} {board : Board} {sorted : Bool}
    {p : Progress M} {flat : Table Domain}
    (hboard : flat.Pointwise (fun path d c => Board.cursorOf sorted path d = .ok c) board)
    (hp : Coherent ctx board p) :
    flat.Pointwise (fun _ d v => ∃ vs, d.values = .ok vs ∧ v ∈ vs) p.assignment :=
  hp.offers.pointwise hboard

namespace Solver

variable {solver : Solver M S} {maxSolutions : Value} {tree : Tree} {state : S}
  {overrides : Option Settings.Overrides} {source : Draws} {j j' : Journal M}

theorem Reaches.visit_of_solution {s : Setup M S} {visits : List (Progress M)} {p : Progress M}
    (h : solver.Reaches maxSolutions tree state overrides source j s visits p j')
    {found : Solution M} (hfound : found ∈ p.solutions) : ∃ v, Coherent s.ctx s.board v ∧
      solver.evaluator.accepts v.model state = true ∧ found = ⟨v.assignment, v.model⟩ := by
  obtain ⟨hsolutions, -⟩ := h.records
  obtain ⟨-, hcoherent⟩ := h.coherent
  obtain ⟨-, hevaluator, hstate, -, -⟩ := h.setting
  rw [hsolutions] at hfound
  obtain ⟨v, hv, haccepts, hfound⟩ := (mem_foldl_recordVisit hfound).resolve_left nofun
  rw [hevaluator, hstate] at haccepts
  exact ⟨v, hcoherent v hv, haccepts, hfound⟩

/-- The outcome of a search lists the flattened paths, and its models are in step with its
assignments: each pair answers the tree. For a constraint system every predicate holds on every
model. -/
theorem solve_sound {o : Outcome M}
    (h : solver.solve maxSolutions tree state overrides source j = .ok o j') :
    ∃ flat, tree.flatten "" = .ok flat ∧ o.paths = flat.keys ∧
      List.Forall₂ (Answers solver flat state) o.assignments o.models ∧
      ∀ cs : ConstraintSystem M S, solver.evaluator = cs.evaluator →
        ∀ model ∈ o.models, ∀ c ∈ cs.constraints, c.holds model state = .ok true := by
  obtain ⟨s, visits, p, j₁, hreaches, -, rfl, -⟩ := solve_eq_ok h
  obtain ⟨hboard, -, -, -, hfactory⟩ := hreaches.setting
  obtain ⟨flat, hflat, hcursors⟩ := Board.ofTree_eq_ok.1 hboard
  have hanswers : ∀ found ∈ p.solutions, Answers solver flat state found.assignment found.model := by
    intro found hfound
    obtain ⟨v, hcoherent, haccepts, rfl⟩ := hreaches.visit_of_solution hfound
    have hvalues := hcoherent.pointwise hcursors
    refine ⟨hvalues.keys_eq.symm, fun path d hd => ?_, hfactory ▸ hcoherent.model,
      Evaluator.count_of_accepts haccepts⟩
    obtain ⟨x, hx, vs, hvs, hmem⟩ := hvalues.get? hd
    exact ⟨x, vs, hx, hvs, hmem⟩
  refine ⟨flat, hflat, hcursors.keys_eq.symm, ?_, ?_⟩
  · simp only [Outcome.assignments, Outcome.models, List.forall₂_map_left_iff,
      List.forall₂_map_right_iff, List.forall₂_same]
    exact hanswers
  · intro cs hcs model hmodel
    obtain ⟨found, hfound, rfl⟩ := List.mem_map.1 hmodel
    obtain ⟨n, hcount, hn⟩ := (hanswers found hfound).unviolated
    rw [hcs] at hcount
    exact ConstraintSystem.holds_of_count_zero hcount hn

theorem mixed_solutions_answer : ∃ o j' flat,
    mixedSolver.solve (.int 5) mixedTree () none alternating {} = .ok o j' ∧
      o.models.length = 2 ∧ mixedTree.flatten "" = .ok flat ∧ o.paths = flat.keys ∧
      List.Forall₂ (Answers mixedSolver flat ()) o.assignments o.models ∧
      ∀ model ∈ o.models, ∀ c ∈ mixedSystem.constraints, c.holds model () = .ok true := by
  obtain ⟨o, j', hsolve, hlength⟩ := mixedSolver_finds_two
  obtain ⟨flat, hflat, hpaths, hanswers, hholds⟩ := solve_sound hsolve
  refine ⟨o, j', flat, hsolve, ?_, hflat, hpaths, hanswers, hholds mixedSystem rfl⟩
  simpa only [Outcome.models, List.length_map] using hlength

end Solver

end MinConflicts
