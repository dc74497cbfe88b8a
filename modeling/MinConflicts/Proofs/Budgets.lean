import MinConflicts.Proofs.Accounting
import MinConflicts.Proofs.Mirrors

/-!
# Larger budgets

The numbers of solutions and of iterations decide only when a search ends. With larger budgets it
goes on from where the smaller search stopped, so what the smaller one gives is a beginning of
what the larger one gives. If both have the same iterations, the smaller one has just the first
solutions of the larger one.
-/
namespace MinConflicts

variable {M S : Type}

structure Progress.Extends (p q : Progress M) : Prop where
  solutions : p.solutions <+: q.solutions
  iterations : p.iterations ≤ q.iterations
  restarts : p.restarts ≤ q.restarts

theorem Progress.Extends.solutions_eq_take {p q : Progress M} (h : p.Extends q) {limit : Int}
    (hmost : (p.solutions.length : Int) ≤ limit)
    (hend : p.solutions = q.solutions ∨ limit ≤ p.solutions.length) :
    p.solutions = q.solutions.take limit.toNat := by
  rcases hend with hall | henough
  · rw [← hall, List.take_of_length_le (by omega)]
  · have hlength : limit.toNat = p.solutions.length := by omega
    rw [hlength]
    exact List.prefix_iff_eq_take.1 h.solutions

theorem Context.prefix_recordVisit (ctx : Context M S) (known : List (Solution M))
    (v : Progress M) : known <+: ctx.recordVisit known v := by
  unfold recordVisit
  split_ifs
  · exact List.prefix_append _ _
  · exact List.prefix_refl _

theorem Context.prefix_foldl_recordVisit (ctx : Context M S) (visits : List (Progress M))
    (known : List (Solution M)) : known <+: visits.foldl ctx.recordVisit known := by
  induction visits generalizing known with
  | nil => exact List.prefix_refl _
  | cons v visits ih => exact (ctx.prefix_recordVisit known v).trans (ih _)

namespace Solver

variable {ctx : Context M S} {i n n' : Nat} {limit limit' : Int} {p q : Progress M}
  {j j' : Journal M}

theorem Course.extends {budget : Nat} {visits : List (Progress M)}
    (h : Course ctx limit budget i p j visits q j') : p.Extends q := by
  obtain ⟨hsolutions, hiterations⟩ := h.records
  have hrestarts := h.restarts
  have hdue : ctx.settings.restartsBefore i ≤ ctx.settings.restartsBefore (i + visits.length) :=
    Nat.div_le_div_right (by omega)
  refine ⟨?_, by omega, by omega⟩
  rw [hsolutions]
  exact ctx.prefix_foldl_recordVisit visits p.solutions

theorem run_extends (h : run ctx limit n i p j = .ok q j') : p.Extends q := by
  obtain ⟨visits, hcourse, -⟩ := run_eq_ok.1 h
  exact hcourse.extends

theorem run_of_enough (h : limit ≤ p.solutions.length) : run ctx limit n i p = pure p := by
  cases n with
  | zero => rfl
  | succ n => rw [run, if_pos h]

theorem exists_run_of_le (hlimit : limit ≤ limit') (hn : n ≤ n')
    (h : run ctx limit' n' i p j = .ok q j') :
    ∃ q₁ j₁, run ctx limit n i p j = .ok q₁ j₁ ∧ q₁.Extends q ∧
      (n = n' → q₁.solutions = q.solutions ∨ limit ≤ q₁.solutions.length) := by
  induction n' generalizing n i p j with
  | zero =>
    have hzero : n = 0 := by omega
    obtain ⟨rfl, -⟩ := Search.pure_eq_ok.1 h
    subst hzero
    exact ⟨p, j, rfl, run_extends h, fun _ => .inl rfl⟩
  | succ n' ih =>
    by_cases henough : limit ≤ p.solutions.length
    · rw [run_of_enough henough]
      exact ⟨p, j, rfl, run_extends h, fun _ => .inr henough⟩
    · cases n with
      | zero => exact ⟨p, j, rfl, run_extends h, nofun⟩
      | succ n =>
        have hshort : ¬limit' ≤ p.solutions.length := by omega
        rw [run, if_neg hshort] at h
        obtain ⟨p₁, j₁, hstep, hrest⟩ := Search.bind_eq_ok.1 h
        obtain ⟨q₁, j₂, hrun, hextends, hend⟩ := ih (Nat.le_of_succ_le_succ hn) hrest
        refine ⟨q₁, j₂, ?_, hextends, fun heq => hend (by omega)⟩
        rw [run, if_neg henough]
        exact Search.bind_eq_ok.2 ⟨p₁, j₁, hstep, hrun⟩

theorem length_solutions_run_le (h : run ctx limit n i p j = .ok q j')
    (hp : (p.solutions.length : Int) ≤ limit) : (q.solutions.length : Int) ≤ limit := by
  obtain ⟨visits, hcourse, -⟩ := run_eq_ok.1 h
  exact hcourse.length_solutions_le_limit hp

variable {e : Evaluator M S} {factory : Assignment → Except Fault M} {settings settings' : Settings}
  {maxSolutions maxSolutions' : Value} {tree : Tree} {state : S}
  {overrides overrides' : Option Settings.Overrides} {source : Draws} {c c' : Settings} {k k' : Int}

theorem exists_solve_iff {solver : Solver M S} {o : Outcome M} :
    (∃ j', solver.solve maxSolutions tree state overrides source j = .ok o j') ↔
      ∃ s j₁ p j₂ q j₃, solver.setup maxSolutions tree state overrides source j = .ok s j₁ ∧
        s.start j₁ = .ok p j₂ ∧ run s.ctx s.limit s.budget 0 p j₂ = .ok q j₃ ∧
        o = ⟨s.board.keys, q.solutions, q.iterations, q.restarts⟩ := by
  constructor
  · intro h
    obtain ⟨j', h⟩ := h
    obtain ⟨s, j₁, hsetup, h⟩ := Search.bind_eq_ok.1 h
    obtain ⟨p, j₂, hstart, h⟩ := Search.bind_eq_ok.1 h
    obtain ⟨q, j₃, hrun, h⟩ := Search.bind_eq_ok.1 h
    obtain ⟨_, j₄, -, h⟩ := Search.bind_eq_ok.1 h
    exact ⟨s, j₁, p, j₂, q, j₃, hsetup, hstart, hrun, (Search.pure_eq_ok.1 h).1.symm⟩
  · intro h
    obtain ⟨s, j₁, p, j₂, q, j₃, hsetup, hstart, hrun, rfl⟩ := h
    obtain ⟨j', hsearch⟩ : ∃ j', s.search j₁ = .ok ⟨s.board.keys, q.solutions, q.iterations,
        q.restarts⟩ j' :=
      ⟨_, Search.bind_eq_ok.2 ⟨p, j₂, hstart, Search.bind_eq_ok.2 ⟨q, j₃, hrun,
        Search.bind_eq_ok.2 ⟨(), _, Search.note_eq_ok.2 rfl, rfl⟩⟩⟩⟩
    exact ⟨j', Search.bind_eq_ok.2 ⟨s, j₁, hsetup, hsearch⟩⟩

/-- If a search with the larger budgets gives an outcome, so does the one with the smaller
budgets, and what it gives is a beginning of that. With the same iterations, it is as many of the
first solutions as were asked for. -/
theorem solve_prefix (hc : (settings.merged overrides).2 = .ok c)
    (hc' : (settings'.merged overrides').2 = .ok c') (hsteers : c.SteersAs c')
    (hiterations : c.maxIterations ≤ c'.maxIterations)
    (hk : maxSolutions.toInteger = .ok k) (hk' : maxSolutions'.toInteger = .ok k') (hkk' : k ≤ k')
    {j j' j₁' : Journal M} (hj : j.draws = j'.draws) {o' : Outcome M}
    (h : (⟨e, settings', factory⟩ : Solver M S).solve maxSolutions' tree state overrides' source
      j' = .ok o' j₁') :
    ∃ o j₁, (⟨e, settings, factory⟩ : Solver M S).solve maxSolutions tree state overrides source
        j = .ok o j₁ ∧
      o.assignments <+: o'.assignments ∧ o.models <+: o'.models ∧
      o.iterations ≤ o'.iterations ∧ o.restarts ≤ o'.restarts ∧
      (c.maxIterations = c'.maxIterations →
        o.assignments = o'.assignments.take (max 1 k).toNat) := by
  obtain ⟨s', j₂', p₀, j₃', q', j₄', hsetup', hstart', hrun', rfl⟩ := exists_solve_iff.1 ⟨_, h⟩
  have hsettings : Fault.InStep (fun d' d => c' = d' ∧ c = d) (settings'.merged overrides').2
      (settings.merged overrides).2 := by
    rw [hc, hc']
    exact .ok ⟨rfl, rfl⟩
  have hlimits : Fault.InStep (fun l' l => k' = l' ∧ k = l) maxSolutions'.toInteger
      maxSolutions.toInteger := by
    rw [hk, hk']
    exact .ok ⟨rfl, rfl⟩
  -- the smaller search is set up and started in step with the larger one
  have hsetups : Search.Lockstep _
      ((⟨e, settings', factory⟩ : Solver M S).setup maxSolutions' tree state overrides' source)
      ((⟨e, settings, factory⟩ : Solver M S).setup maxSolutions tree state overrides source) :=
    setup_lockstep hsettings hlimits
  obtain ⟨s, j₂, hsetup, ⟨_, _, board, _, _, ⟨rfl, rfl⟩, hboard, ⟨rfl, rfl⟩, rfl, rfl⟩, hj₂⟩ :=
    hsetups.exists_ok hsetup' j hj.symm
  have hctx := (Echoes.refl board factory e state).mirrors hsteers.symm source k' k
  have hstarts : Search.Lockstep _ (Setup.of e factory state source c' board k').start
      (Setup.of e factory state source c board k).start := Setup.start_lockstep rfl hctx
  obtain ⟨p, j₃, hstart, rfl, hj₃⟩ := hstarts.exists_ok hstart' j₂ hj₂
  -- under the smaller budgets the run of the larger search stops earlier
  have hbudget := Int.toNat_le_toNat hiterations
  obtain ⟨q, j₄'', hrun'', hextends, hend⟩ :=
    exists_run_of_le (max_le_max_left 1 hkk') hbudget hrun'
  have hcoherent := (coherent_of_start hstart').1
  have hn := Board.ofTree_keys_nodup hboard
  obtain ⟨q₁, j₄, hrun, rfl, -⟩ :=
    (hctx.run hn hcoherent (max 1 k) c.maxIterations.toNat 0).exists_ok hrun'' j₃ hj₃
  simp only [Progress.map_id] at hstart hrun
  obtain ⟨j₁, hsolve⟩ := exists_solve_iff.2 ⟨_, j₂, _, j₃, _, j₄, hsetup, hstart, hrun, rfl⟩
  refine ⟨_, j₁, hsolve, hextends.solutions.map _, hextends.solutions.map _, hextends.iterations,
    hextends.restarts, ?_⟩
  intro hsame
  have hnone : p₀.solutions = [] := by
    obtain ⟨a, m, -, -, rfl, -⟩ := Setup.start_eq_ok hstart'
    rfl
  have hmost := length_solutions_run_le hrun'' (by simp [hnone])
  have htake := hextends.solutions_eq_take hmost (hend (congrArg Int.toNat hsame))
  simp only [Outcome.assignments, htake, List.map_take]

theorem mixed_one_is_first_of_two : ∃ o o' j₁ j₁',
    mixedSolver.solve (.int 1) mixedTree () none alternating {} = .ok o j₁ ∧
      mixedSolver.solve (.int 5) mixedTree () none alternating {} = .ok o' j₁' ∧
      o'.solutions.length = 2 ∧ o.assignments = o'.assignments.take 1 ∧
      o.models <+: o'.models ∧ o.iterations ≤ o'.iterations ∧ o.restarts ≤ o'.restarts := by
  obtain ⟨o', j₁', hlarge, hlength⟩ := mixedSolver_finds_two
  have hsettings : (mixedSolver.settings.merged none).2 = .ok mixedSolver.settings := rfl
  have hone : (Value.int 1).toInteger = .ok 1 := rfl
  have hfive : (Value.int 5).toInteger = .ok 5 := rfl
  obtain ⟨o, j₁, hsmall, -, hmodels, hiterations, hrestarts, htake⟩ :=
    solve_prefix hsettings hsettings (.refl _) le_rfl hone hfive (by decide) rfl hlarge
  exact ⟨o, o', j₁, j₁', hsmall, hlarge, hlength, htake rfl, hmodels, hiterations, hrestarts⟩

end Solver

end MinConflicts
