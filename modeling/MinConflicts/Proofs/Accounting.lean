import MinConflicts.Proofs.Records

/-!
# Iterations, solutions and restarts

An iteration records at most one solution, and none is begun once enough are recorded. So a search
ends when its iterations are used up, or right after the iteration that found the last solution
asked for. Restarts are due at the positive multiples of the retry interval; how many a search has
made is how many of those lie among its iterations.
-/
namespace MinConflicts

variable {M S : Type}

theorem Context.length_recordVisit_le (ctx : Context M S) (known : List (Solution M))
    (v : Progress M) : (ctx.recordVisit known v).length ≤ known.length + 1 := by
  unfold recordVisit
  split_ifs
  · simp
  · exact Nat.le_succ _

def Settings.restartsBefore (s : Settings) (i : Nat) : Nat := (i - 1) / s.retryIterations.toNat

namespace Solver

variable {ctx : Context M S} {i : Nat} {p q : Progress M} {j j' : Journal M}

theorem restartDue_iff (s : Settings) (i : Nat) :
    restartDue s i = true ↔ 0 < s.retryIterations ∧ 0 < i ∧ s.retryIterations.toNat ∣ i := by
  simp only [restartDue, decide_eq_true_eq]
  refine and_congr_right fun hr => and_congr_right fun _ => ?_
  rw [← Int.natCast_dvd_natCast, Int.toNat_of_nonneg hr.le]
  exact ⟨Int.dvd_of_emod_eq_zero, Int.emod_eq_zero_of_dvd⟩

theorem restartsBefore_succ (s : Settings) (i : Nat) :
    s.restartsBefore (i + 1) = s.restartsBefore i + if restartDue s i then 1 else 0 := by
  simp only [Settings.restartsBefore, restartDue_iff, Nat.add_sub_cancel]
  by_cases hr : 0 < s.retryIterations
  · cases i with
    | zero => simp
    | succ i =>
      rw [Nat.succ_div, Nat.add_sub_cancel]
      simp [hr]
  · have hzero : s.retryIterations.toNat = 0 := by omega
    simp [hr, hzero]

theorem restart_restarts (h : restart ctx i p j = .ok q j') :
    q.restarts = p.restarts + if restartDue ctx.settings i then 1 else 0 := by
  rcases restart_cases h with ⟨hdue, rfl, -⟩ | ⟨hdue, b, j₁, p₁, -, hp₁, rfl, -⟩
  · simp [hdue]
  · obtain ⟨a, m, -, -, rfl⟩ := Progress.place_eq_ok.1 hp₁
    simp [hdue]

theorem attempt_restarts (h : attempt ctx i p j = .ok q j') : q.restarts = p.restarts := by
  obtain ⟨-, j₁, -, ⟨-, -, hrecord⟩ | ⟨-, hadvance⟩⟩ := attempt_cases h
  · obtain ⟨a, m, -, -, rfl⟩ := Progress.place_eq_ok.1 (record_eq_ok hrecord).1
    rfl
  · obtain ⟨move, j₂, -, rfl, -⟩ := advance_eq_ok hadvance
    cases move <;> rfl

theorem length_solutions_attempt_le (h : attempt ctx i p j = .ok q j') :
    q.solutions.length ≤ p.solutions.length + 1 := by
  rw [(attempt_records h).1]
  exact ctx.length_recordVisit_le p.solutions p

variable {limit : Int} {budget : Nat} {visits : List (Progress M)}

theorem Course.add_length_le (h : Course ctx limit budget i p j visits q j') (hi : i ≤ budget) :
    i + visits.length ≤ budget := by
  induction h with
  | done => exact hi
  | step within _ _ _ _ ih =>
    have hrest := ih within
    rw [List.length_cons]
    omega

theorem Course.length_solutions_le (h : Course ctx limit budget i p j visits q j') :
    q.solutions.length ≤ p.solutions.length + visits.length := by
  induction h with
  | done => exact Nat.le_add_right _ _
  | step _ _ restarted attempted _ ih =>
    have hkeeps := (restart_keeps restarted).1
    have hone := length_solutions_attempt_le attempted
    rw [hkeeps] at hone
    rw [List.length_cons]
    omega

theorem Course.length_solutions_le_limit (h : Course ctx limit budget i p j visits q j')
    (hp : (p.solutions.length : Int) ≤ limit) : (q.solutions.length : Int) ≤ limit := by
  induction h with
  | done => exact hp
  | step _ short restarted attempted _ ih =>
    apply ih
    have hkeeps := (restart_keeps restarted).1
    have hone := length_solutions_attempt_le attempted
    rw [hkeeps] at hone
    omega

theorem Course.restarts (h : Course ctx limit budget i p j visits q j') :
    q.restarts + ctx.settings.restartsBefore i =
      p.restarts + ctx.settings.restartsBefore (i + visits.length) := by
  induction h with
  | done => rfl
  | @step i p r p₁ p' _ _ _ _ visits _ _ restarted attempted _ ih =>
    have hr := restart_restarts restarted
    have ha := attempt_restarts attempted
    have hdue := restartsBefore_succ ctx.settings i
    rw [List.length_cons, show i + (visits.length + 1) = i + 1 + visits.length by omega]
    omega

theorem Course.exists_last (h : Course ctx limit budget i p j visits q j') (hne : visits ≠ []) :
    ∃ before p₁ j₁, Course ctx limit budget i p j before p₁ j₁ ∧
      visits.length = before.length + 1 ∧ (p₁.solutions.length : Int) < limit ∧
      Solver.step ctx (i + before.length) p₁ j₁ = .ok q j' := by
  induction h with
  | done => exact absurd rfl hne
  | @step i p r p₁ p' j j₁ j₂ j' visits within short restarted attempted rest ih =>
    by_cases hrest : visits = []
    · subst hrest
      cases rest
      exact ⟨[], p, j, .done i p j, rfl, short, Search.bind_eq_ok.2 ⟨r, j₁, restarted, attempted⟩⟩
    · obtain ⟨before, p₂, j₃, hcourse, hlength, hshort, hstep⟩ := ih hrest
      refine ⟨r :: before, p₂, j₃, .step within short restarted attempted hcourse, ?_, hshort, ?_⟩
      · simp [hlength]
      · rwa [List.length_cons, show i + (before.length + 1) = i + 1 + before.length by omega]

theorem length_solutions_step_le (h : step ctx i p j = .ok q j') :
    q.solutions.length ≤ p.solutions.length + 1 := by
  obtain ⟨r, j₁, hr, ha⟩ := Search.bind_eq_ok.1 h
  have hone := length_solutions_attempt_le ha
  rwa [(restart_keeps hr).1] at hone

variable {solver : Solver M S} {maxSolutions : Value} {tree : Tree} {state : S}
  {overrides : Option Settings.Overrides} {source : Draws} {s : Setup M S}

theorem Reaches.within
    (h : solver.Reaches maxSolutions tree state overrides source j s visits p j')
    (hlimit : 0 ≤ s.limit) :
    visits.length ≤ s.budget ∧ p.solutions.length ≤ visits.length ∧
      (p.solutions.length : Int) ≤ s.limit := by
  obtain ⟨j₁, p₀, j₂, -, hstart, hcourse⟩ := h
  obtain ⟨a, m, -, -, rfl, -⟩ := Setup.start_eq_ok hstart
  have hbudget := hcourse.add_length_le (Nat.zero_le _)
  have hlength := hcourse.length_solutions_le
  rw [Nat.zero_add] at hbudget
  rw [List.length_nil, Nat.zero_add] at hlength
  exact ⟨hbudget, hlength, hcourse.length_solutions_le_limit hlimit⟩

theorem Reaches.restarts
    (h : solver.Reaches maxSolutions tree state overrides source j s visits p j') :
    p.restarts = s.ctx.settings.restartsBefore visits.length := by
  obtain ⟨j₁, p₀, j₂, -, hstart, hcourse⟩ := h
  obtain ⟨a, m, -, -, rfl, -⟩ := Setup.start_eq_ok hstart
  have hrestarts := hcourse.restarts
  have hnone : s.ctx.settings.restartsBefore 0 = 0 := by
    rw [Settings.restartsBefore, Nat.zero_sub, Nat.zero_div]
  rwa [hnone, Nat.zero_add, Nat.zero_add] at hrestarts

theorem Reaches.exists_last
    (h : solver.Reaches maxSolutions tree state overrides source j s visits p j')
    (hlimit : 0 < s.limit) (henough : s.limit ≤ p.solutions.length) :
    ∃ before p₁ j₁, solver.Reaches maxSolutions tree state overrides source j s before p₁ j₁ ∧
      visits.length = before.length + 1 ∧ p.solutions.length = p₁.solutions.length + 1 ∧
      step s.ctx before.length p₁ j₁ = .ok p j' := by
  have hlength := (h.within hlimit.le).2.1
  have hne : visits ≠ [] := by
    intro hnil
    rw [hnil, List.length_nil] at hlength
    omega
  obtain ⟨j₁, p₀, j₂, hsetup, hstart, hcourse⟩ := h
  obtain ⟨before, p₁, j₃, hbefore, hvisits, hshort, hstep⟩ := hcourse.exists_last hne
  rw [Nat.zero_add] at hstep
  have hone := length_solutions_step_le hstep
  exact ⟨before, p₁, j₃, ⟨j₁, p₀, j₂, hsetup, hstart, hbefore⟩, hvisits, by omega, hstep⟩

/-- An outcome keeps to both budgets. It falls short of its iterations only if the last of them
recorded the last solution asked for, and it counts the restarts that were due. -/
theorem solve_within_budgets {o : Outcome M}
    (h : solver.solve maxSolutions tree state overrides source j = .ok o j') :
    ∃ c k, (solver.settings.merged overrides).2 = .ok c ∧ maxSolutions.toInteger = .ok k ∧
      (o.solutions.length : Int) ≤ min (max 1 k) o.iterations ∧
      o.iterations ≤ c.maxIterations.toNat ∧
      (o.iterations < c.maxIterations.toNat → (o.solutions.length : Int) = max 1 k ∧
        ∃ s visits p j₁ q j₂,
          solver.Reaches maxSolutions tree state overrides source j s visits p j₁ ∧
          o.iterations = visits.length + 1 ∧ o.solutions.length = p.solutions.length + 1 ∧
          step s.ctx visits.length p j₁ = .ok q j₂ ∧ o.solutions = q.solutions) ∧
      o.restarts = if c.retryIterations ≤ 0 ∨ o.iterations = 0 then 0
        else (o.iterations - 1) / c.retryIterations.toNat := by
  obtain ⟨s, visits, p, j₁, hreaches, hend, rfl, -⟩ := solve_eq_ok h
  obtain ⟨-, hiterations⟩ := hreaches.records
  have hsetup := hreaches
  obtain ⟨_, _, _, hsetup, -⟩ := hsetup
  obtain ⟨c, k, hc, -, hk, hlimit, hctx⟩ := setup_eq_ok hsetup
  have hpositive : 0 < s.limit := by omega
  have hbudget : s.budget = c.maxIterations.toNat := by rw [Setup.budget, hctx]
  have hretry : s.ctx.settings.retryIterations = c.retryIterations := by rw [hctx]
  obtain ⟨hwithin, hlength, hmost⟩ := hreaches.within hpositive.le
  have hrestarts := hreaches.restarts
  rw [← hiterations] at hwithin hlength hrestarts
  rw [hlimit] at hmost
  refine ⟨c, k, hc, hk, ?_, ?_, ?_, ?_⟩
  · exact le_min hmost (Int.ofNat_le.2 hlength)
  · exact hbudget ▸ hwithin
  · intro hshort
    rw [← hbudget, hiterations] at hshort
    have henough : s.limit ≤ p.solutions.length := hend.resolve_left hshort.ne
    obtain ⟨before, p₁, j₂, hbefore, hvisits, hone, hstep⟩ :=
      hreaches.exists_last hpositive henough
    refine ⟨?_, s, before, p₁, j₂, p, j₁, hbefore, ?_, hone, hstep, rfl⟩
    · exact le_antisymm hmost (hlimit ▸ henough)
    · exact hiterations.trans hvisits
  · rw [Settings.restartsBefore, hretry] at hrestarts
    split_ifs with hnone
    · rcases hnone with hr | hzero
      · rwa [Int.toNat_of_nonpos hr, Nat.div_zero] at hrestarts
      · have hbefore : p.iterations = 0 := hzero
        rwa [hbefore, Nat.zero_sub, Nat.zero_div] at hrestarts
    · exact hrestarts

theorem mixed_two_within_budgets : ∃ o j',
    mixedSolver.solve (.int 2) mixedTree () none alternating {} = .ok o j' ∧
      o.iterations = 8 ∧ (o.solutions.length : Int) = 2 ∧ o.restarts = (8 - 1) / 3 := by
  have height : (Search.result? (mixedSolver.solve (.int 2) mixedTree () none alternating {})).map
      (·.iterations) = some 8 := by decide +kernel
  obtain ⟨o, j', hsolve, hiterations⟩ := Search.map_result?_eq_some.1 height
  obtain ⟨c, k, hc, hk, -, -, hearly, hrestarts⟩ := solve_within_budgets hsolve
  cases hc
  cases hk
  obtain ⟨hall, -⟩ := hearly (by rw [hiterations]; decide)
  refine ⟨o, j', hsolve, hiterations, hall, ?_⟩
  rw [hrestarts, hiterations]
  rfl

end Solver

end MinConflicts
