import MinConflicts.Proofs.Moves
import MinConflicts.Solver

/-!
# The course of a search

A search goes from the head of one iteration to the head of the next. `Course` lists the
iterations on the way, each by where the search stands once a due restart is made: that is where
its model is evaluated. A search that gives an outcome has run one course to its end, and what an
iteration can do is said here once, for every property of searches.
-/
namespace MinConflicts

variable {M S : Type}

namespace Progress

theorem place_eq_ok {ctx : Context M S} {p p' : Progress M} {board : Board} :
    p.place ctx board = .ok p' ↔ ∃ a m, board.assignment = .ok a ∧ ctx.factory a = .ok m ∧
      { p with board := board, assignment := a, model := m } = p' := by
  simp only [place, Fault.bind_eq_ok, Fault.pure_eq_ok]
  constructor
  · intro h
    obtain ⟨a, ha, m, hm, hp⟩ := h
    exact ⟨a, m, ha, hm, hp⟩
  · intro h
    obtain ⟨a, m, ha, hm, hp⟩ := h
    exact ⟨a, ha, m, hm, hp⟩

@[simp] theorem follow_solutions (p : Progress M) (move : Option (Candidate M)) :
    (p.follow move).solutions = p.solutions := by
  cases move <;> rfl

@[simp] theorem follow_iterations (p : Progress M) (move : Option (Candidate M)) :
    (p.follow move).iterations = p.iterations := by
  cases move <;> rfl

end Progress

namespace Solver

variable {ctx : Context M S} {i : Nat} {p q : Progress M} {j j' : Journal M}

theorem restart_cases (h : restart ctx i p j = .ok q j') :
    (restartDue ctx.settings i = false ∧ q = p ∧ j' = j) ∨
    (restartDue ctx.settings i = true ∧ ∃ board j₁ p₁,
      p.board.randomize ctx.source j = .ok board j₁ ∧ p.place ctx board = .ok p₁ ∧
      q = { p₁ with restarts := p₁.restarts + 1 } ∧
      Search.note .debug (restartText i q.restarts) j₁ = .ok () j') := by
  unfold restart at h
  split_ifs at h with hdue
  · obtain ⟨board, j₁, hboard, h⟩ := Search.bind_eq_ok.1 h
    obtain ⟨p₁, j₂, hlift, h⟩ := Search.bind_eq_ok.1 h
    obtain ⟨hp₁, rfl⟩ := Search.lift_eq_ok.1 hlift
    obtain ⟨_, j₃, hnote, h⟩ := Search.bind_eq_ok.1 h
    obtain ⟨rfl, rfl⟩ := Search.pure_eq_ok.1 h
    exact .inr ⟨hdue, board, j₁, p₁, hboard, hp₁, rfl, hnote⟩
  · obtain ⟨rfl, rfl⟩ := Search.pure_eq_ok.1 h
    exact .inl ⟨by simpa using hdue, rfl, rfl⟩

theorem record_eq_ok (h : record ctx i p j = .ok q j') :
    Progress.place ctx { p with solutions := p.solutions ++ [⟨p.assignment, p.model⟩] }
        p.board.reset = .ok q ∧
      Search.note .debug (solutionText i (p.solutions.length + 1) p.assignment) j = .ok () j' := by
  obtain ⟨_, j₁, hnote, h⟩ := Search.bind_eq_ok.1 h
  obtain ⟨hq, rfl⟩ := Search.lift_eq_ok.1 h
  simp only [List.length_append, List.length_singleton] at hnote
  exact ⟨hq, hnote⟩

theorem advance_eq_ok (h : advance ctx p j = .ok q j') : ∃ move j₁,
    ctx.nextMove p.board p.solutions p.assignment p.model j = .ok move j₁ ∧ q = p.follow move ∧
      ((p.iterations % progressInterval ≠ 0 ∧ j' = j₁) ∨ (p.iterations % progressInterval = 0 ∧
        Search.note .debug (progressText p.iterations p.solutions.length) j₁ = .ok () j')) := by
  obtain ⟨move, j₁, hnext, h⟩ := Search.bind_eq_ok.1 h
  simp only [Progress.follow_iterations, Progress.follow_solutions] at h
  split_ifs at h with hdue
  · obtain ⟨_, j₃, hnote, h⟩ := Search.bind_eq_ok.1 h
    obtain ⟨rfl, rfl⟩ := Search.pure_eq_ok.1 h
    exact ⟨move, j₁, hnext, rfl, .inr ⟨hdue, hnote⟩⟩
  · obtain ⟨rfl, rfl⟩ := Search.pure_eq_ok.1 h
    exact ⟨move, j₁, hnext, rfl, .inl ⟨hdue, rfl⟩⟩

theorem attempt_cases (h : attempt ctx i p j = .ok q j') :
    ∃ feasible j₁, Search.feasible ctx.evaluator p.model ctx.state j = .ok feasible j₁ ∧
      ((feasible = true ∧ isKnown p.solutions p.assignment = false ∧
        record ctx i { p with iterations := p.iterations + 1 } j₁ = .ok q j') ∨
      ((feasible = false ∨ isKnown p.solutions p.assignment = true) ∧
        advance ctx { p with iterations := p.iterations + 1 } j₁ = .ok q j')) := by
  obtain ⟨feasible, j₁, hfeasible, h⟩ := Search.bind_eq_ok.1 h
  refine ⟨feasible, j₁, hfeasible, ?_⟩
  cases feasible with
  | false => exact .inr ⟨.inl rfl, h⟩
  | true =>
    cases hknown : isKnown p.solutions p.assignment with
    | false =>
      simp only [hknown, Bool.not_false, Bool.and_self, if_true] at h
      exact .inl ⟨rfl, rfl, h⟩
    | true =>
      simp only [hknown, Bool.not_true, Bool.and_false] at h
      exact .inr ⟨.inr rfl, h⟩

/-- From the head of iteration `i` the search makes the listed iterations and comes to the head of
the next one. -/
inductive Course (ctx : Context M S) (limit : Int) (budget : Nat) :
    Nat → Progress M → Journal M → List (Progress M) → Progress M → Journal M → Prop
  | done (i : Nat) (p : Progress M) (j : Journal M) : Course ctx limit budget i p j [] p j
  | step {i : Nat} {p q p₁ p' : Progress M} {j j₁ j₂ j' : Journal M} {visits : List (Progress M)}
      (within : i < budget) (short : (p.solutions.length : Int) < limit)
      (restarted : restart ctx i p j = .ok q j₁) (attempted : attempt ctx i q j₁ = .ok p₁ j₂)
      (rest : Course ctx limit budget (i + 1) p₁ j₂ visits p' j') :
      Course ctx limit budget i p j (q :: visits) p' j'

theorem Course.invariant {I : Progress M → Prop} {limit : Int} {budget : Nat}
    {visits : List (Progress M)} (h : Course ctx limit budget i p j visits q j')
    (hrestart : ∀ {i p q j j'}, I p → restart ctx i p j = .ok q j' → I q)
    (hattempt : ∀ {i p q j j'}, I p → attempt ctx i p j = .ok q j' → I q) (hp : I p) :
    I q ∧ ∀ v ∈ visits, I v := by
  induction h with
  | done => exact ⟨hp, by simp⟩
  | step _ _ restarted attempted _ ih =>
    have hr := hrestart hp restarted
    obtain ⟨hq, hvisits⟩ := ih (hattempt hr attempted)
    exact ⟨hq, List.forall_mem_cons.2 ⟨hr, hvisits⟩⟩

theorem run_eq_ok {limit : Int} {n : Nat} : run ctx limit n i p j = .ok q j' ↔
    ∃ visits, Course ctx limit (i + n) i p j visits q j' ∧
      (visits.length = n ∨ limit ≤ q.solutions.length) := by
  induction n generalizing i p j with
  | zero =>
    constructor
    · intro h
      obtain ⟨rfl, rfl⟩ := Search.pure_eq_ok.1 h
      exact ⟨[], .done i p j, .inl rfl⟩
    · intro h
      obtain ⟨visits, hcourse, -⟩ := h
      cases hcourse with
      | done => rfl
      | step within => omega
  | succ n ih =>
    simp only [run]
    split_ifs with hlimit
    · constructor
      · intro h
        obtain ⟨rfl, rfl⟩ := Search.pure_eq_ok.1 h
        exact ⟨[], .done i p j, .inr hlimit⟩
      · intro h
        obtain ⟨visits, hcourse, -⟩ := h
        cases hcourse with
        | done => rfl
        | step _ short => omega
    · simp only [step, Search.bind_eq_ok, ih]
      constructor
      · intro h
        obtain ⟨p₁, j₂, ⟨r, j₁, hr, hp₁⟩, visits, hcourse, hend⟩ := h
        rw [show i + 1 + n = i + (n + 1) by omega] at hcourse
        refine ⟨r :: visits, .step (by omega) (by omega) hr hp₁ hcourse, ?_⟩
        exact hend.imp (fun h => by simp [h]) id
      · intro h
        obtain ⟨visits, hcourse, hend⟩ := h
        cases hcourse with
        | done => exact (hend.elim nofun hlimit).elim
        | step _ _ hr hp₁ hcourse =>
          rw [show i + (n + 1) = i + 1 + n by omega] at hcourse
          refine ⟨_, _, ⟨_, _, hr, hp₁⟩, _, hcourse, ?_⟩
          exact hend.imp (fun h => by simpa using h) id

end Solver

theorem Setup.start_eq_ok {s : Setup M S} {p : Progress M} {j j' : Journal M}
    (h : s.start j = .ok p j') : ∃ a m, s.board.assignment = .ok a ∧ s.ctx.factory a = .ok m ∧
      p = { board := s.board, assignment := a, model := m } ∧
      Search.note .info (Solver.startText s.board.size s.limit s.ctx.width s.ctx.settings) j =
        .ok () j' := by
  obtain ⟨_, j₁, hnote, h⟩ := Search.bind_eq_ok.1 h
  obtain ⟨a, j₂, hlift, h⟩ := Search.bind_eq_ok.1 h
  obtain ⟨ha, rfl⟩ := Search.lift_eq_ok.1 hlift
  obtain ⟨m, j₃, hlift', h⟩ := Search.bind_eq_ok.1 h
  obtain ⟨hm, rfl⟩ := Search.lift_eq_ok.1 hlift'
  obtain ⟨rfl, rfl⟩ := Search.pure_eq_ok.1 h
  exact ⟨a, m, ha, hm, rfl, hnote⟩

namespace Solver

variable {solver : Solver M S} {maxSolutions : Value} {tree : Tree} {state : S}
  {overrides : Option Settings.Overrides} {source : Draws} {j j' : Journal M}

theorem setup_eq_ok {s : Setup M S}
    (h : solver.setup maxSolutions tree state overrides source j = .ok s j') :
    ∃ settings limit, (solver.settings.merged overrides).2 = .ok settings ∧
      Board.ofTree tree true = .ok s.board ∧ maxSolutions.toInteger = .ok limit ∧
      s.limit = max 1 limit ∧ s.ctx = ⟨solver.evaluator, state, settings, source, solver.factory,
        settings.windowWidth s.board.largest⟩ := by
  obtain ⟨settings, j₁, hsettings, h⟩ := Search.bind_eq_ok.1 h
  obtain ⟨board, j₂, hboard, h⟩ := Search.bind_eq_ok.1 h
  obtain ⟨limit, j₃, hlimit, h⟩ := Search.bind_eq_ok.1 h
  obtain ⟨rfl, -⟩ := Search.pure_eq_ok.1 h
  exact ⟨settings, limit, (Search.logged_eq_ok.1 hsettings).1, (Search.lift_eq_ok.1 hboard).1,
    (Search.lift_eq_ok.1 hlimit).1, rfl, rfl⟩

/-- The search that the solver makes from the journal `j` has made the listed iterations and is at
the head of the next one. -/
def Reaches (solver : Solver M S) (maxSolutions : Value) (tree : Tree) (state : S)
    (overrides : Option Settings.Overrides) (source : Draws) (j : Journal M) (s : Setup M S)
    (visits : List (Progress M)) (p : Progress M) (j' : Journal M) : Prop :=
  ∃ j₁ p₀ j₂, solver.setup maxSolutions tree state overrides source j = .ok s j₁ ∧
    s.start j₁ = .ok p₀ j₂ ∧ Course s.ctx s.limit s.budget 0 p₀ j₂ visits p j'

theorem Reaches.setting {s : Setup M S} {visits : List (Progress M)} {p : Progress M}
    (h : solver.Reaches maxSolutions tree state overrides source j s visits p j') :
    Board.ofTree tree true = .ok s.board ∧ s.ctx.evaluator = solver.evaluator ∧
      s.ctx.state = state ∧ s.ctx.source = source ∧ s.ctx.factory = solver.factory := by
  obtain ⟨j₁, p₀, j₂, hsetup, -⟩ := h
  obtain ⟨settings, limit, -, hboard, -, -, hctx⟩ := setup_eq_ok hsetup
  simp [hboard, hctx]

theorem Reaches.settled_as {s : Setup M S} {visits : List (Progress M)} {p : Progress M}
    {c : Settings} {board : Board} {k : Int}
    (h : solver.Reaches maxSolutions tree state overrides source j s visits p j')
    (hc : (solver.settings.merged overrides).2 = .ok c)
    (hboard : Board.ofTree tree true = .ok board) (hk : maxSolutions.toInteger = .ok k) :
    s = ⟨⟨solver.evaluator, state, c, source, solver.factory, c.windowWidth board.largest⟩, board,
      max 1 k⟩ := by
  obtain ⟨j₁, p₀, j₂, hsetup, -⟩ := h
  obtain ⟨c', k', hc', hboard', hk', hlimit, hctx⟩ := setup_eq_ok hsetup
  cases hc.symm.trans hc'
  cases hboard.symm.trans hboard'
  cases hk.symm.trans hk'
  rw [← hctx, ← hlimit]

/-- An outcome is read off where a search ends: out of budget or with enough solutions. -/
theorem solve_eq_ok {o : Outcome M}
    (h : solver.solve maxSolutions tree state overrides source j = .ok o j') :
    ∃ s visits p j₁, solver.Reaches maxSolutions tree state overrides source j s visits p j₁ ∧
      (visits.length = s.budget ∨ s.limit ≤ p.solutions.length) ∧
      o = ⟨s.board.keys, p.solutions, p.iterations, p.restarts⟩ ∧
      Search.note .info (finishText p.solutions.length p.iterations p.restarts) j₁ =
        .ok () j' := by
  obtain ⟨s, j₁, hsetup, h⟩ := Search.bind_eq_ok.1 h
  obtain ⟨p₀, j₂, hstart, h⟩ := Search.bind_eq_ok.1 h
  obtain ⟨p, j₃, hrun, h⟩ := Search.bind_eq_ok.1 h
  obtain ⟨_, j₄, hnote, h⟩ := Search.bind_eq_ok.1 h
  obtain ⟨rfl, rfl⟩ := Search.pure_eq_ok.1 h
  obtain ⟨visits, hcourse, hend⟩ := run_eq_ok.1 hrun
  rw [Nat.zero_add] at hcourse
  exact ⟨s, visits, p, j₃, ⟨j₁, p₀, j₂, hsetup, hstart, hcourse⟩, hend, rfl, hnote⟩

/-- The values of `a` are a NaN, `1` and `true`, which is the same as `1`: with a constraint on
`b.c` there are fewer than five solutions. -/
def mixedTree : Tree := .branch
  [(.str "a", .leaf { choices := .listed [.float (.nan 7), .int 1, .bool true] }),
   (.str "b", .branch [(.str "c", .leaf { choices := .distinct [.int 0, .int 1] })])]

def mixedSystem : ConstraintSystem Value Unit :=
  ⟨[⟨fun model _ => model.getPath "b.c", ["b.c"], "positive"⟩]⟩

def mixedSolver : Solver Value Unit :=
  ⟨mixedSystem.evaluator, { maxIterations? := some 12, retryIterations? := some 3 },
    fun a => .ok a.nested⟩

def alternating : Draws := fun k => if k % 2 = 0 then .ofNat 1 else .zero false

theorem alternating_inUnit (k : Nat) : (alternating k).InUnit := by
  unfold alternating
  split_ifs <;> decide

theorem mixedSolver_finds_two : ∃ o j',
    mixedSolver.solve (.int 5) mixedTree () none alternating {} = .ok o j' ∧
      o.solutions.length = 2 := by
  have hlength : (match mixedSolver.solve (.int 5) mixedTree () none alternating {} with
      | .ok o _ => o.solutions.length
      | .error _ _ => 0) = 2 := by decide +kernel
  cases hsolve : mixedSolver.solve (.int 5) mixedTree () none alternating {} with
  | ok o j' =>
    rw [hsolve] at hlength
    exact ⟨o, j', rfl, hlength⟩
  | error f j' =>
    rw [hsolve] at hlength
    cases hlength

end Solver

end MinConflicts
