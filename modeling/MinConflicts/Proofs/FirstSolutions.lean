import MinConflicts.Proofs.Budgets
import MinConflicts.Proofs.DrawCounts
import MinConflicts.Proofs.NarrowWindows
import MinConflicts.Proofs.Starts

/-!
# The first solution

A tree has one assignment of favourite values, and that is where a search starts. If it solves,
the first iteration records it: no restart is due there and nothing has been drawn. The search is
then back where it started, with one solution, and goes on from there if it was asked for more.
-/
namespace MinConflicts

variable {M S : Type}

theorem IsFavourite.getElem?_preferredAt {ss : List Slot} {s : Slot} (h : IsFavourite ss s) :
    ss[Cursor.preferredAt ss]? = some s := by
  obtain ⟨before, after, rfl, hbefore, hafter⟩ := h
  rw [Cursor.preferredAt_append hbefore hafter]
  simp

theorem Domain.Favours.unique {d : Domain} {v w : Value} (hv : d.Favours v) (hw : d.Favours w) :
    v = w := by
  obtain ⟨ss, s, hss, hs, rfl⟩ := hv
  obtain ⟨ss', t, hss', ht, rfl⟩ := hw
  cases hss.symm.trans hss'
  have hst := hs.getElem?_preferredAt.symm.trans ht.getElem?_preferredAt
  rw [Option.some.inj hst]

theorem Board.assignment_of_prefers {t : Tree} {b : Board} {a : Assignment}
    (hb : ofTree t true = .ok b) (ha : t.Prefers a) : b.assignment = .ok a := by
  obtain ⟨flat, hflat, hcursors⟩ := ofTree_eq_ok.1 hb
  obtain ⟨flat', hflat', hvalues⟩ := ha
  cases hflat.symm.trans hflat'
  refine assignment_eq_ok.2 (hcursors.flip.comp hvalues fun path c d v hc hv => ?_)
  obtain ⟨hfront, s, hs, hfavours⟩ := cursorOf_ranked hc
  refine ⟨s, ?_, hfavours.unique hv⟩
  rw [Cursor.current, hfront.1]
  exact nth_natCast hs

def Progress.recorded (p : Progress M) : Progress M := { p with
  solutions := p.solutions ++ [⟨p.assignment, p.model⟩]
  iterations := p.iterations + 1 }

namespace Solver

variable {ctx : Context M S} {board : Board} {p p₁ q : Progress M} {j j₁ j' : Journal M}
  {visits : List (Progress M)}

theorem restart_zero (ctx : Context M S) (p : Progress M) : restart ctx 0 p = pure p := by
  simp [restart, restartDue]

theorem exists_record (h : Progress.place ctx
      { p with solutions := p.solutions ++ [⟨p.assignment, p.model⟩] } p.board.reset = .ok q)
    (i : Nat) (j : Journal M) : ∃ j', record ctx i p j = .ok q j' :=
  ⟨_, Search.bind_eq_ok.2 ⟨(), _, Search.note_eq_ok.2 rfl, Search.lift_eq_ok.2 ⟨h, rfl⟩⟩⟩

theorem exists_attempt_of_new (hp : Coherent ctx board p) (hfront : p.board.AtFront)
    (hfeasible : ctx.evaluator.feasible p.model ctx.state = .ok true)
    (hnew : isKnown p.solutions p.assignment = false) (i : Nat) (j : Journal M) :
    ∃ j', attempt ctx i p j = .ok p.recorded j' ∧ j'.draws = j.draws := by
  have hplace : p.recorded.place ctx p.board.reset = .ok p.recorded := by
    rw [hfront.reset]
    exact Progress.place_eq_ok.2 ⟨_, _, hp.assignment, hp.model, rfl⟩
  have hasked := (Search.feasible_eq_ok (j := j)).2 ⟨hfeasible, rfl⟩
  obtain ⟨j', hrecord⟩ := exists_record (p := { p with iterations := p.iterations + 1 }) hplace i
    { j with counts := j.counts + 1, counted := p.model :: j.counted }
  have hattempt : attempt ctx i p j = .ok p.recorded j' := by
    refine Search.bind_eq_ok.2 ⟨true, _, hasked, ?_⟩
    simp only [hnew, Bool.not_false, Bool.and_self, if_true]
    exact hrecord
  refine ⟨j', hattempt, ?_⟩
  rw [record_spends ctx i _ _ _ _ hrecord]
  rfl

/-- The search makes a first iteration, which starts at `p`, where no restart is due, and leads
to `p₁`. -/
structure Opens (s : Setup M S) (p p₁ : Progress M) (j j₁ : Journal M) : Prop where
  within : 0 < s.budget
  short : (p.solutions.length : Int) < s.limit
  restarted : restart s.ctx 0 p j = .ok p j
  attempted : attempt s.ctx 0 p j = .ok p₁ j₁

namespace Opens

variable {s : Setup M S}

theorem course (h : Opens s p p₁ j j₁) : Course s.ctx s.limit s.budget 0 p j [p] p₁ j₁ :=
  .step h.within h.short h.restarted h.attempted (.done 1 p₁ j₁)

theorem exists_later (h : Opens s p p₁ j j₁)
    (hcourse : Course s.ctx s.limit s.budget 0 p j visits q j')
    (hend : visits.length = s.budget ∨ s.limit ≤ q.solutions.length) :
    ∃ later, visits = p :: later ∧ Course s.ctx s.limit s.budget 1 p₁ j₁ later q j' := by
  cases hcourse with
  | done =>
    rcases hend with hnone | henough
    · exact absurd hnone h.within.ne
    · exact absurd henough (not_le.2 h.short)
  | step _ _ restarted attempted rest =>
    cases h.restarted.symm.trans restarted
    cases h.attempted.symm.trans attempted
    exact ⟨_, rfl, rest⟩

end Opens

variable {solver : Solver M S} {maxSolutions : Value} {tree : Tree} {state : S}
  {overrides : Option Settings.Overrides} {source : Draws} {c : Settings} {k : Int}
  {a : Assignment} {m : M}

theorem exists_setup (hc : (solver.settings.merged overrides).2 = .ok c)
    (hboard : Board.ofTree tree true = .ok board) (hk : maxSolutions.toInteger = .ok k) (state : S)
    (source : Draws) (j : Journal M) :
    ∃ j₁, solver.setup maxSolutions tree state overrides source j =
      .ok (.of solver.evaluator solver.factory state source c board k) j₁ :=
  ⟨_, Search.bind_eq_ok.2 ⟨c, _, Search.logged_eq_ok.2 ⟨hc, rfl⟩,
    Search.bind_eq_ok.2 ⟨board, _, Search.lift_eq_ok.2 ⟨hboard, rfl⟩,
      Search.bind_eq_ok.2 ⟨k, _, Search.lift_eq_ok.2 ⟨hk, rfl⟩, rfl⟩⟩⟩⟩

theorem exists_start {s : Setup M S} (ha : s.board.assignment = .ok a)
    (hm : s.ctx.factory a = .ok m) (j : Journal M) :
    ∃ j₁, s.start j = .ok { board := s.board, assignment := a, model := m } j₁ :=
  ⟨_, Search.bind_eq_ok.2 ⟨(), _, Search.note_eq_ok.2 rfl,
    Search.bind_eq_ok.2 ⟨a, _, Search.lift_eq_ok.2 ⟨ha, rfl⟩,
      Search.bind_eq_ok.2 ⟨m, _, Search.lift_eq_ok.2 ⟨hm, rfl⟩, rfl⟩⟩⟩⟩

theorem exists_opens (hc : (solver.settings.merged overrides).2 = .ok c)
    (hiterations : 1 ≤ c.maxIterations) (hboard : Board.ofTree tree true = .ok board)
    (hk : maxSolutions.toInteger = .ok k) (ha : tree.Prefers a) (hm : solver.factory a = .ok m)
    (hfeasible : solver.evaluator.feasible m state = .ok true) (source : Draws) (j : Journal M) :
    ∃ s p j₁ j₂ j₃, s = .of solver.evaluator solver.factory state source c board k ∧
      p = { board := board, assignment := a, model := m } ∧
      solver.setup maxSolutions tree state overrides source j = .ok s j₁ ∧
      s.start j₁ = .ok p j₂ ∧ Opens s p p.recorded j₂ j₃ ∧ j₃.draws = j.draws := by
  obtain ⟨j₁, hsetup⟩ := exists_setup hc hboard hk state source j
  obtain ⟨j₂, hstart⟩ := exists_start (s := .of solver.evaluator solver.factory state source c
    board k) (Board.assignment_of_prefers hboard ha) hm j₁
  have hfront := Board.ofTree_atFront hboard
  have hcoherent := (coherent_of_start hstart).1
  obtain ⟨j₃, hattempt, hdraws⟩ := exists_attempt_of_new hcoherent hfront hfeasible rfl 0 j₂
  refine ⟨_, _, j₁, j₂, j₃, rfl, rfl, hsetup, hstart, ?_, ?_⟩
  · exact {
      within := Int.lt_toNat.2 hiterations
      short := lt_max_of_lt_left Int.one_pos
      restarted := congrFun (restart_zero _ _) j₂
      attempted := hattempt }
  · rw [hdraws, start_spends _ _ _ _ hstart, setup_spends _ _ _ _ _ _ _ _ _ hsetup]
    rfl

/-- The favourite values of all domains are the first solution of a search, if they solve. They
are recorded in the first iteration, without a restart and before anything is drawn, and the rest
of the search goes on from there. A search for one solution gives an outcome: it ends there. -/
theorem solve_starts_with_favourites (solver : Solver M S) (maxSolutions : Value) (state : S)
    (source : Draws) (j : Journal M) (hc : (solver.settings.merged overrides).2 = .ok c)
    (hiterations : 1 ≤ c.maxIterations) (hboard : Board.ofTree tree true = .ok board)
    (ha : tree.Prefers a) (hm : solver.factory a = .ok m)
    (hfeasible : solver.evaluator.feasible m state = .ok true) :
    (∀ o j', solver.solve maxSolutions tree state overrides source j = .ok o j' →
      ∃ s v p j₁ later q j₂ rest,
        solver.Reaches maxSolutions tree state overrides source j s [v] p j₁ ∧
        p.solutions = [⟨a, m⟩] ∧ p.iterations = 1 ∧ p.restarts = 0 ∧ j₁.draws = j.draws ∧
        Course s.ctx s.limit s.budget 1 p j₁ later q j₂ ∧
        o = ⟨s.board.keys, q.solutions, q.iterations, q.restarts⟩ ∧
        o.solutions = ⟨a, m⟩ :: rest) ∧
    ∀ k, maxSolutions.toInteger = .ok k → k ≤ 1 →
      ∃ j', solver.solve maxSolutions tree state overrides source j =
        .ok ⟨board.keys, [⟨a, m⟩], 1, 0⟩ j' ∧ j'.draws = j.draws := by
  constructor
  · intro o j' h
    obtain ⟨s, visits, q, j₄, ⟨j₁, p, j₂, hsetup, hstart, hcourse⟩, hend, rfl, -⟩ := solve_eq_ok h
    obtain ⟨-, k, -, -, hk, -⟩ := setup_eq_ok hsetup
    obtain ⟨s', p', j₁', j₂', j₃, -, hp, hsetup', hstart', hopens, hdraws⟩ :=
      exists_opens hc hiterations hboard hk ha hm hfeasible source j
    cases hsetup.symm.trans hsetup'
    cases hstart.symm.trans hstart'
    subst hp
    obtain ⟨later, rfl, hlater⟩ := hopens.exists_later hcourse hend
    obtain ⟨rest, hrest⟩ := hlater.extends.solutions
    exact ⟨s, _, _, j₃, later, q, j₄, rest, ⟨j₁, _, j₂, hsetup, hstart, hopens.course⟩,
      rfl, rfl, rfl, hdraws, hlater, rfl, hrest.symm⟩
  · intro k hk hone
    obtain ⟨s, p, j₁, j₂, j₃, hs, rfl, hsetup, hstart, hopens, hdraws⟩ :=
      exists_opens hc hiterations hboard hk ha hm hfeasible source j
    have hlimit : s.limit = 1 := by
      rw [hs]
      exact max_eq_left hone
    have hrun := run_eq_ok.2 ⟨_, (Nat.zero_add s.budget).symm ▸ hopens.course,
      .inr hlimit.le⟩
    have hkeys : board.keys = s.board.keys := by
      rw [hs]
      rfl
    rw [hkeys]
    refine ⟨_, Search.bind_eq_ok.2 ⟨s, j₁, hsetup, Search.bind_eq_ok.2 ⟨_, j₂, hstart,
      Search.bind_eq_ok.2 ⟨_, j₃, hrun, Search.bind_eq_ok.2 ⟨(), _, Search.note_eq_ok.2 rfl,
        rfl⟩⟩⟩⟩, hdraws⟩

def ratedFavourites : Assignment := ⟨[("a", .float (.nan 7)), ("b.c", .int 1)]⟩

theorem exists_ratedBoard : ∃ board, Board.ofTree ratedTree true = .ok board ∧
    ratedTree.Prefers ratedFavourites := by
  have hstart : (Board.ofTree ratedTree true >>= Board.assignment) = .ok ratedFavourites := rfl
  obtain ⟨board, hboard, hassignment⟩ := Fault.bind_eq_ok.1 hstart
  exact ⟨board, hboard, Board.ofTree_prefers hboard hassignment⟩

theorem mixedSolver_starts_with_favourites : ∃ m o j' rest paths j₁,
    mixedSolver.factory ratedFavourites = .ok m ∧
      mixedSolver.solve (.int 5) ratedTree () none alternating {} = .ok o j' ∧
      1 < o.iterations ∧ o.solutions = ⟨ratedFavourites, m⟩ :: rest ∧
      mixedSolver.solve (.int 0) ratedTree () none (fun _ => .nan 0) {} =
        .ok ⟨paths, [⟨ratedFavourites, m⟩], 1, 0⟩ j₁ ∧ j₁.draws = 0 := by
  obtain ⟨board, hboard, hprefers⟩ := exists_ratedBoard
  have hc : (mixedSolver.settings.merged none).2 = .ok mixedSolver.settings := rfl
  have hiterations : 1 ≤ mixedSolver.settings.maxIterations := by decide
  have hm : mixedSolver.factory ratedFavourites = .ok ratedFavourites.nested := rfl
  have hfeasible : mixedSolver.evaluator.feasible ratedFavourites.nested () = .ok true := rfl
  have hlong : (Search.result? (mixedSolver.solve (.int 5) ratedTree () none alternating {})).map
      (decide <| 1 < ·.iterations) = some true := by decide +kernel
  obtain ⟨o, j', hsolve, hmore⟩ := Search.map_result?_eq_some.1 hlong
  obtain ⟨-, -, -, -, -, -, -, rest, -, -, -, -, -, -, -, hfirst⟩ :=
    (solve_starts_with_favourites mixedSolver (.int 5) () alternating {} hc hiterations hboard
      hprefers hm hfeasible).1 o j' hsolve
  obtain ⟨j₁, hone, hdraws⟩ :=
    (solve_starts_with_favourites mixedSolver (.int 0) () (fun _ => .nan 0) {} hc hiterations
      hboard hprefers hm hfeasible).2 0 rfl (by decide)
  exact ⟨_, o, j', rest, board.keys, j₁, hm, hsolve, of_decide_eq_true hmore, hfirst, hone, hdraws⟩

end Solver

end MinConflicts
