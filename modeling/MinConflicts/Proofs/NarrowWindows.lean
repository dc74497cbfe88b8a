import MinConflicts.Proofs.Accounting
import MinConflicts.Proofs.Favourites

/-!
# Narrow windows

A window reaches half its width ahead and leaves out the last position of that. Around place 0 a
window of width 3 or less holds no other place, so a search that never restarts stays on the board
it starts with: it looks at the favourite values of all domains, records them if they solve, and
finds nothing else however long it goes on.
-/
namespace MinConflicts

variable {M S : Type}

theorem Window.around_zero_stop_le (size : Int) {width : Int} (h : width ≤ 3) :
    (around 0 size width).stop ≤ 1 := by
  have hhalf : width.fdiv 2 ≤ 1 := by
    rw [Int.fdiv_eq_ediv_of_nonneg width (by decide)]
    omega
  simp only [around]
  omega

variable {ctx : Context M S} {i : Nat} {p q : Progress M} {j j' : Journal M}

theorem Context.nextMove_index_eq_zero {board : Board} {known : List (Solution M)}
    {a : Assignment} {model : M} {c : Candidate M} (hwidth : ctx.width ≤ 3)
    (hfront : board.AtFront) (h : ctx.nextMove board known a model j = .ok (some c) j') :
    c.index = 0 := by
  obtain ⟨key, cs, hcs, hc⟩ := nextMove_mem h
  obtain ⟨cur, hcur, -, hstop⟩ := candidates_in_window hcs hc
  have hindex : cur.index = 0 := (hfront _ (Table.mem_entries_of_get? hcur)).1
  have hnarrow := Window.around_zero_stop_le cur.size hwidth
  rw [hindex] at hstop
  omega

theorem Context.foldl_recordVisit_of_nothing {visits : List (Progress M)}
    {known : List (Solution M)} (h : ∀ v ∈ visits, ctx.evaluator.accepts v.model ctx.state = false ∨
      isKnown known v.assignment = true) : visits.foldl ctx.recordVisit known = known := by
  induction visits with
  | nil => rfl
  | cons v visits ih =>
    obtain ⟨hv, hvisits⟩ := List.forall_mem_cons.1 h
    have hstep : ctx.recordVisit known v = known := by
      rcases hv with hrejected | hknown
      · simp [recordVisit, hrejected]
      · simp [recordVisit, hknown]
    rw [List.foldl_cons, hstep]
    exact ih hvisits

theorem Context.foldl_recordVisit_of_one {visits : List (Progress M)} {a : Assignment} {m : M}
    (h : ∀ v ∈ visits, v.assignment = a ∧ v.model = m) :
    visits.foldl ctx.recordVisit [] =
      if visits ≠ [] ∧ ctx.evaluator.accepts m ctx.state = true then [⟨a, m⟩] else [] := by
  cases haccepts : ctx.evaluator.accepts m ctx.state with
  | false =>
    simp only [Bool.false_eq_true, and_false, if_false]
    apply Context.foldl_recordVisit_of_nothing
    intro v hv
    rw [(h v hv).2]
    exact .inl haccepts
  | true =>
    cases visits with
    | nil => simp
    | cons v visits =>
      obtain ⟨⟨ha, hm⟩, hvisits⟩ := List.forall_mem_cons.1 h
      have hfirst : ctx.recordVisit [] v = [⟨a, m⟩] := by
        simp [recordVisit, isKnown, ha, hm, haccepts]
      simp only [List.foldl_cons, hfirst, ne_eq, reduceCtorEq, not_false_eq_true, true_and,
        if_true]
      apply Context.foldl_recordVisit_of_nothing
      intro w hw
      rw [(hvisits w hw).1]
      exact .inr (by simp [isKnown, Table.same_refl])

namespace Solver

theorem restart_of_never (hnever : ctx.settings.retryIterations = 0)
    (h : restart ctx i p j = .ok q j') : q = p := by
  rcases restart_cases h with ⟨-, hq, -⟩ | ⟨hdue, -⟩
  · exact hq
  · simp [restartDue, hnever] at hdue

theorem attempt_stays (hwidth : ctx.width ≤ 3) (hfront : p.board.AtFront)
    (h : attempt ctx i p j = .ok q j') : q.board = p.board := by
  obtain ⟨-, j₁, -, ⟨-, -, hrecord⟩ | ⟨-, hadvance⟩⟩ := attempt_cases h
  · obtain ⟨a, m, -, -, rfl⟩ := Progress.place_eq_ok.1 (record_eq_ok hrecord).1
    exact hfront.reset
  · obtain ⟨move, j₂, hmove, rfl, -⟩ := advance_eq_ok hadvance
    cases move with
    | none => rfl
    | some c =>
      have hzero := Context.nextMove_index_eq_zero hwidth hfront hmove
      simp only [Progress.follow, hzero]
      exact hfront.move_zero c.key

variable {solver : Solver M S} {maxSolutions : Value} {tree : Tree} {state : S}
  {overrides : Option Settings.Overrides} {source : Draws} {s : Setup M S}
  {visits : List (Progress M)}

theorem Reaches.stays
    (h : solver.Reaches maxSolutions tree state overrides source j s visits p j')
    (hwidth : s.ctx.width ≤ 3) (hnever : s.ctx.settings.retryIterations = 0) :
    p.board = s.board ∧ ∀ v ∈ visits, v.board = s.board := by
  obtain ⟨hboard, -⟩ := h.setting
  have hfront := Board.ofTree_atFront hboard
  obtain ⟨j₁, p₀, j₂, -, hstart, hcourse⟩ := h
  refine hcourse.invariant (I := fun v => v.board = s.board) ?_ ?_ (coherent_of_start hstart).2
  · intro i p q j j' hp hr
    rw [restart_of_never hnever hr]
    exact hp
  · intro i p q j j' hp ha
    rw [attempt_stays hwidth (hp ▸ hfront) ha]
    exact hp

theorem Reaches.solutions_of_narrow
    (h : solver.Reaches maxSolutions tree state overrides source j s visits p j')
    (hwidth : s.ctx.width ≤ 3) (hnever : s.ctx.settings.retryIterations = 0) {a : Assignment}
    {m : M} (ha : s.board.assignment = .ok a) (hm : solver.factory a = .ok m) :
    p.solutions = if visits ≠ [] ∧ solver.solves state a = true then [⟨a, m⟩] else [] := by
  obtain ⟨-, hevaluator, hstate, -, hfactory⟩ := h.setting
  obtain ⟨-, hcoherent⟩ := h.coherent
  obtain ⟨-, hboards⟩ := h.stays hwidth hnever
  have hsame : ∀ v ∈ visits, v.assignment = a ∧ v.model = m := by
    intro v hv
    have hassignment := (hcoherent v hv).assignment
    have hmodel := (hcoherent v hv).model
    rw [hboards v hv, ha] at hassignment
    cases hassignment
    rw [hfactory, hm] at hmodel
    cases hmodel
    exact ⟨rfl, rfl⟩
  have hsolves : solver.solves state a = s.ctx.evaluator.accepts m s.ctx.state := by
    rw [solves, hm, hevaluator, hstate]
  rw [h.records.1, Context.foldl_recordVisit_of_one hsame, hsolves]

theorem Reaches.length_visits_of_narrow
    (h : solver.Reaches maxSolutions tree state overrides source j s visits p j')
    (hwidth : s.ctx.width ≤ 3) (hnever : s.ctx.settings.retryIterations = 0) {a : Assignment}
    {m : M} (ha : s.board.assignment = .ok a) (hm : solver.factory a = .ok m)
    (hlimit : 0 < s.limit) (hend : visits.length = s.budget ∨ s.limit ≤ p.solutions.length) :
    visits.length =
      if solver.solves state a = true ∧ s.limit = 1 then min 1 s.budget else s.budget := by
  have hsolutions := h.solutions_of_narrow hwidth hnever ha hm
  obtain ⟨hwithin, -, -⟩ := h.within hlimit.le
  by_cases hone : solver.solves state a = true ∧ s.limit = 1
  · rw [if_pos hone]
    by_cases hnil : visits = []
    · simp only [hnil, ne_eq, not_true_eq_false, false_and, if_false] at hsolutions
      simp only [hnil, hsolutions, List.length_nil] at hend ⊢
      omega
    · rw [if_pos ⟨hnil, hone.1⟩] at hsolutions
      have henough : s.limit ≤ p.solutions.length := by simp [hsolutions, hone.2]
      obtain ⟨before, p₁, j₁, hbefore, hvisits, hlength, -⟩ := h.exists_last hlimit henough
      -- an earlier iteration would have recorded the assignment already
      have hfirst : before = [] := by
        by_contra hne
        have hearlier := hbefore.solutions_of_narrow hwidth hnever ha hm
        rw [if_pos ⟨hne, hone.1⟩] at hearlier
        simp [hsolutions, hearlier] at hlength
      simp only [hfirst, List.length_nil] at hvisits
      omega
  · rw [if_neg hone]
    apply hend.resolve_right
    intro henough
    rw [hsolutions] at henough
    split_ifs at henough with hrecorded
    · have hsingle : s.limit = 1 := by
        simp only [List.length_singleton] at henough
        omega
      exact hone ⟨hrecorded.2, hsingle⟩
    · simp only [List.length_nil] at henough
      omega

/-- In a window of width 3 or less and without restarts every cursor stays at its preferred place
0. So a search gives the preferred assignment or nothing: it gives it exactly if there is an
iteration and the assignment solves. It ends early only if that is all it was asked for. -/
theorem solve_of_narrow_window {c : Settings} {board : Board} {k : Int} {o : Outcome M}
    (hc : (solver.settings.merged overrides).2 = .ok c)
    (hboard : Board.ofTree tree true = .ok board) (hk : maxSolutions.toInteger = .ok k)
    (hnarrow : c.windowWidth board.largest ≤ 3) (hnever : c.retryIterations = 0)
    (h : solver.solve maxSolutions tree state overrides source j = .ok o j') :
    ∃ a, tree.Prefers a ∧
      (∀ s visits p j₁, solver.Reaches maxSolutions tree state overrides source j s visits p j₁ →
        p.board.AtFront ∧ ∀ v ∈ visits, v.board.AtFront) ∧
      o.assignments =
        (if 0 < c.maxIterations ∧ solver.solves state a = true then [a] else []) ∧
      o.iterations = if solver.solves state a = true ∧ k ≤ 1 then min 1 c.maxIterations.toNat
        else c.maxIterations.toNat := by
  have hfront := Board.ofTree_atFront hboard
  obtain ⟨s, visits, p, j₁, hreaches, hend, rfl, -⟩ := solve_eq_ok h
  have hsettled := hreaches.settled_as hc hboard hk
  subst hsettled
  have hcoherent := hreaches.coherent.1
  have hstays : p.board = board := (hreaches.stays hnarrow hnever).1
  have ha : board.assignment = .ok p.assignment := hstays ▸ hcoherent.assignment
  have hm : solver.factory p.assignment = .ok p.model := hcoherent.model
  have hpositive : 0 < max 1 k := by omega
  have hsolutions := hreaches.solutions_of_narrow hnarrow hnever ha hm
  have hiterations : p.iterations = visits.length := hreaches.records.2
  have hvisits := hreaches.length_visits_of_narrow hnarrow hnever ha hm hpositive hend
  simp only [Setup.budget] at hvisits
  refine ⟨p.assignment, Board.ofTree_prefers hboard ha, ?_, ?_, ?_⟩
  · intro s visits' p' j' hreaches'
    have hsettled := hreaches'.settled_as hc hboard hk
    subst hsettled
    obtain ⟨hboard', hvisits'⟩ := hreaches'.stays hnarrow hnever
    exact ⟨hboard' ▸ hfront, fun v hv => hvisits' v hv ▸ hfront⟩
  · have hsome : visits ≠ [] ↔ 0 < c.maxIterations := by
      rw [← List.length_pos_iff_ne_nil, hvisits]
      split_ifs <;> omega
    simp only [Outcome.assignments, hsolutions, hsome]
    split_ifs <;> rfl
  · have hone : max 1 k = 1 ↔ k ≤ 1 := by omega
    simp only [hiterations, hvisits, hone]

def ratedTree : Tree := .branch
  [(.str "a", .leaf { choices := .listed [.float (.nan 7), .int 1, .bool true] }),
   (.str "b", .branch [(.str "c", .leaf { choices := .distinct [.int 0, .int 1], rating := .ok })])]

def narrowSolver : Solver Value Unit :=
  { mixedSolver with settings :=
      { maxIterations? := some 12, retryIterations? := some 0, lookAhead? := some (some 3) } }

theorem narrowSolver_gives_preferred : ∃ o j' a,
    narrowSolver.solve (.int 5) ratedTree () none alternating {} = .ok o j' ∧
      ratedTree.Prefers a ∧ o.assignments = [a] ∧ o.iterations = 12 := by
  have hone : (Search.result? (narrowSolver.solve (.int 5) ratedTree () none alternating {})).map
      (·.assignments.length) = some 1 := by decide +kernel
  obtain ⟨o, j', hsolve, hlength⟩ := Search.map_result?_eq_some.1 hone
  obtain ⟨s, visits, p, j₁, hreaches, -⟩ := solve_eq_ok hsolve
  have hboard := hreaches.setting.1
  have hc : (narrowSolver.settings.merged none).2 = .ok narrowSolver.settings := rfl
  have hk : (Value.int 5).toInteger = .ok 5 := rfl
  have hnarrow : narrowSolver.settings.windowWidth s.board.largest ≤ 3 := le_rfl
  obtain ⟨a, hprefers, -, hassignments, hiterations⟩ :=
    solve_of_narrow_window hc hboard hk hnarrow rfl hsolve
  refine ⟨o, j', a, hsolve, hprefers, ?_, ?_⟩
  · split_ifs at hassignments
    · exact hassignments
    · rw [hassignments] at hlength
      cases hlength
  · have hbudget : narrowSolver.settings.maxIterations.toNat = 12 := rfl
    simpa [hbudget] using hiterations

end Solver

end MinConflicts
