import MinConflicts.Proofs.Chronicles
import MinConflicts.Proofs.FirstSolutions
import MinConflicts.Proofs.Totality

/-!
# The log of a search

A search notes its start, what its iterations have to tell and its end. The log has a record for
each restart and for each solution. It tells of the progress after every thousandth iteration
exactly if no solution was recorded in such an iteration.
-/
namespace MinConflicts

variable {M S : Type}

namespace Settings

theorem channel_of_warnings {v : Value} {r : Log.Record} (h : r ∈ warnings v) :
    r.channel = Log.base ++ ".config" := by
  unfold warnings at h
  split at h
  · dsimp only at h
    split_ifs at h
    · cases h
    · rw [List.mem_singleton.1 h]
  · cases h

theorem onChannel_merged (c : Settings) (overrides : Option Overrides) :
    Log.onChannel Log.searchChannel (c.merged overrides).1 = [] := by
  refine List.filter_eq_nil_iff.2 fun r hr => ?_
  have hchannel : r.channel = Log.base ++ ".config" := by
    unfold merged at hr
    split at hr
    · cases hr
    · cases hr
    · split at hr
      · cases hr
      · exact channel_of_warnings hr
  rw [hchannel]
  decide

end Settings

def Setup.startRecord (s : Setup M S) : Log.Record :=
  ⟨.info, Log.searchChannel, Solver.startText s.board.size s.limit s.ctx.width s.ctx.settings⟩

def Outcome.finishRecord (o : Outcome M) : Log.Record :=
  ⟨.info, Log.searchChannel, Solver.finishText o.solutions.length o.iterations o.restarts⟩

namespace Solver

variable {solver : Solver M S} {maxSolutions : Value} {tree : Tree} {state : S}
  {overrides : Option Settings.Overrides} {source : Draws} {j j' : Journal M}

theorem setup_notes {s : Setup M S}
    (h : solver.setup maxSolutions tree state overrides source j = .ok s j') :
    j'.records = j.records ++ (solver.settings.merged overrides).1 := by
  obtain ⟨c, j₁, hlogged, h⟩ := Search.bind_eq_ok.1 h
  obtain ⟨board, j₂, hboard, h⟩ := Search.bind_eq_ok.1 h
  obtain ⟨-, rfl⟩ := Search.lift_eq_ok.1 hboard
  obtain ⟨k, j₃, hk, h⟩ := Search.bind_eq_ok.1 h
  obtain ⟨-, rfl⟩ := Search.lift_eq_ok.1 hk
  obtain ⟨-, rfl⟩ := Search.pure_eq_ok.1 h
  exact logged_records hlogged

theorem exists_chronicle {o : Outcome M}
    (h : solver.solve maxSolutions tree state overrides source j = .ok o j') :
    ∃ s j₁ p j₂ its q j₃, solver.setup maxSolutions tree state overrides source j = .ok s j₁ ∧
      s.start j₁ = .ok p j₂ ∧ Chronicle s.ctx 0 p j₂ its q j₃ ∧ its.length ≤ s.budget ∧
      (its.length = s.budget ∨ s.limit ≤ q.solutions.length) ∧
      o = ⟨s.board.keys, q.solutions, q.iterations, q.restarts⟩ ∧
      j'.records = j.records ++ (solver.settings.merged overrides).1 ++
        s.startRecord :: (its.flatMap Iteration.records ++ [o.finishRecord]) := by
  obtain ⟨s, visits, q, j₃, hreaches, hend, rfl, hfinish⟩ := solve_eq_ok h
  obtain ⟨j₁, p, j₂, hsetup, hstart, hcourse⟩ := hreaches
  have hwithin := hcourse.add_length_le (Nat.zero_le _)
  obtain ⟨its, rfl, hchronicle⟩ := hcourse.exists_chronicle
  rw [Nat.zero_add, List.length_map] at hwithin
  rw [List.length_map] at hend
  obtain ⟨a, m, -, -, hp, hfirst⟩ := Setup.start_eq_ok hstart
  refine ⟨s, j₁, p, j₂, its, q, j₃, hsetup, hstart, hchronicle, hwithin, hend, rfl, ?_⟩
  rw [note_records hfinish, hchronicle.notes (by rw [hp]), note_records hfirst,
    setup_notes hsetup]
  simp only [List.append_assoc, List.singleton_append]
  rfl

theorem Chronicle.counts_of_start {s : Setup M S} {p q : Progress M} {j₁ j₂ j₃ : Journal M}
    {its : List (Iteration M)} (hstart : s.start j₁ = .ok p j₂)
    (h : Chronicle s.ctx 0 p j₂ its q j₃) : q.iterations = its.length ∧
      (its.flatMap Iteration.restartRecords).length = q.restarts ∧
      (its.flatMap Iteration.solutionRecords).length = q.solutions.length ∧
      (its.flatMap Iteration.progressRecords).length + its.countP Iteration.unreported =
        q.iterations / progressInterval := by
  obtain ⟨a, m, -, -, rfl, -⟩ := Setup.start_eq_ok hstart
  obtain ⟨hiterations, hrestarts, hsolutions, hprogress⟩ := h.counts
  simp only [Nat.zero_add, Nat.zero_div, List.length_nil]
    at hiterations hrestarts hsolutions hprogress
  refine ⟨hiterations, hrestarts.symm, hsolutions.symm, ?_⟩
  rw [hprogress]
  exact (Iteration.length_flatMap_of_unreported Iteration.length_dueProgress its).symm

theorem onChannel_searchRecords (s : Setup M S) (its : List (Iteration M)) (o : Outcome M) :
    Log.onChannel Log.searchChannel
        (s.startRecord :: (its.flatMap Iteration.records ++ [o.finishRecord])) =
      s.startRecord :: (its.flatMap Iteration.records ++ [o.finishRecord]) := by
  refine Log.onChannel_eq_self fun r hr => ?_
  simp only [List.mem_cons, List.mem_append, List.mem_flatMap, List.not_mem_nil, or_false] at hr
  rcases hr with rfl | ⟨it, -, hr⟩ | rfl
  · rfl
  · exact Iteration.channel_of_mem_records hr
  · rfl

/-- The log of a search that gives an outcome: what the start, the iterations one after another
and the end have to tell, with one record for each restart and for each solution. Of the progress
that is due after every thousandth iteration, that of an iteration which records a solution is
left out, and nothing else. -/
theorem solve_log {o : Outcome M}
    (h : solver.solve maxSolutions tree state overrides source j = .ok o j') :
    ∃ s j₁ p j₂ its q j₃ news,
      solver.setup maxSolutions tree state overrides source j = .ok s j₁ ∧
      s.start j₁ = .ok p j₂ ∧ Chronicle s.ctx 0 p j₂ its q j₃ ∧
      (its.length = s.budget ∨ s.limit ≤ q.solutions.length) ∧
      o = ⟨s.board.keys, q.solutions, q.iterations, q.restarts⟩ ∧ o.iterations = its.length ∧
      j'.records = j.records ++ news ∧
      Log.onChannel Log.searchChannel (Log.atLeast .debug news) =
        s.startRecord :: (its.flatMap Iteration.records ++ [o.finishRecord]) ∧
      (its.flatMap Iteration.records = its.flatMap Iteration.allRecords ↔
        ∀ it ∈ its, it.unreported = false) ∧
      (its.flatMap Iteration.restartRecords).length = o.restarts ∧
      (its.flatMap Iteration.solutionRecords).length = o.solutions.length ∧
      (its.flatMap Iteration.progressRecords).length + its.countP Iteration.unreported =
        o.iterations / progressInterval := by
  obtain ⟨s, j₁, p, j₂, its, q, j₃, hsetup, hstart, hchronicle, -, hend, rfl, hrecords⟩ :=
    exists_chronicle h
  obtain ⟨hiterations, hrestarts, hsolutions, hprogress⟩ := hchronicle.counts_of_start hstart
  rw [List.append_assoc] at hrecords
  refine ⟨s, j₁, p, j₂, its, q, j₃, _, hsetup, hstart, hchronicle, hend, rfl, hiterations,
    hrecords, ?_, Iteration.flatMap_records_eq_iff its, hrestarts, hsolutions, hprogress⟩
  rw [Log.atLeast_debug, Log.onChannel_append, Settings.onChannel_merged, List.nil_append,
    onChannel_searchRecords]

theorem mixed_log : ∃ o j',
    mixedSolver.solve (.int 5) mixedTree () none alternating {} = .ok o j' ∧
      o.restarts = 3 ∧ o.solutions.length = 2 ∧
      (Log.onChannel Log.searchChannel (Log.atLeast .debug j'.records)).length = 7 := by
  have hrun : (Search.result? (mixedSolver.solve (.int 5) mixedTree () none alternating {})).map
      (fun o => (o.iterations, o.restarts, o.solutions.length)) = some (12, 3, 2) := by
    decide +kernel
  obtain ⟨o, j', hsolve, hcounts⟩ := Search.map_result?_eq_some.1 hrun
  simp only [Prod.mk.injEq] at hcounts
  obtain ⟨htwelve, hthree, htwo⟩ := hcounts
  obtain ⟨_, _, _, _, its, _, _, news, -, -, -, -, -, -, hnews, hlog, -, hrestarts, hsolutions,
    hprogress⟩ := solve_log hsolve
  have hall : j'.records = news := hnews
  have hnone : o.iterations / progressInterval = 0 := by
    rw [htwelve]
    rfl
  refine ⟨o, j', hsolve, hthree, htwo, ?_⟩
  rw [hall, hlog, List.length_cons, List.length_append, Iteration.length_flatMap_records,
    List.length_singleton]
  omega

def lateTree : Tree := .branch
  [(.str "a", .leaf { choices := .distinct [.int 0, .int 1] })]

def lateBoard (index : Int) : Board :=
  ⟨[("a", ⟨index, [⟨.int 0, .ofNat 1⟩, ⟨.int 1, .ofNat 1⟩], 0⟩)]⟩

def lateAssignment (v : Value) : Assignment := ⟨[("a", v)]⟩

def lateEvaluator : Evaluator Assignment Unit where
  count a _ := .ok (.int (if a.same (lateAssignment (.int 1)) then 0 else 1))
  report _ _ := .ok none

def lateSettings : Settings where
  maxIterations? := some 1000
  retryIterations? := some 999
  lookAhead? := some (some 0)

/-- No move leads from the first assignment to the solution, and the only restart is due in the last
of the thousand iterations. -/
def lateSolver : Solver Assignment Unit := ⟨lateEvaluator, lateSettings, .ok⟩

def half : Draws := fun _ => .ofRatio false 1 2

theorem half_inUnit (k : Nat) : (half k).InUnit := by
  unfold half
  decide

theorem lateBoard_ofTree : Board.ofTree lateTree true = .ok (lateBoard 0) := rfl

def lateContext : Context Assignment Unit := ⟨lateEvaluator, (), lateSettings, half, .ok, 0⟩

def lateSetup : Setup Assignment Unit := ⟨lateContext, lateBoard 0, 1⟩

def lateStart : Progress Assignment where
  board := lateBoard 0
  assignment := lateAssignment (.int 0)
  model := lateAssignment (.int 0)

theorem late_answersCounts (a : Assignment) : lateEvaluator.AnswersCounts a () := by
  refine ⟨⟨_, rfl, ?_⟩, none, rfl, by simp [Table.values, Table.empty]⟩
  split_ifs
  · exact Value.isCount_zero
  · exact ⟨1, rfl, by decide, by decide⟩

theorem late_succeeds :
    ∃ o j', lateSolver.solve (.int 1) lateTree () none half {} = .ok o j' := by
  obtain ⟨j₁, hsetup⟩ : ∃ j₁, lateSolver.setup (.int 1) lateTree () none half {} =
      .ok lateSetup j₁ :=
    exists_setup (c := lateSettings) (k := 1) rfl lateBoard_ofTree rfl () half {}
  have hdependable : lateSetup.ctx.Dependable lateSetup.board := {
    draws := half_inUnit
    paths := by decide
    sizes := by
      intro e he
      rw [List.mem_singleton.1 he]
      decide
    nodup := Board.ofTree_keys_nodup lateBoard_ofTree
    furnished := Board.ofTree_furnished lateBoard_ofTree
    answers := fun a _ => ⟨a, rfl, late_answersCounts a⟩ }
  obtain ⟨o, j', hsearch⟩ :=
    Setup.search_succeeds hdependable (Board.ofTree_inRange lateBoard_ofTree) j₁
  exact ⟨o, j', Search.bind_eq_ok.2 ⟨lateSetup, j₁, hsetup, hsearch⟩⟩

theorem eq_lateSetup {s : Setup Assignment Unit} {j j' : Journal Assignment}
    (h : lateSolver.setup (.int 1) lateTree () none half j = .ok s j') : s = lateSetup := by
  obtain ⟨c, k, hc, hboard, hk, hlimit, hctx⟩ := setup_eq_ok h
  cases hc
  cases hk
  obtain ⟨ctx, board, limit⟩ := s
  cases lateBoard_ofTree.symm.trans hboard
  dsimp only at hctx hlimit
  rw [hctx, hlimit]
  rfl

theorem eq_lateStart {p : Progress Assignment} {j j' : Journal Assignment}
    (h : lateSetup.start j = .ok p j') : p = lateStart := by
  obtain ⟨a, m, ha, hm, rfl, -⟩ := Setup.start_eq_ok h
  cases ha
  cases hm
  rfl

theorem half_position (k : Nat) : position (half k) 2 = .ok 1 := rfl

theorem late_randomize {b : Board} {j j' : Journal Assignment}
    (h : (lateBoard 0).randomize half j = .ok b j') : b = lateBoard 1 := by
  obtain ⟨entries⟩ := b
  cases Board.randomize_eq_ok h with
  | @cons _ e _ _ hcursor hrest =>
    cases hrest
    obtain ⟨path, c⟩ := e
    obtain ⟨rfl, k, i, hi, rfl⟩ := hcursor
    cases (half_position k).symm.trans hi
    rfl

theorem late_restart {p q : Progress Assignment} {j j' : Journal Assignment}
    (hp : p.board = lateBoard 0) (h : restart lateContext 999 p j = .ok q j') :
    q.assignment = lateAssignment (.int 1) ∧ q.model = lateAssignment (.int 1) := by
  rcases restart_cases h with ⟨hundue, -⟩ | ⟨-, b, j₁, p₁, hb, hp₁, rfl, -⟩
  · cases hundue
  · rw [hp] at hb
    obtain rfl := late_randomize hb
    obtain ⟨a, m, ha, hm, rfl⟩ := Progress.place_eq_ok.1 hp₁
    cases ha
    cases hm
    exact ⟨rfl, rfl⟩

theorem late_restartDue {k : Nat} (hk : k < 999) : restartDue lateSettings k = false := by
  rw [Bool.eq_false_iff, Ne, restartDue_iff]
  intro hdue
  obtain ⟨-, hpositive, hdvd⟩ := hdue
  exact absurd (Nat.le_of_dvd hpositive hdvd) (Nat.not_le.2 hk)

theorem late_waits {its : List (Iteration Assignment)} {q : Progress Assignment}
    {j j' : Journal Assignment} (h : Chronicle lateContext 0 lateStart j its q j')
    (hshort : its.length ≤ 999) : q = { lateStart with iterations := its.length } := by
  have hrejected : lateEvaluator.accepts lateStart.model () = false := by decide
  have hq := h.waits (by decide) hrejected fun k _ hk => late_restartDue (by omega)
  rwa [show lateStart.iterations = 0 from rfl, Nat.zero_add] at hq

theorem late_attempt {p v q : Progress Assignment} {j j₁ j' : Journal Assignment}
    (hp : p = { lateStart with iterations := 999 })
    (hrestart : restart lateContext 999 p j = .ok v j₁)
    (hattempt : attempt lateContext 999 v j₁ = .ok q j') :
    q.restarts = 1 ∧ q.solutions.length = 1 ∧
      (⟨p, v, q⟩ : Iteration Assignment).unreported = true := by
  obtain ⟨hassignment, hmodel⟩ := late_restart (congrArg Progress.board hp) hrestart
  obtain ⟨hsolutions, hiterations⟩ := restart_keeps hrestart
  obtain ⟨hrecords, hnext⟩ := attempt_records hattempt
  have hnone : v.solutions = [] := hsolutions.trans (congrArg Progress.solutions hp)
  have hfound : q.solutions = [⟨v.assignment, v.model⟩] := by
    rw [hrecords, hnone, Context.recordVisit, hmodel]
    rfl
  have hthousandth : q.iterations = 1000 := by rw [hnext, hiterations, hp]
  refine ⟨?_, by rw [hfound, List.length_singleton], ?_⟩
  · rw [attempt_restarts hattempt, restart_restarts hrestart, hp]
    rfl
  · simp [Iteration.unreported, Iteration.progressDue, Iteration.recorded, hnone, hfound,
      hthousandth, progressInterval]

theorem late_unreported {its : List (Iteration Assignment)} {q : Progress Assignment}
    {j j' : Journal Assignment} (h : Chronicle lateContext 0 lateStart j its q j')
    (hbudget : its.length ≤ 1000) (hend : its.length = 1000 ∨ 1 ≤ q.solutions.length) :
    its.length = 1000 ∧ q.restarts = 1 ∧ q.solutions.length = 1 ∧
      ∃ it ∈ its, it.unreported = true := by
  have hlength : its.length = 1000 := by
    by_contra hne
    -- with fewer iterations the search still stands at its start, where nothing is recorded
    rw [late_waits h (by omega)] at hend
    exact hend.elim hne (Nat.not_succ_le_zero 0)
  refine ⟨hlength, ?_⟩
  have hbefore : (its.take 999).length = 999 := by simp [hlength]
  obtain ⟨it, hit⟩ := List.length_eq_one_iff.1 (show (its.drop 999).length = 1 by simp [hlength])
  rw [← List.take_append_drop 999 its, hit] at h
  obtain ⟨r, j₁, hwaits, hlast⟩ := h.split
  have hr := late_waits hwaits (by omega)
  rw [hbefore] at hr hlast
  cases hlast with
  | step restarted attempted tail =>
    cases tail
    obtain ⟨hrestarts, hone, hunreported⟩ := late_attempt hr restarted attempted
    have hmem := List.mem_of_mem_drop (hit ▸ List.mem_singleton_self _)
    exact ⟨hrestarts, hone, _, hmem, hunreported⟩

/-- Two records go with the start and the end, one with the restart and one with the solution. One
is due for the progress after a thousand iterations, and it is missing. -/
theorem late_log_lacks_progress : ∃ o j',
    lateSolver.solve (.int 1) lateTree () none half {} = .ok o j' ∧
      o.iterations = 1000 ∧ o.restarts = 1 ∧ o.solutions.length = 1 ∧
      o.iterations / progressInterval = 1 ∧
      (Log.onChannel Log.searchChannel (Log.atLeast .debug j'.records)).length = 4 := by
  obtain ⟨o, j', hsolve⟩ := late_succeeds
  obtain ⟨s, j₁, p, j₂, its, q, j₃, hsetup, hstart, hchronicle, hwithin, hend, rfl, hrecords⟩ :=
    exists_chronicle hsolve
  obtain ⟨hiterations, hrestarted, hrecorded, hprogress⟩ := hchronicle.counts_of_start hstart
  obtain rfl := eq_lateSetup hsetup
  obtain rfl := eq_lateStart hstart
  obtain ⟨hlength, hrestarts, hone, it, hit, hunreported⟩ :=
    late_unreported hchronicle hwithin (hend.imp id Int.ofNat_le.1)
  have hmissing : 0 < its.countP Iteration.unreported :=
    List.countP_pos_iff.2 ⟨it, hit, hunreported⟩
  have hthousand : q.iterations = 1000 := hiterations.trans hlength
  have hdue : q.iterations / progressInterval = 1 := by
    rw [hthousand]
    rfl
  have hlog : (its.flatMap Iteration.records).length = 2 := by
    rw [Iteration.length_flatMap_records]
    omega
  have hall : j'.records = lateSetup.startRecord :: (its.flatMap Iteration.records ++ _) := hrecords
  refine ⟨_, j', hsolve, hthousand, hrestarts, hone, hdue, ?_⟩
  rw [hall, Log.atLeast_debug, onChannel_searchRecords, List.length_cons, List.length_append, hlog,
    List.length_singleton]

end Solver

end MinConflicts
