import MinConflicts.Proofs.Boundaries
import MinConflicts.Proofs.Counts
import MinConflicts.Proofs.Tallies

/-!
# The order of registration

Two systems hold the same constraints if one becomes the other by reordering and renaming. On a
model where every predicate answers they give the same count, and their reports have the same
entries, maybe in another order. A search brings the influence of its paths into the order of its
board before it draws a path, so it cannot tell the systems apart.
-/
namespace MinConflicts

variable {M S : Type}

namespace ConstraintSystem

variable {cs cs' : ConstraintSystem M S} {model : M} {state : S}

/-- The systems hold the same constraints, in any order and under any names. -/
def Reorders (cs cs' : ConstraintSystem M S) : Prop :=
  (cs.constraints.map Constraint.unnamed).Perm (cs'.constraints.map Constraint.unnamed)

theorem Reorders.answers (h : cs.Reorders cs') (hcs : cs.Answers model state) :
    cs'.Answers model state := by
  intro c hc
  have hunnamed : c.unnamed ∈ cs.constraints.map Constraint.unnamed :=
    h.mem_iff.2 (List.mem_map_of_mem hc)
  obtain ⟨d, hd, hdc⟩ := List.mem_map.1 hunnamed
  have hpredicate := congrArg Constraint.predicate hdc
  change d.predicate = c.predicate at hpredicate
  rw [← hpredicate]
  exact hcs d hd

theorem Reorders.violated_perm (h : cs.Reorders cs') (model : M) (state : S) :
    ((cs.constraints.filter (·.isViolated model state)).map Constraint.unnamed).Perm
      ((cs'.constraints.filter (·.isViolated model state)).map Constraint.unnamed) := by
  have hfilter := h.filter (·.isViolated model state)
  rwa [List.filter_map, List.filter_map] at hfilter

theorem Reorders.count_eq (h : cs.Reorders cs') (hcs : cs.Answers model state) :
    cs.count model state = cs'.count model state := by
  have hlength := (h.violated_perm model state).length_eq
  simp only [List.length_map] at hlength
  simp only [count, hcs.violated, (h.answers hcs).violated]
  exact congrArg Except.ok hlength

def blamed (cs : ConstraintSystem M S) (model : M) (state : S) : List String :=
  (cs.constraints.filter (·.isViolated model state)).flatMap (·.paths)

theorem Reorders.blamed_perm (h : cs.Reorders cs') (model : M) (state : S) :
    (cs.blamed model state).Perm (cs'.blamed model state) := by
  have hpaths := (h.violated_perm model state).flatMap_right (·.paths)
  simpa only [blamed, List.flatMap_map, Constraint.unnamed] using hpaths

def reportOn (paths : List String) : Table Value :=
  (paths.foldl tally Table.empty).map fun (n : Nat) => .int n

theorem Answers.report (h : cs.Answers model state) :
    cs.evaluator.report model state = .ok (some (reportOn (cs.blamed model state))) := by
  simp only [evaluator, statistics, h.violated]
  rfl

theorem nodup_keys_reportOn (paths : List String) : (reportOn paths).keys.Nodup := by
  rw [reportOn, Table.keys_map]
  exact nodup_keys_foldl_tally paths .nil

theorem get?_reportOn (paths : List String) (path : String) :
    (reportOn paths).get? path =
      if path ∈ paths then some (.int (paths.count path)) else none := by
  rw [reportOn, Table.get?_map, get?_foldl_tally]
  split_ifs
  · simp [Table.empty, Table.get?, Table.lookup?]
  · rfl

theorem checked_of_mem_reportOn {paths : List String} {e : String × Value}
    (h : e ∈ (reportOn paths).entries) : checkedCount (influenceName e.1) e.2 = .ok e.2 ∨
      checkedCount (influenceName e.1) e.2 = .error .overflow := by
  obtain ⟨d, -, rfl⟩ := List.mem_map.1 h
  exact (checkedCount_natCast d.2).imp (fun hok => hok _) (fun herror => herror _)

theorem get?_reportOn_of_perm {paths paths' : List String} (h : paths.Perm paths')
    (path : String) : (reportOn paths').get? path = (reportOn paths).get? path := by
  simp only [get?_reportOn, h.mem_iff, h.count_eq]

theorem checked_reportOn_of_perm {paths paths' : List String} (h : paths.Perm paths') :
    Fault.InStep (fun t t' => ∀ path, t'.get? path = t.get? path)
      ((reportOn paths).mapM fun path v => checkedCount (influenceName path) v)
      ((reportOn paths').mapM fun path v => checkedCount (influenceName path) v) := by
  have hget := get?_reportOn_of_perm h
  have hmem : ∀ e, e ∈ (reportOn paths').entries ↔ e ∈ (reportOn paths).entries := by
    intro e
    rw [Table.mem_entries_iff (nodup_keys_reportOn paths'),
      Table.mem_entries_iff (nodup_keys_reportOn paths), hget]
  by_cases hpass : ∀ e ∈ (reportOn paths).entries, checkedCount (influenceName e.1) e.2 = .ok e.2
  · rw [Table.mapM_eq_self hpass, Table.mapM_eq_self fun e he => hpass e ((hmem e).1 he)]
    exact .ok hget
  · -- the same count is refused in both, and any other one that is refused gives the same fault
    obtain ⟨e, he, hfails⟩ : ∃ e ∈ (reportOn paths).entries,
        checkedCount (influenceName e.1) e.2 ≠ .ok e.2 := by simpa using hpass
    have hcases : ∀ d ∈ (reportOn paths).entries,
        (∃ b, checkedCount (influenceName d.1) d.2 = .ok b) ∨
          checkedCount (influenceName d.1) d.2 = .error .overflow :=
      fun d hd => (checked_of_mem_reportOn hd).imp_left fun hok => ⟨_, hok⟩
    have hrefused : checkedCount (influenceName e.1) e.2 = .error .overflow :=
      (checked_of_mem_reportOn he).resolve_left hfails
    rw [Table.mapM_eq_error hcases ⟨e, he, hrefused⟩,
      Table.mapM_eq_error (fun d hd => hcases d ((hmem d).1 hd)) ⟨e, (hmem e).2 he, hrefused⟩]
    exact .error _

theorem Reorders.influence_inStep (h : cs.Reorders cs') (hcs : cs.Answers model state) :
    Fault.InStep (fun t t' => ∀ path, t'.get? path = t.get? path)
      (cs.evaluator.influence model state) (cs'.evaluator.influence model state) := by
  simp only [Evaluator.influence, hcs.report, (h.answers hcs).report]
  exact checked_reportOn_of_perm (h.blamed_perm model state)

theorem Reorders.echoes (h : cs.Reorders cs') {factory : Assignment → Except Fault M}
    {board : Board}
    (hcs : ∀ a m, board.Offers a → factory a = .ok m → cs.Answers m state) :
    Echoes id board factory cs.evaluator state factory cs'.evaluator state where
  builds := (Echoes.refl board factory cs.evaluator state).builds
  counts a m ha hm := by
    simp only [Evaluator.checked, evaluator, h.count_eq (hcs a m ha hm), id_eq]
  weighs a m ha hm := by
    refine (h.influence_inStep (hcs a m ha hm)).mono fun t t' hget => ?_
    simp only [Context.keyWeights, hget]

end ConstraintSystem

namespace Solver

/-- The order in which constraints were registered, and their names, are nothing to a search whose
predicates answer on every model that the tree leads to: whatever is drawn, both systems lead to
the same outcome after the same number of draws, or to the same fault. -/
theorem solve_lockstep_of_reorders {cs cs' : ConstraintSystem M S}
    {factory : Assignment → Except Fault M} {tree : Tree} {state : S} (settings : Settings)
    (maxSolutions : Value) (overrides : Option Settings.Overrides) (source : Draws)
    (h : cs.Reorders cs')
    (hcs : ∀ a m, tree.Offers a → factory a = .ok m → cs.Answers m state) :
    Search.Lockstep (· = ·)
      ((⟨cs.evaluator, settings, factory⟩ : Solver M S).solve maxSolutions tree state overrides
        source)
      ((⟨cs'.evaluator, settings, factory⟩ : Solver M S).solve maxSolutions tree state overrides
        source) := by
  have hechoes : ∀ board, Board.ofTree tree true = .ok board →
      Echoes id board factory cs.evaluator state factory cs'.evaluator state := by
    intro board hboard
    exact h.echoes fun a m ha hm => hcs a m (ha.tree hboard) hm
  refine (solve_lockstep hechoes).mono ?_
  intro o o' ho
  rw [ho, Outcome.map_id]

def unitSystem : ConstraintSystem Value Unit :=
  ⟨[⟨fun model _ => model.getPath "b.c", ["b.c"], "positive"⟩,
    ⟨fun model _ => do return .bool ((← model.getPath "a").eq (← model.getPath "b.c")),
      ["a", "b.c"], "equal"⟩]⟩

def reversedUnitSystem : ConstraintSystem Value Unit :=
  ⟨unitSystem.constraints.reverse.map fun c => { c with name := "constraint_" ++ c.name }⟩

theorem unitSystem_reorders : unitSystem.Reorders reversedUnitSystem :=
  .swap _ _ []

theorem unitSystem_answers {a : Assignment} {m : Value} (h : mixedTree.Offers a)
    (hm : mixedSolver.factory a = .ok m) : unitSystem.Answers m () := by
  obtain ⟨v, w, rfl, -⟩ := eq_of_mixedTree_offers h
  have hmodel : m = .dict [(.str "a", v), (.str "b", .dict [(.str "c", w)])] :=
    (Except.ok.inj hm).symm.trans (mixed_nested v w)
  subst hmodel
  intro c hc
  rcases List.mem_pair.1 hc with rfl | rfl
  · exact ⟨w, rfl⟩
  · exact ⟨.bool (v.eq w), rfl⟩

theorem unit_same_when_reversed : ∃ o j₁ j₂,
    Solver.solve { mixedSolver with evaluator := unitSystem.evaluator } (.int 5) mixedTree ()
        none alternating {} = .ok o j₁ ∧
      Solver.solve { mixedSolver with evaluator := reversedUnitSystem.evaluator } (.int 5)
        mixedTree () none alternating {} = .ok o j₂ ∧
      j₁.draws = j₂.draws ∧ o.solutions.length = 1 := by
  have hone : (Search.result? (Solver.solve
      { mixedSolver with evaluator := unitSystem.evaluator } (.int 5) mixedTree () none
        alternating {})).map (·.solutions.length) = some 1 := by decide +kernel
  obtain ⟨o, j₁, hsolve, hlength⟩ := Search.map_result?_eq_some.1 hone
  have hlockstep := solve_lockstep_of_reorders mixedSolver.settings (.int 5) none alternating
    unitSystem_reorders fun a m => unitSystem_answers
  obtain ⟨o', j₂, hsolve', rfl, hdraws⟩ := hlockstep.exists_ok hsolve {} rfl
  exact ⟨o, j₁, j₂, hsolve, hsolve', hdraws, hlength⟩

end Solver

end MinConflicts
