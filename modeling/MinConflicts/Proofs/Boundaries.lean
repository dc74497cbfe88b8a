import MinConflicts.Proofs.Mirrors

/-!
# What a search learns from outside

A search knows its evaluator only by the counts and by the influence of its own paths, on models
of assignments that the tree offers: evaluators that agree there lead to the same outcome. And it
uses its factory only to hand models to the evaluator and to its caller: searching with a factory
is searching over plain assignments, with an evaluator that builds the models itself.
-/
namespace MinConflicts

variable {M M' S : Type}

theorem Board.Offers.keys_eq {b : Board} {a : Assignment} (h : b.Offers a) : b.keys = a.keys := by
  obtain ⟨b', halike, ha⟩ := h
  exact halike.keys_eq.trans (Board.assignment_eq_ok.1 ha).keys_eq

/-- The assignment gives every flattened path a value of the domain there. -/
def Tree.Offers (t : Tree) (a : Assignment) : Prop :=
  ∃ flat, t.flatten "" = .ok flat ∧
    flat.Pointwise (fun _ d v => ∃ vs, d.values = .ok vs ∧ v ∈ vs) a

theorem Board.Offers.tree {t : Tree} {sorted : Bool} {b : Board} (hb : ofTree t sorted = .ok b)
    {a : Assignment} (h : b.Offers a) : t.Offers a := by
  obtain ⟨flat, hflat, hcursors⟩ := ofTree_eq_ok.1 hb
  exact ⟨flat, hflat, h.pointwise hcursors⟩

namespace Evaluator

/-- Both evaluators keep the contract on a model, and they give the same count and the same
influence of every path listed. A path that is not reported has the influence 0. -/
structure AgreesWith (e e' : Evaluator M S) (model : M) (state : S) (paths : List String) :
    Prop where
  counts : ∃ n, e.checked model state = .ok n ∧ e'.checked model state = .ok n
  influences : ∃ t t', e.influence model state = .ok t ∧ e'.influence model state = .ok t' ∧
    ∀ path ∈ paths, (t.get? path).getD (.int 0) = (t'.get? path).getD (.int 0)

def comap (F : M' → M) (e : Evaluator M S) : Evaluator M' S where
  count model state := e.count (F model) state
  report model state := e.report (F model) state

theorem checked_comap (F : M' → M) (e : Evaluator M S) (model : M') (state : S) :
    (e.comap F).checked model state = e.checked (F model) state := rfl

theorem influence_comap (F : M' → M) (e : Evaluator M S) (model : M') (state : S) :
    (e.comap F).influence model state = e.influence (F model) state := rfl

end Evaluator

theorem echoes_of_agreesWith {e e' : Evaluator M S} {state : S}
    {factory : Assignment → Except Fault M} {board : Board}
    (h : ∀ a m, board.Offers a → factory a = .ok m → e.AgreesWith e' m state a.keys) :
    Echoes id board factory e state factory e' state where
  builds := (Echoes.refl board factory e state).builds
  counts a m ha hm := by
    obtain ⟨n, hn, hn'⟩ := (h a m ha hm).counts
    exact hn.trans hn'.symm
  weighs a m ha hm := by
    obtain ⟨t, t', ht, ht', hpaths⟩ := (h a m ha hm).influences
    rw [id_eq, ht, ht']
    refine .ok ?_
    rw [Context.keyWeights, Context.keyWeights, Table.mk.injEq]
    refine List.map_congr_left fun path hpath => ?_
    rw [ha.keys_eq] at hpath
    rw [hpaths path hpath]

theorem echoes_comap (F : M' → M) (e : Evaluator M S) (state : S) (board : Board)
    (factory : Assignment → Except Fault M') :
    Echoes F board factory (e.comap F) state (fun a => (factory a).map F) e state where
  builds a _ := .map F (factory a)
  counts _ m _ _ := e.checked_comap F m state
  weighs _ m _ _ := by
    rw [e.influence_comap F m state]
    apply Fault.InStep.of_refl
    exact fun t => rfl

namespace Solver

/-- Evaluators that agree on the models of all assignments the tree offers are the same to a
search: whatever is drawn, both solvers give the same outcome after the same number of draws, or
fail in the same way. -/
theorem solve_lockstep_of_agreesWith {e e' : Evaluator M S}
    {factory : Assignment → Except Fault M} {tree : Tree} {state : S} (settings : Settings)
    (maxSolutions : Value) (overrides : Option Settings.Overrides) (source : Draws)
    (h : ∀ a m, tree.Offers a → factory a = .ok m → e.AgreesWith e' m state a.keys) :
    Search.Lockstep (· = ·)
      ((⟨e, settings, factory⟩ : Solver M S).solve maxSolutions tree state overrides source)
      ((⟨e', settings, factory⟩ : Solver M S).solve maxSolutions tree state overrides source) := by
  have hechoes : ∀ board, Board.ofTree tree true = .ok board →
      Echoes id board factory e state factory e' state := by
    intro board hboard
    exact echoes_of_agreesWith fun a m ha hm => h a m (ha.tree hboard) hm
  refine (solve_lockstep hechoes).mono ?_
  intro o o' ho
  rw [ho, Outcome.map_id]

def terseEvaluator : Evaluator Value Unit where
  count model _ := do
    match ← model.getPath "b.c" with
    | .int 0 => return .int 1
    | .int 1 => return .int 0
    | _ => .error .badValue
  report model _ := do
    match ← model.getPath "b.c" with
    | .int 0 => return some ⟨[("z", .int 5), ("b.c", .int 1), ("a", .int 0)]⟩
    | _ => return none

theorem eq_of_mixedTree_offers {a : Assignment} (h : mixedTree.Offers a) :
    ∃ v w, a = ⟨[("a", v), ("b.c", w)]⟩ ∧ (w = .int 0 ∨ w = .int 1) := by
  have hflatten : mixedTree.flatten "" = .ok
      ⟨[("a", { choices := .listed [.float (.nan 7), .int 1, .bool true] }),
        ("b.c", { choices := .distinct [.int 0, .int 1] })]⟩ := rfl
  obtain ⟨flat, hflat, hvalues⟩ := h
  cases hflatten.symm.trans hflat
  obtain ⟨es⟩ := a
  obtain ⟨⟨k, v⟩, es₁, ⟨rfl, -⟩, hrest, rfl⟩ := List.forall₂_cons_left_iff.1 hvalues
  obtain ⟨⟨k', w⟩, es₂, ⟨rfl, ws, hws, hw⟩, hnil, rfl⟩ := List.forall₂_cons_left_iff.1 hrest
  obtain rfl := List.forall₂_nil_left_iff.1 hnil
  have hlist : [.int 0, .int 1] = ws := Except.ok.inj hws
  rw [← hlist, List.mem_pair] at hw
  exact ⟨v, w, rfl, hw⟩

theorem mixed_nested (v w : Value) : Assignment.nested ⟨[("a", v), ("b.c", w)]⟩ =
    .dict [(.str "a", v), (.str "b", .dict [(.str "c", w)])] := by
  have ha : Path.segments "a" = ["a"] := by decide
  have hbc : Path.segments "b.c" = ["b", "c"] := by decide
  simp only [Assignment.nested, List.foldl_cons, List.foldl_nil, ha, hbc]
  rfl

theorem mixed_agreesWith {a : Assignment} {m : Value} (h : mixedTree.Offers a)
    (hm : mixedSolver.factory a = .ok m) :
    mixedSolver.evaluator.AgreesWith terseEvaluator m () a.keys := by
  obtain ⟨v, w, rfl, hw⟩ := eq_of_mixedTree_offers h
  have hmodel : m = .dict [(.str "a", v), (.str "b", .dict [(.str "c", w)])] :=
    (Except.ok.inj hm).symm.trans (mixed_nested v w)
  subst hmodel
  have hkeys : Table.keys ⟨[("a", v), ("b.c", w)]⟩ = ["a", "b.c"] := rfl
  rw [hkeys]
  rcases hw with rfl | rfl
  · exact ⟨⟨.int 1, rfl, rfl⟩, ⟨[("b.c", .int 1)]⟩,
      ⟨[("z", .int 5), ("b.c", .int 1), ("a", .int 0)]⟩, rfl, rfl,
      by simp [Table.get?, Table.lookup?]⟩
  · exact ⟨⟨.int 0, rfl, rfl⟩, ⟨[]⟩, ⟨[]⟩, rfl, rfl, fun _ _ => rfl⟩

theorem mixed_same_with_terse : ∃ o j₁ j₂,
    mixedSolver.solve (.int 5) mixedTree () none alternating {} = .ok o j₁ ∧
      Solver.solve { mixedSolver with evaluator := terseEvaluator } (.int 5) mixedTree () none
        alternating {} = .ok o j₂ ∧
      j₁.draws = j₂.draws ∧ o.solutions.length = 2 := by
  obtain ⟨o, j₁, hsolve, hlength⟩ := mixedSolver_finds_two
  have hlockstep := solve_lockstep_of_agreesWith mixedSolver.settings (.int 5) none alternating
    fun a m => mixed_agreesWith
  obtain ⟨o', j₂, hsolve', rfl, hdraws⟩ := hlockstep.exists_ok hsolve {} rfl
  exact ⟨o, j₁, j₂, hsolve, hsolve', hdraws, hlength⟩

/-- A search with a total factory `F` is the search over plain assignments whose evaluator applies
`F` first: one gives an outcome if and only if the other does, after the same number of draws,
with the same assignments, iterations and restarts and with the models that `F` builds. -/
theorem solve_lockstep_comap (F : Assignment → M) (e : Evaluator M S) (settings : Settings)
    (maxSolutions : Value) (tree : Tree) (state : S) (overrides : Option Settings.Overrides)
    (source : Draws) :
    Search.Lockstep (fun o o' => o'.paths = o.paths ∧ o'.assignments = o.assignments ∧
        o'.iterations = o.iterations ∧ o'.restarts = o.restarts ∧ o'.models = o.models.map F)
      ((⟨e.comap F, settings, .ok⟩ : Solver Assignment S).solve maxSolutions tree state overrides
        source)
      ((⟨e, settings, fun a => .ok (F a)⟩ : Solver M S).solve maxSolutions tree state overrides
        source) := by
  have hechoes : ∀ board, Board.ofTree tree true = .ok board →
      Echoes F board .ok (e.comap F) state (fun a => .ok (F a)) e state :=
    fun board _ => echoes_comap F e state board .ok
  refine (solve_lockstep hechoes).mono ?_
  intro o o' ho
  subst ho
  refine ⟨rfl, ?_, rfl, rfl, ?_⟩
  · simp [Outcome.assignments, Outcome.map, Solution.map]
  · simp [Outcome.models, Outcome.map, Solution.map]

theorem mixed_nested_from_plain : ∃ o j₁ o' j₂,
    (⟨mixedSystem.evaluator.comap Assignment.nested, mixedSolver.settings, .ok⟩ :
        Solver Assignment Unit).solve (.int 5) mixedTree () none alternating {} = .ok o j₁ ∧
      mixedSolver.solve (.int 5) mixedTree () none alternating {} = .ok o' j₂ ∧
      o.solutions.length = 2 ∧ o'.assignments = o.assignments ∧
      o'.models = o.models.map Assignment.nested ∧ j₁.draws = j₂.draws := by
  have htwo : (Search.result? ((⟨mixedSystem.evaluator.comap Assignment.nested,
      mixedSolver.settings, .ok⟩ : Solver Assignment Unit).solve (.int 5) mixedTree () none
        alternating {})).map (·.solutions.length) = some 2 := by decide +kernel
  obtain ⟨o, j₁, hplain, hlength⟩ := Search.map_result?_eq_some.1 htwo
  have hlockstep := solve_lockstep_comap Assignment.nested mixedSystem.evaluator
    mixedSolver.settings (.int 5) mixedTree () none alternating
  obtain ⟨o', j₂, hnested, ⟨-, hassignments, -, -, hmodels⟩, hdraws⟩ :=
    hlockstep.exists_ok hplain {} rfl
  exact ⟨o, j₁, o', j₂, hplain, hnested, hlength, hassignments, hmodels, hdraws⟩

end Solver

end MinConflicts
