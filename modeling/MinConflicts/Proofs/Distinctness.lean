import Mathlib.Algebra.BigOperators.Group.List.Basic
import Mathlib.Data.List.Perm.Subperm
import Mathlib.Data.List.Sections
import MinConflicts.Proofs.Soundness

/-!
# Distinct solutions

An assignment is recorded only if no recorded one is the same, so the recorded assignments are
pairwise different. Each of them picks one value of every domain, and a pick is the same as
itself even where it holds a NaN: there are at most as many as there are ways to pick.
-/
namespace MinConflicts

variable {M S : Type}

theorem pairwise_recordVisit (ctx : Context M S) {known : List (Solution M)} (v : Progress M)
    (h : known.Pairwise fun s t => s.assignment.same t.assignment = false) :
    (ctx.recordVisit known v).Pairwise fun s t => s.assignment.same t.assignment = false := by
  unfold Context.recordVisit
  split_ifs with hrecorded
  · refine List.pairwise_append.2 ⟨h, List.pairwise_singleton _ _, ?_⟩
    intro s hs t ht
    simp only [Bool.and_eq_true, Bool.not_eq_true', isKnown, List.any_eq_false] at hrecorded
    rw [List.mem_singleton.1 ht]
    simpa using hrecorded.2 s hs
  · exact h

theorem pairwise_foldl_recordVisit (ctx : Context M S) (visits : List (Progress M))
    {known : List (Solution M)}
    (h : known.Pairwise fun s t => s.assignment.same t.assignment = false) :
    (visits.foldl ctx.recordVisit known).Pairwise
      fun s t => s.assignment.same t.assignment = false := by
  induction visits generalizing known with
  | nil => exact h
  | cons v visits ih => exact ih (pairwise_recordVisit ctx v h)

theorem length_sections {α : Type} (ls : List (List α)) :
    ls.sections.length = (ls.map List.length).prod := by
  induction ls with
  | nil => rfl
  | cons l ls ih =>
    simp only [List.sections, List.length_flatMap, List.length_map, List.map_const',
      List.sum_replicate_nat, List.map_cons, List.prod_cons, ih]
    exact Nat.mul_comm _ _

def picks (listings : Table (List Value)) : List (List (String × Value)) :=
  (listings.entries.map fun e => e.2.map (e.1, ·)).sections

theorem length_picks (listings : Table (List Value)) :
    (picks listings).length = (listings.values.map List.length).prod := by
  simp [picks, length_sections, Table.values, List.map_map, Function.comp_def]

theorem exists_listings {sorted : Bool} {flat : Table Domain} {board : Board}
    (h : flat.Pointwise (fun path d c => Board.cursorOf sorted path d = .ok c) board) :
    ∃ listings, flat.Pointwise (fun _ d vs => d.values = .ok vs) listings := by
  refine Table.exists_pointwise fun e he => ?_
  obtain ⟨c, -, -, hc⟩ := h.flip.of_mem_right he
  obtain ⟨vs, hvs, -⟩ := Board.cursorOf_values hc
  exact ⟨vs, hvs⟩

theorem mem_picks {flat : Table Domain} {listings : Table (List Value)} {a : Assignment}
    (hlistings : flat.Pointwise (fun _ d vs => d.values = .ok vs) listings)
    (ha : flat.Pointwise (fun _ d v => ∃ vs, d.values = .ok vs ∧ v ∈ vs) a) :
    a.entries ∈ picks listings := by
  have hmembers : listings.Pointwise (fun _ vs v => v ∈ vs) a := by
    refine hlistings.flip.comp ha fun path vs d v hvs hv => ?_
    obtain ⟨vs', hvs', hmem⟩ := hv
    rw [hvs] at hvs'
    cases hvs'
    exact hmem
  rw [picks, List.mem_sections, List.forall₂_map_right_iff]
  refine List.Forall₂.flip (List.Forall₂.imp ?_ hmembers)
  intro e f hef
  obtain ⟨hk, hmem⟩ := hef
  exact List.mem_map.2 ⟨f.2, hmem, by rw [hk]⟩

theorem nodup_entries_of_pairwise {as : List Assignment}
    (h : as.Pairwise fun a b => a.same b = false) : (as.map (·.entries)).Nodup := by
  refine List.pairwise_map.2 (h.imp ?_)
  intro a b hab heq
  have hsame : a = b := by
    cases a
    cases b
    exact congrArg Table.mk heq
  rw [hsame, Table.same_refl] at hab
  cases hab

namespace Solver

/-- The assignments of an outcome are pairwise different, so there are at most as many solutions
as the product of the sizes of all domains. -/
theorem solve_distinct {solver : Solver M S} {maxSolutions : Value} {tree : Tree} {state : S}
    {overrides : Option Settings.Overrides} {source : Draws} {j j' : Journal M} {o : Outcome M}
    (h : solver.solve maxSolutions tree state overrides source j = .ok o j') :
    o.assignments.Pairwise (fun a b => a.same b = false) ∧
      ∃ flat listings, tree.flatten "" = .ok flat ∧
        flat.mapM (fun _ d => d.values) = .ok listings ∧
        o.solutions.length ≤ (listings.values.map List.length).prod := by
  obtain ⟨s, visits, p, j₁, hreaches, -, rfl, -⟩ := solve_eq_ok h
  obtain ⟨hboard, -⟩ := hreaches.setting
  obtain ⟨hsolutions, -⟩ := hreaches.records
  obtain ⟨flat, hflat, hcursors⟩ := Board.ofTree_eq_ok.1 hboard
  obtain ⟨listings, hlistings⟩ := exists_listings hcursors
  have hpairwise : (p.solutions.map (·.assignment)).Pairwise fun a b => a.same b = false := by
    rw [hsolutions]
    exact List.pairwise_map.2 (pairwise_foldl_recordVisit s.ctx visits .nil)
  have hpicks : (p.solutions.map (·.assignment)).map (·.entries) ⊆ picks listings := by
    intro es hes
    obtain ⟨a, ha, rfl⟩ := List.mem_map.1 hes
    obtain ⟨found, hfound, rfl⟩ := List.mem_map.1 ha
    obtain ⟨v, hcoherent, -, rfl⟩ := hreaches.visit_of_solution hfound
    exact mem_picks hlistings (hcoherent.pointwise hcursors)
  refine ⟨hpairwise, flat, listings, hflat, Table.mapM_eq_ok.2 hlistings, ?_⟩
  have hlength := ((nodup_entries_of_pairwise hpairwise).subperm hpicks).length_le
  simpa only [List.length_map, length_picks] using hlength

theorem mixed_solutions_distinct : ∃ o j',
    mixedSolver.solve (.int 5) mixedTree () none alternating {} = .ok o j' ∧
      o.solutions.length = 2 ∧ o.assignments.Pairwise (fun a b => a.same b = false) ∧
      ∃ flat listings, mixedTree.flatten "" = .ok flat ∧
        flat.mapM (fun _ d => d.values) = .ok listings ∧
        o.solutions.length ≤ (listings.values.map List.length).prod := by
  obtain ⟨o, j', hsolve, hlength⟩ := mixedSolver_finds_two
  exact ⟨o, j', hsolve, hlength, solve_distinct hsolve⟩

end Solver

end MinConflicts
