import MinConflicts.Proofs.Lockstep
import MinConflicts.Proofs.Tables

/-!
# Tallies of violated constraints

On a model where every predicate answers, the violated constraints are those whose predicate does
not count as true, in the order of registration. The count is how many they are, and the report
gives each path the number of its occurrences among their variables, at the place of the first
occurrence. The order of registration shows in the order of the report only.
-/
namespace MinConflicts

variable {M S : Type}

namespace Constraint

variable {c : Constraint M S} {model : M} {state : S}

/-- Whether a constraint is violated; one whose predicate raises a fault counts as not violated. -/
def isViolated (model : M) (state : S) (c : Constraint M S) : Bool :=
  match c.holds model state with
  | .ok holds => !holds
  | .error _ => false

def unnamed (c : Constraint M S) : Constraint M S := { c with name := "" }

theorem holds_of_answer {v : Value} (h : c.predicate model state = .ok v) :
    c.holds model state = .ok !c.isViolated model state := by
  have hholds : c.holds model state = .ok v.truthy := Fault.bind_eq_ok.2 ⟨v, h, rfl⟩
  simp [isViolated, hholds]

end Constraint

namespace ConstraintSystem

variable {cs cs' : ConstraintSystem M S} {model : M} {state : S}

def Answers (cs : ConstraintSystem M S) (model : M) (state : S) : Prop :=
  ∀ c ∈ cs.constraints, ∃ v, c.predicate model state = .ok v

theorem violatedOf_eq_filter {constraints : List (Constraint M S)}
    (h : ∀ c ∈ constraints, ∃ v, c.predicate model state = .ok v) :
    violatedOf model state constraints = .ok (constraints.filter (·.isViolated model state)) := by
  induction constraints with
  | nil => rfl
  | cons c constraints ih =>
    obtain ⟨⟨v, hv⟩, hrest⟩ := List.forall_mem_cons.1 h
    simp only [violatedOf, Constraint.holds_of_answer hv, ih hrest, List.filter_cons]
    cases c.isViolated model state <;> rfl

theorem Answers.violated (h : cs.Answers model state) :
    cs.violated model state = .ok (cs.constraints.filter (·.isViolated model state)) :=
  violatedOf_eq_filter h

theorem get?_tally (t : Table Nat) (path k : String) :
    (tally t path).get? k = if path = k then some ((t.get? k).getD 0 + 1) else t.get? k := by
  rw [tally, Table.get?_insert]
  split_ifs with hk
  · rw [hk]
  · rfl

theorem get?_foldl_tally (paths : List String) (t : Table Nat) (k : String) :
    (paths.foldl tally t).get? k =
      if k ∈ paths then some ((t.get? k).getD 0 + paths.count k) else t.get? k := by
  induction paths generalizing t with
  | nil => simp
  | cons path paths ih =>
    rw [List.foldl_cons, ih, get?_tally]
    by_cases hk : path = k
    · subst hk
      simp only [if_pos, List.mem_cons, true_or, List.count_cons_self, Option.getD_some]
      split_ifs with hmem
      · rw [Nat.add_assoc, Nat.add_comm 1]
      · rw [List.count_eq_zero_of_not_mem hmem]
    · simp [hk, Ne.symm hk, List.count_cons_of_ne]

theorem nodup_keys_foldl_tally (paths : List String) {t : Table Nat} (h : t.keys.Nodup) :
    (paths.foldl tally t).keys.Nodup := by
  induction paths generalizing t with
  | nil => exact h
  | cons path paths ih => exact ih (Table.nodup_keys_insert h path _)

end ConstraintSystem

end MinConflicts
