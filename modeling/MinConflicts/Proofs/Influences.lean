import Mathlib.Algebra.Order.Ring.Nat
import Mathlib.Data.List.Induction
import MinConflicts.Proofs.Tallies

/-!
# Influence of a path

The influence of a path is the number of its occurrences among the variables of the violated
constraints. A constraint may list a path more than once, and then counts for each time. So the
influence is never below the number of violated constraints that list the path; it is that number,
and then at most the count, where none of them repeats the path.
-/
namespace MinConflicts.ConstraintSystem

variable {M S : Type}

structure Registration (M S : Type) where
  predicate : M → S → Except Fault Value
  paths : List String
  name : Option String

def Registration.constraint (r : Registration M S) : Constraint M S := ⟨r.predicate, r.paths, ""⟩

def ofRegistrations (rs : List (Registration M S)) : ConstraintSystem M S :=
  rs.foldl (fun cs r => (cs.add r.predicate r.paths r.name).2) empty

variable {rs : List (Registration M S)} {model : M} {state : S}

theorem constraints_ofRegistrations (rs : List (Registration M S)) :
    (ofRegistrations rs).constraints.map Constraint.unnamed = rs.map Registration.constraint := by
  induction rs using List.reverseRecOn with
  | nil => rfl
  | append_singleton rs r ih =>
    have hadd : (ofRegistrations (rs ++ [r])).constraints = (ofRegistrations rs).constraints ++
        [⟨r.predicate, r.paths, (ofRegistrations rs).nameFor r.name⟩] := by
      rw [ofRegistrations, List.foldl_append]
      rfl
    rw [hadd, List.map_append, List.map_append, ih]
    rfl

theorem answers_ofRegistrations (h : ∀ r ∈ rs, ∃ v, r.predicate model state = .ok v) :
    (ofRegistrations rs).Answers model state := by
  intro c hc
  have hunnamed : c.unnamed ∈ rs.map Registration.constraint := by
    rw [← constraints_ofRegistrations]
    exact List.mem_map_of_mem hc
  obtain ⟨r, hr, hrc⟩ := List.mem_map.1 hunnamed
  have hpredicate : r.predicate = c.predicate := congrArg Constraint.predicate hrc
  rw [← hpredicate]
  exact h r hr

def violations (rs : List (Registration M S)) (model : M) (state : S) : List (Constraint M S) :=
  (rs.map Registration.constraint).filter (·.isViolated model state)

theorem filter_ofRegistrations (rs : List (Registration M S)) (model : M) (state : S) :
    ((ofRegistrations rs).constraints.filter (·.isViolated model state)).map Constraint.unnamed =
      violations rs model state := by
  rw [violations, ← constraints_ofRegistrations, List.filter_map]
  rfl

def occurrences (cs : List (Constraint M S)) (path : String) : Nat :=
  (cs.map (·.paths.count path)).sum

def listings (cs : List (Constraint M S)) (path : String) : Nat :=
  cs.countP fun c => path ∈ c.paths

theorem occurrences_cons (c : Constraint M S) (cs : List (Constraint M S)) (path : String) :
    occurrences (c :: cs) path = c.paths.count path + occurrences cs path := by
  rw [occurrences, List.map_cons, List.sum_cons, occurrences]

theorem listings_cons (c : Constraint M S) (cs : List (Constraint M S)) (path : String) :
    listings (c :: cs) path = listings cs path + min 1 (c.paths.count path) := by
  rw [listings, List.countP_cons, ← listings]
  by_cases hlisted : path ∈ c.paths
  · have hpos := List.count_pos_iff.2 hlisted
    simp only [hlisted, decide_true, if_true]
    omega
  · simp [hlisted, List.count_eq_zero_of_not_mem]

variable {cs : List (Constraint M S)} {path : String}

theorem listings_le_occurrences : listings cs path ≤ occurrences cs path := by
  induction cs with
  | nil => exact Nat.le_refl 0
  | cons c cs ih =>
    rw [listings_cons, occurrences_cons]
    omega

theorem occurrences_eq_listings_iff :
    occurrences cs path = listings cs path ↔ ∀ c ∈ cs, c.paths.count path ≤ 1 := by
  induction cs with
  | nil => simp [occurrences, listings]
  | cons c cs ih =>
    have hle : listings cs path ≤ occurrences cs path := listings_le_occurrences
    rw [List.forall_mem_cons, ← ih, listings_cons, occurrences_cons]
    omega

theorem count_flatMap_paths (cs : List (Constraint M S)) (path : String) :
    (cs.flatMap (·.paths)).count path = occurrences cs path :=
  List.count_flatMap

theorem get?_foldl_tally_empty (paths : List String) (path : String) :
    (paths.foldl tally Table.empty).get? path =
      if paths.count path = 0 then none else some (paths.count path) := by
  rw [get?_foldl_tally]
  by_cases hmem : path ∈ paths
  · have hcount := Nat.ne_of_gt (List.count_pos_iff.2 hmem)
    rw [if_pos hmem, if_neg hcount]
    exact congrArg some (Nat.zero_add _)
  · rw [if_neg hmem, if_pos (List.count_eq_zero_of_not_mem hmem)]
    rfl

theorem count_ofRegistrations (h : ∀ r ∈ rs, ∃ v, r.predicate model state = .ok v) :
    (ofRegistrations rs).count model state = .ok (violations rs model state).length := by
  rw [← filter_ofRegistrations, List.length_map, count, (answers_ofRegistrations h).violated]
  rfl

theorem statistics_ofRegistrations (h : ∀ r ∈ rs, ∃ v, r.predicate model state = .ok v) :
    (ofRegistrations rs).statistics model state =
      .ok (((violations rs model state).flatMap (·.paths)).foldl tally Table.empty) := by
  rw [← filter_ofRegistrations, List.flatMap_map, statistics,
    (answers_ofRegistrations h).violated]
  rfl

/-- The report on a model where every predicate answers. A path is reported when it occurs among
the variables of the violated constraints, with the number of its occurrences. That number is at
least how many of them list the path. It is equal to it, and so at most the count, exactly when
none of them lists the path twice. -/
theorem statistics_counts_occurrences (h : ∀ r ∈ rs, ∃ v, r.predicate model state = .ok v) :
    let violated := violations rs model state
    (ofRegistrations rs).count model state = .ok violated.length ∧
    ∃ report, (ofRegistrations rs).statistics model state = .ok report ∧ report.keys.Nodup ∧
      ∀ path, report.get? path =
          (if occurrences violated path = 0 then none else some (occurrences violated path)) ∧
        listings violated path ≤ occurrences violated path ∧
        listings violated path ≤ violated.length ∧
        (occurrences violated path = listings violated path ↔
          ∀ c ∈ violated, c.paths.count path ≤ 1) := by
  intro violated
  refine ⟨count_ofRegistrations h, _, statistics_ofRegistrations h,
    nodup_keys_foldl_tally _ .nil, ?_⟩
  intro path
  refine ⟨?_, listings_le_occurrences, List.countP_le_length, occurrences_eq_listings_iff⟩
  rw [get?_foldl_tally_empty, count_flatMap_paths]

def repeatingRegistrations : List (Registration Unit Unit) :=
  [⟨fun _ _ => .ok (.bool false), ["a", "a"], none⟩,
    ⟨fun _ _ => .ok (.int 0), ["a", "b"], some "zero"⟩]

theorem repeating_influence_above_count :
    listings (violations repeatingRegistrations () ()) "a" = 2 ∧
    (ofRegistrations repeatingRegistrations).count () () = .ok 2 ∧
    (ofRegistrations repeatingRegistrations).statistics () () = .ok ⟨[("a", 3), ("b", 1)]⟩ :=
  ⟨rfl, rfl, rfl⟩

theorem repeating_influence_of_others :
    ∃ report, (ofRegistrations repeatingRegistrations).statistics () () = .ok report ∧
      report.get? "a" = some 3 ∧ report.get? "b" = some 1 ∧ report.get? "c" = none := by
  have hanswers : ∀ r ∈ repeatingRegistrations, ∃ v, r.predicate () () = .ok v := by
    simp [repeatingRegistrations]
  obtain ⟨-, report, hreport, -, hget⟩ := statistics_counts_occurrences hanswers
  exact ⟨report, hreport, (hget "a").1, (hget "b").1, (hget "c").1⟩

end MinConflicts.ConstraintSystem
