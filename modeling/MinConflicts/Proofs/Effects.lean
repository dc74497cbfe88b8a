import Mathlib.Data.List.Forall2
import MinConflicts.Search.Journal

/-!
# Computations that may fail

A computation gives a result or a cause, and a search also carries its journal along. Each form
of computation is opened by one equivalence: when it gives a result, what its parts gave.
-/
namespace MinConflicts

variable {M S α β : Type}

namespace Fault

theorem bind_eq_ok {x : Except Fault α} {f : α → Except Fault β} {b : β} :
    (x >>= f) = .ok b ↔ ∃ a, x = .ok a ∧ f a = .ok b := by
  cases x with
  | error e => simp [bind, Except.bind]
  | ok a => simp [bind, Except.bind]

theorem bind_eq_error {x : Except Fault α} {f : α → Except Fault β} {fault : Fault} :
    (x >>= f) = .error fault ↔ x = .error fault ∨ ∃ a, x = .ok a ∧ f a = .error fault := by
  cases x with
  | error e => simp [bind, Except.bind]
  | ok a => simp [bind, Except.bind]

theorem pure_eq_ok {a b : α} : (pure a : Except Fault α) = .ok b ↔ a = b :=
  ⟨Except.ok.inj, congrArg Except.ok⟩

theorem pure_ne_error {a : α} {fault : Fault} : ¬(pure a : Except Fault α) = .error fault :=
  fun h => nomatch h

theorem mapM_eq_ok {f : α → Except Fault β} {xs : List α} {ys : List β} :
    xs.mapM f = .ok ys ↔ List.Forall₂ (fun x y => f x = .ok y) xs ys := by
  induction xs generalizing ys with
  | nil =>
    rw [List.mapM_nil, pure_eq_ok, List.forall₂_nil_left_iff]
    exact eq_comm
  | cons x xs ih =>
    simp only [List.mapM_cons, bind_eq_ok, pure_eq_ok, ih, List.forall₂_cons_left_iff]
    constructor
    · intro h
      obtain ⟨y, hy, ys', hys, rfl⟩ := h
      exact ⟨y, ys', hy, hys, rfl⟩
    · intro h
      obtain ⟨y, ys', hy, hys, rfl⟩ := h
      exact ⟨y, hy, ys', hys, rfl⟩

end Fault

namespace Search

theorem bind_eq_ok {x : Search M α} {f : α → Search M β} {j j' : Journal M} {b : β} :
    (x >>= f) j = .ok b j' ↔ ∃ a j₁, x j = .ok a j₁ ∧ f a j₁ = .ok b j' := by
  simp only [bind, EStateM.bind]
  cases x j with
  | error e j₁ => simp
  | ok a j₁ =>
    refine ⟨fun h => ⟨a, j₁, rfl, h⟩, ?_⟩
    intro h
    obtain ⟨a', j₂, h, hf⟩ := h
    cases h
    exact hf

theorem bind_congr {x : Search M α} {f g : α → Search M β}
    (h : ∀ a j j', x j = .ok a j' → f a = g a) : x >>= f = x >>= g := by
  funext j
  simp only [bind, EStateM.bind]
  cases hx : x j with
  | error e j₁ => rfl
  | ok a j₁ => simp only [h a j j₁ hx]

theorem pure_eq_ok {j j' : Journal M} {a b : α} :
    (pure a : Search M α) j = .ok b j' ↔ a = b ∧ j = j' := by
  change EStateM.Result.ok a j = .ok b j' ↔ _
  simp

theorem map_eq_ok {f : α → β} {x : Search M α} {j j' : Journal M} {b : β} :
    (f <$> x) j = .ok b j' ↔ ∃ a, x j = .ok a j' ∧ f a = b := by
  change (x >>= fun a => pure (f a)) j = .ok b j' ↔ _
  simp only [bind_eq_ok, pure_eq_ok]
  exact ⟨fun ⟨a, _, h, hf, hj⟩ => ⟨a, hj ▸ h, hf⟩, fun ⟨a, h, hf⟩ => ⟨a, j', h, hf, rfl⟩⟩

theorem throw_ne_ok {e : Fault} {j j' : Journal M} {a : α} :
    ¬(throw e : Search M α) j = .ok a j' :=
  fun h => nomatch h

theorem lift_eq_ok {r : Except Fault α} {j j' : Journal M} {a : α} :
    lift r j = .ok a j' ↔ r = .ok a ∧ j = j' := by
  cases r with
  | error e => simp [lift, throw_ne_ok]
  | ok b => simp [lift, pure_eq_ok]

theorem draw_eq_ok {source : Draws} {j j' : Journal M} {r : Binary64} :
    draw source j = .ok r j' ↔ source j.draws = r ∧ { j with draws := j.draws + 1 } = j' := by
  change EStateM.Result.ok (source j.draws) { j with draws := j.draws + 1 } = .ok r j' ↔ _
  simp

theorem note_eq_ok {level : Log.Level} {text : String} {j j' : Journal M} {u : Unit} :
    note level text j = .ok u j' ↔
      { j with log := ⟨level, Log.base ++ ".csp.search", text⟩ :: j.log } = j' := by
  change EStateM.Result.ok () _ = .ok u j' ↔ _
  simp

theorem logged_eq_ok {rs : List Log.Record} {r : Except Fault α} {j j' : Journal M} {a : α} :
    logged (rs, r) j = .ok a j' ↔ r = .ok a ∧ { j with log := rs.reverse ++ j.log } = j' :=
  lift_eq_ok

theorem count_eq_ok {e : Evaluator M S} {model : M} {state : S} {j j' : Journal M} {v : Value} :
    count e model state j = .ok v j' ↔ e.checked model state = .ok v ∧
      { j with counts := j.counts + 1, counted := model :: j.counted } = j' :=
  lift_eq_ok

theorem feasible_eq_ok {e : Evaluator M S} {model : M} {state : S} {j j' : Journal M} {b : Bool} :
    feasible e model state j = .ok b j' ↔ e.feasible model state = .ok b ∧
      { j with counts := j.counts + 1, counted := model :: j.counted } = j' := by
  simp only [feasible, Evaluator.feasible, bind_eq_ok, pure_eq_ok, count_eq_ok, Fault.bind_eq_ok,
    Fault.pure_eq_ok]
  constructor
  · intro h
    obtain ⟨v, j₁, ⟨hv, rfl⟩, hb, rfl⟩ := h
    exact ⟨⟨v, hv, hb⟩, rfl⟩
  · intro h
    obtain ⟨⟨v, hv, hb⟩, rfl⟩ := h
    exact ⟨v, _, ⟨hv, rfl⟩, hb, rfl⟩

def result? : EStateM.Result Fault (Journal M) α → Option α
  | .ok a _ => some a
  | .error _ _ => none

theorem map_result?_eq_some {r : EStateM.Result Fault (Journal M) α} {f : α → β} {b : β} :
    (result? r).map f = some b ↔ ∃ a j', r = .ok a j' ∧ f a = b := by
  cases r with
  | ok a j' => simp [result?]
  | error e j' => simp [result?]

end Search

end MinConflicts
