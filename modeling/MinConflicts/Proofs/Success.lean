import MinConflicts.Proofs.Effects
import MinConflicts.Search.Choice

/-!
# Computations that succeed

A computation of a search succeeds when it gives a result from every journal. The rules follow the
forms of computations. A part that comes after another one need only succeed on the results of
that part, so what is known of results, where they are given, carries over.
-/
namespace MinConflicts

variable {M S α β : Type}

namespace Search

def Succeeds (x : Search M α) : Prop := ∀ j, ∃ a j', x j = .ok a j'

namespace Succeeds

variable {x : Search M α}

theorem pure (a : α) : Succeeds (Pure.pure a : Search M α) := fun j => ⟨a, j, rfl⟩

theorem bind {f : α → Search M β} (hx : Succeeds x)
    (hf : ∀ a j j', x j = .ok a j' → Succeeds (f a)) : Succeeds (x >>= f) := by
  intro j
  obtain ⟨a, j₁, ha⟩ := hx j
  obtain ⟨b, j', hb⟩ := hf a j j₁ ha j₁
  exact ⟨b, j', bind_eq_ok.2 ⟨a, j₁, ha, hb⟩⟩

theorem map (f : α → β) (hx : Succeeds x) : Succeeds (f <$> x) := by
  intro j
  obtain ⟨a, j', ha⟩ := hx j
  exact ⟨f a, j', map_eq_ok.2 ⟨a, ha, rfl⟩⟩

theorem lift {r : Except Fault α} (h : ∃ a, r = .ok a) :
    Succeeds (Search.lift r : Search M α) := by
  obtain ⟨a, ha⟩ := h
  exact fun j => ⟨a, j, lift_eq_ok.2 ⟨ha, rfl⟩⟩

theorem lift_bind {r : Except Fault α} {a : α} {f : α → Search M β} (hr : r = .ok a)
    (hf : Succeeds (f a)) : Succeeds (Search.lift r >>= f) := by
  subst hr
  exact hf

theorem draw_bind {source : Draws} {f : Binary64 → Search M β}
    (hf : ∀ k, Succeeds (f (source k))) : Succeeds (Search.draw source >>= f) :=
  fun j => hf j.draws { j with draws := j.draws + 1 }

theorem note (level : Log.Level) (text : String) :
    Succeeds (Search.note level text : Search M Unit) :=
  fun _ => ⟨_, _, rfl⟩

theorem logged {rs : List Log.Record} {r : Except Fault α} (h : ∃ a, r = .ok a) :
    Succeeds (Search.logged (rs, r) : Search M α) := by
  obtain ⟨a, ha⟩ := h
  exact fun j => ⟨a, _, logged_eq_ok.2 ⟨ha, rfl⟩⟩

theorem count {e : Evaluator M S} {model : M} {state : S}
    (h : ∃ v, e.checked model state = .ok v) : Succeeds (Search.count e model state) := by
  obtain ⟨v, hv⟩ := h
  exact fun j => ⟨v, _, count_eq_ok.2 ⟨hv, rfl⟩⟩

theorem feasible {e : Evaluator M S} {model : M} {state : S}
    (h : ∃ v, e.checked model state = .ok v) : Succeeds (Search.feasible e model state) :=
  (count h).bind fun v _ _ _ => pure (v.eq (.int 0))

theorem influence_bind {e : Evaluator M S} {model : M} {state : S} {t : Table Value}
    {f : Table Value → Search M β} (ht : e.influence model state = .ok t) (hf : Succeeds (f t)) :
    Succeeds (Search.influence e model state >>= f) := by
  intro j
  obtain ⟨b, j', hb⟩ := hf { j with reports := j.reports + 1 }
  exact ⟨b, j', bind_eq_ok.2 ⟨t, _, lift_eq_ok.2 ⟨ht, rfl⟩, hb⟩⟩

end Succeeds

end Search

end MinConflicts
