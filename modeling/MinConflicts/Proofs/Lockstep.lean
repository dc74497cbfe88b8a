import MinConflicts.Proofs.Effects
import MinConflicts.Search.Board
import MinConflicts.Search.Choice

/-!
# Computations in lock-step

Two computations are compared by what they give and by how many draws they make. From journals
with the same number of draws, computations in lock-step give related results or fail with the
same fault, and the numbers of draws are the same again. What they note in the log and what they
ask an evaluator may differ. Every part of a search has its rule here, and the rules compose as
the parts do.
-/
namespace MinConflicts

variable {M M' S S' α β γ δ : Type} {R : α → β → Prop} {Q : γ → δ → Prop}

namespace Fault

inductive InStep (R : α → β → Prop) : Except Fault α → Except Fault β → Prop
  | ok {a : α} {b : β} (related : R a b) : InStep R (.ok a) (.ok b)
  | error (e : Fault) : InStep R (.error e) (.error e)

theorem InStep.map (φ : α → β) (r : Except Fault α) :
    InStep (fun a b => b = φ a) r (r.map φ) := by
  cases r with
  | ok a => exact .ok rfl
  | error e => exact .error e

theorem InStep.of_refl {R : α → α → Prop} (h : ∀ a, R a a) (r : Except Fault α) :
    InStep R r r := by
  cases r with
  | ok a => exact .ok (h a)
  | error e => exact .error e

theorem InStep.refl (r : Except Fault α) : InStep (· = ·) r r := .of_refl (fun _ => rfl) r

theorem InStep.mono {R' : α → β → Prop} {r : Except Fault α} {r' : Except Fault β}
    (hr : InStep R r r') (h : ∀ a b, R a b → R' a b) : InStep R' r r' := by
  cases hr with
  | ok related => exact .ok (h _ _ related)
  | error e => exact .error e

theorem InStep.bind {r : Except Fault α} {r' : Except Fault β} {f : α → Except Fault γ}
    {g : β → Except Fault δ} (hr : InStep R r r')
    (hf : ∀ a b, r = .ok a → R a b → InStep Q (f a) (g b)) : InStep Q (r >>= f) (r' >>= g) := by
  cases hr with
  | ok related => exact hf _ _ rfl related
  | error e => exact .error e

end Fault

namespace Search

inductive InStep (R : α → β → Prop) :
    EStateM.Result Fault (Journal M) α → EStateM.Result Fault (Journal M') β → Prop
  | ok {a : α} {b : β} {j : Journal M} {j' : Journal M'} (related : R a b)
      (draws : j.draws = j'.draws) : InStep R (.ok a j) (.ok b j')
  | error {j : Journal M} {j' : Journal M'} (e : Fault) (draws : j.draws = j'.draws) :
      InStep R (.error e j) (.error e j')

theorem InStep.mono {R' : α → β → Prop} {r : EStateM.Result Fault (Journal M) α}
    {r' : EStateM.Result Fault (Journal M') β} (hr : InStep R r r')
    (h : ∀ a b, R a b → R' a b) : InStep R' r r' := by
  cases hr with
  | ok related draws => exact .ok (h _ _ related) draws
  | error e draws => exact .error e draws

/-- From journals with the same number of draws, both give related results or both fail with the
same fault, after the same number of draws. -/
def Lockstep (R : α → β → Prop) (x : Search M α) (y : Search M' β) : Prop :=
  ∀ (j : Journal M) (j' : Journal M'), j.draws = j'.draws → InStep R (x j) (y j')

namespace Lockstep

variable {x : Search M α} {y : Search M' β}

theorem pure {a : α} {b : β} (h : R a b) :
    Lockstep R (Pure.pure a : Search M α) (Pure.pure b : Search M' β) :=
  fun _ _ hj => .ok h hj

theorem bind {f : α → Search M γ} {g : β → Search M' δ} (hx : Lockstep R x y)
    (hf : ∀ a b j j₁, x j = .ok a j₁ → R a b → Lockstep Q (f a) (g b)) :
    Lockstep Q (x >>= f) (y >>= g) := by
  intro j j' hj
  have h := hx j j' hj
  simp only [Bind.bind, EStateM.bind]
  generalize hxj : x j = rx at h
  generalize y j' = ry at h
  cases h with
  | ok related draws => exact hf _ _ _ _ hxj related _ _ draws
  | error e draws => exact .error e draws

theorem bind_same {x : Search M α} {y : Search M' α} {f : α → Search M γ} {g : α → Search M' δ}
    (hx : Lockstep (· = ·) x y) (hf : ∀ a, Lockstep Q (f a) (g a)) :
    Lockstep Q (x >>= f) (y >>= g) :=
  hx.bind fun a _ _ _ _ hab => hab ▸ hf a

theorem exists_ok (hx : Lockstep R x y) {j j₁ : Journal M} {a : α} (ha : x j = .ok a j₁)
    (j' : Journal M') (hj : j.draws = j'.draws) :
    ∃ b j₁', y j' = .ok b j₁' ∧ R a b ∧ j₁.draws = j₁'.draws := by
  have h := hx j j' hj
  rw [ha] at h
  generalize hy : y j' = ry at h
  cases h with
  | ok related draws => exact ⟨_, _, rfl, related, draws⟩

theorem mono {R' : α → β → Prop} (hx : Lockstep R x y) (h : ∀ a b, R a b → R' a b) :
    Lockstep R' x y :=
  fun j j' hj => (hx j j' hj).mono h

theorem map {f : α → γ} {g : β → δ} (hx : Lockstep R x y) (h : ∀ a b, R a b → Q (f a) (g b)) :
    Lockstep Q (f <$> x) (g <$> y) :=
  hx.bind fun a b _ _ _ hab => pure (h a b hab)

theorem lift {r : Except Fault α} {r' : Except Fault β} (h : Fault.InStep R r r') :
    Lockstep R (Search.lift r : Search M α) (Search.lift r' : Search M' β) := by
  intro j j' hj
  cases h with
  | ok related => exact .ok related hj
  | error e => exact .error e hj

theorem lift_same (r : Except Fault α) :
    Lockstep (· = ·) (Search.lift r : Search M α) (Search.lift r : Search M' α) :=
  lift (.refl r)

theorem logged {r : List Log.Record × Except Fault α} {r' : List Log.Record × Except Fault β}
    (h : Fault.InStep R r.2 r'.2) :
    Lockstep R (Search.logged r : Search M α) (Search.logged r' : Search M' β) :=
  fun _ _ hj => lift h _ _ hj

theorem draw (source : Draws) : Lockstep (· = ·) (Search.draw source : Search M Binary64)
    (Search.draw source : Search M' Binary64) := by
  intro j j' hj
  have hdraws : j.draws + 1 = j'.draws + 1 := by rw [hj]
  exact .ok (congrArg source hj) hdraws

theorem note (level level' : Log.Level) (text text' : String) :
    Lockstep (· = ·) (Search.note level text : Search M Unit)
      (Search.note level' text' : Search M' Unit) :=
  fun _ _ hj => .ok rfl hj

variable {e : Evaluator M S} {e' : Evaluator M' S'} {model : M} {model' : M'} {state : S}
  {state' : S'}

theorem count (h : e.checked model state = e'.checked model' state') :
    Lockstep (· = ·) (Search.count e model state) (Search.count e' model' state') := by
  intro j j' hj
  exact lift (h ▸ .refl _) _ _ hj

theorem feasible (h : e.checked model state = e'.checked model' state') :
    Lockstep (· = ·) (Search.feasible e model state) (Search.feasible e' model' state') := by
  exact (count h).bind_same fun v => pure rfl

theorem score (h : e.checked model state = e'.checked model' state') (pref factor : Value) :
    Lockstep (· = ·) (Search.score e model state pref factor)
      (Search.score e' model' state' pref factor) := by
  exact (count h).bind_same fun v => lift_same _

theorem influence {R : Table Value → Table Value → Prop}
    (h : Fault.InStep R (e.influence model state) (e'.influence model' state')) :
    Lockstep R (Search.influence e model state) (Search.influence e' model' state') :=
  fun _ _ hj => lift h _ _ hj

theorem drawSwaps (source : Draws) (n i : Nat) :
    Lockstep (· = ·) (Search.drawSwaps source n i : Search M (List Nat))
      (Search.drawSwaps source n i : Search M' (List Nat)) := by
  induction i with
  | zero => exact pure rfl
  | succ i ih =>
    refine (draw source).bind_same fun r => ?_
    refine (lift_same _).bind_same fun k => ?_
    exact ih.bind_same fun js => pure rfl

theorem shuffle (source : Draws) (xs : List α) :
    Lockstep (· = ·) (Search.shuffle source xs : Search M (List α))
      (Search.shuffle source xs : Search M' (List α)) := by
  exact (drawSwaps source _ _).bind_same fun js => pure rfl

theorem chooseKey (source : Draws) (weights : Table Value) (alpha : Value) :
    Lockstep (· = ·) (Search.chooseKey source weights alpha : Search M (Option String))
      (Search.chooseKey source weights alpha : Search M' (Option String)) := by
  unfold Search.chooseKey
  split_ifs
  · exact pure rfl
  · refine (shuffle source _).bind_same fun keys => ?_
    refine (lift_same _).bind_same fun total => ?_
    refine (draw source).bind_same fun r => ?_
    exact (lift_same _).map fun _ _ hkey => congrArg some hkey

theorem nth {xs : List α} {ys : List β} (h : List.Forall₂ R xs ys) (i : Int) :
    Fault.InStep R (MinConflicts.nth xs i) (MinConflicts.nth ys i) := by
  unfold MinConflicts.nth
  rw [h.length_eq]
  refine (Fault.InStep.refl (place ys.length i)).bind fun k k' _ hk => ?_
  subst hk
  have hget := List.forall₂_iff_get.1 h
  by_cases hlt : k < xs.length
  · have hlt' : k < ys.length := h.length_eq ▸ hlt
    rw [List.getElem?_eq_getElem hlt, List.getElem?_eq_getElem hlt']
    exact .ok (hget.2 k hlt hlt')
  · have hge : ys.length ≤ k := by rw [← h.length_eq]; omega
    rw [List.getElem?_eq_none (by omega), List.getElem?_eq_none hge]
    exact .error _

theorem chooseRandom (source : Draws) {xs : List α} {ys : List β} (h : List.Forall₂ R xs ys) :
    Lockstep R (Search.chooseRandom source xs : Search M α)
      (Search.chooseRandom source ys : Search M' β) := by
  refine (draw source).bind_same fun r => ?_
  rw [h.length_eq]
  refine lift ((Fault.InStep.refl (position r ys.length)).bind fun i i' _ hi => ?_)
  subst hi
  exact nth h i

variable {score₁ : α → Search M Value} {score₂ : β → Search M' Value} {xs : List α} {ys : List β}

theorem bestScored (h : List.Forall₂ R xs ys)
    (hscore : ∀ a b, R a b → Lockstep (· = ·) (score₁ a) (score₂ b)) {best : Option α}
    {best' : Option β} (hbest : Option.Rel R best best') (bestScore : Value) :
    Lockstep (Option.Rel R) (Search.bestScored score₁ best bestScore xs)
      (Search.bestScored score₂ best' bestScore ys) := by
  induction h generalizing best best' bestScore with
  | nil => exact pure hbest
  | cons hab _ ih =>
    refine (hscore _ _ hab).bind_same fun v => ?_
    refine (lift_same _).bind_same fun better => ?_
    cases better with
    | true => exact ih (.some hab) v
    | false => exact ih hbest bestScore

theorem minConflicts (source : Draws) (randomness : Value) (h : List.Forall₂ R xs ys)
    (hscore : ∀ a b, R a b → Lockstep (· = ·) (score₁ a) (score₂ b)) :
    Lockstep (Option.Rel R) (Search.minConflicts source score₁ randomness xs)
      (Search.minConflicts source score₂ randomness ys) := by
  have hempty : xs.isEmpty = ys.isEmpty := by cases h <;> rfl
  unfold Search.minConflicts
  rw [hempty]
  split_ifs
  · exact pure .none
  · refine (draw source).bind_same fun r => ?_
    refine (lift_same _).bind_same fun accepted => ?_
    cases accepted with
    | true => exact (chooseRandom source h).map fun _ _ hab => .some hab
    | false => exact bestScored h hscore .none _

theorem scatterEntries (source : Draws) (es : List (String × Cursor)) :
    Lockstep (· = ·) (Board.scatterEntries source es : Search M _)
      (Board.scatterEntries source es : Search M' _) := by
  induction es with
  | nil => exact pure rfl
  | cons e es ih =>
    obtain ⟨path, c⟩ := e
    refine (draw source).bind_same fun r => ?_
    cases position r c.size with
    | error e => exact pure rfl
    | ok i =>
      exact ih.bind_same fun moved => pure rfl

theorem randomize (source : Draws) (b : Board) :
    Lockstep (· = ·) (b.randomize source : Search M Board)
      (b.randomize source : Search M' Board) := by
  have hscatter : Lockstep (· = ·) (b.scatter source : Search M _)
      (b.scatter source : Search M' _) :=
    (scatterEntries source b.entries).bind_same fun moved => pure rfl
  refine hscatter.bind_same fun moved => ?_
  obtain ⟨board, fault⟩ := moved
  cases fault with
  | none => exact pure rfl
  | some e => exact fun _ _ hj => .error e hj

end Lockstep

end Search

end MinConflicts
