import MinConflicts.Proofs.Boards
import MinConflicts.Proofs.Moves

/-!
# Computations that log nothing

Draws, questions to the evaluator and all that a move is made of leave the log as it was. So what
a search logs is what its own iterations note.
-/
namespace MinConflicts

variable {M S α β γ : Type}

namespace Search

def Quiet (x : Search M α) : Prop := ∀ j a j', x j = .ok a j' → j'.log = j.log

variable {x : Search M α} {source : Draws}

namespace Quiet

theorem pure (a : α) : Quiet (Pure.pure a : Search M α) := by
  intro j b j' h
  obtain ⟨-, rfl⟩ := pure_eq_ok.1 h
  rfl

theorem bind {f : α → Search M β} (hx : Quiet x) (hf : ∀ a, Quiet (f a)) : Quiet (x >>= f) := by
  intro j b j' h
  obtain ⟨a, j₁, ha, hb⟩ := bind_eq_ok.1 h
  exact (hf a j₁ b j' hb).trans (hx j a j₁ ha)

theorem map (f : α → β) (hx : Quiet x) : Quiet (f <$> x) := by
  intro j b j' h
  obtain ⟨a, ha, -⟩ := map_eq_ok.1 h
  exact hx j a j' ha

theorem lift (r : Except Fault α) : Quiet (Search.lift r : Search M α) := by
  intro j a j' h
  obtain ⟨-, rfl⟩ := lift_eq_ok.1 h
  rfl

theorem draw (source : Draws) : Quiet (Search.draw source : Search M Binary64) := by
  intro j r j' h
  obtain ⟨-, rfl⟩ := draw_eq_ok.1 h
  rfl

theorem count (e : Evaluator M S) (model : M) (state : S) :
    Quiet (Search.count e model state) := by
  intro j v j' h
  obtain ⟨-, rfl⟩ := count_eq_ok.1 h
  rfl

theorem feasible (e : Evaluator M S) (model : M) (state : S) :
    Quiet (Search.feasible e model state) :=
  (count e model state).bind fun _ => pure _

theorem influence (e : Evaluator M S) (model : M) (state : S) :
    Quiet (Search.influence e model state) := by
  intro j t j' h
  obtain ⟨-, rfl⟩ := lift_eq_ok.1 h
  rfl

theorem score (e : Evaluator M S) (model : M) (state : S) (pref factor : Value) :
    Quiet (Search.score e model state pref factor) :=
  (count e model state).bind fun _ => lift _

theorem drawSwaps (n i : Nat) : Quiet (Search.drawSwaps source n i : Search M (List Nat)) := by
  induction i with
  | zero => exact .pure []
  | succ i ih =>
    exact (draw source).bind fun r => (lift _).bind fun k => ih.bind fun ks => .pure (k :: ks)

theorem shuffle (xs : List α) : Quiet (Search.shuffle source xs : Search M (List α)) :=
  (drawSwaps _ _).bind fun _ => .pure _

theorem chooseKey (weights : Table Value) (alpha : Value) :
    Quiet (Search.chooseKey source weights alpha : Search M (Option String)) := by
  unfold Search.chooseKey
  split_ifs
  · exact .pure none
  · exact (shuffle _).bind fun keys => (lift _).bind fun total => (draw source).bind fun r =>
      .map some (.lift _)

theorem chooseRandom (xs : List α) : Quiet (Search.chooseRandom source xs : Search M α) :=
  (draw source).bind fun _ => .lift _

theorem bestScored {score : γ → Search M Value} (hscore : ∀ c, Quiet (score c)) (best : Option γ)
    (bestScore : Value) (cs : List γ) : Quiet (Search.bestScored score best bestScore cs) := by
  induction cs generalizing best bestScore with
  | nil => exact .pure best
  | cons c cs ih =>
    refine (hscore c).bind fun v => (lift _).bind fun better => ?_
    cases better with
    | true => exact ih (some c) v
    | false => exact ih best bestScore

theorem minConflicts {score : γ → Search M Value} (hscore : ∀ c, Quiet (score c))
    (randomness : Value) (cs : List γ) :
    Quiet (Search.minConflicts source score randomness cs) := by
  unfold Search.minConflicts
  split_ifs
  · exact .pure none
  · refine (draw source).bind fun r => (lift _).bind fun accepted => ?_
    cases accepted with
    | true => exact .map some (chooseRandom cs)
    | false => exact bestScored hscore none _ cs

end Quiet

end Search

open Search

theorem Board.quiet_scatterEntries (source : Draws) (es : List (String × Cursor)) :
    Quiet (scatterEntries source es : Search M _) := by
  induction es with
  | nil => exact .pure _
  | cons e es ih =>
    refine (Quiet.draw source).bind fun r => ?_
    cases position r e.2.size with
    | error fault => exact .pure _
    | ok i => exact ih.bind fun _ => .pure _

theorem Board.quiet_randomize (source : Draws) (b : Board) :
    Quiet (b.randomize source : Search M Board) :=
  fun j _ j' h => quiet_scatterEntries source b.entries j _ j' (randomize_iff_scatterEntries.1 h)

theorem Context.quiet_nextMove (ctx : Context M S) (board : Board) (known : List (Solution M))
    (a : Assignment) (model : M) : Quiet (ctx.nextMove board known a model) := by
  refine (Quiet.influence _ _ _).bind fun influence => (Quiet.chooseKey _ _).bind fun choice => ?_
  cases choice with
  | none => exact .pure none
  | some key => exact (Quiet.lift _).bind fun cs => .minConflicts (fun c => .score _ _ _ _ _) _ cs

end MinConflicts
