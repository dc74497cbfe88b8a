import MinConflicts.Proofs.Accounting
import MinConflicts.Proofs.KeyChoices

/-!
# Draws of a search

How many draws a search makes follows from what its parts do, and not from what is drawn, but for
one choice: a move takes no draw without candidates, one to choose by score, and two to choose at
random. A restart and the choice of a variable take one draw for each path, and an iteration that
records a solution takes none. So a search from a seed can be repeated, and its draws can be
counted from its outcome.
-/
namespace MinConflicts

variable {M S α β γ : Type}

namespace Search

def Spends (n : Nat) (x : Search M α) : Prop := ∀ j a j', x j = .ok a j' → j'.draws = j.draws + n

variable {x : Search M α} {f : α → Search M β} {n m : Nat} {source : Draws} {j j' : Journal M}

namespace Spends

theorem pure (a : α) : Spends 0 (Pure.pure a : Search M α) := by
  intro j b j' h
  obtain ⟨-, rfl⟩ := pure_eq_ok.1 h
  rfl

theorem bind (hx : Spends n x) (hf : ∀ a, Spends m (f a)) : Spends (n + m) (x >>= f) := by
  intro j b j' h
  obtain ⟨a, j₁, ha, hb⟩ := bind_eq_ok.1 h
  rw [hf a j₁ b j' hb, hx j a j₁ ha, Nat.add_assoc]

theorem before (hx : Spends 0 x) (hf : ∀ a, Spends m (f a)) : Spends m (x >>= f) :=
  Nat.zero_add m ▸ hx.bind hf

theorem map (f : α → β) (hx : Spends n x) : Spends n (f <$> x) := by
  intro j b j' h
  obtain ⟨a, ha, -⟩ := map_eq_ok.1 h
  exact hx j a j' ha

theorem lift (r : Except Fault α) : Spends 0 (Search.lift r : Search M α) := by
  intro j a j' h
  obtain ⟨-, rfl⟩ := lift_eq_ok.1 h
  rfl

theorem draw (source : Draws) : Spends 1 (Search.draw source : Search M Binary64) := by
  intro j r j' h
  obtain ⟨-, rfl⟩ := draw_eq_ok.1 h
  rfl

theorem note (level : Log.Level) (text : String) :
    Spends 0 (Search.note level text : Search M Unit) := by
  intro j u j' h
  rw [← note_eq_ok.1 h]
  rfl

theorem logged (r : List Log.Record × Except Fault α) :
    Spends 0 (Search.logged r : Search M α) := by
  intro j a j' h
  obtain ⟨-, rfl⟩ := logged_eq_ok.1 h
  rfl

theorem count (e : Evaluator M S) (model : M) (state : S) :
    Spends 0 (Search.count e model state) := by
  intro j v j' h
  obtain ⟨-, rfl⟩ := count_eq_ok.1 h
  rfl

theorem feasible (e : Evaluator M S) (model : M) (state : S) :
    Spends 0 (Search.feasible e model state) :=
  (count e model state).before fun _ => pure _

theorem influence (e : Evaluator M S) (model : M) (state : S) :
    Spends 0 (Search.influence e model state) := by
  intro j t j' h
  obtain ⟨-, rfl⟩ := lift_eq_ok.1 h
  rfl

theorem score (e : Evaluator M S) (model : M) (state : S) (pref factor : Value) :
    Spends 0 (Search.score e model state pref factor) :=
  (count e model state).before fun _ => lift _

end Spends

theorem drawSwaps_spends (n i : Nat) : Spends i (drawSwaps source n i : Search M (List Nat)) := by
  induction i with
  | zero => exact .pure []
  | succ i ih =>
    have hswap : Spends (1 + i) (drawSwaps source n (i + 1) : Search M (List Nat)) :=
      (Spends.draw source).bind fun r => (Spends.lift _).before fun k =>
        ih.bind fun ks => .pure (k :: ks)
    rwa [Nat.add_comm] at hswap

theorem shuffle_spends (xs : List α) :
    Spends (xs.length - 1) (shuffle source xs : Search M (List α)) :=
  (drawSwaps_spends _ _).bind fun _ => .pure _

theorem chooseKey_spends (weights : Table Value) (alpha : Value) :
    Spends weights.size (chooseKey source weights alpha : Search M (Option String)) := by
  unfold chooseKey
  split_ifs with hempty
  · have hzero : weights.size = 0 := by simpa [Table.size] using hempty
    rw [hzero]
    exact .pure none
  · have hpos : 0 < weights.size := by
      simpa [Table.size, List.length_pos_iff] using hempty
    have hsize : weights.size = (weights.keys.length - 1) + 1 := by
      rw [Table.keys, List.length_map, ← Table.size]
      omega
    rw [hsize]
    exact (shuffle_spends _).bind fun keys => (Spends.lift _).before fun total =>
      (Spends.draw source).bind fun r => .map some (.lift _)

theorem chooseRandom_spends (xs : List α) : Spends 1 (chooseRandom source xs : Search M α) :=
  (Spends.draw source).bind fun _ => .lift _

theorem bestScored_spends {score : γ → Search M Value} (hscore : ∀ c, Spends 0 (score c))
    (best : Option γ) (bestScore : Value) (cs : List γ) :
    Spends 0 (bestScored score best bestScore cs) := by
  induction cs generalizing best bestScore with
  | nil => exact .pure best
  | cons c cs ih =>
    refine (hscore c).before fun v => (Spends.lift _).before fun better => ?_
    cases better with
    | true => exact ih (some c) v
    | false => exact ih best bestScore

def choiceDraws (randomness : Binary64) (cs : List γ) (r : Binary64) : Nat :=
  if cs.isEmpty then 0 else if r.lt randomness then 2 else 1

theorem choiceDraws_le (randomness : Binary64) (cs : List γ) (r : Binary64) :
    choiceDraws randomness cs r ≤ 2 := by
  unfold choiceDraws
  split_ifs <;> decide

theorem minConflicts_draws {score : γ → Search M Value} (hscore : ∀ c, Spends 0 (score c))
    {randomness : Binary64} {cs : List γ} {c : Option γ}
    (h : minConflicts source score (.float randomness) cs j = .ok c j') :
    j'.draws = j.draws + choiceDraws randomness cs (source j.draws) := by
  rcases minConflicts_cases h with
    ⟨rfl, -, rfl⟩ | ⟨hne, accepted, hlt, ⟨rfl, d, -, hrandom⟩ | ⟨rfl, hbest⟩⟩
  · rfl
  · have hlower : (source j.draws).lt randomness = true := Except.ok.inj hlt
    rw [choiceDraws, if_neg (by simpa using hne), if_pos hlower]
    exact chooseRandom_spends cs _ _ _ hrandom
  · have hlower : ¬(source j.draws).lt randomness = true :=
      Bool.eq_false_iff.1 (Except.ok.inj hlt)
    rw [choiceDraws, if_neg (by simpa using hne), if_neg hlower]
    exact bestScored_spends hscore none _ cs _ _ _ hbest

end Search

theorem Board.scatterEntries_draws {source : Draws} {es moved : List (String × Cursor)}
    {j j' : Journal M} (h : scatterEntries source es j = .ok (moved, none) j') :
    j'.draws = j.draws + es.length := by
  induction es generalizing moved j with
  | nil => exact congrArg Journal.draws (Search.pure_eq_ok.1 h).2.symm
  | cons e es ih =>
    obtain ⟨i, moved', -, hrest, -⟩ := scatterEntries_cons_eq_ok.1 h
    rw [ih hrest, List.length_cons]
    dsimp only
    omega

theorem Board.randomize_spends (source : Draws) (b : Board) :
    Search.Spends b.size (b.randomize source : Search M Board) :=
  fun _ _ _ h => scatterEntries_draws (randomize_iff_scatterEntries.1 h)

variable {ctx : Context M S} {board : Board} {i : Nat} {p q : Progress M} {j j' : Journal M}

theorem Context.nextMove_draws {known : List (Solution M)} {a : Assignment} {model : M}
    {move : Option (Candidate M)} (h : ctx.nextMove board known a model j = .ok move j') :
    (board.size = 0 ∧ j'.draws = j.draws) ∨ ∃ key cs, ctx.candidates board known a key = .ok cs ∧
      j'.draws = j.draws + board.size + Search.choiceDraws ctx.settings.randomness cs
        (ctx.source (j.draws + board.size)) := by
  obtain ⟨influence, j₁, choice, j₂, hinfluence, hchoice, hmove⟩ := nextMove_cases h
  have hasked := Search.Spends.influence _ _ _ _ _ _ hinfluence
  have hdrawn := Search.chooseKey_spends _ _ _ _ _ hchoice
  rw [size_keyWeights, hasked, Nat.add_zero] at hdrawn
  rcases hmove with ⟨rfl, -, rfl⟩ | ⟨key, cs, rfl, hcs, hchosen⟩
  · rcases Search.chooseKey_cases hchoice with ⟨hnil, -, -⟩ | ⟨-, _, _, _, _, -, -, -, hsome, -⟩
    · have hempty : board.size = 0 := by
        rw [← size_keyWeights board influence, Table.size, hnil, List.length_nil]
      exact .inl ⟨hempty, by rw [hdrawn, hempty, Nat.add_zero]⟩
    · cases hsome
  · have hscore : ∀ c : Candidate M, Search.Spends 0 (ctx.scoreOf c) :=
      fun c => Search.Spends.score _ _ _ _ _
    have hdraws := Search.minConflicts_draws hscore hchosen
    rw [hdrawn] at hdraws
    exact .inr ⟨key, cs, hcs, hdraws⟩

namespace Solver

theorem restart_spends (ctx : Context M S) (i : Nat) (p : Progress M) :
    Search.Spends (if restartDue ctx.settings i then p.board.size else 0) (restart ctx i p) := by
  unfold restart
  split_ifs
  · exact (Board.randomize_spends _ _).bind fun _ => (Search.Spends.lift _).before fun _ =>
      (Search.Spends.note _ _).before fun _ => .pure _
  · exact .pure p

theorem record_spends (ctx : Context M S) (i : Nat) (p : Progress M) :
    Search.Spends 0 (record ctx i p) :=
  (Search.Spends.note _ _).before fun _ => .lift _

theorem advance_draws (h : advance ctx p j = .ok q j') :
    ∃ move j₁, ctx.nextMove p.board p.solutions p.assignment p.model j = .ok move j₁ ∧
      q = p.follow move ∧ j'.draws = j₁.draws := by
  obtain ⟨move, j₁, hmove, hq, ⟨-, rfl⟩ | ⟨-, hnote⟩⟩ := advance_eq_ok h
  · exact ⟨move, j', hmove, hq, rfl⟩
  · exact ⟨move, j₁, hmove, hq, Search.Spends.note _ _ _ _ _ hnote⟩

theorem attempt_draws (h : attempt ctx i p j = .ok q j') :
    (q.solutions.length = p.solutions.length + 1 ∧ j'.draws = j.draws) ∨
      (q.solutions = p.solutions ∧
        ((p.board.size = 0 ∧ j'.draws = j.draws) ∨
          ∃ key cs, ctx.candidates p.board p.solutions p.assignment key = .ok cs ∧
            j'.draws = j.draws + p.board.size + Search.choiceDraws ctx.settings.randomness cs
              (ctx.source (j.draws + p.board.size)))) := by
  obtain ⟨feasible, j₁, hfeasible, ⟨-, -, hrecord⟩ | ⟨-, hadvance⟩⟩ := attempt_cases h
  · left
    obtain ⟨a, m, -, -, rfl⟩ := Progress.place_eq_ok.1 (record_eq_ok hrecord).1
    refine ⟨by simp, ?_⟩
    rw [record_spends _ _ _ _ _ _ hrecord, Search.Spends.feasible _ _ _ _ _ _ hfeasible]
    rfl
  · right
    obtain ⟨move, j₂, hmove, rfl, hdraws⟩ := advance_draws hadvance
    have hcounted := Search.Spends.feasible _ _ _ _ _ _ hfeasible
    rw [Nat.add_zero] at hcounted
    refine ⟨Progress.follow_solutions _ _, ?_⟩
    rw [hdraws, ← hcounted]
    exact Context.nextMove_draws hmove

theorem exists_restart_draws (h : restart ctx i p j = .ok q j') :
    ∃ t, q.restarts = p.restarts + t ∧ j'.draws = j.draws + p.board.size * t := by
  have hcount := restart_restarts h
  have hdrawn := restart_spends ctx i p j q j' h
  cases hdue : restartDue ctx.settings i with
  | true => exact ⟨1, by simpa [hdue] using hcount, by simpa [hdue] using hdrawn⟩
  | false => exact ⟨0, by simpa [hdue] using hcount, by simpa [hdue] using hdrawn⟩

theorem exists_attempt_draws (h : attempt ctx i p j = .ok q j') :
    ∃ f d, q.solutions.length + f = p.solutions.length + 1 ∧ d ≤ 2 * f ∧
      j'.draws = j.draws + p.board.size * f + d := by
  rcases attempt_draws h with ⟨hone, hdraws⟩ | ⟨hsame, ⟨hempty, hdraws⟩ | ⟨key, cs, -, hdraws⟩⟩
  · exact ⟨0, 0, hone, le_rfl, hdraws⟩
  · exact ⟨1, 0, by rw [hsame], by decide, by rw [hdraws, hempty]; rfl⟩
  · have hle := Search.choiceDraws_le ctx.settings.randomness cs
      (ctx.source (j.draws + p.board.size))
    exact ⟨1, _, by rw [hsame], hle, by rw [Nat.mul_one]; exact hdraws⟩

variable {limit : Int} {budget : Nat} {visits : List (Progress M)}

theorem Course.exists_draws (hn : board.keys.Nodup) (hp : Coherent ctx board p)
    (h : Course ctx limit budget i p j visits q j') :
    ∃ t f d, q.restarts = p.restarts + t ∧
      q.solutions.length + f = p.solutions.length + visits.length ∧ d ≤ 2 * f ∧
      j'.draws = j.draws + board.size * (t + f) + d := by
  induction h with
  | done => exact ⟨0, 0, 0, rfl, rfl, le_rfl, rfl⟩
  | @step i p r p₁ p' j j₁ j₂ j' visits _ _ restarted attempted _ ih =>
    have hr := hp.restart restarted
    obtain ⟨t₁, ht₁, hrestart⟩ := exists_restart_draws restarted
    obtain ⟨f₁, d₁, hf₁, hd₁, hattempt⟩ := exists_attempt_draws attempted
    obtain ⟨t, f, d, ht, hf, hd, hrest⟩ := ih (hr.attempt hn attempted)
    rw [hp.size_eq] at hrestart
    rw [hr.size_eq] at hattempt
    rw [(restart_keeps restarted).1] at hf₁
    rw [attempt_restarts attempted] at ht
    refine ⟨t₁ + t, f₁ + f, d₁ + d, by omega, ?_, by omega, ?_⟩
    · rw [List.length_cons]
      omega
    · calc j'.draws = j.draws + board.size * t₁ + board.size * f₁ + d₁ +
            board.size * (t + f) + d := by rw [hrest, hattempt, hrestart]
        _ = j.draws + board.size * (t₁ + t + (f₁ + f)) + (d₁ + d) := by ring

variable {solver : Solver M S} {maxSolutions : Value} {tree : Tree} {state : S}
  {overrides : Option Settings.Overrides} {source : Draws} {s : Setup M S}

theorem setup_spends (solver : Solver M S) (maxSolutions : Value) (tree : Tree) (state : S)
    (overrides : Option Settings.Overrides) (source : Draws) :
    Search.Spends 0 (solver.setup maxSolutions tree state overrides source) :=
  (Search.Spends.logged _).before fun _ => (Search.Spends.lift _).before fun _ =>
    (Search.Spends.lift _).before fun _ => .pure _

theorem start_spends (s : Setup M S) : Search.Spends 0 s.start :=
  (Search.Spends.note _ _).before fun _ => (Search.Spends.lift _).before fun _ =>
    (Search.Spends.lift _).before fun _ => .pure _

theorem Reaches.exists_draws
    (h : solver.Reaches maxSolutions tree state overrides source j s visits p j') :
    ∃ f d, p.solutions.length + f = p.iterations ∧ d ≤ 2 * f ∧
      j'.draws = j.draws + s.board.size * (p.restarts + f) + d := by
  obtain ⟨-, hiterations⟩ := h.records
  obtain ⟨hboard, -⟩ := h.setting
  obtain ⟨j₁, p₀, j₂, hsetup, hstart, hcourse⟩ := h
  have hfirst := setup_spends _ _ _ _ _ _ _ _ _ hsetup
  have hsecond := start_spends s _ _ _ hstart
  obtain ⟨hcoherent, -⟩ := coherent_of_start hstart
  obtain ⟨a, m, -, -, rfl, -⟩ := Setup.start_eq_ok hstart
  obtain ⟨t, f, d, ht, hf, hd, hdraws⟩ :=
    hcourse.exists_draws (Board.ofTree_keys_nodup hboard) hcoherent
  rw [Nat.zero_add] at ht
  rw [List.length_nil, Nat.zero_add, ← hiterations] at hf
  refine ⟨f, d, hf, hd, ?_⟩
  rw [hdraws, hsecond, hfirst, ht]
  rfl

/-- The number `D` of draws of a search over `n` paths is `n` for each restart and for each
iteration that records no solution, and up to two more for each of the latter. For a restart takes
`n` draws, and an iteration that records a solution takes none; any other takes `n` to choose a
variable, all but one of them to shuffle the keys, and then none without candidates, one to choose
by score, and two to choose at random. -/
theorem solve_draws {o : Outcome M}
    (h : solver.solve maxSolutions tree state overrides source j = .ok o j') :
    (∃ D, j'.draws = j.draws + D ∧ o.solutions.length ≤ o.iterations ∧
      o.paths.length * (o.restarts + o.iterations - o.solutions.length) ≤ D ∧
      D ≤ o.paths.length * (o.restarts + o.iterations - o.solutions.length) +
        2 * (o.iterations - o.solutions.length)) ∧
    (∀ keys : List String,
      Search.Spends (keys.length - 1) (Search.shuffle source keys : Search M (List String))) ∧
    (∀ weights alpha, Search.Spends weights.size
      (Search.chooseKey source weights alpha : Search M (Option String))) ∧
    ∃ s visits p j₁, solver.Reaches maxSolutions tree state overrides source j s visits p j₁ ∧
      o = ⟨s.board.keys, p.solutions, p.iterations, p.restarts⟩ ∧
      (∀ v ∈ visits, v.board.size = o.paths.length) ∧
      ∀ i q, q.board.size = o.paths.length →
        Search.Spends (if restartDue s.ctx.settings i then o.paths.length else 0)
          (restart s.ctx i q) ∧
        ∀ r j₂ j₃, attempt s.ctx i q j₂ = .ok r j₃ →
          (r.solutions.length = q.solutions.length + 1 ∧ j₃.draws = j₂.draws) ∨
          (r.solutions = q.solutions ∧
            ((o.paths.length = 0 ∧ j₃.draws = j₂.draws) ∨
              ∃ key cs, s.ctx.candidates q.board q.solutions q.assignment key = .ok cs ∧
                j₃.draws = j₂.draws + o.paths.length + Search.choiceDraws s.ctx.settings.randomness
                  cs (source (j₂.draws + o.paths.length)))) := by
  obtain ⟨s, visits, p, j₁, hreaches, -, rfl, hnote⟩ := solve_eq_ok h
  obtain ⟨-, -, -, hsource, -⟩ := hreaches.setting
  obtain ⟨-, hvisits⟩ := hreaches.coherent
  obtain ⟨f, d, hf, hd, hdraws⟩ := hreaches.exists_draws
  have hpaths : s.board.keys.length = s.board.size := by
    rw [Table.keys, List.length_map, Table.size]
  have hsizes : ∀ v ∈ visits, v.board.size = s.board.size := fun v hv => (hvisits v hv).size_eq
  have hend := Search.Spends.note _ _ _ _ _ hnote
  simp only [hpaths]
  have hcount : p.restarts + p.iterations - p.solutions.length = p.restarts + f := by omega
  rw [hcount]
  refine ⟨⟨s.board.size * (p.restarts + f) + d, by omega, by omega, Nat.le_add_right _ _, by omega⟩,
    Search.shuffle_spends, Search.chooseKey_spends, s, visits, p, j₁, hreaches, rfl, hsizes, ?_⟩
  intro i q hq
  rw [← hq, ← hsource]
  exact ⟨restart_spends s.ctx i q, fun r j₂ j₃ hattempt => attempt_draws hattempt⟩

theorem mixed_draws : ∃ o j',
    mixedSolver.solve (.int 5) mixedTree () none alternating {} = .ok o j' ∧
      o.restarts = 3 ∧ o.solutions.length = 2 ∧ 26 ≤ j'.draws ∧ j'.draws ≤ 46 := by
  have hcounts : (Search.result? (mixedSolver.solve (.int 5) mixedTree () none alternating {})).map
      (fun o => (o.paths.length, o.iterations, o.restarts, o.solutions.length)) =
        some (2, 12, 3, 2) := by decide +kernel
  obtain ⟨o, j', hsolve, hcounts⟩ := Search.map_result?_eq_some.1 hcounts
  simp only [Prod.mk.injEq] at hcounts
  obtain ⟨hpaths, hiterations, hrestarts, hsolutions⟩ := hcounts
  obtain ⟨⟨D, hdraws, -, hleast, hmost⟩, -⟩ := solve_draws hsolve
  rw [hpaths, hiterations, hrestarts, hsolutions] at hleast hmost
  have hstart : j'.draws = 0 + D := hdraws
  exact ⟨o, j', hsolve, hrestarts, hsolutions, by omega, by omega⟩

end Solver

end MinConflicts
