import MinConflicts.Proofs.Coherence
import MinConflicts.Proofs.Lockstep

/-!
# Searches that mirror each other

A search reaches its factory and its evaluator only with assignments that its board offers and
with the models built from them. If another factory and another evaluator answer there in the same
way, up to a function `f` on models, and the settings that steer a search are the same, then both
searches are in lock-step: the second goes through the images under `f` of the states of the
first. What a part of an iteration does is compared part by part, then run by run.
-/
namespace MinConflicts

variable {M M' S S' : Type}

def Solution.map (f : M → M') (s : Solution M) : Solution M' := ⟨s.assignment, f s.model⟩

def Candidate.map (f : M → M') (c : Candidate M) : Candidate M' :=
  ⟨c.key, c.index, c.slot, c.assignment, f c.model⟩

def Progress.map (f : M → M') (p : Progress M) : Progress M' where
  board := p.board
  assignment := p.assignment
  model := f p.model
  solutions := p.solutions.map (Solution.map f)
  iterations := p.iterations
  restarts := p.restarts

def Outcome.map (f : M → M') (o : Outcome M) : Outcome M' :=
  ⟨o.paths, o.solutions.map (Solution.map f), o.iterations, o.restarts⟩

@[simp] theorem isKnown_map (f : M → M') (known : List (Solution M)) (a : Assignment) :
    isKnown (known.map (Solution.map f)) a = isKnown known a := by
  simp [isKnown, Solution.map, Function.comp_def]

theorem Progress.map_follow (f : M → M') (p : Progress M) (move : Option (Candidate M)) :
    (p.map f).follow (move.map (Candidate.map f)) = (p.follow move).map f := by
  cases move <;> rfl

theorem Progress.map_id (p : Progress M) : p.map id = p := by
  have hsolution : Solution.map (id : M → M) = id := rfl
  simp [Progress.map, hsolution]

theorem Outcome.map_id (o : Outcome M) : o.map id = o := by
  have hsolution : Solution.map (id : M → M) = id := rfl
  simp [Outcome.map, hsolution]

/-- On what the board offers, the second factory builds the images of the first one's models, and
about these the second evaluator tells a search the same: the same counts, and the same weights of
the variables. -/
structure Echoes (f : M → M') (board : Board) (factory : Assignment → Except Fault M)
    (e : Evaluator M S) (state : S) (factory' : Assignment → Except Fault M')
    (e' : Evaluator M' S') (state' : S') : Prop where
  builds : ∀ a, board.Offers a → Fault.InStep (fun m m' => m' = f m) (factory a) (factory' a)
  counts : ∀ a m, board.Offers a → factory a = .ok m → e.checked m state = e'.checked (f m) state'
  weighs : ∀ a m, board.Offers a → factory a = .ok m →
    Fault.InStep (fun t t' => Context.keyWeights board t' = Context.keyWeights board t)
      (e.influence m state) (e'.influence (f m) state')

theorem Echoes.refl (board : Board) (factory : Assignment → Except Fault M) (e : Evaluator M S)
    (state : S) : Echoes id board factory e state factory e state where
  builds a _ := by
    apply Fault.InStep.of_refl
    exact fun m => rfl
  counts _ _ _ _ := rfl
  weighs _ m _ _ := by
    apply Fault.InStep.of_refl
    exact fun t => rfl

structure Context.Mirrors (f : M → M') (board : Board) (ctx : Context M S)
    (ctx' : Context M' S') : Prop extends
    Echoes f board ctx.factory ctx.evaluator ctx.state ctx'.factory ctx'.evaluator ctx'.state where
  source : ctx'.source = ctx.source
  width : ctx'.width = ctx.width
  retryIterations : ctx'.settings.retryIterations = ctx.settings.retryIterations
  randomness : ctx'.settings.randomness = ctx.settings.randomness
  preference : ctx'.settings.preference = ctx.settings.preference

open Search

variable {f : M → M'} {board : Board} {ctx : Context M S} {ctx' : Context M' S'}
  {p : Progress M} {i : Nat}

namespace Context.Mirrors

theorem candidatesAt (h : ctx.Mirrors f board ctx') (known : List (Solution M)) {a : Assignment}
    {key : String} {ps : List (Nat × Slot)}
    (hps : ∀ e ∈ ps, board.Offers (a.insert key e.2.value)) :
    Fault.InStep (fun cs cs' => cs' = cs.map (Candidate.map f)) (ctx.candidatesAt known a key ps)
      (ctx'.candidatesAt (known.map (Solution.map f)) a key ps) := by
  induction ps with
  | nil => exact .ok rfl
  | cons e ps ih =>
    obtain ⟨i, s⟩ := e
    obtain ⟨hfirst, hrest⟩ := List.forall_mem_cons.1 hps
    simp only [Context.candidatesAt, isKnown_map]
    split_ifs
    · exact ih hrest
    · refine (h.builds _ hfirst).bind fun m m' _ hm => ?_
      subst hm
      refine (ih hrest).bind fun cs cs' _ hcs => ?_
      subst hcs
      exact .ok rfl

theorem candidates (h : ctx.Mirrors f board ctx') (hn : board.keys.Nodup)
    (hp : Coherent ctx board p) (key : String) :
    Fault.InStep (fun cs cs' => cs' = cs.map (Candidate.map f))
      (ctx.candidates p.board p.solutions p.assignment key)
      (ctx'.candidates p.board (p.solutions.map (Solution.map f)) p.assignment key) := by
  unfold Context.candidates
  cases hc : p.board.get? key with
  | none => exact .error _
  | some c =>
    simp only [h.width]
    apply h.candidatesAt
    exact fun e he => hp.offers_insert hn hc (Cursor.slots_of_mem_between he)

theorem scoreOf (h : ctx.Mirrors f board ctx') {c : Candidate M}
    (hoffers : board.Offers c.assignment) (hmodel : ctx.factory c.assignment = .ok c.model) :
    Lockstep (· = ·) (ctx.scoreOf c) (ctx'.scoreOf (c.map f)) := by
  unfold Context.scoreOf
  rw [h.preference]
  exact .score (h.counts _ _ hoffers hmodel) _ _

theorem nextMove (h : ctx.Mirrors f board ctx') (hn : board.keys.Nodup)
    (hp : Coherent ctx board p) :
    Lockstep (fun move move' => move' = move.map (Candidate.map f))
      (ctx.nextMove p.board p.solutions p.assignment p.model)
      (ctx'.nextMove p.board (p.solutions.map (Solution.map f)) p.assignment (f p.model)) := by
  refine (Lockstep.influence (h.weighs _ _ hp.offers hp.model)).bind fun t t' _ _ _ ht => ?_
  -- the same weights, so both choose the same variable
  have hweights : keyWeights p.board t' = keyWeights p.board t := by
    simpa only [keyWeights, hp.alike.keys_eq] using ht
  simp only [hweights, h.source, h.randomness]
  refine (Lockstep.chooseKey _ _ _).bind_same fun key => ?_
  cases key with
  | none => exact .pure rfl
  | some key =>
    refine (Lockstep.lift (h.candidates hn hp key)).bind fun cs cs' _ _ hcs hmap => ?_
    subst hmap
    obtain ⟨hcs, -⟩ := Search.lift_eq_ok.1 hcs
    have hcandidates : List.Forall₂ (fun c c' => c' = c.map f ∧
        IsMove ctx p.board p.solutions p.assignment c) cs (cs.map (Candidate.map f)) := by
      rw [List.forall₂_map_right_iff, List.forall₂_same]
      exact fun c hc => ⟨rfl, candidates_isMove hcs hc⟩
    refine (Lockstep.minConflicts _ _ hcandidates ?_).mono ?_
    · intro c c' hc
      obtain ⟨rfl, hmove⟩ := hc
      exact h.scoreOf (hp.follow hn hmove).offers hmove.model
    · intro move move' hmove
      cases hmove with
      | none => rfl
      | some hc => rw [hc.1, Option.map_some]

theorem place (h : ctx.Mirrors f board ctx') {b : Board} (hb : board.Alike b) (p : Progress M) :
    Fault.InStep (fun q q' => q' = q.map f) (p.place ctx b) ((p.map f).place ctx' b) := by
  refine (Fault.InStep.refl b.assignment).bind fun a a' ha haa' => ?_
  subst haa'
  refine (h.builds a ⟨b, hb, ha⟩).bind fun m m' _ hm => ?_
  subst hm
  exact .ok rfl

theorem restart (h : ctx.Mirrors f board ctx') (hp : Coherent ctx board p) (i : Nat) :
    Lockstep (fun q q' => q' = q.map f) (Solver.restart ctx i p)
      (Solver.restart ctx' i (p.map f)) := by
  have hdue : Solver.restartDue ctx'.settings i = Solver.restartDue ctx.settings i := by
    rw [Solver.restartDue, h.retryIterations, Solver.restartDue]
  unfold Solver.restart
  rw [hdue, h.source]
  split_ifs
  · refine (Lockstep.randomize ctx.source p.board).bind fun b b' _ _ hb hbb' => ?_
    subst hbb'
    have halike := hp.alike.trans (Board.alike_randomize hb)
    refine (Lockstep.lift (h.place halike p)).bind fun q q' _ _ _ hq => ?_
    subst hq
    exact (Lockstep.note _ _ _ _).bind_same fun _ => .pure rfl
  · exact .pure rfl

theorem record (h : ctx.Mirrors f board ctx') (hp : Coherent ctx board p) (i : Nat) :
    Lockstep (fun q q' => q' = q.map f) (Solver.record ctx i p)
      (Solver.record ctx' i (p.map f)) := by
  have halike := hp.alike.trans (Board.alike_reset p.board)
  have hplace := h.place halike { p with solutions := p.solutions ++ [⟨p.assignment, p.model⟩] }
  have himage : Progress.map f { p with solutions := p.solutions ++ [⟨p.assignment, p.model⟩] } =
      { p.map f with solutions := (p.map f).solutions ++ [⟨p.assignment, f p.model⟩] } := by
    simp [Progress.map, Solution.map]
  rw [himage] at hplace
  exact (Lockstep.note _ _ _ _).bind_same fun _ => .lift hplace

theorem advance (h : ctx.Mirrors f board ctx') (hn : board.keys.Nodup)
    (hp : Coherent ctx board p) :
    Lockstep (fun q q' => q' = q.map f) (Solver.advance ctx p)
      (Solver.advance ctx' (p.map f)) := by
  refine (h.nextMove hn hp).bind fun move move' _ _ _ hmove => ?_
  subst hmove
  have hiterations : ((p.follow move).map f).iterations = (p.follow move).iterations := rfl
  rw [Progress.map_follow]
  by_cases hdue : (p.follow move).iterations % Solver.progressInterval = 0
  · simp only [hiterations, if_pos hdue]
    exact (Lockstep.note _ _ _ _).bind_same fun _ => .pure rfl
  · simp only [hiterations, if_neg hdue]
    exact .pure rfl

theorem attempt (h : ctx.Mirrors f board ctx') (hn : board.keys.Nodup)
    (hp : Coherent ctx board p) (i : Nat) :
    Lockstep (fun q q' => q' = q.map f) (Solver.attempt ctx i p)
      (Solver.attempt ctx' i (p.map f)) := by
  refine (Lockstep.feasible (h.counts _ _ hp.offers hp.model)).bind_same fun feasible => ?_
  simp only [Progress.map, isKnown_map]
  split_ifs
  · exact h.record hp.counted i
  · exact h.advance hn hp.counted

theorem step (h : ctx.Mirrors f board ctx') (hn : board.keys.Nodup) (hp : Coherent ctx board p)
    (i : Nat) :
    Lockstep (fun q q' => q' = q.map f) (Solver.step ctx i p) (Solver.step ctx' i (p.map f)) := by
  refine (h.restart hp i).bind fun q q' _ _ hq hqq' => ?_
  subst hqq'
  exact h.attempt hn (hp.restart hq) i

theorem run (h : ctx.Mirrors f board ctx') (hn : board.keys.Nodup) (hp : Coherent ctx board p)
    (limit : Int) (n i : Nat) :
    Lockstep (fun q q' => q' = q.map f) (Solver.run ctx limit n i p)
      (Solver.run ctx' limit n i (p.map f)) := by
  induction n generalizing i p with
  | zero => exact .pure rfl
  | succ n ih =>
    have hlength : (p.map f).solutions.length = p.solutions.length := List.length_map _
    unfold Solver.run
    rw [hlength]
    split_ifs
    · exact .pure rfl
    · refine (h.step hn hp i).bind fun q q' _ _ hq hqq' => ?_
      subst hqq'
      obtain ⟨r, j₁, hr, ha⟩ := Search.bind_eq_ok.1 hq
      exact ih ((hp.restart hr).attempt hn ha) (i + 1)

end Context.Mirrors

structure Setup.Mirrors (f : M → M') (s : Setup M S) (s' : Setup M' S') : Prop where
  board : s'.board = s.board
  limit : s'.limit = s.limit
  budget : s'.budget = s.budget
  ctx : s.ctx.Mirrors f s.board s'.ctx

namespace Setup

variable {s : Setup M S} {s' : Setup M' S'}

theorem start_lockstep (hboard : s'.board = s.board)
    (hctx : s.ctx.Mirrors f s.board s'.ctx) :
    Lockstep (fun p p' => p' = p.map f) s.start s'.start := by
  refine (Lockstep.note _ _ _ _).bind_same fun _ => ?_
  rw [hboard]
  refine (Lockstep.lift_same _).bind fun a a' _ _ ha haa' => ?_
  subst haa'
  obtain ⟨ha, -⟩ := Search.lift_eq_ok.1 ha
  have hoffers : s.board.Offers a := ⟨s.board, Board.alike_refl s.board, ha⟩
  refine (Lockstep.lift (hctx.builds a hoffers)).bind fun m m' _ _ _ hm => ?_
  subst hm
  exact .pure rfl

theorem search_lockstep (h : s.Mirrors f s') (hn : s.board.keys.Nodup) :
    Lockstep (fun o o' => o' = o.map f) s.search s'.search := by
  refine (start_lockstep h.board h.ctx).bind fun p p' _ _ hp hpp' => ?_
  subst hpp'
  rw [h.limit, h.budget, h.board]
  have hcoherent := (coherent_of_start hp).1
  refine (h.ctx.run hn hcoherent s.limit s.budget 0).bind fun q q' _ _ _ hq => ?_
  subst hq
  exact (Lockstep.note _ _ _ _).bind_same fun _ => .pure rfl

end Setup

/-- The settings agree in all but the number of iterations. -/
def Settings.SteersAs (c c' : Settings) : Prop :=
  ∀ setting, setting ≠ .maxIterations → c'.valueOf setting = c.valueOf setting

theorem Settings.SteersAs.refl (c : Settings) : c.SteersAs c := fun _ _ => rfl

theorem Settings.SteersAs.symm {c c' : Settings} (h : c.SteersAs c') : c'.SteersAs c :=
  fun setting hsetting => (h setting hsetting).symm

theorem Settings.SteersAs.lookAhead {c c' : Settings} (h : c.SteersAs c') :
    c'.lookAhead = c.lookAhead := by
  have hvalue := h .lookAhead nofun
  simp only [valueOf] at hvalue
  cases hc : c.lookAhead <;> cases hc' : c'.lookAhead <;> simp_all

def Setup.of (e : Evaluator M S) (factory : Assignment → Except Fault M) (state : S)
    (source : Draws) (c : Settings) (board : Board) (k : Int) : Setup M S :=
  ⟨⟨e, state, c, source, factory, c.windowWidth board.largest⟩, board, max 1 k⟩

variable {e : Evaluator M S} {factory : Assignment → Except Fault M} {e' : Evaluator M' S'}
  {factory' : Assignment → Except Fault M'} {state : S} {state' : S'} {source : Draws}

theorem Echoes.mirrors (h : Echoes f board factory e state factory' e' state') {c c' : Settings}
    (hc : c.SteersAs c') (source : Draws) (k k' : Int) :
    (Setup.of e factory state source c board k).ctx.Mirrors f board
      (Setup.of e' factory' state' source c' board k').ctx where
  toEchoes := h
  source := rfl
  width := by simp only [Setup.of, Settings.windowWidth, hc.lookAhead]
  retryIterations := Value.int.inj (hc .retryIterations nofun)
  randomness := Value.float.inj (hc .randomness nofun)
  preference := Value.float.inj (hc .preference nofun)

namespace Solver

variable {settings settings' : Settings} {maxSolutions maxSolutions' : Value} {tree : Tree}
  {overrides overrides' : Option Settings.Overrides}

theorem setup_lockstep {C : Settings → Settings → Prop} {K : Int → Int → Prop}
    (hc : Fault.InStep C (settings.merged overrides).2 (settings'.merged overrides').2)
    (hk : Fault.InStep K maxSolutions.toInteger maxSolutions'.toInteger) :
    Lockstep (fun s s' => ∃ c c' board k k', C c c' ∧ Board.ofTree tree true = .ok board ∧
        K k k' ∧ s = .of e factory state source c board k ∧
        s' = .of e' factory' state' source c' board k')
      ((⟨e, settings, factory⟩ : Solver M S).setup maxSolutions tree state overrides source)
      ((⟨e', settings', factory'⟩ : Solver M' S').setup maxSolutions' tree state' overrides'
        source) := by
  refine (Lockstep.logged hc).bind fun c c' _ _ _ hcc' => ?_
  refine (Lockstep.lift_same _).bind fun board board' _ _ hboard hboards => ?_
  subst hboards
  obtain ⟨hboard, -⟩ := Search.lift_eq_ok.1 hboard
  refine (Lockstep.lift hk).bind fun k k' _ _ _ hkk' => ?_
  exact .pure ⟨c, c', board, k, k', hcc', hboard, hkk', rfl, rfl⟩

/-- Solvers with the same settings are in lock-step if their factories and evaluators answer in
the same way wherever the tree leads. -/
theorem solve_lockstep (h : ∀ board, Board.ofTree tree true = .ok board →
      Echoes f board factory e state factory' e' state') :
    Lockstep (fun o o' => o' = o.map f)
      ((⟨e, settings, factory⟩ : Solver M S).solve maxSolutions tree state overrides source)
      ((⟨e', settings, factory'⟩ : Solver M' S').solve maxSolutions tree state' overrides
        source) := by
  refine (setup_lockstep (.refl _) (.refl _)).bind fun s s' _ _ _ hs => ?_
  obtain ⟨c, c', board, k, k', rfl, hboard, rfl, rfl, rfl⟩ := hs
  have hctx := (h board hboard).mirrors (.refl c) source k k
  exact Setup.search_lockstep ⟨rfl, rfl, rfl, hctx⟩ (Board.ofTree_keys_nodup hboard)

end Solver

end MinConflicts
