import MinConflicts.Proofs.BestChoices
import MinConflicts.Proofs.Boundaries

/-!
# Searches do not fail

What is outside of a search can be depended on when the factory builds a model of each assignment
that the tree offers, the evaluator answers with counts about each of these models, and the draws
lie in the unit interval. Then a search over fewer than `2 ^ 53` paths, with fewer than `2 ^ 53`
slots each, gives an outcome: at every settled state each part of an iteration succeeds, and by
what an iteration keeps the next state is settled again.
-/
namespace MinConflicts

variable {M S : Type}

open Search

namespace Settings

def Overrides.Readable : Overrides → Prop
  | .settings _ => True
  | .value v => ∃ o, (toDict v >>= ofValue) = .ok o

variable (s o : Settings)

theorem find?_override (f : Setting) :
    find? (Setting.all.map fun f => (.str f.key, s.overridden o f)) f =
      some (f.key, s.overridden o f) := by
  cases f <;> simp [find?, Value.findKey?, Setting.all, Setting.key]

theorem exists_overridden (f : Setting) : ∃ t : Settings, s.overridden o f = t.valueOf f := by
  unfold overridden
  split_ifs
  · exact ⟨o, rfl⟩
  · exact ⟨s, rfl⟩

theorem exists_override : ∃ c, s.override o = .ok c := by
  obtain ⟨t₁, h₁⟩ := s.exists_overridden o .maxIterations
  obtain ⟨t₂, h₂⟩ := s.exists_overridden o .retryIterations
  obtain ⟨t₃, h₃⟩ := s.exists_overridden o .lookAhead
  obtain ⟨t₄, h₄⟩ := s.exists_overridden o .randomness
  obtain ⟨t₅, h₅⟩ := s.exists_overridden o .preference
  have hlookAhead : ∃ w, readLookAhead (t₃.valueOf .lookAhead) = .ok w := by
    cases hgiven : t₃.lookAhead with
    | none => exact ⟨none, by simp only [valueOf, hgiven]; rfl⟩
    | some z => exact ⟨_, by simp only [valueOf, hgiven]; rfl⟩
  obtain ⟨w, hw⟩ := hlookAhead
  refine ⟨⟨some (max 0 t₁.maxIterations), some (max 0 t₂.retryIterations), some w,
    some (clampFactor t₄.randomness), some (clampFactor t₅.preference)⟩, ?_⟩
  simp only [override, ofEntries, find?_override, readWith, readFactorWith, h₁, h₂, h₃, h₄, h₅, hw]
  rfl

theorem exists_merged {overrides : Option Overrides} (h : ∀ o, overrides = some o → o.Readable) :
    ∃ c, (s.merged overrides).2 = .ok c := by
  cases overrides with
  | none => exact ⟨s, rfl⟩
  | some given =>
    cases given with
    | settings o => exact s.exists_override o
    | value v =>
      obtain ⟨o, ho⟩ := h _ rfl
      obtain ⟨d, hd, ho⟩ := Fault.bind_eq_ok.1 ho
      obtain ⟨c, hc⟩ := s.exists_override o
      refine ⟨c, ?_⟩
      simp only [merged, hd]
      exact Fault.bind_eq_ok.2 ⟨o, ho, hc⟩

end Settings

namespace Board

variable {b : Board} {source : Draws}

theorem InRange.exists_assignment (h : b.InRange) : ∃ a, b.assignment = .ok a := by
  have hvalues : ∃ a : Assignment,
      b.Pointwise (fun _ c v => ∃ s, c.current = .ok s ∧ s.value = v) a := by
    apply Table.exists_pointwise
    intro e he
    obtain ⟨hlow, hhigh⟩ := h e he
    obtain ⟨s, hs⟩ := exists_nth hlow hhigh
    exact ⟨s.value, s, hs, rfl⟩
  obtain ⟨a, ha⟩ := hvalues
  exact ⟨a, assignment_eq_ok.2 ha⟩

theorem scatterEntries_succeeds (hunit : ∀ k, (source k).InUnit) (es : List (String × Cursor))
    (j : Journal M) : ∃ moved j', scatterEntries source es j = .ok (moved, none) j' := by
  induction es generalizing j with
  | nil => exact ⟨[], j, rfl⟩
  | cons e es ih =>
    obtain ⟨path, c⟩ := e
    obtain ⟨i, hi⟩ := position_succeeds (hunit j.draws) c.size
    obtain ⟨moved, j', hmoved⟩ := ih { j with draws := j.draws + 1 }
    exact ⟨_, j', scatterEntries_cons_eq_ok.2 ⟨i, moved, hi, hmoved, rfl⟩⟩

theorem randomize_succeeds (hunit : ∀ k, (source k).InUnit) :
    Succeeds (b.randomize source : Search M Board) := by
  intro j
  obtain ⟨moved, j', hmoved⟩ := scatterEntries_succeeds hunit b.entries j
  exact ⟨⟨moved⟩, j', randomize_iff_scatterEntries.2 hmoved⟩

end Board

structure Context.Dependable (ctx : Context M S) (board : Board) : Prop where
  draws : ∀ k, (ctx.source k).InUnit
  paths : board.size < 0x20000000000000
  sizes : ∀ e ∈ board.entries, e.2.size < 0x20000000000000
  nodup : board.keys.Nodup
  furnished : board.Furnished
  answers : ∀ a, board.Offers a →
    ∃ m, ctx.factory a = .ok m ∧ ctx.evaluator.AnswersCounts m ctx.state

namespace Context

variable {ctx : Context M S} {board b : Board} {p : Progress M}

namespace Dependable

theorem answersCounts (h : ctx.Dependable board) {a : Assignment} {m : M} (ha : board.Offers a)
    (hm : ctx.factory a = .ok m) : ctx.evaluator.AnswersCounts m ctx.state := by
  obtain ⟨m', hm', hanswers⟩ := h.answers a ha
  cases hm.symm.trans hm'
  exact hanswers

theorem exists_place (h : ctx.Dependable board) (halike : board.Alike b) (hin : b.InRange)
    (p : Progress M) : ∃ q, p.place ctx b = .ok q := by
  obtain ⟨a, ha⟩ := hin.exists_assignment
  obtain ⟨m, hm, -⟩ := h.answers a ⟨b, halike, ha⟩
  exact ⟨_, Progress.place_eq_ok.2 ⟨a, m, ha, hm, rfl⟩⟩

end Dependable

theorem Dependable.exists_candidates (h : ctx.Dependable board) (hp : Settled ctx board p)
    {key : String} (hkey : key ∈ p.board.keys) :
    ∃ cs, ctx.candidates p.board p.solutions p.assignment key = .ok cs := by
  obtain ⟨cur, hcur⟩ := Table.get?_of_mem_keys hkey
  simp only [candidates, hcur]
  refine exists_candidatesAt_iff.2 fun e he _ => ?_
  have hoffers := hp.offers_insert h.nodup hcur (Cursor.slots_of_mem_between he)
  obtain ⟨m, hm, -⟩ := h.answers _ hoffers
  exact ⟨m, hm⟩

theorem isCount_of_keyWeights {influence : Table Value} (h : ∀ v ∈ influence.values, v.IsCount) :
    ∀ v ∈ (keyWeights b influence).values, v.IsCount := by
  intro v hv
  simp only [keyWeights, Table.values, List.map_map, List.mem_map] at hv
  obtain ⟨path, -, rfl⟩ := hv
  cases hget : influence.get? path with
  | none => simpa [hget] using Value.isCount_zero
  | some w =>
    have hmem : w ∈ influence.values := List.mem_map_of_mem (Table.mem_entries_of_get? hget)
    simpa [hget] using h w hmem

end Context

namespace Context.Dependable

variable {ctx : Context M S} {board : Board} {p : Progress M}

theorem scoreOf (h : ctx.Dependable board) {c : Candidate M} (hoffers : board.Offers c.assignment)
    (hmodel : ctx.factory c.assignment = .ok c.model) (j : Journal M) :
    ∃ v j', ctx.scoreOf c j = .ok v j' ∧ v.IsNumber := by
  obtain ⟨n, hn, hcount⟩ := (h.answersCounts hoffers hmodel).checked
  obtain ⟨x, hx⟩ := Score.candidate_of_isCount hcount c.slot.preference ctx.settings.preference
  have hscore : ctx.scoreOf c j = .ok (.float x) _ :=
    bind_eq_ok.2 ⟨n, _, count_eq_ok.2 ⟨hn, rfl⟩, lift_eq_ok.2 ⟨hx, rfl⟩⟩
  exact ⟨.float x, _, hscore, Value.isNumber_float x⟩

theorem nextMove (h : ctx.Dependable board) (hp : Settled ctx board p) :
    Succeeds (ctx.nextMove p.board p.solutions p.assignment p.model) := by
  obtain ⟨influence, hinfluence, hcounts⟩ := (h.answersCounts hp.offers hp.model).influence
  refine Succeeds.influence_bind hinfluence ?_
  have hsize : (Context.keyWeights p.board influence).size < 0x20000000000000 := by
    rw [Context.size_keyWeights, hp.size_eq]
    exact h.paths
  have hweights := Context.isCount_of_keyWeights (b := p.board) hcounts
  refine (chooseKey_succeeds h.draws hweights hsize KeyChoice.smoothing).bind fun key _ _ hkey => ?_
  cases key with
  | none => exact .pure none
  | some key =>
    have hmem := chooseKey_mem hkey
    rw [Context.keys_keyWeights] at hmem
    obtain ⟨cs, hcs⟩ := h.exists_candidates hp hmem
    refine Succeeds.lift_bind hcs (minConflicts_succeeds h.draws ?_ (Value.isNumber_float _))
    intro c hc
    -- its model is built from an assignment that the board offers, so it has a score
    have hmove := Context.candidates_isMove hcs hc
    exact h.scoreOf (hp.follow h.nodup hmove).offers hmove.model

end Context.Dependable

namespace Solver

variable {ctx : Context M S} {board : Board} {p : Progress M}

theorem restart_succeeds (h : ctx.Dependable board) (hp : Settled ctx board p) (i : Nat) :
    Succeeds (restart ctx i p) := by
  unfold restart
  split_ifs
  · refine (Board.randomize_succeeds h.draws).bind fun b _ _ hb => ?_
    have halike := hp.alike.trans (Board.alike_randomize hb)
    have hin := (hp.alike.furnished h.furnished).inRange_randomize h.draws hb
    refine (Succeeds.lift (h.exists_place halike hin p)).bind fun q _ _ _ => ?_
    exact (Succeeds.note _ _).bind fun _ _ _ _ => .pure _
  · exact .pure p

theorem record_succeeds (h : ctx.Dependable board) (hp : Settled ctx board p) (i : Nat) :
    Succeeds (record ctx i p) := by
  have halike := hp.alike.trans (Board.alike_reset p.board)
  have hin := (hp.alike.furnished h.furnished).inRange_reset
  refine (Succeeds.note _ _).bind fun _ _ _ _ => .lift ?_
  exact h.exists_place halike hin _

theorem advance_succeeds (h : ctx.Dependable board) (hp : Settled ctx board p) :
    Succeeds (advance ctx p) := by
  refine (h.nextMove hp).bind fun move _ _ _ => ?_
  dsimp only
  split_ifs
  · exact (Succeeds.note _ _).bind fun _ _ _ _ => .pure _
  · exact .pure _

theorem attempt_succeeds (h : ctx.Dependable board) (hp : Settled ctx board p) (i : Nat) :
    Succeeds (attempt ctx i p) := by
  obtain ⟨n, hn, -⟩ := (h.answersCounts hp.offers hp.model).checked
  refine (Succeeds.feasible ⟨n, hn⟩).bind fun feasible _ _ _ => ?_
  split_ifs
  · exact record_succeeds h hp.counted i
  · exact advance_succeeds h hp.counted

theorem run_succeeds (h : ctx.Dependable board) (hp : Settled ctx board p) (limit : Int)
    (n i : Nat) : Succeeds (run ctx limit n i p) := by
  induction n generalizing i p with
  | zero => exact .pure p
  | succ n ih =>
    unfold run
    split_ifs
    · exact .pure p
    · refine ((restart_succeeds h hp i).bind fun q _ _ hq => ?_).bind fun p₁ j₁ j₂ hp₁ => ?_
      · exact attempt_succeeds h (hp.restart h.furnished h.draws hq) i
      · obtain ⟨q, j', hq, hattempt⟩ := bind_eq_ok.1 hp₁
        have hsettled := hp.restart h.furnished h.draws hq
        exact ih (hsettled.attempt h.furnished h.nodup hattempt) (i + 1)

end Solver

theorem Setup.search_succeeds {s : Setup M S} (h : s.ctx.Dependable s.board)
    (hin : s.board.InRange) : Succeeds s.search := by
  have hstart : Succeeds s.start := by
    obtain ⟨a, ha⟩ := hin.exists_assignment
    obtain ⟨m, hm, -⟩ := h.answers a ⟨s.board, Board.alike_refl s.board, ha⟩
    refine (Succeeds.note _ _).bind fun _ _ _ _ => ?_
    exact Succeeds.lift_bind ha (Succeeds.lift_bind hm (.pure _))
  refine hstart.bind fun p _ _ hp => ?_
  refine (Solver.run_succeeds h (settled_of_start hin hp) _ _ _).bind fun q _ _ _ => ?_
  exact (Succeeds.note _ _).bind fun _ _ _ _ => .pure _

namespace Solver

variable {solver : Solver M S} {maxSolutions : Value} {tree : Tree} {state : S}
  {overrides : Option Settings.Overrides} {source : Draws}

/-- A search over fewer than `2 ^ 53` paths with fewer than `2 ^ 53` slots each gives an outcome,
if its factory builds a model of whatever the tree offers, its evaluator answers with counts about
these models and the draws lie in the unit interval, both ends included. -/
theorem solve_succeeds {board : Board} {k : Int} (hboard : Board.ofTree tree true = .ok board)
    (hpaths : board.size < 0x20000000000000)
    (hsizes : ∀ c ∈ board.values, c.size < 0x20000000000000)
    (hanswers : ∀ a, tree.Offers a →
      ∃ m, solver.factory a = .ok m ∧ solver.evaluator.AnswersCounts m state)
    (hoverrides : ∀ o, overrides = some o → o.Readable)
    (hk : maxSolutions.toInteger = .ok k) (hunit : ∀ n, (source n).InUnit) (j : Journal M) :
    ∃ o j', solver.solve maxSolutions tree state overrides source j = .ok o j' := by
  obtain ⟨c, hc⟩ := solver.settings.exists_merged hoverrides
  have hsetup : Succeeds (solver.setup maxSolutions tree state overrides source) := by
    refine (Succeeds.logged ⟨c, hc⟩).bind fun _ _ _ _ => ?_
    refine (Succeeds.lift ⟨board, hboard⟩).bind fun _ _ _ _ => ?_
    exact (Succeeds.lift ⟨k, hk⟩).bind fun _ _ _ _ => .pure _
  refine hsetup.bind (fun s _ _ hs => ?_) j
  obtain ⟨c', k', -, hboard', -, -, hctx⟩ := setup_eq_ok hs
  cases hboard.symm.trans hboard'
  apply Setup.search_succeeds
  · rw [hctx]
    exact {
      draws := hunit
      paths := hpaths
      sizes := fun e he => hsizes _ (List.mem_map_of_mem he)
      nodup := Board.ofTree_keys_nodup hboard
      furnished := Board.ofTree_furnished hboard
      answers := fun a ha => hanswers a (ha.tree hboard) }
  · exact Board.ofTree_inRange hboard

theorem mixed_answersCounts {a : Assignment} (h : mixedTree.Offers a) :
    ∃ m, mixedSolver.factory a = .ok m ∧ mixedSolver.evaluator.AnswersCounts m () := by
  obtain ⟨v, w, rfl, hw⟩ := eq_of_mixedTree_offers h
  refine ⟨_, congrArg Except.ok (mixed_nested v w), ?_⟩
  rcases hw with rfl | rfl
  · exact ⟨⟨.int 1, rfl, 1, rfl, by decide, by decide⟩, some ⟨[("b.c", .int 1)]⟩, rfl,
      by simp [Table.values, Value.IsCount]⟩
  · exact ⟨⟨.int 0, rfl, Value.isCount_zero⟩, some ⟨[]⟩, rfl, by simp [Table.values]⟩

theorem mixedSolver_succeeds_at_upper_end : ∃ o j',
    mixedSolver.solve (.int 5) mixedTree ()
      (some (.value (.dict [(.str "maxIterations", .str "7")]))) (fun _ => .ofNat 1) {} =
        .ok o j' := by
  have hsizes : (Board.ofTree mixedTree true).toOption.map (fun b => b.values.map Cursor.size) =
      some [3, 2] := by decide +kernel
  cases hboard : Board.ofTree mixedTree true with
  | error e =>
    rw [hboard] at hsizes
    cases hsizes
  | ok board =>
    rw [hboard] at hsizes
    have hlist : board.values.map Cursor.size = [3, 2] := Option.some.inj hsizes
    have hcount : board.size = 2 := by
      have hlength := congrArg List.length hlist
      simpa [Table.values, Table.size] using hlength
    apply solve_succeeds hboard
    · rw [hcount]
      decide
    · intro c hc
      have hmem : c.size ∈ [3, 2] := hlist ▸ List.mem_map_of_mem hc
      simp only [List.mem_cons, List.not_mem_nil, or_false] at hmem
      omega
    · exact fun a ha => mixed_answersCounts ha
    · intro o ho
      cases ho
      exact ⟨_, rfl⟩
    · rfl
    · intro n
      decide

end Solver

end MinConflicts
