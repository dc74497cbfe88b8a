import MinConflicts.Proofs.Courses

/-!
# Coherence of a search

A search keeps its position three times: as the indices of the cursors, as an assignment and as a
model. It is coherent when the assignment is the one at the cursors, the model is built from the
assignment, and the cursors are those it started with, up to their indices. Every part of an
iteration keeps a search coherent whatever is drawn; with draws from the unit interval the
indices stay in range too.
-/
namespace MinConflicts

variable {M S : Type}

structure Coherent (ctx : Context M S) (board : Board) (p : Progress M) : Prop where
  alike : board.Alike p.board
  assignment : p.board.assignment = .ok p.assignment
  model : ctx.factory p.assignment = .ok p.model

/-- Coherent, and every cursor points to one of its slots. -/
structure Settled (ctx : Context M S) (board : Board) (p : Progress M) : Prop extends
    Coherent ctx board p where
  inRange : p.board.InRange

variable {ctx : Context M S} {board : Board} {i : Nat} {p q : Progress M} {j j' : Journal M}

theorem Coherent.size_eq (hp : Coherent ctx board p) : p.board.size = board.size := by
  have hlength := congrArg List.length hp.alike.keys_eq
  simpa [Table.keys, Table.size] using hlength.symm

theorem Coherent.counted (hp : Coherent ctx board p) :
    Coherent ctx board { p with iterations := p.iterations + 1 } :=
  ⟨hp.alike, hp.assignment, hp.model⟩

theorem coherent_of_place {b : Board} (hb : board.Alike b) (h : p.place ctx b = .ok q) :
    Coherent ctx board q ∧ q.board = b := by
  obtain ⟨a, m, ha, hm, rfl⟩ := Progress.place_eq_ok.1 h
  exact ⟨⟨hb, ha, hm⟩, rfl⟩

theorem Coherent.restart (hp : Coherent ctx board p) (h : Solver.restart ctx i p j = .ok q j') :
    Coherent ctx board q := by
  rcases Solver.restart_cases h with ⟨-, rfl, -⟩ | ⟨-, b, j₁, p₁, hb, hp₁, rfl, -⟩
  · exact hp
  · have halike := hp.alike.trans (Board.alike_randomize hb)
    obtain ⟨hplaced, -⟩ := coherent_of_place halike hp₁
    exact ⟨hplaced.alike, hplaced.assignment, hplaced.model⟩

theorem Coherent.record (hp : Coherent ctx board p) (h : Solver.record ctx i p j = .ok q j') :
    Coherent ctx board q :=
  (coherent_of_place (hp.alike.trans (Board.alike_reset p.board)) (Solver.record_eq_ok h).1).1

theorem Coherent.offers (hp : Coherent ctx board p) : board.Offers p.assignment :=
  ⟨p.board, hp.alike, hp.assignment⟩

theorem Coherent.offers_insert (hn : board.keys.Nodup) (hp : Coherent ctx board p) {key : String}
    {cur : Cursor} (hcur : p.board.get? key = some cur) {k : Nat} {s : Slot}
    (hs : cur.slots[k]? = some s) : board.Offers (p.assignment.insert key s.value) := by
  have hkeys : p.board.keys.Nodup := hp.alike.keys_eq ▸ hn
  exact ⟨p.board.move key k, hp.alike.trans (Board.alike_move p.board key k),
    Board.assignment_move hp.assignment hkeys hcur hs⟩

theorem Coherent.follow (hn : board.keys.Nodup) (hp : Coherent ctx board p) {c : Candidate M}
    (hc : IsMove ctx p.board p.solutions p.assignment c) :
    Coherent ctx board (p.follow (some c)) := by
  obtain ⟨cur, hcur, hslot⟩ := hc.cursor
  refine ⟨hp.alike.trans (Board.alike_move p.board c.key c.index), ?_, hc.model⟩
  have hkeys : p.board.keys.Nodup := hp.alike.keys_eq ▸ hn
  simp only [Progress.follow, hc.assignment]
  exact Board.assignment_move hp.assignment hkeys hcur hslot

theorem Coherent.advance (hn : board.keys.Nodup) (hp : Coherent ctx board p)
    (h : Solver.advance ctx p j = .ok q j') : Coherent ctx board q := by
  obtain ⟨move, j₁, hmove, rfl, -⟩ := Solver.advance_eq_ok h
  cases move with
  | none => exact hp
  | some c => exact hp.follow hn (Context.nextMove_isMove hmove)

theorem Coherent.attempt (hn : board.keys.Nodup) (hp : Coherent ctx board p)
    (h : Solver.attempt ctx i p j = .ok q j') : Coherent ctx board q := by
  obtain ⟨-, j₁, -, ⟨-, -, hrecord⟩ | ⟨-, hadvance⟩⟩ := Solver.attempt_cases h
  · exact hp.counted.record hrecord
  · exact hp.counted.advance hn hadvance

theorem Settled.counted (hp : Settled ctx board p) :
    Settled ctx board { p with iterations := p.iterations + 1 } :=
  ⟨hp.toCoherent.counted, hp.inRange⟩

theorem Settled.restart (hb : board.Furnished) (hunit : ∀ k, (ctx.source k).InUnit)
    (hp : Settled ctx board p) (h : Solver.restart ctx i p j = .ok q j') :
    Settled ctx board q := by
  refine ⟨hp.toCoherent.restart h, ?_⟩
  rcases Solver.restart_cases h with ⟨-, rfl, -⟩ | ⟨-, b, j₁, p₁, hrandom, hp₁, rfl, -⟩
  · exact hp.inRange
  · have hfurnished := hp.alike.furnished hb
    have halike := hp.alike.trans (Board.alike_randomize hrandom)
    obtain ⟨-, hboard⟩ := coherent_of_place halike hp₁
    exact hboard ▸ hfurnished.inRange_randomize hunit hrandom

theorem Settled.record (hb : board.Furnished) (hp : Settled ctx board p)
    (h : Solver.record ctx i p j = .ok q j') : Settled ctx board q := by
  refine ⟨hp.toCoherent.record h, ?_⟩
  have halike := hp.alike.trans (Board.alike_reset p.board)
  obtain ⟨-, hboard⟩ := coherent_of_place halike (Solver.record_eq_ok h).1
  exact hboard ▸ (hp.alike.furnished hb).inRange_reset

theorem Settled.advance (hn : board.keys.Nodup) (hp : Settled ctx board p)
    (h : Solver.advance ctx p j = .ok q j') : Settled ctx board q := by
  refine ⟨hp.toCoherent.advance hn h, ?_⟩
  obtain ⟨move, j₁, hmove, rfl, -⟩ := Solver.advance_eq_ok h
  cases move with
  | none => exact hp.inRange
  | some c =>
    obtain ⟨cur, hcur, hslot⟩ := (Context.nextMove_isMove hmove).cursor
    obtain ⟨hlt, -⟩ := List.getElem?_eq_some_iff.1 hslot
    have hkeys : p.board.keys.Nodup := hp.alike.keys_eq ▸ hn
    exact hp.inRange.move hkeys hcur (Int.natCast_nonneg _) (Int.ofNat_lt.2 hlt)

theorem Settled.attempt (hb : board.Furnished) (hn : board.keys.Nodup) (hp : Settled ctx board p)
    (h : Solver.attempt ctx i p j = .ok q j') : Settled ctx board q := by
  obtain ⟨-, j₁, -, ⟨-, -, hrecord⟩ | ⟨-, hadvance⟩⟩ := Solver.attempt_cases h
  · exact hp.counted.record hb hrecord
  · exact hp.counted.advance hn hadvance

theorem coherent_of_start {s : Setup M S} (h : s.start j = .ok p j') :
    Coherent s.ctx s.board p ∧ p.board = s.board := by
  obtain ⟨a, m, ha, hm, rfl, -⟩ := Setup.start_eq_ok h
  exact ⟨⟨Board.alike_refl s.board, ha, hm⟩, rfl⟩

theorem settled_of_start {s : Setup M S} (hin : s.board.InRange) (h : s.start j = .ok p j') :
    Settled s.ctx s.board p := by
  obtain ⟨hcoherent, hboard⟩ := coherent_of_start h
  exact ⟨hcoherent, hboard ▸ hin⟩

namespace Solver

variable {solver : Solver M S} {maxSolutions : Value} {tree : Tree} {state : S}
  {overrides : Option Settings.Overrides} {source : Draws} {s : Setup M S}
  {visits : List (Progress M)}

theorem Reaches.coherent
    (h : solver.Reaches maxSolutions tree state overrides source j s visits p j') :
    Coherent s.ctx s.board p ∧ ∀ v ∈ visits, Coherent s.ctx s.board v := by
  obtain ⟨hboard, -⟩ := h.setting
  obtain ⟨j₁, p₀, j₂, -, hstart, hcourse⟩ := h
  have hn := Board.ofTree_keys_nodup hboard
  exact hcourse.invariant (fun hp hr => hp.restart hr) (fun hp ha => hp.attempt hn ha)
    (coherent_of_start hstart).1

/-- With draws from the unit interval a search stays settled: at the head of every iteration,
after a restart that is due there, and in every part of an iteration, from any settled state. -/
theorem settled_throughout (hunit : ∀ k, (source k).InUnit)
    (h : solver.Reaches maxSolutions tree state overrides source j s visits p j') :
    Board.ofTree tree true = .ok s.board ∧ s.ctx.factory = solver.factory ∧
      Settled s.ctx s.board p ∧
      (∀ q j₁, restart s.ctx visits.length p j' = .ok q j₁ → Settled s.ctx s.board q) ∧
      (∀ i q r j₁ j₂, Settled s.ctx s.board q →
        restart s.ctx i q j₁ = .ok r j₂ ∨ record s.ctx i q j₁ = .ok r j₂ ∨
          advance s.ctx q j₁ = .ok r j₂ → Settled s.ctx s.board r) := by
  obtain ⟨hboard, -, -, hsource, hfactory⟩ := h.setting
  obtain ⟨j₁, p₀, j₂, -, hstart, hcourse⟩ := h
  have hn := Board.ofTree_keys_nodup hboard
  have hb := Board.ofTree_furnished hboard
  rw [← hsource] at hunit
  have hstarted : Settled s.ctx s.board p₀ := by
    obtain ⟨hcoherent, hat⟩ := coherent_of_start hstart
    exact ⟨hcoherent, hat ▸ Board.ofTree_inRange hboard⟩
  have hp : Settled s.ctx s.board p :=
    (hcourse.invariant (fun hp hr => hp.restart hb hunit hr)
      (fun hp ha => hp.attempt hb hn ha) hstarted).1
  refine ⟨hboard, hfactory, hp, fun q j₁ hr => hp.restart hb hunit hr, ?_⟩
  intro i q r j₁ j₂ hq h
  rcases h with hr | hr | hr
  · exact hq.restart hb hunit hr
  · exact hq.record hb hr
  · exact hq.advance hn hr

theorem settled_with_mixed_solutions : ∃ s visits p j',
    mixedSolver.Reaches (.int 5) mixedTree () none alternating {} s visits p j' ∧
      p.solutions.length = 2 ∧ Settled s.ctx s.board p := by
  obtain ⟨o, j', hsolve, hlength⟩ := mixedSolver_finds_two
  obtain ⟨s, visits, p, j₁, hreaches, -, rfl, -⟩ := solve_eq_ok hsolve
  obtain ⟨-, -, hsettled, -⟩ := settled_throughout alternating_inUnit hreaches
  exact ⟨s, visits, p, j₁, hreaches, hlength, hsettled⟩

end Solver

end MinConflicts
