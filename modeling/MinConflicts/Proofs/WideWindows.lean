import MinConflicts.Proofs.Mirrors

/-!
# Wide windows

A window of at least twice the size of the largest domain holds all places of every cursor,
wherever the cursor points. So its width no longer matters: candidates are all values of the
chosen variable that lead to no known solution, and a search in one such window goes the same way
as in any other. The width that is derived when none is given is the least of them.
-/
namespace MinConflicts

variable {M S : Type}

theorem Window.around_of_wide {index size largest width : Int} (hlow : 0 ≤ index)
    (hhigh : index < size) (hsize : size ≤ largest) (hwidth : 2 * largest ≤ width) :
    around index size width = ⟨0, size⟩ := by
  have hhalf : largest ≤ width.fdiv 2 := by
    rw [Int.fdiv_eq_ediv_of_nonneg width (by decide)]
    omega
  simp only [around, Window.mk.injEq]
  omega

theorem le_foldl_max (ns : List Nat) (acc : Nat) :
    acc ≤ ns.foldl max acc ∧ ∀ n ∈ ns, n ≤ ns.foldl max acc := by
  induction ns generalizing acc with
  | nil => simp
  | cons n ns ih =>
    obtain ⟨hacc, hns⟩ := ih (max acc n)
    refine ⟨by simp only [List.foldl_cons]; omega, List.forall_mem_cons.2 ⟨?_, hns⟩⟩
    simp only [List.foldl_cons]
    omega

theorem Board.size_le_largest {b : Board} {key : String} {c : Cursor} (h : b.get? key = some c) :
    c.size ≤ b.largest := by
  apply (le_foldl_max _ _).2
  have hentry := Table.mem_entries_of_get? h
  exact List.mem_map_of_mem (List.mem_map_of_mem hentry)

theorem Board.Alike.size_le_largest {b b' : Board} (h : b.Alike b') {key : String} {c : Cursor}
    (hc : b'.get? key = some c) : c.size ≤ b.largest := by
  obtain ⟨c', hc', hslots, -⟩ := h.flip.get? hc
  have hsize : c.size = c'.size := by rw [Cursor.size, hslots, Cursor.size]
  rw [hsize]
  exact Board.size_le_largest hc'

theorem Cursor.between_all (c : Cursor) :
    c.between 0 c.size = (List.range c.size).zip c.slots := by
  simp [between, size, List.range_eq_range']

namespace Context

variable {ctx : Context M S} {board b : Board} {known : List (Solution M)} {a : Assignment}

theorem around_of_wide (halike : board.Alike b) (hin : b.InRange)
    (hwidth : 2 * (board.largest : Int) ≤ ctx.width) {key : String} {cur : Cursor}
    (hcur : b.get? key = some cur) :
    Window.around cur.index cur.size ctx.width = ⟨0, cur.size⟩ := by
  have hsize : (cur.size : Int) ≤ board.largest := Int.ofNat_le.2 (halike.size_le_largest hcur)
  obtain ⟨hlow, hhigh⟩ := hin _ (Table.mem_entries_of_get? hcur)
  exact Window.around_of_wide hlow hhigh hsize hwidth

theorem candidates_of_wide (halike : board.Alike b) (hin : b.InRange)
    (hwidth : 2 * (board.largest : Int) ≤ ctx.width) {key : String} {cur : Cursor}
    (hcur : b.get? key = some cur) : ctx.candidates b known a key =
      ctx.candidatesAt known a key ((List.range cur.size).zip cur.slots) := by
  have hwindow := around_of_wide halike hin hwidth hcur
  simp [candidates, hcur, hwindow, Cursor.between_all]

theorem candidatesAt_with_width (w : Int) (key : String) (ps : List (Nat × Slot)) :
    { ctx with width := w }.candidatesAt known a key ps = ctx.candidatesAt known a key ps := by
  induction ps with
  | nil => rfl
  | cons e ps ih =>
    obtain ⟨i, s⟩ := e
    simp only [candidatesAt, ih]

theorem candidates_with_width (halike : board.Alike b) (hin : b.InRange)
    (hwidth : 2 * (board.largest : Int) ≤ ctx.width) {w : Int} (hw : 2 * (board.largest : Int) ≤ w)
    (key : String) :
    { ctx with width := w }.candidates b known a key = ctx.candidates b known a key := by
  cases hcur : b.get? key with
  | none => simp [candidates, hcur]
  | some cur =>
    have hwide : { ctx with width := w }.candidates b known a key = _ :=
      candidates_of_wide halike hin hw hcur
    rw [hwide, candidates_of_wide halike hin hwidth hcur]
    exact candidatesAt_with_width w key _

end Context

namespace Solver

variable {ctx : Context M S} {board : Board} {p : Progress M}

theorem attempt_with_width (hp : Settled ctx board p)
    (hwidth : 2 * (board.largest : Int) ≤ ctx.width) {w : Int} (hw : 2 * (board.largest : Int) ≤ w)
    (i : Nat) : attempt { ctx with width := w } i p = attempt ctx i p := by
  have hmoves : { ctx with width := w }.nextMove p.board p.solutions p.assignment p.model =
      ctx.nextMove p.board p.solutions p.assignment p.model := by
    have hcandidates : ∀ key, { ctx with width := w }.candidates p.board p.solutions p.assignment
        key = ctx.candidates p.board p.solutions p.assignment key :=
      Context.candidates_with_width hp.alike hp.inRange hwidth hw
    simp only [Context.nextMove, hcandidates]
    rfl
  simp only [attempt, advance, hmoves]
  rfl

theorem run_with_width (hn : board.keys.Nodup) (hb : board.Furnished)
    (hunit : ∀ k, (ctx.source k).InUnit) (hwidth : 2 * (board.largest : Int) ≤ ctx.width) {w : Int}
    (hw : 2 * (board.largest : Int) ≤ w) (hp : Settled ctx board p) (limit : Int) (n i : Nat) :
    run { ctx with width := w } limit n i p = run ctx limit n i p := by
  induction n generalizing i p with
  | zero => rfl
  | succ n ih =>
    have hrestart : restart { ctx with width := w } i p = restart ctx i p := rfl
    have hstep : step { ctx with width := w } i p = step ctx i p := by
      rw [step, hrestart, step]
      apply Search.bind_congr
      intro q j j' hq
      exact attempt_with_width (hp.restart hb hunit hq) hwidth hw i
    simp only [run, hstep]
    split_ifs
    · rfl
    · apply Search.bind_congr
      intro q j j' hq
      obtain ⟨r, j₁, hr, ha⟩ := Search.bind_eq_ok.1 hq
      exact ih ((hp.restart hb hunit hr).attempt hb hn ha) (i + 1)

end Solver

def Settings.AgreesBut (left : Setting) (c c' : Settings) : Prop :=
  ∀ setting, setting ≠ left → c'.valueOf setting = c.valueOf setting

variable {e : Evaluator M S} {factory : Assignment → Except Fault M} {state : S} {source : Draws}
  {c c' : Settings} {board : Board}

theorem Settings.AgreesBut.mirrors (hc : AgreesBut .lookAhead c c') (k : Int) :
    { (Setup.of e factory state source c board k).ctx with
      width := c'.windowWidth board.largest }.Mirrors id board
      (Setup.of e factory state source c' board k).ctx where
  toEchoes := .refl board factory e state
  source := rfl
  width := rfl
  retryIterations := Value.int.inj (hc .retryIterations nofun)
  randomness := Value.float.inj (hc .randomness nofun)
  preference := Value.float.inj (hc .preference nofun)

namespace Solver

variable {settings settings' : Settings} {maxSolutions : Value} {tree : Tree}
  {overrides overrides' : Option Settings.Overrides}

theorem search_lockstep_of_wide (hboard : Board.ofTree tree true = .ok board)
    (hunit : ∀ k, (source k).InUnit) (hc : Settings.AgreesBut .lookAhead c c')
    (hwidth : 2 * (board.largest : Int) ≤ c.windowWidth board.largest)
    (hwidth' : 2 * (board.largest : Int) ≤ c'.windowWidth board.largest) (k : Int) :
    Search.Lockstep (· = ·) (Setup.of e factory state source c board k).search
      (Setup.of e factory state source c' board k).search := by
  have hn := Board.ofTree_keys_nodup hboard
  have hb := Board.ofTree_furnished hboard
  have hbudget : (Setup.of e factory state source c' board k).budget =
      (Setup.of e factory state source c board k).budget :=
    congrArg Int.toNat (Value.int.inj (hc .maxIterations nofun))
  have hstart : Search.Lockstep (· = ·) (Setup.of e factory state source c board k).start
      (Setup.of e factory state source c' board k).start := by
    refine (Search.Lockstep.note _ _ _ _).bind_same fun _ => ?_
    refine (Search.Lockstep.lift_same _).bind_same fun a => ?_
    exact (Search.Lockstep.lift_same _).bind_same fun m => .pure rfl
  refine hstart.bind fun p p' j j₁ hp hpp' => ?_
  subst hpp'
  have hsettled : Settled (Setup.of e factory state source c board k).ctx board p :=
    settled_of_start (Board.ofTree_inRange hboard) hp
  -- the first run is the same in the window of the second one, and then it mirrors that one
  have hrun := run_with_width hn hb hunit hwidth hwidth' hsettled (max 1 k)
    (Setup.of e factory state source c board k).budget 0
  have hmirrors : Context.Mirrors id board _ (Setup.of e factory state source c' board k).ctx :=
    hc.mirrors k
  have hmirrored := hmirrors.run hn ⟨hsettled.alike, hsettled.assignment, hsettled.model⟩
    (max 1 k) (Setup.of e factory state source c board k).budget 0
  rw [hrun, Progress.map_id] at hmirrored
  rw [hbudget]
  refine hmirrored.bind fun q q' _ _ _ hq => ?_
  rw [hq, Progress.map_id]
  exact (Search.Lockstep.note _ _ _ _).bind_same fun _ => .pure rfl

/-- A search with the derived look-ahead and one with an explicit look-ahead of at least twice the
size of the largest domain give the same outcome after the same number of draws, or fail in the
same way. For in such a window a cursor that points to one of its slots sees all of them, and its
candidates are all slots, in order, but for those that lead to a known solution. -/
theorem solve_lockstep_of_saturated {w : Int} (hunit : ∀ k, (source k).InUnit)
    (hmerged : (settings.merged overrides).2 = .ok c)
    (hmerged' : (settings'.merged overrides').2 = .ok c') (hc : Settings.AgreesBut .lookAhead c c')
    (hderived : c.lookAhead = none) (hexplicit : c'.lookAhead = some w)
    (hw : ∀ board, Board.ofTree tree true = .ok board → 2 * (board.largest : Int) ≤ w) :
    Search.Lockstep (· = ·)
        ((⟨e, settings, factory⟩ : Solver M S).solve maxSolutions tree state overrides source)
        ((⟨e, settings', factory⟩ : Solver M S).solve maxSolutions tree state overrides' source) ∧
      ∀ (ctx : Context M S) (board b : Board), Board.ofTree tree true = .ok board →
        ctx.width = c.windowWidth board.largest ∨ ctx.width = c'.windowWidth board.largest →
        board.Alike b → b.InRange → ∀ key cur, b.get? key = some cur →
          Window.around cur.index cur.size ctx.width = ⟨0, cur.size⟩ ∧
          ∀ known a cs, ctx.candidates b known a key = .ok cs →
            cs.map (fun c => (c.index, c.slot)) = ((List.range cur.size).zip cur.slots).filter
              fun e => !isKnown known (a.insert key e.2.value) := by
  have hwidth : ∀ board : Board, 2 * (board.largest : Int) ≤ c.windowWidth board.largest := by
    intro board
    simp [Settings.windowWidth, hderived, Settings.lookAheadMultiplier]
  have hwidth' : ∀ board, Board.ofTree tree true = .ok board →
      2 * (board.largest : Int) ≤ c'.windowWidth board.largest := by
    intro board hboard
    simpa [Settings.windowWidth, hexplicit] using hw board hboard
  refine ⟨?_, ?_⟩
  · have hsettings : Fault.InStep (fun d d' => d = c ∧ d' = c') (settings.merged overrides).2
        (settings'.merged overrides').2 := by
      rw [hmerged, hmerged']
      exact .ok ⟨rfl, rfl⟩
    refine (setup_lockstep hsettings (.refl _)).bind fun s s' _ _ _ hs => ?_
    obtain ⟨_, _, board, k, _, ⟨rfl, rfl⟩, hboard, rfl, rfl, rfl⟩ := hs
    exact search_lockstep_of_wide hboard hunit hc (hwidth board) (hwidth' board hboard) k
  · intro ctx board b hboard hctx halike hin key cur hcur
    have hwide : 2 * (board.largest : Int) ≤ ctx.width := by
      rcases hctx with h | h
      · rw [h]
        exact hwidth board
      · rw [h]
        exact hwidth' board hboard
    refine ⟨Context.around_of_wide halike hin hwide hcur, fun known a cs hcs => ?_⟩
    rw [Context.candidates_of_wide halike hin hwide hcur] at hcs
    exact (Context.candidatesAt_eq_ok.1 hcs).1

def wideSolver : Solver Value Unit :=
  { mixedSolver with settings := { mixedSolver.settings with lookAhead? := some (some 6) } }

theorem mixed_same_with_wide : ∃ o j₁ j₂,
    mixedSolver.solve (.int 5) mixedTree () none alternating {} = .ok o j₁ ∧
      wideSolver.solve (.int 5) mixedTree () none alternating {} = .ok o j₂ ∧
      j₁.draws = j₂.draws ∧ o.solutions.length = 2 := by
  obtain ⟨o, j₁, hsolve, hlength⟩ := mixedSolver_finds_two
  have hmerged : (mixedSolver.settings.merged none).2 = .ok mixedSolver.settings := rfl
  have hmerged' : (wideSolver.settings.merged none).2 = .ok wideSolver.settings := rfl
  have hagrees : Settings.AgreesBut .lookAhead mixedSolver.settings wideSolver.settings := by
    intro setting hsetting
    cases setting with
    | lookAhead => exact absurd rfl hsetting
    | maxIterations | retryIterations | randomness | preference => rfl
  have hlargest : ∀ board, Board.ofTree mixedTree true = .ok board →
      2 * (board.largest : Int) ≤ 6 := by
    intro board hboard
    have hthree : (Board.ofTree mixedTree true).toOption.map Board.largest = some 3 := by
      decide +kernel
    rw [hboard] at hthree
    have hsize : board.largest = 3 := Option.some.inj hthree
    omega
  have hlockstep : Search.Lockstep (· = ·)
      (mixedSolver.solve (.int 5) mixedTree () none alternating)
      (wideSolver.solve (.int 5) mixedTree () none alternating) :=
    (solve_lockstep_of_saturated alternating_inUnit hmerged hmerged' hagrees rfl rfl hlargest).1
  obtain ⟨o', j₂, hsolve', rfl, hdraws⟩ := hlockstep.exists_ok hsolve {} rfl
  exact ⟨o, j₁, j₂, hsolve, hsolve', hdraws, hlength⟩

end Solver

end MinConflicts
