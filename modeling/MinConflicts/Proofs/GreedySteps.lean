import MinConflicts.Proofs.BestChoices
import MinConflicts.Proofs.Neighbours

/-!
# Moves by score

A window of two places or more around a cursor holds the cursor's own place. So the current
assignment, if it is not a known solution, is one of the candidates for each variable, with the
current model. A move by score chooses the best of the candidates, which is not worse than
staying; and without a move staying has no score above 0.
-/
namespace MinConflicts

variable {M S : Type}

theorem Table.insert_of_get? {α : Type} {s : Table α} {key : String} {a : α}
    (h : s.get? key = some a) : s.insert key a = s := by
  obtain ⟨es⟩ := s
  simp only [Table.get?, insert, Table.mk.injEq] at h ⊢
  induction es with
  | nil => cases h
  | cons e es ih =>
    obtain ⟨k, b⟩ := e
    simp only [lookup?] at h
    simp only [setEntry]
    split_ifs at h ⊢ with hk
    · cases h
      rfl
    · rw [ih h]

theorem Cursor.InRange.exists_current {c : Cursor} (h : c.InRange) :
    ∃ (i : Nat) (s : Slot), c.index = i ∧ c.slots[i]? = some s ∧ c.current = .ok s := by
  obtain ⟨hlow, hhigh⟩ := h
  obtain ⟨i, hi⟩ := Int.eq_ofNat_of_zero_le hlow
  have hlt : i < c.slots.length := Int.ofNat_lt.1 (hi ▸ hhigh)
  have hslot := List.getElem?_eq_getElem hlt
  refine ⟨i, _, hi, hslot, ?_⟩
  rw [Cursor.current, hi]
  exact nth_natCast hslot

theorem Search.bestScored_not_worse {γ : Type} {score : γ → Search M Value} {cs : List γ}
    {choice : Option γ} {d : γ} {j j' : Journal M} (hd : d ∈ cs)
    (h : bestScored score none (.float (.zero false)) cs j = .ok choice j') :
    ∃ v, (∃ j₁ j₂, score d j₁ = .ok v j₂) ∧
      (∀ c, choice = some c → c ∈ cs ∧
        ∃ w, (∃ j₁ j₂, score c j₁ = .ok w j₂) ∧ w.lt v = .ok false) ∧
      (choice = none → (Value.float (.zero false)).lt v = .ok false) := by
  have hzero := Value.isNumber_float (.zero false)
  obtain ⟨vs, hvs, hpicks⟩ := bestScored_eq_ok.1 h
  have hnumber := hpicks.isNumber hzero
  obtain ⟨k, hk⟩ := List.mem_iff_getElem?.1 hd
  obtain ⟨v, j₁, j₂, hvk, hv⟩ := mapM_getElem? hvs hk
  have hmem := List.mem_of_getElem? hvk
  refine ⟨v, ⟨j₁, j₂, hv⟩, ?_⟩
  rcases hpicks.spec hzero with ⟨rfl, hnone⟩ | ⟨l, c, rfl, hc, ⟨⟨w, hwl, -, htop⟩, -⟩⟩
  · refine ⟨fun c hc => ?_, fun _ => ?_⟩
    · cases hc
    · exact Value.lt_of_not_below hzero (hnumber v hmem) (hnone v hmem)
  · obtain ⟨w', j₃, j₄, hwl', hw⟩ := mapM_getElem? hvs hc
    cases hwl.symm.trans hwl'
    refine ⟨fun c' hc' => ?_, fun hnone => ?_⟩
    · cases hc'
      exact ⟨List.mem_of_getElem? hc, w, ⟨j₃, j₄, hw⟩, Value.lt_of_not_below
        (hnumber w (List.mem_of_getElem? hwl)) (hnumber v hmem) (htop v hmem)⟩
    · cases hnone

namespace Context

variable {ctx : Context M S} {board : Board} {p : Progress M} {known : List (Solution M)}
  {key : String} {cur : Cursor} {cs : List (Candidate M)}

theorem insert_current (hp : Coherent ctx board p) (hcur : p.board.get? key = some cur) {s : Slot}
    (hs : cur.current = .ok s) : p.assignment.insert key s.value = p.assignment := by
  obtain ⟨v, hv, t, ht, rfl⟩ := (Board.assignment_eq_ok.1 hp.assignment).get? hcur
  cases hs.symm.trans ht
  exact Table.insert_of_get? hv

theorem exists_staying (hp : Settled ctx board p) (hwidth : 2 ≤ ctx.width)
    (hnew : isKnown known p.assignment = false) (hcur : p.board.get? key = some cur)
    (hcs : ctx.candidates p.board known p.assignment key = .ok cs) :
    ∃ c ∈ cs, cur.current = .ok c.slot ∧ c.model = p.model := by
  have hin : cur.InRange := hp.inRange _ (Table.mem_entries_of_get? hcur)
  obtain ⟨i, s, hi, hslot, hs⟩ := hin.exists_current
  have hstay := insert_current hp.toCoherent hcur hs
  have hhalf : 1 ≤ ctx.width.fdiv 2 := by
    rw [Int.fdiv_eq_ediv_of_nonneg _ (by decide)]
    omega
  have hseen : (i, s) ∈ cur.seen ctx.width := by
    obtain ⟨hlow, hhigh⟩ := hin
    exact Cursor.mem_seen.2 ⟨by omega, hslot⟩
  have hplace : i ∈ cs.map (·.index) :=
    (mem_index_candidates hcur hcs).2 ⟨s, hseen, hstay.symm ▸ hnew⟩
  obtain ⟨c, hc, rfl⟩ := List.mem_map.1 hplace
  obtain ⟨hcslot, hmakes⟩ := candidates_slot hcur hcs hc
  cases hslot.symm.trans hcslot
  have hmodel := hmakes.model
  rw [hmakes.assignment, hstay, hp.model] at hmodel
  exact ⟨c, hc, hs, (Except.ok.inj hmodel).symm⟩

theorem scoreOf_eq_ok {c : Candidate M} {v : Value} {j j' : Journal M}
    (h : ctx.scoreOf c j = .ok v j') : ctx.evaluator.score c.model ctx.state
      (.float c.slot.preference) (.float ctx.settings.preference) = .ok v := by
  obtain ⟨n, j₁, hn, h⟩ := Search.bind_eq_ok.1 h
  exact Fault.bind_eq_ok.2 ⟨n, (Search.count_eq_ok.1 hn).1, (Search.lift_eq_ok.1 h).1⟩

/-- At a settled state whose assignment is not known, in a window of two places or more: when a
move chooses a variable and then chooses by score, staying with that variable's value has a score.
It is not above the score of the candidate that is chosen, and not above 0 if none is. -/
theorem nextMove_not_worse_than_staying (hp : Settled ctx board p) (hwidth : 2 ≤ ctx.width)
    (hnew : ∀ r ∈ known, r.assignment.same p.assignment = false) {influence : Table Value}
    {move : Option (Candidate M)} {j j₁ j₂ j' : Journal M}
    (hinfluence : Search.influence ctx.evaluator p.model ctx.state j = .ok influence j₁)
    (hkey : Search.chooseKey ctx.source (keyWeights p.board influence)
      (.float KeyChoice.smoothing) j₁ = .ok (some key) j₂)
    (hscored : (ctx.source j₂.draws).lt ctx.settings.randomness = false)
    (hmove : ctx.nextMove p.board known p.assignment p.model j = .ok move j') :
    ∃ cur slot stay, p.board.get? key = some cur ∧ cur.current = .ok slot ∧
      ctx.evaluator.score p.model ctx.state (.float slot.preference)
        (.float ctx.settings.preference) = .ok stay ∧
      (∀ c, move = some c → c.key = key ∧ ∃ v, ctx.evaluator.score c.model ctx.state
        (.float c.slot.preference) (.float ctx.settings.preference) = .ok v ∧
          v.lt stay = .ok false) ∧
      (move = none → (Value.float (.zero false)).lt stay = .ok false) := by
  obtain ⟨_, _, choice, _, hinfluence', hkey', hcases⟩ := nextMove_cases hmove
  cases hinfluence.symm.trans hinfluence'
  cases hkey.symm.trans hkey'
  obtain ⟨hnone, -, -⟩ | ⟨key', cs, hsome, hcs, hchosen⟩ := hcases
  · cases hnone
  cases hsome
  have hmem : key ∈ p.board.keys := by
    rw [← keys_keyWeights p.board influence]
    exact Search.chooseKey_mem hkey
  obtain ⟨cur, hcur⟩ := Table.get?_of_mem_keys hmem
  obtain ⟨staying, hstaying, hcurrent, hmodel⟩ :=
    exists_staying hp hwidth (isKnown_eq_false_iff.2 hnew) hcur hcs
  rcases Search.minConflicts_cases hchosen with
    ⟨rfl, -, -⟩ | ⟨-, accepted, haccepted, ⟨rfl, -⟩ | ⟨-, hbest⟩⟩
  · exact absurd hstaying List.not_mem_nil
  · cases hscored.symm.trans (Except.ok.inj haccepted)
  obtain ⟨stay, ⟨_, _, hstay⟩, hbetter, hnone⟩ := Search.bestScored_not_worse hstaying hbest
  refine ⟨cur, staying.slot, stay, hcur, hcurrent, hmodel ▸ scoreOf_eq_ok hstay, ?_, hnone⟩
  intro c hc
  obtain ⟨hcmem, v, ⟨_, _, hv⟩, hlt⟩ := hbetter c hc
  obtain ⟨-, hmakes⟩ := candidates_slot hcur hcs hcmem
  exact ⟨hmakes.variable_eq, v, scoreOf_eq_ok hv, hlt⟩

end Context

namespace Solver

theorem mixedContext_moves_from_start : ∃ board c j' cur slot stay v,
    Board.ofTree mixedTree true = .ok board ∧
    mixedContext.nextMove board [] mixedStart mixedStart.nested {} = .ok (some c) j' ∧
    c.key = "b.c" ∧ c.index = 1 ∧ board.get? "b.c" = some cur ∧ cur.current = .ok slot ∧
    mixedContext.evaluator.score mixedStart.nested () (.float slot.preference)
      (.float mixedContext.settings.preference) = .ok stay ∧
    mixedContext.evaluator.score c.model () (.float c.slot.preference)
      (.float mixedContext.settings.preference) = .ok v ∧ v.lt stay = .ok false := by
  obtain ⟨board, hboard, hp⟩ := exists_mixed_start
  have hrun : (Board.ofTree mixedTree true).toOption.bind (fun board =>
      match mixedContext.nextMove board [] mixedStart mixedStart.nested {} with
      | .ok move _ => move.map fun c => (c.key, c.index)
      | .error _ _ => none) = some ("b.c", 1) := by decide +kernel
  rw [hboard, Except.toOption, Option.bind_some] at hrun
  cases hmove : mixedContext.nextMove board [] mixedStart mixedStart.nested {} with
  | error f j' =>
    rw [hmove] at hrun
    cases hrun
  | ok move j' =>
    rw [hmove] at hrun
    obtain ⟨c, rfl, hc⟩ := Option.map_eq_some_iff.1 hrun
    obtain ⟨hkey, hindex⟩ := Prod.mk.inj hc
    obtain ⟨influence, j₁, choice, j₂, hinfluence, hchoice, hcases⟩ := Context.nextMove_cases hmove
    obtain ⟨-, hnone, -⟩ | ⟨key, cs, rfl, hcs, hchosen⟩ := hcases
    · cases hnone
    have hscored : (Binary64.ofNat 1).lt mixedContext.settings.randomness = false := by
      decide +kernel
    obtain ⟨cur, slot, stay, hcur, hslot, hstay, hbetter, -⟩ :=
      Context.nextMove_not_worse_than_staying hp (by decide) (by simp) hinfluence hchoice
        hscored hmove
    obtain ⟨rfl, v, hv, hlt⟩ := hbetter c rfl
    exact ⟨board, c, j', cur, slot, stay, v, hboard, hmove, hkey, hindex, hkey ▸ hcur, hslot,
      hstay, hv, hlt⟩

end Solver

end MinConflicts
