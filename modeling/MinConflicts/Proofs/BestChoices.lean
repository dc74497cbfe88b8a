import MinConflicts.Proofs.DrawCounts

/-!
# The best of scored candidates

A candidate that is not chosen at random is chosen by score. The candidates are scored one after
another, each once, while the best score so far starts at 0 and gives way to greater ones only.
What is left in the end is the first top: the first candidate whose score is above 0 and below no
other score. A NaN is neither above 0 nor below anything, and no other score is below it, so it
is passed over wherever it comes.
-/
namespace MinConflicts

variable {M γ : Type}

namespace Value

def IsNumber (v : Value) : Prop := ∃ x, v.number? = some x

/-- Whether a value is less than another one, where the two can be compared. -/
def Below (v w : Value) : Prop := v.lt w = .ok true

def level? (v : Value) : Option (WithBot (WithTop ℚ)) := v.number?.bind fun x => x.exact.level?

variable {u v w : Value}

theorem isNumber_float (x : Binary64) : (Value.float x).IsNumber := ⟨.float x, rfl⟩

theorem lt_eq_ok {x : Number} (hv : v.number? = some x) {below : Bool} :
    v.lt w = .ok below ↔ ∃ y, w.number? = some y ∧ x.lt y = below := by
  have hcompare : v.lt w = w.number?.elim (.error .wrongType) fun y => .ok (x.lt y) := by
    cases v with
    | null | str | list | dict => cases hv
    | bool | int | float =>
      cases hv
      cases w <;> rfl
  rw [hcompare]
  cases w.number? with
  | none => simp
  | some y => simp

theorem exists_lt (hv : v.IsNumber) (hw : w.IsNumber) : ∃ below, v.lt w = .ok below := by
  obtain ⟨x, hx⟩ := hv
  obtain ⟨y, hy⟩ := hw
  exact ⟨x.lt y, (lt_eq_ok hx).2 ⟨y, hy, rfl⟩⟩

theorem isNumber_of_lt (hv : v.IsNumber) {below : Bool} (h : v.lt w = .ok below) :
    w.IsNumber := by
  obtain ⟨x, hx⟩ := hv
  obtain ⟨y, hy, -⟩ := (lt_eq_ok hx).1 h
  exact ⟨y, hy⟩

theorem lt_of_not_below (hv : v.IsNumber) (hw : w.IsNumber) (h : ¬v.Below w) :
    v.lt w = .ok false := by
  obtain ⟨below, hbelow⟩ := exists_lt hv hw
  cases below with
  | true => exact absurd hbelow h
  | false => exact hbelow

theorem below_iff (hv : v.IsNumber) :
    v.Below w ↔ ∃ p q, v.level? = some p ∧ w.level? = some q ∧ p < q := by
  obtain ⟨x, hx⟩ := hv
  simp only [Below, lt_eq_ok hx, Number.lt_iff, level?, hx, Option.bind_some,
    Option.bind_eq_some_iff]
  constructor
  · rintro ⟨y, hy, p, q, hp, hq, hpq⟩
    exact ⟨p, q, hp, ⟨y, hy, hq⟩, hpq⟩
  · rintro ⟨p, q, hp, ⟨y, hy, hq⟩, hpq⟩
    exact ⟨y, hy, p, q, hp, hq, hpq⟩

theorem not_below_self (hv : v.IsNumber) : ¬v.Below v := by
  rw [below_iff hv]
  rintro ⟨p, q, hp, hq, hpq⟩
  cases hp.symm.trans hq
  exact lt_irrefl _ hpq

theorem Below.trans (hu : u.IsNumber) (huv : u.Below v) (hvw : v.Below w) : u.Below w := by
  rw [below_iff (isNumber_of_lt hu huv)] at hvw
  rw [below_iff hu] at huv ⊢
  obtain ⟨p, q, hp, hq, hpq⟩ := huv
  obtain ⟨q', r, hq', hr, hqr⟩ := hvw
  cases hq.symm.trans hq'
  exact ⟨p, r, hp, hr, hpq.trans hqr⟩

theorem Below.of_not_below (hu : u.IsNumber) (hv : v.IsNumber) (huw : u.Below w) {t : Value}
    (hvt : v.Below t) (hvw : ¬v.Below w) : w.Below t := by
  have hw := isNumber_of_lt hu huw
  rw [below_iff hu] at huw
  rw [below_iff hv] at hvt hvw
  obtain ⟨-, q, -, hq, -⟩ := huw
  obtain ⟨p, r, hp, hr, hpr⟩ := hvt
  refine (below_iff hw).2 ⟨q, r, hq, hr, ?_⟩
  by_contra hqr
  exact hvw ⟨p, q, hp, hq, hpr.trans_le (not_lt.1 hqr)⟩

end Value

variable {b : Value} {vs : List Value} {k : Nat}

/-- The score at a place is above the bar, and below no score. -/
def IsTop (b : Value) (vs : List Value) (k : Nat) : Prop :=
  ∃ v, vs[k]? = some v ∧ b.Below v ∧ ∀ w ∈ vs, ¬v.Below w

def IsFirstTop (b : Value) (vs : List Value) (k : Nat) : Prop :=
  IsTop b vs k ∧ ∀ l < k, ¬IsTop b vs l

theorem isFirstTop_zero {v : Value} (hv : v.IsNumber) (hbar : b.Below v)
    (h : ∀ w ∈ vs, ¬v.Below w) : IsFirstTop b (v :: vs) 0 := by
  refine ⟨⟨v, rfl, hbar, List.forall_mem_cons.2 ⟨Value.not_below_self hv, h⟩⟩, ?_⟩
  intro l hl
  exact absurd hl (Nat.not_lt_zero l)

theorem IsFirstTop.cons_of_below {v : Value} (hb : b.IsNumber) (hbar : b.Below v)
    (h : IsFirstTop v vs k) : IsFirstTop b (v :: vs) (k + 1) := by
  have hv := Value.isNumber_of_lt hb hbar
  obtain ⟨⟨t, ht, hvt, htop⟩, hfirst⟩ := h
  have htn := Value.isNumber_of_lt hv hvt
  have htv : ¬t.Below v := fun htv => Value.not_below_self hv (hvt.trans hv htv)
  refine ⟨⟨t, ht, hbar.trans hb hvt, List.forall_mem_cons.2 ⟨htv, htop⟩⟩, ?_⟩
  rintro (_ | l) hl ⟨w, hw, hbw, hwtop⟩
  · cases hw
    exact hwtop t (List.mem_cons_of_mem _ (List.mem_of_getElem? ht)) hvt
  · -- An earlier top that does not pass `v` would be below the score that does.
    obtain ⟨-, hwrest⟩ := List.forall_mem_cons.1 hwtop
    have hmem : t ∈ vs := List.mem_of_getElem? ht
    have hvw : v.Below w := by
      by_contra hvw
      exact hwrest t hmem (hbw.of_not_below hb hv hvt hvw)
    exact hfirst l (Nat.lt_of_succ_lt_succ hl) ⟨w, hw, hvw, hwrest⟩

theorem IsFirstTop.cons_of_not_below {v : Value} (hb : b.IsNumber) (hbar : ¬b.Below v)
    (h : IsFirstTop b vs k) : IsFirstTop b (v :: vs) (k + 1) := by
  obtain ⟨⟨t, ht, hbt, htop⟩, hfirst⟩ := h
  have htv : ¬t.Below v := fun htv => hbar (hbt.trans hb htv)
  refine ⟨⟨t, ht, hbt, List.forall_mem_cons.2 ⟨htv, htop⟩⟩, ?_⟩
  rintro (_ | l) hl ⟨w, hw, hbw, hwtop⟩
  · cases hw
    exact hbar hbw
  · exact hfirst l (Nat.lt_of_succ_lt_succ hl) ⟨w, hw, hbw, (List.forall_mem_cons.1 hwtop).2⟩

inductive Picks : Option γ → Value → List γ → List Value → Option γ → Prop
  | done (best : Option γ) (b : Value) : Picks best b [] [] best
  | better {best choice : Option γ} {b v : Value} {c : γ} {cs : List γ} {vs : List Value}
      (above : b.lt v = .ok true) (rest : Picks (some c) v cs vs choice) :
      Picks best b (c :: cs) (v :: vs) choice
  | kept {best choice : Option γ} {b v : Value} {c : γ} {cs : List γ} {vs : List Value}
      (above : b.lt v = .ok false) (rest : Picks best b cs vs choice) :
      Picks best b (c :: cs) (v :: vs) choice

theorem Picks.spec {best choice : Option γ} {cs : List γ} (h : Picks best b cs vs choice)
    (hb : b.IsNumber) : (choice = best ∧ ∀ v ∈ vs, ¬b.Below v) ∨
      ∃ k c, choice = some c ∧ cs[k]? = some c ∧ IsFirstTop b vs k := by
  induction h with
  | done => exact .inl ⟨rfl, by simp⟩
  | @better best choice b v c cs vs above _ ih =>
    have hv := Value.isNumber_of_lt hb above
    rcases ih hv with ⟨rfl, hnone⟩ | ⟨k, d, rfl, hd, hfirst⟩
    · exact .inr ⟨0, c, rfl, rfl, isFirstTop_zero hv above hnone⟩
    · exact .inr ⟨k + 1, d, rfl, hd, hfirst.cons_of_below hb above⟩
  | @kept best choice b v c cs vs above _ ih =>
    have hbar : ¬b.Below v := by
      intro hbelow
      cases above.symm.trans hbelow
    rcases ih hb with ⟨rfl, hnone⟩ | ⟨k, d, rfl, hd, hfirst⟩
    · exact .inl ⟨rfl, List.forall_mem_cons.2 ⟨hbar, hnone⟩⟩
    · exact .inr ⟨k + 1, d, rfl, hd, hfirst.cons_of_not_below hb hbar⟩

theorem Picks.isNumber {best choice : Option γ} {cs : List γ} (h : Picks best b cs vs choice)
    (hb : b.IsNumber) : ∀ v ∈ vs, v.IsNumber := by
  induction h with
  | done => simp
  | better above _ ih =>
    have hv := Value.isNumber_of_lt hb above
    exact List.forall_mem_cons.2 ⟨hv, ih hv⟩
  | kept above _ ih => exact List.forall_mem_cons.2 ⟨Value.isNumber_of_lt hb above, ih hb⟩

namespace Search

variable {score : γ → Search M Value} {source : Draws} {cs : List γ} {j j' : Journal M}

theorem bestScored_eq_ok {best choice : Option γ} :
    bestScored score best b cs j = .ok choice j' ↔
      ∃ vs, cs.mapM score j = .ok vs j' ∧ Picks best b cs vs choice := by
  induction cs generalizing best b j with
  | nil =>
    simp only [bestScored, List.mapM_nil, pure_eq_ok]
    constructor
    · rintro ⟨rfl, rfl⟩
      exact ⟨[], ⟨rfl, rfl⟩, .done best b⟩
    · rintro ⟨vs, ⟨-, rfl⟩, hpicks⟩
      cases hpicks
      exact ⟨rfl, rfl⟩
  | cons c cs ih =>
    simp only [bestScored, List.mapM_cons, bind_eq_ok, lift_eq_ok, pure_eq_ok]
    constructor
    · rintro ⟨v, j₁, hv, above, j₂, ⟨habove, rfl⟩, h⟩
      cases above with
      | true =>
        obtain ⟨vs, hvs, hpicks⟩ := ih.1 h
        exact ⟨v :: vs, ⟨v, j₁, hv, vs, j', hvs, rfl, rfl⟩, .better habove hpicks⟩
      | false =>
        obtain ⟨vs, hvs, hpicks⟩ := ih.1 h
        exact ⟨v :: vs, ⟨v, j₁, hv, vs, j', hvs, rfl, rfl⟩, .kept habove hpicks⟩
    · rintro ⟨_, ⟨v, j₁, hv, vs, _, hvs, rfl, rfl⟩, hpicks⟩
      refine ⟨v, j₁, hv, ?_⟩
      cases hpicks with
      | better habove hpicks => exact ⟨true, j₁, ⟨habove, rfl⟩, ih.2 ⟨vs, hvs, hpicks⟩⟩
      | kept habove hpicks => exact ⟨false, j₁, ⟨habove, rfl⟩, ih.2 ⟨vs, hvs, hpicks⟩⟩

theorem mapM_getElem? {vs : List Value} (h : cs.mapM score j = .ok vs j') {k : Nat} {c : γ}
    (hc : cs[k]? = some c) : ∃ v j₁ j₂, vs[k]? = some v ∧ score c j₁ = .ok v j₂ := by
  induction cs generalizing vs j k with
  | nil => cases hc
  | cons d cs ih =>
    simp only [List.mapM_cons, bind_eq_ok, pure_eq_ok] at h
    obtain ⟨v, j₁, hv, ws, j₂, hws, rfl, rfl⟩ := h
    cases k with
    | zero =>
      cases hc
      exact ⟨v, j, j₁, rfl, hv⟩
    | succ k => exact ih hws hc

theorem bestScored_succeeds
    (hscore : ∀ c ∈ cs, ∀ j, ∃ v j', score c j = .ok v j' ∧ v.IsNumber) (best : Option γ)
    (hb : b.IsNumber) : Succeeds (bestScored score best b cs) := by
  induction cs generalizing best b with
  | nil => exact .pure best
  | cons c cs ih =>
    obtain ⟨hc, hcs⟩ := List.forall_mem_cons.1 hscore
    intro j
    obtain ⟨v, j₁, hv, hnumber⟩ := hc j
    obtain ⟨above, habove⟩ := Value.exists_lt hb hnumber
    have hrest : Succeeds (if above then bestScored score (some c) v cs
        else bestScored score best b cs) := by
      cases above with
      | true => exact ih hcs (some c) hnumber
      | false => exact ih hcs best hb
    obtain ⟨choice, j', hchoice⟩ := hrest j₁
    exact ⟨choice, j', bind_eq_ok.2 ⟨v, j₁, hv, bind_eq_ok.2 ⟨above, j₁,
      lift_eq_ok.2 ⟨habove, rfl⟩, hchoice⟩⟩⟩

theorem exists_chooseRandom (hunit : ∀ k, (source k).InUnit) (hne : cs ≠ []) (j : Journal M) :
    ∃ (i : Nat) (c : γ), position (source j.draws) cs.length = .ok i ∧ cs[i]? = some c ∧
      chooseRandom source cs j = .ok c { j with draws := j.draws + 1 } := by
  obtain ⟨z, hz⟩ := position_succeeds (hunit j.draws) cs.length
  obtain ⟨hlow, hhigh⟩ := position_bounds (hunit j.draws) (List.length_pos_iff.2 hne) hz
  obtain ⟨i, rfl⟩ := Int.eq_ofNat_of_zero_le hlow
  have hi := List.getElem?_eq_getElem (Int.ofNat_lt.1 hhigh)
  refine ⟨i, cs[i], hz, hi, bind_eq_ok.2 ⟨_, _, draw_eq_ok.2 ⟨rfl, rfl⟩, lift_eq_ok.2 ⟨?_, rfl⟩⟩⟩
  exact Fault.bind_eq_ok.2 ⟨_, hz, nth_natCast hi⟩

theorem minConflicts_of_lt {randomness : Value} {accepted : Bool} (hne : cs ≠ [])
    (h : (Value.float (source j.draws)).lt randomness = .ok accepted) :
    minConflicts source score randomness cs j =
      (if accepted then some <$> chooseRandom source cs
        else bestScored score none (.float (.zero false)) cs) { j with draws := j.draws + 1 } := by
  have hempty : ¬cs.isEmpty = true := mt List.isEmpty_iff.1 hne
  rw [minConflicts, if_neg hempty]
  change ((lift _ : Search M Bool) >>= _) _ = _
  rw [h]
  rfl

theorem minConflicts_succeeds (hunit : ∀ k, (source k).InUnit)
    (hscore : ∀ c ∈ cs, ∀ j, ∃ v j', score c j = .ok v j' ∧ v.IsNumber) {randomness : Value}
    (hrandomness : randomness.IsNumber) : Succeeds (minConflicts source score randomness cs) := by
  intro j
  by_cases hne : cs = []
  · subst hne
    exact ⟨none, j, rfl⟩
  · obtain ⟨accepted, haccepted⟩ :=
      Value.exists_lt (Value.isNumber_float (source j.draws)) hrandomness
    rw [minConflicts_of_lt hne haccepted]
    cases accepted with
    | true =>
      obtain ⟨i, c, -, -, hc⟩ := exists_chooseRandom hunit hne { j with draws := j.draws + 1 }
      exact ⟨some c, _, map_eq_ok.2 ⟨c, hc, rfl⟩⟩
    | false => exact bestScored_succeeds hscore none (Value.isNumber_float _) _

/-- The choice among candidates. Without candidates nothing is drawn or scored. If the first draw
is below the randomness, the candidate at the position of the second draw is chosen, and nothing
is scored. Otherwise one draw is made, all candidates are scored in order, each once, and the
first top is chosen; if no score is above 0, nothing is. -/
theorem minConflicts_picks_first_top (hunit : ∀ k, (source k).InUnit)
    (hscore : ∀ c ∈ cs, ∀ j, ∃ v j', score c j = .ok v j' ∧ v.IsNumber) {randomness : Value}
    (hrandomness : randomness.IsNumber) (j : Journal M) :
    (cs = [] → minConflicts source score randomness cs j = .ok none j) ∧
    (cs ≠ [] → (Value.float (source j.draws)).Below randomness → ∃ (i : Nat) (c : γ),
      position (source (j.draws + 1)) cs.length = .ok i ∧ cs[i]? = some c ∧
        minConflicts source score randomness cs j =
          .ok (some c) { j with draws := j.draws + 2 }) ∧
    (cs ≠ [] → ¬(Value.float (source j.draws)).Below randomness → ∃ choice vs j',
      minConflicts source score randomness cs j = .ok choice j' ∧
      cs.mapM score { j with draws := j.draws + 1 } = .ok vs j' ∧
      ((∀ c, Spends 0 (score c)) → j'.draws = j.draws + 1) ∧
      (choice = none ↔ ∀ v ∈ vs, ¬(Value.float (.zero false)).Below v) ∧
      ∀ c, choice = some c → ∃ k, cs[k]? = some c ∧ IsFirstTop (.float (.zero false)) vs k) := by
  have hzero := Value.isNumber_float (.zero false)
  refine ⟨?_, ?_, ?_⟩
  · rintro rfl
    rfl
  · intro hne hbelow
    rw [minConflicts_of_lt hne hbelow]
    obtain ⟨i, c, hi, hc, hchosen⟩ := exists_chooseRandom hunit hne { j with draws := j.draws + 1 }
    exact ⟨i, c, hi, hc, map_eq_ok.2 ⟨c, hchosen, rfl⟩⟩
  · intro hne hbelow
    have haccepted := Value.lt_of_not_below (Value.isNumber_float _) hrandomness hbelow
    rw [minConflicts_of_lt hne haccepted]
    obtain ⟨choice, j', hchoice⟩ :=
      bestScored_succeeds hscore none hzero { j with draws := j.draws + 1 }
    obtain ⟨vs, hvs, hpicks⟩ := bestScored_eq_ok.1 hchoice
    refine ⟨choice, vs, j', hchoice, hvs, ?_, ?_⟩
    · intro hspends
      exact bestScored_spends hspends none _ cs _ _ _ hchoice
    · rcases hpicks.spec hzero with ⟨rfl, hnone⟩ | ⟨k, c, rfl, hc, hfirst⟩
      · refine ⟨iff_of_true rfl hnone, fun c hc => ?_⟩
        cases hc
      · refine ⟨iff_of_false (Option.some_ne_none c) ?_, ?_⟩
        · obtain ⟨⟨v, hv, habove, -⟩, -⟩ := hfirst
          intro hnone
          exact hnone v (List.mem_of_getElem? hv) habove
        · intro d hd
          cases hd
          exact ⟨k, hc, hfirst⟩

def ownScore (v : Value) : Search Value Value := do
  modify fun j => { j with counted := v :: j.counted }
  return v

theorem ownScore_picks_first_two :
    let vs : List Value := [.float (.nan 0), .int 2, .float (.ofNat 2), .int 1]
    ∃ j', minConflicts (fun _ => .ofNat 1) ownScore (.float (.zero false)) vs {} =
        .ok (some (.int 2)) j' ∧ j'.draws = 1 ∧ j'.counted = vs.reverse ∧
      IsFirstTop (.float (.zero false)) vs 1 := by
  intro vs
  have hscore : ∀ v ∈ vs, ∀ j, ∃ w j', ownScore v j = .ok w j' ∧ w.IsNumber := by
    intro v hv j
    refine ⟨v, _, rfl, ?_⟩
    simp only [vs, List.mem_cons, List.not_mem_nil, or_false] at hv
    rcases hv with rfl | rfl | rfl | rfl <;> exact ⟨_, rfl⟩
  have hunit : ∀ k : Nat, Binary64.InUnit (.ofNat 1) := fun _ => by decide
  have hbelow : ¬(Value.float (.ofNat 1)).Below (.float (.zero false)) := by
    intro h
    cases h
  obtain ⟨-, -, hscored⟩ := minConflicts_picks_first_top hunit hscore
    (Value.isNumber_float (.zero false)) {}
  obtain ⟨choice, ws, j', hchoice, hws, -, -, hfirst⟩ := hscored (List.cons_ne_nil _ _) hbelow
  have hrun : minConflicts (fun _ => .ofNat 1) ownScore (.float (.zero false)) vs {} =
      .ok (some (.int 2)) { draws := 1, counted := vs.reverse } := rfl
  have hscores : vs.mapM ownScore { draws := 1 } = .ok vs { draws := 1, counted := vs.reverse } :=
    rfl
  cases hchoice.symm.trans hrun
  cases hws.symm.trans hscores
  obtain ⟨k, hk, htop⟩ := hfirst _ rfl
  have hplace : k = 1 := by
    rcases k with _ | _ | _ | _ | k <;> simp [vs] at hk ⊢
  exact ⟨_, hrun, rfl, rfl, hplace ▸ htop⟩

end Search

end MinConflicts
