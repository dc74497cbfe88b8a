import MinConflicts.Proofs.Boards
import MinConflicts.Search.Candidate

/-!
# Candidate moves

Whatever way the next move is chosen, it is one of the moves of a variable: it takes a slot of
that variable's cursor, in the window around the current one, its assignment is the current one
with the slot's value put in, its model is built from that assignment, and it leads to no known
solution.
-/
namespace MinConflicts

variable {M S : Type}

structure IsMove (ctx : Context M S) (board : Board) (known : List (Solution M)) (a : Assignment)
    (c : Candidate M) : Prop where
  cursor : ∃ cur, board.get? c.key = some cur ∧ cur.slots[c.index]? = some c.slot
  assignment : c.assignment = a.insert c.key c.slot.value
  model : ctx.factory c.assignment = .ok c.model
  unknown : isKnown known c.assignment = false

theorem Window.mem_indices {index size width i : Int} :
    i ∈ (around index size width).indices ↔
      max 0 (index - width.fdiv 2) ≤ i ∧ i < min size (index + width.fdiv 2) := by
  simp only [indices, around, List.mem_map, List.mem_range]
  constructor
  · intro h
    obtain ⟨k, hk, rfl⟩ := h
    omega
  · intro h
    exact ⟨(i - max 0 (index - width.fdiv 2)).toNat, by omega, by omega⟩

theorem Cursor.map_between_around (c : Cursor) (width : Int) :
    (c.between (Window.around c.index c.size width).start.toNat
      (Window.around c.index c.size width).stop.toNat).map (fun e => (e.1 : Int)) =
        (Window.around c.index c.size width).indices := by
  have hstart : 0 ≤ (Window.around c.index c.size width).start := le_max_left _ _
  have hstop : (Window.around c.index c.size width).stop ≤ c.size := min_le_left _ _
  generalize Window.around c.index c.size width = w at hstart hstop
  have hcount : w.stop.toNat - w.start.toNat = (w.stop - w.start).toNat := by omega
  have hall : (List.range' w.start.toNat (w.stop - w.start).toNat).length ≤
      ((c.slots.drop w.start.toNat).take (w.stop - w.start).toNat).length := by
    unfold size at hstop
    simp only [List.length_range', List.length_take, List.length_drop]
    omega
  have hplaces := List.map_fst_zip hall
  calc (c.between w.start.toNat w.stop.toNat).map (fun e => (e.1 : Int))
      = ((c.between w.start.toNat w.stop.toNat).map Prod.fst).map (fun k : Nat => (k : Int)) := by
        rw [List.map_map]
        rfl
    _ = (List.range' w.start.toNat (w.stop - w.start).toNat).map (fun k : Nat => (k : Int)) := by
        rw [between, hcount, hplaces]
    _ = w.indices := by
        rw [List.range'_eq_map_range, List.map_map, Window.indices]
        refine List.map_congr_left fun k _ => ?_
        simp [hstart]

theorem Cursor.slots_of_mem_between {c : Cursor} {start stop i : Nat} {s : Slot}
    (h : (i, s) ∈ c.between start stop) : c.slots[i]? = some s := by
  obtain ⟨k, hk, hget⟩ := List.getElem_of_mem h
  simp only [between, List.getElem_zip, List.getElem_range', List.getElem_take,
    List.getElem_drop, Prod.mk.injEq] at hget
  obtain ⟨hi, hs⟩ := hget
  rw [← hs, ← hi, Nat.one_mul, List.getElem?_eq_getElem]

theorem Cursor.bounds_of_mem_between {c : Cursor} {start stop i : Nat} {s : Slot}
    (h : (i, s) ∈ c.between start stop) : start ≤ i ∧ i < stop := by
  have hplace : i ∈ List.range' start (stop - start) := (List.of_mem_zip h).1
  rw [List.mem_range'_1] at hplace
  omega

namespace Context

variable {ctx : Context M S} {board : Board} {known : List (Solution M)} {a : Assignment}

structure Makes (ctx : Context M S) (a : Assignment) (key : String) (c : Candidate M) : Prop where
  variable_eq : c.key = key
  assignment : c.assignment = a.insert key c.slot.value
  model : ctx.factory c.assignment = .ok c.model

theorem candidatesAt_eq_ok {key : String} {ps : List (Nat × Slot)} {cs : List (Candidate M)} :
    ctx.candidatesAt known a key ps = .ok cs ↔
      cs.map (fun c => (c.index, c.slot)) =
          ps.filter (fun e => !isKnown known (a.insert key e.2.value)) ∧
        ∀ c ∈ cs, ctx.Makes a key c := by
  induction ps generalizing cs with
  | nil =>
    rw [candidatesAt, Except.ok.injEq, List.filter_nil, List.map_eq_nil_iff]
    constructor
    · rintro rfl
      exact ⟨rfl, by simp⟩
    · intro h
      exact h.1.symm
  | cons e ps ih =>
    obtain ⟨i, s⟩ := e
    simp only [candidatesAt]
    cases hknown : isKnown known (a.insert key s.value) with
    | true => simpa [hknown] using ih
    | false =>
      simp only [Bool.false_eq_true, if_false, Fault.bind_eq_ok, Fault.pure_eq_ok, ih]
      rw [List.filter_cons_of_pos (by simp [hknown])]
      constructor
      · intro h
        obtain ⟨m, hm, cs', ⟨hplaces, hmakes⟩, rfl⟩ := h
        exact ⟨congrArg _ hplaces, List.forall_mem_cons.2 ⟨⟨rfl, rfl, hm⟩, hmakes⟩⟩
      · intro h
        obtain ⟨hplaces, hmakes⟩ := h
        cases cs with
        | nil => cases hplaces
        | cons c cs' =>
          obtain ⟨⟨hkey, hassignment, hmodel⟩, hrest⟩ := List.forall_mem_cons.1 hmakes
          obtain ⟨k, j, t, b, m⟩ := c
          simp only [List.map_cons, List.cons.injEq, Prod.mk.injEq] at hplaces hkey hassignment
          obtain ⟨⟨rfl, rfl⟩, hplaces⟩ := hplaces
          subst hkey hassignment
          exact ⟨m, hmodel, cs', ⟨hplaces, hrest⟩, rfl⟩

theorem candidatesAt_mem {key : String} {ps : List (Nat × Slot)} {cs : List (Candidate M)}
    (h : ctx.candidatesAt known a key ps = .ok cs) {c : Candidate M} (hc : c ∈ cs) :
    (c.index, c.slot) ∈ ps ∧ isKnown known c.assignment = false ∧ ctx.Makes a key c := by
  obtain ⟨hplaces, hmakes⟩ := candidatesAt_eq_ok.1 h
  have hplace : (c.index, c.slot) ∈ cs.map fun c => (c.index, c.slot) := List.mem_map_of_mem hc
  rw [hplaces] at hplace
  obtain ⟨hmem, hunknown⟩ := List.mem_filter.1 hplace
  rw [(hmakes c hc).assignment]
  exact ⟨hmem, by simpa using hunknown, hmakes c hc⟩

theorem exists_candidatesAt_iff {key : String} {ps : List (Nat × Slot)} :
    (∃ cs, ctx.candidatesAt known a key ps = .ok cs) ↔
      ∀ e ∈ ps, isKnown known (a.insert key e.2.value) = false →
        ∃ m, ctx.factory (a.insert key e.2.value) = .ok m := by
  induction ps with
  | nil => simp [candidatesAt]
  | cons e ps ih =>
    obtain ⟨i, s⟩ := e
    simp only [candidatesAt, List.forall_mem_cons]
    cases hknown : isKnown known (a.insert key s.value) with
    | true => simpa [hknown] using ih
    | false =>
      simp only [Bool.false_eq_true, if_false, Fault.bind_eq_ok, Fault.pure_eq_ok, ← ih]
      constructor
      · intro h
        obtain ⟨cs, m, hm, cs', hcs', -⟩ := h
        exact ⟨fun _ => ⟨m, hm⟩, cs', hcs'⟩
      · intro h
        obtain ⟨hfirst, cs', hcs'⟩ := h
        obtain ⟨m, hm⟩ := hfirst trivial
        exact ⟨_, m, hm, cs', hcs', rfl⟩

theorem candidates_isMove {key : String} {cs : List (Candidate M)}
    (h : ctx.candidates board known a key = .ok cs) {c : Candidate M} (hc : c ∈ cs) :
    IsMove ctx board known a c := by
  unfold candidates at h
  cases hcur : board.get? key with
  | none =>
    rw [hcur] at h
    cases h
  | some cur =>
    rw [hcur] at h
    obtain ⟨hmem, hunknown, rfl, hassignment, hmodel⟩ := candidatesAt_mem h hc
    exact ⟨⟨cur, hcur, Cursor.slots_of_mem_between hmem⟩, hassignment, hmodel, hunknown⟩

theorem candidates_in_window {key : String} {cs : List (Candidate M)}
    (h : ctx.candidates board known a key = .ok cs) {c : Candidate M} (hc : c ∈ cs) :
    ∃ cur, board.get? c.key = some cur ∧
      (Window.around cur.index cur.size ctx.width).start ≤ c.index ∧
      (c.index : Int) < (Window.around cur.index cur.size ctx.width).stop := by
  unfold candidates at h
  cases hcur : board.get? key with
  | none =>
    rw [hcur] at h
    cases h
  | some cur =>
    rw [hcur] at h
    obtain ⟨hmem, -, rfl, -⟩ := candidatesAt_mem h hc
    have hbounds := Cursor.bounds_of_mem_between hmem
    exact ⟨cur, hcur, by omega, by omega⟩

theorem keys_keyWeights (board : Board) (influence : Table Value) :
    (keyWeights board influence).keys = board.keys := by
  simp [keyWeights, Table.keys, Function.comp_def]

theorem size_keyWeights (board : Board) (influence : Table Value) :
    (keyWeights board influence).size = board.size := by
  simp [keyWeights, Table.size, Table.keys]

end Context

namespace Search

variable {γ : Type} {score : γ → Search M Value} {j j' : Journal M} {c : γ}

theorem bestScored_mem {best : Option γ} {bestScore : Value} {cs : List γ}
    (h : bestScored score best bestScore cs j = .ok (some c) j') : best = some c ∨ c ∈ cs := by
  induction cs generalizing best bestScore j with
  | nil => exact .inl (pure_eq_ok.1 h).1
  | cons d cs ih =>
    obtain ⟨v, j₁, -, h⟩ := bind_eq_ok.1 h
    obtain ⟨better, j₂, -, h⟩ := bind_eq_ok.1 h
    cases better with
    | true =>
      rcases ih h with hd | hmem
      · exact .inr (List.mem_cons.2 (.inl (Option.some.inj hd).symm))
      · exact .inr (List.mem_cons_of_mem _ hmem)
    | false => exact (ih h).imp id (List.mem_cons_of_mem _)

theorem chooseRandom_mem {source : Draws} {cs : List γ} (h : chooseRandom source cs j = .ok c j') :
    c ∈ cs := by
  obtain ⟨r, j₁, -, h⟩ := bind_eq_ok.1 h
  obtain ⟨h, -⟩ := lift_eq_ok.1 h
  obtain ⟨i, -, hnth⟩ := Fault.bind_eq_ok.1 h
  exact mem_of_nth hnth

theorem minConflicts_cases {source : Draws} {randomness : Value} {cs : List γ} {choice : Option γ}
    (h : minConflicts source score randomness cs j = .ok choice j') :
    (cs = [] ∧ choice = none ∧ j' = j) ∨
    (cs ≠ [] ∧ ∃ accepted, (Value.float (source j.draws)).lt randomness = .ok accepted ∧
      ((accepted = true ∧ ∃ c, choice = some c ∧
          chooseRandom source cs { j with draws := j.draws + 1 } = .ok c j') ∨
        (accepted = false ∧ bestScored score none (.float (.zero false)) cs
          { j with draws := j.draws + 1 } = .ok choice j'))) := by
  unfold minConflicts at h
  split_ifs at h with hempty
  · obtain ⟨rfl, rfl⟩ := pure_eq_ok.1 h
    exact .inl ⟨List.isEmpty_iff.1 hempty, rfl, rfl⟩
  · obtain ⟨r, j₁, hdraw, h⟩ := bind_eq_ok.1 h
    obtain ⟨rfl, rfl⟩ := draw_eq_ok.1 hdraw
    obtain ⟨accepted, j₂, hlift, h⟩ := bind_eq_ok.1 h
    obtain ⟨haccepted, rfl⟩ := lift_eq_ok.1 hlift
    refine .inr ⟨fun hnil => hempty (List.isEmpty_iff.2 hnil), accepted, haccepted, ?_⟩
    cases accepted with
    | true =>
      obtain ⟨c, hc, rfl⟩ := map_eq_ok.1 h
      exact .inl ⟨rfl, c, rfl, hc⟩
    | false => exact .inr ⟨rfl, h⟩

theorem minConflicts_mem {source : Draws} {randomness : Value} {cs : List γ}
    (h : minConflicts source score randomness cs j = .ok (some c) j') : c ∈ cs := by
  rcases minConflicts_cases h with ⟨-, hnone, -⟩ | ⟨-, _, -, ⟨-, d, hd, hrandom⟩ | ⟨-, hbest⟩⟩
  · cases hnone
  · cases hd
    exact chooseRandom_mem hrandom
  · exact (bestScored_mem hbest).resolve_left nofun

end Search

namespace Context

variable {ctx : Context M S} {board : Board} {known : List (Solution M)} {a : Assignment}
  {model : M} {c : Candidate M} {j j' : Journal M}

theorem nextMove_cases {move : Option (Candidate M)}
    (h : ctx.nextMove board known a model j = .ok move j') :
    ∃ influence j₁ choice j₂, Search.influence ctx.evaluator model ctx.state j = .ok influence j₁ ∧
      Search.chooseKey ctx.source (keyWeights board influence) (.float KeyChoice.smoothing) j₁ =
        .ok choice j₂ ∧
      ((choice = none ∧ move = none ∧ j' = j₂) ∨
        ∃ key cs, choice = some key ∧ ctx.candidates board known a key = .ok cs ∧
          Search.minConflicts ctx.source ctx.scoreOf (.float ctx.settings.randomness) cs j₂ =
            .ok move j') := by
  obtain ⟨influence, j₁, hinfluence, h⟩ := Search.bind_eq_ok.1 h
  obtain ⟨choice, j₂, hchoice, h⟩ := Search.bind_eq_ok.1 h
  refine ⟨influence, j₁, choice, j₂, hinfluence, hchoice, ?_⟩
  cases choice with
  | none =>
    obtain ⟨rfl, rfl⟩ := Search.pure_eq_ok.1 h
    exact .inl ⟨rfl, rfl, rfl⟩
  | some key =>
    obtain ⟨cs, j₃, hlift, h⟩ := Search.bind_eq_ok.1 h
    obtain ⟨hcs, rfl⟩ := Search.lift_eq_ok.1 hlift
    exact .inr ⟨key, cs, rfl, hcs, h⟩

theorem nextMove_mem (h : ctx.nextMove board known a model j = .ok (some c) j') :
    ∃ key cs, ctx.candidates board known a key = .ok cs ∧ c ∈ cs := by
  obtain ⟨_, _, _, _, -, -, ⟨-, hnone, -⟩ | ⟨key, cs, -, hcs, hchosen⟩⟩ := nextMove_cases h
  · cases hnone
  · exact ⟨key, cs, hcs, Search.minConflicts_mem hchosen⟩

theorem nextMove_isMove (h : ctx.nextMove board known a model j = .ok (some c) j') :
    IsMove ctx board known a c := by
  obtain ⟨key, cs, hcs, hc⟩ := nextMove_mem h
  exact candidates_isMove hcs hc

end Context

end MinConflicts
