import MinConflicts.Proofs.Counts
import MinConflicts.Proofs.Shuffles

/-!
# The choice of a key

The walk over the shuffled keys ends at one of them wherever the target lies, so a key is chosen
whenever there are keys at all. With draws from the unit interval and counts as weights nothing in
the choice fails.
-/
namespace MinConflicts

variable {M α : Type}

namespace KeyChoice

theorem keys_of_weigh (weights : Table α) {keys : List String}
    (h : ∀ key ∈ keys, key ∈ weights.keys) : (weigh weights keys).map (·.1) = keys := by
  induction keys with
  | nil => rfl
  | cons key keys ih =>
    obtain ⟨hkey, hkeys⟩ := List.forall_mem_cons.1 h
    obtain ⟨w, hw⟩ := Table.get?_of_mem_keys hkey
    have hrest := ih hkeys
    simp only [weigh] at hrest ⊢
    simp [hw, hrest]

theorem weigh_mem {weights : Table α} {keys : List String} {e : String × α}
    (h : e ∈ weigh weights keys) : e ∈ weights.entries := by
  obtain ⟨key, -, hkey⟩ := List.mem_filterMap.1 h
  obtain ⟨w, hw, rfl⟩ := Option.map_eq_some_iff.1 hkey
  exact Table.mem_entries_of_get? hw

theorem walk_cons_eq_ok [Arith α] {alpha target running w : α} {last k key : String}
    {ws : List (String × α)} : walk alpha target last running ((k, w) :: ws) = .ok key ↔
      ∃ sum passed, (Arith.add w alpha >>= Arith.add running) = .ok sum ∧
        Arith.lt target sum = .ok passed ∧
        if passed then key = k else walk alpha target k sum ws = .ok key := by
  simp only [walk, Fault.bind_eq_ok]
  constructor
  · intro h
    obtain ⟨s, hs, sum, hsum, passed, hpassed, h⟩ := h
    refine ⟨sum, passed, ⟨s, hs, hsum⟩, hpassed, ?_⟩
    cases passed with
    | true => exact (Except.ok.inj h).symm
    | false => exact h
  · intro h
    obtain ⟨sum, passed, ⟨s, hs, hsum⟩, hpassed, h⟩ := h
    refine ⟨s, hs, sum, hsum, passed, hpassed, ?_⟩
    cases passed with
    | true => exact congrArg Except.ok (Eq.symm h)
    | false => exact h

theorem walk_mem [Arith α] {alpha target running : α} {last key : String} {ws : List (String × α)}
    (hne : ws ≠ []) (h : walk alpha target last running ws = .ok key) : key ∈ ws.map (·.1) := by
  induction ws generalizing last running with
  | nil => exact absurd rfl hne
  | cons e ws ih =>
    obtain ⟨k, w⟩ := e
    obtain ⟨sum, passed, -, -, hchosen⟩ := walk_cons_eq_ok.1 h
    rw [List.map_cons, List.mem_cons]
    cases passed with
    | true => exact .inl hchosen
    | false =>
      by_cases hlast : ws = []
      · subst hlast
        exact .inl (Except.ok.inj hchosen).symm
      · exact .inr (ih hlast hchosen)

theorem walk_of_counts {ws : List (String × Value)} (h : ∀ e ∈ ws, e.2.IsCount)
    (alpha target : Binary64) (last : String) (running : Binary64) :
    ∃ key, walk (.float alpha) (.float target) last (.float running) ws = .ok key := by
  induction ws generalizing last running with
  | nil => exact ⟨last, rfl⟩
  | cons e ws ih =>
    obtain ⟨k, w⟩ := e
    obtain ⟨hw, hws⟩ := List.forall_mem_cons.1 h
    obtain ⟨z, rfl, hlow, hhigh⟩ := hw
    obtain ⟨s, hs⟩ := Value.add_int_float (z := z) (by omega) alpha
    have hsum : (Value.add (.int z) (.float alpha) >>= Value.add (.float running)) =
        .ok (.float (running.add s)) := Fault.bind_eq_ok.2 ⟨_, hs, rfl⟩
    cases hpassed : Number.lt (.float target) (.float (running.add s)) with
    | true =>
      exact ⟨k, walk_cons_eq_ok.2 ⟨_, true, hsum, congrArg Except.ok hpassed, rfl⟩⟩
    | false =>
      obtain ⟨key, hkey⟩ := ih hws k (running.add s)
      exact ⟨key, walk_cons_eq_ok.2 ⟨_, false, hsum, congrArg Except.ok hpassed, hkey⟩⟩

end KeyChoice

namespace Search

variable {source : Draws} {j j' : Journal M} {weights : Table Value} {alpha : Value}

theorem chooseKey_cases {choice : Option String}
    (h : chooseKey source weights alpha j = .ok choice j') :
    (weights.entries = [] ∧ choice = none ∧ j' = j) ∨
    (weights.entries ≠ [] ∧ ∃ keys j₁ total key, shuffle source weights.keys j = .ok keys j₁ ∧
      KeyChoice.total alpha weights.values = .ok total ∧
      KeyChoice.pick alpha total (.float (source j₁.draws)) (KeyChoice.weigh weights keys) =
        .ok key ∧
      choice = some key ∧ j' = { j₁ with draws := j₁.draws + 1 }) := by
  unfold chooseKey at h
  split_ifs at h with hempty
  · obtain ⟨rfl, rfl⟩ := pure_eq_ok.1 h
    exact .inl ⟨List.isEmpty_iff.1 hempty, rfl, rfl⟩
  · obtain ⟨keys, j₁, hkeys, h⟩ := bind_eq_ok.1 h
    obtain ⟨total, j₂, hsum, h⟩ := bind_eq_ok.1 h
    obtain ⟨htotal, rfl⟩ := lift_eq_ok.1 hsum
    obtain ⟨r, j₃, hdraw, h⟩ := bind_eq_ok.1 h
    obtain ⟨rfl, rfl⟩ := draw_eq_ok.1 hdraw
    obtain ⟨key, hlift, rfl⟩ := map_eq_ok.1 h
    obtain ⟨hpick, rfl⟩ := lift_eq_ok.1 hlift
    exact .inr ⟨fun hnil => hempty (List.isEmpty_iff.2 hnil), keys, j₁, total, key, hkeys, htotal,
      hpick, rfl, rfl⟩

theorem chooseKey_mem {key : String}
    (h : chooseKey source weights alpha j = .ok (some key) j') : key ∈ weights.keys := by
  rcases chooseKey_cases h with ⟨-, hnone, -⟩ | ⟨hne, keys, j₁, total, k, hkeys, -, hpick, hk, -⟩
  · cases hnone
  · cases hk
    obtain ⟨target, -, hwalk⟩ := Fault.bind_eq_ok.1 hpick
    have hperm := shuffle_perm hkeys
    have hweigh := KeyChoice.keys_of_weigh weights fun key hmem => hperm.mem_iff.1 hmem
    have hsome : KeyChoice.weigh weights keys ≠ [] := by
      intro hnil
      rw [hnil, List.map_nil] at hweigh
      subst hweigh
      exact hne (List.map_eq_nil_iff.1 (List.nil_perm.1 hperm))
    have hmem := KeyChoice.walk_mem hsome hwalk
    rw [hweigh] at hmem
    exact hperm.mem_iff.1 hmem

theorem chooseKey_succeeds (hunit : ∀ k, (source k).InUnit)
    (hweights : ∀ v ∈ weights.values, v.IsCount) (hsize : weights.size < 0x20000000000000)
    (alpha : Binary64) :
    Succeeds (chooseKey source weights (.float alpha) : Search M (Option String)) := by
  unfold chooseKey
  split_ifs
  · exact .pure none
  · have hvalues : weights.values.length < 0x20000000000000 := by
      rwa [Table.values, List.length_map]
    refine (shuffle_succeeds hunit _).bind fun keys _ _ _ => ?_
    obtain ⟨total, htotal⟩ := KeyChoice.total_of_counts hweights hvalues alpha
    refine Succeeds.lift_bind htotal (Succeeds.draw_bind fun k => .map some (.lift ?_))
    have hweigh : ∀ e ∈ KeyChoice.weigh weights keys, e.2.IsCount := by
      intro e he
      exact hweights _ (List.mem_map_of_mem (KeyChoice.weigh_mem he))
    obtain ⟨key, hkey⟩ :=
      KeyChoice.walk_of_counts hweigh alpha ((source k).mul total) "" (.zero false)
    exact ⟨key, Fault.bind_eq_ok.2 ⟨.float ((source k).mul total), rfl, hkey⟩⟩

end Search

end MinConflicts
