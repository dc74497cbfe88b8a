import MinConflicts.Proofs.KeyChoices
import Mathlib.Tactic.Linarith

/-!
# Proportions of the choice of a key

Over the rationals the choice of a key is in exact proportion to the weights. The sums of the walk
cut the range up to the total into half-open intervals, one for each key and as long as its raised
weight, whatever the order of the keys; the last sum is the total. So a draw below 1 falls into
one of them, and the walk stops at its key.
-/
namespace MinConflicts

namespace KeyChoice

def choose {α : Type} [Arith α] (alpha : α) (weights : Table α) (keys : List String) (draw : α) :
    Except Fault String := do
  pick alpha (← total alpha weights.values) draw (weigh weights keys)

/-- How far the first `k` steps of a walk take the sum. -/
def reach (alpha : ℚ) (ws : List (String × ℚ)) (k : Nat) : ℚ :=
  ((ws.take k).map fun e => e.2 + alpha).sum

variable {alpha target running r : ℚ} {weights : Table ℚ} {keys : List String}
  {ws : List (String × ℚ)} {e : String × ℚ} {key last : String} {k l : Nat}

theorem foldlM_add_eq (ws : List ℚ) (a : ℚ) :
    ws.foldlM Arith.add a = (.ok (a + ws.sum) : Except Fault ℚ) := by
  induction ws generalizing a with
  | nil => simp [pure, Except.pure]
  | cons w ws ih =>
    rw [List.foldlM_cons, List.sum_cons, ← add_assoc]
    exact ih (a + w)

theorem total_eq (alpha : ℚ) (ws : List ℚ) : total alpha ws = .ok (ws.sum + alpha * ws.length) := by
  have hsum : ws.foldlM Arith.add (Arith.count 0 : ℚ) = (.ok ws.sum : Except Fault ℚ) := by
    rw [foldlM_add_eq]
    simp [Arith.count]
  exact Fault.bind_eq_ok.2 ⟨ws.sum, hsum, rfl⟩

theorem reach_zero (alpha : ℚ) (ws : List (String × ℚ)) : reach alpha ws 0 = 0 := by simp [reach]

theorem reach_cons_succ (alpha : ℚ) (e : String × ℚ) (ws : List (String × ℚ)) (k : Nat) :
    reach alpha (e :: ws) (k + 1) = e.2 + alpha + reach alpha ws k := by
  simp [reach]

theorem reach_succ (h : ws[k]? = some e) :
    reach alpha ws (k + 1) = reach alpha ws k + (e.2 + alpha) := by
  simp [reach, List.take_add_one, h]

theorem reach_mono (h : ∀ e ∈ ws, 0 < e.2 + alpha) (hkl : k ≤ l) :
    reach alpha ws k ≤ reach alpha ws l := by
  induction l, hkl using Nat.le_induction with
  | base => exact le_rfl
  | succ l _ ih =>
    cases hl : ws[l]? with
    | none => simpa [reach, List.take_add_one, hl] using ih
    | some e =>
      rw [reach_succ hl]
      have hpos := h e (List.mem_of_getElem? hl)
      linarith

theorem reach_length (alpha : ℚ) (ws : List (String × ℚ)) :
    reach alpha ws ws.length = (ws.map (·.2)).sum + alpha * ws.length := by
  induction ws with
  | nil => simp [reach]
  | cons e ws ih =>
    rw [List.length_cons, reach_cons_succ, ih, List.map_cons, List.sum_cons]
    push_cast
    ring

theorem place_unique (h : ∀ e ∈ ws, 0 < e.2 + alpha) (hk : reach alpha ws k ≤ target)
    (hk' : target < reach alpha ws (k + 1)) (hl : reach alpha ws l ≤ target)
    (hl' : target < reach alpha ws (l + 1)) : k = l := by
  rcases Nat.lt_trichotomy k l with hlt | heq | hlt
  · linarith [reach_mono h hlt]
  · exact heq
  · linarith [reach_mono h hlt]

theorem walk_stops (hrunning : running ≤ target)
    (htarget : target < running + reach alpha ws ws.length) (last : String) :
    ∃ k e, ws[k]? = some e ∧ walk alpha target last running ws = .ok e.1 ∧
      running + reach alpha ws k ≤ target ∧ target < running + reach alpha ws (k + 1) := by
  -- `running` is the sum so far; the target is never behind it.
  induction ws generalizing running last with
  | nil =>
    rw [List.length_nil, reach_zero] at htarget
    linarith
  | cons e ws ih =>
    obtain ⟨key, w⟩ := e
    by_cases hpassed : target < running + (w + alpha)
    · refine ⟨0, (key, w), rfl, ?_, ?_, ?_⟩
      · exact walk_cons_eq_ok.2 ⟨_, true, rfl, congrArg Except.ok (decide_eq_true hpassed), rfl⟩
      · rwa [reach_zero, add_zero]
      · rwa [reach_cons_succ, reach_zero, add_zero]
    · rw [List.length_cons, reach_cons_succ, ← add_assoc] at htarget
      obtain ⟨k, e, hk, hwalk, hlow, hhigh⟩ := ih (not_lt.1 hpassed) htarget key
      refine ⟨k + 1, e, hk, ?_, ?_, ?_⟩
      · exact walk_cons_eq_ok.2 ⟨_, false, rfl, congrArg Except.ok (decide_eq_false hpassed), hwalk⟩
      · rwa [reach_cons_succ, ← add_assoc]
      · rwa [reach_cons_succ, ← add_assoc]

theorem weigh_keys (hn : weights.keys.Nodup) : weigh weights weights.keys = weights.entries := by
  rw [weigh, Table.keys, List.filterMap_map]
  refine (List.filterMap_congr fun e he => ?_).trans (List.filterMap_some)
  simp [Table.get?_of_mem_entries hn he]

theorem weigh_perm (hn : weights.keys.Nodup) (hkeys : keys.Perm weights.keys) :
    (weigh weights keys).Perm weights.entries :=
  weigh_keys hn ▸ hkeys.filterMap _

/-- Weights with a positive share for each key, their total, and the keys in any order. -/
structure Shares (alpha : ℚ) (weights : Table ℚ) (keys : List String) (sum : ℚ) : Prop where
  nonempty : weights.entries ≠ []
  nodup : weights.keys.Nodup
  perm : keys.Perm weights.keys
  raised : ∀ w ∈ weights.values, 0 < w + alpha
  total : total alpha weights.values = .ok sum

namespace Shares

variable {sum : ℚ}

theorem weigh_raised (h : Shares alpha weights keys sum) :
    ∀ e ∈ weigh weights keys, 0 < e.2 + alpha := by
  intro e he
  exact h.raised _ (List.mem_map_of_mem (weigh_mem he))

theorem map_weigh (h : Shares alpha weights keys sum) :
    (weigh weights keys).map (·.1) = keys :=
  keys_of_weigh weights fun _ hkey => h.perm.mem_iff.1 hkey

theorem length_weigh (h : Shares alpha weights keys sum) :
    (weigh weights keys).length = keys.length :=
  (List.length_map _).symm.trans (congrArg List.length h.map_weigh)

theorem getElem?_of_weigh (h : Shares alpha weights keys sum)
    (he : (weigh weights keys)[k]? = some e) : keys[k]? = some e.1 := by
  rw [← h.map_weigh, List.getElem?_map, he]
  rfl

theorem exists_weigh (h : Shares alpha weights keys sum) (hk : keys[k]? = some key) :
    ∃ w, weights.get? key = some w ∧ (weigh weights keys)[k]? = some (key, w) := by
  rw [← h.map_weigh, List.getElem?_map] at hk
  obtain ⟨⟨key', w⟩, he, rfl⟩ := Option.map_eq_some_iff.1 hk
  have hmem := weigh_mem (List.mem_of_getElem? he)
  exact ⟨w, Table.get?_of_mem_entries h.nodup hmem, he⟩

theorem reach_end (h : Shares alpha weights keys sum) :
    reach alpha (weigh weights keys) keys.length = sum := by
  have hvalues : ((weigh weights keys).map (·.2)).Perm weights.values :=
    (weigh_perm h.nodup h.perm).map _
  have htotal := (total_eq alpha weights.values).symm.trans h.total
  rw [← h.length_weigh, reach_length, ← List.length_map (·.2), hvalues.sum_eq, hvalues.length_eq]
  exact Except.ok.inj htotal

theorem sum_pos (h : Shares alpha weights keys sum) : 0 < sum := by
  rw [← h.reach_end, ← h.length_weigh]
  have hlength : 0 < (weigh weights keys).length :=
    (weigh_perm h.nodup h.perm).length_eq ▸ List.length_pos_iff.2 h.nonempty
  have hfirst := List.getElem?_eq_getElem hlength
  have hpos := h.weigh_raised _ (List.mem_of_getElem? hfirst)
  have hmono := reach_mono h.weigh_raised (Nat.succ_le_of_lt hlength)
  rw [reach_succ hfirst, reach_zero] at hmono
  linarith

theorem exists_stop (h : Shares alpha weights keys sum) (hlow : 0 ≤ r) (hhigh : r < 1) :
    ∃ k e, (weigh weights keys)[k]? = some e ∧ choose alpha weights keys r = .ok e.1 ∧
      reach alpha (weigh weights keys) k ≤ r * sum ∧
      r * sum < reach alpha (weigh weights keys) (k + 1) := by
  have hsum := h.sum_pos
  have hstart : (0 : ℚ) ≤ r * sum := mul_nonneg hlow hsum.le
  have hend : r * sum < 0 + reach alpha (weigh weights keys) (weigh weights keys).length := by
    rw [h.length_weigh, h.reach_end, zero_add]
    exact mul_lt_of_lt_one_left hsum hhigh
  obtain ⟨k, e, hk, hwalk, hfrom, hto⟩ := walk_stops hstart hend ""
  rw [zero_add] at hfrom hto
  exact ⟨k, e, hk, Fault.bind_eq_ok.2 ⟨sum, h.total, hwalk⟩, hfrom, hto⟩

theorem choose_iff (h : Shares alpha weights keys sum) (hlow : 0 ≤ r) (hhigh : r < 1)
    (hk : (weigh weights keys)[k]? = some e) : choose alpha weights keys r = .ok e.1 ↔
      reach alpha (weigh weights keys) k ≤ r * sum ∧
        r * sum < reach alpha (weigh weights keys) (k + 1) := by
  obtain ⟨l, d, hl, hchosen, hfrom, hto⟩ := h.exists_stop hlow hhigh
  constructor
  · intro hchoice
    have hkey : keys[l]? = keys[k]? := by
      rw [h.getElem?_of_weigh hl, h.getElem?_of_weigh hk]
      exact congrArg some (Except.ok.inj (hchosen.symm.trans hchoice))
    obtain ⟨hlt, -⟩ := List.getElem?_eq_some_iff.1 (h.getElem?_of_weigh hl)
    obtain rfl : l = k := (List.getElem?_inj hlt (h.perm.nodup_iff.2 h.nodup)).1 hkey
    exact ⟨hfrom, hto⟩
  · intro hinterval
    obtain rfl := place_unique h.weigh_raised hfrom hto hinterval.1 hinterval.2
    cases hl.symm.trans hk
    exact hchosen

theorem interval (h : Shares alpha weights keys sum) (hk : (weigh weights keys)[k]? = some e) :
    0 ≤ reach alpha (weigh weights keys) k / sum ∧
    reach alpha (weigh weights keys) k / sum + (e.2 + alpha) / sum ≤ 1 ∧
    ∀ r, 0 ≤ r → r < 1 → (choose alpha weights keys r = .ok e.1 ↔
      reach alpha (weigh weights keys) k / sum ≤ r ∧
        r < reach alpha (weigh weights keys) k / sum + (e.2 + alpha) / sum) := by
  have hsum := h.sum_pos
  have hlength : k + 1 ≤ keys.length := (List.getElem?_eq_some_iff.1 (h.getElem?_of_weigh hk)).1
  have hstart := reach_mono h.weigh_raised (Nat.zero_le k)
  have hlast := reach_mono h.weigh_raised hlength
  rw [reach_zero] at hstart
  rw [h.reach_end] at hlast
  rw [← add_div, ← reach_succ hk]
  refine ⟨div_nonneg hstart hsum.le, (div_le_one hsum).2 hlast, ?_⟩
  intro r hlow hhigh
  rw [div_le_iff₀ hsum, lt_div_iff₀ hsum]
  exact h.choose_iff hlow hhigh hk

end Shares

end KeyChoice

namespace Search

variable {M : Type} {source : Draws}

theorem choose_of_chooseKey {weights : Table Value} {alpha : Value} {key : String}
    {j j' : Journal M} (h : chooseKey source weights alpha j = .ok (some key) j') :
    ∃ keys j₁, shuffle source weights.keys j = .ok keys j₁ ∧
      KeyChoice.choose alpha weights keys (.float (source j₁.draws)) = .ok key ∧
      j' = { j₁ with draws := j₁.draws + 1 } := by
  rcases chooseKey_cases h with ⟨-, hnone, -⟩ | ⟨-, keys, j₁, sum, _, hkeys, hsum, hpick, hk, hj'⟩
  · cases hnone
  · cases hk
    exact ⟨keys, j₁, hkeys, Fault.bind_eq_ok.2 ⟨sum, hsum, hpick⟩, hj'⟩

/-- The choice of a key. With counts as weights and draws from the unit interval, both ends
included, it gives one of the keys: the one that is chosen among the shuffled keys by the draw
after the shuffle. Read over the rationals, for keys in any order and a draw below 1, that choice
is the key at the one place where the sum of the raised weights passes the draw's part of the
total; and the draws that choose a key are an interval as long as its part of the total. -/
theorem chooseKey_in_proportion (hunit : ∀ k, (source k).InUnit) :
    (∀ weights : Table Value, weights.entries ≠ [] → weights.size < 0x20000000000000 →
      (∀ v ∈ weights.values, v.IsCount) → ∀ j : Journal M, ∃ keys j₁ key,
        shuffle source weights.keys j = .ok keys j₁ ∧ keys.Perm weights.keys ∧
        KeyChoice.choose (.float KeyChoice.smoothing) weights keys (.float (source j₁.draws)) =
          .ok key ∧
        key ∈ weights.keys ∧
        chooseKey source weights (.float KeyChoice.smoothing) j =
          .ok (some key) { j₁ with draws := j₁.draws + 1 }) ∧
    ∀ (weights : Table ℚ) (keys : List String) (alpha : ℚ), weights.entries ≠ [] →
      weights.keys.Nodup → (∀ w ∈ weights.values, 0 ≤ w) → 0 < alpha →
      keys.Perm weights.keys → ∃ sum, KeyChoice.total alpha weights.values = .ok sum ∧
        let reach := KeyChoice.reach alpha (KeyChoice.weigh weights keys)
        reach keys.length = sum ∧
        (∀ r, 0 ≤ r → r < 1 → ∃ k key, keys[k]? = some key ∧
          KeyChoice.choose alpha weights keys r = .ok key ∧
          ∀ l, reach l ≤ r * sum ∧ r * sum < reach (l + 1) ↔ l = k) ∧
        ∀ k key, keys[k]? = some key → ∃ w, weights.get? key = some w ∧
          reach (k + 1) = reach k + (w + alpha) ∧ 0 < (w + alpha) / sum ∧
          0 ≤ reach k / sum ∧ reach k / sum + (w + alpha) / sum ≤ 1 ∧
          ∀ r, 0 ≤ r → r < 1 → (KeyChoice.choose alpha weights keys r = .ok key ↔
            reach k / sum ≤ r ∧ r < reach k / sum + (w + alpha) / sum) := by
  refine ⟨?_, ?_⟩
  · intro weights hne hsize hcounts j
    obtain ⟨choice, j', hchoice⟩ := chooseKey_succeeds hunit hcounts hsize KeyChoice.smoothing j
    cases choice with
    | none =>
      rcases chooseKey_cases hchoice with ⟨hnil, -, -⟩ | ⟨-, _, _, _, _, -, -, -, hsome, -⟩
      · exact absurd hnil hne
      · cases hsome
    | some key =>
      obtain ⟨keys, j₁, hkeys, hchosen, rfl⟩ := choose_of_chooseKey hchoice
      exact ⟨keys, j₁, key, hkeys, shuffle_perm hkeys, hchosen, chooseKey_mem hchoice, hchoice⟩
  · intro weights keys alpha hne hn hweights halpha hperm
    have hraised : ∀ w ∈ weights.values, 0 < w + alpha :=
      fun w hw => add_pos_of_nonneg_of_pos (hweights w hw) halpha
    have h : KeyChoice.Shares alpha weights keys _ :=
      ⟨hne, hn, hperm, hraised, KeyChoice.total_eq alpha weights.values⟩
    refine ⟨_, h.total, h.reach_end, ?_, ?_⟩
    · intro r hlow hhigh
      obtain ⟨k, e, hk, hchosen, hfrom, hto⟩ := h.exists_stop hlow hhigh
      refine ⟨k, e.1, h.getElem?_of_weigh hk, hchosen, fun l => ⟨fun hl => ?_, ?_⟩⟩
      · exact KeyChoice.place_unique h.weigh_raised hl.1 hl.2 hfrom hto
      · rintro rfl
        exact ⟨hfrom, hto⟩
    · intro k key hk
      obtain ⟨w, hw, he⟩ := h.exists_weigh hk
      obtain ⟨hlow, hhigh, hdraws⟩ := h.interval he
      exact ⟨w, hw, KeyChoice.reach_succ he, div_pos (h.weigh_raised _ (List.mem_of_getElem? he))
        h.sum_pos, hlow, hhigh, hdraws⟩

theorem chooseKey_without_weight :
    (∃ key j', chooseKey (fun _ => .ofNat 1) ⟨[("a", .int 0), ("b", .int 10)]⟩
      (.float KeyChoice.smoothing) ({} : Journal Unit) = .ok (some key) j' ∧ key ∈ ["a", "b"]) ∧
    ∀ r : ℚ, 0 ≤ r → r < 1 →
      (KeyChoice.choose (1 / 10) ⟨[("a", 0), ("b", 10)]⟩ ["b", "a"] r = .ok "a" ↔
        101 / 102 ≤ r) := by
  have hunit : ∀ k : Nat, Binary64.InUnit (.ofNat 1) := fun _ => by decide
  obtain ⟨hvalues, hexact⟩ := chooseKey_in_proportion (M := Unit) hunit
  refine ⟨?_, ?_⟩
  · have hcounts : ∀ v ∈ [Value.int 0, .int 10], v.IsCount := by
      simp [Value.IsCount]
    obtain ⟨_, _, key, -, -, -, hkey, hchosen⟩ := hvalues ⟨[("a", .int 0), ("b", .int 10)]⟩
      (List.cons_ne_nil _ _) (by decide) hcounts {}
    exact ⟨key, _, hchosen, hkey⟩
  · intro r hlow hhigh
    obtain ⟨sum, htotal, -, -, hintervals⟩ := hexact ⟨[("a", 0), ("b", 10)]⟩ ["b", "a"] (1 / 10)
      (List.cons_ne_nil _ _) (by decide) (by simp [Table.values]) (by norm_num)
      (List.Perm.swap _ _ _)
    obtain ⟨w, hw, -, -, -, -, hdraws⟩ := hintervals 1 "a" rfl
    cases hw
    have hwalk : KeyChoice.weigh ⟨[("a", 0), ("b", 10)]⟩ ["b", "a"] = [("b", (10 : ℚ)), ("a", 0)] :=
      rfl
    have hfirst : KeyChoice.reach (1 / 10) [("b", 10), ("a", 0)] 1 = 101 / 10 := by
      norm_num [KeyChoice.reach]
    have hsum : sum = 102 / 10 := by
      rw [KeyChoice.total_eq] at htotal
      rw [← Except.ok.inj htotal]
      norm_num [Table.values]
    have hlast : (101 / 10 : ℚ) / (102 / 10) + (0 + 1 / 10) / (102 / 10) = 1 := by norm_num
    have hstart : (101 / 10 : ℚ) / (102 / 10) = 101 / 102 := by norm_num
    rw [hdraws r hlow hhigh, hwalk, hfirst, hsum, hlast, hstart]
    exact and_iff_left hhigh

end Search

end MinConflicts
