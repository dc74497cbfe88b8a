import MinConflicts.Proofs.NumericSettings
import MinConflicts.Proofs.ProperValues

/-!
# Settings after merges

A merge reads the values of all five settings once more. Values in their ranges come out of this
as equal values, so each setting has the value that the overrides give for it, if they give one,
and else the value it had before. After a chain of merges it has the value of the last overrides
that gave one. The outcome of a merge counts as given throughout, so merging it into any other
settings gives it back.
-/
namespace MinConflicts

namespace Settings

variable {s o t u : Settings} {f : Setting}

theorem readCount_int {default z : Int} (h : 0 ≤ z) : readCount default (.int z) = .ok z :=
  congrArg Except.ok (max_eq_right h)

theorem readLookAhead_valueOf (h : s.Fits .lookAhead) :
    readLookAhead (s.valueOf .lookAhead) = .ok s.lookAhead := by
  cases hahead : s.lookAhead with
  | none =>
    rw [valueOf, hahead]
    rfl
  | some n =>
    rw [valueOf, hahead]
    exact congrArg Except.ok (if_neg (not_lt.2 (h n hahead)))

theorem readFactor_float (default x : Binary64) :
    readFactor default (.float x) = .ok (.ok (clampFactor x)) := rfl

theorem clampFactor_eq {x : Binary64} (h : x.InUnit) :
    (Number.float (clampFactor x)).eq (.float x) = true := by
  obtain ⟨y, rfl, -⟩ := h.exists_finite
  have hlow : 0 ≤ y.toRat := by exact_mod_cast Number.int_le_finite.1 h.1
  have hhigh : y.toRat ≤ 1 := by exact_mod_cast Number.finite_le_int.1 h.2
  obtain ⟨z, hz, -, hvalue⟩ := clampFactor_finite y
  rw [min_eq_left hhigh, max_eq_right hlow] at hvalue
  rw [hz, Number.eq_iff_exact]
  simp [Number.exact, hvalue]

theorem valueOf_eq_self (h : s.Fits f) : (s.valueOf f).eq (s.valueOf f) = true := by
  refine Value.eq_iff_same.2 ⟨Value.same_refl _, ?_⟩
  cases f with
  | maxIterations | retryIterations => rfl
  | lookAhead =>
    rw [valueOf]
    cases s.lookAhead <;> rfl
  | randomness | preference =>
    obtain ⟨y, hy, -⟩ := Binary64.InUnit.exists_finite h
    rw [valueOf, hy]
    rfl

theorem found_override (s o : Settings) (f : Setting) :
    found (Setting.all.map fun f => (.str f.key, s.overridden o f)) f = some (s.overridden o f) := by
  rw [found_eq, find?_override]
  rfl

theorem given_override (h : s.override o = .ok t) : t.given = Setting.all := by
  refine List.filter_eq_self.2 fun f _ => ?_
  have hf : f ∈ t.given := by
    rw [mem_given_iff h, found_override]
    rfl
  exact (List.mem_filter.1 hf).2

theorem getD_of_rel {α : Type} {R : Value → α → Prop} {v : Value} {given : Option α}
    (h : Option.Rel R (some v) given) (default : α) : R v (given.getD default) := by
  cases h
  assumption

theorem valueOf_override (h : s.override o = .ok t) (hvalue : s.overridden o f = u.valueOf f)
    (hfits : u.Fits f) : (t.valueOf f).eq (u.valueOf f) = true := by
  obtain ⟨hmax, hretry, hahead, hrandom, hprefer⟩ := ofEntries_eq_ok_iff_found.1 h
  simp only [found_override] at hmax hretry hahead hrandom hprefer
  have hself := valueOf_eq_self hfits
  cases f with
  | maxIterations =>
    have hread := getD_of_rel hmax defaultMaxIterations
    rw [hvalue, valueOf, readCount_int hfits] at hread
    rwa [valueOf, maxIterations, ← Except.ok.inj hread]
  | retryIterations =>
    have hread := getD_of_rel hretry defaultRetryIterations
    rw [hvalue, valueOf, readCount_int hfits] at hread
    rwa [valueOf, retryIterations, ← Except.ok.inj hread]
  | lookAhead =>
    have hread := getD_of_rel hahead none
    rw [hvalue, readLookAhead_valueOf hfits] at hread
    rwa [valueOf, lookAhead, ← Except.ok.inj hread]
  | randomness =>
    have hread := getD_of_rel hrandom defaultRandomness
    rw [hvalue, valueOf, readFactor_float] at hread
    rw [valueOf, randomness, ← Except.ok.inj (Except.ok.inj hread)]
    exact clampFactor_eq hfits
  | preference =>
    have hread := getD_of_rel hprefer defaultPreference
    rw [hvalue, valueOf, readFactor_float] at hread
    rw [valueOf, preference, ← Except.ok.inj (Except.ok.inj hread)]
    exact clampFactor_eq hfits

theorem agrees_iff : s.agrees t = true ↔ ∀ f, (s.valueOf f).eq (t.valueOf f) = true := by
  rw [agrees, List.all_eq_true]
  exact ⟨fun h f => h f f.mem_all, fun h f _ => h f⟩

theorem exists_override_agrees (s : Settings) (hall : o.given = Setting.all) (ho : o.InRange) :
    ∃ t, s.override o = .ok t ∧ t.agrees o = true := by
  obtain ⟨t, ht⟩ := s.exists_override o
  refine ⟨t, ht, agrees_iff.2 fun f => valueOf_override ht ?_ (ho f)⟩
  have hf : o.given.contains f = true := by
    rw [hall, List.contains_iff_mem]
    exact f.mem_all
  exact if_pos hf

namespace Overrides

def read : Option Overrides → Except Fault Settings
  | none => .ok {}
  | some (.settings o) => .ok o
  | some (.value v) => toDict v >>= ofValue

def gives : Option Overrides → Setting → Bool
  | none, _ => false
  | some (.settings o), f => o.given.contains f
  | some (.value v), f => match toDict v with
    | .ok (.dict es) => (found es f).isSome
    | _ => false

variable {x : Option Overrides}

theorem contains_given (h : read x = .ok o) (f : Setting) : o.given.contains f = gives x f := by
  cases x with
  | none =>
    cases h
    cases f <;> rfl
  | some overrides =>
    cases overrides with
    | settings p =>
      cases h
      rfl
    | value v =>
      obtain ⟨d, hd, hread⟩ := Fault.bind_eq_ok.1 h
      cases d with
      | dict es =>
        rw [Bool.eq_iff_iff, List.contains_iff_mem, mem_given_iff hread, gives, hd]
      | null | bool | int | float | str | list => cases hread

end Overrides

open Overrides

variable {x : Option Overrides} {xs : List (Option Overrides)}

theorem merged_some {overrides : Overrides} (h : read (some overrides) = .ok o) (s : Settings) :
    (s.merged (some overrides)).2 = s.override o := by
  cases overrides with
  | settings p =>
    cases h
    rfl
  | value v =>
    obtain ⟨d, hd, hread⟩ := Fault.bind_eq_ok.1 h
    simp only [merged, hd, hread]
    rfl

theorem exists_merged_valueOf (hs : s.InRange) (hx : read x = .ok o) (ho : o.InRange) :
    ∃ t, (s.merged x).2 = .ok t ∧ t.InRange ∧ (x.isSome = true → t.given = Setting.all) ∧
      ∀ f, (t.valueOf f).eq (if gives x f then o.valueOf f else s.valueOf f) = true := by
  cases x with
  | none => exact ⟨s, rfl, hs, nofun, fun f => valueOf_eq_self (hs f)⟩
  | some overrides =>
    obtain ⟨t, ht⟩ := s.exists_override o
    refine ⟨t, (merged_some hx s).trans ht, override_inRange ht, fun _ => given_override ht, ?_⟩
    intro f
    have hvalue : s.overridden o f = if gives (some overrides) f then o.valueOf f
        else s.valueOf f := by
      rw [overridden, contains_given hx]
    split_ifs at hvalue ⊢
    · exact valueOf_override ht hvalue (ho f)
    · exact valueOf_override ht hvalue (hs f)

def mergedAll (s : Settings) (xs : List (Option Overrides)) : Except Fault Settings :=
  xs.foldlM (fun s x => (s.merged x).2) s

/-- Whether a value is that of the last overrides that give a setting, or else the one before all
of them. -/
def IsLatest (s : Settings) (xs : List (Option Overrides)) (f : Setting) (v : Value) : Prop :=
  (∃ before x after o, xs = before ++ x :: after ∧ gives x f = true ∧
    (∀ y ∈ after, gives y f = false) ∧ read x = .ok o ∧ v.eq (o.valueOf f) = true) ∨
  (∀ x ∈ xs, gives x f = false) ∧ v.eq (s.valueOf f) = true

theorem IsLatest.cons {v : Value} (h : IsLatest t xs f v) (hx : read x = .ok o)
    (ht : (t.valueOf f).eq (if gives x f then o.valueOf f else s.valueOf f) = true) :
    IsLatest s (x :: xs) f v := by
  rcases h with ⟨before, y, after, p, rfl, hlast⟩ | ⟨hnone, hv⟩
  -- A later one gives the setting, so it does not matter whether the first one does.
  · exact .inl ⟨x :: before, y, after, p, rfl, hlast⟩
  · split_ifs at ht with hgives
    · exact .inl ⟨[], x, xs, o, rfl, hgives, hnone, hx, Value.eq_trans hv ht⟩
    · have hcons : ∀ y ∈ x :: xs, gives y f = false :=
        List.forall_mem_cons.2 ⟨Bool.not_eq_true _ ▸ hgives, hnone⟩
      exact .inr ⟨hcons, Value.eq_trans hv ht⟩

theorem exists_mergedAll (hs : s.InRange) (hxs : ∀ x ∈ xs, ∃ o, read x = .ok o ∧ o.InRange) :
    ∃ t, s.mergedAll xs = .ok t ∧ ∀ f, IsLatest s xs f (t.valueOf f) := by
  induction xs generalizing s with
  | nil => exact ⟨s, rfl, fun f => .inr ⟨List.forall_mem_nil _, valueOf_eq_self (hs f)⟩⟩
  | cons x xs ih =>
    obtain ⟨⟨o, hx, ho⟩, hxs⟩ := List.forall_mem_cons.1 hxs
    -- The first merge leaves settings in range, and the rest of the chain starts from these.
    obtain ⟨t, ht, hrange, -, hvalues⟩ := exists_merged_valueOf hs hx ho
    obtain ⟨u, hu, hlatest⟩ := ih hrange hxs
    refine ⟨u, ?_, fun f => (hlatest f).cons hx (hvalues f)⟩
    simp only [mergedAll, List.foldlM_cons, Fault.bind_eq_ok]
    exact ⟨t, ht, hu⟩

/-- Merges override setting by setting. The last overrides in a chain win, an empty dictionary and
the settings themselves change nothing, and the outcome of a merge replaces all other settings. -/
theorem merged_fieldwise (hs : s.InRange) :
    (∀ x o, read x = .ok o → o.InRange → ∃ t, (s.merged x).2 = .ok t ∧
      (∀ f, (t.valueOf f).eq (if gives x f then o.valueOf f else s.valueOf f) = true) ∧
      (x.isSome = true → t.given = Setting.all ∧
        ∀ y : Settings, ∃ u, (y.merged (some (.settings t))).2 = .ok u ∧ u.agrees t = true)) ∧
    (∀ xs, (∀ x ∈ xs, ∃ o, read x = .ok o ∧ o.InRange) →
      ∃ t, s.mergedAll xs = .ok t ∧ ∀ f, IsLatest s xs f (t.valueOf f)) ∧
    (∃ t, (s.merged (some (.value (.dict [])))).2 = .ok t ∧ t.agrees s = true) ∧
    ∃ t, (s.merged (some (.settings s))).2 = .ok t ∧ t.agrees s = true := by
  refine ⟨fun x o hx ho => ?_, fun xs hxs => exists_mergedAll hs hxs, ?_, ?_⟩
  · obtain ⟨t, ht, hrange, hgiven, hvalues⟩ := exists_merged_valueOf hs hx ho
    refine ⟨t, ht, hvalues, fun h => ⟨hgiven h, fun y => ?_⟩⟩
    exact exists_override_agrees y (hgiven h) hrange
  · have hempty : ofEntries [] = .ok {} := rfl
    have hdefaults : ({} : Settings).InRange := (ofEntries_inRange_iff hempty).2 rfl
    obtain ⟨t, ht, -, -, hvalues⟩ :=
      exists_merged_valueOf (x := some (.value (.dict []))) hs rfl hdefaults
    exact ⟨t, ht, agrees_iff.2 hvalues⟩
  · obtain ⟨t, ht, -, -, hvalues⟩ := exists_merged_valueOf (x := some (.settings s)) hs rfl hs
    refine ⟨t, ht, agrees_iff.2 fun f => ?_⟩
    have hvalue := hvalues f
    rwa [ite_self] at hvalue

def cautious : Settings := { maxIterations? := some 100, preference? := some (.ofRatio false 1 2) }

def straightened : Overrides :=
  .value (.dict [(.str "randomnessFactor", .int 0), (.str "look_ahead_models", .int 4)])

theorem cautious_straightened : ∃ t, (cautious.merged (some straightened)).2 = .ok t ∧
    (t.valueOf .maxIterations).eq (.int 100) = true ∧
    (t.valueOf .lookAhead).eq (.int 4) = true ∧
    (t.valueOf .randomness).eq (.float (.zero false)) = true ∧
    (t.valueOf .preference).eq (.float (.ofRatio false 1 2)) = true ∧
    t.given = Setting.all := by
  have hbase : ofEntries [(.str "max_iterations", .int 100),
      (.str "preference_factor", .float (.ofRatio false 1 2))] = .ok cautious := rfl
  have hcautious : cautious.InRange := (ofEntries_inRange_iff hbase).2 rfl
  have hread : ofEntries [(.str "randomnessFactor", .int 0), (.str "look_ahead_models", .int 4)] =
      .ok { lookAhead? := some (some 4), randomness? := some (.zero false) } := rfl
  have hoverrides := (ofEntries_inRange_iff hread).2 rfl
  obtain ⟨t, ht, hvalues, hall⟩ :=
    (merged_fieldwise hcautious).1 (some straightened) _ hread hoverrides
  exact ⟨t, ht, hvalues .maxIterations, hvalues .lookAhead, hvalues .randomness,
    hvalues .preference, (hall rfl).1⟩

end Settings

end MinConflicts
