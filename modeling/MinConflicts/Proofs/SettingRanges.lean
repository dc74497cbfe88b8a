import MinConflicts.Proofs.Favourites
import MinConflicts.Proofs.Totality

/-!
# Ranges of settings

Settings are read, then merged with others again and again. A number that is read is brought into
its range, and so is the outcome of a merge, whose values are numbers. What slips through is a
text that does not spell a number, yet spells one loosely: no bounds are applied to it. It has to
be the last that was read; the next merge brings the setting back into its range.
-/
namespace MinConflicts

namespace Binary64

theorem toRat_one : (ofNat 1).toRat = 1 := by
  have hone : ofNat 1 = .finite ⟨false, 0x10000000000000, -52, by decide⟩ := rfl
  rw [hone, toRat, Finite.toRat, Finite.signed]
  norm_num

theorem inUnit_of_lt {x : Finite} (hzero : (zero false).lt (.finite x) = true)
    (hone : ¬(ofNat 1).lt (.finite x) = true) : InUnit (.finite x) := by
  rw [lt_iff_toRat_lt rfl rfl, toRat_zero] at hzero
  rw [lt_iff_toRat_lt rfl rfl, toRat_one, not_lt] at hone
  refine ⟨Number.int_le_finite.2 ?_, Number.finite_le_int.2 ?_⟩
  · exact_mod_cast hzero.le
  · exact_mod_cast hone

end Binary64

namespace Setting

theorem mem_all (f : Setting) : f ∈ all := by
  cases f <;> decide

def looselyOut : Setting → String → Bool
  | .maxIterations, s | .retryIterations, s | .lookAhead, s =>
    (Settings.looseInteger? s).any (· < 0)
  | .randomness, s | .preference, s => (Settings.looseReal? s).any fun x => !decide x.InUnit

def escapes (f : Setting) : Value → Bool
  | .str s => (Decimal.real? s).isNone && f.looselyOut s
  | _ => false

end Setting

namespace Settings

def Fits (s : Settings) : Setting → Prop
  | .maxIterations => 0 ≤ s.maxIterations
  | .retryIterations => 0 ≤ s.retryIterations
  | .lookAhead => ∀ n, s.lookAhead = some n → 0 ≤ n
  | .randomness => s.randomness.InUnit
  | .preference => s.preference.InUnit

def InRange (s : Settings) : Prop := ∀ f, s.Fits f

theorem clampFactor_inUnit (x : Binary64) : (clampFactor x).InUnit := by
  cases x with
  | nan l =>
    have hzero : clampFactor (.nan l) = .zero false := rfl
    rw [hzero]
    decide
  | infinity neg => cases neg <;> decide
  | finite x =>
    simp only [clampFactor, Binary64.isNaN, Bool.false_eq_true, if_false]
    by_cases hone : (Binary64.ofNat 1).lt (.finite x) = true
    · rw [if_pos hone]
      decide
    · rw [if_neg hone]
      split_ifs with hzero
      · exact Binary64.inUnit_of_lt hzero hone
      · decide

theorem asNumber_cases (v : Value) : (∃ s, v = .str s ∧ Decimal.real? s = none) ∨
    (∀ s, asNumber v ≠ .str s) ∧ ∀ f : Setting, f.escapes v = false := by
  cases v with
  | str s =>
    cases hs : Decimal.real? s with
    | none => exact .inl ⟨s, rfl, hs⟩
    | some x => exact .inr ⟨fun t => by simp [asNumber, hs], fun f => by simp [Setting.escapes, hs]⟩
  | null | bool | int | float | list | dict =>
    refine .inr ⟨fun s hs => ?_, fun f => rfl⟩
    cases hs

theorem plainInteger_text {s : String} {z : Int} (h : plainInteger (.str s) = .ok z) :
    looseInteger? s = some z := by
  rw [plainInteger] at h
  split_ifs at h
  cases hz : looseInteger? s with
  | none => simp [hz] at h
  | some z' => simpa [hz] using h

theorem readCount_nonneg {default z : Int} {v : Value} (hdefault : 0 ≤ default)
    (hv : ∀ s, asNumber v ≠ .str s) (h : readCount default v = .ok z) : 0 ≤ z := by
  rw [readCount] at h
  generalize asNumber v = w at hv h
  cases w with
  | null =>
    cases h
    exact hdefault
  | bool b => cases b <;> cases h <;> decide
  | int n =>
    cases h
    exact le_max_left _ _
  | float x =>
    cases x with
    | finite x =>
      cases h
      exact le_max_left _ _
    | nan | infinity =>
      cases h
      exact hdefault
  | str s => exact absurd rfl (hv s)
  | list | dict => cases h

theorem readCount_fits {default z : Int} {v : Value} (hdefault : 0 ≤ default)
    (h : readCount default v = .ok z) : 0 ≤ z ↔ Setting.maxIterations.escapes v = false := by
  rcases asNumber_cases v with ⟨s, rfl, hs⟩ | ⟨hnumber, hstays⟩
  · have htext : plainInteger (.str s) = .ok z := by simpa [readCount, asNumber, hs] using h
    simp [Setting.escapes, Setting.looselyOut, hs, plainInteger_text htext]
  · simp [hstays, readCount_nonneg hdefault hnumber h]

theorem readLookAhead_nonneg {o : Option Int} {v : Value} (hv : ∀ s, asNumber v ≠ .str s)
    (h : readLookAhead v = .ok o) : ∀ n, o = some n → 0 ≤ n := by
  rw [readLookAhead] at h
  generalize asNumber v = w at hv h
  intro n hn
  cases w with
  | null => cases h; cases hn
  | bool b => cases b <;> cases h <;> cases hn <;> decide
  | int z =>
    cases h
    split_ifs at hn with hz
    cases hn
    exact not_lt.1 hz
  | float x =>
    cases x with
    | finite x =>
      cases h
      split_ifs at hn with hz
      cases hn
      exact not_lt.1 hz
    | nan | infinity => cases h; cases hn
  | str s => exact absurd rfl (hv s)
  | list | dict => cases h

theorem readLookAhead_fits {o : Option Int} {v : Value} (h : readLookAhead v = .ok o) :
    (∀ n, o = some n → 0 ≤ n) ↔ Setting.lookAhead.escapes v = false := by
  rcases asNumber_cases v with ⟨s, rfl, hs⟩ | ⟨hnumber, hstays⟩
  · have htext : some <$> plainInteger (.str s) = .ok o := by
      simpa [readLookAhead, asNumber, hs] using h
    cases hz : plainInteger (.str s) with
    | error r => simp [hz] at htext
    | ok z =>
      rw [hz] at htext
      cases htext
      simp [Setting.escapes, Setting.looselyOut, hs, plainInteger_text hz]
  · simpa [hstays] using readLookAhead_nonneg hnumber h

theorem readFactor_inUnit {default x : Binary64} {v : Value} (hdefault : default.InUnit)
    (hv : ∀ s, asNumber v ≠ .str s) (h : readFactor default v = .ok (.ok x)) : x.InUnit := by
  rw [readFactor] at h
  generalize asNumber v = w at hv h
  cases w with
  | null =>
    cases h
    exact hdefault
  | bool | int | float =>
    obtain ⟨y, -, hy⟩ := Fault.bind_eq_ok.1 h
    cases hy
    exact clampFactor_inUnit y
  | str s => exact absurd rfl (hv s)
  | list | dict => cases h

theorem readFactor_fits {default x : Binary64} {v : Value} (hdefault : default.InUnit)
    (h : readFactor default v = .ok (.ok x)) :
    x.InUnit ↔ Setting.randomness.escapes v = false := by
  rcases asNumber_cases v with ⟨s, rfl, hs⟩ | ⟨hnumber, hstays⟩
  · have htext : looseReal? s = some x := by
      cases hx : looseReal? s with
      | none => simp [readFactor, asNumber, hs, hx] at h
      | some y => simpa [readFactor, asNumber, hs, hx] using h
    simp [Setting.escapes, Setting.looselyOut, hs, htext]
  · simp [hstays, readFactor_inUnit hdefault hnumber h]

theorem readWith_fits {α : Type} {read : Value → Except Refusal α} {entry : Option (String × Value)}
    {given : Option α} {default : α} {P : α → Prop} {escapes : Value → Bool} (hdefault : P default)
    (hread : ∀ v a, read v = .ok a → (P a ↔ escapes v = false))
    (h : readWith read entry = .ok given) :
    P (given.getD default) ↔ entry.any (fun e => escapes e.2) = false := by
  cases entry with
  | none =>
    cases h
    simpa using hdefault
  | some e =>
    obtain ⟨key, v⟩ := e
    rw [readWith] at h
    cases hv : read v with
    | error r => simp [hv] at h
    | ok a =>
      rw [hv] at h
      cases h
      exact hread v a hv

theorem readFactorWith_fits {entry : Option (String × Value)} {given : Option Binary64}
    {default : Binary64} (hdefault : default.InUnit)
    (h : readFactorWith default entry = .ok (.ok given)) : (given.getD default).InUnit ↔
      entry.any (fun e => Setting.randomness.escapes e.2) = false := by
  cases entry with
  | none =>
    cases h
    simpa using hdefault
  | some e =>
    obtain ⟨key, v⟩ := e
    obtain ⟨r, hv, hr⟩ := Fault.bind_eq_ok.1 h
    cases r with
    | error r => cases hr
    | ok x =>
      cases hr
      exact readFactor_fits hdefault hv

theorem ofEntries_eq_ok {es : List (Value × Value)} {s : Settings} : ofEntries es = .ok s ↔
    readWith (readCount defaultMaxIterations) (find? es .maxIterations) = .ok s.maxIterations? ∧
    readWith (readCount defaultRetryIterations) (find? es .retryIterations) =
      .ok s.retryIterations? ∧
    readWith readLookAhead (find? es .lookAhead) = .ok s.lookAhead? ∧
    readFactorWith defaultRandomness (find? es .randomness) = .ok (.ok s.randomness?) ∧
    readFactorWith defaultPreference (find? es .preference) = .ok (.ok s.preference?) := by
  simp only [ofEntries, Fault.bind_eq_ok]
  constructor
  · intro h
    obtain ⟨d, hd, e, he, h⟩ := h
    split at h
    · cases h
      exact ⟨‹_›, ‹_›, ‹_›, hd, he⟩
    · cases h
  · intro h
    obtain ⟨ha, hb, hc, hd, he⟩ := h
    exact ⟨_, hd, _, he, by rw [ha, hb, hc]; rfl⟩

theorem ofEntries_fits {es : List (Value × Value)} {s : Settings} (h : ofEntries es = .ok s)
    (f : Setting) : s.Fits f ↔ (find? es f).any (fun e => f.escapes e.2) = false := by
  obtain ⟨hmax, hretry, hahead, hrandom, hpreference⟩ := ofEntries_eq_ok.1 h
  cases f with
  | maxIterations => exact readWith_fits (by decide) (fun v a => readCount_fits (by decide)) hmax
  | retryIterations =>
    exact readWith_fits (by decide) (fun v a => readCount_fits (by decide)) hretry
  | lookAhead => exact readWith_fits (by simp) (fun v a => readLookAhead_fits) hahead
  | randomness => exact readFactorWith_fits (by decide) hrandom
  | preference => exact readFactorWith_fits (by decide) hpreference

def escapesIn (es : List (Value × Value)) : Bool :=
  Setting.all.any fun f => (find? es f).any fun e => f.escapes e.2

theorem ofEntries_inRange_iff {es : List (Value × Value)} {s : Settings}
    (h : ofEntries es = .ok s) : s.InRange ↔ escapesIn es = false := by
  simp only [InRange, ofEntries_fits h, escapesIn, List.any_eq_false, Bool.not_eq_true]
  exact ⟨fun hfits f _ => hfits f, fun hfits f => hfits f f.mem_all⟩

variable {s o t : Settings}

theorem escapes_valueOf (s : Settings) (f g : Setting) : f.escapes (s.valueOf g) = false := by
  cases g with
  | lookAhead =>
    rw [valueOf]
    cases s.lookAhead <;> rfl
  | maxIterations | retryIterations | randomness | preference => rfl

theorem override_inRange (h : s.override o = .ok t) : t.InRange := by
  intro f
  obtain ⟨u, hu⟩ := s.exists_overridden o f
  rw [ofEntries_fits h f, find?_override, hu]
  exact escapes_valueOf u f f

theorem merged_inRange {overrides : Overrides} (h : (s.merged (some overrides)).2 = .ok t) :
    t.InRange := by
  cases overrides with
  | settings o => exact override_inRange h
  | value v =>
    rw [merged] at h
    cases hd : toDict v with
    | error e => simp [hd] at h
    | ok d =>
      rw [hd] at h
      obtain ⟨o, -, ho⟩ := Fault.bind_eq_ok.1 h
      exact override_inRange ho

/-- How settings came about: they were read from a value, or merged with nothing, with settings
that came about in some way, or with a value. -/
inductive History where
  | read (v : Value)
  | kept (h : History)
  | merged (h other : History)
  | mergedValue (h : History) (v : Value)

namespace History

def result : History → Except Fault Settings
  | .read v => ofValue v
  | .kept h => do ((← h.result).merged none).2
  | .merged h other => do ((← h.result).merged (some (.settings (← other.result)))).2
  | .mergedValue h v => do ((← h.result).merged (some (.value v))).2

/-- Whether a text slips through to the result: one that is read, if no merge comes after. -/
def escapes : History → Bool
  | .read (.dict es) => escapesIn es
  | .read _ => false
  | .kept h => h.escapes
  | .merged _ _ => false
  | .mergedValue _ _ => false

/-- Settings are in range, whatever they were read from and merged with, unless a text that spells
no number was loosely read as one that is out of range. -/
theorem inRange_iff {h : History} {s : Settings} (hs : h.result = .ok s) :
    s.InRange ↔ h.escapes = false := by
  induction h generalizing s with
  | read v =>
    cases v with
    | dict es => exact ofEntries_inRange_iff hs
    | null | bool | int | float | str | list => cases hs
  | kept h ih =>
    obtain ⟨t, ht, hs⟩ := Fault.bind_eq_ok.1 hs
    cases hs
    exact ih ht
  -- What was merged may be out of range: only the reading of all five values counts.
  | merged h other _ _ =>
    obtain ⟨t, -, hs⟩ := Fault.bind_eq_ok.1 hs
    obtain ⟨o, -, hs⟩ := Fault.bind_eq_ok.1 hs
    exact iff_of_true (merged_inRange hs) rfl
  | mergedValue h v _ =>
    obtain ⟨t, -, hs⟩ := Fault.bind_eq_ok.1 hs
    exact iff_of_true (merged_inRange hs) rfl

def spacedFactor : History := .read (.dict [(.str "randomness_factor", .str "1_.5")])

theorem spacedFactor_out_of_range : ∃ s, spacedFactor.result = .ok s ∧ ¬s.InRange := by
  have hresult : spacedFactor.result =
      .ok ⟨none, none, none, some (.ofRatio false 3 2), none⟩ := rfl
  have hout : ¬(Binary64.ofRatio false 3 2).InUnit := by decide
  exact ⟨_, hresult, fun hrange => hout (hrange .randomness)⟩

theorem spacedFactor_merged_in_range : ∃ s, (mergedValue spacedFactor (.dict [])).result = .ok s ∧
    s.InRange ∧ s.randomness = .ofNat 1 := by
  have hresult : (mergedValue spacedFactor (.dict [])).result =
      .ok ⟨some 10000, some 2000, some none, some (.ofNat 1), some defaultPreference⟩ := rfl
  exact ⟨_, hresult, (inRange_iff hresult).2 rfl, rfl⟩

end History

end Settings

end MinConflicts
