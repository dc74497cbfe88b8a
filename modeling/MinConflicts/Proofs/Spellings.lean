import Mathlib.Data.String.Basic
import MinConflicts.Proofs.Addresses
import MinConflicts.Proofs.SettingRanges
import MinConflicts.Proofs.Sorting

/-!
# Spellings of settings

A setting is looked up under two names that are listed. The names that are no cause for a warning
are the listed first names and what they give in camel case. Both are the same ten names. What is
read of a dictionary depends on the values found under them and on nothing else: a setting is given
exactly when a value is found, and the order of the entries, the spelling and all other keys do not
matter. The other keys are warned of in order.
-/
namespace MinConflicts

namespace Setting

theorem camelCase_key (f : Setting) : camelCase f.key = f.camelKey := by
  cases f <;> decide +kernel

def spellings : List String := all.map key ++ all.map camelKey

end Setting

namespace Settings

variable {α : Type} {es : List (Value × Value)} {s : Settings}

/-- The value of a setting: under the first spelling if there is one, else under the second. -/
def found (es : List (Value × Value)) (f : Setting) : Option Value :=
  (Value.findKey? f.key es).or (Value.findKey? f.camelKey es)

theorem found_eq (es : List (Value × Value)) (f : Setting) :
    found es f = (find? es f).map (·.2) := by
  rw [found, find?]
  cases Value.findKey? f.key es with
  | some v => rfl
  | none => cases Value.findKey? f.camelKey es <;> rfl

theorem readWith_eq_ok {read : Value → Except Refusal α} {entry : Option (String × Value)}
    {given : Option α} : readWith read entry = .ok given ↔
      Option.Rel (fun v a => read v = .ok a) (entry.map (·.2)) given := by
  cases entry with
  | none => cases given <;> simp [readWith]
  | some e =>
    cases hv : read e.2 with
    | error r => cases given <;> simp [readWith, hv]
    | ok a => cases given <;> simp [readWith, hv]

theorem readFactorWith_eq_ok {default : Binary64} {entry : Option (String × Value)}
    {given : Option Binary64} : readFactorWith default entry = .ok (.ok given) ↔
      Option.Rel (fun v x => readFactor default v = .ok (.ok x)) (entry.map (·.2)) given := by
  cases entry with
  | none => cases given <;> simp [readFactorWith]
  | some e =>
    cases hv : readFactor default e.2 with
    | error fault => cases given <;> simp [readFactorWith, hv, bind, Except.bind]
    | ok read =>
      cases read <;> cases given <;>
        simp [readFactorWith, hv, bind, Except.bind, pure, Except.pure]

theorem ofEntries_eq_ok_iff_found : ofEntries es = .ok s ↔
    Option.Rel (fun v a => readCount defaultMaxIterations v = .ok a) (found es .maxIterations)
      s.maxIterations? ∧
    Option.Rel (fun v a => readCount defaultRetryIterations v = .ok a) (found es .retryIterations)
      s.retryIterations? ∧
    Option.Rel (fun v a => readLookAhead v = .ok a) (found es .lookAhead) s.lookAhead? ∧
    Option.Rel (fun v x => readFactor defaultRandomness v = .ok (.ok x)) (found es .randomness)
      s.randomness? ∧
    Option.Rel (fun v x => readFactor defaultPreference v = .ok (.ok x)) (found es .preference)
      s.preference? := by
  simp only [ofEntries_eq_ok, readWith_eq_ok, readFactorWith_eq_ok, found_eq]

theorem isSome_of_rel {R : Value → α → Prop} {v : Option Value} {a : Option α}
    (h : Option.Rel R v a) : a.isSome = v.isSome := by
  cases h <;> rfl

theorem mem_given_iff (h : ofEntries es = .ok s) (f : Setting) :
    f ∈ s.given ↔ (found es f).isSome = true := by
  obtain ⟨hmax, hretry, hahead, hrandom, hpreference⟩ := ofEntries_eq_ok_iff_found.1 h
  rw [given, List.mem_filter, and_iff_right f.mem_all]
  cases f with
  | maxIterations => simp [isSome_of_rel hmax]
  | retryIterations => simp [isSome_of_rel hretry]
  | lookAhead => simp [isSome_of_rel hahead]
  | randomness => simp [isSome_of_rel hrandom]
  | preference => simp [isSome_of_rel hpreference]

theorem isKnown_iff {key : Value} :
    isKnown key = true ↔ ∃ name ∈ Setting.spellings, key = .str name := by
  simp only [isKnown, Setting.camelCase_key, List.any_eq_true, Bool.or_eq_true,
    Value.same_str_right, Setting.spellings, List.mem_append, List.mem_map]
  constructor
  · rintro ⟨f, hf, h | h⟩
    · exact ⟨f.key, .inl ⟨f, hf, rfl⟩, h⟩
    · exact ⟨f.camelKey, .inr ⟨f, hf, rfl⟩, h⟩
  · rintro ⟨name, ⟨f, hf, rfl⟩ | ⟨f, hf, rfl⟩, h⟩
    · exact ⟨f, hf, .inl h⟩
    · exact ⟨f, hf, .inr h⟩

theorem unknownKeys_perm (es : List (Value × Value)) :
    (unknownKeys es).Perm (((es.map (·.1)).filter (!isKnown ·)).map Value.display) :=
  sortBy_perm _ _

theorem unknownKeys_pairwise (es : List (Value × Value)) : (unknownKeys es).Pairwise (· ≤ ·) := by
  refine pairwise_sortBy (fun x y z hxy hyz => hxy.trans hyz) (List.pairwise_of_forall ?_)
  intro x y
  split_ifs with h
  · simp only [Bool.not_eq_true', decide_eq_false_iff_not] at h
    exact not_lt.1 h
  · simp only [Bool.not_eq_true', decide_eq_false_iff_not, not_not] at h
    exact h.le

def otherKeys (es : List (Value × Value)) : List Value :=
  (es.map (·.1)).filter fun key => !Setting.spellings.any fun name => key.same (.str name)

theorem otherKeys_eq (es : List (Value × Value)) :
    otherKeys es = (es.map (·.1)).filter (!isKnown ·) := by
  refine List.filter_congr fun key _ => congrArg (!·) (Bool.eq_iff_iff.2 ?_)
  simp only [isKnown_iff, List.any_eq_true, Value.same_str_right]

def warningOf (texts : List String) : Log.Record :=
  ⟨.warning, "consys_solver.config",
    "[config] Ignoring unknown solver config key(s): " ++ (Value.list (texts.map .str)).repr⟩

theorem warnings_of_otherKeys_eq_nil (h : otherKeys es = []) : warnings (.dict es) = [] := by
  have hnone : unknownKeys es = [] := by
    rw [unknownKeys, ← otherKeys_eq, h]
    rfl
  simp [warnings, hnone]

theorem warnings_of_otherKeys_ne_nil (h : otherKeys es ≠ []) : ∃ texts,
    texts.Perm ((otherKeys es).map Value.display) ∧ texts.Pairwise (· ≤ ·) ∧
      warnings (.dict es) = [warningOf texts] := by
  have hperm := unknownKeys_perm es
  rw [← otherKeys_eq] at hperm
  have hsome : unknownKeys es ≠ [] := by
    intro hnil
    rw [hnil, List.nil_perm, List.map_eq_nil_iff] at hperm
    exact h hperm
  refine ⟨unknownKeys es, hperm, unknownKeys_pairwise es, ?_⟩
  simp [warnings, hsome, warningOf, Log.base]

/-- Where the same values are found, the same settings are read, with the same ones given. Keys that
spell no setting are warned of in order, and nothing else is. -/
theorem reading_depends_on_found (d e : List (Value × Value)) :
    ((∀ f, found d f = found e f) → ∀ s, ofValue (.dict d) = .ok s ↔ ofValue (.dict e) = .ok s) ∧
    (∀ s, ofValue (.dict d) = .ok s → ∀ f, f ∈ s.given ↔ (found d f).isSome = true) ∧
    (otherKeys d = [] → warnings (.dict d) = []) ∧
    (otherKeys d ≠ [] → ∃ texts, texts.Perm ((otherKeys d).map Value.display) ∧
      texts.Pairwise (· ≤ ·) ∧ warnings (.dict d) = [warningOf texts]) := by
  refine ⟨fun h s => ?_, fun s hs f => ?_, fun h => ?_, fun h => ?_⟩
  · simp only [ofValue, ofEntries_eq_ok_iff_found, h]
  · exact mem_given_iff hs f
  · exact warnings_of_otherKeys_eq_nil h
  · exact warnings_of_otherKeys_ne_nil h

def respelled : List (Value × Value) × List (Value × Value) :=
  ([(.str "maxIterations", .int 5), (.str "retries", .int 3)],
    [(.str "other", .null), (.str "maxIterations", .int 7), (.str "max_iterations", .int 5)])

theorem respelled_reads_alike : ofValue (.dict respelled.1) = .ok { maxIterations? := some 5 } ∧
    ofValue (.dict respelled.2) = .ok { maxIterations? := some 5 } ∧
    ∃ texts, texts.Perm ["retries"] ∧ warnings (.dict respelled.1) = [warningOf texts] := by
  obtain ⟨hread, -, -, hwarned⟩ := reading_depends_on_found respelled.1 respelled.2
  have hfound : ∀ f, found respelled.1 f = found respelled.2 f := by
    intro f
    cases f <;> rfl
  have hfirst : ofValue (.dict respelled.1) = .ok { maxIterations? := some 5 } := rfl
  have hother : otherKeys respelled.1 = [.str "retries"] := rfl
  obtain ⟨texts, hperm, -, hwarning⟩ := hwarned (by rw [hother]; exact List.cons_ne_nil _ _)
  rw [hother] at hperm
  exact ⟨hfirst, (hread hfound _).1 hfirst, texts, hperm, hwarning⟩

end Settings

end MinConflicts
