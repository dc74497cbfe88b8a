import Mathlib.Data.List.Infix
import MinConflicts.Path

/-!
# Segments of joined paths

The segments of a path are its parts between separators. Joining and splitting undo each other
for keys without separator, so that a path below a place has the segments of the place, followed
by the keys that lead from there to it.
-/
namespace MinConflicts

theorem Text.splitOn_eq (separator : Char) (cs : List Char) :
    splitOn separator cs = cs.splitOn separator := by
  induction cs with
  | nil => rfl
  | cons c cs ih =>
    simp only [splitOn, ih, List.splitOn_cons_eq_if_modifyHead, beq_iff_eq]
    split_ifs
    · rfl
    · cases hsplit : cs.splitOn separator with
      | nil => exact absurd hsplit (List.splitOn_ne_nil _ _)
      | cons w ws => rfl

namespace Path

def IsKey (key : String) : Prop := key ≠ "" ∧ separator ∉ key.toList

instance (key : String) : Decidable (IsKey key) := inferInstanceAs (Decidable (_ ∧ _))

theorem segments_eq (path : String) :
    segments path = (path.toList.splitOn separator).map String.ofList := by
  rw [segments, Text.splitOn_eq]

theorem segments_ne_nil (path : String) : segments path ≠ [] := by
  simp [segments_eq]

theorem segments_of_isKey {key : String} (h : IsKey key) : segments key = [key] := by
  rw [segments_eq, List.splitOn_eq_singleton h.2]
  simp

theorem segments_append (s t : String) :
    segments (s ++ String.singleton separator ++ t) = segments s ++ segments t := by
  simp [segments_eq, List.splitOn_append_cons_self]

def dotted (place : String) (keys : List String) : String :=
  (String.singleton separator).intercalate (if place = "" then keys else place :: keys)

def base (place : String) : List String := if place = "" then [] else segments place

@[simp] theorem dotted_nil (place : String) : dotted place [] = place := by
  unfold dotted
  split_ifs with h
  · simp [h]
  · simp

theorem join_ne_empty {place key : String} (h : key ≠ "") : join place key ≠ "" := by
  unfold join
  split_ifs
  · exact h
  · simp [h]

theorem dotted_join {place key : String} (h : key ≠ "") (keys : List String) :
    dotted (join place key) keys = dotted place (key :: keys) := by
  by_cases hplace : place = ""
  · subst hplace
    simp [dotted, join, h]
  · have hjoin : join place key ≠ "" := join_ne_empty h
    rw [dotted, if_neg hjoin, dotted, if_neg hplace]
    simp [join, hplace]

theorem base_join {place key : String} (h : IsKey key) :
    base (join place key) = base place ++ [key] := by
  rw [base, if_neg (join_ne_empty h.1)]
  by_cases hplace : place = ""
  · simp [join, base, hplace, segments_of_isKey h]
  · simp only [join, base, String.isEmpty_iff, if_neg hplace, segments_append, segments_of_isKey h]

theorem segments_dotted {keys : List String} (hne : keys ≠ []) (hkeys : ∀ k ∈ keys, IsKey k)
    (place : String) : segments (dotted place keys) = base place ++ keys := by
  induction keys generalizing place with
  | nil => exact absurd rfl hne
  | cons key keys ih =>
    obtain ⟨hkey, hrest⟩ := List.forall_mem_cons.1 hkeys
    rw [← dotted_join hkey.1]
    cases keys with
    | nil =>
      have hbase : base (join place key) = segments (join place key) :=
        if_neg (join_ne_empty hkey.1)
      rw [dotted_nil, ← hbase, base_join hkey]
    | cons key' keys =>
      rw [ih (List.cons_ne_nil _ _) hrest, base_join hkey, List.append_assoc, List.singleton_append]

end Path

end MinConflicts
