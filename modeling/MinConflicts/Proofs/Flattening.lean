import MinConflicts.Domain.Tree
import MinConflicts.Proofs.Addresses
import MinConflicts.Proofs.Segments
import MinConflicts.Proofs.Tables

/-!
# Flattened trees

A walk through a tree meets the root, then each key, the node under it and what is below that
node, before the next key. Flattening stops at the first flaw that the walk meets. Without a flaw
it lists the leaves in the order of the walk, each under the keys that lead to it; as the keys of
a branch are distinct, the ways to two leaves part, and no leaf is lost.
-/
namespace MinConflicts

namespace Value

def isPathKey : Value → Bool
  | .str k => decide (Path.IsKey k)
  | _ => false

theorem isPathKey_iff {v : Value} : v.isPathKey = true ↔ ∃ k, v = .str k ∧ Path.IsKey k := by
  cases v with
  | str k => simp [isPathKey]
  | null | bool | int | float | list | dict => simp [isPathKey]

end Value

namespace Tree

theorem validKey_eq (place : String) (key : Value) : validKey place key =
    if key.isPathKey then .ok key.display else .error (.invalidDomain (.invalidKey key place)) := by
  cases key with
  | str k =>
    by_cases h : Path.IsKey k
    · have hempty : ¬(k.isEmpty || k.toList.contains Path.separator) := by
        simpa [Path.IsKey] using h
      rw [validKey, if_neg hempty, Value.isPathKey, decide_eq_true h]
      rfl
    · have hempty : k.isEmpty || k.toList.contains Path.separator := by
        simpa [Path.IsKey, or_iff_not_imp_left] using h
      rw [validKey, if_pos hempty, Value.isPathKey, decide_eq_false h]
      rfl
  | null | bool | int | float | list | dict => rfl

mutual

def Keyed : Tree → Prop
  | .leaf _ => True
  | .branch items => items.Pairwise (fun e f => e.1.same f.1 = false) ∧ KeyedItems items
  | .other _ => True

def KeyedItems : List (Value × Tree) → Prop
  | [] => True
  | (_, t) :: items => t.Keyed ∧ KeyedItems items

end

mutual

def Sound : Tree → Prop
  | .leaf _ => True
  | .branch items => SoundItems items
  | .other _ => False

def SoundItems : List (Value × Tree) → Prop
  | [] => True
  | (key, t) :: items => (∃ k, key = .str k ∧ Path.IsKey k) ∧ t.Sound ∧ SoundItems items

end

mutual

/-- The leaves below a node, depth first, each with the keys that lead to it. -/
def leaves : Tree → List (List String × Domain)
  | .leaf d => [([], d)]
  | .branch items => itemLeaves items
  | .other _ => []

def itemLeaves : List (Value × Tree) → List (List String × Domain)
  | [] => []
  | (key, t) :: items => t.leaves.map (fun l => (key.display :: l.1, l.2)) ++ itemLeaves items

end

theorem mem_insertNode {key : Value} {t : Tree} {items : List (Value × Tree)} {e : Value × Tree}
    (he : e ∈ insertNode key t items) : e.1 = key ∨ ∃ f ∈ items, e.1 = f.1 := by
  induction items with
  | nil => exact .inl (congrArg Prod.fst (List.mem_singleton.1 he))
  | cons f items ih =>
    rw [insertNode] at he
    split_ifs at he with hsame
    · rcases List.mem_cons.1 he with rfl | he
      · exact .inr ⟨f, List.mem_cons_self, rfl⟩
      · exact .inr ⟨e, List.mem_cons_of_mem _ he, rfl⟩
    · rcases List.mem_cons.1 he with rfl | he
      · exact .inr ⟨e, List.mem_cons_self, rfl⟩
      · exact (ih he).imp_right fun ⟨g, hg, heq⟩ => ⟨g, List.mem_cons_of_mem _ hg, heq⟩

theorem insertNode_keyed {key : Value} {t : Tree} (ht : t.Keyed) {items : List (Value × Tree)}
    (h : (branch items).Keyed) : (branch (insertNode key t items)).Keyed := by
  induction items with
  | nil => exact ⟨List.pairwise_singleton _ _, ht, trivial⟩
  | cons f items ih =>
    obtain ⟨hdistinct, hf, hitems⟩ := h
    obtain ⟨hfirst, hrest⟩ := List.pairwise_cons.1 hdistinct
    rw [insertNode]
    split_ifs with hsame
    · exact ⟨List.pairwise_cons.2 ⟨hfirst, hrest⟩, ht, hitems⟩
    · obtain ⟨hpairwise, hkeyed⟩ := ih ⟨hrest, hitems⟩
      refine ⟨List.pairwise_cons.2 ⟨fun e he => ?_, hpairwise⟩, hf, hkeyed⟩
      rcases mem_insertNode he with hkey | ⟨g, hg, hkey⟩
      · rw [hkey]
        exact Bool.eq_false_iff.2 hsame
      · rw [hkey]
        exact hfirst g hg

theorem ofItems_keyed {items : List (Value × Tree)} (h : KeyedItems items) :
    (ofItems items).Keyed := by
  have hfold : ∀ acc, (branch acc).Keyed →
      (branch (items.foldl (fun acc e => insertNode e.1 e.2 acc) acc)).Keyed := by
    induction items with
    | nil => exact fun acc hacc => hacc
    | cons e items ih => exact fun acc hacc => ih h.2 _ (insertNode_keyed h.1 hacc)
  exact hfold [] ⟨.nil, trivial⟩

inductive Encounter where
  | root (place : String) (t : Tree)
  | key (place : String) (key : Value)
  | node (path : String) (t : Tree)

/-- What is wrong with what a walk meets: a root that is no branch, a key that cannot be one, or a
node that is neither a domain nor a branch. -/
def Encounter.flaw? : Encounter → Option DomainFlaw
  | .root _ (.branch _) => none
  | .root place t => some (.notMapping place t.kindName)
  | .key place k => if k.isPathKey then none else some (.invalidKey k place)
  | .node path (.other kind) => some (.notDomain path kind)
  | .node _ _ => none

mutual

def under (path : String) : Tree → List Encounter
  | .leaf _ => []
  | .branch items => underItems path items
  | .other _ => []

def underItems (place : String) : List (Value × Tree) → List Encounter
  | [] => []
  | (key, t) :: items =>
    .key place key :: .node (Path.join place key.display) t ::
      (t.under (Path.join place key.display) ++ underItems place items)

end

def walk (t : Tree) (place : String) : List Encounter := .root place t :: t.under place

def unlessFlawed {α : Type} : Option DomainFlaw → α → Except Fault α
  | none, a => .ok a
  | some flaw, _ => .error (.invalidDomain flaw)

def pathed (place : String) (ls : List (List String × Domain)) : List (String × Domain) :=
  ls.map fun l => (Path.dotted place l.1, l.2)

theorem pathed_cons_key {place key : String} (h : key ≠ "") (ls : List (List String × Domain)) :
    pathed place (ls.map fun l => (key :: l.1, l.2)) = pathed (Path.join place key) ls := by
  simp [pathed, Path.dotted_join h]

mutual

theorem flattenNode_eq (path : String) : ∀ t : Tree, flattenNode path t =
    unlessFlawed ((Encounter.node path t :: t.under path).findSome? Encounter.flaw?)
      (pathed path t.leaves)
  | .leaf d => by simp [flattenNode, under, Encounter.flaw?, unlessFlawed, pathed, leaves]
  | .branch items => by
    rw [flattenNode, flattenItems_eq path items]
    rfl
  | .other kind => rfl

theorem flattenItems_eq (place : String) : ∀ items : List (Value × Tree), flattenItems place items =
    unlessFlawed ((underItems place items).findSome? Encounter.flaw?)
      (pathed place (itemLeaves items))
  | [] => rfl
  | (key, t) :: items => by
    rw [flattenItems, validKey_eq, underItems, List.findSome?_cons]
    by_cases hkey : key.isPathKey
    · obtain ⟨k, rfl, hk⟩ := Value.isPathKey_iff.1 hkey
      simp only [Encounter.flaw?, if_pos hkey, Value.display]
      rw [← List.cons_append, List.findSome?_append, itemLeaves, pathed, List.map_append, ← pathed,
        ← pathed, Value.display, pathed_cons_key hk.1]
      -- A flaw of the node or below it comes before all flaws of the items that follow.
      change (do
        let here ← flattenNode (Path.join place k) t
        return here ++ (← flattenItems place items)) = _
      rw [flattenNode_eq (Path.join place k) t, flattenItems_eq place items]
      cases (Encounter.node (Path.join place k) t ::
        t.under (Path.join place k)).findSome? Encounter.flaw? with
      | some flaw => rfl
      | none =>
        cases (underItems place items).findSome? Encounter.flaw? with
        | some flaw => rfl
        | none => rfl
    · simp only [Encounter.flaw?, if_neg hkey]
      rfl

end

mutual

theorem sound_iff (path : String) : ∀ t : Tree, t.Sound ↔
    (Encounter.node path t :: t.under path).findSome? Encounter.flaw? = none
  | .leaf d => by simp [Sound, under, Encounter.flaw?]
  | .branch items => by
    rw [Sound, soundItems_iff path items]
    rfl
  | .other kind => by simp [Sound, Encounter.flaw?]

theorem soundItems_iff (place : String) : ∀ items : List (Value × Tree), SoundItems items ↔
    (underItems place items).findSome? Encounter.flaw? = none
  | [] => by simp [SoundItems, underItems]
  | (key, t) :: items => by
    rw [SoundItems, underItems, List.findSome?_cons, ← List.cons_append, List.findSome?_append,
      sound_iff (Path.join place key.display) t, soundItems_iff place items, ← Value.isPathKey_iff]
    by_cases hkey : key.isPathKey
    · simp [Encounter.flaw?, hkey, Option.or_eq_none_iff]
    · simp [Encounter.flaw?, hkey]

end

theorem flatten_eq (t : Tree) (place : String) : t.flatten place =
    unlessFlawed ((t.walk place).findSome? Encounter.flaw?)
      (Table.ofList (pathed place t.leaves)) := by
  cases t with
  | leaf d => rfl
  | other kind => rfl
  | branch items =>
    have hwalk : ((branch items).walk place).findSome? Encounter.flaw? =
        (underItems place items).findSome? Encounter.flaw? := rfl
    rw [flatten, flattenItems_eq, hwalk]
    cases (underItems place items).findSome? Encounter.flaw? with
    | none => rfl
    | some flaw => rfl

theorem flatten_eq_ok_iff {t : Tree} {place : String} :
    (∃ flat, t.flatten place = .ok flat) ↔ (∃ items, t = .branch items) ∧ t.Sound := by
  cases t with
  | leaf d | other kind => simp [flatten]
  | branch items =>
    rw [flatten_eq, Sound, soundItems_iff place items]
    change (∃ flat, unlessFlawed ((underItems place items).findSome? Encounter.flaw?) _ =
      .ok flat) ↔ _
    cases (underItems place items).findSome? Encounter.flaw? <;> simp [unlessFlawed]

mutual

theorem Sound.isKey_of_mem_leaves : ∀ {t : Tree}, t.Sound → ∀ l ∈ t.leaves, ∀ k ∈ l.1, Path.IsKey k
  | .leaf d, _, l, hl, k, hk => by
    rw [List.mem_singleton.1 hl] at hk
    cases hk
  | .branch items, h, l, hl, k, hk => SoundItems.isKey_of_mem_leaves h l hl k hk
  | .other kind, h, _, _, _, _ => h.elim

theorem SoundItems.isKey_of_mem_leaves : ∀ {items : List (Value × Tree)}, SoundItems items →
    ∀ l ∈ itemLeaves items, ∀ k ∈ l.1, Path.IsKey k
  | [], _, _, hl, _, _ => nomatch hl
  | (key, t) :: items, h, l, hl, k, hk => by
    obtain ⟨⟨k', rfl, hk'⟩, ht, hitems⟩ := h
    rcases List.mem_append.1 hl with hl | hl
    · obtain ⟨l', hl', rfl⟩ := List.mem_map.1 hl
      rcases List.mem_cons.1 hk with rfl | hk
      · exact hk'
      · exact ht.isKey_of_mem_leaves l' hl' k hk
    · exact hitems.isKey_of_mem_leaves l hl k hk

end

theorem exists_key_of_mem_itemLeaves {items : List (Value × Tree)} {l : List String × Domain}
    (hl : l ∈ itemLeaves items) : ∃ e ∈ items, ∃ ks, l.1 = e.1.display :: ks := by
  induction items with
  | nil => cases hl
  | cons e items ih =>
    obtain ⟨key, t⟩ := e
    rcases List.mem_append.1 hl with hl | hl
    · obtain ⟨l', -, rfl⟩ := List.mem_map.1 hl
      exact ⟨(key, t), List.mem_cons_self, l'.1, rfl⟩
    · obtain ⟨e, he, hks⟩ := ih hl
      exact ⟨e, List.mem_cons_of_mem _ he, hks⟩

theorem ne_nil_of_mem_itemLeaves {items : List (Value × Tree)} {l : List String × Domain}
    (hl : l ∈ itemLeaves items) : l.1 ≠ [] := by
  obtain ⟨e, -, ks, hks⟩ := exists_key_of_mem_itemLeaves hl
  rw [hks]
  exact List.cons_ne_nil _ _

theorem SoundItems.exists_key {items : List (Value × Tree)} (h : SoundItems items) :
    ∀ e ∈ items, ∃ k, e.1 = .str k ∧ Path.IsKey k := by
  induction items with
  | nil => simp
  | cons e items ih => exact List.forall_mem_cons.2 ⟨h.1, ih h.2.2⟩

mutual

theorem Sound.leaves_parted : ∀ {t : Tree}, t.Sound → t.Keyed →
    t.leaves.Pairwise fun l l' => Value.Parted l.1 l'.1
  | .leaf _, _, _ => List.pairwise_singleton _ _
  | .branch _, h, hkeyed => SoundItems.leaves_parted h hkeyed.1 hkeyed.2
  | .other _, h, _ => h.elim

theorem SoundItems.leaves_parted : ∀ {items : List (Value × Tree)}, SoundItems items →
    items.Pairwise (fun e f => e.1.same f.1 = false) → KeyedItems items →
    (itemLeaves items).Pairwise fun l l' => Value.Parted l.1 l'.1
  | [], _, _, _ => .nil
  | (key, t) :: items, h, hdistinct, hkeyed => by
    obtain ⟨⟨k, rfl, hk⟩, ht, hitems⟩ := h
    obtain ⟨hfirst, hrest⟩ := List.pairwise_cons.1 hdistinct
    -- two ways part at the latest branch that they share, where they take distinct keys
    refine List.pairwise_append.2 ⟨?_, hitems.leaves_parted hrest hkeyed.2, ?_⟩
    · refine List.pairwise_map.2 ((ht.leaves_parted hkeyed.1).imp fun hparted => ?_)
      exact Value.parted_cons_iff.2 (.inr hparted)
    · intro l hl l' hl'
      obtain ⟨d, -, rfl⟩ := List.mem_map.1 hl
      obtain ⟨e, he, ks, hks⟩ := exists_key_of_mem_itemLeaves hl'
      obtain ⟨k', hk', -⟩ := hitems.exists_key e he
      have hne : k ≠ k' := by
        rintro rfl
        have hsame := hfirst e he
        rw [hk', Value.same_refl] at hsame
        cases hsame
      rw [hks, hk']
      exact Value.parted_cons_iff.2 (.inl hne)

end

theorem SoundItems.segments_parted {items : List (Value × Tree)} (h : SoundItems items)
    (hdistinct : items.Pairwise fun e f => e.1.same f.1 = false) (hkeyed : KeyedItems items)
    (place : String) : ((pathed place (itemLeaves items)).map (·.1)).Pairwise fun p q =>
      Value.Parted (Path.segments p) (Path.segments q) := by
  rw [pathed, List.map_map, List.pairwise_map]
  refine (h.leaves_parted hdistinct hkeyed).imp_of_mem fun {l l'} hl hl' hparted => ?_
  simp only [Function.comp_apply]
  rw [Path.segments_dotted (ne_nil_of_mem_itemLeaves hl) (h.isKey_of_mem_leaves l hl),
    Path.segments_dotted (ne_nil_of_mem_itemLeaves hl') (h.isKey_of_mem_leaves l' hl')]
  simpa [Value.Parted, List.prefix_append_right_inj] using hparted

theorem flatten_entries {t : Tree} (h : t.Keyed) {place : String} {flat : Table Domain}
    (hflat : t.flatten place = .ok flat) : flat.entries = pathed place t.leaves ∧
      flat.keys.Nodup ∧ flat.keys.Pairwise fun p q =>
        Value.Parted (Path.segments p) (Path.segments q) := by
  obtain ⟨⟨items, rfl⟩, hsound⟩ := flatten_eq_ok_iff.1 ⟨flat, hflat⟩
  have hparted := SoundItems.segments_parted hsound h.1 h.2 place
  have hnodup : ((pathed place (itemLeaves items)).map (·.1)).Nodup := by
    refine hparted.imp fun hpq => ?_
    rintro rfl
    exact hpq.1 (List.prefix_refl _)
  have hnone : (underItems place items).findSome? Encounter.flaw? = none :=
    (soundItems_iff place items).1 hsound
  rw [flatten, flattenItems_eq, hnone] at hflat
  cases hflat
  have hentries := Table.entries_ofList hnodup
  rw [Table.keys, hentries]
  exact ⟨rfl, hnodup, hparted⟩

/-- Flattening is exact. It gives a result if and only if the root is a branch, every node is a
domain or a branch and every key can be one. The result has one entry for each leaf, in the order
of the walk and under the keys that lead there; its paths are distinct and none is the beginning
of another one. Otherwise the fault is the first flaw on the walk. -/
theorem flatten_exact (t : Tree) (place : String) :
    ((∃ flat, t.flatten place = .ok flat) ↔ (∃ items, t = .branch items) ∧ t.Sound) ∧
    (∀ flat, t.Keyed → t.flatten place = .ok flat →
      flat.entries = t.leaves.map (fun l => (Path.dotted place l.1, l.2)) ∧ flat.keys.Nodup ∧
        flat.keys.Pairwise fun p q => ¬Path.segments p <+: Path.segments q ∧
          ¬Path.segments q <+: Path.segments p) ∧
    (∀ fault, t.flatten place = .error fault ↔ ∃ flaw,
      (t.walk place).findSome? Encounter.flaw? = some flaw ∧ fault = .invalidDomain flaw) := by
  refine ⟨flatten_eq_ok_iff, fun flat h hflat => flatten_entries h hflat, fun fault => ?_⟩
  rw [flatten_eq]
  cases (t.walk place).findSome? Encounter.flaw? with
  | none => simp [unlessFlawed]
  | some flaw =>
    simp only [unlessFlawed, Except.error.injEq, Option.some.injEq, exists_eq_left']
    exact eq_comm

def shelfTree (d : Domain) : Tree :=
  ofItems [(.str "a", ofItems [(.str "b", .leaf d), (.str "c", .leaf d)]), (.str "e", ofItems []),
    (.str "d", .leaf d)]

theorem shelfTree_keyed (d : Domain) : (shelfTree d).Keyed :=
  ofItems_keyed ⟨ofItems_keyed ⟨trivial, trivial, trivial⟩, ofItems_keyed trivial, trivial, trivial⟩

theorem shelfTree_sound (d : Domain) : (shelfTree d).Sound := by
  have hkey : ∀ k ∈ ["a", "b", "c", "d", "e"], ∃ k', Value.str k = .str k' ∧ Path.IsKey k' :=
    fun k hk => ⟨k, rfl, by revert k; decide⟩
  simp only [List.forall_mem_cons] at hkey
  obtain ⟨ha, hb, hc, hd, he, -⟩ := hkey
  exact ⟨ha, ⟨hb, trivial, hc, trivial, trivial⟩, he, trivial, hd, trivial, trivial⟩

theorem shelfTree_flattened : (shelfTree (.constant .null)).Keyed ∧
    ∃ flat, (shelfTree (.constant .null)).flatten "p" = .ok flat ∧
      flat.entries.map (·.1) = ["p.a.b", "p.a.c", "p.d"] ∧ flat.keys.Nodup := by
  obtain ⟨hiff, hentries, -⟩ := flatten_exact (shelfTree (.constant .null)) "p"
  obtain ⟨flat, hflat⟩ := hiff.2 ⟨⟨_, rfl⟩, shelfTree_sound _⟩
  obtain ⟨heq, hnodup, -⟩ := hentries flat (shelfTree_keyed _) hflat
  refine ⟨shelfTree_keyed _, flat, hflat, ?_, hnodup⟩
  rw [heq]
  rfl

end Tree

end MinConflicts
