import MinConflicts.Proofs.Coherence

/-!
# Neighbours of an assignment

The candidates for a variable are the neighbours of the current assignment in the window around
its cursor: one for each index of the window, in order, but for those that lead to a known
solution. A neighbour keeps all keys and the values of all other variables. A move takes such a
neighbour, so it moves one cursor, inside its window, and leads to no known solution.
-/
namespace MinConflicts

variable {M S : Type}

namespace Window

theorem pairwise_indices (w : Window) : w.indices.Pairwise (· < ·) := by
  refine List.pairwise_map.2 (List.pairwise_lt_range.imp ?_)
  intro k l hkl
  omega

end Window

namespace Cursor

def seen (c : Cursor) (width : Int) : List (Nat × Slot) :=
  c.between (Window.around c.index c.size width).start.toNat
    (Window.around c.index c.size width).stop.toNat

variable {c : Cursor} {width : Int}

theorem mem_seen {k : Nat} {s : Slot} : (k, s) ∈ c.seen width ↔
    (max 0 (c.index - width.fdiv 2) ≤ k ∧ (k : Int) < min (c.size : Int) (c.index + width.fdiv 2)) ∧
      c.slots[k]? = some s := by
  have hplaces := c.map_between_around width
  constructor
  · intro h
    have hk : (k : Int) ∈ (Window.around c.index c.size width).indices :=
      hplaces ▸ List.mem_map_of_mem h
    exact ⟨Window.mem_indices.1 hk, slots_of_mem_between h⟩
  · intro h
    obtain ⟨hwindow, hs⟩ := h
    have hk := Window.mem_indices.2 hwindow
    rw [← hplaces, List.mem_map] at hk
    obtain ⟨⟨l, t⟩, hmem, hl⟩ := hk
    obtain rfl : l = k := Int.ofNat_inj.1 hl
    have ht := slots_of_mem_between hmem
    cases hs.symm.trans ht
    exact hmem

theorem pairwise_seen (c : Cursor) (width : Int) :
    (c.seen width).Pairwise fun e f => e.1 < f.1 := by
  have hindices := (Window.around c.index c.size width).pairwise_indices
  rw [← c.map_between_around width, List.pairwise_map] at hindices
  exact hindices.imp Int.ofNat_lt.1

end Cursor

/-- The same keys in the same order, and the same values but for one key. -/
def Assignment.AgreesOff (key : String) (a a' : Assignment) : Prop :=
  a'.keys = a.keys ∧ ∀ path, path ≠ key → a'.get? path = a.get? path

theorem Assignment.agreesOff_insert {a : Assignment} {key : String} (h : key ∈ a.keys)
    (v : Value) : AgreesOff key a (a.insert key v) := by
  refine ⟨by rw [Table.keys_insert, if_pos h], ?_⟩
  intro path hpath
  rw [Table.get?_insert, if_neg (Ne.symm hpath)]

theorem isKnown_eq_false_iff {known : List (Solution M)} {a : Assignment} :
    isKnown known a = false ↔ ∀ r ∈ known, r.assignment.same a = false := by
  simp [isKnown]

theorem Coherent.keys_eq {ctx : Context M S} {board : Board} {p : Progress M}
    (hp : Coherent ctx board p) : p.assignment.keys = p.board.keys :=
  (Board.assignment_eq_ok.1 hp.assignment).keys_eq.symm

namespace Context

variable {ctx : Context M S} {board b : Board} {known : List (Solution M)} {a : Assignment}
  {p : Progress M} {key : String} {cur : Cursor} {cs : List (Candidate M)} {c : Candidate M}

theorem candidates_eq_seen (hcur : b.get? key = some cur) :
    ctx.candidates b known a key = ctx.candidatesAt known a key (cur.seen ctx.width) := by
  simp only [candidates, hcur, Cursor.seen]

theorem exists_candidates_iff (hcur : b.get? key = some cur) :
    (∃ cs, ctx.candidates b known a key = .ok cs) ↔ ∀ e ∈ cur.seen ctx.width,
      isKnown known (a.insert key e.2.value) = false →
        ∃ m, ctx.factory (a.insert key e.2.value) = .ok m := by
  rw [candidates_eq_seen hcur]
  exact exists_candidatesAt_iff

theorem pairwise_candidates (hcur : b.get? key = some cur)
    (h : ctx.candidates b known a key = .ok cs) : (cs.map (·.index)).Pairwise (· < ·) := by
  rw [candidates_eq_seen hcur] at h
  have hplaces := (candidatesAt_eq_ok.1 h).1
  have hordered := (cur.pairwise_seen ctx.width).filter
    fun e => !isKnown known (a.insert key e.2.value)
  rw [← hplaces, List.pairwise_map] at hordered
  exact List.pairwise_map.2 hordered

theorem mem_index_candidates (hcur : b.get? key = some cur)
    (h : ctx.candidates b known a key = .ok cs) {k : Nat} : k ∈ cs.map (·.index) ↔
      ∃ s, (k, s) ∈ cur.seen ctx.width ∧ isKnown known (a.insert key s.value) = false := by
  rw [candidates_eq_seen hcur] at h
  have hplaces := (candidatesAt_eq_ok.1 h).1
  have hindex : cs.map (·.index) = (cs.map fun c => (c.index, c.slot)).map Prod.fst := by
    rw [List.map_map]
    rfl
  rw [hindex, hplaces]
  simp [List.mem_map, List.mem_filter]

theorem candidates_slot (hcur : b.get? key = some cur)
    (h : ctx.candidates b known a key = .ok cs) (hc : c ∈ cs) :
    cur.slots[c.index]? = some c.slot ∧ ctx.Makes a key c := by
  rw [candidates_eq_seen hcur] at h
  obtain ⟨hmem, -, hmakes⟩ := candidatesAt_mem h hc
  exact ⟨(Cursor.mem_seen.1 hmem).2, hmakes⟩

/-- At every settled state, reached by whatever search, and for all known solutions: the candidates
for a variable exist when a model is built of each neighbour in its window that is not known. They
are these neighbours in the order of their indices, one for each, and each has the value and the
preference of the slot at its index. A move goes to one of them. -/
theorem candidates_are_neighbours {tree : Tree} {sorted : Bool}
    (hboard : Board.ofTree tree sorted = .ok board) (hp : Settled ctx board p) :
    (∀ known key, key ∈ p.board.keys → ∃ cur, p.board.get? key = some cur ∧
      ((∃ cs, ctx.candidates p.board known p.assignment key = .ok cs) ↔
        ∀ (k : Nat) s, max 0 (cur.index - ctx.width.fdiv 2) ≤ k →
          (k : Int) < min (cur.size : Int) (cur.index + ctx.width.fdiv 2) →
          cur.slots[k]? = some s →
          (∀ r ∈ known, r.assignment.same (p.assignment.insert key s.value) = false) →
          ∃ m, ctx.factory (p.assignment.insert key s.value) = .ok m) ∧
      ∀ cs, ctx.candidates p.board known p.assignment key = .ok cs →
        (cs.map (·.index)).Pairwise (· < ·) ∧
        (∀ k : Nat, k ∈ cs.map (·.index) ↔ max 0 (cur.index - ctx.width.fdiv 2) ≤ k ∧
          (k : Int) < min (cur.size : Int) (cur.index + ctx.width.fdiv 2) ∧
          ∃ s, cur.slots[k]? = some s ∧
            ∀ r ∈ known, r.assignment.same (p.assignment.insert key s.value) = false) ∧
        ∀ c ∈ cs, c.key = key ∧ cur.slots[c.index]? = some c.slot ∧
          p.assignment.AgreesOff key c.assignment ∧
          c.assignment.get? key = some c.slot.value ∧ ctx.factory c.assignment = .ok c.model) ∧
    ∀ known model j c j', ctx.nextMove p.board known p.assignment model j = .ok (some c) j' →
      ∃ cur, p.board.get? c.key = some cur ∧ (c.index : Int) < cur.size ∧
        cur.index - ctx.width.fdiv 2 ≤ c.index ∧ c.index ≤ cur.index + ctx.width.fdiv 2 - 1 ∧
        p.assignment.AgreesOff c.key c.assignment ∧
        (∀ r ∈ known, r.assignment.same c.assignment = false) ∧
        (p.board.move c.key c.index).InRange ∧
        (p.board.move c.key c.index).assignment = .ok c.assignment := by
  have hn : p.board.keys.Nodup := hp.alike.keys_eq ▸ Board.ofTree_keys_nodup hboard
  refine ⟨?_, ?_⟩
  · intro known key hkey
    obtain ⟨cur, hcur⟩ := Table.get?_of_mem_keys hkey
    have hmem : key ∈ p.assignment.keys := hp.keys_eq ▸ hkey
    refine ⟨cur, hcur, ?_, fun cs hcs => ⟨pairwise_candidates hcur hcs, fun k => ?_, fun c hc => ?_⟩⟩
    · simp only [exists_candidates_iff hcur, Prod.forall, Cursor.mem_seen, isKnown_eq_false_iff,
        and_imp]
    · simp only [mem_index_candidates hcur hcs, Cursor.mem_seen, isKnown_eq_false_iff, and_assoc,
        exists_and_left]
    · obtain ⟨hslot, rfl, hassignment, hmodel⟩ := candidates_slot hcur hcs hc
      refine ⟨rfl, hslot, ?_, ?_, hmodel⟩
      · rw [hassignment]
        exact Assignment.agreesOff_insert hmem _
      · rw [hassignment, Table.get?_insert, if_pos rfl]
  · intro known model j c j' h
    obtain ⟨key, cs, hcs, hc⟩ := nextMove_mem h
    obtain ⟨⟨cur, hcur, hslot⟩, hassignment, -, hunknown⟩ := candidates_isMove hcs hc
    obtain ⟨cur', hcur', hstart, hstop⟩ := candidates_in_window hcs hc
    cases hcur.symm.trans hcur'
    have hmem : c.key ∈ p.assignment.keys :=
      hp.keys_eq ▸ List.mem_map_of_mem (Table.mem_entries_of_get? hcur)
    obtain ⟨hlt, -⟩ := List.getElem?_eq_some_iff.1 hslot
    simp only [Window.around] at hstart hstop
    refine ⟨cur, hcur, Int.ofNat_lt.2 hlt, by omega, by omega, ?_,
      isKnown_eq_false_iff.1 hunknown, ?_, ?_⟩
    · rw [hassignment]
      exact Assignment.agreesOff_insert hmem _
    · exact hp.inRange.move hn hcur (Int.natCast_nonneg _) (Int.ofNat_lt.2 hlt)
    · rw [hassignment]
      exact Board.assignment_move hp.assignment hn hcur hslot

end Context

namespace Solver

def mixedContext : Context Value Unit :=
  ⟨mixedSolver.evaluator, (), mixedSolver.settings, fun _ => .ofNat 1, mixedSolver.factory, 6⟩

def mixedStart : Assignment := ⟨[("a", .float (.nan 7)), ("b.c", .int 0)]⟩

theorem exists_mixed_start : ∃ board, Board.ofTree mixedTree true = .ok board ∧
    Settled mixedContext board ⟨board, mixedStart, mixedStart.nested, [], 0, 0⟩ := by
  have hstart : (Board.ofTree mixedTree true >>= Board.assignment) = .ok mixedStart := rfl
  obtain ⟨board, hboard, ha⟩ := Fault.bind_eq_ok.1 hstart
  exact ⟨board, hboard, ⟨⟨Board.alike_refl board, ha, rfl⟩, Board.ofTree_inRange hboard⟩⟩

theorem mixedContext_start_neighbours : ∃ board cs, Board.ofTree mixedTree true = .ok board ∧
    mixedContext.candidates board [⟨mixedStart, mixedStart.nested⟩] mixedStart "a" = .ok cs ∧
    cs.map (·.index) = [1, 2] ∧ ∀ c ∈ cs, mixedStart.AgreesOff "a" c.assignment := by
  have hplaces : (Board.ofTree mixedTree true).toOption.map (fun board =>
      (mixedContext.candidates board [⟨mixedStart, mixedStart.nested⟩] mixedStart "a").toOption.map
        fun cs => cs.map (·.index)) = some (some [1, 2]) := by decide +kernel
  obtain ⟨board, hboard, hp⟩ := exists_mixed_start
  have hkey : "a" ∈ board.keys := hp.keys_eq ▸ List.mem_cons_self
  obtain ⟨hneighbours, -⟩ := Context.candidates_are_neighbours hboard hp
  obtain ⟨cur, -, -, hcandidates⟩ := hneighbours [⟨mixedStart, mixedStart.nested⟩] "a" hkey
  rw [hboard, Except.toOption, Option.map_some, Option.some.injEq] at hplaces
  cases hcs : mixedContext.candidates board [⟨mixedStart, mixedStart.nested⟩] mixedStart "a" with
  | error e =>
    rw [hcs] at hplaces
    cases hplaces
  | ok cs =>
    rw [hcs] at hplaces
    obtain ⟨-, -, hmade⟩ := hcandidates cs hcs
    exact ⟨board, cs, hboard, hcs, Option.some.inj hplaces, fun c hc => (hmade c hc).2.2.1⟩

end Solver

end MinConflicts
