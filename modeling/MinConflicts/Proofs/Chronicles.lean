import MinConflicts.Proofs.Accounting
import MinConflicts.Proofs.QuietParts

/-!
# Iterations and their records

A chronicle lists what the iterations of a search did, one after another. What an iteration notes
can be read off that: a restart, a solution, and the progress that is due. An iteration that
records a solution ends there, and so leaves out the progress that is due in it.
-/
namespace MinConflicts

variable {M S : Type}

namespace Log

def searchChannel : String := base ++ ".csp.search"

def onChannel (channel : String) (rs : List Record) : List Record :=
  rs.filter fun r => r.channel == channel

def noteIf (told : Bool) (text : String) : List Record :=
  if told then [⟨.debug, searchChannel, text⟩] else []

theorem atLeast_debug (rs : List Record) : atLeast .debug rs = rs := by
  refine List.filter_eq_self.2 fun r _ => decide_eq_true ?_
  cases r.level <;> decide

theorem onChannel_append (channel : String) (rs rs' : List Record) :
    onChannel channel (rs ++ rs') = onChannel channel rs ++ onChannel channel rs' :=
  List.filter_append _ _

theorem onChannel_eq_self {channel : String} {rs : List Record}
    (h : ∀ r ∈ rs, r.channel = channel) : onChannel channel rs = rs :=
  List.filter_eq_self.2 fun r hr => beq_iff_eq.2 (h r hr)

theorem length_noteIf (told : Bool) (text : String) : (noteIf told text).length = told.toNat := by
  cases told <;> rfl

theorem channel_of_mem_noteIf {told : Bool} {text : String} {r : Record}
    (h : r ∈ noteIf told text) : r.channel = searchChannel := by
  cases told with
  | false => cases h
  | true => rw [List.mem_singleton.1 h]

end Log

/-- What an iteration did: where the search stood at its head, where it stood once a due restart
was made, and where at the head of the next iteration. -/
structure Iteration (M : Type) where
  head : Progress M
  visit : Progress M
  next : Progress M

namespace Iteration

variable (it : Iteration M)

def restarted : Bool := decide (it.head.restarts < it.visit.restarts)

def recorded : Bool := decide (it.visit.solutions.length < it.next.solutions.length)

def progressDue : Bool := decide (it.next.iterations % Solver.progressInterval = 0)

/-- Whether a solution was recorded where progress was due. -/
def unreported : Bool := it.progressDue && it.recorded

def restartRecords : List Log.Record :=
  Log.noteIf it.restarted (Solver.restartText it.head.iterations it.visit.restarts)

def solutionRecords : List Log.Record :=
  Log.noteIf it.recorded
    (Solver.solutionText it.head.iterations it.next.solutions.length it.visit.assignment)

def dueProgress : List Log.Record :=
  Log.noteIf it.progressDue
    (Solver.progressText it.next.iterations it.next.solutions.length)

def progressRecords : List Log.Record :=
  Log.noteIf (it.progressDue && !it.recorded)
    (Solver.progressText it.next.iterations it.next.solutions.length)

def records : List Log.Record := it.restartRecords ++ it.solutionRecords ++ it.progressRecords

def allRecords : List Log.Record := it.restartRecords ++ it.solutionRecords ++ it.dueProgress

variable {it}

theorem channel_of_mem_records {r : Log.Record} (h : r ∈ it.records) :
    r.channel = Log.searchChannel := by
  simp only [records, List.mem_append] at h
  rcases h with (h | h) | h
  all_goals exact Log.channel_of_mem_noteIf h

theorem records_eq_of_not_unreported (h : it.unreported = false) : it.records = it.allRecords := by
  have hdue : (it.progressDue && !it.recorded) = it.progressDue := by
    rw [unreported] at h
    cases hdue : it.progressDue with
    | false => rfl
    | true => simpa [hdue] using h
  rw [records, allRecords, progressRecords, dueProgress, hdue]

theorem length_dueProgress (it : Iteration M) :
    it.dueProgress.length = it.progressRecords.length + it.unreported.toNat := by
  simp only [dueProgress, progressRecords, unreported, Log.length_noteIf]
  cases it.progressDue <;> cases it.recorded <;> rfl

theorem length_records (it : Iteration M) : it.records.length =
    it.restartRecords.length + it.solutionRecords.length + it.progressRecords.length := by
  simp only [records, List.length_append]

theorem length_allRecords (it : Iteration M) :
    it.allRecords.length = it.records.length + it.unreported.toNat := by
  simp only [records, allRecords, List.length_append, length_dueProgress]
  omega

theorem length_flatMap_of_unreported {f g : Iteration M → List Log.Record}
    (h : ∀ it, (g it).length = (f it).length + it.unreported.toNat) (its : List (Iteration M)) :
    (its.flatMap g).length = (its.flatMap f).length + its.countP unreported := by
  induction its with
  | nil => rfl
  | cons it its ih =>
    have hcount : (it :: its).countP unreported = its.countP unreported + it.unreported.toNat := by
      rw [List.countP_cons]
      cases it.unreported <;> rfl
    rw [List.flatMap_cons, List.flatMap_cons, List.length_append, List.length_append, hcount, h it,
      ih]
    omega

theorem length_flatMap_records (its : List (Iteration M)) : (its.flatMap records).length =
    (its.flatMap restartRecords).length + (its.flatMap solutionRecords).length +
      (its.flatMap progressRecords).length := by
  induction its with
  | nil => rfl
  | cons it its ih =>
    simp only [List.flatMap_cons, List.length_append, length_records, ih]
    omega

theorem flatMap_records_eq_iff (its : List (Iteration M)) :
    its.flatMap records = its.flatMap allRecords ↔ ∀ it ∈ its, it.unreported = false := by
  constructor
  · intro h
    have hlength := length_flatMap_of_unreported length_allRecords its
    rw [h, Nat.left_eq_add, List.countP_eq_zero] at hlength
    exact fun it hit => Bool.eq_false_iff.2 (hlength it hit)
  · exact fun h => List.flatMap_congr fun it hit => records_eq_of_not_unreported (h it hit)

end Iteration

namespace Solver

variable {ctx : Context M S} {i : Nat} {p q : Progress M} {j j' : Journal M}

inductive Chronicle (ctx : Context M S) :
    Nat → Progress M → Journal M → List (Iteration M) → Progress M → Journal M → Prop
  | done (i : Nat) (p : Progress M) (j : Journal M) : Chronicle ctx i p j [] p j
  | step {i : Nat} {p q p₁ p' : Progress M} {j j₁ j₂ j' : Journal M} {its : List (Iteration M)}
      (restarted : restart ctx i p j = .ok q j₁) (attempted : attempt ctx i q j₁ = .ok p₁ j₂)
      (rest : Chronicle ctx (i + 1) p₁ j₂ its p' j') :
      Chronicle ctx i p j (⟨p, q, p₁⟩ :: its) p' j'

theorem Course.exists_chronicle {limit : Int} {budget : Nat} {visits : List (Progress M)}
    (h : Course ctx limit budget i p j visits q j') :
    ∃ its, its.map (·.visit) = visits ∧ Chronicle ctx i p j its q j' := by
  induction h with
  | done i p j => exact ⟨[], rfl, .done i p j⟩
  | step _ _ restarted attempted _ ih =>
    obtain ⟨its, hvisits, hrest⟩ := ih
    exact ⟨⟨_, _, _⟩ :: its, congrArg _ hvisits, .step restarted attempted hrest⟩

theorem note_records {level : Log.Level} {text : String} {u : Unit}
    (h : Search.note level text j = .ok u j') :
    j'.records = j.records ++ [⟨level, Log.searchChannel, text⟩] := by
  rw [← Search.note_eq_ok.1 h]
  exact List.reverse_cons

theorem quiet_records {α : Type} {x : Search M α} {a : α} (hx : Search.Quiet x)
    (h : x j = .ok a j') : j'.records = j.records :=
  congrArg List.reverse (hx j a j' h)

theorem logged_records {α : Type} {r : List Log.Record × Except Fault α} {a : α}
    (h : Search.logged r j = .ok a j') : j'.records = j.records ++ r.1 := by
  obtain ⟨rs, result⟩ := r
  obtain ⟨-, rfl⟩ := Search.logged_eq_ok.1 h
  simp [Journal.records]

theorem restart_notes (next : Progress M) (hi : p.iterations = i)
    (h : restart ctx i p j = .ok q j') :
    j'.records = j.records ++ Iteration.restartRecords ⟨p, q, next⟩ := by
  rcases restart_cases h with ⟨-, rfl, rfl⟩ | ⟨-, board, j₁, p₁, hboard, hp₁, rfl, hnote⟩
  · simp [Iteration.restartRecords, Iteration.restarted, Log.noteIf]
  · obtain ⟨a, m, -, -, rfl⟩ := Progress.place_eq_ok.1 hp₁
    rw [note_records hnote, quiet_records (Board.quiet_randomize _ _) hboard]
    simp [Iteration.restartRecords, Iteration.restarted, Log.noteIf, hi]

theorem attempt_notes (head : Progress M) (hi : head.iterations = i)
    (h : attempt ctx i p j = .ok q j') :
    j'.records = j.records ++ (Iteration.solutionRecords ⟨head, p, q⟩ ++
      Iteration.progressRecords ⟨head, p, q⟩) := by
  obtain ⟨_, j₁, hfeasible, ⟨-, -, hrecord⟩ | ⟨-, hadvance⟩⟩ := attempt_cases h
  · obtain ⟨hplace, hnote⟩ := record_eq_ok hrecord
    obtain ⟨a, m, -, -, rfl⟩ := Progress.place_eq_ok.1 hplace
    rw [note_records hnote, quiet_records (Search.Quiet.feasible _ _ _) hfeasible]
    simp [Iteration.solutionRecords, Iteration.progressRecords, Iteration.recorded, Log.noteIf, hi]
  · obtain ⟨move, j₂, hmove, rfl, hlast⟩ := advance_eq_ok hadvance
    have hquiet := (quiet_records (ctx.quiet_nextMove _ _ _ _) hmove).trans
      (quiet_records (Search.Quiet.feasible _ _ _) hfeasible)
    rcases hlast with ⟨hundue, rfl⟩ | ⟨hdue, hnote⟩
    · rw [hquiet]
      simp [Iteration.solutionRecords, Iteration.progressRecords, Iteration.recorded,
        Iteration.progressDue, Log.noteIf, hundue]
    · rw [note_records hnote, hquiet]
      simp [Iteration.solutionRecords, Iteration.progressRecords, Iteration.recorded,
        Iteration.progressDue, Log.noteIf, hdue]

theorem length_restartRecords (next : Progress M) (h : restart ctx i p j = .ok q j') :
    q.restarts = p.restarts + (Iteration.restartRecords ⟨p, q, next⟩).length := by
  rw [restart_restarts h, Iteration.restartRecords, Log.length_noteIf, Iteration.restarted,
    restart_restarts h]
  cases restartDue ctx.settings i <;> simp

theorem length_solutionRecords (head : Progress M) (h : attempt ctx i p j = .ok q j') :
    q.solutions.length = p.solutions.length + (Iteration.solutionRecords ⟨head, p, q⟩).length := by
  rw [Iteration.solutionRecords, Log.length_noteIf, Iteration.recorded, (attempt_records h).1,
    Context.recordVisit]
  split_ifs <;> simp

theorem length_dueProgress (head visit : Progress M) (hq : q.iterations = p.iterations + 1) :
    q.iterations / progressInterval =
      p.iterations / progressInterval + (Iteration.dueProgress ⟨head, visit, q⟩).length := by
  rw [Iteration.dueProgress, Log.length_noteIf, Iteration.progressDue, hq, Nat.succ_div]
  simp only [Nat.dvd_iff_mod_eq_zero]
  split_ifs with hdue <;> simp [hdue]

theorem Chronicle.split {before rest : List (Iteration M)}
    (h : Chronicle ctx i p j (before ++ rest) q j') : ∃ r j₁,
      Chronicle ctx i p j before r j₁ ∧ Chronicle ctx (i + before.length) r j₁ rest q j' := by
  induction before generalizing i p j with
  | nil => exact ⟨p, j, .done i p j, h⟩
  | cons it before ih =>
    cases h with
    | step restarted attempted tail =>
      obtain ⟨r, j₁, hbefore, hrest⟩ := ih tail
      refine ⟨r, j₁, .step restarted attempted hbefore, ?_⟩
      rwa [List.length_cons, Nat.add_comm before.length, ← Nat.add_assoc]

theorem Chronicle.notes {its : List (Iteration M)} (h : Chronicle ctx i p j its q j')
    (hi : p.iterations = i) : j'.records = j.records ++ its.flatMap Iteration.records := by
  induction h with
  | done => exact (List.append_nil _).symm
  | @step i p v q _ _ _ _ _ its restarted attempted _ ih =>
    have hnext := (attempt_records attempted).2
    rw [(restart_keeps restarted).2, hi] at hnext
    rw [ih hnext, attempt_notes p hi attempted, restart_notes q hi restarted, List.flatMap_cons,
      Iteration.records]
    simp only [List.append_assoc]

theorem Chronicle.counts {its : List (Iteration M)} (h : Chronicle ctx i p j its q j') :
    q.iterations = p.iterations + its.length ∧
      q.restarts = p.restarts + (its.flatMap Iteration.restartRecords).length ∧
      q.solutions.length =
        p.solutions.length + (its.flatMap Iteration.solutionRecords).length ∧
      q.iterations / progressInterval =
        p.iterations / progressInterval + (its.flatMap Iteration.dueProgress).length := by
  induction h with
  | done => exact ⟨rfl, rfl, rfl, rfl⟩
  | @step i p v r q _ _ _ _ its restarted attempted _ ih =>
    obtain ⟨hiterations, hrestarts, hsolutions, hprogress⟩ := ih
    obtain ⟨hsame, hhead⟩ := restart_keeps restarted
    have hnext := (attempt_records attempted).2
    have hrestarted := length_restartRecords r restarted
    have hrecorded := length_solutionRecords p attempted
    rw [attempt_restarts attempted] at hrestarts
    rw [hsame] at hrecorded
    rw [hhead] at hnext
    have hdue := length_dueProgress p v hnext
    simp only [List.flatMap_cons, List.length_append, List.length_cons]
    exact ⟨by omega, by omega, by omega, by omega⟩

end Solver

theorem Window.around_stop_le_start (index size : Int) {width : Int} (h : width ≤ 1) :
    (around index size width).stop ≤ (around index size width).start := by
  have hhalf : width.fdiv 2 ≤ 0 := by
    rw [Int.fdiv_eq_ediv_of_nonneg width (by decide)]
    omega
  simp only [around]
  omega

theorem Context.nextMove_eq_none {ctx : Context M S} {board : Board} {known : List (Solution M)}
    {a : Assignment} {model : M} {move : Option (Candidate M)} {j j' : Journal M}
    (hwidth : ctx.width ≤ 1) (h : ctx.nextMove board known a model j = .ok move j') :
    move = none := by
  cases move with
  | none => rfl
  | some c =>
    obtain ⟨key, cs, hcs, hc⟩ := nextMove_mem h
    obtain ⟨cur, -, hstart, hstop⟩ := candidates_in_window hcs hc
    have hempty := Window.around_stop_le_start cur.index cur.size hwidth
    omega

namespace Solver

variable {ctx : Context M S} {i : Nat} {p q : Progress M} {j j' : Journal M}

theorem attempt_waits (hwidth : ctx.width ≤ 1)
    (hrejected : ctx.evaluator.accepts p.model ctx.state = false)
    (h : attempt ctx i p j = .ok q j') : q = { p with iterations := p.iterations + 1 } := by
  obtain ⟨_, j₁, hfeasible, hcases⟩ := attempt_cases h
  rcases hcases with ⟨rfl, -⟩ | ⟨-, hadvance⟩
  · have haccepts := Evaluator.accepts_of_feasible (Search.feasible_eq_ok.1 hfeasible).1
    rw [hrejected] at haccepts
    cases haccepts
  · obtain ⟨move, j₂, hmove, rfl, -⟩ := advance_eq_ok hadvance
    rw [Context.nextMove_eq_none hwidth hmove]
    rfl

theorem Chronicle.waits {its : List (Iteration M)} (h : Chronicle ctx i p j its q j')
    (hwidth : ctx.width ≤ 1) (hrejected : ctx.evaluator.accepts p.model ctx.state = false)
    (hnone : ∀ k, i ≤ k → k < i + its.length → restartDue ctx.settings k = false) :
    q = { p with iterations := p.iterations + its.length } := by
  induction h with
  | done => rfl
  | @step i p v r q _ _ _ _ its restarted attempted _ ih =>
    have hundue : restartDue ctx.settings i = false :=
      hnone i (Nat.le_refl i) (by rw [List.length_cons]; omega)
    -- no restart is due, so the attempt is made from the head itself
    rcases restart_cases restarted with ⟨-, rfl, -⟩ | ⟨hdue, -⟩
    · have hr := attempt_waits hwidth hrejected attempted
      subst hr
      rw [ih hrejected fun k hi hk => hnone k (by omega) (by rw [List.length_cons]; omega),
        List.length_cons, Nat.add_assoc, Nat.add_comm 1]
    · rw [hundue] at hdue
      cases hdue

end Solver

end MinConflicts
