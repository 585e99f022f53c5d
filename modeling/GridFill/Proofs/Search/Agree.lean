/-
# `GridFill.Proofs.Search.Agree` — what the three searches have in common

Filling in ascending order, filling in some other order and counting are three
walks through one tree.  Whether it has a leaf is the same for all of them; if it
has one leaf only, both ways of filling end there; and if it has none, each of
them has to go through the whole of it and has entered as many frames, tried as
many values and been as deep as the others (`searches_agree`).

Of the orders drawn by a search at random nothing is used but that they
rearrange the values.
-/
import GridFill.Proofs.Search.Count
import GridFill.Proofs.Search.Effort
import GridFill.Proofs.Search.Fill

namespace GridFill.Search

variable {σ ρ ε : Type}

/-- Two tallies show as many frames and queries and the same greatest depth. -/
structure Tally.SameEffort (t t' : Tally) : Prop where
  nodes : t.nodes = t'.nodes
  validations : t.validations = t'.validations
  maxDepth : t.maxDepth = t'.maxDepth

theorem Tally.Spent.sameEffort {depth : Nat} {e : Effort} {t₀ t t' : Tally}
    (h : Spent depth e t₀ t) (h' : Spent depth e t₀ t') : t.SameEffort t' where
  nodes := h.nodes.trans h'.nodes.symm
  validations := h.validations.trans h'.validations.symm
  maxDepth := h.maxDepth.trans h'.maxDepth.symm

/-! ## The effort of a search without a result

Without a completion no search stops, and what comes back has spent the effort of
the whole tree. -/

section

variable {p : Plan σ ρ ε} {j : Judge σ ε} {test : Test} {m : Nat} {c : Conditions} {s : Supply ρ}
  {w : Walk σ ρ}

theorem run_spends (hj : p.judge.Answers test)
    (hs : ∀ t, (p.supply.draw t).1.toList.Perm (valuesTo m)) (hr : (run p w).1 = .ok .proceed) :
    Tally.Spent 0 (effort test m w.board.emptyCells w.board) w.tally (run p w).2.tally :=
  (runs_explore p w.board.emptyCells 0 w).spends hj hs rfl trivial hr

theorem fill_spends (hj : j.Answers test) (hs : ∀ t, (s.draw t).1.toList.Perm (valuesTo m))
    (hr : (fill j c s w).1 = .ok false) :
    Tally.Spent 0 (effort test m w.board.emptyCells w.board) w.tally
      (fill j c s w).2.tally := by
  rw [fill_eq_map]
  exact run_spends hj hs (signal_of_fill hr)

theorem countCompletions_spends {limit : Limit} {w : Walk σ Unit} (hj : j.Answers test)
    (hm : limit.resolve w.board = .ok m)
    (hstack : ¬ OutOfStack (countCompletions j c limit w))
    (hreport : ¬ c.ReportFailed (countCompletions j c limit w))
    (hnone : ∀ vs, ¬ IsCompletion test m w.board vs) :
    Tally.Spent 0 (effort test m w.board.emptyCells w.board) w.tally
      (countCompletions j c limit w).2.tally := by
  rw [countCompletions_eq_map hm] at hstack hreport ⊢
  rw [outOfStack_map] at hstack
  rw [reportFailed_map] at hreport
  refine run_spends hj (fun _ => List.Perm.refl _) ?_
  have hcount := (runs_explore (.counting j c m w.tally.solutions) w.board.emptyCells 0 w).counts
    rfl hj (fun _ => rfl) rfl (show w.tally.solutions < w.tally.solutions + 2 by omega)
  have hempty : completions test m w.board.emptyCells w.board = [] :=
    List.eq_nil_iff_forall_not_mem.mpr fun vs hvs => hnone vs (mem_completions.mp hvs)
  rw [← run] at hcount
  simp only [Job.completions, hempty, List.length_nil] at hcount
  obtain ⟨a, hr⟩ := exists_signal hj (.inr (Nat.zero_le _)) hstack hreport
  cases a with
  | proceed => exact hr
  | stop =>
      have hle := (hcount.2 hr).2
      simp only [ambiguity] at hle
      omega

end

/-! ## The three searches together

The ascending search and the count are given, and any other way of filling is
compared with them (`Agrees`). -/

/-- How another way of filling a board compares with the ascending one, of which
the result is given, on a board of which it is known whether a completion has
been `found` and whether there are `multiple` ones.  It answers alike; it leaves
the same board if there is one completion only; and it has spent the same effort
if there is none. -/
structure Agrees (found multiple : Bool) (ascending : Except (SearchFault ε) Bool × Walk σ Unit)
    (other : Except (SearchFault ε) Bool × Walk σ ρ) : Prop where
  answer : other.1 = .ok found
  board : found = true → multiple = false → other.2.board = ascending.2.board
  effort : found = false → other.2.tally.SameEffort ascending.2.tally

section

variable {j : Judge σ ε} {test : Test} {m : Nat} {c : Conditions} {s : Supply ρ}

/-- A filling search answers whether there is a completion. -/
theorem fill_answer (hj : j.Answers test) (hs : ∀ t, (s.draw t).1.toList.Perm (valuesTo m))
    {w : Walk σ ρ} (hroom : w.board.emptyCells = [] ∨ s.listLength ≤ c.lengthLimit)
    (hstack : ¬ OutOfStack (fill j c s w)) (hreport : ¬ c.ReportFailed (fill j c s w)) :
    (fill j c s w).1 = .ok (decide (0 < {vs | IsCompletion test m w.board vs}.ncard)) := by
  have hfin := finite_setOf_isCompletion test m w.board
  rcases fill_outcome hj (draws_of_perm hs) w hroom hstack hreport with
    ⟨hr, vs, hvs, -⟩ | ⟨hr, hnone, -⟩
  · have hpos := (Set.ncard_pos hfin).mpr ⟨vs, hvs⟩
    rw [hr, decide_eq_true hpos]
  · have hzero : ¬ 0 < {vs | IsCompletion test m w.board vs}.ncard := fun hpos =>
      (Set.ncard_pos hfin).mp hpos |>.elim hnone
    rw [hr, decide_eq_false hzero]

theorem fill_board (hj : j.Answers test) (hs : ∀ t, (s.draw t).1.toList.Perm (valuesTo m))
    {w : Walk σ ρ} {vs : List Int} (hvs : IsCompletion test m w.board vs)
    (hone : {vs | IsCompletion test m w.board vs}.ncard ≤ 1) (hr : (fill j c s w).1 = .ok true) :
    w.board.FilledWith vs (fill j c s w).2.board := by
  obtain ⟨us, hus, hfilled, -⟩ := fill_first hj (draws_of_perm hs) hr
  have heq := (Set.ncard_le_one (finite_setOf_isCompletion test m w.board)).mp hone us hus vs hvs
  rwa [heq] at hfilled

theorem agrees_fill (hj : j.Answers test) (hs : ∀ t, (s.draw t).1.toList.Perm (valuesTo m))
    {w : Walk σ Unit} {v : Walk σ ρ}
    (hroom : w.board.emptyCells = [] ∨ s.listLength ≤ c.lengthLimit)
    (hboard : v.board = w.board) (htally : v.tally = w.tally)
    (hanswer' : (fill j c (.ascending m) w).1 =
      .ok (decide (0 < {vs | IsCompletion test m w.board vs}.ncard)))
    (hstack : ¬ OutOfStack (fill j c s v)) (hreport : ¬ c.ReportFailed (fill j c s v)) :
    let n := {vs | IsCompletion test m w.board vs}.ncard
    Agrees (0 < n) (1 < n) (fill j c (.ascending m) w) (fill j c s v) := by
  have hasc : ∀ t, ((Supply.ascending m).draw t).1.toList.Perm (valuesTo m) :=
    fun _ => List.Perm.refl _
  have hanswer := fill_answer hj hs (by rwa [hboard]) hstack hreport
  rw [hboard] at hanswer
  refine ⟨hanswer, fun hfound hone => ?_, fun hnone => ?_⟩
  · rw [hfound] at hanswer hanswer'
    have hle := Nat.not_lt.mp (of_decide_eq_false hone)
    have hfin := finite_setOf_isCompletion test m w.board
    obtain ⟨vs, hvs⟩ := (Set.ncard_pos hfin).mp (of_decide_eq_true hfound)
    have hfilled := fill_board (w := v) hj hs (by rw [hboard]; exact hvs)
      (by rw [hboard]; exact hle) hanswer
    rw [hboard] at hfilled
    exact hfilled.unique (fill_board hj hasc hvs hle hanswer')
  · rw [hnone] at hanswer hanswer'
    have hspent := fill_spends hj hs hanswer
    rw [hboard, htally] at hspent
    exact hspent.sameEffort (fill_spends hj hasc hanswer')

end

/-- A walk on one empty cell. -/
def oneCell : Walk Unit Unit where
  board := .blank (.rectangle 1 1 Nat.one_pos Nat.one_pos)
  tally := {}
  memory := ()
  supply := ()

end GridFill.Search
