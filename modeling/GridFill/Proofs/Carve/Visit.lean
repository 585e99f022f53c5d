/-
# `GridFill.Proofs.Carve.Visit` — what carving a board comes to

A carving tests cell after cell: it clears the cell, counts, and either keeps it
clear or puts the value back.  What happens to a cell is decided by the answer of
the count, whatever the judge (`tryCell_answer`).  With a judge that answers by a
test, and as long as the stack suffices, the count is exact, so it depends on the
board alone: the cell stays clear exactly if the board without it is determined,
that is, has one completion and no other (`tryCell_cases`).

`Visits` is the relation this gives between a carving before and after a visit
of some cells, with one rule for each thing that can happen to a cell.  What a
carving preserves is shown by induction on it: a determined board stays
determined (`Visits.determined`), the voids are the cells that were cleared, in
ascending order (`Visits.carved`), and no more of them than the bound allows
(`Visits.length_voids`).

A visit may go through the cells in any order; a carving draws one at random.
What is said of all of `Board.carvings` is said of every order.
-/
import GridFill.Proofs.Carve.Cleared
import GridFill.Proofs.Search.Count

namespace GridFill

open Search

variable {σ ε : Type} {test : Test}

/-! ## Determined boards

A count answers with exactly one completion just when the board is determined, if
nothing cuts it short. -/

/-- The board has exactly one completion with values up to its width. -/
def Board.Determined (test : Test) (b : Board) : Prop :=
  ∃! vs, IsCompletion test b.width b vs

theorem Board.determined_iff_ncard {b : Board} :
    b.Determined test ↔ {vs | IsCompletion test b.width b vs}.ncard = 1 := by
  rw [Set.ncard_eq_one, Set.singleton_iff_unique_mem]
  rfl

theorem Board.determined_of_isComplete {b : Board} (h : b.isComplete = true) :
    b.Determined test := by
  have hempty : b.emptyCells = [] := by
    rw [isComplete, List.all_eq_true] at h
    rw [emptyCells, List.filter_eq_nil_iff]
    exact fun i hi => by simpa using h i hi
  have hnil (vs : List Int) : IsCompletion test b.width b vs ↔ vs = [] := by
    rw [IsCompletion, hempty]
    exact placeable_nil
  exact ⟨[], (hnil []).mpr rfl, fun vs hvs => (hnil vs).mp hvs⟩

theorem resolve_width (b b' : Board) : (Limit.given b.width).resolve b' = .ok b.width :=
  Limit.resolve_given b.frame.width_pos b'

section

variable {j : Judge σ ε} {c : Conditions} {w : Walk σ Unit}

theorem Completions.isUnique_iff {n : Completions} :
    (n.found && !n.multiple) = true ↔ n = ⟨true, false⟩ := by
  rcases n with ⟨found, multiple⟩
  cases found <;> cases multiple <;> decide

/-- Counting finds one completion and no second one exactly on determined boards. -/
theorem countCompletions_determined (hj : j.Answers test)
    (hstack : ¬ OutOfStack (countCompletions j c (.given w.board.width) w))
    (hreport : ¬ c.ReportFailed (countCompletions j c (.given w.board.width) w)) :
    ∃ n : Completions, (countCompletions j c (.given w.board.width) w).1 = .ok n ∧
      (n = ⟨true, false⟩ ↔ w.board.Determined test) := by
  obtain ⟨hr, -⟩ := countCompletions_outcome hj (resolve_width _ _) hstack hreport
  refine ⟨_, hr, ?_⟩
  rw [Board.determined_iff_ncard, ← Completions.isUnique_iff]
  simp only [Bool.and_eq_true, Bool.not_eq_true', decide_eq_true_eq, decide_eq_false_iff_not]
  omega

end

namespace Carving

variable {machine : Machine} {j : Judge σ ε} {maxHoles : Option Int}

/-! ## One cell

The cell is cleared and the completions are counted on a walk of its own (`probe`).
The answer of the count decides, whatever the judge; a judge that applies a test
makes the answer one about the board. -/

/-- The walk on which the completions without a cell are counted. -/
def probe (c : Carving σ) (i : Nat) : Walk σ Unit :=
  { board := c.board.put i none, tally := {}, memory := c.memory, supply := () }

theorem tryCell_eq (machine : Machine) (j : Judge σ ε) (c : Carving σ) (i : Nat) :
    tryCell machine j c i =
      match countCompletions j machine.quiet (.given c.board.width) (c.probe i) with
      | (.error e, w) => (.error e, { c with board := w.board, memory := w.memory })
      | (.ok n, w) =>
        if n.found && !n.multiple then
          (.ok (), { board := w.board, voids := insertAscending i c.voids, memory := w.memory })
        else (.ok (), { c with board := w.board.put i (c.board.value i), memory := w.memory }) :=
  rfl

/-- The answer of the count without a cell. -/
def answer (machine : Machine) (j : Judge σ ε) (c : Carving σ) (i : Nat) :
    Except (SearchFault ε) Completions :=
  (countCompletions j machine.quiet (.given c.board.width) (c.probe i)).1

theorem answer_determined (hj : j.Answers test) (c : Carving σ) (i : Nat)
    (hstack : ∀ k, answer machine j c i ≠ .error (.fault (.depthExceeded k))) :
    ∃ n, answer machine j c i = .ok n ∧
      (n = ⟨true, false⟩ ↔ (c.board.put i none).Determined test) := by
  refine countCompletions_determined hj ?_ (not_reportFailed_of_none rfl _)
  rintro ⟨k, hk⟩
  exact hstack k hk

/-- The answer decides what happens to the cell.  It is left cleared if the count
fails; it stays clear, and becomes a void, if there is exactly one completion; and
otherwise it gets its value back. -/
theorem tryCell_answer (machine : Machine) (j : Judge σ ε) (c : Carving σ) (i : Nat) :
    ∃ memory,
      (∃ e, answer machine j c i = .error e ∧
          tryCell machine j c i = (.error e, ⟨c.board.put i none, c.voids, memory⟩)) ∨
        (answer machine j c i = .ok ⟨true, false⟩ ∧
          tryCell machine j c i =
            (.ok (), ⟨c.board.put i none, insertAscending i c.voids, memory⟩)) ∨
        ∃ n, answer machine j c i = .ok n ∧ n ≠ ⟨true, false⟩ ∧
          tryCell machine j c i = (.ok (), ⟨c.board, c.voids, memory⟩) := by
  have hboard : (countCompletions j machine.quiet (.given c.board.width) (c.probe i)).2.board =
      c.board.put i none := countCompletions_board (resolve_width c.board _)
  rw [answer, tryCell_eq]
  rcases hr : countCompletions j machine.quiet (.given c.board.width) (c.probe i) with ⟨e | n, w⟩
  · rw [hr] at hboard
    exact ⟨w.memory, .inl ⟨e, rfl, by rw [← hboard]⟩⟩
  · rw [hr] at hboard
    have hback : w.board.put i (c.board.value i) = c.board := by
      rw [hboard]
      exact Board.put_none_put_value
    refine ⟨w.memory, .inr ?_⟩
    by_cases hone : n = ⟨true, false⟩
    · subst hone
      exact .inl ⟨rfl, by rw [← hboard]; rfl⟩
    · refine .inr ⟨n, rfl, hone, ?_⟩
      show (if n.found && !n.multiple then _ else _) = _
      rw [if_neg (mt Completions.isUnique_iff.mp hone), hback]

theorem tryCell_of_error {c : Carving σ} {i : Nat} {e : SearchFault ε}
    (h : answer machine j c i = .error e) : (tryCell machine j c i).1 = .error e := by
  obtain ⟨memory, ⟨e', he, hr⟩ | ⟨hn, -⟩ | ⟨n, hn, -⟩⟩ := tryCell_answer machine j c i
  · cases h.symm.trans he
    rw [hr]
  · cases h.symm.trans hn
  · cases h.symm.trans hn

/-- A cell stays clear, and becomes a void, if the board without it is determined;
otherwise the carving is as it was.  The stack then has a frame for every empty
cell of the determined board. -/
theorem tryCell_cases (hj : j.Answers test) (c : Carving σ) (i : Nat)
    (hstack : ∀ k, (tryCell machine j c i).1 ≠ .error (.fault (.depthExceeded k))) :
    ∃ memory,
      ((c.board.put i none).Determined test ∧
          (c.board.put i none).emptyCells.length ≤ machine.depthLimit) ∧
          tryCell machine j c i =
            (.ok (), ⟨c.board.put i none, insertAscending i c.voids, memory⟩) ∨
        ¬ (c.board.put i none).Determined test ∧
          tryCell machine j c i = (.ok (), { c with memory := memory }) := by
  obtain ⟨n, hanswer, hiff⟩ :=
    answer_determined hj c i fun k hk => hstack k (tryCell_of_error hk)
  obtain ⟨memory, ⟨e, he, -⟩ | ⟨hone, hr⟩ | ⟨n', hn', hmany, hr⟩⟩ :=
    tryCell_answer machine j c i
  · cases hanswer.symm.trans he
  · cases hanswer.symm.trans hone
    have hdeep := countCompletions_depth_le (resolve_width c.board _) hanswer rfl
    exact ⟨memory, .inl ⟨⟨hiff.mp rfl, hdeep⟩, hr⟩⟩
  · cases hanswer.symm.trans hn'
    exact ⟨memory, .inr ⟨fun h => hmany (hiff.mpr h), hr⟩⟩

/-! ## A visit

`Visits` has one rule for each thing that can happen to a cell.  Along it the voids
stay the cells that were cleared (`Carved`), as long as the cells still to visit
have a value and are no voids (`Underway`). -/

/-- How a visit goes, cell by cell, until none is left or the bound is reached. -/
inductive Visits (machine : Machine) (test : Test) (maxHoles : Option Int) :
    List Nat → Carving σ → Carving σ → Prop where
  | done {c : Carving σ} : Visits machine test maxHoles [] c c
  | full {i : Nat} {is : List Nat} {c : Carving σ} (hfull : c.isFull maxHoles = true) :
      Visits machine test maxHoles (i :: is) c c
  | kept {i : Nat} {is : List Nat} {c c' : Carving σ} {memory : σ}
      (hfull : c.isFull maxHoles = false) (hone : (c.board.put i none).Determined test)
      (hdeep : (c.board.put i none).emptyCells.length ≤ machine.depthLimit)
      (hrest : Visits machine test maxHoles is
        ⟨c.board.put i none, insertAscending i c.voids, memory⟩ c') :
      Visits machine test maxHoles (i :: is) c c'
  | restored {i : Nat} {is : List Nat} {c c' : Carving σ} {memory : σ}
      (hfull : c.isFull maxHoles = false) (hmany : ¬ (c.board.put i none).Determined test)
      (hrest : Visits machine test maxHoles is { c with memory := memory } c') :
      Visits machine test maxHoles (i :: is) c c'

theorem visit_of_error {i : Nat} {is : List Nat} {c : Carving σ} {e : SearchFault ε}
    (hfull : c.isFull maxHoles = false) (h : (tryCell machine j c i).1 = .error e) :
    (visit machine j maxHoles (i :: is) c).1 = .error e := by
  rw [visit, hfull, if_neg Bool.false_ne_true]
  rcases hr : tryCell machine j c i with ⟨a, c₁⟩
  rw [hr] at h
  subst h
  rfl

/-- A visit that does not run out of stack comes to an end. -/
theorem visits_visit (hj : j.Answers test) (is : List Nat) (c : Carving σ)
    (hstack : ∀ k, (visit machine j maxHoles is c).1 ≠ .error (.fault (.depthExceeded k))) :
    ∃ c', visit machine j maxHoles is c = (.ok (), c') ∧
      Visits machine test maxHoles is c c' := by
  induction is generalizing c with
  | nil => exact ⟨c, rfl, .done⟩
  | cons i is ih =>
      cases hfull : c.isFull maxHoles with
      | true => exact ⟨c, by rw [visit, if_pos hfull], .full hfull⟩
      | false =>
          have hcell (k : Nat) : (tryCell machine j c i).1 ≠ .error (.fault (.depthExceeded k)) :=
            fun hk => hstack k (visit_of_error hfull hk)
          rw [visit, hfull, if_neg Bool.false_ne_true] at hstack ⊢
          obtain ⟨memory, ⟨⟨hone, hdeep⟩, hr⟩ | ⟨hmany, hr⟩⟩ := tryCell_cases hj c i hcell
          · rw [hr] at hstack ⊢
            obtain ⟨c', hc', hrest⟩ := ih _ hstack
            exact ⟨c', hc', .kept hfull hone hdeep hrest⟩
          · rw [hr] at hstack ⊢
            obtain ⟨c', hc', hrest⟩ := ih _ hstack
            exact ⟨c', hc', .restored hfull hmany hrest⟩

/-- What can be said of a carving that began with the board `b`: its voids are
cells of `b` that had a value, in ascending order, and they were cleared. -/
structure Carved (b : Board) (c : Carving σ) : Prop where
  cleared : b.Cleared c.voids c.board
  ascending : c.voids.Pairwise (· < ·)
  filled : ∀ i ∈ c.voids, i ∈ b.filledCells

theorem Carved.keep {b : Board} {c : Carving σ} {i : Nat} {memory : σ} (hc : Carved b c)
    (hi : i ∈ b.filledCells) (hv : i ∉ c.voids) :
    Carved b ⟨c.board.put i none, insertAscending i c.voids, memory⟩ where
  cleared := hc.cleared.put_none i
  ascending := pairwise_insertAscending hc.ascending hv
  filled k hk := by
    rcases mem_insertAscending.mp hk with rfl | hk
    · exact hi
    · exact hc.filled k hk

theorem carved_start (b : Board) (memory : σ) : Carved b ⟨b, [], memory⟩ :=
  ⟨b.cleared_nil, List.Pairwise.nil, List.forall_mem_nil _⟩

/-- A carving that began with the board `b` and has the cells `is` still to visit:
they are cells of `b` that had a value, none comes twice, and none is a void. -/
structure Underway (b : Board) (is : List Nat) (c : Carving σ) : Prop where
  carved : Carved b c
  nodup : is.Nodup
  given : ∀ i ∈ is, i ∈ b.filledCells
  fresh : ∀ i ∈ is, i ∉ c.voids

theorem underway_start {b : Board} {is : List Nat} (his : is.Perm b.filledCells) (memory : σ) :
    Underway b is ⟨b, [], memory⟩ where
  carved := carved_start b memory
  nodup := his.nodup_iff.mpr (List.nodup_range.filter _)
  given _ hi := his.mem_iff.mp hi
  fresh _ _ := List.not_mem_nil

namespace Underway

variable {b : Board} {i : Nat} {is : List Nat} {c : Carving σ} {memory : σ}

theorem head (h : Underway b (i :: is) c) : i ∈ b.filledCells ∧ i ∉ c.voids :=
  ⟨h.given i List.mem_cons_self, h.fresh i List.mem_cons_self⟩

theorem keep (h : Underway b (i :: is) c) :
    Underway b is ⟨c.board.put i none, insertAscending i c.voids, memory⟩ := by
  obtain ⟨hi, hnodup⟩ := List.nodup_cons.mp h.nodup
  refine ⟨h.carved.keep h.head.1 h.head.2, hnodup,
    fun k hk => h.given k (List.mem_cons_of_mem i hk), fun k hk hmem => ?_⟩
  rcases mem_insertAscending.mp hmem with rfl | hmem
  · exact hi hk
  · exact h.fresh k (List.mem_cons_of_mem i hk) hmem

theorem restore (h : Underway b (i :: is) c) : Underway b is { c with memory := memory } where
  carved := ⟨h.carved.cleared, h.carved.ascending, h.carved.filled⟩
  nodup := (List.nodup_cons.mp h.nodup).2
  given k hk := h.given k (List.mem_cons_of_mem i hk)
  fresh k hk := h.fresh k (List.mem_cons_of_mem i hk)

end Underway

namespace Visits

variable {is : List Nat} {c c' : Carving σ} {b : Board}

theorem determined (h : Visits machine test maxHoles is c c') (hc : c.board.Determined test) :
    c'.board.Determined test := by
  induction h with
  | done | full => exact hc
  | kept _ hone _ _ ih => exact ih hone
  | restored _ _ _ ih => exact ih hc

theorem carved (h : Visits machine test maxHoles is c c') (hc : Underway b is c) : Carved b c' := by
  induction h with
  | done | full => exact hc.carved
  | kept _ _ _ _ ih => exact ih hc.keep
  | restored _ _ _ ih => exact ih hc.restore

theorem length_voids (h : Visits machine test maxHoles is c c') {n : Int} (hn : maxHoles = some n)
    (hc : (c.voids.length : Int) ≤ max 0 n) : (c'.voids.length : Int) ≤ max 0 n := by
  induction h with
  | done | full => exact hc
  | kept hfull _ _ _ ih =>
      -- a cell is tested only while the bound is not reached
      refine ih ?_
      simp only [isFull, hn, Option.any_some, decide_eq_false_iff_not] at hfull
      simp only [length_insertAscending]
      omega
  | restored _ _ _ ih => exact ih hc

theorem carved_of_perm {memory : σ} (h : Visits machine test maxHoles is ⟨b, [], memory⟩ c')
    (his : is.Perm b.filledCells) : Carved b c' :=
  h.carved (underway_start his memory)

theorem loosened (h : Visits machine test maxHoles is c c') : c.board.Loosened c'.board := by
  induction h with
  | done | full => exact Board.loosened_refl _
  | @kept i is c _ _ _ _ _ _ ih => exact (Board.loosened_put_none c.board i).trans ih
  | restored _ _ _ ih => exact ih

theorem mem_voids (h : Visits machine test maxHoles is c c') {i : Nat} (hi : i ∈ c.voids) :
    i ∈ c'.voids := by
  induction h with
  | done | full => exact hi
  | kept _ _ _ _ ih => exact ih (mem_insertAscending.mpr (.inr hi))
  | restored _ _ _ ih => exact ih hi

theorem unchanged (h : Visits machine test maxHoles is c c')
    (hno : ∀ i ∈ is, ¬ (c.board.put i none).Determined test) :
    c'.board = c.board ∧ c'.voids = c.voids := by
  induction h with
  | done | full => exact ⟨rfl, rfl⟩
  | kept _ hone _ _ _ => exact absurd hone (hno _ List.mem_cons_self)
  | restored _ _ _ ih => exact ih fun i hi => hno i (List.mem_cons_of_mem _ hi)

/-- Voids are only left on a determined board, and on one that was counted without
running out of stack. -/
theorem voids_determined (h : Visits machine test maxHoles is c c')
    (hc : c.voids ≠ [] →
      c.board.Determined test ∧ c.board.emptyCells.length ≤ machine.depthLimit)
    (hv : c'.voids ≠ []) :
    c'.board.Determined test ∧ c'.board.emptyCells.length ≤ machine.depthLimit := by
  induction h with
  | done | full => exact hc hv
  | kept _ hone hdeep _ ih => exact ih (fun _ => ⟨hone, hdeep⟩) hv
  | restored _ _ _ ih => exact ih hc hv

/-- Without a bound every cell is tested: it becomes a void, or there was a moment at
which the board without it was not determined. -/
theorem tested (h : Visits machine test maxHoles is c c') (hmax : maxHoles = none) {i : Nat}
    (hi : i ∈ is) :
    i ∈ c'.voids ∨ ∃ b, c.board.Loosened b ∧ b.Loosened c'.board ∧
      ¬ (b.put i none).Determined test := by
  induction h with
  | done => exact absurd hi List.not_mem_nil
  | full hfull =>
      subst hmax
      cases hfull
  | @kept k is c _ _ _ _ _ hrest ih =>
      rcases List.mem_cons.mp hi with rfl | hi
      · exact .inl (hrest.mem_voids (mem_insertAscending.mpr (.inl rfl)))
      · exact (ih hi).imp_right fun ⟨b, hb, hrest⟩ =>
          ⟨b, (Board.loosened_put_none c.board k).trans hb, hrest⟩
  | @restored k is c _ _ _ hmany hrest ih =>
      rcases List.mem_cons.mp hi with rfl | hi
      · exact .inr ⟨c.board, Board.loosened_refl _, hrest.loosened, hmany⟩
      · exact ih hi

end Visits

/-! ## When the stack suffices

A count takes no more frames than there are empty cells, so a frame for every cell
of the board suffices for all counts of a visit. -/

theorem tryCell_ne_depthExceeded (hj : j.Answers test) {c : Carving σ} {i : Nat}
    (hcells : (c.board.put i none).emptyCells.length ≤ machine.depthLimit) (k : Nat) :
    (tryCell machine j c i).1 ≠ .error (.fault (.depthExceeded k)) := by
  have hcount : ¬ OutOfStack
      (countCompletions j machine.quiet (.given c.board.width) (c.probe i)) :=
    countCompletions_not_outOfStack hj (resolve_width _ _) hcells
  obtain ⟨n, hanswer, -⟩ := answer_determined hj c i fun k hk => hcount ⟨k, hk⟩
  intro hk
  obtain ⟨memory, ⟨e, he, -⟩ | ⟨-, hr⟩ | ⟨n', -, -, hr⟩⟩ := tryCell_answer machine j c i
  · cases hanswer.symm.trans he
  · rw [hr] at hk
    cases hk
  · rw [hr] at hk
    cases hk

theorem visit_ne_depthExceeded (hj : j.Answers test) (is : List Nat) {c : Carving σ}
    (hd : c.board.listed ≤ machine.depthLimit) (k : Nat) :
    (visit machine j maxHoles is c).1 ≠ .error (.fault (.depthExceeded k)) := by
  induction is generalizing c with
  | nil => rintro ⟨⟩
  | cons i is ih =>
      rw [visit]
      split
      · rintro ⟨⟩
      · have hcells : (c.board.put i none).emptyCells.length ≤ machine.depthLimit :=
          Nat.le_trans (Board.length_emptyCells_le _) hd
        obtain ⟨memory, ⟨-, hr⟩ | ⟨-, hr⟩⟩ :=
          tryCell_cases hj c i (tryCell_ne_depthExceeded hj hcells)
        all_goals
          rw [hr]
          exact ih hd

end Carving

/-! ## Whole carvings

A carving draws the order of its visit.  `carvings` has the outcome of every order,
and so of every draw. -/

namespace Board

/-- All that carving a board can come to: its filled cells are visited in some order. -/
def carvings (b : Board) (j : Judge σ ε) (memory : σ) (maxHoles : Option Int)
    (machine : Machine := {}) : Set (Except (SearchFault ε) Unit × Carving σ) :=
  {r | ∃ is : List Nat, is.Perm b.filledCells ∧
    Carving.visit machine j maxHoles is ⟨b, [], memory⟩ = r}

variable {machine : Machine} {j : Judge σ ε} {maxHoles : Option Int} {b : Board} {memory : σ}
  {t : Twister}

theorem carve_mem_carvings :
    b.carve j memory maxHoles t machine ∈ b.carvings j memory maxHoles machine :=
  ⟨_, Array.perm_iff_toList_perm.mp (t.shuffle_perm _), rfl⟩

section

variable {r : Except (SearchFault ε) Unit × Carving σ} (hj : j.Answers test)
  (hr : r ∈ b.carvings j memory maxHoles machine)

include hj hr

theorem visits_of_mem_carvings
    (hstack : ∀ k, r.1 ≠ .error (.fault (.depthExceeded k))) :
    ∃ is c, is.Perm b.filledCells ∧ r = (.ok (), c) ∧
      Carving.Visits machine test maxHoles is ⟨b, [], memory⟩ c := by
  obtain ⟨is, his, rfl⟩ := hr
  obtain ⟨c, hc, hvisits⟩ := Carving.visits_visit hj is _ hstack
  exact ⟨is, c, his, hc, hvisits⟩

theorem carvings_ne_depthExceeded (hd : b.listed ≤ machine.depthLimit) (k : Nat) :
    r.1 ≠ .error (.fault (.depthExceeded k)) := by
  obtain ⟨is, -, rfl⟩ := hr
  exact Carving.visit_ne_depthExceeded hj is hd k

end

theorem visits_carve (hj : j.Answers test)
    (hstack : ∀ k,
      (b.carve j memory maxHoles t machine).1 ≠ .error (.fault (.depthExceeded k))) :
    ∃ is c, is.Perm b.filledCells ∧ b.carve j memory maxHoles t machine = (.ok (), c) ∧
      Carving.Visits machine test maxHoles is ⟨b, [], memory⟩ c :=
  visits_of_mem_carvings hj carve_mem_carvings hstack

theorem carve_ne_depthExceeded (hj : j.Answers test) (hd : b.listed ≤ machine.depthLimit)
    (k : Nat) : (b.carve j memory maxHoles t machine).1 ≠ .error (.fault (.depthExceeded k)) :=
  carvings_ne_depthExceeded hj carve_mem_carvings hd k

end Board

end GridFill
