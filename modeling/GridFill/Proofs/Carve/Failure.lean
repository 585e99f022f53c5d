/-
# `GridFill.Proofs.Carve.Failure` — a carving that fails leaves a cell half tested

Here the judge may be any: it may remember, change its mind, and break down at any
query, and the stack may run out.  A visit is seen through its trials, the cells it
tested, each with the answer of the count without it.  The voids are the cells whose
count found exactly one completion (`mem_voids_visit`), whether the visit comes to
an end or not.

If a count fails, it restores the board it was given, and that is the board without
the cell under test.  Nothing puts the value of this cell back.  So a carving that
fails leaves one cell empty more than there are voids: the one whose count failed
(`visit_failed`).
-/
import GridFill.Proofs.Carve.Visit

namespace GridFill

open Search

namespace Carving

variable {σ ε : Type}

/-! ## Trials

A visit tests one cell after the other until one of the counts fails.  What becomes
of a cell is decided by the answer of its count alone, so the voids can be told
from the trials. -/

/-- The cells that a visit tests, in order, each with the answer of the count without
it. -/
def trials (machine : Machine) (j : Judge σ ε) (maxHoles : Option Int) :
    List Nat → Carving σ → List (Nat × Except (SearchFault ε) Completions)
  | [], _ => []
  | i :: is, c =>
    if c.isFull maxHoles then []
    else
      (i, answer machine j c i) ::
        match tryCell machine j c i with
        | (.ok _, c) => trials machine j maxHoles is c
        | (.error _, _) => []

section

variable {machine : Machine} {j : Judge σ ε} {maxHoles : Option Int} {i : Nat} {is : List Nat}
  {c c' : Carving σ}

theorem visit_of_full (hfull : c.isFull maxHoles = true) :
    visit machine j maxHoles is c = (.ok (), c) := by
  cases is with
  | nil => rfl
  | cons i is => rw [visit, if_pos hfull]

theorem trials_of_full (hfull : c.isFull maxHoles = true) :
    trials machine j maxHoles is c = [] := by
  cases is with
  | nil => rfl
  | cons i is => rw [trials, if_pos hfull]

theorem visit_cons (machine : Machine) (j : Judge σ ε) (i : Nat) (is : List Nat)
    (hfull : c.isFull maxHoles = false) : ∃ memory,
    (∃ e, trials machine j maxHoles (i :: is) c = [(i, .error e)] ∧
        visit machine j maxHoles (i :: is) c = (.error e, ⟨c.board.put i none, c.voids, memory⟩)) ∨
      (trials machine j maxHoles (i :: is) c = (i, .ok ⟨true, false⟩) ::
          trials machine j maxHoles is ⟨c.board.put i none, insertAscending i c.voids, memory⟩ ∧
        visit machine j maxHoles (i :: is) c =
          visit machine j maxHoles is ⟨c.board.put i none, insertAscending i c.voids, memory⟩) ∨
      ∃ n, n ≠ ⟨true, false⟩ ∧
        trials machine j maxHoles (i :: is) c =
            (i, .ok n) :: trials machine j maxHoles is ⟨c.board, c.voids, memory⟩ ∧
          visit machine j maxHoles (i :: is) c =
            visit machine j maxHoles is ⟨c.board, c.voids, memory⟩ := by
  have hnot : ¬ c.isFull maxHoles = true := by
    rw [hfull]
    exact Bool.false_ne_true
  rw [visit, trials, if_neg hnot, if_neg hnot]
  obtain ⟨memory, ⟨e, he, hr⟩ | ⟨hone, hr⟩ | ⟨n, hn, hmany, hr⟩⟩ := tryCell_answer machine j c i
  · rw [he, hr]
    exact ⟨memory, .inl ⟨e, rfl, rfl⟩⟩
  · rw [hone, hr]
    exact ⟨memory, .inr (.inl ⟨rfl, rfl⟩)⟩
  · rw [hn, hr]
    exact ⟨memory, .inr (.inr ⟨n, hmany, rfl, rfl⟩)⟩

/-- The voids of a visit are those it began with and the cells whose count found
exactly one completion. -/
theorem mem_voids_visit (machine : Machine) (j : Judge σ ε) (maxHoles : Option Int)
    (is : List Nat) (c : Carving σ) (k : Nat) : k ∈ (visit machine j maxHoles is c).2.voids ↔
      k ∈ c.voids ∨ (k, .ok ⟨true, false⟩) ∈ trials machine j maxHoles is c := by
  induction is generalizing c with
  | nil => simp [visit, trials]
  | cons i is ih =>
      cases hfull : c.isFull maxHoles with
      | true => simp [visit_of_full hfull, trials_of_full hfull]
      | false =>
          obtain ⟨memory, ⟨e, ht, hv⟩ | ⟨ht, hv⟩ | ⟨n, hmany, ht, hv⟩⟩ :=
            visit_cons machine j i is hfull
          · simp [ht, hv]
          · simp [ht, hv, ih, or_left_comm, or_assoc]
          · simp [ht, hv, ih, hmany.symm]

/-! ## Carvings that fail

The count that fails is the last trial.  It gives back the board it was given, on
which the cell under test is clear, and nothing writes the value of this cell
again. -/

/-- A carving of `b` that has failed at cell `i`: the cell is cleared like the voids,
but it is none of them. -/
structure Halted (b : Board) (i : Nat) (c : Carving σ) : Prop where
  given : i ∈ b.filledCells
  notVoid : i ∉ c.voids
  filled : ∀ k ∈ c.voids, k ∈ b.filledCells
  cleared : b.Cleared (insertAscending i c.voids) c.board

theorem halted_of_visit {b : Board} {e : SearchFault ε}
    (h : visit machine j maxHoles is c = (.error e, c')) (hc : Underway b is c) :
    ∃ earlier i, trials machine j maxHoles is c = earlier ++ [(i, .error e)] ∧ Halted b i c' := by
  induction is generalizing c with
  | nil => cases h
  | cons i is ih =>
      cases hfull : c.isFull maxHoles with
      | true =>
          rw [visit_of_full hfull] at h
          cases h
      | false =>
          obtain ⟨memory, ⟨e', ht, hv⟩ | ⟨ht, hv⟩ | ⟨n, -, ht, hv⟩⟩ :=
            visit_cons machine j i is hfull
          · rw [hv] at h
            cases h
            exact ⟨[], i, ht, hc.head.1, hc.head.2, hc.carved.filled,
              hc.carved.cleared.put_none i⟩
          · rw [hv] at h
            obtain ⟨earlier, k, ht', hk⟩ := ih h hc.keep
            exact ⟨_ :: earlier, k, by rw [ht, ht']; rfl, hk⟩
          · rw [hv] at h
            obtain ⟨earlier, k, ht', hk⟩ := ih h hc.restore
            exact ⟨_ :: earlier, k, by rw [ht, ht']; rfl, hk⟩

end

/-- If carving a board fails, whatever the judge, the order of the cells and the
bound, then the count without some cell has failed.  The voids are the cells for
which a count before it found exactly one completion, and all of them had a value.
But the emptied cells are one more: the cell under test had a value, is no void, and
is left empty. -/
theorem visit_failed (machine : Machine) (j : Judge σ ε) (maxHoles : Option Int) (b : Board)
    (memory : σ) (is : List Nat) (his : is.Perm b.filledCells) (e : SearchFault ε) (c : Carving σ)
    (h : visit machine j maxHoles is ⟨b, [], memory⟩ = (.error e, c)) :
    ∃ earlier i, trials machine j maxHoles is ⟨b, [], memory⟩ = earlier ++ [(i, .error e)] ∧
      (∀ k, k ∈ c.voids ↔ (k, .ok ⟨true, false⟩) ∈ earlier) ∧
      (∀ k ∈ c.voids, b.value k ≠ none) ∧
      b.value i ≠ none ∧ c.board.value i = none ∧ i ∉ c.voids ∧
      b.Cleared (insertAscending i c.voids) c.board := by
  obtain ⟨earlier, i, ht, hi⟩ := halted_of_visit h (underway_start his memory)
  have hvalue {k : Nat} (hk : k ∈ b.filledCells) : b.value k ≠ none :=
    (Board.mem_filledCells.mp hk).2
  refine ⟨earlier, i, ht, fun k => ?_, fun k hk => hvalue (hi.filled k hk), hvalue hi.given, ?_,
    hi.notVoid, hi.cleared⟩
  · have hvoids := mem_voids_visit machine j maxHoles is ⟨b, [], memory⟩ k
    rw [h, ht] at hvoids
    simpa using hvoids
  · exact hi.cleared.void i (mem_insertAscending.mpr (.inl rfl))

/-- A row `1 2`. -/
def oneTwo : Board :=
  ((Board.blank (.rectangle 2 1 Nat.two_pos Nat.one_pos)).put 0 (some 1)).put 1 (some 2)

theorem visit_failed_oneTwo :
    let j : Judge (Unit × Nat) Unit := (Judge.ofRules .rowUnique).failingAfter 2 (.raised ())
    let r := visit {} j none [0, 1] ⟨oneTwo, [], ((), 0)⟩
    r.1 = .error (.raised ()) ∧ r.2.voids = [0] ∧
      ∃ i, oneTwo.value i ≠ none ∧ r.2.board.value i = none ∧ i ∉ r.2.voids := by
  intro j r
  obtain ⟨-, i, -, -, -, hgiven, hempty, hnot, -⟩ :=
    visit_failed {} j none oneTwo ((), 0) [0, 1] (by decide) (.raised ()) r.2 rfl
  exact ⟨rfl, rfl, i, hgiven, hempty, hnot⟩

end Carving

end GridFill
