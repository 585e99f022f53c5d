/-
# `GridFill.Proofs.Search.Sighted` — the moments at which a judge is asked

The list of a watching judge says nothing of frames, and `Leads` says nothing of the
list.  They meet here: every query on the list of a run was made at a moment that the
search reaches, with the queries before it on the list (`Runs.sighted`).  So what is
invariant along the moments of a search holds of its queries.

The first use is that a run below some moment stays below it: it is about some of the
cells, and elsewhere the board does not change (`Moment.Within`, `Runs.seen_within`).
-/
import GridFill.Proofs.Search.Reach
import GridFill.Proofs.Search.Watch

namespace GridFill.Search

open Relation

variable {σ ρ ε : Type}

/-! ## The moments of a search

From one moment to the next a job loses cells and never gains any. -/

section

variable {p : Plan σ ρ ε} {x y z : Moment σ ρ}

/-- A later moment is about some of the cells of an earlier one, and outside these the
boards do not differ. -/
structure Moment.Within (x y : Moment σ ρ) : Prop where
  cells : ∀ i ∈ y.job.cells, i ∈ x.job.cells
  outside : ∀ i ∉ x.job.cells, y.walk.board.value i = x.walk.board.value i

theorem Moment.Within.trans (h : x.Within y) (h' : y.Within z) : x.Within z where
  cells i hi := h.cells i (h'.cells i hi)
  outside i hi := (h'.outside i fun hy => hi (h.cells i hy)).trans (h.outside i hi)

theorem Moment.within_of_board (hj : x.job.cells = y.job.cells)
    (hb : y.walk.board = x.walk.board) : x.Within y where
  cells i hi := hj ▸ hi
  outside i _ := by rw [hb]

theorem Leads.emptyCells (h : Leads p x y) (hx : x.walk.board.emptyCells = x.job.cells) :
    y.walk.board.emptyCells = y.job.cells := by
  cases h with
  | opened he =>
      have hb := enter_board he
      exact (congrArg Board.emptyCells hb).trans hx
  | refused hq =>
      have hb := query_board hq
      exact (congrArg Board.emptyCells hb).trans hx
  | accepted hq => exact emptyCells_put_some hx (query_board hq)
  | undone hq hrun => exact (congrArg Board.emptyCells (hrun.board_back hx hq)).trans hx

theorem Leads.within (h : Leads p x y) (hx : x.walk.board.emptyCells = x.job.cells) :
    x.Within y := by
  cases h with
  | opened he =>
      have hb := enter_board he
      exact Moment.within_of_board rfl hb
  | refused hq => exact Moment.within_of_board rfl (query_board hq)
  | @accepted i cells v us depth w w₁ hq =>
      have hb := query_board hq
      refine ⟨fun k hk => List.mem_cons_of_mem _ hk, fun k hk => ?_⟩
      show (w₁.board.put i (some v)).value k = w.board.value k
      have hne : k ≠ i := by
        rintro rfl
        exact hk List.mem_cons_self
      rw [hb, Board.value_put_of_ne hne]
  | undone hq hrun => exact Moment.within_of_board rfl (hrun.board_back hx hq)

theorem reaches_within (h : ReflTransGen (Leads p) x y)
    (hx : x.walk.board.emptyCells = x.job.cells) :
    y.walk.board.emptyCells = y.job.cells ∧ x.Within y := by
  induction h with
  | refl => exact ⟨hx, Moment.within_of_board rfl rfl⟩
  | tail _ hstep ih => exact ⟨hstep.emptyCells ih.1, ih.2.trans (hstep.within ih.1)⟩

end

/-! ## Where queries are made

A query is on the list because a moment was reached at which it was made. -/

/-- At this moment, after the queries `before`, the judge is asked what `s` shows. -/
structure Moment.Asks (before : List Sighting) (s : Sighting)
    (x : Moment (σ × List Sighting) ρ) : Prop where
  job : ∃ cells us, x.job = .values s.cell cells (s.value :: us)
  seen : x.walk.seen = before
  board : s.board = x.walk.board

section

variable {p : Plan (σ × List Sighting) ρ ε} {j : Judge σ ε} {job : Job} {depth i : Nat} {v : Int}
  {cells : List Nat} {us : List Int} {w w₁ : Walk (σ × List Sighting) ρ}
  {r : Step (σ × List Sighting) ρ ε} {before : List Sighting} {s : Sighting}

theorem asks_of_query {a : Except (SearchFault ε) Bool} (hq : query j.watched i v w = (a, w₁))
    (hs : before ++ [s] <+: w₁.seen) (hnew : ¬ before ++ [s] <+: w.seen) :
    Moment.Asks before s ⟨.values i cells (v :: us), depth, w⟩ := by
  rw [seen_query hq] at hs
  rcases List.prefix_concat_iff.mp hs with heq | hold
  · obtain ⟨hbefore, hlast⟩ := List.append_inj' heq rfl
    cases List.singleton_inj.mp hlast
    exact ⟨⟨cells, us, rfl⟩, hbefore.symm, rfl⟩
  · exact absurd hold hnew

/-- Every query of a run is made at a moment that the search reaches. -/
theorem Runs.sighted (h : Runs p job depth w r) (hp : p.judge = j.watched)
    (hs : before ++ [s] <+: r.2.seen) (hnew : ¬ before ++ [s] <+: w.seen) :
    ∃ x, ReflTransGen (Leads p) ⟨job, depth, w⟩ x ∧ x.Asks before s := by
  induction h with
  | blocked he | leaf he | undrawn he =>
      have hseen := seen_enter he
      exact absurd (hseen ▸ hs) hnew
  | opened he hroom _ ih =>
      have hseen := seen_enter he
      obtain ⟨x, hx, hasks⟩ := ih hs (hseen ▸ hnew)
      exact ⟨x, hx.head (.opened he hroom), hasks⟩
  | spent => exact absurd hs hnew
  | broken hq =>
      rw [hp] at hq
      exact ⟨_, .refl, asks_of_query hq hs hnew⟩
  | @refused _ _ _ _ _ _ w₁ _ hq _ ih =>
      by_cases hnow : before ++ [s] <+: w₁.seen
      · rw [hp] at hq
        exact ⟨_, .refl, asks_of_query hq hnow hnew⟩
      · obtain ⟨x, hx, hasks⟩ := ih hs hnow
        exact ⟨x, hx.head (.refused hq), hasks⟩
  | @failed _ _ _ _ _ _ w₁ _ _ hq _ ih | @kept _ _ _ _ _ _ w₁ _ hq _ _ ih
  | @cleared _ _ _ _ _ _ w₁ _ hq _ _ ih =>
      by_cases hnow : before ++ [s] <+: w₁.seen
      · rw [hp] at hq
        exact ⟨_, .refl, asks_of_query hq hnow hnew⟩
      · obtain ⟨x, hx, hasks⟩ := ih hs hnow
        exact ⟨x, hx.head (.accepted hq), hasks⟩
  | @undone _ _ _ _ _ _ w₁ w₂ _ hq hrun _ ih ih' =>
      by_cases hnow : before ++ [s] <+: w₁.seen
      · rw [hp] at hq
        exact ⟨_, .refl, asks_of_query hq hnow hnew⟩
      · by_cases hbelow : before ++ [s] <+: w₂.seen
        · obtain ⟨x, hx, hasks⟩ := ih hbelow hnow
          exact ⟨x, hx.head (.accepted hq), hasks⟩
        · obtain ⟨x, hx, hasks⟩ := ih' hs hbelow
          exact ⟨x, hx.head (.undone hq hrun), hasks⟩

theorem Runs.seen_within (h : Runs p job depth w r) (hp : p.judge = j.watched)
    (hw : w.board.emptyCells = job.cells) :
    ∃ new, r.2.seen = w.seen ++ new ∧ ∀ q ∈ new, q.cell ∈ job.cells ∧
      ∀ k ∉ job.cells, q.board.value k = w.board.value k := by
  obtain ⟨new, hnew⟩ := h.seen_extends hp
  refine ⟨new, hnew.symm, fun q hq => ?_⟩
  obtain ⟨earlier, later, rfl⟩ := List.append_of_mem hq
  have hlonger : ¬ (w.seen ++ earlier) ++ [q] <+: w.seen := fun hle => by
    have hlen := hle.length_le
    simp at hlen
  have hlog : (w.seen ++ earlier) ++ [q] <+: r.2.seen := ⟨later, by rw [← hnew]; simp⟩
  obtain ⟨x, hreach, hasks⟩ := h.sighted hp hlog hlonger
  obtain ⟨-, hcells, houtside⟩ := reaches_within hreach hw
  obtain ⟨cells, us, hjob⟩ := hasks.job
  refine ⟨hcells _ (by rw [hjob]; exact List.mem_cons_self), fun k hk => ?_⟩
  rw [hasks.board]
  exact houtside k hk

end

end GridFill.Search
