/-
# `GridFill.Proofs.Search.Watch` — what a judge sees of a search

A judge is shown the board at every query.  If it writes down what it is shown and
what it answers, the list that it holds in the end tells the search from outside
(`Judge.watched`): no frame, no tally and no order of values is mentioned in it.

Keeping the list does not disturb the search, whatever the judge remembers and
whenever it breaks down (`solve_watched`, `randomSolve_watched`,
`countCompletions_watched`).  The list only grows, by one entry for each query
(`seen_query`, `Runs.seen_extends`).

A search that ends at a complete board shows it in the list: the last query is the
one that completed the board (`Walk.EndsAt`).
-/
import GridFill.Proofs.Board.Place
import GridFill.Proofs.Search.Asked
import GridFill.Proofs.Search.Count
import GridFill.Proofs.Search.Fill

namespace GridFill.Search

variable {σ ρ ε : Type}

/-! ## Sightings

A sighting holds what the judge is shown and what it answers, and nothing of the
search. -/

/-- A query as the judge meets it: the board, the cell and the value it is asked
about, and its answer, unless it breaks down. -/
structure Sighting where
  board : Board
  cell : Nat
  value : Int
  answer : Option Bool

namespace Sighting

/-- The value was let stand. -/
def accepted (s : Sighting) : Bool := s.answer == some true

/-- The board with the value written into the cell. -/
def after (s : Sighting) : Board := s.board.put s.cell (some s.value)

/-- The value was let stand and left no cell empty. -/
def completes (s : Sighting) : Bool := s.accepted && s.after.isComplete

end Sighting

/-- A judge that also lists what it sees and answers, oldest first. -/
def Judge.watched (j : Judge σ ε) : Judge (σ × List Sighting) ε where
  ask b i v s :=
    let r := j.ask b i v s.1
    (r.1, (r.2, s.2 ++ [⟨b, i, v, r.1.toOption⟩]))

namespace Walk

/-- The queries seen so far, oldest first. -/
def seen (w : Walk (σ × List Sighting) ρ) : List Sighting := w.memory.2

/-- The walk with an empty list beside the memory of its judge. -/
def watching (w : Walk σ ρ) : Walk (σ × List Sighting) ρ := w.withMemory (w.memory, [])

@[simp] theorem board_watching (w : Walk σ ρ) : w.watching.board = w.board := rfl

@[simp] theorem seen_watching (w : Walk σ ρ) : w.watching.seen = [] := rfl

@[simp] theorem seen_put (w : Walk (σ × List Sighting) ρ) (i : Nat) (v : Option Int) :
    (w.put i v).seen = w.seen := rfl

end Walk

/-! ## Watching disturbs nothing

The list is a part of the memory that the judge itself never looks at. -/

theorem simulates_watched (j : Judge σ ε) : j.watched.Simulates Prod.fst j :=
  fun _ _ _ _ => rfl

theorem answers_watched {j : Judge σ ε} {test : Test} (hj : j.Answers test) :
    (j.watched : Judge (σ × List Sighting) ε).Answers test :=
  fun b i v s => hj b i v s.1

section

variable (j : Judge σ ε) (c : Conditions) (limit : Limit)

theorem fill_watched (s : Supply ρ) (w : Walk σ ρ) :
    let r := fill j.watched c s w.watching
    fill j c s w = (r.1, r.2.mapMemory Prod.fst) := by
  have hsame : run (.filling j c s) w = _ :=
    run_simulates (p := .filling j.watched c s) (simulates_watched j) w.watching
  simp only [fill_eq_map, hsame]

theorem solve_watched (w : Walk σ Unit) :
    let r := solve j.watched c limit w.watching
    solve j c limit w = (r.1, r.2.mapMemory Prod.fst) := by
  simp only [solve, Walk.board_watching]
  cases limit.resolve w.board with
  | error f => rfl
  | ok m => exact fill_watched j c (.ascending m) w

theorem randomSolve_watched (w : Walk σ Twister) :
    let r := randomSolve j.watched c limit w.watching
    randomSolve j c limit w = (r.1, r.2.mapMemory Prod.fst) := by
  simp only [randomSolve, Walk.board_watching]
  cases limit.resolve w.board with
  | error f => rfl
  | ok m => exact fill_watched j c (.shuffled m) w

theorem countCompletions_watched (w : Walk σ Unit) :
    let r := countCompletions j.watched c limit w.watching
    countCompletions j c limit w = (r.1, r.2.mapMemory Prod.fst) := by
  cases hm : limit.resolve w.board with
  | error f =>
      simp only [countCompletions, Walk.board_watching, hm]
      rfl
  | ok m =>
      have hsame : run (.counting j c m w.tally.solutions) w = _ :=
        run_simulates (p := .counting j.watched c m w.tally.solutions) (simulates_watched j)
          w.watching
      have hm' : limit.resolve w.watching.board = .ok m := hm
      simp only [countCompletions_eq_map hm, countCompletions_eq_map hm', hsame]
      rfl

end

/-! ## The list grows

Only a query adds to it. -/

section

variable {p : Plan (σ × List Sighting) ρ ε} {j : Judge σ ε} {c : Conditions} {job : Job}
  {depth i : Nat} {v : Int} {w w₁ : Walk (σ × List Sighting) ρ}
  {r : Step (σ × List Sighting) ρ ε}

theorem seen_enter {a : Except (SearchFault ε) Unit} (he : enter c depth w = (a, w₁)) :
    w₁.seen = w.seen := by
  rw [Walk.seen, enter_memory he, Walk.seen]

theorem seen_query {a : Except (SearchFault ε) Bool} (hq : query j.watched i v w = (a, w₁)) :
    w₁.seen = w.seen ++ [⟨w.board, i, v, a.toOption⟩] := by
  rw [query_eq, Judge.watched] at hq
  dsimp only at hq
  rcases hask : j.ask w.board i v w.memory.1 with ⟨_ | _, m⟩
  all_goals
    rw [hask] at hq
    cases hq
    rfl

theorem along_seen (hp : p.judge = j.watched) : p.Along fun w w₁ => w.seen <+: w₁.seen where
  refl _ := List.prefix_refl _
  trans := List.IsPrefix.trans
  enter he := by rw [seen_enter he]
  draw _ := List.prefix_refl _
  query hq := by
    rw [hp] at hq
    rw [seen_query hq]
    exact List.prefix_append _ _
  put _ _ _ := List.prefix_refl _
  reached _ := List.prefix_refl _

theorem Runs.seen_extends (h : Runs p job depth w r) (hp : p.judge = j.watched) :
    w.seen <+: r.2.seen :=
  h.along (along_seen hp)

theorem Runs.seen_leaf {cells : List Nat} (h : Runs p (.frame cells) depth w r)
    (hc : cells = []) : r.2.seen = w.seen := by
  subst hc
  cases h with
  | blocked he => exact seen_enter he
  | leaf he =>
      have hseen := seen_enter he
      exact hseen

end

/-! ## The end of a search

A search can end below an accepted value or at a board that was complete from the
start. -/

/-- A walk ends a search for some cells of a board at a complete board, with `vs` in
these cells.  The goal may have it left on the board; and unless there was no cell to
fill, the last query was the one that completed it. -/
structure Walk.EndsAt (g : Goal) (b : Board) (cells : List Nat) (vs : List Int)
    (w : Walk (σ × List Sighting) ρ) : Prop where
  length : vs.length = cells.length
  kept : g.keeps = true → w.board = b.place cells vs
  last : cells ≠ [] → ∃ s, w.seen.getLast? = some s ∧ s.accepted = true ∧
    s.board.value s.cell = none ∧ s.after = b.place cells vs

namespace Walk.EndsAt

variable {p : Plan (σ × List Sighting) ρ ε} {j : Judge σ ε} {g : Goal} {b : Board} {depth i : Nat}
  {v : Int} {cells : List Nat} {vs : List Int} {w w₁ w₂ : Walk (σ × List Sighting) ρ}
  {a : Except (SearchFault ε) Signal}

theorem leaf (g : Goal) (hb : w.board = b) : w.EndsAt g b [] [] where
  length := rfl
  kept _ := hb
  last hne := absurd rfl hne

theorem accepted (h : w₂.EndsAt g (w₁.put i (some v)).board cells vs)
    (hw : w.board.emptyCells = i :: cells) (hq : query j.watched i v w = (.ok true, w₁))
    (hrun : Runs p (.frame cells) (depth + 1) (w₁.put i (some v)) (a, w₂)) :
    w₂.EndsAt g w.board (i :: cells) (v :: vs) := by
  have hb : w₁.board = w.board := query_board hq
  have hplace : (w₁.put i (some v)).board.place cells vs =
      w.board.place (i :: cells) (v :: vs) := by
    rw [Walk.board_put, hb, Board.place]
  refine ⟨congrArg (· + 1) h.length, fun hk => (h.kept hk).trans hplace, fun _ => ?_⟩
  cases cells with
  | nil =>
      -- the query just made is the last one, since the frame below asks nothing
      have hseen : w₂.seen = w₁.seen := hrun.seen_leaf rfl
      have hvs : vs = [] := List.length_eq_zero_iff.mp h.length
      rw [seen_query hq] at hseen
      refine ⟨_, by rw [hseen, List.getLast?_concat], rfl,
        Board.value_of_emptyCells_eq_cons hw, ?_⟩
      subst hvs
      rfl
  | cons k cells =>
      obtain ⟨s, hlast, hacc, hempty, hafter⟩ := h.last (List.cons_ne_nil _ _)
      exact ⟨s, hlast, hacc, hempty, hafter.trans hplace⟩

/-- Only a goal that keeps the board minds that a cell is cleared. -/
theorem cleared (h : w.EndsAt g b cells vs) (hk : g.keeps = false) (i : Nat) :
    (w.put i none).EndsAt g b cells vs where
  length := h.length
  kept hk' := absurd (hk.symm.trans hk') Bool.false_ne_true
  last := h.last

end Walk.EndsAt

end GridFill.Search
