/-
# `GridFill.Proofs.Search.Completion` — the completions of a board

A completion of a board is a list of values for its empty cells, in board
order, that a test of single values accepts one by one: each value is judged on
the board that holds the values before it and in which the cells after it are
still empty.  This is the second side of all that is said about the searches,
and it mentions no search (`Placeable`, `IsCompletion`).

`completions` lists them.  Nothing is listed that is no completion and none is
left out (`mem_completions`), and the list is strictly ascending in the
lexicographic order (`pairwise_completions`), so that none is listed twice and
the first is the least.
-/
import GridFill.Proofs.Board.Place
import GridFill.Search.Plan

namespace GridFill.Search

/-- A test that says whether a value may stand in a cell of a board. -/
abbrev Test := Board → Nat → Int → Bool

/-- The values from `1` to `m`, ascending. -/
def valuesTo (m : Nat) : List Int := (Order.ascending m).toList

theorem mem_valuesTo {m : Nat} {v : Int} : v ∈ valuesTo m ↔ 1 ≤ v ∧ v ≤ m := by
  simp only [valuesTo, Order.toList, Order.ascending, List.mem_map, List.mem_range]
  constructor
  · rintro ⟨k, hk, rfl⟩
    omega
  · intro ⟨h1, h2⟩
    exact ⟨(v - 1).toNat, by omega, by omega⟩

theorem length_valuesTo (m : Nat) : (valuesTo m).length = m := by
  simp [valuesTo, Order.toList, Order.ascending]

theorem pairwise_valuesTo (m : Nat) : (valuesTo m).Pairwise (· < ·) := by
  rw [valuesTo, Order.toList, List.pairwise_map]
  exact List.pairwise_lt_range.imp fun h => by
    simp only [Order.ascending]
    omega

/-- Values from `1` to `m` that a test accepts in the given cells, each on the
board on which the cells before it are filled. -/
def Placeable (test : Test) (m : Nat) : Board → List Nat → List Int → Prop
  | _, [], [] => True
  | b, i :: cells, v :: vs =>
      (1 ≤ v ∧ v ≤ m) ∧ test b i v = true ∧ Placeable test m (b.put i (some v)) cells vs
  | _, [], _ :: _ => False
  | _, _ :: _, [] => False

/-- Values for the empty cells of a board that a test accepts one by one. -/
def IsCompletion (test : Test) (m : Nat) (b : Board) (vs : List Int) : Prop :=
  Placeable test m b b.emptyCells vs

section

variable {test : Test} {m : Nat} {b : Board} {i : Nat} {cells : List Nat} {vs : List Int}

@[simp] theorem placeable_nil : Placeable test m b [] vs ↔ vs = [] := by
  cases vs with
  | nil => exact ⟨fun _ => rfl, fun _ => trivial⟩
  | cons v vs => exact ⟨fun h => h.elim, fun h => by cases h⟩

theorem placeable_cons : Placeable test m b (i :: cells) vs ↔
    ∃ v us, vs = v :: us ∧ v ∈ valuesTo m ∧ test b i v = true ∧
      Placeable test m (b.put i (some v)) cells us := by
  cases vs with
  | nil =>
      constructor
      · intro h
        exact h.elim
      · rintro ⟨_, _, h, _⟩
        cases h
  | cons v vs =>
      constructor
      · intro ⟨hv, ht, hp⟩
        exact ⟨v, vs, rfl, mem_valuesTo.mpr hv, ht, hp⟩
      · rintro ⟨_, _, h, hv, ht, hp⟩
        cases h
        exact ⟨mem_valuesTo.mp hv, ht, hp⟩

theorem Placeable.length_eq (h : Placeable test m b cells vs) : vs.length = cells.length := by
  induction cells generalizing b vs with
  | nil => simp [placeable_nil.mp h]
  | cons i cells ih =>
      obtain ⟨v, us, rfl, -, -, hp⟩ := placeable_cons.mp h
      rw [List.length_cons, List.length_cons, ih hp]

/-! ## The list of completions

The first cell takes the values in ascending order, and each of them is followed by
all that can follow it. -/

/-- The completions that begin with `v` in cell `i`, given what can follow. -/
def branch (test : Test) (b : Board) (i : Nat) (deeper : Board → List (List Int)) (v : Int) :
    List (List Int) :=
  if test b i v then (deeper (b.put i (some v))).map (v :: ·) else []

/-- The values that can be placed in the given cells, in lexicographic order. -/
def completions (test : Test) (m : Nat) : List Nat → Board → List (List Int)
  | [], _ => [[]]
  | i :: cells, b => (valuesTo m).flatMap (branch test b i (completions test m cells))

theorem mem_branch {deeper : Board → List (List Int)} {v : Int} :
    vs ∈ branch test b i deeper v ↔
      test b i v = true ∧ ∃ us ∈ deeper (b.put i (some v)), vs = v :: us := by
  unfold branch
  split
  next ht => simp [ht, eq_comm]
  next ht => simp [ht]

theorem mem_completions : vs ∈ completions test m cells b ↔ Placeable test m b cells vs := by
  induction cells generalizing b vs with
  | nil => simp [completions]
  | cons i cells ih =>
      simp only [completions, List.mem_flatMap, mem_branch, placeable_cons, ih]
      constructor
      · rintro ⟨v, hv, ht, us, hp, rfl⟩
        exact ⟨v, us, rfl, hv, ht, hp⟩
      · rintro ⟨v, us, rfl, hv, ht, hp⟩
        exact ⟨v, hv, ht, us, hp, rfl⟩

theorem pairwise_branch {deeper : Board → List (List Int)} {v : Int}
    (h : (deeper (b.put i (some v))).Pairwise (· < ·)) :
    (branch test b i deeper v).Pairwise (· < ·) := by
  unfold branch
  split
  · rw [List.pairwise_map]
    exact h.imp fun hlt => List.Lex.cons hlt
  · exact List.Pairwise.nil

/-- The completions are listed in strictly ascending lexicographic order. -/
theorem pairwise_completions (test : Test) (m : Nat) (cells : List Nat) (b : Board) :
    (completions test m cells b).Pairwise (· < ·) := by
  induction cells generalizing b with
  | nil => exact List.pairwise_singleton _ _
  | cons i cells ih =>
      rw [completions, List.pairwise_flatMap]
      refine ⟨fun v _ => pairwise_branch (ih _), ?_⟩
      refine (pairwise_valuesTo m).imp fun {u v} huv us hus vs hvs => ?_
      obtain ⟨-, us, -, rfl⟩ := mem_branch.mp hus
      obtain ⟨-, vs, -, rfl⟩ := mem_branch.mp hvs
      exact List.Lex.rel huv

theorem nodup_completions (test : Test) (m : Nat) (cells : List Nat) (b : Board) :
    (completions test m cells b).Nodup :=
  (pairwise_completions test m cells b).imp fun {us vs} h heq => by
    subst heq
    exact List.lt_irrefl us h

end

end GridFill.Search
