/-
# `GridFill.Proofs.Carve.Cleared` — boards with some cells cleared

Carving only ever clears cells.  What it leaves is described without an order of
clearing: which cells were cleared, and that nothing else changed
(`Board.Cleared`).  A cleared board has fewer givens than the board it came from
and no others.  Often only this matters and not which cells they were
(`Board.Loosened`); in particular givens that were apart stay apart
(`Loosened.apart`).
-/
import GridFill.Carve
import GridFill.Proofs.Rules.Group

namespace GridFill

/-! ## Ascending lists

The voids are kept in ascending order; a cell that is cleared is put in its place
among them. -/

section

variable {i n : Nat} {l : List Nat}

@[simp] theorem mem_insertAscending : i ∈ insertAscending n l ↔ i = n ∨ i ∈ l := by
  fun_induction insertAscending n l with
  | case1 => simp
  | case2 => simp
  | case3 m ms _ ih => simp [ih, or_left_comm]

@[simp] theorem length_insertAscending : (insertAscending n l).length = l.length + 1 := by
  fun_induction insertAscending n l with
  | case1 | case2 => rfl
  | case3 m ms _ ih => simp [ih]

theorem pairwise_insertAscending (h : l.Pairwise (· < ·)) (hn : n ∉ l) :
    (insertAscending n l).Pairwise (· < ·) := by
  fun_induction insertAscending n l with
  | case1 => exact List.pairwise_singleton _ n
  | case2 m ms hlt =>
      refine List.pairwise_cons.mpr ⟨fun k hk => ?_, h⟩
      rcases List.mem_cons.mp hk with rfl | hk
      · exact hlt
      · exact Nat.lt_trans hlt (List.rel_of_pairwise_cons h hk)
  | case3 m ms hle ih =>
      obtain ⟨hne, hn⟩ := not_or.mp (mt List.mem_cons.mpr hn)
      refine List.pairwise_cons.mpr ⟨fun k hk => ?_, ih h.of_cons hn⟩
      rcases mem_insertAscending.mp hk with rfl | hk
      · omega
      · exact List.rel_of_pairwise_cons h hk

end

namespace Board

/-! ## Fewer givens

`Loosened` forgets which cells were cleared.  Taking givens away can be repeated,
and it makes no two of them clash. -/

/-- `b'` has the cells of `b` and no given that `b` has not. -/
structure Loosened (b b' : Board) : Prop where
  frame : b'.frame = b.frame
  regions : b'.regions = b.regions
  listed : b'.listed = b.listed
  given : ∀ i, ∀ v : Int, b'.value i = some v → b.value i = some v

theorem loosened_refl (b : Board) : b.Loosened b :=
  ⟨rfl, rfl, rfl, fun _ _ hv => hv⟩

theorem loosened_put_none (b : Board) (i : Nat) : b.Loosened (b.put i none) := by
  refine ⟨rfl, rfl, rfl, fun k v hv => ?_⟩
  by_cases hk : k = i
  · rw [hk, value_put_none_self] at hv
    cases hv
  · rwa [value_put_of_ne hk] at hv

namespace Loosened

variable {b b₁ b' : Board} {i : Nat}

theorem trans (h : b.Loosened b₁) (h' : b₁.Loosened b') : b.Loosened b' where
  frame := h'.frame.trans h.frame
  regions := h'.regions.trans h.regions
  listed := h'.listed.trans h.listed
  given i v hv := h.given i v (h'.given i v hv)

theorem put_none (h : b.Loosened b') (i : Nat) : (b.put i none).Loosened (b'.put i none) := by
  refine ⟨h.frame, h.regions, h.listed, fun k v hv => ?_⟩
  by_cases hk : k = i
  · rw [hk, value_put_none_self] at hv
    cases hv
  · rw [value_put_of_ne hk] at hv ⊢
    exact h.given k v hv

theorem filled (h : b.Loosened b') (hi : i ∈ b'.filledCells) : i ∈ b.filledCells := by
  obtain ⟨hlt, hv⟩ := mem_filledCells.mp hi
  obtain ⟨v, hv⟩ := Option.ne_none_iff_exists'.mp hv
  rw [mem_filledCells, h.given i v hv, ← h.listed]
  exact ⟨hlt, Option.some_ne_none v⟩

/-- Givens that are apart stay apart when some of them are taken away. -/
theorem apart (h : b.Loosened b') {r : Rules} (hap : r.Apart b.filledCells b) :
    r.Apart b'.filledCells b' := by
  intro i hi j hj hne hp heq
  obtain ⟨v, hv⟩ := Option.ne_none_iff_exists'.mp (mem_filledCells.mp hi).2
  have hvi := h.given i v hv
  have hvj := h.given j v (heq ▸ hv)
  rw [h.frame] at hj
  exact hap i (h.filled hi) j hj hne ((Rules.peers_congr h.frame h.regions).mp hp)
    (hvi.trans hvj.symm)

end Loosened

/-! ## Cleared boards

`Cleared` says which cells were cleared, and that the rest is untouched. -/

/-- `b'` is `b` with the given cells cleared and nothing else changed. -/
structure Cleared (b : Board) (voids : List Nat) (b' : Board) : Prop where
  frame : b'.frame = b.frame
  regions : b'.regions = b.regions
  listed : b'.listed = b.listed
  void : ∀ i ∈ voids, b'.value i = none
  kept : ∀ i, i ∉ voids → b'.value i = b.value i

theorem cleared_nil (b : Board) : b.Cleared [] b :=
  ⟨rfl, rfl, rfl, fun _ hi => absurd hi List.not_mem_nil, fun _ _ => rfl⟩

namespace Cleared

variable {b b' : Board} {voids : List Nat} {i : Nat}

theorem put_none (h : b.Cleared voids b') (i : Nat) :
    b.Cleared (insertAscending i voids) (b'.put i none) := by
  refine ⟨h.frame, h.regions, h.listed, fun j hj => ?_, fun j hj => ?_⟩
  · by_cases hji : j = i
    · rw [hji]
      exact value_put_none_self
    · rw [value_put_of_ne hji]
      exact h.void j ((mem_insertAscending.mp hj).resolve_left hji)
  · obtain ⟨hji, hj⟩ := not_or.mp (mt mem_insertAscending.mpr hj)
    rw [value_put_of_ne hji]
    exact h.kept j hj

theorem loosened (h : b.Cleared voids b') : b.Loosened b' := by
  refine ⟨h.frame, h.regions, h.listed, fun i v hv => ?_⟩
  by_cases hi : i ∈ voids
  · rw [h.void i hi] at hv
    cases hv
  · rwa [h.kept i hi] at hv

end Cleared

end Board

end GridFill
