/-
# `GridFill.Proofs.Rules.Extension` — completions as solutions of a constraint problem

A search compares a value only with what stands on the board when the value is
placed.  Cells filled later are compared with it in their turn, and since being
peers is symmetric no pair is missed: on a full rectangle the completions of a
board under a rule set are the boards that extend it by values from `1` to `m`
in such a way that no cell that was empty has the value of a peer
(`isExtension_iff`).  Of two cells that were given nothing is asked, so a board
whose givens clash may still have extensions.
-/
import GridFill.Proofs.Rules.Peers
import GridFill.Proofs.Search.Count
import GridFill.Proofs.Search.Fill

namespace GridFill.Rules

open Search

/-- None of the given cells has the value of another cell that is its peer. -/
def Apart (r : Rules) (cells : List Nat) (b : Board) : Prop :=
  ∀ i ∈ cells, ∀ j < b.frame.size, j ≠ i → r.Peers b i j → b.value i ≠ b.value j

instance (r : Rules) (cells : List Nat) (b : Board) : Decidable (r.Apart cells b) :=
  inferInstanceAs (Decidable
    (∀ i ∈ cells, ∀ j < b.frame.size, j ≠ i → r.Peers b i j → b.value i ≠ b.value j))

/-- `b'` is `b` with a value from `1` to `m` in every empty cell, each of them
different from the values of all peers of its cell. -/
structure IsExtension (r : Rules) (m : Nat) (b b' : Board) : Prop where
  frame : b'.frame = b.frame
  regions : b'.regions = b.regions
  listed : b'.listed = b.listed
  kept : ∀ i, i ∉ b.emptyCells → b'.value i = b.value i
  filled : ∀ i ∈ b.emptyCells, ∃ v : Int, b'.value i = some v ∧ 1 ≤ v ∧ v ≤ m
  apart : r.Apart b.emptyCells b'

/-! ## One by one and all at once

A value that is placed is compared with those on the board, and later ones are
compared with it.  As being peers is symmetric, accepting the values one by one is
the same as looking at the filled board once (`apart_cons`). -/

section

variable {r : Rules} {m : Nat} {b b' : Board} {cells : List Nat} {vs : List Int} {i : Nat}
  {v : Int}

@[simp] theorem peers_place {j : Nat} :
    r.Peers (b.place cells vs) i j ↔ r.Peers b i j := by
  fun_induction Board.place b cells vs with
  | case1 b k cells u us ih => rw [ih, peers_put]
  | case2 | case3 => rfl

theorem apart_cons (hb : b.Rectangular) (hc : b.emptyCells = i :: cells)
    (hrest : r.Apart cells (b.place (i :: cells) (v :: vs))) :
    r.Apart (i :: cells) (b.place (i :: cells) (v :: vs)) ↔ r.allows b i v = true := by
  have hself : (b.place (i :: cells) (v :: vs)).value i = some v := by
    rw [Board.place, Board.value_place_of_notMem (Board.notMem_of_emptyCells_eq_cons hc)]
    exact Board.value_put_self (Board.lt_size_of_emptyCells_eq_cons hc)
  have hother : ∀ j, j ≠ i → j ∉ cells →
      (b.place (i :: cells) (v :: vs)).value j = b.value j := fun j hne hj =>
    Board.value_place_of_notMem fun h => (List.mem_cons.mp h).elim hne hj
  rw [allows_iff hb]
  constructor
  · intro h j hlt hne hp
    by_cases hj : j ∈ cells
    · have hempty : b.value j = none :=
        (Board.mem_emptyCells.mp (hc ▸ List.mem_cons_of_mem i hj)).2
      simp [hempty]
    · have hdiff := h i List.mem_cons_self j (by simpa using hlt) hne (by simpa using hp)
      rw [hself, hother j hne hj] at hdiff
      exact hdiff.symm
  · intro h k hk
    rcases List.mem_cons.mp hk with rfl | hk
    · intro j hlt hne hp
      by_cases hj : j ∈ cells
      · have hk := Board.lt_size_of_emptyCells_eq_cons hc
        exact (hrest j hj k (by simpa using hk) hne.symm hp.symm).symm
      · rw [hself, hother j hne hj]
        exact (h j (by simpa using hlt) hne (by simpa using hp)).symm
    · exact hrest k hk

/-- Values are accepted one by one exactly when, all placed, none of them clashes. -/
theorem placeable_allows_iff (hb : b.Rectangular) (hc : b.emptyCells = cells) :
    Placeable r.allows m b cells vs ↔
      vs.length = cells.length ∧ (∀ v ∈ vs, 1 ≤ v ∧ v ≤ m) ∧ r.Apart cells (b.place cells vs) := by
  induction cells generalizing b vs with
  | nil =>
      rw [placeable_nil, List.length_nil, List.length_eq_zero_iff]
      constructor
      · rintro rfl
        exact ⟨rfl, List.forall_mem_nil _, List.forall_mem_nil _⟩
      · exact And.left
  | cons i cells ih =>
      cases vs with
      | nil =>
          constructor
          · intro h
            exact h.elim
          · rintro ⟨h, _⟩
            cases h
      | cons v vs =>
          have hrest : Placeable r.allows m (b.put i (some v)) cells vs ↔ _ :=
            ih (hb.put i (some v)) (Board.emptyCells_put hc v)
          constructor
          · intro ⟨hv, ht, hp⟩
            obtain ⟨hlen, hbound, hapart⟩ := hrest.mp hp
            exact ⟨congrArg (· + 1) hlen, List.forall_mem_cons.mpr ⟨hv, hbound⟩,
              (apart_cons hb hc hapart).mpr ht⟩
          · rintro ⟨hlen, hbound, hapart⟩
            obtain ⟨hv, hbound⟩ := List.forall_mem_cons.mp hbound
            have hlater : r.Apart cells (b.place (i :: cells) (v :: vs)) :=
              fun k hk => hapart k (List.mem_cons_of_mem i hk)
            exact ⟨hv, (apart_cons hb hc hlater).mp hapart,
              hrest.mpr ⟨Nat.succ.inj hlen, hbound, hlater⟩⟩

/-- The boards that extend a board are those filled with a completion. -/
theorem isExtension_iff (hb : b.Rectangular) :
    r.IsExtension m b b' ↔ ∃ vs, IsCompletion r.allows m b vs ∧ b.FilledWith vs b' := by
  constructor
  · intro h
    obtain ⟨vs, hvs⟩ := Board.exists_filledWith h.frame h.regions h.listed h.kept
      fun i hi => (h.filled i hi).imp fun v hv => hv.1
    obtain ⟨hlen, rfl⟩ := Board.filledWith_iff.mp hvs
    refine ⟨vs, (placeable_allows_iff hb rfl).mpr ⟨hlen, fun v hv => ?_, h.apart⟩, hvs⟩
    obtain ⟨i, hi, hval⟩ := hvs.mem_values.mp hv
    obtain ⟨u, hu, hbound⟩ := h.filled i hi
    rw [hval, Option.some.injEq] at hu
    rwa [hu]
  · rintro ⟨vs, hcomp, hvs⟩
    obtain ⟨hlen, hbound, hapart⟩ := (placeable_allows_iff hb rfl).mp hcomp
    obtain ⟨-, rfl⟩ := Board.filledWith_iff.mp hvs
    refine ⟨hvs.frame, hvs.regions, hvs.listed, hvs.kept, fun i hi => ?_, hapart⟩
    have hval : (b.place b.emptyCells vs).value i ∈ vs.map some :=
      hvs.filled ▸ List.mem_map_of_mem hi
    obtain ⟨v, hv, hval⟩ := List.mem_map.mp hval
    exact ⟨v, hval.symm, hbound v hv⟩

/-! ## Sets of extensions

Different completions give different boards, so there are as many extensions as
completions. -/

theorem setOf_isExtension (hb : b.Rectangular) :
    {b' | r.IsExtension m b b'} =
      b.place b.emptyCells '' {vs | IsCompletion r.allows m b vs} := by
  ext b'
  rw [Set.mem_ofPred_eq, isExtension_iff hb, Set.mem_image]
  refine exists_congr fun vs => and_congr_right fun hvs => ?_
  rw [Board.filledWith_iff, and_iff_right (Placeable.length_eq hvs)]
  exact eq_comm

theorem place_injOn : Set.InjOn (b.place b.emptyCells) {vs | IsCompletion r.allows m b vs} := by
  intro us hus vs hvs heq
  have hus := Board.filledWith_place (Placeable.length_eq hus)
  have hvs := Board.filledWith_place (Placeable.length_eq hvs)
  rw [heq] at hus
  exact hus.values_unique hvs

theorem finite_setOf_isExtension (hb : b.Rectangular) : {b' | r.IsExtension m b b'}.Finite := by
  rw [setOf_isExtension hb]
  exact (finite_setOf_isCompletion r.allows m b).image _

theorem ncard_setOf_isExtension (hb : b.Rectangular) :
    {b' | r.IsExtension m b b'}.ncard = {vs | IsCompletion r.allows m b vs}.ncard := by
  rw [setOf_isExtension hb, place_injOn.ncard_image]

end

/-! ## Whole searches

What the searches decide about completions they decide about extensions. -/

variable {σ ε : Type}

end GridFill.Rules
