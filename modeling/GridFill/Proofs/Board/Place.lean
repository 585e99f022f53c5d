/-
# `GridFill.Proofs.Board.Place` — writing a list of values into a list of cells

`Board.place` is what a search has done to a board when all its frames have
accepted a value.  `Board.FilledWith` says the same without an order of
writing: which cells hold which values, and that nothing else changed.  The two
agree on the empty cells of a board (`filledWith_iff`).
-/
import GridFill.Proofs.Board.Empty

namespace GridFill.Board

/-- Writes values into cells one after the other, as far as both lists go. -/
def place : Board → List Nat → List Int → Board
  | b, i :: cells, v :: vs => place (b.put i (some v)) cells vs
  | b, [], _ => b
  | b, _ :: _, [] => b

/-- `b'` is `b` with the values `vs` in its empty cells, in board order, and
with nothing else changed. -/
structure FilledWith (b : Board) (vs : List Int) (b' : Board) : Prop where
  filled : b.emptyCells.map b'.value = vs.map some
  kept : ∀ i, i ∉ b.emptyCells → b'.value i = b.value i
  frame : b'.frame = b.frame
  regions : b'.regions = b.regions
  listed : b'.listed = b.listed

/-! ## What placing leaves alone

Everything but the values, and the values of all other cells. -/

@[simp] theorem place_frame (b : Board) (cells : List Nat) (vs : List Int) :
    (b.place cells vs).frame = b.frame := by
  fun_induction place b cells vs with
  | case1 b i cells v vs ih => exact ih
  | case2 | case3 => rfl

@[simp] theorem place_regions (b : Board) (cells : List Nat) (vs : List Int) :
    (b.place cells vs).regions = b.regions := by
  fun_induction place b cells vs with
  | case1 b i cells v vs ih => exact ih
  | case2 | case3 => rfl

@[simp] theorem place_listed (b : Board) (cells : List Nat) (vs : List Int) :
    (b.place cells vs).listed = b.listed := by
  fun_induction place b cells vs with
  | case1 b i cells v vs ih => exact ih
  | case2 | case3 => rfl

theorem value_place_of_notMem {b : Board} {cells : List Nat} {vs : List Int} {j : Nat}
    (h : j ∉ cells) : (b.place cells vs).value j = b.value j := by
  fun_induction place b cells vs with
  | case1 b i cells v vs ih =>
      rw [List.mem_cons, not_or] at h
      rw [ih h.2, value_put_of_ne h.1]
  | case2 | case3 => rfl

/-! ## What placing writes

The values stand in the cells in the order of both lists.  On the empty cells of a
board this makes the filled board and the list of values tell each other
(`FilledWith.unique`, `FilledWith.values_unique`). -/

theorem map_value_place {b : Board} {cells : List Nat} {vs : List Int}
    (hnd : cells.Nodup) (hlt : ∀ i ∈ cells, i < b.frame.size)
    (hlen : vs.length = cells.length) :
    cells.map (b.place cells vs).value = vs.map some := by
  induction cells generalizing b vs with
  | nil => simp [List.length_eq_zero_iff.mp hlen]
  | cons i cells ih =>
      match vs, hlen with
      | v :: vs, hlen =>
          obtain ⟨hi, hnd⟩ := List.nodup_cons.mp hnd
          have hhead : (b.place (i :: cells) (v :: vs)).value i = some v := by
            rw [place, value_place_of_notMem hi]
            exact value_put_self (hlt i List.mem_cons_self)
          have htail := ih (b := b.put i (some v)) hnd
            (fun j hj => hlt j (List.mem_cons_of_mem _ hj)) (Nat.succ.inj hlen)
          rw [List.map_cons, List.map_cons, hhead, place, htail]

theorem filledWith_place {b : Board} {vs : List Int} (h : vs.length = b.emptyCells.length) :
    b.FilledWith vs (b.place b.emptyCells vs) where
  filled := map_value_place (nodup_emptyCells b) (fun _ => lt_size_of_mem_emptyCells) h
  kept _ := value_place_of_notMem
  frame := place_frame _ _ _
  regions := place_regions _ _ _
  listed := place_listed _ _ _

namespace FilledWith

variable {b b₁ b₂ : Board} {vs us : List Int}

theorem length_eq (h : b.FilledWith vs b₁) : vs.length = b.emptyCells.length := by
  have := congrArg List.length h.filled
  simpa using this.symm

theorem unique (h₁ : b.FilledWith vs b₁) (h₂ : b.FilledWith vs b₂) : b₁ = b₂ := by
  refine ext_value (h₁.frame.trans h₂.frame.symm) (h₁.regions.trans h₂.regions.symm)
    (h₁.listed.trans h₂.listed.symm) fun i => ?_
  by_cases hi : i ∈ b.emptyCells
  · exact List.map_inj_left.mp (h₁.filled.trans h₂.filled.symm) i hi
  · rw [h₁.kept i hi, h₂.kept i hi]

theorem values_unique (h₁ : b.FilledWith vs b₁) (h₂ : b.FilledWith us b₁) : vs = us :=
  (List.map_inj_right fun _ _ => Option.some.inj).mp (h₁.filled.symm.trans h₂.filled)

theorem mem_values (h : b.FilledWith vs b₁) {v : Int} :
    v ∈ vs ↔ ∃ i ∈ b.emptyCells, b₁.value i = some v := by
  have hmem : v ∈ vs ↔ some v ∈ vs.map some := by simp
  rw [hmem, ← h.filled, List.mem_map]

theorem isComplete (h : b.FilledWith vs b₁) : b₁.isComplete = true := by
  rw [isComplete_iff_emptyCells, List.eq_nil_iff_forall_not_mem]
  intro i hi
  obtain ⟨hlt, hnone⟩ := mem_emptyCells.mp hi
  by_cases hempty : i ∈ b.emptyCells
  · have hsome : b₁.value i ∈ vs.map some := h.filled ▸ List.mem_map_of_mem hempty
    obtain ⟨v, -, hv⟩ := List.mem_map.mp hsome
    rw [hnone] at hv
    cases hv
  · rw [h.kept i hempty] at hnone
    exact hempty (mem_emptyCells.mpr ⟨h.listed ▸ hlt, hnone⟩)

end FilledWith

theorem filledWith_iff {b b' : Board} {vs : List Int} :
    b.FilledWith vs b' ↔ vs.length = b.emptyCells.length ∧ b' = b.place b.emptyCells vs := by
  constructor
  · intro h
    exact ⟨h.length_eq, h.unique (filledWith_place h.length_eq)⟩
  · rintro ⟨hlen, rfl⟩
    exact filledWith_place hlen

/-- A board that has values in all empty cells and is otherwise the same is
filled with some list of values. -/
theorem exists_filledWith {b b' : Board} (hf : b'.frame = b.frame) (hr : b'.regions = b.regions)
    (hl : b'.listed = b.listed) (hk : ∀ i, i ∉ b.emptyCells → b'.value i = b.value i)
    (hv : ∀ i ∈ b.emptyCells, ∃ v, b'.value i = some v) : ∃ vs, b.FilledWith vs b' := by
  refine ⟨b.emptyCells.map fun i => (b'.value i).getD 0, ?_, hk, hf, hr, hl⟩
  rw [List.map_map]
  refine List.map_congr_left fun i hi => ?_
  obtain ⟨v, hv⟩ := hv i hi
  simp [hv]

end GridFill.Board
