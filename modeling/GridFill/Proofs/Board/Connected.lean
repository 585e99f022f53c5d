/-
# `GridFill.Proofs.Board.Connected` — what it means that a board hangs together

The check for it walks from cell to cell with a stack, on which a cell may stand
several times, and in the end compares two numbers.  What it decides mentions
neither: from the first cell one can come to every other one by single steps up,
right, down and left, each to the cell that is found there (`Frame.StepsTo`).
Where several cells share their coordinates only the last of them is found; the
others cannot be stepped to, but the walk may begin at one.

Two things are kept while the stack is worked off.  No cell is struck off that
cannot be reached from the stack (`exists_reachable`).  And no cell struck off
leads to an unseen one that is not on the stack (`Frame.Explored`), so that in the
end, when the stack is empty, the cells struck off lead to one another only.
-/
import Mathlib.Data.List.Nodup
import Mathlib.Logic.Relation
import GridFill.Board.Basic
import GridFill.Proofs.Board.Rows

namespace GridFill

open Relation

namespace Frame

/-! ## Steps

A step leads to the cell that is found at the coordinates beside those of a cell.
Of the cells that share their coordinates only the last one is found, so only that
one is stepped to. -/

/-- The last of the cells that have the coordinates `s`. -/
structure IsLastAt (f : Frame) (s : Site) (i : Nat) : Prop where
  lt : i < f.size
  site : f.site i = s
  last : ∀ j < f.size, f.site j = s → j ≤ i

/-- One step up, right, down or left from cell `i`, cell `j` is found. -/
def StepsTo (f : Frame) (i j : Nat) : Prop :=
  ∃ d ∈ Site.steps, f.IsLastAt ⟨(f.site i).x + d.1, (f.site i).y + d.2⟩ j

variable {f : Frame} {i j : Nat} {unseen stack : List Nat}

theorem cellAt?_eq_some_iff {x y : Int} : f.cellAt? x y = some i ↔ f.IsLastAt ⟨x, y⟩ i := by
  rw [cellAt?_eq_lastBelow, lastBelow_eq_some_iff]
  constructor
  · rintro ⟨hi, hsite, hlast⟩
    exact ⟨hi, of_decide_eq_true hsite, fun j hj hp => hlast j hj (decide_eq_true hp)⟩
  · rintro ⟨hi, hsite, hlast⟩
    exact ⟨hi, decide_eq_true hsite, fun j hj hp => hlast j hj (of_decide_eq_true hp)⟩

theorem mem_neighbors : j ∈ f.neighbors i ↔ f.StepsTo i j := by
  simp only [neighbors, List.mem_filterMap, cellAt?_eq_some_iff, StepsTo]

theorem StepsTo.lt (h : f.StepsTo i j) : j < f.size := by
  obtain ⟨_, -, hj⟩ := h
  exact hj.lt

theorem StepsTo.last (h : f.StepsTo i j) {k : Nat} (hk : k < f.size)
    (hsite : f.site k = f.site j) : k ≤ j := by
  obtain ⟨_, -, hj⟩ := h
  exact hj.last k hk (hsite.trans hj.site)

theorem lt_of_reachable (hi : i < f.size) (h : ReflTransGen f.StepsTo i j) : j < f.size := by
  cases h with
  | refl => exact hi
  | tail _ hstep => exact hstep.lt

theorem sites_of_ofSites {width height : Int} {sites : Array Site} {f : Frame}
    (h : ofSites width height sites = .ok f) : f.sites = sites := by
  unfold ofSites at h
  split at h
  case isFalse => cases h
  case isTrue =>
    split at h
    case isFalse => cases h
    case isTrue =>
      cases h
      rfl

/-! ## The walk

What the walk strikes off is what stands on its stack and what can be reached from
there (`exists_reachable`).  While it goes on, every unseen cell that a seen one
leads to is on the stack (`Explored`), so that at its end nothing is left to be
reached. -/

theorem spread_sublist (f : Frame) (unseen stack : List Nat) :
    (f.spread unseen stack).Sublist unseen := by
  fun_induction f.spread unseen stack with
  | case1 unseen => exact List.Sublist.refl unseen
  | case2 unseen i rest hi ih => exact ih.trans List.erase_sublist
  | case3 unseen i rest hi ih => exact ih

theorem notMem_spread_of_mem (hnd : unseen.Nodup) (hi : i ∈ stack) :
    i ∉ f.spread unseen stack := by
  fun_induction f.spread unseen stack with
  | case1 unseen => exact absurd hi List.not_mem_nil
  | case2 unseen k rest hk ih =>
      rcases List.mem_cons.mp hi with rfl | hi
      · intro h
        exact hnd.not_mem_erase ((spread_sublist f _ _).subset h)
      · exact ih (hnd.erase k) (List.mem_append_right _ hi)
  | case3 unseen k rest hk ih =>
      rcases List.mem_cons.mp hi with rfl | hi
      · intro h
        exact hk ((spread_sublist f _ _).subset h)
      · exact ih hnd hi

theorem exists_reachable (hi : i ∈ unseen) (hout : i ∉ f.spread unseen stack) :
    ∃ k ∈ stack, ReflTransGen f.StepsTo k i := by
  fun_induction f.spread unseen stack with
  | case1 unseen => exact absurd hi hout
  | case2 unseen k rest hk ih =>
      by_cases hik : i = k
      · exact ⟨k, List.mem_cons_self, hik ▸ .refl⟩
      · obtain ⟨j, hj, hreach⟩ := ih ((List.mem_erase_of_ne hik).mpr hi) hout
        rcases List.mem_append.mp hj with hj | hj
        · exact ⟨k, List.mem_cons_self, hreach.head (mem_neighbors.mp hj)⟩
        · exact ⟨j, List.mem_cons_of_mem k hj, hreach⟩
  | case3 unseen k rest hk ih =>
      obtain ⟨j, hj, hreach⟩ := ih hi hout
      exact ⟨j, List.mem_cons_of_mem k hj, hreach⟩

/-- Whatever unseen cell one can step to from a cell that was seen is on the stack. -/
def Explored (f : Frame) (unseen stack : List Nat) : Prop :=
  ∀ i < f.size, i ∉ unseen → ∀ j, f.StepsTo i j → j ∈ unseen → j ∈ stack

theorem Explored.strike (h : f.Explored unseen (i :: stack)) (hnd : unseen.Nodup) :
    f.Explored (unseen.erase i) (f.neighbors i ++ stack) := by
  intro k hk hout j hstep hj
  obtain ⟨hne, hj⟩ := hnd.mem_erase_iff.mp hj
  by_cases hki : k = i
  · subst hki
    exact List.mem_append_left _ (mem_neighbors.mpr hstep)
  · have hseen : k ∉ unseen := fun hmem => hout ((List.mem_erase_of_ne hki).mpr hmem)
    have hstack := h k hk hseen j hstep hj
    exact List.mem_append_right _ ((List.mem_cons.mp hstack).resolve_left hne)

theorem Explored.drop (h : f.Explored unseen (i :: stack)) (hi : i ∉ unseen) :
    f.Explored unseen stack := by
  intro k hk hout j hstep hj
  have hne : j ≠ i := fun hji => hi (hji ▸ hj)
  exact (List.mem_cons.mp (h k hk hout j hstep hj)).resolve_left hne

theorem Explored.spread (h : f.Explored unseen stack) (hnd : unseen.Nodup) :
    f.Explored (f.spread unseen stack) [] := by
  fun_induction f.spread unseen stack with
  | case1 unseen => exact h
  | case2 unseen i rest hi ih => exact ih (h.strike hnd) (hnd.erase i)
  | case3 unseen i rest hi ih => exact ih (h.drop hi) hnd

/-- The walk from a cell leaves exactly the cells that cannot be reached from it. -/
theorem mem_spread_iff (hi : i < f.size) :
    j ∈ f.spread (List.range f.size) [i] ↔ j < f.size ∧ ¬ ReflTransGen f.StepsTo i j := by
  have hnd : (List.range f.size).Nodup := List.nodup_range
  constructor
  · intro hj
    refine ⟨List.mem_range.mp ((spread_sublist f _ _).subset hj), fun hreach => ?_⟩
    have hstart : f.Explored (List.range f.size) [i] :=
      fun k hk hout => absurd (List.mem_range.mpr hk) hout
    have hclosed := hstart.spread hnd
    induction hreach with
    | refl => exact notMem_spread_of_mem hnd List.mem_cons_self hj
    | tail hreach hstep ih =>
        exact absurd (hclosed _ (lt_of_reachable hi hreach) ih _ hstep hj) List.not_mem_nil
  · rintro ⟨hj, hnot⟩
    by_contra hout
    obtain ⟨k, hk, hreach⟩ := exists_reachable (List.mem_range.mpr hj) hout
    obtain rfl := List.mem_singleton.mp hk
    exact hnot hreach

end Frame

namespace Board

variable {b : Board}

theorem size_pos (b : Board) : 0 < b.frame.size := by
  rw [Frame.size, b.frame.sites_size]
  exact Nat.mul_pos b.frame.width_pos b.frame.height_pos

/-- If a board lists all its cells, being connected is that all of them can be reached
from the first one. -/
theorem isConnected_iff (hl : b.listed = b.frame.size) :
    b.isConnected = true ↔ ∀ i ∈ b.cells, ReflTransGen b.frame.StepsTo 0 i := by
  obtain ⟨n, hn⟩ := Nat.exists_eq_add_one.mpr b.size_pos
  have hcount : b.isConnected = true ↔ b.frame.spread (List.range b.frame.size) [0] = [] := by
    rw [isConnected, hl, hn, decide_eq_true_iff, ← List.length_eq_zero_iff]
    omega
  rw [hcount, List.eq_nil_iff_forall_not_mem]
  refine forall_congr' fun i => ?_
  rw [Frame.mem_spread_iff b.size_pos, cells, hl, List.mem_range, not_and, not_not]

/-! ## Full rectangles

In a full rectangle one comes to every cell by going down the first column and then
to the right. -/

namespace Rectangular

variable (hb : b.Rectangular)

include hb

theorem site_of_lt {x y : Nat} (hx : x < b.width) (hy : y < b.height) :
    b.frame.site (y * b.width + x) = ⟨x, y⟩ :=
  (hb.cellAt?_eq_some.mp (hb.cellAt?_of_lt hx hy)).2

theorem stepsTo {x y u v : Nat} (hx : x < b.width) (hy : y < b.height) (hu : u < b.width)
    (hv : v < b.height) {d : Int × Int} (hd : d ∈ Site.steps) (hxu : x + d.1 = u)
    (hyv : y + d.2 = v) : b.frame.StepsTo (y * b.width + x) (v * b.width + u) := by
  refine ⟨d, hd, ?_⟩
  rw [hb.site_of_lt hx hy, hxu, hyv]
  exact Frame.cellAt?_eq_some_iff.mp (hb.cellAt?_of_lt hu hv)

theorem reachable {i : Nat} (hi : i < b.frame.size) : ReflTransGen b.frame.StepsTo 0 i := by
  have hw : 0 < b.width := b.frame.width_pos
  have hdown : ∀ y < b.height, ReflTransGen b.frame.StepsTo 0 (y * b.width + 0) := by
    intro y hy
    induction y with
    | zero => rw [Nat.zero_mul]
    | succ y ih =>
        have hstep := hb.stepsTo hw (Nat.lt_of_succ_lt hy) hw hy
          (d := (0, 1)) (by simp [Site.steps]) (Int.add_zero _) rfl
        exact (ih (Nat.lt_of_succ_lt hy)).tail hstep
  have hright : ∀ y < b.height, ∀ x < b.width,
      ReflTransGen b.frame.StepsTo 0 (y * b.width + x) := by
    intro y hy x hx
    induction x with
    | zero => exact hdown y hy
    | succ x ih =>
        have hstep := hb.stepsTo (Nat.lt_of_succ_lt hx) hy hx hy
          (d := (1, 0)) (by simp [Site.steps]) rfl (Int.add_zero _)
        exact (ih (Nat.lt_of_succ_lt hx)).tail hstep
  rw [hb.size_eq] at hi
  rw [← Nat.div_add_mod' i b.width]
  exact hright _ (Nat.div_lt_of_lt_mul hi) _ (Nat.mod_lt i hw)

end Rectangular

/-! ## Boards made of cells

Such a board lists its cells as they were given, wherever they lie and however many
of them share their coordinates. -/

theorem cells_of_ofCells {width height : Int} {cells : List Cell}
    (h : ofCells width height cells = .ok b) :
    b.listed = b.frame.size ∧ b.cells.map b.cell = cells := by
  unfold ofCells at h
  split at h
  case h_1 => cases h
  case h_2 f hf =>
    have hsites := Frame.sites_of_ofSites hf
    have hsize : f.size = cells.length := by simp [Frame.size, hsites]
    cases h
    refine ⟨rfl, List.ext_getElem ?_ fun i hi hi' => ?_⟩
    · simp [Board.cells, hsize]
    · simp [Board.cells, cell, Frame.site, value, region, hsites, hi']

theorem exists_rectangle {width height : Int} (hw : 0 < width) (hh : 0 < height) :
    ∃ b, rectangle width height = .ok b := by
  have hpos : 0 < width.toNat ∧ 0 < height.toNat := by omega
  refine ⟨blank (.rectangle width.toNat height.toNat hpos.1 hpos.2), ?_⟩
  rw [rectangle, Frame.ofDimensions, dif_pos hpos]
  rfl

/-- A board made of cells, wherever they lie, is connected exactly when every one of
them can be reached from the first by steps to the cells found up, right, down and
left.  Every full rectangle is connected. -/
theorem isConnected_iff_reachable (width height : Int) (cells : List Cell) (b : Board)
    (h : ofCells width height cells = .ok b) :
    b.cells.map b.cell = cells ∧
      (b.isConnected = true ↔ ∀ i ∈ b.cells, ReflTransGen b.frame.StepsTo 0 i) ∧
      ∀ w h : Int, 0 < w → 0 < h → ∃ b', rectangle w h = .ok b' ∧ b'.isConnected = true ∧
        ∀ i ∈ b'.cells, ReflTransGen b'.frame.StepsTo 0 i := by
  obtain ⟨hlisted, hcells⟩ := cells_of_ofCells h
  refine ⟨hcells, isConnected_iff hlisted, fun w h hw hh => ?_⟩
  obtain ⟨b', hb'⟩ := exists_rectangle hw hh
  obtain ⟨hrect, -, -⟩ := rectangle_eq_ok hb'
  have hreach : ∀ i ∈ b'.cells, ReflTransGen b'.frame.StepsTo 0 i := fun i hi =>
    hrect.reachable (hrect.listed ▸ List.mem_range.mp hi)
  exact ⟨b', hb', (isConnected_iff hrect.listed).mpr hreach, hreach⟩

/-- Three cells, two of which lie in the same place, off the board. -/
def stacked : List Cell := [{ x := 0, y := -1 }, { x := 0, y := -2 }, { x := 0, y := -2 }]

theorem isConnected_iff_reachable_stacked : ∃ b, ofCells 3 1 stacked = .ok b ∧
    b.isConnected = false ∧ ¬ ∀ i ∈ b.cells, ReflTransGen b.frame.StepsTo 0 i := by
  have hboard : ∃ b, ofCells 3 1 stacked = .ok b ∧ b.frame.size = 3 ∧ 1 ∈ b.cells ∧
      b.frame.site 2 = b.frame.site 1 := ⟨_, rfl, rfl, by decide, rfl⟩
  obtain ⟨b, hb, hsize, hlisted, hsame⟩ := hboard
  obtain ⟨-, hiff, -⟩ := isConnected_iff_reachable 3 1 stacked b hb
  have hapart : ¬ ∀ i ∈ b.cells, ReflTransGen b.frame.StepsTo 0 i := by
    intro hall
    cases hall 1 hlisted with
    | tail _ hstep =>
        have hle : 2 ≤ 1 := hstep.last (hsize ▸ Nat.lt_succ_self 2) hsame
        omega
  exact ⟨b, hb, Bool.eq_false_iff.mpr fun hc => hapart (hiff.mp hc), hapart⟩

end Board

end GridFill
