/-
# `GridFill.Proofs.Rules.Win` — what it takes to win

Winning is decided group by group, with a table of marks for the rows and
columns that only need distinct values, and by a count of values and of regions
for a sudoku.  Here both come down to conditions on single cells and pairs of
cells: the board is complete or its values are in range, related cells differ
(`Separate`), and for a sudoku the regions cut the board as they should
(`Split`).

The table of marks is right for values that are not negative
(`decides_distinctFrom`); a negative value marks the place of another one.  A value that
is too great to be an index is a fault, so that a question about such values is either
answered rightly or not at all (`DecidesIf`).
-/
import GridFill.Proofs.Rules.Group

namespace GridFill.Rules

/-- A question is answered without a fault, and by yes exactly if `p` holds. -/
def Decides (answer : Except Fault Bool) (p : Prop) : Prop :=
  ∃ yes, answer = .ok yes ∧ (yes = true ↔ p)

theorem Decides.congr {answer : Except Fault Bool} {p q : Prop} (h : Decides answer p)
    (hpq : p ↔ q) : Decides answer q := by
  obtain ⟨yes, hyes, hp⟩ := h
  exact ⟨yes, hyes, hp.trans hpq⟩

theorem decides_ok {yes : Bool} {p : Prop} (h : yes = true ↔ p) : Decides (.ok yes) p :=
  ⟨yes, rfl, h⟩

/-- A question is answered without a fault if `fit` holds, and whenever it is answered, then
by yes exactly if `p` holds. -/
structure DecidesIf (fit : Prop) (answer : Except Fault Bool) (p : Prop) : Prop where
  answered : fit → ∃ yes, answer = .ok yes
  sound : ∀ yes, answer = .ok yes → (yes = true ↔ p)

namespace DecidesIf

variable {fit : Prop} {answer : Except Fault Bool} {p q : Prop}

theorem decides (h : DecidesIf fit answer p) (hfit : fit) : Decides answer p := by
  obtain ⟨yes, hyes⟩ := h.answered hfit
  exact ⟨yes, hyes, h.sound yes hyes⟩

theorem congr (h : DecidesIf fit answer p) (hpq : p ↔ q) : DecidesIf fit answer q :=
  ⟨h.answered, fun yes hyes => (h.sound yes hyes).trans hpq⟩

theorem mono {fit' : Prop} (h : DecidesIf fit answer p) (hfit : fit' → fit) :
    DecidesIf fit' answer p :=
  ⟨h.answered ∘ hfit, h.sound⟩

theorem and {first second : Except Fault Bool} :
    DecidesIf fit first p → DecidesIf fit second q →
      DecidesIf fit (match first with | .ok true => second | r => r) (p ∧ q) := by
  intro h h'
  refine ⟨fun hfit => ?_, fun yes hyes => ?_⟩
  · obtain ⟨yes, rfl⟩ := h.answered hfit
    cases yes with
    | true => exact h'.answered hfit
    | false => exact ⟨false, rfl⟩
  · match first with
    | .error f => cases hyes
    | .ok true => rw [h'.sound yes hyes, and_iff_right ((h.sound true rfl).mp rfl)]
    | .ok false =>
        cases hyes
        exact (h.sound false rfl).trans
          ⟨fun hp => absurd ((h.sound false rfl).mpr hp) Bool.false_ne_true, And.left⟩

end DecidesIf

theorem Decides.decidesIf {fit : Prop} {answer : Except Fault Bool} {p : Prop}
    (h : Decides answer p) : DecidesIf fit answer p := by
  obtain ⟨yes, rfl, hp⟩ := h
  refine ⟨fun _ => ⟨yes, rfl⟩, ?_⟩
  rintro _ ⟨⟩
  exact hp

theorem decidesIf_error {fit p : Prop} {f : Fault} (h : ¬ fit) : DecidesIf fit (.error f) p :=
  ⟨fun hfit => absurd hfit h, by rintro _ ⟨⟩⟩

/-! ## The table of marks

A table of at least one place grows by no more than the value that it has to hold, so what
does not fit is a value that is no index in any table. -/

/-- With values that are not negative, the table finds out whether they differ
from each other and from those already marked. -/
theorem decides_distinctFrom {vs : List Int} (h : ∀ v ∈ vs, 0 ≤ v) {length : Nat}
    (hlength : 1 ≤ length) (marks : List Nat) :
    DecidesIf (∀ v ∈ vs, v < Board.indexBound) (distinctFrom length marks vs)
      (vs.Nodup ∧ ∀ v ∈ vs, v.toNat ∉ marks) := by
  induction vs generalizing length marks with
  | nil => exact (decides_ok (by simp)).decidesIf
  | cons v vs ih =>
      obtain ⟨hv, hvs⟩ := List.forall_mem_cons.mp h
      unfold distinctFrom
      dsimp only
      split
      next hgrowth =>
        exact decidesIf_error fun hall => absurd (hall v List.mem_cons_self) (by omega)
      split
      next hindex =>
        have hbound : Board.indexBound = 9223372036854775808 := rfl
        exact decidesIf_error fun hall => absurd (hall v List.mem_cons_self) (by omega)
      simp only [if_neg (Int.not_lt.mpr hv)]
      cases hmark : marks.contains v.toNat with
      | true =>
          rw [if_pos rfl]
          refine (decides_ok ⟨fun hf => (Bool.false_ne_true hf).elim, ?_⟩).decidesIf
          rintro ⟨-, hall⟩
          exact absurd (List.contains_iff_mem.mp hmark) (hall v List.mem_cons_self)
      | false =>
          have hfresh : v.toNat ∉ marks := fun hm => by
            rw [List.contains_iff_mem.mpr hm] at hmark
            cases hmark
          have hgrown : 1 ≤ max length (v + 1).toNat := Nat.le_trans hlength (Nat.le_max_left _ _)
          rw [if_neg Bool.false_ne_true]
          refine ((ih hvs hgrown _).mono fun hall u hu =>
            hall u (List.mem_cons_of_mem _ hu)).congr ?_
          -- equal places are equal values, since none is negative
          have hplace : ∀ u ∈ vs, u.toNat = v.toNat ↔ u = v := fun u hu => by
            have := hvs u hu
            omega
          rw [List.nodup_cons, List.forall_mem_cons]
          constructor
          · rintro ⟨hnd, hall⟩
            refine ⟨⟨fun hm => ?_, hnd⟩, hfresh, fun u hu hm => ?_⟩
            · exact hall v hm List.mem_cons_self
            · exact hall u hu (List.mem_cons_of_mem _ hm)
          · rintro ⟨⟨hnot, hnd⟩, -, hall⟩
            refine ⟨hnd, fun u hu hm => ?_⟩
            rcases List.mem_cons.mp hm with hm | hm
            · exact hnot ((hplace u hu).mp hm ▸ hu)
            · exact hall u hu hm

theorem decides_allDistinct {gs : List (List (Option Int))}
    (h : ∀ g ∈ gs, ∀ v : Int, some v ∈ g → 0 ≤ v) :
    DecidesIf (∀ g ∈ gs, ∀ v : Int, some v ∈ g → v < Board.indexBound) (allDistinct gs)
      (∀ g ∈ gs, (g.filterMap id).Nodup) := by
  induction gs with
  | nil => exact (decides_ok (by simp)).decidesIf
  | cons g gs ih =>
      obtain ⟨hg, hgs⟩ := List.forall_mem_cons.mp h
      have hmem : ∀ v : Int, v ∈ g.filterMap id ↔ some v ∈ g := fun v => by simp
      have hfirst := (decides_distinctFrom (fun v hv => hg v ((hmem v).mp hv)) (Nat.le_refl 1)
        []).congr (q := (g.filterMap id).Nodup) (by simp)
      simp only [List.forall_mem_cons]
      exact (hfirst.mono fun hall v hv => hall.1 v ((hmem v).mp hv)).and ((ih hgs).mono And.right)

/-! ## Winning

Groups of values that have to differ are gone through one after the other; the
first one that does not, or cannot be judged, decides. -/

section

variable {b : Board}

theorem isComplete_iff : b.isComplete = true ↔ ∀ i < b.listed, b.value i ≠ none := by
  simp [Board.isComplete, Board.cells]

/-- The values that a table of marks has to hold can be indices of one.  Only rows and columns
that need distinct values take a table. -/
def Markable (b : Board) : Rules → Prop
  | permissive | sudoku => True
  | rowUnique | latin => ∀ i, ∀ v : Int, b.value i = some v → v < Board.indexBound

theorem Grouping.decides_allDistinct {rel : Nat → Nat → Prop} {groups : List (List Nat)}
    (h : Grouping b rel groups) (hl : b.listed = b.frame.size)
    (hv : ∀ i, ∀ v : Int, b.value i = some v → 0 ≤ v) :
    DecidesIf (∀ i, ∀ v : Int, b.value i = some v → v < Board.indexBound)
      (allDistinct (groups.map fun g => g.map b.value)) (Separate b rel) := by
  have hcell : ∀ g ∈ groups.map fun g => g.map b.value, ∀ v : Int, some v ∈ g →
      ∃ i, b.value i = some v := by
    rintro _ hg v hmem
    obtain ⟨g, -, rfl⟩ := List.mem_map.mp hg
    obtain ⟨i, -, hi⟩ := List.mem_map.mp hmem
    exact ⟨i, hi⟩
  refine ((Rules.decides_allDistinct fun g hg v hmem => ?_).mono fun hall g hg v hmem =>
    ?_).congr ?_
  · obtain ⟨i, hi⟩ := hcell g hg v hmem
    exact hv i v hi
  · obtain ⟨i, hi⟩ := hcell g hg v hmem
    exact hall i v hi
  · rw [List.forall_mem_map, ← h.nodup_iff hl]

theorem decides_complete {fit : Prop} {answer : Except Fault Bool} {p : Prop}
    (h : DecidesIf fit answer p) :
    DecidesIf fit (if b.isComplete then answer else .ok false) (b.isComplete = true ∧ p) := by
  cases hc : b.isComplete with
  | true => exact h.congr (by simp)
  | false => exact (decides_ok (by simp)).decidesIf

variable (hb : b.Rectangular)

include hb

theorem decides_wins_rowUnique (hv : ∀ i, ∀ v : Int, b.value i = some v → 0 ≤ v) :
    DecidesIf (rowUnique.Markable b) (rowUnique.wins b)
      (b.isComplete = true ∧ Separate b (SameRow b)) := by
  have hrows := (grouping_rows hb).decides_allDistinct hb.listed hv
  rw [← rowGroups_eq] at hrows
  exact decides_complete hrows

theorem decides_wins_latin (hv : ∀ i, ∀ v : Int, b.value i = some v → 0 ≤ v) :
    DecidesIf (latin.Markable b) (latin.wins b)
      (b.isComplete = true ∧ Separate b (SameRow b) ∧ Separate b (SameCol b)) := by
  have hrows := (grouping_rows hb).decides_allDistinct hb.listed hv
  have hcols := (grouping_cols hb).decides_allDistinct hb.listed hv
  rw [← rowGroups_eq] at hrows
  rw [← colGroups_eq] at hcols
  exact decides_complete (hrows.and hcols)

end

/-- The regions cut a board as a sudoku needs it: it is a square, no cell is
without a region, and there are as many regions as rows, each with as many cells. -/
structure Split (b : Board) : Prop where
  square : b.height = b.width
  named : ∀ i < b.frame.size, b.region i ≠ none
  count : (regionsOf b).length = b.width
  cells : ∀ r ∈ regionsOf b, (regionCells b r).length = b.width

/-- A sudoku is won when its regions cut the board as they should, its values are
in range and related cells differ. -/
theorem wonSudoku_iff {b : Board} (hb : b.Rectangular) :
    wonSudoku b = true ↔ Split b ∧ InRange b b.width ∧ Separate b (sudoku.Peers b) := by
  have hcomplete : InRange b b.width → b.isComplete = true := fun hr =>
    isComplete_iff.mpr fun i hi => by
      obtain ⟨v, hv, -⟩ := hr i (hb.listed ▸ hi)
      simp [hv]
  have hrows : (rowGroups b).all (isPermutation b.width) = true ↔
      InRange b b.width ∧ Separate b (SameRow b) := by
    rw [rowGroups_eq, List.all_eq_true, List.forall_mem_map,
      (grouping_rows hb).isPermutation_iff hb.listed]
    exact and_iff_right fun g => length_row hb
  have hcols (hsq : b.height = b.width) : (colGroups b).all (isPermutation b.width) = true ↔
      InRange b b.width ∧ Separate b (SameCol b) := by
    rw [colGroups_eq, List.all_eq_true, List.forall_mem_map,
      (grouping_cols hb).isPermutation_iff hb.listed]
    exact and_iff_right fun g hg => (length_col hb hg).trans hsq
  have hnamed : (regionsOf b).contains none = false ↔ ∀ i < b.frame.size, b.region i ≠ none := by
    rw [← Bool.not_eq_true, List.contains_iff_mem, mem_regionsOf, hb.listed]
    simp
  have hregions (hn : ∀ i < b.frame.size, b.region i ≠ none) :
      ((regionsOf b).all fun r => isPermutation b.width (regionGroup b r)) = true ↔
        (∀ r ∈ regionsOf b, (regionCells b r).length = b.width) ∧
          InRange b b.width ∧ Separate b (SameRegion b) := by
    have h := (grouping_regions hb hn).isPermutation_iff hb.listed (n := b.width)
    rw [List.forall_mem_map, List.forall_mem_map] at h
    rw [List.all_eq_true, ← h]
    rfl
  have hpeers : Separate b (sudoku.Peers b) ↔
      Separate b (SameRow b) ∧ Separate b (SameCol b) ∧ Separate b (SameRegion b) := by
    rw [← separate_or, ← separate_or]
    rfl
  rw [hpeers]
  simp only [wonSudoku, Bool.and_eq_true, beq_iff_eq, Bool.not_eq_true', hrows, hnamed]
  constructor
  · rintro ⟨⟨⟨⟨⟨⟨hsq, -⟩, hr, hsrow⟩, hc⟩, hn⟩, hcount⟩, hreg⟩
    obtain ⟨hcells, -, hsreg⟩ := (hregions hn).mp hreg
    exact ⟨⟨hsq, hn, hcount, hcells⟩, hr, hsrow, ((hcols hsq).mp hc).2, hsreg⟩
  · rintro ⟨⟨hsq, hn, hcount, hcells⟩, hr, hsrow, hscol, hsreg⟩
    exact ⟨⟨⟨⟨⟨⟨hsq, hcomplete hr⟩, hr, hsrow⟩, (hcols hsq).mpr ⟨hr, hscol⟩⟩, hn⟩, hcount⟩,
      (hregions hn).mpr ⟨hcells, hr, hsreg⟩⟩

end GridFill.Rules
