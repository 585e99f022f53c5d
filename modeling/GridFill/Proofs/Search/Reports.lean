/-
# `GridFill.Proofs.Search.Reports` — which reports a search writes

If reports are wanted at an interval of `k` frames, a frame reports when it is
entered as a frame whose number `k` divides.  So a search writes one report for
each multiple of `k` that its frames pass, in ascending order, and as many as the
difference of two quotients says (`Reports`, `run_reports`).

That is so unless a report shows a number of more digits than the machine writes, which
ends the search with a fault.  A limit on digits that is not met makes no difference: the
search is the one without the limit (`run_unlimited`).  And it is met by a number that the
walk shows at the end, of cells, frames, values or complete boards (`Runs.unwritable`).
-/
import Mathlib.Data.List.Basic
import GridFill.Proofs.Search.Pure
import GridFill.Proofs.Search.Simulate

namespace GridFill.Search

variable {σ ρ ε : Type}

/-! ## Multiples

They are counted by a difference of two quotients, and those of two stretches that
follow one another are those of both together. -/

/-- The multiples of `k` after `a` and up to `b`, in ascending order. -/
def multiples (k a b : Int) : List Int :=
  (List.range (b / k - a / k).toNat).map fun n : Nat => (a / k + 1 + n) * k

section

variable {k a b c n : Int}

theorem length_multiples (hk : 1 ≤ k) (hab : a ≤ b) :
    ((multiples k a b).length : Int) = b / k - a / k := by
  have hle : a / k ≤ b / k := Int.ediv_le_ediv (by omega) hab
  rw [multiples, List.length_map, List.length_range]
  omega

theorem mem_multiples (hk : 1 ≤ k) : n ∈ multiples k a b ↔ k ∣ n ∧ a < n ∧ n ≤ b := by
  have hpos : 0 < k := by omega
  rw [multiples, List.mem_map]
  constructor
  · rintro ⟨m, hm, rfl⟩
    rw [List.mem_range] at hm
    refine ⟨Int.dvd_mul_left _ _, ?_, ?_⟩
    · exact (Int.ediv_lt_iff_lt_mul hpos).mp (by omega)
    · exact (Int.le_ediv_iff_mul_le hpos).mp (by omega)
  · rintro ⟨⟨q, rfl⟩, ha, hb⟩
    rw [Int.mul_comm] at ha hb
    have hlow := (Int.ediv_lt_iff_lt_mul hpos).mpr ha
    have hhigh := (Int.le_ediv_iff_mul_le hpos).mpr hb
    refine ⟨(q - a / k - 1).toNat, List.mem_range.mpr (by omega), ?_⟩
    rw [Int.mul_comm k q]
    congr 1
    omega

theorem pairwise_multiples (hk : 1 ≤ k) : (multiples k a b).Pairwise (· < ·) := by
  refine List.Pairwise.map _ (fun m n hmn => ?_) List.pairwise_lt_range
  exact Int.mul_lt_mul_of_pos_right (by omega) (by omega)

theorem multiples_append (hk : 1 ≤ k) (hab : a ≤ b) (hbc : b ≤ c) :
    multiples k a b ++ multiples k b c = multiples k a c := by
  have hlow : a / k ≤ b / k := Int.ediv_le_ediv (by omega) hab
  have hhigh : b / k ≤ c / k := Int.ediv_le_ediv (by omega) hbc
  have hsum : (c / k - a / k).toNat = (b / k - a / k).toNat + (c / k - b / k).toNat := by omega
  rw [multiples, multiples, multiples, hsum, List.range_add, List.map_append, List.map_map]
  congr 1
  refine List.map_congr_left fun n _ => ?_
  dsimp only [Function.comp]
  congr 1
  omega

theorem multiples_self (k a : Int) : multiples k a a = [] := by
  rw [multiples, Int.sub_self]
  rfl

theorem multiples_succ (hk : 1 ≤ k) (a : Int) :
    multiples k a (a + 1) = if (a + 1) % k = 0 then [a + 1] else [] := by
  have hpos : 0 < k := by omega
  split
  case isTrue hdvd =>
    obtain ⟨q, hq⟩ := Int.dvd_of_emod_eq_zero hdvd
    rw [Int.mul_comm] at hq
    have hlast : q - 1 ≤ a / k := (Int.le_ediv_iff_mul_le hpos).mpr (by
      rw [Int.sub_mul]
      omega)
    have hbelow : a / k < q := (Int.ediv_lt_iff_lt_mul hpos).mpr (by omega)
    have hnext : (a + 1) / k = q := by
      rw [hq]
      exact Int.mul_ediv_cancel q (by omega)
    have hone : ((a + 1) / k - a / k).toNat = 1 := by omega
    have hrank : a / k + 1 + (0 : Nat) = q := by omega
    rw [multiples, hone, List.range_one, List.map_singleton, hrank, hq]
  case isFalse hdvd =>
    have habove : a < (a / k + 1) * k := (Int.ediv_lt_iff_lt_mul hpos).mp (by omega)
    have hne : a + 1 ≠ (a / k + 1) * k := by
      intro heq
      rw [heq] at hdvd
      exact hdvd (Int.mul_emod_left _ _)
    have hnext : (a + 1) / k < a / k + 1 := (Int.ediv_lt_iff_lt_mul hpos).mpr (by omega)
    have hnone : ((a + 1) / k - a / k).toNat = 0 := by omega
    rw [multiples, hnone, List.range_zero, List.map_nil]

end

/-! ## Limits on digits

A search that does not end at a report that fails has not noticed the limit, so it may as
well have run without one.  There nothing but an interval of zero makes a report fail, and
what is shown of reports without the limit holds of such a search. -/

/-- The same circumstances, except that numbers of any length are written. -/
def Conditions.unlimited (c : Conditions) : Conditions := { c with digitLimit := none }

/-- The same plan, except that numbers of any length are written. -/
def Plan.unlimited (p : Plan σ ρ ε) : Plan σ ρ ε :=
  { p with conditions := p.conditions.unlimited }

section

variable {p : Plan σ ρ ε} {job : Job} {depth : Nat} {w : Walk σ ρ} {r : Step σ ρ ε}

theorem enter_unlimited {c : Conditions} {w₁ : Walk σ ρ} {a : Except (SearchFault ε) Unit}
    (he : enter c depth w = (a, w₁)) (ha : ¬ ∃ f, c.ReportFault f ∧ a = .error (.fault f)) :
    enter c.unlimited depth w = (a, w₁) := by
  apply Entering.eq_enter
  cases Entering.of_enter he with
  | blocked hd => exact .blocked hd
  | quiet hd hdue => exact .quiet hd hdue
  | never hd hk => exact .never hd hk
  | written hd hk hz hdue _ => exact .written hd hk hz hdue rfl
  | unwritable _ hk _ _ hcheck =>
      obtain ⟨most, hmost, rfl, -⟩ := Text.checkDigits_eq_error hcheck
      exact absurd ⟨_, .digits hk hmost, rfl⟩ ha

theorem enter_ok_unlimited {c : Conditions} {w₁ : Walk σ ρ}
    (he : enter (ε := ε) c depth w = (.ok (), w₁)) :
    enter (ε := ε) c.unlimited depth w = (.ok (), w₁) :=
  enter_unlimited he (by rintro ⟨_, _, ⟨⟩⟩)

theorem enter_error_unlimited {c : Conditions} {w₁ w₂ : Walk σ ρ} {e : SearchFault ε}
    (he : enter c depth w = (.error e, w₁))
    (hr : ¬ c.ReportFailed ((.error e, w₂) : Step σ ρ ε)) :
    enter c.unlimited depth w = (.error e, w₁) :=
  enter_unlimited he fun ⟨f, hf, hfail⟩ =>
    hr ⟨f, hf, congrArg Except.error (Except.error.inj hfail)⟩

/-- A run that does not end at a report that fails is a run without the limit. -/
theorem Runs.unlimited (h : Runs p job depth w r) (hr : ¬ p.conditions.ReportFailed r) :
    Runs p.unlimited job depth w r := by
  induction h with
  | blocked he => exact .blocked (enter_error_unlimited he hr)
  | leaf he => exact .leaf (enter_ok_unlimited he)
  | undrawn he hroom => exact .undrawn (enter_ok_unlimited he) hroom
  | opened he hroom _ ih => exact .opened (enter_ok_unlimited he) hroom (ih hr)
  | spent => exact .spent
  | broken hq => exact .broken hq
  | refused hq _ ih => exact .refused hq (ih hr)
  | failed hq _ ih => exact .failed hq (ih hr)
  | kept hq _ hk ih => exact .kept hq (ih (not_reportFailed_of_ok rfl)) hk
  | cleared hq _ hk ih => exact .cleared hq (ih (not_reportFailed_of_ok rfl)) hk
  | undone hq _ _ ih ih' => exact .undone hq (ih (not_reportFailed_of_ok rfl)) (ih' hr)

theorem run_unlimited (hr : ¬ p.conditions.ReportFailed (run p w)) :
    run p.unlimited w = run p w :=
  ((runs_explore p w.board.emptyCells 0 w).unlimited hr).eq_explore.symm

end

/-! ## Numbers that cannot be written

A search that fails ends with the tally that its last frame had, and with a board of as
many cells, so the number that could not be written is still there. -/

/-- The numbers that a walk can be asked to show. -/
def Walk.counts (w : Walk σ ρ) : List Int :=
  [w.board.listed, w.tally.nodes, w.tally.validations, w.tally.solutions, w.tally.maxDepth]

theorem digitCount_le {m n : Nat} (h : m ≤ n) : Text.digitCount m ≤ Text.digitCount n := by
  unfold Text.digitCount
  have hpos : 0 < (Nat.toDigits 10 (n : Int).natAbs).length :=
    List.length_pos_iff.mpr Nat.toDigits_ne_nil
  have hlt := (Nat.length_toDigits_le_iff (b := 10) (by decide) hpos).mp (Nat.le_refl _)
  exact (Nat.length_toDigits_le_iff (by decide) hpos).mpr
    (Nat.lt_of_le_of_lt (by simpa using h) hlt)

theorem filledCount_le (b : Board) : b.filledCount ≤ b.listed := by
  have hle := List.countP_le_length (p := fun i => b.value i ≠ none) (l := b.cells)
  rwa [Board.cells, List.length_range] at hle

section

variable {p : Plan σ ρ ε} {job : Job} {depth most : Nat} {w : Walk σ ρ} {r : Step σ ρ ε}

theorem enter_unwritable {c : Conditions} {w₁ : Walk σ ρ}
    (he : enter (ε := ε) c depth w = (.error (.fault (.digitCount most)), w₁)) :
    ∃ n ∈ w₁.counts, most < Text.digitCount n := by
  cases Entering.of_enter he with
  | unwritable _ _ _ _ hcheck =>
      obtain ⟨_, _, ⟨⟩, n, hn, hlt⟩ := Text.checkDigits_eq_error hcheck
      rcases List.mem_cons.mp hn with rfl | hn
      · exact ⟨_, List.mem_cons_self, Nat.lt_of_lt_of_le hlt (digitCount_le (filledCount_le _))⟩
      · exact ⟨n, hn, hlt⟩

/-- A run that ends at a number that cannot be written still shows it. -/
theorem Runs.unwritable (h : Runs p job depth w r)
    (hr : r.1 = .error (.fault (.digitCount most))) :
    ∃ n ∈ r.2.counts, most < Text.digitCount n := by
  induction h with
  | blocked he =>
      cases hr
      exact enter_unwritable he
  | leaf | undrawn | spent | kept | cleared => cases hr
  | opened _ _ _ ih | refused _ _ ih | undone _ _ _ _ ih => exact ih hr
  | @broken i _ v _ _ w _ _ hq =>
      rw [query_eq] at hq
      rcases hask : p.judge.ask w.board i v w.memory with ⟨b | _, _⟩
      · rw [hask] at hq
        cases hq
        cases b <;> cases hr
      · rw [hask] at hq
        cases hq
  | failed _ _ ih => exact ih hr

end

/-! ## Reports

A frame that is entered has the next number, and reports if the interval divides
it. -/

/-- Reports, if they are wanted, are due after a positive number of frames. -/
def Conditions.Regular (c : Conditions) : Prop :=
  ∀ k, c.interval = some k → 1 ≤ k

/-- The numbers at which reports are due from one number of frames to another. -/
def Conditions.due (c : Conditions) (a b : Int) : List Int :=
  match c.interval with
  | none => []
  | some k => multiples k a b

/-- What is reported from a walk to a later one: nothing, or, at an interval of `k`
frames, one report at each multiple of `k` that the frames have passed. -/
structure Reports (c : Conditions) (w w₁ : Walk σ ρ) (rs : List Report) : Prop where
  added : w₁.reports.toList = w.reports.toList ++ rs
  unwanted : c.interval = none → rs = []
  number : ∀ k, c.interval = some k →
    (rs.length : Int) = w₁.tally.nodes / k - w.tally.nodes / k
  ascending : (rs.map (·.tally.nodes)).Pairwise (· < ·)
  passed : ∀ k, c.interval = some k → ∀ n,
    n ∈ rs.map (·.tally.nodes) ↔ k ∣ n ∧ w.tally.nodes < n ∧ n ≤ w₁.tally.nodes

section

variable {c : Conditions} {k : Int} {a b : Int}

theorem due_self (c : Conditions) (a : Int) : c.due a a = [] := by
  unfold Conditions.due
  split
  · rfl
  · exact multiples_self _ a

theorem due_append (hc : c.Regular) {d : Int} (hab : a ≤ b) (hbd : b ≤ d) :
    c.due a b ++ c.due b d = c.due a d := by
  unfold Conditions.due
  split
  · rfl
  next k hk => exact multiples_append (hc k hk) hab hbd

/-- The frames counted do not get fewer, and the reports added are those due. -/
structure Walk.Reported (c : Conditions) (w w₁ : Walk σ ρ) : Prop where
  nodes : w.tally.nodes ≤ w₁.tally.nodes
  due : ∃ rs, w₁.reports.toList = w.reports.toList ++ rs ∧
    rs.map (·.tally.nodes) = c.due w.tally.nodes w₁.tally.nodes

theorem Walk.reported_of_eq {w w₁ : Walk σ ρ} (c : Conditions)
    (hnodes : w₁.tally.nodes = w.tally.nodes) (hreports : w₁.reports = w.reports) :
    w.Reported c w₁ := by
  refine ⟨Int.le_of_eq hnodes.symm, [], ?_, ?_⟩
  · rw [hreports, List.append_nil]
  · rw [hnodes, due_self, List.map_nil]

theorem Walk.Reported.trans (hc : c.Regular) {w₁ w₂ w₃ : Walk σ ρ} (h : w₁.Reported c w₂)
    (h' : w₂.Reported c w₃) : w₁.Reported c w₃ := by
  obtain ⟨hle, rs, hrs, hdue⟩ := h
  obtain ⟨hle', rs', hrs', hdue'⟩ := h'
  refine ⟨Int.le_trans hle hle', rs ++ rs', ?_, ?_⟩
  · rw [hrs', hrs, List.append_assoc]
  · rw [List.map_append, hdue, hdue', due_append hc hle hle']

theorem reported_enter (hc : c.Regular) {depth : Nat} {w w₁ : Walk σ ρ}
    {a : Except (SearchFault ε) Unit} (he : enter c.unlimited depth w = (a, w₁)) :
    w.Reported c w₁ := by
  have hnodes : w.tally.nodes ≤ (w.entered depth).tally.nodes := Int.le_of_lt (Int.lt_succ _)
  cases Entering.of_enter he with
  | blocked => exact Walk.reported_of_eq c rfl rfl
  | never _ hk => exact absurd (hc 0 hk) (by decide)
  | quiet _ hdue =>
      refine ⟨hnodes, [], (List.append_nil _).symm, ?_⟩
      rw [Conditions.due]
      cases hk : c.interval with
      | none => rfl
      | some k => exact ((multiples_succ (hc k hk) _).trans (if_neg (hdue k hk).2)).symm
  | written _ hk _ hdue =>
      refine ⟨hnodes, [_], Array.toList_push, ?_⟩
      have hk : c.interval = _ := hk
      rw [Conditions.due, hk]
      exact ((multiples_succ (hc _ hk) _).trans (if_pos hdue)).symm
  | unwritable _ _ _ _ hcheck => cases hcheck

theorem along_reported {p : Plan σ ρ ε} (hc : p.conditions.Regular) :
    p.unlimited.Along (Walk.Reported p.conditions) where
  refl _ := Walk.reported_of_eq _ rfl rfl
  trans := Walk.Reported.trans hc
  enter he := reported_enter hc he
  draw _ := Walk.reported_of_eq _ rfl rfl
  query hq := by
    obtain ⟨_, rfl⟩ := query_cases hq
    exact Walk.reported_of_eq _ rfl rfl
  put _ _ _ := Walk.reported_of_eq _ rfl rfl
  reached w := by
    refine Walk.reported_of_eq _ ?_ rfl
    rw [Walk.completed]
    cases p.unlimited.goal <;> rfl

theorem Walk.Reported.reports (hc : c.Regular) {w w₁ : Walk σ ρ} (h : w.Reported c w₁) :
    ∃ rs, Reports c w w₁ rs := by
  obtain ⟨hle, rs, hadded, hdue⟩ := h
  unfold Conditions.due at hdue
  refine ⟨rs, hadded, fun hnone => ?_, fun k hk => ?_, ?_, fun k hk n => ?_⟩
  · rw [hnone] at hdue
    exact List.map_eq_nil_iff.mp hdue
  · rw [hk] at hdue
    rw [← List.length_map (·.tally.nodes), hdue]
    exact length_multiples (hc k hk) hle
  · rw [hdue]
    split
    · exact .nil
    next k hk => exact pairwise_multiples (hc k hk)
  · rw [hk] at hdue
    rw [hdue]
    exact mem_multiples (hc k hk)

/-- A search reports at the multiples of its interval that its frames pass. -/
theorem run_reports {p : Plan σ ρ ε} (hc : p.conditions.Regular) {w : Walk σ ρ}
    (hr : ¬ p.conditions.ReportFailed (run p w)) :
    ∃ rs, Reports p.conditions w (run p w).2 rs :=
  ((runs_explore p w.board.emptyCells 0 w).unlimited hr).along (along_reported hc) |>.reports hc

end

end GridFill.Search
