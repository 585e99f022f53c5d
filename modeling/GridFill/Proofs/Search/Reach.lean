/-
# `GridFill.Proofs.Search.Reach` — the frames that a search enters

A derivation of a run says how the search ends, and not what it passed on the
way.  `Leads` goes through a search moment by moment: from a frame to the values
of its cell, from a value that is refused to the next one, from a value that is
accepted to the frame below, and, once that frame has come back, on to the next
value.  What a search enters are the frames it reaches in this way.

The greatest depth in the tally is the depth of the deepest of them, or what it
was before if that is greater (`run_deepest`).
-/
import Mathlib.Data.Nat.SuccPred
import Mathlib.Logic.Relation
import GridFill.Proofs.Search.Pure
import GridFill.Proofs.Search.Simulate

namespace GridFill.Search

open Relation

variable {σ ρ σ' ρ' ε : Type}

/-- A job about to be done, at some depth and from some walk. -/
structure Moment (σ ρ : Type) where
  job : Job
  depth : Nat
  walk : Walk σ ρ

/-- The first frame of a search. -/
def Walk.start (w : Walk σ ρ) : Moment σ ρ where
  job := .frame w.board.emptyCells
  depth := 0
  walk := w

/-- The search goes on from the first moment to the second. -/
inductive Leads (p : Plan σ ρ ε) : Moment σ ρ → Moment σ ρ → Prop
  | opened {i : Nat} {cells : List Nat} {depth : Nat} {w w₁ : Walk σ ρ} :
      enter (ε := ε) p.conditions depth w = (.ok (), w₁) →
      p.HasRoom →
      Leads p ⟨.frame (i :: cells), depth, w⟩
        ⟨.values i cells (w₁.order p.supply), depth, w₁.drawn p.supply⟩
  | refused {i : Nat} {cells : List Nat} {v : Int} {us : List Int} {depth : Nat}
      {w w₁ : Walk σ ρ} :
      query p.judge i v w = (.ok false, w₁) →
      Leads p ⟨.values i cells (v :: us), depth, w⟩ ⟨.values i cells us, depth, w₁⟩
  | accepted {i : Nat} {cells : List Nat} {v : Int} {us : List Int} {depth : Nat}
      {w w₁ : Walk σ ρ} :
      query p.judge i v w = (.ok true, w₁) →
      Leads p ⟨.values i cells (v :: us), depth, w⟩
        ⟨.frame cells, depth + 1, w₁.put i (some v)⟩
  | undone {i : Nat} {cells : List Nat} {v : Int} {us : List Int} {depth : Nat}
      {w w₁ w₂ : Walk σ ρ} :
      query p.judge i v w = (.ok true, w₁) →
      Runs p (.frame cells) (depth + 1) (w₁.put i (some v)) (.ok .proceed, w₂) →
      Leads p ⟨.values i cells (v :: us), depth, w⟩ ⟨.values i cells us, depth, w₂.put i none⟩

/-- A frame at depth `d` is reached from a moment, and is not too deep to be entered. -/
def Moment.Enters (p : Plan σ ρ ε) (x : Moment σ ρ) (d : Nat) : Prop :=
  d ≤ p.conditions.depthLimit ∧
    ∃ cells w, ReflTransGen (Leads p) x ⟨.frame cells, d, w⟩

theorem Moment.Enters.head {p : Plan σ ρ ε} {x y : Moment σ ρ} {d : Nat} (h : y.Enters p d)
    (hxy : Leads p x y) : x.Enters p d := by
  obtain ⟨hd, cells, w, hy⟩ := h
  exact ⟨hd, cells, w, hy.head hxy⟩

/-! ## Searches in step enter the same frames

What the second search is about to do corresponds to what the first one is about to
do. -/

section

variable {S : Walk σ ρ → Walk σ' ρ' → Prop} {p : Plan σ ρ ε} {p' : Plan σ' ρ' ε}
  {x y : Moment σ ρ} {w' : Walk σ' ρ'}

theorem Leads.simulated (h : Leads p x y) (hp : p.Simulates S p') (hw : S x.walk w') :
    ∃ w₁', Leads p' ⟨x.job, x.depth, w'⟩ ⟨y.job, y.depth, w₁'⟩ ∧ S y.walk w₁' := by
  cases h with
  | opened he hroom =>
      obtain ⟨w₁', he', hw₁⟩ := hp.enter hw he
      obtain ⟨horder, hdrawn⟩ := hp.draw hw₁
      refine ⟨_, ?_, hdrawn⟩
      dsimp only
      rw [← horder]
      exact .opened he' (hp.room.mpr hroom)
  | refused hq =>
      obtain ⟨w₁', hq', hw₁⟩ := hp.query hw hq
      exact ⟨w₁', .refused hq', hw₁⟩
  | accepted hq =>
      obtain ⟨w₁', hq', hw₁⟩ := hp.query hw hq
      exact ⟨_, .accepted hq', hp.put _ _ hw₁⟩
  | undone hq hrun =>
      obtain ⟨w₁', hq', hw₁⟩ := hp.query hw hq
      obtain ⟨w₂', hrun', hw₂⟩ := hrun.simulated hp (hp.put _ _ hw₁)
      exact ⟨_, .undone hq' hrun', hp.put _ _ hw₂⟩

theorem reaches_simulated (h : ReflTransGen (Leads p) x y) (hp : p.Simulates S p')
    (hw : S x.walk w') :
    ∃ w₁', ReflTransGen (Leads p') ⟨x.job, x.depth, w'⟩ ⟨y.job, y.depth, w₁'⟩ ∧
      S y.walk w₁' := by
  induction h with
  | refl => exact ⟨w', .refl, hw⟩
  | tail _ hstep ih =>
      obtain ⟨w₁', hreach, hw₁⟩ := ih
      obtain ⟨w₂', hstep', hw₂⟩ := hstep.simulated hp hw₁
      exact ⟨w₂', hreach.tail hstep', hw₂⟩

theorem Moment.Enters.simulated {d : Nat} (h : x.Enters p d) (hp : p.Simulates S p')
    (hdepth : p'.conditions.depthLimit = p.conditions.depthLimit) (hw : S x.walk w') :
    Moment.Enters p' ⟨x.job, x.depth, w'⟩ d := by
  obtain ⟨hd, cells, w, hreach⟩ := h
  obtain ⟨w₁', hreach', -⟩ := reaches_simulated hreach hp hw
  exact ⟨hdepth ▸ hd, cells, w₁', hreach'⟩

end

/-! ## The deepest frame

Entering a frame raises the greatest depth to that of the frame if it is deeper,
and nothing lowers it. -/

section

variable {p : Plan σ ρ ε} {x y : Moment σ ρ} {job : Job} {depth : Nat} {w : Walk σ ρ}
  {r : Step σ ρ ε}

theorem along_maxDepth (p : Plan σ ρ ε) :
    p.Along fun w w₁ => w.tally.maxDepth ≤ w₁.tally.maxDepth where
  refl _ := Int.le_refl _
  trans := Int.le_trans
  enter he := by
    rcases enter_cases he with ⟨-, -, rfl⟩ | ⟨⟨_, rfl⟩, -⟩
    · exact Int.le_refl _
    · exact Int.le_max_left _ _
  draw _ := Int.le_refl _
  query hq := by rw [tally_query hq, Tally.tryValue]
  put _ _ _ := Int.le_refl _
  reached w := by
    rw [Walk.completed]
    cases p.goal <;> exact Int.le_refl _

theorem Leads.run (h : Leads p x y) (hr : Runs p x.job x.depth x.walk r) :
    ∃ r', Runs p y.job y.depth y.walk r' ∧ r'.2.tally.maxDepth ≤ r.2.tally.maxDepth := by
  cases h with
  | opened he hroom =>
      cases hr with
      | blocked he' => cases he.symm.trans he'
      | undrawn _ hfull => exact absurd hroom hfull
      | opened he' _ hr' =>
          cases he.symm.trans he'
          exact ⟨r, hr', Int.le_refl _⟩
  | refused hq =>
      cases hr with
      | refused hq' hr' =>
          cases hq.symm.trans hq'
          exact ⟨r, hr', Int.le_refl _⟩
      | broken hq' | failed hq' | kept hq' | cleared hq' | undone hq' => cases hq.symm.trans hq'
  | accepted hq =>
      cases hr with
      | broken hq' | refused hq' => cases hq.symm.trans hq'
      | failed hq' hr' | kept hq' hr' | cleared hq' hr' =>
          cases hq.symm.trans hq'
          exact ⟨_, hr', Int.le_refl _⟩
      | undone hq' hr' hrest =>
          cases hq.symm.trans hq'
          exact ⟨_, hr', hrest.along (along_maxDepth p)⟩
  | undone hq hrun =>
      have hproceed := hrun.eq_explore
      cases hr with
      | broken hq' | refused hq' => cases hq.symm.trans hq'
      | failed hq' hr' | kept hq' hr' | cleared hq' hr' =>
          cases hq.symm.trans hq'
          cases hproceed.trans hr'.eq_explore.symm
      | undone hq' hr' hrest =>
          cases hq.symm.trans hq'
          cases hproceed.trans hr'.eq_explore.symm
          exact ⟨r, hrest, Int.le_refl _⟩

theorem tally_enter_of_le {c : Conditions} {w₁ : Walk σ ρ} {a : Except (SearchFault ε) Unit}
    (he : enter c depth w = (a, w₁)) (hd : depth ≤ c.depthLimit) :
    w₁.tally = w.tally.enter depth := by
  rcases enter_cases he with ⟨hlt, -, -⟩ | ⟨⟨_, rfl⟩, -⟩
  · exact absurd hd (Nat.not_le.mpr hlt)
  · rfl

theorem enter_deepest {c : Conditions} {w₁ : Walk σ ρ} {a : Except (SearchFault ε) Unit}
    (he : enter c depth w = (a, w₁)) :
    w₁.tally.maxDepth = w.tally.maxDepth ∨
      depth ≤ c.depthLimit ∧ w₁.tally.maxDepth = depth := by
  rcases Nat.lt_or_ge c.depthLimit depth with hlt | hd
  · rw [enter_of_lt hlt] at he
    cases he
    exact .inl rfl
  · rw [tally_enter_of_le he hd]
    rcases max_choice w.tally.maxDepth depth with hmax | hmax
    · exact .inl hmax
    · exact .inr ⟨hd, hmax⟩

theorem maxDepth_reached (g : Goal) (t : Tally) : (g.reached t).2.maxDepth = t.maxDepth := by
  cases g <;> rfl

theorem Runs.frame_le {cells : List Nat} (h : Runs p (.frame cells) depth w r)
    (hd : depth ≤ p.conditions.depthLimit) : depth ≤ r.2.tally.maxDepth := by
  have hentered : (depth : Int) ≤ (w.tally.enter depth).maxDepth := Int.le_max_right _ _
  cases h with
  | blocked he | undrawn he => rwa [tally_enter_of_le he hd]
  | leaf he =>
      dsimp only
      rwa [maxDepth_reached, tally_enter_of_le he hd]
  | opened he _ hrest =>
      rw [← tally_enter_of_le he hd] at hentered
      exact Int.le_trans hentered (hrest.along (along_maxDepth p))

theorem Runs.enters_le (hr : Runs p x.job x.depth x.walk r) {d : Nat} (h : x.Enters p d) :
    d ≤ r.2.tally.maxDepth := by
  obtain ⟨hd, cells, w, hreach⟩ := h
  induction hreach using ReflTransGen.head_induction_on generalizing r with
  | refl => exact hr.frame_le hd
  | head hstep _ ih =>
      obtain ⟨r', hr', hle⟩ := hstep.run hr
      exact Int.le_trans (ih hr') hle

/-- The tally shows the depth of a frame that was entered, or what it showed before. -/
theorem Runs.deepest (h : Runs p job depth w r) :
    r.2.tally.maxDepth = w.tally.maxDepth ∨
      ∃ d, Moment.Enters p ⟨job, depth, w⟩ d ∧ r.2.tally.maxDepth = d := by
  induction h with
  | blocked he | undrawn he =>
      rcases enter_deepest he with hold | ⟨hd, hnew⟩
      · exact .inl hold
      · exact .inr ⟨_, ⟨hd, _, _, .refl⟩, hnew⟩
  | leaf he =>
      dsimp only
      rw [maxDepth_reached]
      rcases enter_deepest he with hold | ⟨hd, hnew⟩
      · exact .inl hold
      · exact .inr ⟨_, ⟨hd, _, _, .refl⟩, hnew⟩
  | opened he hroom _ ih =>
      rcases ih with hold | ⟨d, hd, hnew⟩
      · rw [hold]
        rcases enter_deepest he with hold | ⟨hd, hnew⟩
        · exact .inl hold
        · exact .inr ⟨_, ⟨hd, _, _, .refl⟩, hnew⟩
      · exact .inr ⟨d, hd.head (.opened he hroom), hnew⟩
  | spent => exact .inl rfl
  | broken hq => exact .inl (by rw [tally_query hq, Tally.tryValue])
  | refused hq _ ih =>
      rcases ih with hold | ⟨d, hd, hnew⟩
      · exact .inl (by rw [hold, tally_query hq, Tally.tryValue])
      · exact .inr ⟨d, hd.head (.refused hq), hnew⟩
  | failed hq _ ih | kept hq _ _ ih | cleared hq _ _ ih =>
      rcases ih with hold | ⟨d, hd, hnew⟩
      · refine .inl (hold.trans ?_)
        rw [Walk.tally_put, tally_query hq, Tally.tryValue]
      · exact .inr ⟨d, hd.head (.accepted hq), hnew⟩
  | undone hq hrun _ ih ih' =>
      rcases ih' with hold | ⟨d, hd, hnew⟩
      · rw [hold, Walk.tally_put]
        rcases ih with hold | ⟨d, hd, hnew⟩
        · refine .inl (hold.trans ?_)
          rw [Walk.tally_put, tally_query hq, Tally.tryValue]
        · exact .inr ⟨d, hd.head (.accepted hq), hnew⟩
      · exact .inr ⟨d, hd.head (.undone hq hrun), hnew⟩

theorem exists_deepest (p : Plan σ ρ ε) (w : Walk σ ρ) :
    ∃ d, IsGreatest {d | w.start.Enters p d} d := by
  have hfirst : w.start.Enters p 0 := ⟨Nat.zero_le _, _, w, .refl⟩
  have hbound : BddAbove {d | w.start.Enters p d} := ⟨p.conditions.depthLimit, fun d hd => hd.1⟩
  exact hbound.exists_isGreatest_of_nonempty ⟨0, hfirst⟩

/-- After a search the greatest depth is that of the deepest frame it entered, or
what it was before if that is greater. -/
theorem run_deepest {d : Nat} (hd : IsGreatest {d | w.start.Enters p d} d) :
    (run p w).2.tally.maxDepth = max w.tally.maxDepth d := by
  have hrun : Runs p w.start.job w.start.depth w.start.walk (run p w) := runs_explore p _ 0 w
  have hold : w.tally.maxDepth ≤ (run p w).2.tally.maxDepth := hrun.along (along_maxDepth p)
  have hdeep : d ≤ (run p w).2.tally.maxDepth := hrun.enters_le hd.1
  rcases hrun.deepest with hsame | ⟨d', hd', hnew⟩
  · have hsame : (run p w).2.tally.maxDepth = w.tally.maxDepth := hsame
    omega
  · have hle : d' ≤ d := hd.2 hd'
    omega

end

end GridFill.Search
