/-
# `GridFill.Proofs.Text.Separated` — items with separators between them

A list of items in which some are followed by a separator (`separated`) is read in two
ways: without the separators, which leaves the items (`filter_separated`), and for
where the separators stand, each by the number of items before it (`marks_separated`).
Nothing more is needed of the two than a test that tells separators from items.

The values of a line with bars between them are one such list, and the lines of a text
with rules between them another.
-/
import GridFill.Proofs.Text.Word

namespace GridFill.Text

variable {α β : Type} {p : α → Bool} {item : Nat → α} {sep a : α} {after : Nat → Bool}
  {l m : List α} {k n : Nat}

/-- The first `n` items, each followed by a separator if that is asked for. -/
def separated (item : Nat → α) (sep : α) (after : Nat → Bool) (n : Nat) : List α :=
  (List.range n).flatMap fun i => item i :: if after i then [sep] else []

/-- For each entry that passes the test how many entries before it do not, counted
from `k`. -/
def marksFrom (p : α → Bool) : Nat → List α → List Nat
  | _, [] => []
  | k, a :: l => if p a then k :: marksFrom p k l else marksFrom p (k + 1) l

/-- For each entry that passes the test how many entries before it do not. -/
def marks (p : α → Bool) (l : List α) : List Nat := marksFrom p 0 l

/-! ## Entries of a separated list

An entry is an item or the separator. -/

theorem separated_succ : separated item sep after (n + 1) =
    separated item sep after n ++ item n :: if after n then [sep] else [] := by
  simp [separated, List.range_succ]

theorem map_separated (f : α → β) :
    (separated item sep after n).map f = separated (f ∘ item) (f sep) after n := by
  unfold separated
  rw [List.map_flatMap]
  congr
  funext i
  cases after i <;> rfl

theorem mem_separated (h : a ∈ separated item sep after n) : (∃ i < n, item i = a) ∨ a = sep := by
  obtain ⟨i, hi, ha⟩ := List.mem_flatMap.mp h
  rcases List.mem_cons.mp ha with rfl | ha
  · exact .inl ⟨i, List.mem_range.mp hi, rfl⟩
  · split at ha
    · exact .inr (List.mem_singleton.mp ha)
    · cases ha

theorem separated_ne_nil (hn : 0 < n) : separated item sep after n ≠ [] := by
  obtain ⟨n, rfl⟩ := Nat.exists_eq_add_one.mpr hn
  rw [separated_succ]
  exact List.append_ne_nil_of_right_ne_nil _ (List.cons_ne_nil _ _)

/-! ## Taking the two apart

A test that tells the separator from the items finds either. -/

theorem marksFrom_append :
    marksFrom p k (l ++ m) = marksFrom p k l ++ marksFrom p (k + l.countP (!p ·)) m := by
  induction l generalizing k with
  | nil => rfl
  | cons a l ih =>
      rw [List.cons_append, marksFrom, marksFrom]
      cases ha : p a with
      | true => simp [ih, ha]
      | false => simp [ih, ha, Nat.add_assoc, Nat.add_comm 1]

section

variable (hsep : p sep = true) (hitem : ∀ i < n, p (item i) = false)

include hsep hitem

/-- Without its separators the list holds the items. -/
theorem filter_separated :
    (separated item sep after n).filter (!p ·) = (List.range n).map item := by
  induction n with
  | zero => rfl
  | succ n ih =>
      have hlast := hitem n (Nat.lt_succ_self n)
      rw [separated_succ, List.filter_append, ih fun i hi => hitem i (Nat.lt_succ_of_lt hi),
        List.range_succ, List.map_append]
      cases after n <;> simp [hsep, hlast]

/-- The separators stand where they were asked for. -/
theorem marks_separated : marks p (separated item sep after n) =
    ((List.range n).filter after).map (· + 1) := by
  induction n with
  | zero => rfl
  | succ n ih =>
      have hfront : ∀ i < n, p (item i) = false := fun i hi => hitem i (Nat.lt_succ_of_lt hi)
      have hlast := hitem n (Nat.lt_succ_self n)
      have hcount : (separated item sep after n).countP (!p ·) = n := by
        rw [List.countP_eq_length_filter, filter_separated hsep hfront, List.length_map,
          List.length_range]
      have hrest := ih hfront
      unfold marks at hrest ⊢
      rw [separated_succ, marksFrom_append, hrest, hcount, List.range_succ, List.filter_append,
        List.map_append]
      cases hn : after n <;> simp [marksFrom, hsep, hlast, hn]

theorem mem_marks_separated :
    k + 1 ∈ marks p (separated item sep after n) ↔ k < n ∧ after k = true := by
  rw [marks_separated hsep hitem]
  simp

end

/-! ## Lines and words

Lines joined by line feeds and words joined by spaces are separated lists of
characters, read back by splitting. -/

/-- The lines of a text. -/
def splitLines (t : String) : List (List Char) := t.toList.splitOn '\n'

theorem splitLines_intercalate {ls : List String} (h : ∀ l ∈ ls, '\n' ∉ l.toList) (hne : ls ≠ []) :
    splitLines ("\n".intercalate ls) = ls.map String.toList := by
  unfold splitLines
  rw [String.toList_intercalate]
  exact List.splitOn_intercalate '\n' (List.forall_mem_map.mpr h) (by simpa using hne)

theorem isBlank_getLast?_intercalate {ws : List (List Char)} (h : ∀ w ∈ ws, IsWord w) :
    ∀ c ∈ ([' '].intercalate ws).getLast?, isBlank c = false := by
  induction ws with
  | nil => simp
  | cons w ws ih =>
      have hw := h w List.mem_cons_self
      have hrest := ih fun v hv => h v (List.mem_cons_of_mem _ hv)
      cases ws with
      | nil =>
          intro c hc
          rw [List.intercalate_singleton] at hc
          exact hw.2 c (List.mem_of_getLast? hc)
      | cons v ws =>
          have hne : [' '].intercalate (v :: ws) ≠ [] := by
            intro hnil
            have hwords := words_intercalate fun u hu => h u (List.mem_cons_of_mem _ hu)
            rw [hnil] at hwords
            cases hwords
          rw [List.intercalate_cons_cons, List.getLast?_append, List.getLast?_eq_some_getLast hne,
            Option.some_or, ← List.getLast?_eq_some_getLast hne]
          exact hrest

section

variable {ws : List String} (h : ∀ w ∈ ws, IsWord w.toList)

include h

theorem words_joined : words (" ".intercalate ws).toList = ws.map String.toList := by
  rw [String.toList_intercalate]
  exact words_intercalate (List.forall_mem_map.mpr h)

theorem newline_notMem_joined : '\n' ∉ (" ".intercalate ws).toList := by
  rw [String.toList_intercalate]
  exact not_mem_intercalate_words (List.forall_mem_map.mpr h) rfl (by decide)

theorem isBlank_getLast?_joined :
    ∀ c ∈ (" ".intercalate ws).toList.getLast?, isBlank c = false := by
  rw [String.toList_intercalate]
  exact isBlank_getLast?_intercalate (List.forall_mem_map.mpr h)

end

end GridFill.Text
