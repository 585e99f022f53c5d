/-
# `GridFill.Proofs.Text.Word` — words and lines of a joined text

Reading undoes joining.  Words joined by spaces are found again
(`words_intercalate`), blanks at the ends of a text are no part of any word
(`words_trim`), and lines joined by line ends have the words they had before,
whichever line end was used and whether or not the last line has one
(`words_lines`, `words_lines_last`).

The blank lines are those without a word (`words_eq_nil_iff`).  So whatever reads
only the words of its lines need not know how the lines end.
-/
import GridFill.Text.Basic

namespace GridFill.Text

variable {s t w : List Char} {c : Char}

/-! ## Words

A word ends at a blank, so blanks can be put in front of a text, behind it and
between its words without changing one. -/

/-- A text that is a single word. -/
def IsWord (w : List Char) : Prop :=
  w ≠ [] ∧ ∀ c ∈ w, isBlank c = false

theorem isWord_of_test (h : (!w.isEmpty && w.all fun c => !isBlank c) = true) : IsWord w := by
  simpa [IsWord] using h

theorem words_append_cons (hc : isBlank c = true) : words (s ++ c :: t) = words s ++ words t := by
  unfold words
  rw [List.splitOnP_append_cons s t hc, List.filter_append]

theorem words_cons (hc : isBlank c = true) : words (c :: t) = words t :=
  words_append_cons (s := []) hc

theorem IsWord.words (h : IsWord w) : words w = [w] := by
  unfold Text.words
  rw [List.splitOnP_eq_singleton h.2]
  exact List.filter_cons_of_pos (by simpa using h.1)

theorem words_eq_nil_iff : words s = [] ↔ isBlankLine s = true := by
  induction s with
  | nil => exact ⟨fun _ => rfl, fun _ => rfl⟩
  | cons c s ih =>
      show _ ↔ (isBlank c && isBlankLine s) = true
      cases hc : isBlank c with
      | true => rw [words_cons hc, ih, Bool.true_and]
      | false =>
          -- a word begins at `c`, whatever follows
          obtain ⟨head, rest, hsplit⟩ :=
            List.exists_cons_of_ne_nil (List.splitOnP_ne_nil isBlank s)
          have hword : words (c :: s) ≠ [] := by
            unfold words
            rw [List.splitOnP_cons_eq_if_modifyHead, hc, hsplit]
            simp
          simp [hword]

theorem words_blank_append (hs : isBlankLine s = true) : words (s ++ t) = words t := by
  induction s with
  | nil => rfl
  | cons c s ih =>
      obtain ⟨hc, hs⟩ := Bool.and_eq_true_iff.mp hs
      rw [List.cons_append, words_cons hc, ih hs]

theorem words_append_blank (ht : isBlankLine t = true) : words (s ++ t) = words s := by
  cases t with
  | nil => rw [List.append_nil]
  | cons c t =>
      obtain ⟨hc, ht⟩ := Bool.and_eq_true_iff.mp ht
      rw [words_append_cons hc, words_eq_nil_iff.mpr ht, List.append_nil]

theorem words_trim : words (trim s) = words s := by
  have hblank (l : List Char) : isBlankLine (l.takeWhile isBlank) = true := List.all_takeWhile
  have hfront (l : List Char) : words (l.dropWhile isBlank) = words l := by
    have h := words_blank_append (t := l.dropWhile isBlank) (hblank l)
    rw [List.takeWhile_append_dropWhile] at h
    exact h.symm
  unfold trim
  rw [← hfront s]
  generalize s.dropWhile isBlank = l
  have hback : isBlankLine (l.reverse.takeWhile isBlank).reverse = true := by
    unfold isBlankLine
    rw [List.all_reverse]
    exact hblank _
  rw [← words_append_blank hback, ← List.reverse_append, List.takeWhile_append_dropWhile,
    List.reverse_reverse]

theorem IsWord.trim (h : IsWord w) : trim w = w := by
  have hkeep (l : List Char) (hl : ∀ c ∈ l, isBlank c = false) : l.dropWhile isBlank = l := by
    cases l with
    | nil => rfl
    | cons c l => exact List.dropWhile_cons_of_neg (by simp [hl c List.mem_cons_self])
  unfold Text.trim
  rw [hkeep w h.2, hkeep _ (by simpa using h.2), List.reverse_reverse]

/-- Words joined by spaces are the words of the text. -/
theorem words_intercalate {ws : List (List Char)} (h : ∀ w ∈ ws, IsWord w) :
    words ([' '].intercalate ws) = ws := by
  induction ws with
  | nil => rfl
  | cons w ws ih =>
      have hw := (h w List.mem_cons_self).words
      have hrest := ih fun v hv => h v (List.mem_cons_of_mem _ hv)
      cases ws with
      | nil => rw [List.intercalate_singleton, hw]
      | cons v ws =>
          rw [List.intercalate_cons_cons, List.append_assoc, List.singleton_append,
            words_append_cons rfl, hw, hrest]
          rfl

theorem not_mem_intercalate {sep : List Char} {ls : List (List Char)} (hsep : c ∉ sep)
    (hls : ∀ l ∈ ls, c ∉ l) : c ∉ sep.intercalate ls := by
  induction ls with
  | nil => exact List.not_mem_nil
  | cons l ls ih =>
      have hl := hls l List.mem_cons_self
      have hrest := ih fun m hm => hls m (List.mem_cons_of_mem _ hm)
      cases ls with
      | nil => rwa [List.intercalate_singleton]
      | cons m ls => simp [List.intercalate_cons_cons, hl, hsep, hrest]

theorem not_mem_intercalate_words {ws : List (List Char)} (h : ∀ w ∈ ws, IsWord w)
    (hc : isBlank c = true) (hspace : c ≠ ' ') : c ∉ [' '].intercalate ws := by
  apply not_mem_intercalate (by simpa using hspace)
  intro w hw hmem
  rw [(h w hw).2 c hmem] at hc
  cases hc

/-! ## Lines

The reader takes every line end for the same, and a last line need not have one.
Lines may therefore be read one after the other (`words_line`). -/

/-- The ends a line may be written with. -/
inductive LineEnd where
  | lf
  | crlf
deriving DecidableEq

namespace LineEnd

/-- The characters of a line end. -/
def chars : LineEnd → List Char
  | lf => ['\n']
  | crlf => ['\r', '\n']

/-- A text with its line feeds written as another line end. -/
def write (e : LineEnd) (s : List Char) : List Char :=
  s.flatMap fun c => if c = '\n' then e.chars else [c]

end LineEnd

theorem unifyEnds_write (e : LineEnd) (hs : '\r' ∉ s) : unifyEnds (e.write s) = s := by
  induction s with
  | nil => rfl
  | cons c s ih =>
      rw [List.mem_cons, not_or] at hs
      have hrest := ih hs.2
      unfold LineEnd.write at hrest ⊢
      rw [List.flatMap_cons]
      by_cases hc : c = '\n'
      · subst hc
        cases e with
        | lf => exact congrArg ('\n' :: ·) hrest
        | crlf => exact congrArg ('\n' :: ·) hrest
      · rw [if_neg hc, List.singleton_append, unifyEnds]
        · rw [hrest]
        · rintro s' rfl
          exact absurd rfl hs.1
        · rintro rfl
          exact absurd rfl hs.1

theorem linesFrom_append_cons {line l : List Char} (hl : '\n' ∉ l) :
    linesFrom line (l ++ '\n' :: t) = (line.reverse ++ l ++ ['\n']) :: linesFrom [] t := by
  induction l generalizing line with
  | nil => simp [linesFrom]
  | cons c l ih =>
      rw [List.mem_cons, not_or] at hl
      rw [List.cons_append, linesFrom, if_neg (Ne.symm hl.1), ih hl.2]
      simp

theorem linesFrom_last {line l : List Char} (hl : '\n' ∉ l) (hne : line ≠ [] ∨ l ≠ []) :
    linesFrom line l = [line.reverse ++ l] := by
  induction l generalizing line with
  | nil =>
      have hline : line ≠ [] := hne.resolve_right fun h => h rfl
      simp [linesFrom, hline]
  | cons c l ih =>
      rw [List.mem_cons, not_or] at hl
      rw [linesFrom, if_neg (Ne.symm hl.1), ih hl.2 (.inl (List.cons_ne_nil _ _))]
      simp

theorem words_line {l : List Char} (hl : '\n' ∉ l) :
    (linesFrom [] (l ++ '\n' :: t)).map words = words l :: (linesFrom [] t).map words := by
  have hword : words (l ++ ['\n']) = words l := words_append_blank rfl
  rw [linesFrom_append_cons hl, List.map_cons, List.reverse_nil, List.nil_append, hword]

/-- Lines that are followed by more text. -/
theorem words_lines {ls : List (List Char)} (hls : ∀ l ∈ ls, '\n' ∉ l) (hne : ls ≠ []) :
    (linesFrom [] (['\n'].intercalate ls ++ '\n' :: t)).map words =
      ls.map words ++ (linesFrom [] t).map words := by
  induction ls with
  | nil => exact absurd rfl hne
  | cons l ls ih =>
      have hl := hls l List.mem_cons_self
      cases ls with
      | nil =>
          rw [List.intercalate_singleton, words_line hl]
          rfl
      | cons l' ls =>
          have hrest := ih (fun m hm => hls m (List.mem_cons_of_mem _ hm)) (List.cons_ne_nil _ _)
          rw [List.intercalate_cons_cons, List.append_assoc, List.append_assoc,
            List.singleton_append, words_line hl, hrest]
          rfl

/-- The last lines of a text, whether or not it is closed by a line end. -/
theorem words_lines_last {ls : List (List Char)} (hls : ∀ l ∈ ls, '\n' ∉ l ∧ l ≠ [])
    (hne : ls ≠ []) (closed : Bool) :
    (linesFrom [] (['\n'].intercalate ls ++ if closed then ['\n'] else [])).map words =
      ls.map words := by
  cases closed with
  | true =>
      rw [if_pos rfl, words_lines (fun l hl => (hls l hl).1) hne]
      exact List.append_nil _
  | false =>
      rw [if_neg Bool.false_ne_true, List.append_nil]
      induction ls with
      | nil => exact absurd rfl hne
      | cons l ls ih =>
          obtain ⟨hl, hlne⟩ := hls l List.mem_cons_self
          cases ls with
          | nil =>
              rw [List.intercalate_singleton, linesFrom_last hl (.inr hlne)]
              rfl
          | cons l' ls =>
              have hrest := ih (fun m hm => hls m (List.mem_cons_of_mem _ hm))
                (List.cons_ne_nil _ _)
              rw [List.intercalate_cons_cons, List.append_assoc, List.singleton_append,
                words_line hl, hrest]
              rfl

theorem words_groups {gs : List (List (List Char))}
    (hgs : ∀ g ∈ gs, g ≠ [] ∧ ∀ l ∈ g, '\n' ∉ l ∧ l ≠ []) (hne : gs ≠ []) (closed : Bool) :
    (linesFrom [] (['\n', '\n'].intercalate (gs.map ['\n'].intercalate) ++
      if closed then ['\n'] else [])).map words = [[]].intercalate (gs.map (·.map words)) := by
  induction gs with
  | nil => exact absurd rfl hne
  | cons g gs ih =>
      obtain ⟨hgne, hg⟩ := hgs g List.mem_cons_self
      cases gs with
      | nil =>
          rw [List.map_singleton, List.map_singleton, List.intercalate_singleton,
            List.intercalate_singleton]
          exact words_lines_last hg hgne closed
      | cons g' gs =>
          have hrest := ih (fun m hm => hgs m (List.mem_cons_of_mem _ hm)) (List.cons_ne_nil _ _)
          have hgap (t : List Char) : (linesFrom [] ('\n' :: t)).map words =
              [] :: (linesFrom [] t).map words :=
            words_line (l := []) List.not_mem_nil
          simp only [List.map_cons, List.intercalate_cons_cons, List.append_assoc,
            List.cons_append, List.nil_append] at hrest ⊢
          rw [words_lines (fun l hl => (hg l hl).1) hgne, hgap, hrest]

end GridFill.Text
