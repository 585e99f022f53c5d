/-
# `GridFill.Proofs.Puzzle.Written` — headers, rows and boards that were written

The reader of a puzzle file looks at its lines word by word, so what a line is read
as depends on its words alone.  For each part of a file there is one lemma: a header
line with the words of a header is read as that header (`Header.parse_words`), a
board line with the words of a row as that row (`parseRow_words`), and lines grouped
by lines without words fall into the groups they came from (`boardLines_words`).
-/
import GridFill.Proofs.Puzzle.Gap
import GridFill.Proofs.Text.Numeral

namespace GridFill

open Text

/-! ## Headers

The words of a header are numerals, a name, and perhaps a box, and none of them can
be taken for another. -/

namespace Header

/-- A box as a word of a header. -/
def showBox (b : Box) : String :=
  toString b.height ++ "x" ++ toString b.width

/-- The words of a header. -/
def shown (h : Header) : List String :=
  [toString h.height, toString h.width, toString h.maxValue, h.rules.name] ++
    h.box.toList.map showBox

/-- A header whose numbers can be written. -/
structure Writable (h : Header) : Prop where
  height : Text.Writable h.height
  width : Text.Writable h.width
  maxValue : Text.Writable h.maxValue
  box : ∀ b ∈ h.box, Text.Writable b.height ∧ Text.Writable b.width

theorem toList_showBox (b : Box) :
    (showBox b).toList = (toString b.height).toList ++ 'x' :: (toString b.width).toList := by
  unfold showBox
  rw [String.toList_append, String.toList_append, List.append_assoc]
  rfl

theorem box?_showBox {b : Box} (hheight : Text.Writable b.height) (hwidth : Text.Writable b.width) :
    box? (showBox b).toList = some b := by
  have hsides (v : Int) : ∀ c ∈ (toString v).toList, (c = 'x' || c = 'X') = false := by
    intro c hc
    rcases mem_toString hc with rfl | hc
    · rfl
    · have hlower : c ≠ 'x' := ne_of_isDigit (by decide) hc
      have hupper : c ≠ 'X' := ne_of_isDigit (by decide) hc
      simp [hlower, hupper]
  unfold box?
  rw [toList_showBox, List.splitOnP_append_cons_of_forall_mem (hsides _) 'x' rfl,
    List.splitOnP_eq_singleton (hsides _)]
  dsimp only
  rw [integer?_toString hheight, integer?_toString hwidth]
  rfl

theorem isWord_showBox (b : Box) : IsWord (showBox b).toList := by
  rw [toList_showBox]
  constructor
  · exact List.append_ne_nil_of_right_ne_nil _ (List.cons_ne_nil _ _)
  · intro c hc
    rcases List.mem_append.mp hc with hc | hc
    · exact (isWord_toString _).2 c hc
    · rcases List.mem_cons.mp hc with rfl | hc
      · rfl
      · exact (isWord_toString _).2 c hc

theorem isWord_name (r : Rules) : IsWord r.name.toList := by
  cases r <;> exact isWord_of_test rfl

theorem isWord_of_mem_shown {h : Header} {w : String} (hw : w ∈ h.shown) : IsWord w.toList := by
  rcases List.mem_append.mp hw with hw | hw
  · simp only [List.mem_cons, List.not_mem_nil, or_false] at hw
    rcases hw with rfl | rfl | rfl | rfl
    · exact isWord_toString _
    · exact isWord_toString _
    · exact isWord_toString _
    · exact isWord_name _
  · obtain ⟨b, -, rfl⟩ := List.mem_map.mp hw
    exact isWord_showBox b

theorem words?_shown {h : Header} (hh : h.Writable) : words? (h.shown.map String.toList) =
    some (h.height, h.width, h.maxValue, h.rules.name, h.box) := by
  unfold shown
  cases hbox : h.box with
  | none =>
      simp [words?, -Int.toString_eq_repr, integer?_toString hh.height, integer?_toString hh.width,
        integer?_toString hh.maxValue]
  | some b =>
      obtain ⟨hheight, hwidth⟩ := hh.box b hbox
      simp [words?, -Int.toString_eq_repr, integer?_toString hh.height, integer?_toString hh.width,
        integer?_toString hh.maxValue, box?_showBox hheight hwidth]

theorem ofName?_name (r : Rules) : Rules.ofName? r.name = some r := by
  cases r <;> rfl

/-- A line with the words of a header is read as the header. -/
theorem parse_words {h : Header} (hh : h.Writable) {line : List Char}
    (hline : words line = h.shown.map String.toList) : parse line = .ok h := by
  unfold parse
  rw [hline, words?_shown hh]
  dsimp only
  rw [ofName?_name]

end Header

namespace Puzzle

/-! ## Rows

A row is written with a point for an empty cell and a numeral for every other, and
each word is read for itself. -/

/-- The words of a row. -/
def shownRow (r : List Int) : List (List Char) :=
  r.map fun v => (Board.showValue (Board.entry (some v))).toList

theorem toList_gridText (p : Puzzle) : p.gridText.toList =
    ['\n'].intercalate (p.rows.map fun r => [' '].intercalate (shownRow r)) := by
  unfold gridText shownRow
  simp [Function.comp_def]

theorem showValue_entry (v : Int) :
    Board.showValue (Board.entry (some v)) = if v = 0 then "." else toString v := by
  unfold Board.entry
  by_cases hv : v = 0
  · rw [if_pos hv, hv]
    rfl
  · rw [if_neg hv, if_neg (by simpa using hv)]
    rfl

theorem isWord_of_mem_shownRow {r : List Int} {w : List Char} (hw : w ∈ shownRow r) :
    IsWord w := by
  obtain ⟨v, -, rfl⟩ := List.mem_map.mp hw
  rw [showValue_entry]
  split
  · exact isWord_of_test rfl
  · exact isWord_toString v

theorem entry?_showValue {v : Int} (hv : Writable v) :
    entry? (Board.showValue (Board.entry (some v))).toList = some v := by
  rw [showValue_entry]
  unfold entry?
  by_cases h0 : v = 0
  · rw [if_pos h0, h0]
    rfl
  · have hpoint : (toString v).toList ≠ ['.'] := by
      intro heq
      have hmem : '.' ∈ (toString v).toList := by
        rw [heq]
        exact List.mem_singleton_self _
      rcases mem_toString hmem with h | h
      · exact absurd h (by decide)
      · exact absurd h (by decide)
    rw [if_neg h0, if_neg hpoint, integer?_toString hv]

theorem mapM_entry? {r : List Int} (hr : ∀ v ∈ r, Writable v) :
    (shownRow r).mapM entry? = some r := by
  induction r with
  | nil => rfl
  | cons v r ih =>
      have hrest := ih fun u hu => hr u (List.mem_cons_of_mem _ hu)
      unfold shownRow at hrest ⊢
      rw [List.map_cons, List.mapM_cons, entry?_showValue (hr v List.mem_cons_self), hrest]
      rfl

/-- A line with the words of a row is read as the row. -/
theorem parseRow_words {r : List Int} (hr : ∀ v ∈ r, Writable v) {line : List Char}
    (hline : words line = shownRow r) : parseRow line = .ok r := by
  unfold parseRow
  rw [hline, mapM_entry? hr]

theorem readAs_words {rows : List (List Int)} (hrows : ∀ r ∈ rows, ∀ v ∈ r, Writable v)
    {ls : List (List Char)} (hls : ls.map words = rows.map shownRow) : ReadAs ls rows := by
  induction rows generalizing ls with
  | nil =>
      rw [List.map_eq_nil_iff.mp hls]
      exact .nil
  | cons r rows ih =>
      obtain ⟨l, ls, rfl, hl, hls⟩ := List.map_eq_cons_iff.mp hls
      exact .cons (parseRow_words (hrows r List.mem_cons_self) hl)
        (ih (fun q hq => hrows q (List.mem_cons_of_mem _ hq)) hls)

/-! ## Boards

A line without words closes a board, and so does the end of the file. -/

theorem boardLines_append {b board ls : List (List Char)} (hb : ∀ l ∈ b, words l ≠ []) :
    boardLines board (b ++ ls) = boardLines (b.reverse ++ board) ls := by
  induction b generalizing board with
  | nil => rfl
  | cons l b ih =>
      have hl : ¬ isBlankLine l = true := words_eq_nil_iff.not.mp (hb l List.mem_cons_self)
      have hrest : boardLines (l :: board) (b ++ ls) = boardLines (b.reverse ++ l :: board) ls :=
        ih fun m hm => hb m (List.mem_cons_of_mem _ hm)
      rw [List.cons_append, boardLines, if_neg hl, hrest, List.reverse_cons, List.append_assoc]
      rfl

theorem boardLines_last {b : List (List Char)} (hne : b ≠ []) (hb : ∀ l ∈ b, words l ≠ []) :
    boardLines [] b = [b] := by
  have happend : boardLines [] (b ++ []) = boardLines (b.reverse ++ []) [] :=
    boardLines_append hb
  rw [List.append_nil, List.append_nil] at happend
  have hopen : b.reverse.isEmpty = false := by simpa using hne
  rw [happend, boardLines, hopen, List.reverse_reverse]
  rfl

theorem boardLines_closed {b ls : List (List Char)} {l : List Char} (hne : b ≠ [])
    (hb : ∀ l ∈ b, words l ≠ []) (hl : words l = []) :
    boardLines [] (b ++ l :: ls) = b :: boardLines [] ls := by
  have hopen : b.reverse.isEmpty = false := by simpa using hne
  rw [boardLines_append hb, List.append_nil, boardLines, if_pos (words_eq_nil_iff.mp hl), hopen,
    if_neg Bool.false_ne_true, List.reverse_reverse]

/-- Boards with a line without words between any two of them are told apart. -/
theorem boardLines_words {bs : List (List (List (List Char)))}
    (hbs : ∀ b ∈ bs, b ≠ [] ∧ ∀ ws ∈ b, ws ≠ []) {ls : List (List Char)}
    (hls : ls.map words = [[]].intercalate bs) :
    (boardLines [] ls).map (·.map words) = bs := by
  induction bs generalizing ls with
  | nil =>
      rw [List.map_eq_nil_iff.mp hls]
      rfl
  | cons b bs ih =>
      obtain ⟨hne, hwords⟩ := hbs b List.mem_cons_self
      -- the lines with the words of the first board make up a board
      have hboard {c : List (List Char)} (hc : c.map words = b) :
          c ≠ [] ∧ ∀ l ∈ c, words l ≠ [] := by
        subst hc
        exact ⟨List.map_eq_nil_iff.not.mp hne, fun l hl => hwords _ (List.mem_map_of_mem hl)⟩
      cases bs with
      | nil =>
          rw [List.intercalate_singleton] at hls
          obtain ⟨hlsne, hlswords⟩ := hboard hls
          rw [boardLines_last hlsne hlswords, List.map_singleton, hls]
      | cons b' bs =>
          rw [List.intercalate_cons_cons, List.append_assoc, List.singleton_append] at hls
          obtain ⟨c, rest, rfl, hc, hrest⟩ := List.map_eq_append_iff.mp hls
          obtain ⟨l, rest, rfl, hl, hrest⟩ := List.map_eq_cons_iff.mp hrest
          obtain ⟨hcne, hcwords⟩ := hboard hc
          have hothers := ih (fun d hd => hbs d (List.mem_cons_of_mem _ hd)) hrest
          rw [boardLines_closed hcne hcwords hl, List.map_cons, hothers, hc]

end Puzzle

end GridFill
