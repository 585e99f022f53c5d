/-
# `GridFill.Proofs.Clock.Reading` — what a clock text says

The digits of a clock text stand in four fields (`Fields`), from which the duration is
read back.  A duration that is not negative, however long, is shown with minutes below
sixty and to the nearest hundredth of a second.  Only doubles of `2 ^ 53` seconds and
more may be shown with other hours, since there the number of hours is itself rounded.

The seconds need not be below sixty.  A duration is split into its fields first and
rounded afterwards, so the last five thousandths of every minute, from 59.995 seconds
on, are shown as `60.00` seconds of the minute that is ending and not as the next
minute (`text_of_nonneg`).
-/
import GridFill.Proofs.Clock.Double
import GridFill.Proofs.Text.Numeral

namespace GridFill.Clock

/-! ## Clock texts

A clock text is given by the digits of its fields, and stands for the duration that
they say. -/

/-- The digits of a clock text, field by field. -/
structure Fields where
  hours : List Char
  minutes : List Char
  seconds : List Char
  places : List Char

/-- The number that digits stand for. -/
def number (ds : List Char) : Nat := Nat.ofDigitChars 10 ds 0

namespace Fields

/-- The clock text with these digits. -/
def chars (f : Fields) : List Char :=
  f.hours ++ ':' :: (f.minutes ++ ':' :: (f.seconds ++ '.' :: f.places))

/-- The seconds with their two places. -/
def secs (f : Fields) : Rat := number f.seconds + number f.places / 100

/-- The duration in seconds. -/
def value (f : Fields) : Rat := number f.hours * 3600 + number f.minutes * 60 + f.secs

/-- Digits in every field: two of them, and only the hours may have more. -/
structure WellFormed (f : Fields) : Prop where
  digits : ∀ c ∈ f.hours ++ f.minutes ++ f.seconds ++ f.places, c.isDigit = true
  hours : 2 ≤ f.hours.length
  minutes : f.minutes.length = 2
  seconds : f.seconds.length = 2
  places : f.places.length = 2

end Fields

/-! ## Filling up with zeros

Zeros in front change neither the number nor the kind of the characters. -/

section

variable (width n : Nat)

theorem toList_padded : (padded width n).toList =
    List.replicate (width - (Nat.toDigits 10 n).length) '0' ++ Nat.toDigits 10 n := by
  have hsign : ¬ (n : Int) < 0 := by omega
  simp [padded, hsign]

theorem number_padded : number (padded width n).toList = n := by
  rw [number, toList_padded, Nat.ofDigitChars_append, Nat.ofDigitChars_replicate_zero,
    Nat.mul_zero, Nat.ofDigitChars_ten_toDigits]

theorem le_length_padded : width ≤ (padded width n).toList.length := by
  rw [toList_padded, List.length_append, List.length_replicate]
  omega

variable {width n}

theorem isDigit_of_mem_padded {c : Char} (hc : c ∈ (padded width n).toList) :
    c.isDigit = true := by
  rw [toList_padded, List.mem_append] at hc
  rcases hc with hc | hc
  · rw [List.eq_of_mem_replicate hc]
    rfl
  · exact Text.isDigit_of_mem_toDigits hc

theorem length_padded (hw : 0 < width) (hn : n < 10 ^ width) :
    (padded width n).toList.length = width := by
  have hdigits := (Nat.length_toDigits_le_iff (by decide) hw).mpr hn
  rw [toList_padded, List.length_append, List.length_replicate]
  omega

end

/-! ## Splitting a duration

Hours and minutes are split off as whole numbers, and what is left is the seconds.
With doubles this is exact for the minutes and the seconds; the hours are rounded
once they are many. -/

/-- The reading splits what a duration has past its whole hours into whole minutes below
sixty and the rest in seconds. -/
structure Splits (r : Reading) (q : Rat) : Prop where
  hours_nonneg : 0 ≤ r.hours
  minutes_nonneg : 0 ≤ r.minutes
  minutes_lt : r.minutes < 60
  seconds_nonneg : 0 ≤ r.seconds
  seconds_lt : r.seconds < 60
  rest : r.minutes * 60 + r.seconds = q - 3600 * (q / 3600).floor

section

variable {q : Rat}

theorem splits_split (hq : 0 ≤ q) : Splits (split divMod q) q := by
  have hhour : (0 : Rat) < 3600 := by norm_num
  have hminute : (0 : Rat) < 60 := by norm_num
  obtain ⟨hlow, hhigh⟩ := divMod_snd_bounds (a := q) hhour
  obtain ⟨hsecs, hsecs'⟩ := divMod_snd_bounds (a := (divMod q 3600).2) hminute
  refine ⟨divMod_fst_nonneg hhour hq, divMod_fst_nonneg hminute hlow,
    divMod_fst_lt hminute (by norm_num; exact hhigh), hsecs, hsecs', ?_⟩
  calc ((split divMod q).minutes * 60 + (split divMod q).seconds : Rat)
      = (divMod q 3600).2 := divMod_sum _ 60
    _ = q - 3600 * (q / 3600).floor := by rw [divMod, mul_comm]

theorem split_double (hq : 0 ≤ q) : split Double.divMod q =
    { split divMod q with hours := (Double.divMod q 3600).1 } := by
  obtain ⟨hlow, hhigh⟩ := divMod_snd_bounds (a := q) (b := 3600) (by norm_num)
  have hrest : (Double.divMod q 3600).2 = (divMod q 3600).2 :=
    Double.divMod_snd hq (by norm_num)
  have hminute := Double.divMod_eq (d := 60) (by decide) hlow (by linarith)
  rw [Nat.cast_ofNat] at hminute
  simp only [split, hrest, hminute]

theorem splits_split_double (hq : 0 ≤ q) : Splits (split Double.divMod q) q := by
  have h := splits_split hq
  rw [split_double hq]
  exact { h with hours_nonneg := Double.divMod_fst_nonneg hq (by norm_num) }

/-- A duration that is not negative is split up, into its own whole hours if its number is
exact or small enough. -/
theorem reading_of_nonneg {s : Seconds} (hs : s = .exact q ∨ s = .double q) (hq : 0 ≤ q) :
    ∃ r, s.reading = .ok r ∧ Splits r q ∧
      (s = .exact q ∨ q < 2 ^ 53 → r.hours = (q / 3600).floor) := by
  rcases hs with rfl | rfl
  · exact ⟨_, rfl, splits_split hq, fun _ => rfl⟩
  · refine ⟨_, rfl, splits_split_double hq, ?_⟩
    rintro (⟨⟨⟩⟩ | hlt)
    have hhour := Double.divMod_eq (d := 3600) (by decide) hq hlt
    rw [Nat.cast_ofNat] at hhour
    rw [split, hhour, divMod]

end

/-! ## Rounding the seconds

Seconds are shown in hundredths, the nearest of them, and this comes after the
splitting. -/

section

variable {q : Rat} (hq : 0 ≤ q)

include hq

theorem cast_num_natAbs : (q.num.natAbs : Rat) = q * q.den := by
  have habs : (q.num.natAbs : Int) = q.num := Int.natAbs_of_nonneg (Rat.num_nonneg.mpr hq)
  calc (q.num.natAbs : Rat) = ((q.num.natAbs : Int) : Rat) := (Int.cast_natCast _).symm
    _ = q.num := by rw [habs]
    _ = q * q.den := (Rat.mul_den_eq_num q).symm

theorem abs_hundredths_sub_le : |(hundredths q : Rat) / 100 - q| ≤ 1 / 200 := by
  have hden : (0 : Rat) < q.den := Nat.cast_pos.mpr q.den_pos
  have hn := cast_num_natAbs hq
  obtain ⟨hlow, hhigh⟩ := Double.divNearest_bounds (n := 100 * q.num.natAbs) q.den_pos
  have hlow : 2 * hundredths q * q.den ≤ (200 * q + 1) * q.den := by
    have hcast : (2 * (hundredths q * q.den) : Rat) ≤ 2 * (100 * q.num.natAbs) + q.den := by
      exact_mod_cast hlow
    linarith
  have hhigh : (200 * q - 1) * q.den ≤ 2 * hundredths q * q.den := by
    have hcast : (2 * (100 * q.num.natAbs) : Rat) ≤ 2 * (hundredths q * q.den) + q.den := by
      exact_mod_cast hhigh
    linarith
  have hlow := le_of_mul_le_mul_right hlow hden
  have hhigh := le_of_mul_le_mul_right hhigh hden
  rw [abs_le]
  constructor <;> linarith

theorem hundredths_le_iff {k : Nat} (hk : k % 2 = 1) :
    hundredths q ≤ k ↔ q < (2 * k + 1) / 200 := by
  have hden : (0 : Rat) < q.den := Nat.cast_pos.mpr q.den_pos
  have hcast : 2 * (100 * q.num.natAbs) < 2 * (k * q.den) + q.den ↔
      q * 200 * q.den < (2 * k + 1) * q.den := by
    have hn := cast_num_natAbs hq
    rw [← Nat.cast_lt (α := Rat)]
    push_cast
    rw [hn]
    constructor <;> intro h <;> linarith
  rw [hundredths, Double.divNearest_le_iff q.den_pos hk, hcast, mul_lt_mul_iff_left₀ hden,
    lt_div_iff₀ (by norm_num)]

end

/-! ## The text of a reading

The digits of the text stand for the parts of the duration, the seconds for their
hundredths.  Only the rounding of the seconds comes between the text and the
duration, as long as the hours are its own. -/

/-- The digits that a reading is written with. -/
def Reading.fields (r : Reading) : Fields where
  hours := (padded 2 r.hours).toList
  minutes := (padded 2 r.minutes).toList
  seconds := (padded 2 (hundredths r.seconds / 100 : Nat)).toList
  places := (padded 2 (hundredths r.seconds % 100 : Nat)).toList

theorem toList_text (r : Reading) : r.text.toList = r.fields.chars := by
  have hshown (t : String) : toString t = t := rfl
  have hcolon : ":".toList = [':'] := rfl
  have hpoint : ".".toList = ['.'] := rfl
  simp only [Reading.text, Reading.fields, Fields.chars, hshown, String.toList_append, hcolon,
    hpoint, List.append_assoc, List.cons_append, List.nil_append]

namespace Splits

variable {r : Reading} {q : Rat} (h : Splits r q)

include h

theorem seconds_eq : r.seconds = q - 60 * (q / 60).floor := by
  have hrest := h.rest
  have hfloor : (q / 60).floor = (q / 3600).floor * 60 + r.minutes := by
    refine Int.le_antisymm (Int.le_of_lt_add_one ?_) ?_
    · rw [Rat.floor_lt_iff, div_lt_iff₀ (by norm_num)]
      have := h.seconds_lt
      push_cast
      linarith
    · rw [Rat.le_floor_iff, le_div_iff₀ (by norm_num)]
      have := h.seconds_nonneg
      push_cast
      linarith
  rw [hfloor]
  push_cast
  linarith

theorem hundredths_le : hundredths r.seconds ≤ 6000 := by
  have hnear := (abs_le.mp (abs_hundredths_sub_le h.seconds_nonneg)).2
  have hlt := h.seconds_lt
  have hcast : (hundredths r.seconds : Rat) < (6001 : Nat) := by
    push_cast
    linarith
  exact Nat.lt_succ_iff.mp (Nat.cast_lt.mp hcast)

theorem number_fields : (number r.fields.hours : Int) = r.hours ∧
    (number r.fields.minutes : Int) = r.minutes ∧
    r.fields.secs = (hundredths r.seconds : Rat) / 100 := by
  obtain ⟨hours, hhours⟩ := Int.eq_ofNat_of_zero_le h.hours_nonneg
  obtain ⟨minutes, hminutes⟩ := Int.eq_ofNat_of_zero_le h.minutes_nonneg
  refine ⟨?_, ?_, ?_⟩
  · rw [Reading.fields, hhours, number_padded]
  · rw [Reading.fields, hminutes, number_padded]
  · have hsplit : (100 * (hundredths r.seconds / 100 : Nat) + (hundredths r.seconds % 100 : Nat) :
        Rat) = hundredths r.seconds := by exact_mod_cast Nat.div_add_mod (hundredths r.seconds) 100
    rw [Fields.secs, Reading.fields, number_padded, number_padded]
    linarith

/-- With the whole hours of the duration the digits are off by the rounding of the
seconds. -/
theorem value_sub_eq (hhours : r.hours = (q / 3600).floor) :
    r.fields.value - q = (hundredths r.seconds : Rat) / 100 - r.seconds := by
  obtain ⟨hnumber, hminutes, hsecs⟩ := h.number_fields
  have hrest := h.rest
  have hnumber : (number r.fields.hours : Rat) = (q / 3600).floor := by
    rw [← hhours, ← hnumber, Int.cast_natCast]
  have hminutes : (number r.fields.minutes : Rat) = r.minutes := by
    rw [← hminutes, Int.cast_natCast]
  rw [Fields.value, hsecs, hnumber, hminutes]
  linarith

theorem wellFormed_fields : r.fields.WellFormed := by
  obtain ⟨hours, hhours⟩ := Int.eq_ofNat_of_zero_le h.hours_nonneg
  obtain ⟨minutes, hminutes⟩ := Int.eq_ofNat_of_zero_le h.minutes_nonneg
  have hle := h.hundredths_le
  have hlt := h.minutes_lt
  have hseconds : hundredths r.seconds / 100 < 10 ^ 2 := by omega
  have hplaces : hundredths r.seconds % 100 < 10 ^ 2 := by omega
  have hminute : minutes < 10 ^ 2 := by omega
  constructor
  · intro c hc
    simp only [Reading.fields, hhours, hminutes, List.mem_append] at hc
    rcases hc with ((hc | hc) | hc) | hc
    · exact isDigit_of_mem_padded hc
    · exact isDigit_of_mem_padded hc
    · exact isDigit_of_mem_padded hc
    · exact isDigit_of_mem_padded hc
  · simp only [Reading.fields, hhours]
    exact le_length_padded 2 hours
  · simp only [Reading.fields, hminutes]
    exact length_padded Nat.two_pos hminute
  · simp only [Reading.fields]
    exact length_padded Nat.two_pos hseconds
  · simp only [Reading.fields]
    exact length_padded Nat.two_pos hplaces

end Splits

/-- A duration that is not negative is shown in four fields of digits, with minutes below
sixty, and off by half a hundredth of a second at most unless it is a double of `2 ^ 53`
seconds or more.  The seconds shown are below sixty as long as those that are left after
the whole minutes are below 59.995; after that `60.00` is shown, and the minutes are not
raised. -/
theorem text_of_nonneg (s : Seconds) (q : Rat) (hs : s = .exact q ∨ s = .double q)
    (hq : 0 ≤ q) :
    ∃ (t : String) (f : Fields), text s = .ok t ∧ t.toList = f.chars ∧ f.WellFormed ∧
      number f.minutes < 60 ∧ (s = .exact q ∨ q < 2 ^ 53 → |f.value - q| ≤ 1 / 200) ∧
      (f.secs < 60 ↔ q - 60 * (q / 60).floor < 59.995) ∧ (¬ f.secs < 60 → f.secs = 60) := by
  obtain ⟨r, hread, h, hexact⟩ := reading_of_nonneg hs hq
  obtain ⟨-, hminutes, hsecs⟩ := h.number_fields
  have hbelow : r.fields.secs < 60 ↔ hundredths r.seconds ≤ 5999 := by
    rw [hsecs, div_lt_iff₀ (by norm_num), ← Nat.lt_succ_iff, ← Nat.cast_lt (α := Rat)]
    norm_num
  refine ⟨r.text, r.fields, ?_, toList_text r, h.wellFormed_fields, ?_, ?_, ?_, ?_⟩
  · rw [text, hread]
    rfl
  · have := h.minutes_lt
    omega
  · intro hs
    rw [h.value_sub_eq (hexact hs)]
    exact abs_hundredths_sub_le h.seconds_nonneg
  · rw [hbelow, hundredths_le_iff h.seconds_nonneg (by decide), ← h.seconds_eq]
    norm_num
  · intro hnot
    have hle := h.hundredths_le
    rw [hbelow] at hnot
    have hall : hundredths r.seconds = 6000 := by omega
    rw [hsecs, hall]
    norm_num

/-- The double next to 59.999. -/
def nearlyMinute : Rat := 8444108563831325 / 140737488355328

/-- A thousandth before the full minute sixty seconds are shown. -/
theorem text_of_nonneg_nearlyMinute : 0 ≤ nearlyMinute ∧ nearlyMinute < 2 ^ 53 ∧
    text (.double nearlyMinute) = .ok "00:00:60.00" ∧
    ∃ f : Fields, "00:00:60.00".toList = f.chars ∧ f.WellFormed ∧ f.secs = 60 ∧
      |f.value - nearlyMinute| ≤ 1 / 200 := by
  have hq : 0 ≤ nearlyMinute := by norm_num [nearlyMinute]
  have hlt : nearlyMinute < 2 ^ 53 := by norm_num [nearlyMinute]
  have htext : text (.double nearlyMinute) = .ok "00:00:60.00" := by decide +kernel
  have hfloor : (nearlyMinute / 60).floor = 0 := by decide +kernel
  obtain ⟨t, f, ht, hchars, hf, -, hnear, hbelow, hsixty⟩ :=
    text_of_nonneg (.double nearlyMinute) nearlyMinute (.inr rfl) hq
  obtain rfl : t = "00:00:60.00" := Except.ok.inj (ht.symm.trans htext)
  refine ⟨hq, hlt, htext, f, hchars, hf, hsixty fun h => ?_, hnear (.inr hlt)⟩
  rw [hbelow, hfloor] at h
  norm_num [nearlyMinute] at h

end GridFill.Clock
