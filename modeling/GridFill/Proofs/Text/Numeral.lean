/-
# `GridFill.Proofs.Text.Numeral` — reading the numerals that are written

A number written in decimal is a word (`isWord_toString`) made of a sign, perhaps,
and digits, and reading the word gives the number back (`integer?_toString`).  That
needs a bound: a numeral of more than `maxDigits` digits is refused, so only numbers
that take no more of them can be written (`Writable`).

What is written may have a limit of its own.  A check lets numbers pass if all of them
fit it (`checkDigits_eq_ok_iff`), and the only fault it knows is that one does not.
-/
import GridFill.Text.Numeral
import GridFill.Proofs.Text.Word

namespace GridFill.Text

variable {c : Char} {s : List Char} {n : Nat} {v : Int}

/-- A number with no more digits than may be read. -/
def Writable (v : Int) : Prop := (Nat.toDigits 10 v.natAbs).length ≤ maxDigits

theorem Writable.of_natAbs_le {u : Int} (hv : Writable v) (h : u.natAbs ≤ v.natAbs) :
    Writable u := by
  unfold Writable at hv ⊢
  rw [Nat.length_toDigits_le_iff (by decide) (by decide)] at hv ⊢
  exact Nat.lt_of_le_of_lt h hv

/-! ## Limits on what is written

A check lets numbers pass or fails in one way only, and which of the two is told by
their digits. -/

/-- A number with no more digits than a limit allows, if there is one. -/
def Fits (limit : Option Nat) (v : Int) : Prop := ∀ most, limit = some most → digitCount v ≤ most

theorem fits_none (v : Int) : Fits none v := fun _ h => nomatch h

theorem fits_some {most : Nat} : Fits (some most) v ↔ digitCount v ≤ most :=
  ⟨fun h => h most rfl, fun h _ hm => Option.some.inj hm ▸ h⟩

theorem checkDigits_eq_ok_iff {limit : Option Nat} {ns : List Int} :
    checkDigits limit ns = .ok () ↔ ∀ n ∈ ns, Fits limit n := by
  cases limit with
  | none => exact iff_of_true rfl fun n _ => fits_none n
  | some most =>
      simp only [fits_some, checkDigits]
      split
      next hall => simpa using hall
      next hall => simpa using hall

theorem checkDigits_eq_error {limit : Option Nat} {ns : List Int} {f : Fault}
    (h : checkDigits limit ns = .error f) :
    ∃ most, limit = some most ∧ f = .digitCount most ∧ ∃ n ∈ ns, most < digitCount n := by
  cases limit with
  | none => cases h
  | some most =>
      simp only [checkDigits] at h
      split at h
      next => cases h
      next hall =>
        cases h
        rw [Bool.not_eq_true, List.all_eq_false] at hall
        obtain ⟨n, hn, hlt⟩ := hall
        exact ⟨most, rfl, rfl, n, hn, Nat.lt_of_not_le (by simpa using hlt)⟩

theorem checkDigits_some_eq_error {most : Nat} {ns : List Int} {f : Fault}
    (h : checkDigits (some most) ns = .error f) : f = .digitCount most := by
  obtain ⟨most', hmost, rfl, -⟩ := checkDigits_eq_error h
  cases hmost
  rfl

theorem checkDigits_of_lt {most : Nat} {ns : List Int} {u : Int} (hu : u ∈ ns)
    (h : most < digitCount u) : checkDigits (some most) ns = .error (.digitCount most) := by
  rcases hcheck : checkDigits (some most) ns with f | _
  · rw [checkDigits_some_eq_error hcheck]
  · exact absurd (fits_some.mp (checkDigits_eq_ok_iff.mp hcheck u hu)) (Nat.not_le.mpr h)

/-! ## Digits

The ten digits that numerals are written with are among those of all scripts, and
no blanks. -/

theorem isDigit_bounds (hc : c.isDigit = true) : 48 ≤ c.toNat ∧ c.toNat ≤ 57 := by
  simp only [Char.isDigit, Bool.and_eq_true, decide_eq_true_eq] at hc
  exact ⟨hc.1, hc.2⟩

theorem digit?_of_isDigit (hc : c.isDigit = true) : digit? c = some (c.toNat - '0'.toNat) := by
  obtain ⟨hlow, hhigh⟩ := isDigit_bounds hc
  unfold digit? digitZeros
  rw [List.find?_cons_of_pos (by simp; omega)]
  rfl

theorem isBlank_of_isDigit (hc : c.isDigit = true) : isBlank c = false := by
  obtain ⟨hlow, hhigh⟩ := isDigit_bounds hc
  simp [isBlank]
  omega

theorem ne_of_isDigit {d : Char} (hd : d.isDigit = false) (hc : c.isDigit = true) : c ≠ d := by
  rintro rfl
  rw [hd] at hc
  cases hc

theorem digitsFrom_of_isDigit (hs : ∀ c ∈ s, c.isDigit = true) (value count : Nat) :
    digitsFrom s value count = some (Nat.ofDigitChars 10 s value, count + s.length) := by
  induction s generalizing value count with
  | nil => rw [Nat.ofDigitChars_nil]; rfl
  | cons c s ih =>
      have hc := hs c List.mem_cons_self
      have hrest := ih fun d hd => hs d (List.mem_cons_of_mem _ hd)
      have hunderscore : c ≠ '_' := ne_of_isDigit rfl hc
      rw [digitsFrom, digit?_of_isDigit hc]
      · dsimp only
        rw [hrest, Nat.ofDigitChars_cons, List.length_cons, Nat.add_right_comm, Nat.add_assoc]
      · rintro d s' rfl
        exact absurd rfl hunderscore

/-! ## Natural numbers

Reading goes on from the number so far, as writing puts the digits one behind the
other. -/

theorem isDigit_of_mem_toDigits (hc : c ∈ Nat.toDigits 10 n) : c.isDigit = true :=
  Nat.isDigit_of_mem_toDigits (by decide) (by decide) hc

theorem natural?_of_isDigit (hs : ∀ c ∈ s, c.isDigit = true) (hne : s ≠ [])
    (hlength : s.length ≤ maxDigits) : natural? s = some (Nat.ofDigitChars 10 s 0) := by
  cases s with
  | nil => exact absurd rfl hne
  | cons c s =>
      have hrest : ∀ d ∈ s, d.isDigit = true := fun d hd => hs d (List.mem_cons_of_mem _ hd)
      rw [List.length_cons, Nat.add_comm] at hlength
      rw [natural?, digit?_of_isDigit (hs c List.mem_cons_self), Option.bind_eq_bind,
        Option.bind_some, digitsFrom_of_isDigit hrest, Option.bind_eq_bind, Option.bind_some,
        Nat.ofDigitChars_cons, Nat.mul_zero, Nat.zero_add]
      exact if_pos hlength

theorem natural?_toDigits (hn : (Nat.toDigits 10 n).length ≤ maxDigits) :
    natural? (Nat.toDigits 10 n) = some n := by
  rw [natural?_of_isDigit (fun c => isDigit_of_mem_toDigits) Nat.toDigits_ne_nil hn,
    Nat.ofDigitChars_ten_toDigits]

/-! ## Whole numbers

A numeral is a sign, if the number is negative, and digits; the two cannot be mixed
up. -/

/-- The sign and the digits of a number. -/
theorem toList_toString (v : Int) : (toString v).toList =
    (if 0 ≤ v then [] else ['-']) ++ Nat.toDigits 10 v.natAbs := by
  rw [Int.toString_eq_repr, Int.repr_eq_if]
  by_cases hv : 0 ≤ v
  · rw [if_pos hv, if_pos hv, Nat.toList_repr, List.nil_append, ← Int.toNat_of_nonneg hv]
    rfl
  · have habs : (-v).toNat = v.natAbs := by omega
    rw [if_neg hv, if_neg hv, String.toList_append, Nat.toList_repr, habs]
    rfl

theorem mem_toString (hc : c ∈ (toString v).toList) : c = '-' ∨ c.isDigit = true := by
  rw [toList_toString, List.mem_append] at hc
  rcases hc with hc | hc
  · split at hc
    · cases hc
    · exact .inl (List.mem_singleton.mp hc)
  · exact .inr (isDigit_of_mem_toDigits hc)

theorem isWord_toString (v : Int) : IsWord (toString v).toList := by
  constructor
  · rw [toList_toString]
    exact List.append_ne_nil_of_right_ne_nil _ Nat.toDigits_ne_nil
  · intro c hc
    rcases mem_toString hc with rfl | hc
    · rfl
    · exact isBlank_of_isDigit hc

theorem signed?_of_isDigit (hs : ∀ c ∈ s, c.isDigit = true) :
    signed? s = (natural? s).map Int.ofNat := by
  cases s with
  | nil => rfl
  | cons c s =>
      have hc := hs c List.mem_cons_self
      rw [signed?]
      · rintro s' h
        exact ne_of_isDigit (by decide) hc (List.cons.inj h).1
      · rintro s' h
        exact ne_of_isDigit (by decide) hc (List.cons.inj h).1

/-- Reading a number that was written. -/
theorem integer?_toString (hv : Writable v) : integer? (toString v).toList = some v := by
  unfold integer?
  rw [(isWord_toString v).trim, toList_toString]
  have habs := natural?_toDigits hv
  by_cases hsign : 0 ≤ v
  · rw [if_pos hsign, List.nil_append,
      signed?_of_isDigit fun c => isDigit_of_mem_toDigits, habs]
    exact congrArg some (Int.natAbs_of_nonneg hsign)
  · have hneg : -(v.natAbs : Int) = v := by omega
    rw [if_neg hsign, List.singleton_append, signed?, habs]
    exact congrArg some hneg

end GridFill.Text
