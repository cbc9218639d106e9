import TreeExport.Proofs.Decimal.Padded
import TreeExport.Proofs.Moment.Calendar

/-!
# Moments are read back

`read?_render`: the text of a moment that a clock can show is read as that moment.  The parts of the
text are digits between marks, so each part is read up to the mark behind it.
-/

namespace TreeExport.Moment

open Decimal (padded length_padded isDigit_of_mem_padded ofDigitChars_padded)

/-- A moment that a clock can show: within the years that moments are counted in, and not within a
leap second. -/
structure IsOfClock (moment : Moment) : Prop where
  year : isYear (dateOfDay (moment.seconds.fdiv 86400)).1 = true
  nanoseconds : moment.nanoseconds < 1000000000

/-! ## Digits and marks -/

/-- What follows digits does not go on with them. -/
def EndsDigits (rest : List Char) : Prop :=
  ∀ c ∈ rest.head?, c.isDigit = false

theorem takeWhile_endsDigits {rest : List Char} (ends : EndsDigits rest) (n : Nat) :
    (rest.take n).takeWhile (·.isDigit) = [] := by
  cases rest with
  | nil => rw [List.take_nil, List.takeWhile_nil]
  | cons c rest =>
    cases n with
    | zero => rfl
    | succ n => rw [List.take_succ_cons, List.takeWhile_cons, ends c rfl]; rfl

theorem foldl_eq_ofDigitChars (ds : List Char) :
    ds.foldl (fun n c => n * 10 + (c.toNat - 48)) 0 = Nat.ofDigitChars 10 ds 0 := by
  rw [Nat.ofDigitChars_eq_foldl]
  congr 1
  funext n c
  rw [Nat.mul_comm]
  rfl

/-- Digits are read up to the greatest width or to what follows them. -/
theorem digits?_append {width : Nat} {ds rest : List Char} (all : ∀ c ∈ ds, c.isDigit = true)
    (some : ds ≠ []) (fits : ds.length ≤ width) (stop : ds.length = width ∨ EndsDigits rest) :
    digits? width (ds ++ rest) = .some (Nat.ofDigitChars 10 ds 0, rest) := by
  have taken : ((ds ++ rest).take width).takeWhile (·.isDigit) = ds := by
    rw [List.take_append, List.take_of_length_le fits, List.takeWhile_append_of_pos all]
    rcases stop with full | ends
    · rw [full, Nat.sub_self, List.take_zero, List.takeWhile_nil, List.append_nil]
    · rw [takeWhile_endsDigits ends, List.append_nil]
  have nonempty : ds.isEmpty = false := List.isEmpty_eq_false_iff.mpr some
  simp only [digits?, taken, nonempty, Bool.false_eq_true, if_false, foldl_eq_ofDigitChars,
    List.drop_left]

theorem isBlank_of_isDigit {c : Char} (digit : c.isDigit = true) : Text.isBlank c = false := by
  simp only [Char.isDigit, Bool.and_eq_true, decide_eq_true_eq, UInt32.le_iff_toNat_le] at digit
  have low : 48 ≤ c.toNat := digit.1
  have high : c.toNat ≤ 57 := digit.2
  simp only [Text.isBlank, Bool.or_eq_false_iff, Bool.and_eq_false_iff, decide_eq_false_iff_not,
    beq_eq_false_iff_ne]
  omega

theorem skipBlanks_cons {c : Char} (solid : Text.isBlank c = false) (rest : List Char) :
    skipBlanks (c :: rest) = c :: rest := by
  rw [skipBlanks, List.dropWhile_cons_of_neg (by rw [solid]; exact Bool.false_ne_true)]

theorem skipBlanks_append {ds : List Char} (all : ∀ c ∈ ds, c.isDigit = true) (some : ds ≠ [])
    (rest : List Char) : skipBlanks (ds ++ rest) = ds ++ rest := by
  obtain ⟨d, ds, rfl⟩ := List.exists_cons_of_ne_nil some
  exact skipBlanks_cons (isBlank_of_isDigit (all d List.mem_cons_self)) _

/-- A mark that is no blank is read. -/
theorem mark?_cons {c : Char} (solid : Text.isBlank c = false) (rest : List Char) :
    mark? c (c :: rest) = some rest := by
  simp only [mark?, skipBlanks_cons solid, if_true]

theorem padded_ne_nil {width : Nat} (n : Nat) (positive : 0 < width) (fits : n < 10 ^ width) :
    (padded width n).toList ≠ [] := by
  intro nothing
  have length := length_padded positive fits
  rw [nothing, List.length_nil] at length
  omega

/-- A number is read that takes up the width. -/
theorem number?_padded {width n : Nat} (positive : 0 < width) (fits : n < 10 ^ width)
    (rest : List Char) : number? width ((padded width n).toList ++ rest) = some (n, rest) := by
  have all : ∀ c ∈ (padded width n).toList, c.isDigit = true := fun _ => isDigit_of_mem_padded
  have some := padded_ne_nil n positive fits
  have length := length_padded positive fits
  rw [number?, skipBlanks_append all some,
    digits?_append all some (Nat.le_of_eq length) (.inl length), ofDigitChars_padded]

/-! ## The parts of a moment -/

theorem year?_yearText (year : Int) {rest : List Char} (ends : EndsDigits rest) :
    year? ((yearText year).toList ++ rest) = some (year, rest) := by
  unfold yearText
  by_cases negative : year < 0
  · rw [if_pos negative]
    have text : (s!"-{padded 4 year.natAbs}").toList = '-' :: (padded 4 year.natAbs).toList :=
      String.toList_append
    have some : (padded 4 year.natAbs).toList ≠ [] := fun none => by
      have zero := ofDigitChars_padded 4 year.natAbs
      rw [none] at zero
      simp only [Nat.ofDigitChars_nil] at zero
      omega
    rw [text, List.cons_append, year?, skipBlanks_cons (by decide)]
    simp only
    rw [digits?_append (fun _ => isDigit_of_mem_padded) some
      (by rw [List.length_append]; omega) (.inr ends), ofDigitChars_padded]
    simp only [Option.map_some, Option.some.injEq, Prod.mk.injEq, and_true]
    omega
  · rw [if_neg negative]
    obtain ⟨n, rfl⟩ := Int.eq_ofNat_of_zero_le (Int.not_lt.mp negative)
    by_cases long : 9999 < (n : Int)
    · rw [if_pos long]
      have text : (s!"+{(n : Int)}").toList = '+' :: Nat.toDigits 10 n := by
        have digits : (toString (n : Int)).toList = Nat.toDigits 10 n := Nat.toList_repr
        rw [← digits]
        exact String.toList_append
      rw [text, List.cons_append, year?, skipBlanks_cons (by decide)]
      simp only
      rw [digits?_append (fun _ => Nat.isDigit_of_mem_toDigits (by decide) (by decide))
        Nat.toDigits_ne_nil (by rw [List.length_append]; omega) (.inr ends),
        Nat.ofDigitChars_ten_toDigits]
      rfl
    · rw [if_neg long, Int.toNat_natCast]
      have fits : n < 10 ^ 4 := by omega
      have all : ∀ c ∈ (padded 4 n).toList, c.isDigit = true := fun _ => isDigit_of_mem_padded
      have some := padded_ne_nil n (by decide) fits
      have length := length_padded (by decide) fits
      have read := digits?_append all some (Nat.le_of_eq length) (.inr ends)
      rw [ofDigitChars_padded] at read
      -- the first digit is no sign
      obtain ⟨d, ds, same⟩ := List.exists_cons_of_ne_nil some
      have digit : d.isDigit = true := all d (by rw [same]; exact List.mem_cons_self)
      rw [same] at read ⊢
      have minus : d ≠ '-' := fun sign => by rw [sign] at digit; cases digit
      have plus : d ≠ '+' := fun sign => by rw [sign] at digit; cases digit
      rw [year?, List.cons_append, skipBlanks_cons (isBlank_of_isDigit digit)]
      split
      next rest' sign => cases sign; exact absurd rfl minus
      next rest' sign => cases sign; exact absurd rfl plus
      next => rw [← List.cons_append, read]; rfl

theorem takeWhile_append_endsDigits {ds rest : List Char} (all : ∀ c ∈ ds, c.isDigit = true)
    (ends : EndsDigits rest) : (ds ++ rest).takeWhile (·.isDigit) = ds := by
  rw [List.takeWhile_append_of_pos all]
  have none := takeWhile_endsDigits ends rest.length
  rw [List.take_length] at none
  rw [none, List.append_nil]

/-- So many digits of a fraction, with which it is exact, are read as nanoseconds. -/
theorem fraction?_padded {width n : Nat} (positive : 0 < width) (small : width ≤ 9)
    (fits : n < 10 ^ width) {rest : List Char} (ends : EndsDigits rest) :
    fraction? ('.' :: ((padded width n).toList ++ rest)) =
      some (n * 10 ^ (9 - width), rest) := by
  have length := length_padded positive fits
  have nonempty : (padded width n).toList.isEmpty = false :=
    List.isEmpty_eq_false_iff.mpr (padded_ne_nil n positive fits)
  simp only [fraction?]
  rw [takeWhile_append_endsDigits (fun _ => isDigit_of_mem_padded) ends,
    List.take_of_length_le (by omega), nonempty, foldl_eq_ofDigitChars, ofDigitChars_padded,
    List.drop_left, length]
  rfl

theorem fraction?_fractionText {nanoseconds : Nat} (small : nanoseconds < 1000000000)
    {rest : List Char} (ends : EndsDigits rest) (point : rest.head? ≠ some '.') :
    fraction? ((fractionText nanoseconds).toList ++ rest) = some (nanoseconds, rest) := by
  have dotted (width n : Nat) : (s!".{padded width n}").toList = '.' :: (padded width n).toList :=
    String.toList_append
  unfold fractionText
  split
  next zero =>
    subst zero
    show fraction? rest = some (0, rest)
    cases rest with
    | nil => rfl
    | cons c rest =>
      have other : c ≠ '.' := fun same => point (by rw [same]; rfl)
      unfold fraction?
      split
      next digits same => cases same; exact absurd rfl other
      next => rfl
  next =>
    split
    next thousands =>
      rw [dotted, List.cons_append, fraction?_padded (by decide) (by decide) (by omega) ends]
      simp only [Option.some.injEq, Prod.mk.injEq, and_true]
      omega
    next =>
      split
      next thousands =>
        rw [dotted, List.cons_append, fraction?_padded (by decide) (by decide) (by omega) ends]
        simp only [Option.some.injEq, Prod.mk.injEq, and_true]
        omega
      next =>
        rw [dotted, List.cons_append, fraction?_padded (by decide) (by decide) (by omega) ends]
        simp only [Option.some.injEq, Prod.mk.injEq, and_true]
        omega

/-! ## The whole -/

theorem toList_render (moment : Moment) : moment.render.toList =
    let day := moment.seconds.fdiv 86400
    let second := (moment.seconds - day * 86400).toNat
    let leap := moment.nanoseconds / 1000000000
    (yearText (dateOfDay day).1).toList ++ '-' :: ((padded 2 (dateOfDay day).2.1).toList ++
      '-' :: ((padded 2 (dateOfDay day).2.2).toList ++ 'T' :: ((padded 2 (second / 3600)).toList ++
        ':' :: ((padded 2 (second / 60 % 60)).toList ++ ':' ::
          ((padded 2 (second % 60 + leap)).toList ++
            ((fractionText (moment.nanoseconds % 1000000000)).toList ++ ['Z'])))))) := by
  have dash : "-".toList = ['-'] := rfl
  have middle : "T".toList = ['T'] := rfl
  have colon : ":".toList = [':'] := rfl
  have zone : "Z".toList = ['Z'] := rfl
  have text (s : String) : toString s = s := rfl
  simp only [render, text, String.toList_append, List.append_assoc, dash, middle, colon, zone,
    List.cons_append, List.nil_append]

/-- The text of a moment that a clock can show is read as that moment. -/
theorem read?_render {moment : Moment} (shown : moment.IsOfClock) :
    read? moment.render = some moment := by
  obtain ⟨seconds, nanoseconds⟩ := moment
  obtain ⟨inYears, small⟩ := shown
  simp only at inYears small
  obtain ⟨day, sameDay⟩ : ∃ day, day = seconds.fdiv 86400 := ⟨_, rfl⟩
  obtain ⟨second, sameSecond⟩ : ∃ second, second = (seconds - day * 86400).toNat := ⟨_, rfl⟩
  have floor : seconds.fdiv 86400 = seconds / 86400 := Int.fdiv_eq_ediv_of_nonneg _ (by decide)
  have whole : seconds = day * 86400 + second ∧ second < 86400 := by omega
  obtain ⟨monthPos, monthLe, dayPos, dayLe⟩ := isDate_dateOfDay day
  have numbered := dayNumber_dateOfDay day
  have days : (dateOfDay day).2.2 ≤ 31 := by
    refine Nat.le_trans dayLe ?_
    unfold daysInMonth
    repeat' split
    all_goals decide
  have noLeap : nanoseconds / 1000000000 = 0 := Nat.div_eq_of_lt small
  have fraction : nanoseconds % 1000000000 = nanoseconds := Nat.mod_eq_of_lt small
  have two : 0 < 2 := by decide
  have dash : Text.isBlank '-' = false := by decide
  have colon : Text.isBlank ':' = false := by decide
  have ends (c : Char) (rest : List Char) (other : c.isDigit = false) : EndsDigits (c :: rest) :=
    fun _ first => by cases first; exact other
  rw [← sameDay] at inYears
  unfold read?
  rw [toList_render]
  simp only [← sameDay, ← sameSecond, noLeap, fraction, Nat.add_zero]
  simp only [year?_yearText _ (ends '-' _ (by decide)), bind, Option.bind, mark?_cons dash,
    number?_padded two (show (dateOfDay day).2.1 < 10 ^ 2 by omega),
    number?_padded two (show (dateOfDay day).2.2 < 10 ^ 2 by omega)]
  simp only [true_or, if_true, mark?_cons colon,
    number?_padded two (show second / 3600 < 10 ^ 2 by omega),
    number?_padded two (show second / 60 % 60 < 10 ^ 2 by omega),
    number?_padded two (show second % 60 < 10 ^ 2 by omega),
    fraction?_fractionText small (ends 'Z' [] (by decide)) (by decide)]
  have zone : offset? ['Z'] = some (0, []) := by decide
  have least : min (second % 60) 59 = second % 60 := by omega
  have sum : day * 86400 + (second / 3600 : Nat) * 3600 + (second / 60 % 60 : Nat) * 60 +
      (second % 60 : Nat) - 0 = seconds := by omega
  have common : second % 60 ≠ 60 := by omega
  simp only [zone, least, numbered, sum, ← sameDay, inYears, common, if_false, Nat.add_zero]
  rw [if_neg]
  have nothing : (!(skipBlanks []).isEmpty) = false := rfl
  simp only [nothing, Bool.not_true, Bool.false_eq_true, or_false, not_or]
  refine ⟨by omega, by omega, by omega, by omega, by omega, by omega, by omega, by decide⟩

end TreeExport.Moment
