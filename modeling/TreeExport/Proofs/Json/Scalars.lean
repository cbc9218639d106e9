import Mathlib.Data.List.TakeWhile
import TreeExport.Json.Reader
import TreeExport.Json.Text

/-!
# Texts and numerals are read back

Whatever a text holds, its quoted form is scanned as one token, whose pieces stand for the text
(`run?_quote`, `text?_ofText`); what a whole number is written as is scanned as one numeral, whose value
is that number if it has 64 bits (`run?_whole`, `value?_ofInt`).  A word or a numeral is complete when a
character follows that cannot go on with it (`Scanner.Ends`).
-/

namespace TreeExport.Json

/-! ## Texts -/

/-- The piece that a character is written as. -/
def Piece.ofChar (c : Char) : Piece :=
  if c = '\x08' ∨ c = '\x0c' ∨ c = '\n' ∨ c = '\r' ∨ c = '\t' ∨ 0x20 ≤ c.toNat then .char c
  else .unit c.toNat

/-- The pieces that a text is written as. -/
def Piece.ofText (text : String) : List Piece :=
  text.toList.map Piece.ofChar

theorem Piece.join?_map_ofChar (cs : List Char) : Piece.join? (cs.map Piece.ofChar) = some cs := by
  induction cs with
  | nil => rfl
  | cons c cs ih =>
    rw [List.map_cons]
    by_cases plain : c = '\x08' ∨ c = '\x0c' ∨ c = '\n' ∨ c = '\r' ∨ c = '\t' ∨ 0x20 ≤ c.toNat
    · rw [show Piece.ofChar c = .char c from if_pos plain, Piece.join?, ih]
      rfl
    · -- a control is no half of a character
      rw [show Piece.ofChar c = .unit c.toNat from if_neg plain]
      have low : ¬ 0xD800 ≤ c.toNat := by omega
      have lower : ¬ 0xDC00 ≤ c.toNat := by omega
      generalize cs.map Piece.ofChar = pieces at ih
      unfold Piece.join?
      split
      next none => cases none
      next d rest same => cases same
      next high low' rest same =>
        cases same
        simp only [low, lower, false_and, if_false, ih, Option.map_some, Char.ofNat_toNat]
      next n rest other same =>
        cases same
        simp only [low, false_and, if_false, ih, Option.map_some, Char.ofNat_toNat]

/-- A text is read back from the pieces that it is written as. -/
theorem Piece.text?_ofText (text : String) : Piece.text? (Piece.ofText text) = some text := by
  rw [Piece.text?, Piece.ofText, Piece.join?_map_ofChar, Option.map_some, String.ofList_toList]

namespace Scanner

theorem hexValue?_digit {n : Nat} (below : n < 16) : hexValue? (Hex.digit n) = some n := by
  have all : ∀ n : Fin 16, hexValue? (Hex.digit n) = some n.val := by decide
  exact all ⟨n, below⟩

variable (done : List Token) (read : List Piece) (rest : List Char)

/-- What one character is written as is scanned as its piece. -/
theorem run?_escapeChar (c : Char) :
    run? (.text read) done (escapeChar c ++ rest) =
      run? (.text (Piece.ofChar c :: read)) done rest := by
  unfold escapeChar
  split
  next same => subst same; rfl
  next quote =>
    split
    next same => subst same; rfl
    next backslash =>
      split
      next same => subst same; rfl
      next =>
        split
        next same => subst same; rfl
        next =>
          split
          next same => subst same; rfl
          next =>
            split
            next same => subst same; rfl
            next =>
              split
              next same => subst same; rfl
              next =>
                have high := hexValue?_digit (n := c.toNat / 16)
                have low := hexValue?_digit (n := c.toNat % 16) (Nat.mod_lt _ (by decide))
                split
                next control =>
                  have piece : Piece.ofChar c = .unit c.toNat := if_neg (by
                    simp only [not_or]
                    exact ⟨‹_›, ‹_›, ‹_›, ‹_›, ‹_›, by omega⟩)
                  have sum : c.toNat / 16 * 16 + c.toNat % 16 = c.toNat := by omega
                  have zero : hexValue? '0' = some 0 := by decide
                  simp only [List.cons_append, List.nil_append, run?, advance?, high (by omega), low,
                    zero, piece, Option.map_some, Nat.zero_mul, Nat.zero_add, sum, if_false,
                    if_true, Char.reduceEq]
                next plain =>
                  have piece : Piece.ofChar c = .char c :=
                    if_pos (.inr (.inr (.inr (.inr (.inr (Nat.not_lt.mp plain))))))
                  simp only [List.cons_append, List.nil_append, run?, advance?, quote, backslash,
                    plain, if_false, piece]

theorem run?_escapeChars (cs : List Char) :
    run? (.text read) done (cs.flatMap escapeChar ++ rest) =
      run? (.text ((cs.map Piece.ofChar).reverse ++ read)) done rest := by
  induction cs generalizing read with
  | nil => rfl
  | cons c cs ih =>
    rw [List.flatMap_cons, List.append_assoc, run?_escapeChar, ih, List.map_cons,
      List.reverse_cons, List.append_assoc]
    rfl

/-- A quoted text is scanned as one token. -/
theorem run?_quote (text : String) :
    run? .between done (quote text ++ rest) =
      run? .between (.text (Piece.ofText text) :: done) rest := by
  have opens : run? .between done (quote text ++ rest) =
      run? (.text []) done (text.toList.flatMap escapeChar ++ '"' :: rest) := by
    rw [quote, List.append_assoc]
    rfl
  have closes : advance? (.text ((text.toList.map Piece.ofChar).reverse ++ [])) '"' =
      some (.between, [.text (Piece.ofText text)]) := by
    simp only [advance?, if_true, List.append_nil, List.reverse_reverse]
    rfl
  rw [opens, run?_escapeChars, run?, closes]
  rfl

end Scanner

/-! ## Numerals -/

/-- The numeral that a whole number is written as. -/
def Numeral.ofInt (i : Int) : Numeral where
  negative := decide (i < 0)
  whole := (Nat.toDigits 10 i.natAbs).map fun c => c.toNat - 48
  fraction := []
  exponent := none
  broken := false

/-- A whole number is written as its sign, if it is below zero, and the digits of its magnitude. -/
theorem Number.render_whole (i : Int) :
    (Number.whole i).render = (if i < 0 then ['-'] else []) ++ Nat.toDigits 10 i.natAbs := by
  cases i with
  | ofNat n =>
    have positive : ¬ Int.ofNat n < 0 := Int.not_lt.mpr (Int.natCast_nonneg n)
    rw [if_neg positive, Number.render]
    exact Nat.toList_repr
  | negSucc n =>
    rw [if_pos (Int.negSucc_lt_zero n), Number.render]
    change ("-" ++ Nat.repr (n + 1)).toList = _
    rw [String.toList_append, Nat.toList_repr]
    rfl

namespace Numeral

theorem digits?_of_isDigit {cs : List Char} (all : ∀ c ∈ cs, c.isDigit = true) :
    digits? cs = some (cs.map fun c => c.toNat - 48) := by
  induction cs with
  | nil => rfl
  | cons c cs ih =>
    have digit : '0' ≤ c ∧ c ≤ '9' := by
      have first := all c List.mem_cons_self
      simp only [Char.isDigit, Bool.and_eq_true, decide_eq_true_eq] at first
      exact first
    have rest := ih fun d member => all d (List.mem_cons_of_mem _ member)
    rw [digits?] at rest ⊢
    rw [List.mapM_cons, digit?, if_pos digit, rest]
    rfl

/-- The digits of a number begin with a zero only if that is the number. -/
theorem toDigits_ne_zero_cons (n : Nat) (d : Char) (ds : List Char) :
    Nat.toDigits 10 n ≠ '0' :: d :: ds := by
  intro same
  have value := Nat.ofDigitChars_ten_toDigits (n := n)
  have length := congrArg List.length same
  have all : ∀ c ∈ d :: ds, c.isDigit = true := fun c member =>
    Nat.isDigit_of_mem_toDigits (b := 10) (n := n) (by decide) (by decide)
      (same ▸ List.mem_cons_of_mem _ member)
  -- without the zero the same number would have fewer digits
  have bound : ∀ (cs : List Char) (start : Nat), (∀ c ∈ cs, c.isDigit = true) →
      Nat.ofDigitChars 10 cs start < (start + 1) * 10 ^ cs.length := by
    intro cs
    induction cs with
    | nil => intro start _; simp
    | cons c cs ih =>
      intro start all
      have digit : c.toNat - '0'.toNat ≤ 9 := by
        have first := all c List.mem_cons_self
        simp only [Char.isDigit, Bool.and_eq_true, decide_eq_true_eq, UInt32.le_iff_toNat_le]
          at first
        have high : c.toNat ≤ 57 := first.2
        have zero : '0'.toNat = 48 := rfl
        omega
      rw [Nat.ofDigitChars_cons, List.length_cons, Nat.pow_succ]
      refine Nat.lt_of_lt_of_le (ih _ fun d member => all d (List.mem_cons_of_mem _ member)) ?_
      rw [Nat.mul_comm (10 ^ cs.length) 10, ← Nat.mul_assoc]
      exact Nat.mul_le_mul_right _ (by omega)
  have small := bound (d :: ds) 0 all
  rw [same, Nat.ofDigitChars_cons] at value
  have zero : Nat.ofDigitChars 10 (d :: ds) (10 * 0 + ('0'.toNat - '0'.toNat)) =
      Nat.ofDigitChars 10 (d :: ds) 0 := rfl
  rw [zero] at value
  have short := (Nat.length_toDigits_le_iff (b := 10) (n := n) (k := (d :: ds).length)
    (by decide) (by simp)).mpr (by omega)
  rw [length, List.length_cons] at short
  omega

theorem isDigit_ne {c : Char} (digit : c.isDigit = true) {other : Char}
    (none : other.isDigit = false) : c ≠ other := by
  rintro rfl
  rw [digit] at none
  cases none

/-- What a whole number is written as is a numeral. -/
theorem ofChars?_render (i : Int) : ofChars? (Number.whole i).render = some (ofInt i) := by
  have all : ∀ c ∈ Nat.toDigits 10 i.natAbs, c.isDigit = true := fun c =>
    Nat.isDigit_of_mem_toDigits (by decide) (by decide)
  obtain ⟨d, ds, same⟩ :=
    List.exists_cons_of_ne_nil (Nat.toDigits_ne_nil (n := i.natAbs) (b := 10))
  have noLead : ∀ e es, d :: ds ≠ '0' :: e :: es := fun e es =>
    same ▸ toDigits_ne_zero_cons i.natAbs e es
  rw [Number.render_whole, ofInt, same]
  rw [same] at all
  have first : d ≠ '-' := isDigit_ne (all d List.mem_cons_self) (by decide)
  have noMark : ∀ c ∈ d :: ds, (!isMark c) = true := fun c member => by
    have digit := all c member
    simp only [isMark, Bool.not_eq_true', Bool.or_eq_false_iff, beq_eq_false_iff_ne]
    exact ⟨isDigit_ne digit (by decide), isDigit_ne digit (by decide)⟩
  have noPoint : ∀ c ∈ d :: ds, (c != '.') = true := fun c member => by
    simp only [bne_iff_ne]
    exact isDigit_ne (all c member) (by decide)
  have whole := digits?_of_isDigit all
  unfold ofChars?
  split
  next negative body parted =>
    have parts : negative = decide (i < 0) ∧ body = d :: ds := by
      by_cases below : i < 0
      · rw [if_pos below] at parted
        cases parted
        exact ⟨(decide_eq_true below).symm, rfl⟩
      · rw [if_neg below, List.nil_append] at parted
        split at parted
        next rest minus =>
          cases minus
          exact absurd rfl first
        next =>
          cases parted
          exact ⟨(decide_eq_false below).symm, rfl⟩
    rcases parts with ⟨rfl, rfl⟩
    have mantissa : (d :: ds).takeWhile (fun c => !isMark c) = d :: ds := by
      rw [← List.append_nil (d :: ds), List.takeWhile_append_of_pos noMark, List.takeWhile_nil]
    have digits : (d :: ds).takeWhile (fun c => c != '.') = d :: ds := by
      rw [← List.append_nil (d :: ds), List.takeWhile_append_of_pos noPoint, List.takeWhile_nil]
    have unmarked := List.dropWhile_eq_nil_iff.mpr noMark
    have unpointed := List.dropWhile_eq_nil_iff.mpr noPoint
    simp only [mantissa, unmarked, digits, unpointed, bind, Option.bind, whole]
    split
    next none => exact absurd none (by simp)
    next rest zero =>
      -- a zero in front stands alone
      cases ds with
      | nil => exact absurd zero (by simp)
      | cons e es =>
        rw [List.map_cons, List.map_cons, List.cons.injEq] at zero
        refine absurd ?_ (noLead e es)
        have digit := all d List.mem_cons_self
        simp only [Char.isDigit, Bool.and_eq_true, decide_eq_true_eq, UInt32.le_iff_toNat_le]
          at digit
        have low : 48 ≤ d.toNat := digit.1
        have code : d.toNat = '0'.toNat := by
          have zero : '0'.toNat = 48 := rfl
          omega
        rw [Char.toNat_inj.mp code]
    next => rfl

theorem le_foldl (start : Nat) (digits : List Nat) :
    start ≤ digits.foldl (fun n d => n * 10 + d) start := by
  induction digits generalizing start with
  | nil => exact Nat.le_refl _
  | cons d digits ih => exact Nat.le_trans (by omega) (ih (start * 10 + d))

/-- Digits that fit are all gathered. -/
theorem gatherWhole_of_le (start : Nat) (digits : List Nat)
    (fits : digits.foldl (fun n d => n * 10 + d) start ≤ maxWord) :
    gatherWhole start 0 digits = (digits.foldl (fun n d => n * 10 + d) start, 0) := by
  induction digits generalizing start with
  | nil => rfl
  | cons d digits ih =>
    have next : start * 10 + d ≤ maxWord := Nat.le_trans (le_foldl _ digits) fits
    rw [gatherWhole, if_pos ⟨rfl, next⟩]
    exact ih _ fits

/-- What is gathered fits in 64 bits. -/
theorem gatherWhole_le {start : Nat} (fits : start ≤ maxWord) (left : Nat) (digits : List Nat) :
    (gatherWhole start left digits).1 ≤ maxWord := by
  induction digits generalizing start left with
  | nil => exact fits
  | cons d digits ih =>
    rw [gatherWhole]
    split
    next room => exact ih room.2 0
    next => exact ih fits (left + 1)

/-- The whole number can be read back: it has 64 bits, one of them for the sign if it is below
zero. -/
def IsInRange (i : Int) : Prop :=
  -(maxNegative : Int) ≤ i ∧ i ≤ (maxWord : Int)

/-- The value of the numeral of a number in range is that number. -/
theorem value?_ofInt {i : Int} (inRange : IsInRange i) : (ofInt i).value? = some (.whole i) := by
  have folded (n : Nat) : ((Nat.toDigits 10 n).map fun c => c.toNat - 48).foldl
      (fun n d => n * 10 + d) 0 = n := by
    rw [List.foldl_map]
    conv => rhs; rw [← Nat.ofDigitChars_ten_toDigits (n := n), Nat.ofDigitChars_eq_foldl]
    congr 1
    funext m c
    rw [Nat.mul_comm]
    rfl
  rcases inRange with ⟨low, high⟩
  have narrow : maxNegative ≤ maxWord := by decide
  have gathered := gatherWhole_of_le 0 (ofInt i).whole
    (by rw [ofInt, folded]; omega)
  rw [show (ofInt i).whole.foldl _ 0 = i.natAbs from folded i.natAbs] at gathered
  have whole : ¬ ((ofInt i).broken = true ∨ 0 ≠ 0) := by simp [ofInt]
  simp only [value?, gathered]
  rw [if_neg whole]
  by_cases below : i < 0
  · have negative : (ofInt i).negative = true := decide_eq_true below
    rw [negative, if_neg (not_not_intro rfl), if_pos ⟨by omega, by omega⟩]
    congr 2
    omega
  · have positive : (ofInt i).negative = false := decide_eq_false below
    rw [positive, if_pos Bool.false_ne_true]
    congr 2
    omega

/-- A whole number that is the value of a numeral is in range. -/
theorem inRange_of_value? {n : Numeral} {i : Int} (value : n.value? = some (.whole i)) :
    IsInRange i := by
  have small := gatherWhole_le (Nat.zero_le maxWord) 0 n.whole
  unfold value? at value
  rcases gatherWhole 0 0 n.whole with ⟨significand, left⟩
  dsimp only at small value
  unfold IsInRange
  split at value
  · rcases Option.map_eq_some_iff.mp value with ⟨magnitude, -, fraction⟩
    cases fraction
  · split at value
    · cases value
      omega
    · split at value
      next bounds =>
        cases value
        omega
      next => cases value

end Numeral

namespace Scanner

variable (done : List Token) {rest : List Char}

/-- Neither a word nor a numeral can go on with what follows. -/
def Ends (rest : List Char) : Prop :=
  ∀ c ∈ rest.head?, isNumeric c = false ∧ c.isLower = false

/-- A state whose token is complete goes on as if the token had been followed by a blank. -/
theorem run?_close {state : Scanner} {token : Token} (last : state.finish? = some [token])
    (closes : ∀ c ∈ rest.head?,
      state.advance? c = (opening? c).map fun next => (next.1, next.2 ++ [token])) :
    run? state done rest = run? .between (token :: done) rest := by
  cases rest with
  | nil =>
    rw [run?, last]
    rfl
  | cons c rest =>
    rw [run?, run?, closes c rfl, show advance? .between c = opening? c from rfl]
    cases opening? c with
    | none => rfl
    | some next => simp only [Option.map_some, List.append_assoc, List.singleton_append]

/-- A word is complete where it ends. -/
theorem run?_word {read : List Char} {token : Token} (word : word? read = some token)
    (ends : Ends rest) : run? (.word read) done rest = run? .between (token :: done) rest := by
  refine run?_close done (by rw [finish?, word]; rfl) fun c first => ?_
  simp only [advance?, (ends c first).2, word, Bool.false_eq_true, if_false, bind, Option.bind]
  cases opening? c <;> rfl

/-- A numeral is complete where it ends. -/
theorem run?_numeral {read : List Char} {n : Numeral}
    (numeral : Numeral.ofChars? read.reverse = some n) (ends : Ends rest) :
    run? (.numeral read) done rest = run? .between (.numeral n :: done) rest := by
  refine run?_close done (by rw [finish?, numeral]; rfl) fun c first => ?_
  simp only [advance?, (ends c first).1, numeral, Bool.false_eq_true, if_false, bind, Option.bind]
  cases opening? c <;> rfl

theorem run?_digits {ds : List Char} (all : ∀ c ∈ ds, c.isDigit = true) (read : List Char) :
    run? (.numeral read) done (ds ++ rest) = run? (.numeral (ds.reverse ++ read)) done rest := by
  induction ds generalizing read with
  | nil => rfl
  | cons d ds ih =>
    have numeric : isNumeric d = true := by
      simp only [isNumeric, all d List.mem_cons_self, Bool.true_or]
    have step : advance? (.numeral read) d = some (.numeral (d :: read), []) := by
      rw [advance?, if_pos numeric]
    rw [List.cons_append, run?, step]
    simp only [List.nil_append]
    rw [ih (fun c member => all c (List.mem_cons_of_mem _ member)), List.reverse_cons,
      List.append_assoc]
    rfl

theorem opening?_digit {d : Char} (digit : d.isDigit = true) :
    opening? d = some (.numeral [d], []) := by
  have other {e : Char} (none : e.isDigit = false) : d ≠ e := Numeral.isDigit_ne digit none
  rw [opening?, if_neg, if_neg (other (by decide)), if_neg (other (by decide)),
    if_neg (other (by decide)), if_neg (other (by decide)), if_neg (other (by decide)),
    if_neg (other (by decide)), if_neg (other (by decide)), if_pos (.inl digit)]
  rintro (blank | tab | line | back)
  · exact other (by decide) blank
  · exact other (by decide) tab
  · exact other (by decide) line
  · exact other (by decide) back

/-- A whole number begins with a sign or a digit, and goes on with digits. -/
theorem exists_render_whole (i : Int) : ∃ c ds, (Number.whole i).render = c :: ds ∧
    opening? c = some (.numeral [c], []) ∧ ∀ d ∈ ds, d.isDigit = true := by
  have all : ∀ c ∈ Nat.toDigits 10 i.natAbs, c.isDigit = true := fun c =>
    Nat.isDigit_of_mem_toDigits (by decide) (by decide)
  rw [Number.render_whole]
  by_cases below : i < 0
  · rw [if_pos below]
    exact ⟨'-', _, rfl, by decide, all⟩
  · rcases List.exists_cons_of_ne_nil (Nat.toDigits_ne_nil (n := i.natAbs) (b := 10))
      with ⟨d, ds, same⟩
    rw [if_neg below, same]
    rw [same] at all
    exact ⟨d, ds, rfl, opening?_digit (all d List.mem_cons_self),
      fun e member => all e (List.mem_cons_of_mem _ member)⟩

/-- A whole number is scanned as one numeral, up to what follows it. -/
theorem run?_whole (i : Int) (ends : Ends rest) :
    run? .between done ((Number.whole i).render ++ rest) =
      run? .between (.numeral (.ofInt i) :: done) rest := by
  have numeral := Numeral.ofChars?_render i
  rcases exists_render_whole i with ⟨c, ds, same, opens, digits⟩
  rw [same] at numeral ⊢
  have read : (ds.reverse ++ [c]).reverse = c :: ds := by
    rw [List.reverse_append, List.reverse_reverse]
    rfl
  rw [List.cons_append, run?, show advance? .between c = opening? c from rfl, opens]
  simp only [List.nil_append]
  rw [run?_digits done digits, run?_numeral done (read ▸ numeral) ends]

end Scanner

end TreeExport.Json
