import Mathlib.Algebra.Group.Nat.Defs
import TreeExport.Text.Utf8

/-!
# What UTF-8 keeps of a text

* `decode_encode`: the bytes of a text are read back as that text;
* `encode_le_encode`: texts are ordered as their bytes are, so what is said of the order of paths
  holds of the order of their bytes;
* `notMem_encode`: a byte below 128 stands in the bytes of a text only where its character stands in
  the text;
* `encode_of_decode`: bytes that are read as a text are the bytes of that text.
-/

namespace TreeExport.Utf8

/-! ## The bytes of one character -/

/-- The bytes of a character, by the number of bits of its code. -/
inductive CharBytes (c : Char) : Bytes → Prop
  | one {a : UInt8} : c.toNat < 0x80 → a.toNat = c.toNat → CharBytes c [a]
  | two {a b : UInt8} : 0x80 ≤ c.toNat → c.toNat < 0x800 → a.toNat = c.toNat / 64 + 0xC0 →
      b.toNat = c.toNat % 64 + 0x80 → CharBytes c [a, b]
  | three {a b d : UInt8} : 0x800 ≤ c.toNat → c.toNat < 0x10000 →
      a.toNat = c.toNat / 4096 + 0xE0 → b.toNat = c.toNat / 64 % 64 + 0x80 →
      d.toNat = c.toNat % 64 + 0x80 → CharBytes c [a, b, d]
  | four {a b d e : UInt8} : 0x10000 ≤ c.toNat → c.toNat < 0x110000 →
      a.toNat = c.toNat / 262144 + 0xF0 → b.toNat = c.toNat / 4096 % 64 + 0x80 →
      d.toNat = c.toNat / 64 % 64 + 0x80 → e.toNat = c.toNat % 64 + 0x80 →
      CharBytes c [a, b, d, e]

theorem toNat_lt (c : Char) : c.toNat < 0x110000 := by
  have valid : c.toNat < 0xD800 ∨ 0xDFFF < c.toNat ∧ c.toNat < 0x110000 := c.valid
  omega

theorem charBytes_encodeChar (c : Char) : CharBytes c (String.utf8EncodeChar c) := by
  have bound := toNat_lt c
  have same : c.val.toNat = c.toNat := rfl
  unfold String.utf8EncodeChar
  simp only [same]
  generalize code : c.toNat = v at *
  split
  next small =>
    exact .one (by omega) (by simp only [UInt8.toNat_ofNat']; omega)
  next small =>
    split
    next =>
      refine .two (by omega) (by omega) ?_ ?_ <;> (simp only [UInt8.toNat_ofNat']; omega)
    next =>
      split
      next =>
        refine .three (by omega) (by omega) ?_ ?_ ?_ <;> (simp only [UInt8.toNat_ofNat']; omega)
      next =>
        refine .four (by omega) (by omega) ?_ ?_ ?_ ?_ <;>
          (simp only [UInt8.toNat_ofNat']; omega)

/-! ## Reading back -/

theorem advance_start_one {b : UInt8} (high : b.toNat < 0x80) :
    State.start.advance b = .complete (Char.ofNat b.toNat) := by
  have below : b < 0x80 := high
  simp [State.advance, lead, below]

theorem advance_start_two {b : UInt8} (low : 0xC2 ≤ b.toNat) (high : b.toNat < 0xE0) :
    State.start.advance b = .pending (.within 1 1 0x80 0xBF (b.toNat - 0xC0)) := by
  have first : ¬ b < 0x80 := by
    show ¬ b.toNat < 0x80
    omega
  have second : ¬ b < 0xC2 := by
    show ¬ b.toNat < 0xC2
    omega
  have third : b < 0xE0 := high
  simp only [State.advance, lead, first, second, third, if_true, if_false]

theorem advance_start_three {b : UInt8} (low : 0xE0 ≤ b.toNat) (high : b.toNat < 0xF0) :
    State.start.advance b = .pending (.within 1 2 (if b.toNat = 0xE0 then 0xA0 else 0x80)
      (if b.toNat = 0xED then 0x9F else 0xBF) (b.toNat - 0xE0)) := by
  have first : ¬ b < 0x80 := by
    show ¬ b.toNat < 0x80
    omega
  have second : ¬ b < 0xC2 := by
    show ¬ b.toNat < 0xC2
    omega
  have third : ¬ b < 0xE0 := by
    show ¬ b.toNat < 0xE0
    omega
  have fourth : b < 0xF0 := high
  by_cases least : b.toNat = 0xE0
  · obtain rfl : b = 0xE0 := UInt8.toNat_inj.mp least
    rfl
  · by_cases before : b.toNat = 0xED
    · obtain rfl : b = 0xED := UInt8.toNat_inj.mp before
      rfl
    · have least' : b ≠ 0xE0 := fun equal => least (by rw [equal]; rfl)
      have before' : b ≠ 0xED := fun equal => before (by rw [equal]; rfl)
      simp only [State.advance, lead, first, second, third, fourth, least, before, least', before',
        if_true, if_false]

theorem advance_start_four {b : UInt8} (low : 0xF0 ≤ b.toNat) (high : b.toNat < 0xF5) :
    State.start.advance b = .pending (.within 1 3 (if b.toNat = 0xF0 then 0x90 else 0x80)
      (if b.toNat = 0xF4 then 0x8F else 0xBF) (b.toNat - 0xF0)) := by
  have cases : b.toNat = 0xF0 ∨ b.toNat = 0xF1 ∨ b.toNat = 0xF2 ∨ b.toNat = 0xF3 ∨
      b.toNat = 0xF4 := by omega
  rcases cases with h | h | h | h | h
  · obtain rfl : b = 0xF0 := UInt8.toNat_inj.mp h
    rfl
  · obtain rfl : b = 0xF1 := UInt8.toNat_inj.mp h
    rfl
  · obtain rfl : b = 0xF2 := UInt8.toNat_inj.mp h
    rfl
  · obtain rfl : b = 0xF3 := UInt8.toNat_inj.mp h
    rfl
  · obtain rfl : b = 0xF4 := UInt8.toNat_inj.mp h
    rfl

/-- A byte in its range takes the walk on. -/
theorem advance_more {read left value n : Nat} {low high b : UInt8} (many : ¬ left ≤ 1)
    (above : low.toNat ≤ b.toNat) (below : b.toNat ≤ high.toNat)
    (sum : value * 64 + (b.toNat - 0x80) = n) :
    State.advance (.within read left low high value) b =
      .pending (.within (read + 1) (left - 1) 0x80 0xBF n) := by
  simp only [State.advance, UInt8.le_iff_toNat_le, above, below, and_self, if_true, many, if_false,
    sum]

/-- The last byte of a character, in its range, ends it. -/
theorem advance_last {read value : Nat} {low high b : UInt8} {c : Char}
    (above : low.toNat ≤ b.toNat) (below : b.toNat ≤ high.toNat)
    (sum : value * 64 + (b.toNat - 0x80) = c.toNat) :
    State.advance (.within read 1 low high value) b = .complete c := by
  simp only [State.advance, UInt8.le_iff_toNat_le, above, below, and_self, if_true, sum,
    Nat.le_refl, Char.ofNat_toNat]

theorem decodeFrom_pending {state next : State} {b : UInt8} (pending : state.advance b = .pending next)
    (valid : Nat) (done : List Char) (rest : Bytes) :
    decodeFrom state valid done (b :: rest) = decodeFrom next valid done rest := by
  rw [decodeFrom, pending]

theorem decodeFrom_complete {state : State} {b : UInt8} {c : Char}
    (complete : state.advance b = .complete c) (valid : Nat) (done : List Char) (rest : Bytes) :
    decodeFrom state valid done (b :: rest) =
      decodeFrom .start (valid + c.utf8Size) (c :: done) rest := by
  rw [decodeFrom, complete]

/-- The bytes of a character take the walk from character to character. -/
theorem decodeFrom_charBytes {c : Char} {bytes : Bytes} (spelt : CharBytes c bytes) (valid : Nat)
    (done : List Char) (rest : Bytes) :
    decodeFrom .start valid done (bytes ++ rest) =
      decodeFrom .start (valid + c.utf8Size) (c :: done) rest := by
  have scalar : c.toNat < 0xD800 ∨ 0xDFFF < c.toNat ∧ c.toNat < 0x110000 := c.valid
  have low : (0x80 : UInt8).toNat = 0x80 := rfl
  have high : (0xBF : UInt8).toNat = 0xBF := rfl
  cases spelt with
  | one small first =>
    refine decodeFrom_complete ?_ ..
    rw [advance_start_one (by omega), first, Char.ofNat_toNat]
  | two least most first second =>
    refine (decodeFrom_pending (advance_start_two (by omega) (by omega)) ..).trans ?_
    exact decodeFrom_complete (advance_last (by omega) (by omega) (by omega)) ..
  | @three a b d least most first second third =>
    refine (decodeFrom_pending (advance_start_three (by omega) (by omega)) ..).trans ?_
    -- the second byte has a range of its own after the first bytes of overlong forms and surrogates
    have above : (if a.toNat = 0xE0 then (0xA0 : UInt8) else 0x80).toNat ≤ b.toNat := by
      split
      · show 0xA0 ≤ b.toNat
        omega
      · omega
    have below : b.toNat ≤ (if a.toNat = 0xED then (0x9F : UInt8) else 0xBF).toNat := by
      split
      · show b.toNat ≤ 0x9F
        omega
      · omega
    refine (decodeFrom_pending (advance_more (n := c.toNat / 64) (by omega) above below
      (by omega)) ..).trans ?_
    exact decodeFrom_complete (advance_last (by omega) (by omega) (by omega)) ..
  | @four a b d e least most first second third fourth =>
    refine (decodeFrom_pending (advance_start_four (by omega) (by omega)) ..).trans ?_
    have above : (if a.toNat = 0xF0 then (0x90 : UInt8) else 0x80).toNat ≤ b.toNat := by
      split
      · show 0x90 ≤ b.toNat
        omega
      · omega
    have below : b.toNat ≤ (if a.toNat = 0xF4 then (0x8F : UInt8) else 0xBF).toNat := by
      split
      · show b.toNat ≤ 0x8F
        omega
      · omega
    refine (decodeFrom_pending (advance_more (n := c.toNat / 4096) (by omega) above below
      (by omega)) ..).trans ?_
    refine (decodeFrom_pending (advance_more (n := c.toNat / 64) (by omega) (by omega) (by omega)
      (by omega)) ..).trans ?_
    exact decodeFrom_complete (advance_last (by omega) (by omega) (by omega)) ..

theorem decodeFrom_encodeChars (cs : List Char) (valid : Nat) (done : List Char) :
    decodeFrom .start valid done (cs.flatMap String.utf8EncodeChar) = .ok (done.reverse ++ cs) := by
  induction cs generalizing valid done with
  | nil => simp [decodeFrom]
  | cons c cs ih =>
    rw [List.flatMap_cons, decodeFrom_charBytes (charBytes_encodeChar c), ih]
    simp

/-- The bytes of a text are read back as that text. -/
@[simp] theorem decode_encode (text : String) : decode (encode text) = .ok text := by
  rw [decode, encode, decodeFrom_encodeChars]
  simp [Except.map]

@[simp] theorem length_encode (text : String) : (encode text).length = size text := by
  have bytes : (String.ofList text.toList).toByteArray =
      (text.toList.flatMap String.utf8EncodeChar).toByteArray := String.toByteArray_ofList
  rw [String.ofList_toList] at bytes
  rw [size, ← String.size_toByteArray, bytes, List.size_toByteArray, encode]

/-! ## Order -/

/-- The bytes of a lesser character come first, whatever follows them. -/
theorem charBytes_append_lt {c d : Char} {bytes bytes' : Bytes} (less : c.toNat < d.toNat)
    (spelt : CharBytes c bytes) (spelt' : CharBytes d bytes') (rest rest' : Bytes) :
    bytes ++ rest < bytes' ++ rest' := by
  have bound := toNat_lt d
  -- bytes agree up to the first place where the codes do
  have cons_lt : ∀ {x y : UInt8} {s t : Bytes}, x.toNat < y.toNat ∨ x.toNat = y.toNat ∧ s < t →
      x :: s < y :: t := by
    intro x y s t order
    rw [List.cons_lt_cons_iff]
    rcases order with order | ⟨same, order⟩
    · exact .inl order
    · exact .inr ⟨UInt8.toNat_inj.mp same, order⟩
  cases spelt with
  | one => cases spelt' <;> exact cons_lt (.inl (by omega))
  | two =>
    cases spelt' with
    | two =>
      refine cons_lt ?_
      by_cases first : c.toNat / 64 < d.toNat / 64
      · exact .inl (by omega)
      · exact .inr ⟨by omega, cons_lt (.inl (by omega))⟩
    | _ => exact cons_lt (.inl (by omega))
  | three =>
    cases spelt' with
    | three =>
      refine cons_lt ?_
      by_cases first : c.toNat / 4096 < d.toNat / 4096
      · exact .inl (by omega)
      · refine .inr ⟨by omega, cons_lt ?_⟩
        by_cases second : c.toNat / 64 < d.toNat / 64
        · exact .inl (by omega)
        · exact .inr ⟨by omega, cons_lt (.inl (by omega))⟩
    | _ => exact cons_lt (.inl (by omega))
  | four =>
    cases spelt' with
    | four =>
      refine cons_lt ?_
      by_cases first : c.toNat / 262144 < d.toNat / 262144
      · exact .inl (by omega)
      · refine .inr ⟨by omega, cons_lt ?_⟩
        by_cases second : c.toNat / 4096 < d.toNat / 4096
        · exact .inl (by omega)
        · refine .inr ⟨by omega, cons_lt ?_⟩
          by_cases third : c.toNat / 64 < d.toNat / 64
          · exact .inl (by omega)
          · exact .inr ⟨by omega, cons_lt (.inl (by omega))⟩
    | _ => exact cons_lt (.inl (by omega))

theorem encodeChars_lt {cs ds : List Char} (less : cs < ds) :
    cs.flatMap String.utf8EncodeChar < ds.flatMap String.utf8EncodeChar := by
  induction cs generalizing ds with
  | nil =>
    cases ds with
    | nil => exact absurd less (List.lt_irrefl _)
    | cons d ds =>
      rw [List.flatMap_nil, List.flatMap_cons]
      cases bytes : String.utf8EncodeChar d with
      | nil => exact absurd bytes String.utf8EncodeChar_ne_nil
      | cons b more => exact List.nil_lt_cons ..
  | cons c cs ih =>
    cases ds with
    | nil => exact absurd less (List.not_lt_nil _)
    | cons d ds =>
      rw [List.flatMap_cons, List.flatMap_cons]
      rcases List.cons_lt_cons_iff.mp less with below | ⟨rfl, later⟩
      · exact charBytes_append_lt below (charBytes_encodeChar c) (charBytes_encodeChar d) ..
      · exact List.append_left_lt (ih later)

/-- Texts are ordered as their bytes are. -/
theorem encode_le_encode {a b : String} : encode a ≤ encode b ↔ a ≤ b := by
  constructor
  · intro bytes
    refine String.not_lt.mp fun less => ?_
    exact List.not_lt.mpr bytes (encodeChars_lt less)
  · intro texts
    refine List.not_lt.mp fun less => ?_
    by_cases same : a = b
    · rw [same] at less
      exact List.lt_irrefl _ less
    · have strict : a < b := by
        refine String.not_le.mp fun under => same (String.le_antisymm texts under)
      exact List.lt_asymm less (encodeChars_lt strict)

/-! ## Bytes of single characters -/

/-- A byte below 128 is one of a character only if it is the character. -/
theorem eq_of_mem_charBytes {c : Char} {bytes : Bytes} (spelt : CharBytes c bytes) {b : UInt8}
    (small : b.toNat < 0x80) (member : b ∈ bytes) : c.toNat = b.toNat := by
  cases spelt with
  | one =>
    obtain rfl := List.mem_singleton.mp member
    omega
  | two =>
    simp only [List.mem_cons, List.not_mem_nil, or_false] at member
    rcases member with rfl | rfl <;> omega
  | three =>
    simp only [List.mem_cons, List.not_mem_nil, or_false] at member
    rcases member with rfl | rfl | rfl <;> omega
  | four =>
    simp only [List.mem_cons, List.not_mem_nil, or_false] at member
    rcases member with rfl | rfl | rfl | rfl <;> omega

/-- A byte below 128 stands in the bytes of a text only where its character stands in the text. -/
theorem notMem_encode {text : String} {c : Char} {b : UInt8} (code : c.toNat = b.toNat)
    (small : b.toNat < 0x80) (absent : c ∉ text.toList) : b ∉ encode text := by
  intro member
  obtain ⟨d, here, inside⟩ := List.mem_flatMap.mp member
  have same := eq_of_mem_charBytes (charBytes_encodeChar d) small inside
  have equal : d = c := Char.toNat_inj.mp (same.trans code.symm)
  exact absent (equal ▸ here)

/-! ## One spelling -/

/-- A character is spelt in one way only. -/
theorem CharBytes.eq {c : Char} {bytes bytes' : Bytes} (spelt : CharBytes c bytes)
    (spelt' : CharBytes c bytes') : bytes = bytes' := by
  cases spelt <;> cases spelt' <;> first
    | omega
    | (simp only [List.cons.injEq, ← UInt8.toNat_inj, and_true]; omega)

theorem toNat_ofNat_of_scalar {n : Nat} (scalar : n < 0xD800 ∨ 0xDFFF < n ∧ n < 0x110000) :
    (Char.ofNat n).toNat = n := by
  rw [Char.ofNat, dif_pos scalar]
  rfl

/-- The bytes that a state has read of a character. -/
inductive State.Spells : State → Bytes → Prop
  | start : Spells .start []
  | oneOfTwo {a : UInt8} : 0xC2 ≤ a.toNat → a.toNat < 0xE0 →
      Spells (.within 1 1 0x80 0xBF (a.toNat - 0xC0)) [a]
  | oneOfThree {a : UInt8} : 0xE0 ≤ a.toNat → a.toNat < 0xF0 →
      Spells (.within 1 2 (if a.toNat = 0xE0 then 0xA0 else 0x80)
        (if a.toNat = 0xED then 0x9F else 0xBF) (a.toNat - 0xE0)) [a]
  | twoOfThree {a b : UInt8} {v : Nat} : 0x20 ≤ v → v < 0x360 ∨ 0x37F < v ∧ v < 0x400 →
      a.toNat = v / 64 + 0xE0 → b.toNat = v % 64 + 0x80 →
      Spells (.within 2 1 0x80 0xBF v) [a, b]
  | oneOfFour {a : UInt8} : 0xF0 ≤ a.toNat → a.toNat < 0xF5 →
      Spells (.within 1 3 (if a.toNat = 0xF0 then 0x90 else 0x80)
        (if a.toNat = 0xF4 then 0x8F else 0xBF) (a.toNat - 0xF0)) [a]
  | twoOfFour {a b : UInt8} {v : Nat} : 0x10 ≤ v → v < 0x110 → a.toNat = v / 64 + 0xF0 →
      b.toNat = v % 64 + 0x80 → Spells (.within 2 2 0x80 0xBF v) [a, b]
  | threeOfFour {a b d : UInt8} {v : Nat} : 0x400 ≤ v → v < 0x4400 → a.toNat = v / 4096 + 0xF0 →
      b.toNat = v / 64 % 64 + 0x80 → d.toNat = v % 64 + 0x80 →
      Spells (.within 3 1 0x80 0xBF v) [a, b, d]

/-- What a byte makes of a state keeps to a spelling: it ends the one of a character, or goes on. -/
def Advance.Keeps (read : Bytes) : Advance → Prop
  | .complete c => CharBytes c read
  | .pending next => next.Spells read
  | .refused => True

/-- No character begins with a byte that can only follow others, or that none needs. -/
theorem advance_start_refused {b : UInt8} (least : 0x80 ≤ b.toNat)
    (none : b.toNat < 0xC2 ∨ 0xF5 ≤ b.toNat) : State.start.advance b = .refused := by
  have first : ¬ b < 0x80 := by
    show ¬ b.toNat < 0x80
    omega
  rcases none with early | late
  · have second : b < 0xC2 := early
    simp only [State.advance, lead, first, second, if_true, if_false]
  · have below {n : UInt8} (small : n.toNat < 0xF5) : ¬ b < n ∧ b ≠ n := by
      refine ⟨?_, fun same => ?_⟩
      · show ¬ b.toNat < n.toNat
        omega
      · rw [same] at late
        omega
    simp only [State.advance, lead, first, (below (n := 0xC2) (by decide)).1,
      (below (n := 0xE0) (by decide)).1, (below (n := 0xE0) (by decide)).2,
      (below (n := 0xED) (by decide)).2, (below (n := 0xF0) (by decide)).1,
      (below (n := 0xF0) (by decide)).2, (below (n := 0xF4) (by decide)).1,
      (below (n := 0xF4) (by decide)).2, if_false]

theorem keeps_start (b : UInt8) : (State.start.advance b).Keeps [b] := by
  by_cases one : b.toNat < 0x80
  · have code := toNat_ofNat_of_scalar (.inl (Nat.lt_trans one (by decide)))
    rw [advance_start_one one]
    exact .one (by rw [code]; exact one) code.symm
  by_cases two : 0xC2 ≤ b.toNat ∧ b.toNat < 0xE0
  · rw [advance_start_two two.1 two.2]
    exact .oneOfTwo two.1 two.2
  by_cases three : 0xE0 ≤ b.toNat ∧ b.toNat < 0xF0
  · rw [advance_start_three three.1 three.2]
    exact .oneOfThree three.1 three.2
  by_cases four : 0xF0 ≤ b.toNat ∧ b.toNat < 0xF5
  · rw [advance_start_four four.1 four.2]
    exact .oneOfFour four.1 four.2
  · rw [advance_start_refused (by omega) (by omega)]
    trivial

/-- A byte that is not the first keeps to a spelling if it does where it lies in its range. -/
theorem keeps_within {count left value : Nat} {low high b : UInt8} {read : Bytes}
    (inside : ∀ n, n = value * 64 + (b.toNat - 0x80) → low.toNat ≤ b.toNat → b.toNat ≤ high.toNat →
      if left ≤ 1 then
        (n < 0xD800 ∨ 0xDFFF < n ∧ n < 0x110000) ∧ ∀ c : Char, c.toNat = n → CharBytes c read
      else State.Spells (.within (count + 1) (left - 1) 0x80 0xBF n) read) :
    (State.advance (.within count left low high value) b).Keeps read := by
  unfold State.advance
  simp only [UInt8.le_iff_toNat_le]
  split
  · next within =>
    have follows := inside _ rfl within.1 within.2
    split
    · next ends =>
      rw [if_pos ends] at follows
      exact follows.2 _ (toNat_ofNat_of_scalar follows.1)
    · next goesOn =>
      rw [if_neg goesOn] at follows
      exact follows
  · trivial

theorem State.Spells.keeps {state : State} {read : Bytes} (spells : state.Spells read)
    (b : UInt8) : (state.advance b).Keeps (read ++ [b]) := by
  have low : (0x80 : UInt8).toNat = 0x80 := rfl
  have high : (0xBF : UInt8).toNat = 0xBF := rfl
  cases spells with
  | start => exact keeps_start b
  | oneOfTwo least most =>
    refine keeps_within fun n sum above below => ⟨by omega, fun c code => ?_⟩
    exact .two (by omega) (by omega) (by omega) (by omega)
  | @oneOfThree a least most =>
    refine keeps_within fun n sum above below => ?_
    -- the second byte keeps overlong forms and surrogates out
    have notOverlong : a.toNat = 0xE0 → 0xA0 ≤ b.toNat := by
      intro first
      rw [if_pos first] at above
      exact above
    have noSurrogate : a.toNat = 0xED → b.toNat ≤ 0x9F := by
      intro first
      rw [if_pos first] at below
      exact below
    have least' := Nat.le_trans (show 0x80 ≤ _ by split <;> decide) above
    have most' := Nat.le_trans below (show _ ≤ 0xBF by split <;> decide)
    exact .twoOfThree (by omega) (by omega) (by omega) (by omega)
  | twoOfThree least scalar first second =>
    refine keeps_within fun n sum above below => ⟨by omega, fun c code => ?_⟩
    exact .three (by omega) (by omega) (by omega) (by omega) (by omega)
  | @oneOfFour a least most =>
    refine keeps_within fun n sum above below => ?_
    have notOverlong : a.toNat = 0xF0 → 0x90 ≤ b.toNat := by
      intro first
      rw [if_pos first] at above
      exact above
    have notAbove : a.toNat = 0xF4 → b.toNat ≤ 0x8F := by
      intro first
      rw [if_pos first] at below
      exact below
    have least' := Nat.le_trans (show 0x80 ≤ _ by split <;> decide) above
    have most' := Nat.le_trans below (show _ ≤ 0xBF by split <;> decide)
    exact .twoOfFour (by omega) (by omega) (by omega) (by omega)
  | twoOfFour least most first second =>
    refine keeps_within fun n sum above below => ?_
    exact .threeOfFour (by omega) (by omega) (by omega) (by omega) (by omega)
  | threeOfFour least most first second third =>
    refine keeps_within fun n sum above below => ⟨by omega, fun c code => ?_⟩
    exact .four (by omega) (by omega) (by omega) (by omega) (by omega) (by omega)

/-- What is read from a state on spells the characters that come out of it. -/
theorem flatMap_of_decodeFrom {state : State} {before : Bytes} (spells : state.Spells before)
    {valid : Nat} {done cs : List Char} {bytes : Bytes}
    (read : decodeFrom state valid done bytes = .ok cs) :
    cs.flatMap String.utf8EncodeChar =
      done.reverse.flatMap String.utf8EncodeChar ++ (before ++ bytes) := by
  induction bytes generalizing state valid done before with
  | nil =>
    cases spells with
    | start =>
      cases read
      simp
    | _ => cases read
  | cons b rest ih =>
    have keeps := spells.keeps b
    rw [decodeFrom] at read
    split at read
    · next c complete =>
      rw [complete] at keeps
      have later := ih .start read
      rw [later, List.reverse_cons, List.flatMap_append, List.flatMap_singleton,
        (charBytes_encodeChar c).eq keeps]
      simp
    · next following pending =>
      rw [pending] at keeps
      rw [ih keeps read]
      simp
    · cases read

/-- Bytes that are read as a text are the bytes of that text. -/
theorem encode_of_decode {bytes : Bytes} {text : String} (read : decode bytes = .ok text) :
    encode text = bytes := by
  unfold decode at read
  cases chars : decodeFrom .start 0 [] bytes with
  | error fault =>
    rw [chars] at read
    cases read
  | ok cs =>
    rw [chars] at read
    cases read
    rw [encode, String.toList_ofList, flatMap_of_decodeFrom .start chars]
    rfl

end TreeExport.Utf8
