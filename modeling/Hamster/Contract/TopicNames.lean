import Hamster.Mqtt.Utf8

/-!
# Topic names

What utf-8.c lets pass are the encodings of characters, and nothing behind the zero at the
end of a string has a say in it.
-/
namespace Hamster.Contract.TopicNames

open Lib.Bytes Lib.Utf8 Mqtt.Utf8

/-- Both limits are ASCII or neither is, so the sign of a `char` does not matter. -/
def OneHalf (r : Byte × Byte) : Prop := r.1.toNat < 128 ↔ r.2.toNat < 128

instance (r : Byte × Byte) : Decidable (OneHalf r) := inferInstanceAs (Decidable (_ ↔ _))

def unsigned (r : Byte × Byte) : Range := (r.1.toNat, r.2.toNat)

theorem outside_iff {r : Byte × Byte} (h : OneHalf r) (b : Byte) :
    (b.toInt < r.1.toInt ∨ r.2.toInt < b.toInt) ↔ ¬ InRange (unsigned r) b.toNat := by
  unfold OneHalf at h
  simp only [BitVec.toInt_eq_toNat_cond, InRange, unsigned]
  have h1 := r.1.isLt
  have h2 := r.2.isLt
  have hb := b.isLt
  omega

/-- The bytes behind the first are not ASCII. -/
def Behind (bytes : List (Byte × Byte)) : Prop := ∀ r ∈ bytes, OneHalf r ∧ 0 < r.1.toNat

/-- A row of the table. -/
structure Regular (bytes : List (Byte × Byte)) : Prop where
  pos : bytes ≠ []
  oneHalf : ∀ r ∈ bytes, OneHalf r
  behind : ∀ r ∈ bytes.tail, 0 < r.1.toNat

theorem unsigned_validRanges : validRanges.map (·.map unsigned) = wellFormed := by decide

theorem regular_of_mem : ∀ bytes ∈ validRanges, Regular bytes := by
  have hall : (validRanges.all fun bytes => bytes ≠ [] && bytes.all (fun r => decide (OneHalf r)) &&
      bytes.tail.all fun r => decide (0 < r.1.toNat)) = true := by decide
  intro bytes hmem
  have h := List.all_eq_true.mp hall bytes hmem
  rw [Bool.and_eq_true, Bool.and_eq_true] at h
  obtain ⟨⟨hpos, hhalf⟩, hbehind⟩ := h
  exact ⟨of_decide_eq_true hpos, fun r hr => of_decide_eq_true (List.all_eq_true.mp hhalf r hr),
    fun r hr => of_decide_eq_true (List.all_eq_true.mp hbehind r hr)⟩

section Row
variable {bytes : List (Byte × Byte)} {chars : List Byte} (behind : List Byte)

/-- The string starts with bytes that fit. -/
def Starts (row : Row) (chars : List Byte) : Prop := ∃ front tail, chars = front ++ tail ∧ Fits row front

theorem starts_nil (chars : List Byte) : Starts [] chars := ⟨[], chars, rfl, .nil⟩

theorem not_starts_nil (r : Range) (row : Row) : ¬ Starts (r :: row) [] := by
  intro ⟨front, tail, hchars, hfits⟩
  obtain ⟨rfl, -⟩ := List.append_eq_nil_iff.mp hchars.symm
  cases hfits

theorem starts_cons_iff {r : Range} {row : Row} {b : Byte} :
    Starts (r :: row) (b :: chars) ↔ InRange r b.toNat ∧ Starts row chars := by
  constructor
  · intro ⟨front, tail, hchars, hfits⟩
    cases front with
    | nil => cases hfits
    | cons b' front =>
      obtain ⟨rfl, rfl⟩ := List.cons.inj hchars
      obtain ⟨hr, hrow⟩ := List.forall₂_cons.mp hfits
      exact ⟨hr, front, tail, rfl, hrow⟩
  · intro ⟨hr, front, tail, hchars, hfits⟩
    exact ⟨b :: front, tail, by rw [hchars, List.cons_append], .cons hr hfits⟩

/-- The zero at the end of the string fits nothing, so the row is left there at the latest. -/
theorem good_behind (hbytes : Behind bytes) (chars : List Byte) :
    ∃ ok, good bytes (chars ++ 0 :: behind) = some ok ∧
      (ok = true ↔ Starts (bytes.map unsigned) chars) := by
  induction bytes generalizing chars with
  | nil => exact ⟨true, rfl, iff_of_true rfl (starts_nil chars)⟩
  | cons r bytes ih =>
    obtain ⟨hhalf, hpos⟩ := hbytes r List.mem_cons_self
    cases chars with
    | nil =>
      have hout : ¬ InRange (unsigned r) (0 : Byte).toNat := fun h => absurd h.1 (Nat.not_le.mpr hpos)
      refine ⟨false, ?_, iff_of_false Bool.false_ne_true (not_starts_nil _ _)⟩
      rw [List.nil_append, good, if_pos ((outside_iff hhalf 0).mpr hout)]
    | cons b chars =>
      rw [List.cons_append, good, List.map_cons, starts_cons_iff]
      by_cases hin : InRange (unsigned r) b.toNat
      · rw [if_neg (fun h => (outside_iff hhalf b).mp h hin)]
        obtain ⟨ok, hgood, hok⟩ := ih (fun r hr => hbytes r (List.mem_cons_of_mem _ hr)) chars
        exact ⟨ok, hgood, hok.trans (and_iff_right hin).symm⟩
      · rw [if_pos ((outside_iff hhalf b).mpr hin)]
        exact ⟨false, rfl, iff_of_false Bool.false_ne_true fun h => hin h.1⟩

theorem good_row (hbytes : Regular bytes) (b : Byte) (chars : List Byte) :
    ∃ ok, good bytes (b :: (chars ++ 0 :: behind)) = some ok ∧
      (ok = true ↔ Starts (bytes.map unsigned) (b :: chars)) := by
  obtain ⟨hpos, hhalf, hbehind⟩ := hbytes
  cases bytes with
  | nil => exact absurd rfl hpos
  | cons r bytes =>
    rw [good, List.map_cons, starts_cons_iff]
    by_cases hin : InRange (unsigned r) b.toNat
    · rw [if_neg (fun h => (outside_iff (hhalf r List.mem_cons_self) b).mp h hin)]
      obtain ⟨ok, hgood, hok⟩ := good_behind behind
        (fun r hr => ⟨hhalf r (List.mem_cons_of_mem _ hr), hbehind r hr⟩) chars
      exact ⟨ok, hgood, hok.trans (and_iff_right hin).symm⟩
    · rw [if_pos ((outside_iff (hhalf r List.mem_cons_self) b).mpr hin)]
      exact ⟨false, rfl, iff_of_false Bool.false_ne_true fun h => hin h.1⟩

end Row

section Character
variable (behind : List Byte)

theorem anyGood_spec {ranges : List (List (Byte × Byte))} (hranges : ∀ bytes ∈ ranges, Regular bytes)
    (n : Nat) (b : Byte) (chars : List Byte) :
    ∃ ok, anyGood n (b :: (chars ++ 0 :: behind)) ranges = some ok ∧ (ok = true ↔
      ∃ bytes ∈ ranges, bytes.length = n ∧ Starts (bytes.map unsigned) (b :: chars)) := by
  induction ranges with
  | nil => exact ⟨false, rfl, by simp⟩
  | cons bytes ranges ih =>
    obtain ⟨ok, hany, hok⟩ := ih fun bytes h => hranges bytes (List.mem_cons_of_mem _ h)
    rw [anyGood]
    by_cases hlen : bytes.length = n
    · rw [if_pos hlen]
      obtain ⟨fits, hgood, hfits⟩ := good_row behind (hranges bytes List.mem_cons_self) b chars
      rw [hgood]
      cases fits with
      | true =>
        exact ⟨true, rfl, iff_of_true rfl ⟨bytes, List.mem_cons_self, hlen, hfits.mp rfl⟩⟩
      | false =>
        refine ⟨ok, hany, hok.trans ?_⟩
        rw [List.exists_mem_cons_iff, or_iff_right]
        exact fun h => Bool.false_ne_true (hfits.mpr h.2)
    · rw [if_neg hlen]
      refine ⟨ok, hany, hok.trans ?_⟩
      rw [List.exists_mem_cons_iff, or_iff_right]
      exact fun h => hlen h.1

/-- The first byte of a row tells its length. -/
theorem charlenOf_row : ∀ bytes ∈ validRanges, ∀ b : Byte,
    InRange (unsigned (bytes.headD (0, 0))) b.toNat → charlenOf b = bytes.length := by
  decide +kernel

theorem charlenOf_starts {bytes : List (Byte × Byte)} (hmem : bytes ∈ validRanges) {b : Byte}
    {chars : List Byte} (h : Starts (bytes.map unsigned) (b :: chars)) :
    charlenOf b = bytes.length := by
  obtain ⟨hpos, -, -⟩ := regular_of_mem bytes hmem
  cases bytes with
  | nil => exact absurd rfl hpos
  | cons r bytes => exact charlenOf_row _ hmem b (starts_cons_iff.mp h).1

/-- The rows of one length are all that can match. -/
theorem starts_iff (b : Byte) (chars : List Byte) :
    (∃ bytes ∈ validRanges, bytes.length = charlenOf b ∧
        Starts (bytes.map unsigned) (b :: chars)) ↔
      ∃ c tail, b :: chars = encodeChar c ++ tail ∧ (encodeChar c).length = charlenOf b := by
  constructor
  · intro ⟨bytes, hmem, hlen, front, tail, hchars, hfits⟩
    have hrow : bytes.map unsigned ∈ wellFormed := by
      rw [← unsigned_validRanges]
      exact List.mem_map_of_mem hmem
    obtain ⟨c, rfl⟩ := (fits_iff front).mp ⟨_, hrow, hfits⟩
    refine ⟨c, tail, hchars, ?_⟩
    have hlength := hfits.length_eq
    rw [List.length_map, List.length_map] at hlength
    rw [← hlength, hlen]
  · intro ⟨c, tail, hchars, hlen⟩
    obtain ⟨row, hrow, hfits⟩ := (fits_iff (encodeChar c)).mpr ⟨c, rfl⟩
    rw [← unsigned_validRanges] at hrow
    obtain ⟨bytes, hmem, rfl⟩ := List.mem_map.mp hrow
    have hlength := hfits.length_eq
    rw [List.length_map, List.length_map] at hlength
    exact ⟨bytes, hmem, by rw [hlength, hlen], encodeChar c, tail, hchars, hfits⟩

/-- A character has as many bytes as its first one tells. -/
theorem length_encodeChar {b : Byte} {chars tail : List Byte} {c : Char}
    (h : b :: chars = encodeChar c ++ tail) : (encodeChar c).length = charlenOf b := by
  obtain ⟨row, hrow, hfits⟩ := (fits_iff (encodeChar c)).mpr ⟨c, rfl⟩
  rw [← unsigned_validRanges] at hrow
  obtain ⟨bytes, hmem, rfl⟩ := List.mem_map.mp hrow
  have hlength := hfits.length_eq
  rw [List.length_map, List.length_map] at hlength
  rw [charlenOf_starts hmem ⟨_, tail, h, hfits⟩, hlength]

/-- The pointer moves behind the character the string starts with, if it starts with one. -/
theorem charValidate_spec {len : Int} {b : Byte} {chars : List Byte}
    (hlen : (chars.length + 1 : Int) ≤ len) :
    ∃ found, utf8CharValidate len (b :: (chars ++ 0 :: behind)) = some found ∧
      ((∃ n, found = some n) ↔ ∃ c tail, b :: chars = encodeChar c ++ tail) ∧
      ∀ n, found = some n → n = charlenOf b := by
  have hiff : (∃ c tail, b :: chars = encodeChar c ++ tail) ↔
      ∃ c tail, b :: chars = encodeChar c ++ tail ∧ (encodeChar c).length = charlenOf b :=
    ⟨fun ⟨c, tail, h⟩ => ⟨c, tail, h, length_encodeChar h⟩, fun ⟨c, tail, h, _⟩ => ⟨c, tail, h⟩⟩
  rw [utf8CharValidate]
  by_cases hshort : len < charlenOf b
  · rw [if_pos hshort]
    refine ⟨none, rfl, iff_of_false (fun ⟨n, h⟩ => Option.some_ne_none n h.symm) ?_, nofun⟩
    intro ⟨c, tail, h⟩
    have hle := congrArg List.length h
    rw [List.length_append, length_encodeChar h, List.length_cons] at hle
    omega
  · rw [if_neg hshort]
    obtain ⟨ok, hany, hok⟩ := anyGood_spec behind regular_of_mem (charlenOf b) b chars
    rw [hany, hiff, ← starts_iff, ← hok]
    cases ok with
    | false => exact ⟨none, rfl, iff_of_false (fun ⟨n, h⟩ => nomatch h) Bool.false_ne_true, nofun⟩
    | true => exact ⟨some _, rfl, iff_of_true ⟨_, rfl⟩ rfl, fun n h => (Option.some.inj h).symm⟩

end Character

section String
variable (behind : List Byte)

theorem encode_cons (c : Char) (cs : List Char) : encode (c :: cs) = encodeChar c ++ encode cs := rfl

theorem encodeChar_ne_nil (c : Char) : encodeChar c ≠ [] := by
  intro h
  obtain ⟨row, hrow, hfits⟩ := (fits_iff (encodeChar c)).mpr ⟨c, rfl⟩
  rw [h] at hfits
  cases hfits
  exact absurd hrow (by decide)

/-- Characters cannot be read off a string in two ways. -/
theorem encode_of_append {c c' : Char} {cs : List Char} {tail : List Byte}
    (h : encode (c' :: cs) = encodeChar c ++ tail) : tail = encode cs := by
  rw [encode_cons] at h
  cases hc : encodeChar c' with
  | nil => exact absurd hc (encodeChar_ne_nil c')
  | cons b bs =>
    rw [hc, List.cons_append] at h
    have hlen := length_encodeChar h
    have hlen' : (encodeChar c').length = charlenOf b :=
      length_encodeChar (show b :: (bs ++ encode cs) = encodeChar c' ++ encode cs by rw [hc]; rfl)
    have happ : encodeChar c' ++ encode cs = encodeChar c ++ tail := by
      rw [hc, List.cons_append]
      exact h
    exact (List.append_inj happ (hlen'.trans hlen.symm)).2.symm

/-- By induction on what is left of the string. -/
theorem validateLoop_spec {len : Int} {turns : Nat} {chars : List Byte}
    (hlen : (chars.length : Int) ≤ len) (hturns : chars.length ≤ turns) :
    ∃ ok, validateLoop len turns chars.length (chars ++ 0 :: behind) = some ok ∧
      (ok = true ↔ ∃ cs, chars = encode cs) := by
  induction turns generalizing chars with
  | zero =>
    obtain rfl := List.length_eq_zero_iff.mp (Nat.le_zero.mp hturns)
    exact ⟨true, rfl, iff_of_true rfl ⟨[], rfl⟩⟩
  | succ turns ih =>
    rw [validateLoop]
    cases chars with
    | nil => exact ⟨true, rfl, iff_of_true rfl ⟨[], rfl⟩⟩
    | cons b chars =>
      rw [List.length_cons] at hlen hturns
      rw [if_neg (by rw [List.length_cons]; omega), List.cons_append]
      have hfits : (chars.length + 1 : Int) ≤ len := by omega
      obtain ⟨found, hfound, hiff, hn⟩ := charValidate_spec behind (b := b) hfits
      rw [hfound]
      cases found with
      | none =>
        refine ⟨false, rfl, iff_of_false Bool.false_ne_true ?_⟩
        intro ⟨cs, hcs⟩
        cases cs with
        | nil => cases hcs
        | cons c cs => exact absurd (hiff.mpr ⟨c, _, hcs⟩) (fun ⟨n, h⟩ => nomatch h)
      | some n =>
        obtain ⟨c, tail, hchars⟩ := hiff.mp ⟨n, rfl⟩
        obtain rfl := hn n rfl
        have hlength := length_encodeChar hchars
        have hpos := List.length_pos_iff.mpr (encodeChar_ne_nil c)
        have htail := congrArg List.length hchars
        rw [List.length_append, List.length_cons] at htail
        have hfits' : (tail.length : Int) ≤ len := by omega
        obtain ⟨ok, hloop, hok⟩ := ih hfits' (by omega)
        have hdrop : (b :: (chars ++ 0 :: behind)).drop (charlenOf b) = tail ++ 0 :: behind := by
          rw [← List.cons_append, hchars, List.append_assoc, ← hlength, List.drop_left]
        have hleft : (((b :: chars).length : Nat) : Int) - (charlenOf b : Nat) = (tail.length : Nat) := by
          rw [List.length_cons]
          omega
        dsimp only
        rw [hdrop, hleft]
        refine ⟨ok, hloop, hok.trans ⟨fun ⟨cs, hcs⟩ => ⟨c :: cs, ?_⟩, fun ⟨cs, hcs⟩ => ?_⟩⟩
        · rw [hchars, hcs, encode_cons]
        · cases cs with
          | nil => cases hcs
          | cons c' cs => exact ⟨cs, encode_of_append (hcs.symm.trans hchars)⟩

/-- The first turn is one of the loop. -/
theorem validateString_eq_loop (s : CString) (h : s.strlen < 2 ^ 31) :
    utf8ValidateString s behind =
      validateLoop s.strlen (s.strlen + 1) s.strlen (s.chars ++ 0 :: behind) := by
  have hint : (BitVec.ofNat 32 s.strlen).toInt = s.strlen := by
    rw [BitVec.toInt_eq_toNat_of_lt (by rw [BitVec.toNat_ofNat]; omega), BitVec.toNat_ofNat]
    omega
  rw [utf8ValidateString, hint, utf8Validate]
  by_cases hempty : s.strlen = 0
  · rw [if_pos (by rw [hempty]; rfl), validateLoop, if_pos (by omega)]
  · rw [if_neg (by omega), validateLoop, if_neg (by omega)]
    rfl

/-- A string passes exactly if it is the encoding of some characters, whatever is in memory
behind it. -/
theorem validateString_iff (s : CString) (h : s.strlen < 2 ^ 31) :
    ∃ ok, (∀ behind, utf8ValidateString s behind = some ok) ∧
      (ok = true ↔ ∃ cs, s.chars = encode cs) := by
  obtain ⟨ok, -, hok⟩ := validateLoop_spec [] (le_refl (s.chars.length : Int)) (Nat.le_succ _)
  refine ⟨ok, fun behind => ?_, hok⟩
  obtain ⟨ok', hloop, hok'⟩ := validateLoop_spec behind (le_refl (s.chars.length : Int))
    (Nat.le_succ _)
  rw [Bool.eq_iff_iff.mpr (hok.trans hok'.symm), ← hloop]
  exact validateString_eq_loop behind s h

/-- Two characters of three bytes each. -/
theorem validateString_hanguk : ∃ ok,
    (∀ behind, utf8ValidateString ⟨[0xED, 0x95, 0x9C, 0xEA, 0xB5, 0xAD], by decide⟩ behind = some ok) ∧
      (ok = true ↔ ∃ cs, [0xED, 0x95, 0x9C, 0xEA, 0xB5, 0xAD] = encode cs) :=
  validateString_iff ⟨[0xED, 0x95, 0x9C, 0xEA, 0xB5, 0xAD], by decide⟩ (by decide)

end String

section Ascii
variable {len : Int} {b : Byte}

end Ascii

end Hamster.Contract.TopicNames
