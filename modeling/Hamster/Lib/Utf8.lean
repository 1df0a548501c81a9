import Hamster.Lib.Bytes

/-!
# UTF-8

The bytes of a character, and the well-formed byte sequences as a table of ranges. The
sequences that match a row are the encodings of the characters.
-/
namespace Hamster.Lib.Utf8

open Bytes

def encodeChar (c : Char) : List Byte := (String.utf8EncodeChar c).map (·.toBitVec)

def encode (cs : List Char) : List Byte := cs.flatMap encodeChar

/-- The least and the greatest byte. -/
abbrev Range := Nat × Nat

/-- One range for each byte, in order. -/
abbrev Row := List Range

def wellFormed : List Row :=
  [[(0x00, 0x7F)],
    [(0xC2, 0xDF), (0x80, 0xBF)],
    [(0xE0, 0xE0), (0xA0, 0xBF), (0x80, 0xBF)],
    [(0xE1, 0xEC), (0x80, 0xBF), (0x80, 0xBF)],
    [(0xED, 0xED), (0x80, 0x9F), (0x80, 0xBF)],
    [(0xEE, 0xEF), (0x80, 0xBF), (0x80, 0xBF)],
    [(0xF0, 0xF0), (0x90, 0xBF), (0x80, 0xBF), (0x80, 0xBF)],
    [(0xF1, 0xF3), (0x80, 0xBF), (0x80, 0xBF), (0x80, 0xBF)],
    [(0xF4, 0xF4), (0x80, 0x8F), (0x80, 0xBF), (0x80, 0xBF)]]

def InRange (r : Range) (n : Nat) : Prop := r.1 ≤ n ∧ n ≤ r.2

instance (r : Range) (n : Nat) : Decidable (InRange r n) := inferInstanceAs (Decidable (_ ∧ _))

/-- Byte by byte. -/
def Fits (row : Row) (bs : List Byte) : Prop := List.Forall₂ InRange row (bs.map BitVec.toNat)

/-- Not a surrogate, and not above the last. -/
def Scalar (v : Nat) : Prop := v < 0xD800 ∨ 0xDFFF < v ∧ v < 0x110000

/-- The bytes of a code point, as numbers. -/
def digits (v : Nat) : List Nat :=
  if v ≤ 0x7F then [v]
  else if v ≤ 0x7FF then [v / 64 % 32 + 0xC0, v % 64 + 0x80]
  else if v ≤ 0xFFFF then [v / 4096 % 16 + 0xE0, v / 64 % 64 + 0x80, v % 64 + 0x80]
  else [v / 262144 % 8 + 0xF0, v / 4096 % 64 + 0x80, v / 64 % 64 + 0x80, v % 64 + 0x80]

theorem digits_one {v : Nat} (h : v ≤ 0x7F) : digits v = [v] := if_pos h

theorem digits_two {v : Nat} (h : 0x7F < v) (h' : v ≤ 0x7FF) :
    digits v = [v / 64 % 32 + 0xC0, v % 64 + 0x80] := by
  rw [digits, if_neg (by omega), if_pos h']

theorem digits_three {v : Nat} (h : 0x7FF < v) (h' : v ≤ 0xFFFF) :
    digits v = [v / 4096 % 16 + 0xE0, v / 64 % 64 + 0x80, v % 64 + 0x80] := by
  rw [digits, if_neg (by omega), if_neg (by omega), if_pos h']

theorem digits_four {v : Nat} (h : 0xFFFF < v) : digits v =
    [v / 262144 % 8 + 0xF0, v / 4096 % 64 + 0x80, v / 64 % 64 + 0x80, v % 64 + 0x80] := by
  rw [digits, if_neg (by omega), if_neg (by omega), if_neg (by omega)]

theorem encodeChar_digits (c : Char) : (encodeChar c).map BitVec.toNat = digits c.toNat := by
  have hv : c.toNat = c.val.toNat := rfl
  rw [hv, digits, encodeChar, String.utf8EncodeChar]
  generalize c.val.toNat = v
  split
  · simp only [List.map_cons, List.map_nil, UInt8.toNat_toBitVec, UInt8.toNat_ofNat',
      List.cons.injEq, and_true]
    omega
  · split
    · simp only [List.map_cons, List.map_nil, UInt8.toNat_toBitVec, UInt8.toNat_ofNat',
        List.cons.injEq, and_true]
      omega
    · split
      · simp only [List.map_cons, List.map_nil, UInt8.toNat_toBitVec, UInt8.toNat_ofNat',
          List.cons.injEq, and_true]
        omega
      · simp only [List.map_cons, List.map_nil, UInt8.toNat_toBitVec, UInt8.toNat_ofNat',
          List.cons.injEq, and_true]
        omega

theorem eq_encodeChar_iff {bs : List Byte} {c : Char} :
    bs = encodeChar c ↔ bs.map BitVec.toNat = digits c.toNat := by
  rw [← encodeChar_digits]
  constructor
  · intro h
    rw [h]
  · intro h
    exact List.map_injective_iff.mpr (fun _ _ => BitVec.eq_of_toNat_eq) h

theorem exists_char {v : Nat} (h : Scalar v) : ∃ c : Char, c.toNat = v := by
  refine ⟨Char.ofNat v, ?_⟩
  have hv : v.isValidChar := h
  rw [Char.ofNat, dif_pos hv]
  rfl

section Rows
variable {q r t u : Range} {ns : List Nat}

theorem row_one (h : List.Forall₂ InRange [r] ns) : ∃ a, ns = [a] ∧ InRange r a := by
  obtain ⟨a, _, hr, hnil, rfl⟩ := List.forall₂_cons_left_iff.mp h
  rw [List.forall₂_nil_left_iff.mp hnil]
  exact ⟨a, rfl, hr⟩

theorem row_two (h : List.Forall₂ InRange [r, t] ns) :
    ∃ a b, ns = [a, b] ∧ InRange r a ∧ InRange t b := by
  obtain ⟨a, _, hr, htail, rfl⟩ := List.forall₂_cons_left_iff.mp h
  obtain ⟨b, rfl, ht⟩ := row_one htail
  exact ⟨a, b, rfl, hr, ht⟩

theorem row_three (h : List.Forall₂ InRange [r, t, u] ns) :
    ∃ a b c, ns = [a, b, c] ∧ InRange r a ∧ InRange t b ∧ InRange u c := by
  obtain ⟨a, _, hr, htail, rfl⟩ := List.forall₂_cons_left_iff.mp h
  obtain ⟨b, c, rfl, ht, hu⟩ := row_two htail
  exact ⟨a, b, c, rfl, hr, ht, hu⟩

theorem row_four (h : List.Forall₂ InRange [q, r, t, u] ns) : ∃ a b c d, ns = [a, b, c, d] ∧
    InRange q a ∧ InRange r b ∧ InRange t c ∧ InRange u d := by
  obtain ⟨a, _, hq, htail, rfl⟩ := List.forall₂_cons_left_iff.mp h
  obtain ⟨b, c, d, rfl, hr, ht, hu⟩ := row_three htail
  exact ⟨a, b, c, d, rfl, hq, hr, ht, hu⟩

end Rows

theorem digits_of_two {a b : Nat} (ha : InRange (0xC2, 0xDF) a) (hb : InRange (0x80, 0xBF) b) :
    ∃ v, Scalar v ∧ [a, b] = digits v := by
  unfold InRange at ha hb
  obtain ⟨v, hv⟩ : ∃ v, v = (a - 0xC0) * 64 + (b - 0x80) := ⟨_, rfl⟩
  refine ⟨v, .inl (by omega), ?_⟩
  rw [digits_two (by omega) (by omega)]
  simp only [List.cons.injEq, and_true]
  omega

/-- The second byte keeps clear of shorter forms and of the surrogates. -/
theorem digits_of_three {a b c : Nat} (ha : InRange (0xE0, 0xEF) a) (hb : InRange (0x80, 0xBF) b)
    (hc : InRange (0x80, 0xBF) c) (hlong : a = 0xE0 → 0xA0 ≤ b) (hpair : a = 0xED → b ≤ 0x9F) :
    ∃ v, Scalar v ∧ [a, b, c] = digits v := by
  unfold InRange at ha hb hc
  obtain ⟨v, hv⟩ : ∃ v, v = (a - 0xE0) * 4096 + (b - 0x80) * 64 + (c - 0x80) := ⟨_, rfl⟩
  have hscalar : Scalar v := by
    unfold Scalar
    omega
  refine ⟨v, hscalar, ?_⟩
  rw [digits_three (by omega) (by omega)]
  simp only [List.cons.injEq, and_true]
  omega

/-- The second byte keeps clear of shorter forms and of what is too large. -/
theorem digits_of_four {a b c d : Nat} (ha : InRange (0xF0, 0xF4) a) (hb : InRange (0x80, 0xBF) b)
    (hc : InRange (0x80, 0xBF) c) (hd : InRange (0x80, 0xBF) d) (hlong : a = 0xF0 → 0x90 ≤ b)
    (hlast : a = 0xF4 → b ≤ 0x8F) : ∃ v, Scalar v ∧ [a, b, c, d] = digits v := by
  unfold InRange at ha hb hc hd
  obtain ⟨v, hv⟩ : ∃ v, v = (a - 0xF0) * 262144 + (b - 0x80) * 4096 + (c - 0x80) * 64 + (d - 0x80) :=
    ⟨_, rfl⟩
  have hscalar : Scalar v := by
    unfold Scalar
    omega
  refine ⟨v, hscalar, ?_⟩
  rw [digits_four (by omega)]
  simp only [List.cons.injEq, and_true]
  omega

theorem digits_of_row {row : Row} {ns : List Nat} (hrow : row ∈ wellFormed)
    (h : List.Forall₂ InRange row ns) : ∃ v, Scalar v ∧ ns = digits v := by
  simp only [wellFormed, List.mem_cons, List.not_mem_nil, or_false] at hrow
  rcases hrow with rfl | rfl | rfl | rfl | rfl | rfl | rfl | rfl | rfl
  · obtain ⟨a, rfl, ha⟩ := row_one h
    unfold InRange at ha
    exact ⟨a, .inl (by omega), (digits_one (by omega)).symm⟩
  · obtain ⟨a, b, rfl, ha, hb⟩ := row_two h
    exact digits_of_two ha hb
  iterate 4
    · obtain ⟨a, b, c, rfl, ha, hb, hc⟩ := row_three h
      unfold InRange at ha hb
      exact digits_of_three ⟨by omega, by omega⟩ ⟨by omega, by omega⟩ hc (by omega) (by omega)
  all_goals
    obtain ⟨a, b, c, d, rfl, ha, hb, hc, hd⟩ := row_four h
    unfold InRange at ha hb
    exact digits_of_four ⟨by omega, by omega⟩ ⟨by omega, by omega⟩ hc hd (by omega) (by omega)

theorem inRange {low high n : Nat} (h : low ≤ n) (h' : n ≤ high) : InRange (low, high) n := ⟨h, h'⟩

theorem row_of_three {v : Nat} (h : 0x7FF < v) (h' : v ≤ 0xFFFF) (hs : Scalar v) :
    ∃ row ∈ wellFormed, List.Forall₂ InRange row (digits v) := by
  unfold Scalar at hs
  rw [digits_three h h']
  have hlast : InRange (0x80, 0xBF) (v % 64 + 0x80) := inRange (by omega) (by omega)
  by_cases h1 : v < 0x1000
  · exact ⟨[(0xE0, 0xE0), (0xA0, 0xBF), (0x80, 0xBF)], by decide,
      .cons (inRange (by omega) (by omega)) (.cons (inRange (by omega) (by omega)) (.cons hlast .nil))⟩
  by_cases h2 : v < 0xD000
  · exact ⟨[(0xE1, 0xEC), (0x80, 0xBF), (0x80, 0xBF)], by decide,
      .cons (inRange (by omega) (by omega)) (.cons (inRange (by omega) (by omega)) (.cons hlast .nil))⟩
  by_cases h3 : v < 0xE000
  · exact ⟨[(0xED, 0xED), (0x80, 0x9F), (0x80, 0xBF)], by decide,
      .cons (inRange (by omega) (by omega)) (.cons (inRange (by omega) (by omega)) (.cons hlast .nil))⟩
  · exact ⟨[(0xEE, 0xEF), (0x80, 0xBF), (0x80, 0xBF)], by decide,
      .cons (inRange (by omega) (by omega)) (.cons (inRange (by omega) (by omega)) (.cons hlast .nil))⟩

theorem row_of_four {v : Nat} (h : 0xFFFF < v) (hs : Scalar v) :
    ∃ row ∈ wellFormed, List.Forall₂ InRange row (digits v) := by
  unfold Scalar at hs
  rw [digits_four h]
  have hlast : List.Forall₂ InRange [(0x80, 0xBF), (0x80, 0xBF)] [v / 64 % 64 + 0x80, v % 64 + 0x80] :=
    .cons (inRange (by omega) (by omega)) (.cons (inRange (by omega) (by omega)) .nil)
  by_cases h1 : v < 0x40000
  · exact ⟨[(0xF0, 0xF0), (0x90, 0xBF), (0x80, 0xBF), (0x80, 0xBF)], by decide,
      .cons (inRange (by omega) (by omega)) (.cons (inRange (by omega) (by omega)) hlast)⟩
  by_cases h2 : v < 0x100000
  · exact ⟨[(0xF1, 0xF3), (0x80, 0xBF), (0x80, 0xBF), (0x80, 0xBF)], by decide,
      .cons (inRange (by omega) (by omega)) (.cons (inRange (by omega) (by omega)) hlast)⟩
  · exact ⟨[(0xF4, 0xF4), (0x80, 0x8F), (0x80, 0xBF), (0x80, 0xBF)], by decide,
      .cons (inRange (by omega) (by omega)) (.cons (inRange (by omega) (by omega)) hlast)⟩

/-- Which row it is depends on the size of the code point. -/
theorem row_of_digits {v : Nat} (h : Scalar v) :
    ∃ row ∈ wellFormed, List.Forall₂ InRange row (digits v) := by
  by_cases h1 : v ≤ 0x7F
  · rw [digits_one h1]
    exact ⟨[(0x00, 0x7F)], by decide, .cons (inRange (by omega) h1) .nil⟩
  by_cases h2 : v ≤ 0x7FF
  · rw [digits_two (by omega) h2]
    exact ⟨[(0xC2, 0xDF), (0x80, 0xBF)], by decide,
      .cons (inRange (by omega) (by omega)) (.cons (inRange (by omega) (by omega)) .nil)⟩
  by_cases h3 : v ≤ 0xFFFF
  · exact row_of_three (by omega) h3 h
  · exact row_of_four (by omega) h

/-- A row fits exactly the encodings of the characters. -/
theorem fits_iff (bs : List Byte) : (∃ row ∈ wellFormed, Fits row bs) ↔ ∃ c, bs = encodeChar c := by
  constructor
  · intro ⟨row, hrow, h⟩
    obtain ⟨v, hv, hdigits⟩ := digits_of_row hrow h
    obtain ⟨c, rfl⟩ := exists_char hv
    exact ⟨c, eq_encodeChar_iff.mpr hdigits⟩
  · intro ⟨c, h⟩
    obtain ⟨row, hrow, hfits⟩ := row_of_digits (show Scalar c.toNat from c.valid)
    rw [← eq_encodeChar_iff.mp h] at hfits
    exact ⟨row, hrow, hfits⟩

end Hamster.Lib.Utf8
