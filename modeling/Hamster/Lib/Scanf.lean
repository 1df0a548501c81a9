import Hamster.Lib.Bytes

/-!
# Numbers in text

`%i` as `sscanf` reads it and as `sprintf` writes it. Reading skips white space and
takes a sign and a base prefix; a number that was written is read back.
-/
namespace Hamster.Lib.Scanf

open Bytes

/-- The bytes of a text in ASCII. -/
def ascii (s : String) : List Byte := s.toList.map fun c => BitVec.ofNat 8 c.toNat

def newline : Byte := 10

/-- `isspace` in the C locale. -/
def isSpace (b : Byte) : Bool := b = 32 || 9 ≤ b.toNat && b.toNat ≤ 13

/-- The value of a digit, and 16 for what is no digit in any base that is read. -/
def digitVal (b : Byte) : Nat :=
  if 48 ≤ b.toNat ∧ b.toNat ≤ 57 then b.toNat - 48
  else if 97 ≤ b.toNat ∧ b.toNat ≤ 102 then b.toNat - 87
  else if 65 ≤ b.toNat ∧ b.toNat ≤ 70 then b.toNat - 55
  else 16

/-- The number the leading digits spell, if there is one. -/
def number (base : Nat) (bs : List Byte) : Option Nat :=
  let digits := bs.takeWhile fun b => digitVal b < base
  if digits = [] then none
  else some (digits.foldl (fun v b => base * v + digitVal b) 0)

/-- `0x` announces a hexadecimal number, another leading zero an octal one. -/
def magnitude (bs : List Byte) : Option Nat :=
  if bs.head? = some 48 then
    if bs[1]? = some 120 ∨ bs[1]? = some 88 then number 16 (bs.drop 2) else number 8 bs
  else number 10 bs

/-- The conversion `%i`; `none` is a matching failure. -/
def scanInt (bs : List Byte) : Option Int :=
  let bs := bs.dropWhile isSpace
  if bs.head? = some 45 then (magnitude bs.tail).map fun n : Nat => -(n : Int)
  else if bs.head? = some 43 then (magnitude bs.tail).map fun n : Nat => (n : Int)
  else (magnitude bs).map fun n : Nat => (n : Int)

/-- The value an `int` receives: converted as `strtol` does, then cut to its width. -/
def storeInt (v : Int) : BitVec 32 := BitVec.ofInt 32 (max (-2 ^ 63) (min v (2 ^ 63 - 1)))

/-- `sscanf(mem, "<literal>%i", &x)`: the variable keeps its value when the text does
not match. -/
def sscanf (literal mem : List Byte) (x : BitVec 32) : BitVec 32 :=
  let chars := (cstr mem).chars
  if literal <+: chars then ((scanInt (chars.drop literal.length)).map storeInt).getD x else x

def decimal (n : Nat) : List Byte := (Nat.toDigits 10 n).map fun c => BitVec.ofNat 8 c.toNat

/-- The conversion `%i` of `sprintf`. -/
def printInt (i : Int) : List Byte :=
  if i < 0 then 45 :: decimal i.natAbs else decimal i.natAbs

section Digits
variable {n : Nat} {b : Byte} {rest : List Byte}

/-- A decimal digit. -/
def IsDigit (b : Byte) : Prop := 48 ≤ b.toNat ∧ b.toNat ≤ 57

theorem digitVal_of_isDigit (h : IsDigit b) : digitVal b = b.toNat - 48 := if_pos h

theorem digitVal_lt (h : IsDigit b) : digitVal b < 10 := by
  rw [digitVal_of_isDigit h]
  have hle := h.2
  omega

theorem toNat_digit {c : Char} (h : c.isDigit = true) :
    (BitVec.ofNat 8 c.toNat).toNat = c.toNat ∧ 48 ≤ c.toNat ∧ c.toNat ≤ 57 := by
  have hrange : 48 ≤ c.toNat ∧ c.toNat ≤ 57 := by
    simp only [Char.isDigit, Bool.and_eq_true, decide_eq_true_eq, ge_iff_le,
      UInt32.le_iff_toNat_le] at h
    exact h
  refine ⟨?_, hrange⟩
  rw [BitVec.toNat_ofNat]
  omega

theorem isDigit_of_mem_decimal (h : b ∈ decimal n) : IsDigit b := by
  obtain ⟨c, hc, rfl⟩ := List.mem_map.mp h
  obtain ⟨he, hrange⟩ := toNat_digit (Nat.isDigit_of_mem_toDigits (by decide) (by decide) hc)
  rwa [IsDigit, he]

theorem decimal_ne_nil (n : Nat) : decimal n ≠ [] := by
  simp [decimal, Nat.toDigits_ne_nil]

theorem foldl_digits (cs : List Char) (hcs : ∀ c ∈ cs, c.isDigit = true) (v : Nat) :
    (cs.map fun c => BitVec.ofNat 8 c.toNat).foldl (fun v b => 10 * v + digitVal b) v =
      Nat.ofDigitChars 10 cs v := by
  induction cs generalizing v with
  | nil => rfl
  | cons c cs ih =>
    obtain ⟨he, hrange⟩ := toNat_digit (hcs c (by simp))
    have hval : digitVal (BitVec.ofNat 8 c.toNat) = c.toNat - 48 := by
      rw [digitVal_of_isDigit (by rwa [IsDigit, he]), he]
    rw [List.map_cons, List.foldl_cons, hval, ih (fun x hx => hcs x (by simp [hx])),
      Nat.ofDigitChars_cons]
    rfl

/-- A text that goes on with no digit ends the number. -/
theorem number_decimal (n : Nat) (hrest : ∀ b ∈ rest.head?, 10 ≤ digitVal b) :
    number 10 (decimal n ++ rest) = some n := by
  have hstop : rest.takeWhile (fun b => decide (digitVal b < 10)) = [] := by
    cases rest with
    | nil => rfl
    | cons b rest =>
      have hb := hrest b rfl
      exact List.takeWhile_cons_of_neg (by simpa using hb)
  have htake : (decimal n ++ rest).takeWhile (fun b => decide (digitVal b < 10)) = decimal n := by
    rw [List.takeWhile_append_of_pos fun b hb => by
      simpa using digitVal_lt (isDigit_of_mem_decimal hb), hstop, List.append_nil]
  have hvalue := foldl_digits (Nat.toDigits 10 n)
    (fun c hc => Nat.isDigit_of_mem_toDigits (by decide) (by decide) hc) 0
  rw [Nat.ofDigitChars_ten_toDigits] at hvalue
  rw [number, htake, if_neg (decimal_ne_nil n)]
  exact congrArg some hvalue

theorem head?_decimal_of_lt : ∀ n < 10, n ≠ 0 → (decimal n).head? ≠ some 48 := by decide

/-- A number other than zero is not written with a leading zero. -/
theorem head?_decimal (hn : n ≠ 0) : (decimal n).head? ≠ some 48 := by
  induction n using Nat.strong_induction_on with
  | h n ih =>
    rcases Nat.lt_or_ge n 10 with hlt | hge
    · exact head?_decimal_of_lt n hlt hn
    · have hsplit : decimal n = decimal (n / 10) ++ [BitVec.ofNat 8 (n % 10).digitChar.toNat] := by
        rw [decimal, Nat.toDigits_of_base_le (by decide) hge, List.map_append]
        rfl
      have hhead := ih (n / 10) (by omega) (by omega)
      rw [hsplit, List.head?_append_of_ne_nil _ (decimal_ne_nil _)]
      exact hhead

end Digits

section RoundTrip
variable {rest : List Byte} {b : Byte}

/-- The text ends, or goes on with a new line. -/
def LineEnds (rest : List Byte) : Prop := ∀ b ∈ rest.head?, b = newline

theorem lineEnds_nil : LineEnds [] := fun _ hb => nomatch hb

theorem magnitude_decimal (n : Nat) (hrest : LineEnds rest) :
    magnitude (decimal n ++ rest) = some n := by
  rcases Nat.eq_zero_or_pos n with rfl | hpos
  · have hzero : decimal 0 ++ rest = 48 :: rest := rfl
    have hstop : rest.takeWhile (fun b => decide (digitVal b < 8)) = [] := by
      cases rest with
      | nil => rfl
      | cons b rest =>
        obtain rfl := hrest b rfl
        rfl
    have hx : rest.head? ≠ some 120 ∧ rest.head? ≠ some 88 := by
      constructor
      all_goals
        intro h
        have hb := hrest _ h
        revert hb
        decide
    have hnext : (48 :: rest)[1]? = rest.head? := by cases rest <;> rfl
    have hdigit : digitVal 48 < 8 := by decide
    have hhead : (48 :: rest).head? = some 48 := rfl
    rw [hzero, magnitude, if_pos hhead, hnext, if_neg (not_or.mpr hx), number,
      List.takeWhile_cons_of_pos (by simpa using hdigit), hstop]
    rfl
  · have hhead : (decimal n ++ rest).head? ≠ some 48 := by
      rw [List.head?_append_of_ne_nil _ (decimal_ne_nil n)]
      exact head?_decimal hpos.ne'
    rw [magnitude, if_neg hhead]
    apply number_decimal
    intro b hb
    obtain rfl := hrest b hb
    decide

theorem isSpace_of_isDigit (h : IsDigit b) : isSpace b = false := by
  have hlo := h.1
  have hne : b ≠ 32 := by
    rintro rfl
    exact absurd hlo (by decide)
  have hhi : ¬ b.toNat ≤ 13 := by omega
  rw [isSpace, decide_eq_false hne, decide_eq_false hhi, Bool.and_false, Bool.or_false]

/-- What `sprintf` wrote on a line `sscanf` reads. -/
theorem scanInt_printInt (i : Int) (hrest : LineEnds rest) :
    scanInt (printInt i ++ rest) = some i := by
  obtain ⟨d, ds, hd⟩ := List.exists_cons_of_ne_nil (decimal_ne_nil i.natAbs)
  have hdigit : IsDigit d := isDigit_of_mem_decimal (n := i.natAbs) (by simp [hd])
  have hread := magnitude_decimal i.natAbs hrest
  rw [scanInt, printInt]
  split
  · rename_i hneg
    rw [List.cons_append, List.dropWhile_cons_of_neg (by decide), if_pos List.head?_cons,
      List.tail_cons, hread, Option.map_some]
    congr 1
    omega
  · rename_i hpos
    have hminus : (d :: (ds ++ rest)).head? ≠ some 45 := by
      rintro ⟨⟩
      exact absurd hdigit.1 (by decide)
    have hplus : (d :: (ds ++ rest)).head? ≠ some 43 := by
      rintro ⟨⟩
      exact absurd hdigit.1 (by decide)
    rw [hd, List.cons_append] at hread ⊢
    rw [List.dropWhile_cons_of_neg (by simp [isSpace_of_isDigit hdigit]), if_neg hminus,
      if_neg hplus, hread, Option.map_some]
    congr 1
    omega

theorem storeInt_toInt (x : BitVec 32) : storeInt x.toInt = x := by
  have hlo := BitVec.le_toInt x
  have hhi := BitVec.toInt_lt (x := x)
  rw [storeInt, min_eq_left (by omega), max_eq_right (by omega), BitVec.ofInt_toInt]

theorem isText_printInt {i : Int} (h : b ∈ printInt i) : b = 45 ∨ IsDigit b := by
  unfold printInt at h
  split at h
  · rcases List.mem_cons.mp h with rfl | h
    · exact .inl rfl
    · exact .inr (isDigit_of_mem_decimal h)
  · exact .inr (isDigit_of_mem_decimal h)

theorem ne_of_mem_printInt {i : Int} (h : b ∈ printInt i) : b ≠ 0 ∧ b ≠ newline := by
  rcases isText_printInt h with rfl | hd
  · decide
  · constructor
    · rintro rfl
      exact absurd hd.1 (by decide)
    · rintro rfl
      exact absurd hd.1 (by decide)

/-- A sign and ten digits. -/
theorem length_printInt (x : BitVec 32) : (printInt x.toInt).length ≤ 11 := by
  have hlow := BitVec.le_toInt x
  have hhigh := BitVec.toInt_lt (x := x)
  have hdecimal : (decimal x.toInt.natAbs).length ≤ 10 := by
    rw [decimal, List.length_map, Nat.length_toDigits_le_iff (by decide) (by decide)]
    omega
  unfold printInt
  split
  · exact Nat.succ_le_succ hdecimal
  · exact hdecimal.trans (by decide)

theorem printInt_ne_nil (i : Int) : printInt i ≠ [] := by
  unfold printInt
  split
  · exact List.cons_ne_nil _ _
  · exact decimal_ne_nil _

theorem cstr_append_of_notMem {front : List Byte} (h : (0 : Byte) ∉ front) (rest : List Byte) :
    (cstr (front ++ rest)).chars = front ++ (cstr rest).chars := by
  have hall : ∀ b ∈ front, (decide (b ≠ 0)) = true := by
    intro b hb
    simpa using fun he : b = 0 => h (he ▸ hb)
  simp only [cstr]
  exact List.takeWhile_append_of_pos hall

theorem chars_cstr {mem : List Byte} (h : (0 : Byte) ∉ mem) : (cstr mem).chars = mem := by
  have happend := cstr_append_of_notMem h []
  rwa [List.append_nil, show (cstr []).chars = [] from rfl, List.append_nil] at happend

/-- A number that a literal announces is read, whatever the line ends with. -/
theorem sscanf_printInt {literal : List Byte} (hl : (0 : Byte) ∉ literal) (i : Int)
    (hrest : LineEnds rest) (x : BitVec 32) :
    sscanf literal (literal ++ printInt i ++ rest) x = storeInt i := by
  have hnul : (0 : Byte) ∉ literal ++ printInt i := by
    rw [List.mem_append, not_or]
    exact ⟨hl, fun h => (ne_of_mem_printInt h).1 rfl⟩
  have hends : LineEnds (cstr rest).chars := by
    cases rest with
    | nil => exact lineEnds_nil
    | cons c rest =>
      obtain rfl := hrest c rfl
      intro b hb
      exact (Option.some.inj hb).symm
  rw [sscanf, cstr_append_of_notMem hnul, List.append_assoc,
    if_pos (List.prefix_append _ _), List.drop_left, scanInt_printInt i hends]
  rfl

theorem sscanf_printed (x y : BitVec 32) : sscanf [] (printInt x.toInt) y = x := by
  have hread := sscanf_printInt List.not_mem_nil x.toInt lineEnds_nil y
  rwa [List.nil_append, List.append_nil, storeInt_toInt] at hread

end RoundTrip

end Hamster.Lib.Scanf
