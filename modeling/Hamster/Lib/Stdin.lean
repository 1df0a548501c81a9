import Hamster.Lib.Scanf

/-!
# Standard input

What `getchar`, `fgets` and `scanf` take from a stream of bytes that ends some day. A
line of names and numbers that was typed in is taken as it was meant.
-/
namespace Hamster.Lib.Stdin

open Bytes Scanf

/-- `getchar()`; nothing is `EOF`. -/
def getchar : List Byte → Option Byte × List Byte
  | [] => (none, [])
  | b :: bs => (some b, bs)

/-- `fgets(s, n + 1, stdin)`: at most `n` bytes, and none behind a newline. -/
def fgets : Nat → List Byte → List Byte × List Byte
  | 0, bs => ([], bs)
  | _ + 1, [] => ([], [])
  | n + 1, b :: bs => if b = newline then ([b], bs) else (b :: (fgets n bs).1, (fgets n bs).2)

/-- A sign in front of a number. -/
def takeSign (bs : List Byte) : Bool × List Byte :=
  if bs.head? = some 45 then (true, bs.tail)
  else if bs.head? = some 43 then (false, bs.tail)
  else (false, bs)

/-- `scanf("%d", &x)`: what `x` receives, unless nothing matches, and what is left. -/
def scanfInt (bs : List Byte) : Option (BitVec 32) × List Byte :=
  let (negative, bs) := takeSign (bs.dropWhile isSpace)
  match number 10 bs with
  | none => (none, bs)
  | some n => (some (storeInt (if negative then -(n : Int) else n)),
      bs.dropWhile fun b => digitVal b < 10)

section Lines
variable {bs line rest : List Byte} {n : Nat}

theorem fgets_append (n : Nat) (bs : List Byte) : (fgets n bs).1 ++ (fgets n bs).2 = bs := by
  fun_induction fgets n bs with
  | case1 => rfl
  | case2 => rfl
  | case3 => rfl
  | case4 n b bs _ ih => rw [List.cons_append, ih]

theorem length_fgets (n : Nat) (bs : List Byte) : (fgets n bs).1.length ≤ n := by
  fun_induction fgets n bs with
  | case1 => exact le_rfl
  | case2 => exact Nat.zero_le _
  | case3 => exact Nat.succ_le_succ (Nat.zero_le _)
  | case4 n b bs _ ih => exact Nat.succ_le_succ ih

/-- A newline can only be the last byte. -/
theorem newline_notMem_dropLast (n : Nat) (bs : List Byte) :
    newline ∉ (fgets n bs).1.dropLast := by
  fun_induction fgets n bs with
  | case1 => exact List.not_mem_nil
  | case2 => exact List.not_mem_nil
  | case3 => exact List.not_mem_nil
  | case4 n b bs hb ih =>
    cases hline : (fgets n bs).1 with
    | nil => exact List.not_mem_nil
    | cons c cs =>
      rw [hline] at ih
      rw [List.dropLast_cons_of_ne_nil (List.cons_ne_nil c cs), List.mem_cons, not_or]
      exact ⟨fun he => hb he.symm, ih⟩

/-- A line that is short enough is taken whole. -/
theorem fgets_line (hlen : line.length < n) (hline : newline ∉ line) :
    fgets n (line ++ newline :: rest) = (line ++ [newline], rest) := by
  induction line generalizing n with
  | nil =>
    obtain ⟨m, rfl⟩ : ∃ m, n = m + 1 := ⟨n - 1, by simp only [List.length_nil] at hlen; omega⟩
    rw [List.nil_append, fgets, if_pos rfl]
    rfl
  | cons b line ih =>
    obtain ⟨m, rfl⟩ : ∃ m, n = m + 1 := ⟨n - 1, by rw [List.length_cons] at hlen; omega⟩
    obtain ⟨hb, hline⟩ := not_or.mp (mt List.mem_cons.mpr hline)
    rw [List.cons_append, fgets, if_neg (Ne.symm hb),
      ih (by rw [List.length_cons] at hlen; omega) hline]
    rfl

end Lines

theorem length_takeSign (bs : List Byte) : (takeSign bs).2.length ≤ bs.length := by
  unfold takeSign
  split
  · rw [List.length_tail]
    exact Nat.sub_le _ _
  · split
    · rw [List.length_tail]
      exact Nat.sub_le _ _
    · exact le_rfl

theorem length_scanfInt (bs : List Byte) : (scanfInt bs).2.length ≤ bs.length := by
  have hsign := length_takeSign (bs.dropWhile isSpace)
  have hblank : (bs.dropWhile isSpace).length ≤ bs.length := (List.dropWhile_suffix _).length_le
  unfold scanfInt
  dsimp only
  split
  · exact hsign.trans hblank
  · exact (List.dropWhile_suffix _).length_le.trans (hsign.trans hblank)

theorem takeSign_digit {b : Byte} {bs : List Byte} (hb : IsDigit b) :
    takeSign (b :: bs) = (false, b :: bs) := by
  have hne : b ≠ 45 ∧ b ≠ 43 := by
    constructor <;> intro he <;> subst he <;> exact absurd hb.1 (by decide)
  unfold takeSign
  rw [if_neg (by simpa using hne.1), if_neg (by simpa using hne.2)]

/-- The digits of a number, up to a byte that is none. -/
theorem dropWhile_decimal (n : Nat) {rest : List Byte} (hrest : ∀ b ∈ rest.head?, 10 ≤ digitVal b) :
    (decimal n ++ rest).dropWhile (fun b => decide (digitVal b < 10)) = rest := by
  rw [List.dropWhile_append_of_pos fun b hb => by
    simpa using digitVal_lt (isDigit_of_mem_decimal hb)]
  cases rest with
  | nil => rfl
  | cons b rest =>
    have hb := hrest b rfl
    exact List.dropWhile_cons_of_neg (by simpa using hb)

/-- A number that was typed in is the number that is read. -/
theorem scanfInt_printInt (x : BitVec 32) {rest : List Byte}
    (hrest : ∀ b ∈ rest.head?, 10 ≤ digitVal b) :
    scanfInt (printInt x.toInt ++ rest) = (some x, rest) := by
  obtain ⟨d, ds, hd⟩ := List.exists_cons_of_ne_nil (decimal_ne_nil x.toInt.natAbs)
  have hdigit : IsDigit d := isDigit_of_mem_decimal (n := x.toInt.natAbs) (by rw [hd]; simp)
  have hblank : isSpace d = false := isSpace_of_isDigit hdigit
  have hread := number_decimal x.toInt.natAbs hrest
  have hdrop := dropWhile_decimal x.toInt.natAbs hrest
  unfold printInt
  by_cases hneg : x.toInt < 0
  · have hsign : takeSign (45 :: (decimal x.toInt.natAbs ++ rest)) =
        (true, decimal x.toInt.natAbs ++ rest) := rfl
    have hvalue : -(x.toInt.natAbs : Int) = x.toInt := by omega
    rw [if_pos hneg, List.cons_append, scanfInt,
      List.dropWhile_cons_of_neg (by decide), hsign]
    dsimp only
    rw [hread, hdrop]
    dsimp only
    rw [if_pos rfl, hvalue, storeInt_toInt]
  · have hsign : takeSign (decimal x.toInt.natAbs ++ rest) =
        (false, decimal x.toInt.natAbs ++ rest) := by
      rw [hd, List.cons_append, takeSign_digit hdigit]
    have hvalue : (x.toInt.natAbs : Int) = x.toInt := by omega
    have hspace : (decimal x.toInt.natAbs ++ rest).dropWhile isSpace =
        decimal x.toInt.natAbs ++ rest := by
      rw [hd, List.cons_append, List.dropWhile_cons_of_neg (by simp [hblank])]
    rw [if_neg hneg, scanfInt, hspace, hsign]
    dsimp only
    rw [hread, hdrop]
    dsimp only
    rw [if_neg Bool.false_ne_true, hvalue, storeInt_toInt]

end Hamster.Lib.Stdin
