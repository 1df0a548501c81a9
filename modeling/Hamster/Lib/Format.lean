import Hamster.Lib.Scanf

/-!
# Formats of `sscanf`

A format is a list of directives, which are carried out on the text until one fails. The
values that were converted before are kept.
-/
namespace Hamster.Lib.Format

open Bytes Scanf

inductive Directive
  | space
  | char (b : Byte)
  | string
  | int
  deriving DecidableEq

/-- `%s` and `%i` are conversions, white space matches any white space, and every other
character matches itself. -/
def directives : List Byte → List Directive
  | [] => []
  | [b] => [if isSpace b then .space else .char b]
  | a :: b :: format =>
    if a = 37 ∧ b = 115 then .string :: directives format
    else if a = 37 ∧ b = 105 then .int :: directives format
    else (if isSpace a then .space else .char a) :: directives (b :: format)

inductive Value
  | string (token : List Byte)
  | int (i : Int)
  deriving DecidableEq

def Value.string? : Value → Option (List Byte)
  | .string token => some token
  | .int _ => none

def Value.int? : Value → Option Int
  | .string _ => none
  | .int i => some i

/-- What the digits of a number leave, its prefix included. -/
def afterMagnitude (bs : List Byte) : List Byte :=
  if bs.head? = some 48 then
    if bs[1]? = some 120 ∨ bs[1]? = some 88 then (bs.drop 2).dropWhile fun b => digitVal b < 16
    else bs.dropWhile fun b => digitVal b < 8
  else bs.dropWhile fun b => digitVal b < 10

/-- What `%i` leaves, where it converts a number. -/
def afterInt (bs : List Byte) : List Byte :=
  let bs := bs.dropWhile isSpace
  afterMagnitude (if bs.head? = some 45 ∨ bs.head? = some 43 then bs.tail else bs)

/-- The values that are converted, in order. -/
def scan : List Directive → List Byte → List Value
  | [], _ => []
  | .space :: ds, text => scan ds (text.dropWhile isSpace)
  | .char b :: ds, text => if text.head? = some b then scan ds text.tail else []
  | .string :: ds, text =>
    let text := text.dropWhile isSpace
    if text = [] then []
    else .string (text.takeWhile fun b => !isSpace b) :: scan ds (text.dropWhile fun b => !isSpace b)
  | .int :: ds, text =>
    match scanInt text with
    | none => []
    | some i => .int i :: scan ds (afterInt text)

/-- `sscanf(mem, format, …)`: the values for the arguments, as far as there are any. -/
def sscanfValues (format mem : List Byte) : List Value := scan (directives format) (cstr mem).chars

section Steps
variable {ds : List Directive} {text token rest : List Byte}

theorem scan_literal (literal : List Byte) (ds : List Directive) (rest : List Byte) :
    scan (literal.map .char ++ ds) (literal ++ rest) = scan ds rest := by
  induction literal with
  | nil => rfl
  | cons b literal ih =>
    rw [List.map_cons, List.cons_append, List.cons_append, scan, if_pos List.head?_cons]
    exact ih

/-- White space matches the white space in front of something else. -/
theorem scan_space {spaces : List Byte} (hs : ∀ b ∈ spaces, isSpace b = true)
    (hrest : ∀ b ∈ rest.head?, isSpace b = false) :
    scan (.space :: ds) (spaces ++ rest) = scan ds rest := by
  have hstop : rest.dropWhile isSpace = rest := by
    cases rest with
    | nil => rfl
    | cons b rest => exact List.dropWhile_cons_of_neg (by rw [hrest b rfl]; decide)
  rw [scan, List.dropWhile_append_of_pos hs, hstop]

theorem scan_string (hne : token ≠ []) (ht : ∀ b ∈ token, isSpace b = false)
    (hrest : ∀ b ∈ rest.head?, isSpace b = true) :
    scan (.string :: ds) (token ++ rest) = .string token :: scan ds rest := by
  have hskip : (token ++ rest).dropWhile isSpace = token ++ rest := by
    obtain ⟨b, bs, rfl⟩ := List.exists_cons_of_ne_nil hne
    exact List.dropWhile_cons_of_neg (by rw [ht b List.mem_cons_self]; decide)
  have hword : ∀ b ∈ token, (!isSpace b) = true := fun b hb => by rw [ht b hb]; rfl
  have htake : rest.takeWhile (fun b => !isSpace b) = [] := by
    cases rest with
    | nil => rfl
    | cons b rest => exact List.takeWhile_cons_of_neg (by rw [hrest b rfl]; decide)
  have hdrop : rest.dropWhile (fun b => !isSpace b) = rest := by
    cases rest with
    | nil => rfl
    | cons b rest => exact List.dropWhile_cons_of_neg (by rw [hrest b rfl]; decide)
  rw [scan, hskip, if_neg (by simp [hne]), List.takeWhile_append_of_pos hword, htake,
    List.append_nil, List.dropWhile_append_of_pos hword, hdrop]

/-- What `%s` converts has no white space in it. -/
theorem scan_string_cases (ds : List Directive) (text : List Byte) :
    (∀ b ∈ text, isSpace b = true) ∧ scan (.string :: ds) text = [] ∨
      ∃ token rest, (∀ b ∈ token, isSpace b = false) ∧
        scan (.string :: ds) text = .string token :: scan ds rest := by
  rw [scan]
  split
  · rename_i hnil
    exact .inl ⟨by simpa using hnil, rfl⟩
  · refine .inr ⟨_, _, fun b hb => ?_, rfl⟩
    simpa using List.mem_takeWhile_imp hb

theorem afterMagnitude_decimal (n : Nat) (hrest : LineEnds rest) :
    afterMagnitude (decimal n ++ rest) = rest := by
  have hstop {base : Nat} (hb : base ≤ 10) :
      rest.dropWhile (fun b => decide (digitVal b < base)) = rest := by
    cases rest with
    | nil => rfl
    | cons b rest =>
      obtain rfl := hrest b rfl
      have hval : ¬ digitVal newline < base := Nat.not_lt.mpr (hb.trans (by decide))
      exact List.dropWhile_cons_of_neg (by simpa using hval)
  rcases Nat.eq_zero_or_pos n with rfl | hpos
  · have hzero : decimal 0 ++ rest = 48 :: rest := rfl
    have hnext : (48 :: rest)[1]? = rest.head? := by cases rest <;> rfl
    have hx : ¬ (rest.head? = some 120 ∨ rest.head? = some 88) := by
      rintro (h | h)
      · exact absurd (hrest _ h) (by decide)
      · exact absurd (hrest _ h) (by decide)
    rw [hzero, afterMagnitude, if_pos List.head?_cons, hnext, if_neg hx,
      List.dropWhile_cons_of_pos (by decide), hstop (by decide)]
  · have hhead : (decimal n ++ rest).head? ≠ some 48 := by
      rw [List.head?_append_of_ne_nil _ (decimal_ne_nil n)]
      exact head?_decimal hpos.ne'
    have hdigits : ∀ b ∈ decimal n, decide (digitVal b < 10) = true :=
      fun b hb => decide_eq_true (digitVal_lt (isDigit_of_mem_decimal hb))
    rw [afterMagnitude, if_neg hhead, List.dropWhile_append_of_pos hdigits, hstop (by decide)]

theorem afterInt_printInt (i : Int) (hrest : LineEnds rest) :
    afterInt (printInt i ++ rest) = rest := by
  obtain ⟨d, ds, hd⟩ := List.exists_cons_of_ne_nil (decimal_ne_nil i.natAbs)
  have hdigit : IsDigit d := isDigit_of_mem_decimal (n := i.natAbs) (by simp [hd])
  have hafter := afterMagnitude_decimal i.natAbs hrest
  unfold printInt
  split
  · rw [afterInt, List.cons_append, List.dropWhile_cons_of_neg (by decide),
      if_pos (.inl List.head?_cons), List.tail_cons]
    exact hafter
  · have hsign : ¬ ((d :: (ds ++ rest)).head? = some 45 ∨ (d :: (ds ++ rest)).head? = some 43) := by
      rw [List.head?_cons, Option.some.injEq, Option.some.injEq]
      rintro (hb | hb)
      · exact absurd (hb ▸ hdigit.1) (by decide)
      · exact absurd (hb ▸ hdigit.1) (by decide)
    rw [hd, List.cons_append] at hafter ⊢
    rw [afterInt, List.dropWhile_cons_of_neg (by simp [isSpace_of_isDigit hdigit]), if_neg hsign]
    exact hafter

theorem scan_int (i : Int) (hrest : LineEnds rest) :
    scan (.int :: ds) (printInt i ++ rest) = .int i :: scan ds rest := by
  rw [scan, scanInt_printInt i hrest]
  dsimp only
  rw [afterInt_printInt i hrest]

end Steps

end Hamster.Lib.Format
