import Hamster.Lib.Bytes

/-!
# Buffers with an end

Reading from an array of known extent. A function is `none` where the C function
would read an element behind the end; the scans for a terminating zero go on until
they meet one, so they leave an array that holds none.
-/
namespace Hamster.Lib.Buffer

open Bytes

/-- `buf[off]` … `buf[off + n - 1]`, one after the other. -/
def fetch (buf : List Byte) (off : Nat) : Nat → Option (List Byte)
  | 0 => some []
  | n + 1 => buf[off]?.bind fun b => (fetch buf (off + 1) n).map (b :: ·)

def strlen : List Byte → Option Nat
  | [] => none
  | b :: bs => if b = 0 then some 0 else (strlen bs).map (· + 1)

/-- `!strcmp(s, buf)` for a string `s`. The comparison ends at the first difference. -/
def strsame : List Byte → List Byte → Option Bool
  | _, [] => none
  | [], b :: _ => some (b = 0)
  | c :: s, b :: bs => if c = b then strsame s bs else some false

/-- What `strcpy(dst, buf)` copies. -/
def strcpyFrom (buf : List Byte) : Option CString := (strlen buf).map fun _ => cstr buf

/-- C's `a || b` -/
def orElse (a b : Option Bool) : Option Bool := a.bind fun x => if x then some true else b

/-- C's `a && b` -/
def andThen (a b : Option Bool) : Option Bool := a.bind fun x => if x then b else some false

@[simp] theorem orElse_some (x y : Bool) : orElse (some x) (some y) = some (x || y) := by
  cases x <;> rfl

@[simp] theorem andThen_some (x y : Bool) : andThen (some x) (some y) = some (x && y) := by
  cases x <;> rfl

section Fetch
variable {buf : List Byte} {off n : Nat}

theorem fetch_of_le (h : off + n ≤ buf.length) :
    fetch buf off n = some ((buf.drop off).take n) := by
  induction n generalizing off with
  | zero => rfl
  | succ n ih =>
    have hoff : off < buf.length := by omega
    rw [fetch, List.getElem?_eq_getElem hoff, Option.bind_some, ih (by omega),
      List.drop_eq_getElem_cons hoff, List.take_succ_cons, Option.map_some]

/-- Reading over the end fails, at the first element behind it. -/
theorem fetch_of_lt (h : buf.length < off + n) (hn : 0 < n) : fetch buf off n = none := by
  induction n generalizing off with
  | zero => omega
  | succ n ih =>
    rw [fetch]
    by_cases hoff : buf.length ≤ off
    · rw [List.getElem?_eq_none hoff, Option.bind_none]
    · rw [ih (by omega) (by omega)]
      cases buf[off]? <;> rfl

end Fetch

section Scans
variable {buf : List Byte}

theorem takeWhile_zero (bs : List Byte) : (0 :: bs).takeWhile (· ≠ (0 : Byte)) = [] :=
  List.takeWhile_cons_of_neg (by simp)

theorem takeWhile_of_ne {b : Byte} (hb : b ≠ 0) (bs : List Byte) :
    (b :: bs).takeWhile (· ≠ 0) = b :: bs.takeWhile (· ≠ 0) :=
  List.takeWhile_cons_of_pos (by simpa using hb)

theorem strlen_cstr (mem : List Byte) :
    (cstr mem).strlen = (mem.takeWhile (· ≠ 0)).length := rfl

theorem strlen_of_mem (h : (0 : Byte) ∈ buf) : strlen buf = some (cstr buf).strlen := by
  induction buf with
  | nil => cases h
  | cons b bs ih =>
    by_cases hb : b = 0
    · subst hb
      rw [strlen, if_pos rfl, strlen_cstr, takeWhile_zero, List.length_nil]
    · have hmem : (0 : Byte) ∈ bs := (List.mem_cons.mp h).resolve_left (Ne.symm hb)
      rw [strlen, if_neg hb, ih hmem, strlen_cstr, strlen_cstr, takeWhile_of_ne hb,
        List.length_cons, Option.map_some]

theorem strlen_of_notMem (h : (0 : Byte) ∉ buf) : strlen buf = none := by
  induction buf with
  | nil => rfl
  | cons b bs ih =>
    rw [List.mem_cons, not_or] at h
    rw [strlen, if_neg (Ne.symm h.1), ih h.2, Option.map_none]

theorem strcpyFrom_of_mem (h : (0 : Byte) ∈ buf) : strcpyFrom buf = some (cstr buf) := by
  rw [strcpyFrom, strlen_of_mem h, Option.map_some]

theorem strsame_chars {s : List Byte} (hs : (0 : Byte) ∉ s) (h : (0 : Byte) ∈ buf) :
    strsame s buf = some (decide (s = buf.takeWhile (· ≠ 0))) := by
  induction buf generalizing s with
  | nil => cases h
  | cons b bs ih =>
    by_cases hb : b = 0
    · subst hb
      rw [takeWhile_zero]
      cases s with
      | nil => simp [strsame]
      | cons c s =>
        have hc : c ≠ 0 := fun he => hs (he ▸ List.mem_cons_self)
        rw [strsame, if_neg hc]
        simp
    · have hmem : (0 : Byte) ∈ bs := (List.mem_cons.mp h).resolve_left (Ne.symm hb)
      rw [takeWhile_of_ne hb]
      cases s with
      | nil => simpa [strsame] using hb
      | cons c s =>
        rw [strsame, ih (fun hm => hs (List.mem_cons_of_mem _ hm)) hmem]
        by_cases hcb : c = b
        · simp [hcb]
        · simp [hcb]

/-- Up to a zero in the buffer the comparison is one of strings. -/
theorem strsame_of_mem (s : CString) (h : (0 : Byte) ∈ buf) :
    strsame s.chars buf = some (decide (s = cstr buf)) := by
  rw [strsame_chars s.no_nul h]
  have hiff : s.chars = buf.takeWhile (· ≠ 0) ↔ s = cstr buf :=
    ⟨fun he => CString.ext he, congrArg CString.chars⟩
  exact congrArg some (decide_eq_decide.mpr hiff)

end Scans

end Hamster.Lib.Buffer
