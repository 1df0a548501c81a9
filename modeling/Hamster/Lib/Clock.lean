import Mathlib.Tactic.Ring

/-!
# The wall clock and `struct timeval`

`Timestamp` is what a normalised clock can show: whole seconds that fit the
signed 64-bit field and microseconds below a million. `Timeval` is the pair of
words a program stores, and `timersub` the C library's subtraction on it.
-/
namespace Hamster.Lib.Clock

structure Timeval where
  tvSec : BitVec 64
  tvUsec : BitVec 64
  deriving DecidableEq

structure Timestamp where
  sec : Nat
  usec : Nat
  sec_lt : sec < 2 ^ 63
  usec_lt : usec < 1000000
  deriving DecidableEq

namespace Timestamp

def micros (t : Timestamp) : Nat := t.sec * 1000000 + t.usec

instance : LE Timestamp := ⟨fun t u => t.micros ≤ u.micros⟩

instance (t u : Timestamp) : Decidable (t ≤ u) := inferInstanceAs (Decidable (t.micros ≤ u.micros))

theorem le_def (t u : Timestamp) : t ≤ u ↔ t.micros ≤ u.micros := Iff.rfl

theorem le_refl (t : Timestamp) : t ≤ t := Nat.le_refl _

theorem le_trans {t u v : Timestamp} (h : t ≤ u) (h' : u ≤ v) : t ≤ v := Nat.le_trans h h'

/-- Where the clock starts. -/
def epoch : Timestamp := ⟨0, 0, by decide, by decide⟩

def toTimeval (t : Timestamp) : Timeval :=
  ⟨BitVec.ofNat 64 t.sec, BitVec.ofNat 64 t.usec⟩

/-- Whole seconds from `t` to `u`. -/
def secondsUntil (t u : Timestamp) : Nat := (u.micros - t.micros) / 1000000

end Timestamp

/-- `timersub(a, b, &result)`: fieldwise difference, borrowing one second. -/
def timersub (a b : Timeval) : Timeval :=
  let sec := a.tvSec - b.tvSec
  let usec := a.tvUsec - b.tvUsec
  if usec.toInt < 0 then ⟨sec - 1, usec + 1000000⟩ else ⟨sec, usec⟩

theorem toInt_sub_of_small {x y : Nat} (hx : x < 2 ^ 63) (hy : y < 2 ^ 63) :
    (BitVec.ofNat 64 x - BitVec.ofNat 64 y).toInt = (x : Int) - y := by
  rw [BitVec.toInt_sub, BitVec.toInt_ofNat', BitVec.toInt_ofNat']
  simp only [Int.bmod_def]
  omega

theorem timersub_sec (t u : Timestamp) :
    (timersub u.toTimeval t.toTimeval).tvSec.toInt =
      (u.sec : Int) - t.sec - if u.usec < t.usec then 1 else 0 := by
  have hu := u.usec_lt
  have ht := t.usec_lt
  have hsu := u.sec_lt
  have hst := t.sec_lt
  have husec := toInt_sub_of_small (x := u.usec) (y := t.usec) (by omega) (by omega)
  have hsec := toInt_sub_of_small hsu hst
  unfold timersub Timestamp.toTimeval
  simp only [husec]
  by_cases h : u.usec < t.usec
  · rw [if_pos (by omega), if_pos h]
    change (BitVec.ofNat 64 u.sec - BitVec.ofNat 64 t.sec - 1).toInt = _
    rw [BitVec.toInt_sub, hsec, show (1 : BitVec 64).toInt = 1 from rfl, Int.bmod_def]
    omega
  · rw [if_neg (by omega), if_neg h]
    simp only [hsec]
    omega

/-- With a clock that has not gone back, the borrowed difference is the number
of whole seconds between the two readings. -/
theorem timersub_sec_of_le {t u : Timestamp} (h : t ≤ u) :
    (timersub u.toTimeval t.toTimeval).tvSec.toInt = t.secondsUntil u := by
  rw [timersub_sec]
  have hu := u.usec_lt
  have ht := t.usec_lt
  simp only [Timestamp.le_def, Timestamp.micros] at h
  simp only [Timestamp.secondsUntil, Timestamp.micros]
  split <;> omega

/-- The difference is negative exactly when the clock has gone back. -/
theorem timersub_sec_neg_iff (t u : Timestamp) :
    (timersub u.toTimeval t.toTimeval).tvSec.toInt < 0 ↔ ¬ t ≤ u := by
  rw [timersub_sec]
  have hu := u.usec_lt
  have ht := t.usec_lt
  simp only [Timestamp.le_def, Timestamp.micros]
  split <;> omega

end Hamster.Lib.Clock
