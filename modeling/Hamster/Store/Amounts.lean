import Hamster.Store.CollectScan

/-!
# Bills as integers

The library adds up bills in 32-bit words from 16-bit prices. Here the same sums
are integers; the words are their reductions.
-/
namespace Hamster.Store.Amounts

open Lib.Bytes Lib.Clock Entry Library CollectScan

/-- `(rounds * HMSTR_STAY_PRICE) / 1000`, the product reduced to an `int`. -/
def stay (rounds : BitVec 32) : Int := ((5 * rounds.toInt).bmod (2 ^ 32)).tdiv 1000

/-- What an entry stands for on a bill: its stored price and its stay. -/
def amount (now : Timestamp) (h : Hamsterdesc) : Int :=
  h.price.toInt + stay ((getRounds now h.admissionTime).getD 0)

def owed (now : Timestamp) (o : CString) (hs : List Hamsterdesc) : Int :=
  ((owned o hs).map (amount now)).sum

theorem sdiv_eq_ofInt {n : Nat} (x y : BitVec n) :
    x.sdiv y = BitVec.ofInt n (x.toInt.tdiv y.toInt) := by
  apply BitVec.eq_of_toInt_eq
  rw [BitVec.toInt_sdiv, BitVec.toInt_ofInt]

theorem charge_eq (h : Hamsterdesc) (rounds : BitVec 32) :
    charge h rounds = BitVec.ofInt 32 (h.price.toInt + stay rounds) := by
  have hprice : h.price.signExtend 32 = BitVec.ofInt 32 h.price.toInt := rfl
  have hprod : (rounds * BitVec.ofNat 32 hmstrStayPrice).toInt = (5 * rounds.toInt).bmod (2 ^ 32) := by
    rw [BitVec.toInt_mul, mul_comm]
    rfl
  rw [charge, hprice, sdiv_eq_ofInt, hprod, BitVec.ofInt_add]
  rfl

theorem sum_charges {now : Timestamp} {o : CString} : ∀ {hs : List Hamsterdesc}
    {cs : List (BitVec 32)}, charges now o hs = some cs → cs.sum = BitVec.ofInt 32 (owed now o hs) := by
  intro hs
  induction hs with
  | nil =>
    intro cs h
    cases Option.some.inj h
    rfl
  | cons x hs ih =>
    intro cs h
    by_cases he : x.ownerStr = o
    · rw [charges_cons_of_eq he] at h
      obtain ⟨r, hr, h⟩ := Option.bind_eq_some_iff.mp h
      obtain ⟨ds, hds, rfl⟩ := Option.map_eq_some_iff.mp h
      rw [List.sum_cons, ih hds, charge_eq, owed, owed, owned_cons_of_eq he, List.map_cons,
        List.sum_cons, ← BitVec.ofInt_add, amount, hr]
      rfl
    · rw [charges_cons_of_ne he] at h
      rw [ih h, owed, owed, owned_cons_of_ne he]

theorem owed_of_owned_nil {now : Timestamp} {o : CString} {hs : List Hamsterdesc}
    (h : owned o hs = []) : owed now o hs = 0 := by rw [owed, h]; rfl

theorem ofInt_eq_iff (x : Int) (y : BitVec 32) :
    BitVec.ofInt 32 x = y ↔ x.bmod (2 ^ 32) = y.toInt := by
  rw [← BitVec.toInt_inj, BitVec.toInt_ofInt]

theorem stay_eq (r : BitVec 32) : stay r =
    if 0 ≤ (5 * r.toInt).bmod (2 ^ 32) then (5 * r.toInt).bmod (2 ^ 32) / 1000
    else -(-(5 * r.toInt).bmod (2 ^ 32) / 1000) := by
  rw [stay]
  split
  · rename_i h
    exact Int.tdiv_eq_ediv_of_nonneg h
  · rename_i h
    rw [← Int.tdiv_eq_ediv_of_nonneg (by omega), Int.neg_tdiv, neg_neg]

theorem stay_range (r : BitVec 32) : -2147483 ≤ stay r ∧ stay r ≤ 2147483 := by
  have hlo := Int.le_bmod (x := 5 * r.toInt) (m := 2 ^ 32) (by decide)
  have hhi := Int.bmod_lt (x := 5 * r.toInt) (m := 2 ^ 32) (by decide)
  rw [stay_eq]
  split <;> omega

/-- Five a round, reduced to an `int` and divided, against the same undisturbed. -/
theorem stay_ofNat (rounds : Nat) :
    0 ≤ ((5 * rounds / 1000 : Nat) : Int) - stay (BitVec.ofNat 32 rounds) ∧
    ((5 * rounds / 1000 : Nat) : Int) - stay (BitVec.ofNat 32 rounds) ≤
      2 * (5 * rounds / 1000 : Nat) ∧
    (((5 * rounds / 1000 : Nat) : Int) - stay (BitVec.ofNat 32 rounds) = 0 ↔
      5 * rounds < 2 ^ 31) := by
  have hmod : (5 * (BitVec.ofNat 32 rounds).toInt).bmod (2 ^ 32) =
      ((5 * rounds : Nat) : Int).bmod (2 ^ 32) := by
    rw [BitVec.toInt_ofNat', Int.mul_bmod_bmod]
    norm_cast
  rw [stay_eq, hmod]
  generalize 5 * rounds = x
  have hcast : ((x : Int)).bmod (2 ^ 32) =
      if x % 4294967296 < 2147483648 then ((x % 4294967296 : Nat) : Int)
      else ((x % 4294967296 : Nat) : Int) - 4294967296 := by
    rw [Int.bmod_def]
    norm_cast
  have hle : x % 4294967296 ≤ x := Nat.mod_le _ _
  have hlt : x % 4294967296 < 4294967296 := Nat.mod_lt _ (by decide)
  have hsmall : x < 4294967296 → x % 4294967296 = x := Nat.mod_eq_of_lt
  rw [hcast]
  generalize x % 4294967296 = m at *
  split
  · rw [if_pos (Int.natCast_nonneg m)]
    omega
  · rw [if_neg (by omega)]
    omega

/-- A stay of so many whole seconds, if they were not too many for the product in
64 bits. -/
theorem getRounds_of_seconds {now : Timestamp} {since : Timeval} {sec : Nat}
    (hsec : (timersub now.toTimeval since).tvSec.toInt = sec) (hsmall : sec * 25 < 2 ^ 63) :
    getRounds now since = some (BitVec.ofNat 32 (sec * 25 / 60)) := by
  have hneg : ¬ (timersub now.toTimeval since).tvSec.toInt < 0 := by omega
  have hmul : ((timersub now.toTimeval since).tvSec * BitVec.ofNat 64 hmstrRpm).toInt =
      ((sec * 25 : Nat) : Int) := by
    rw [BitVec.toInt_mul, hsec]
    change ((sec : Int) * 25).bmod (2 ^ 64) = _
    rw [Int.bmod_def]
    omega
  have hquot : BitVec.sdiv ((timersub now.toTimeval since).tvSec * BitVec.ofNat 64 hmstrRpm) 60 =
      BitVec.ofNat 64 (sec * 25 / 60) := by
    have hsixty : (60 : BitVec 64).toInt = ((60 : Nat) : Int) := rfl
    rw [sdiv_eq_ofInt, hmul, hsixty, ← Int.ofNat_tdiv, BitVec.ofInt_natCast]
  simp only [getRounds, hneg, ↓reduceIte, hquot]
  congr 1
  apply BitVec.eq_of_toNat_eq
  simp only [BitVec.toNat_setWidth, BitVec.toNat_ofNat]
  omega

/-- The whole seconds an entry has been there, as `timersub` counts them. -/
def seconds (now : Timestamp) (h : Hamsterdesc) : Int :=
  (timersub now.toTimeval h.admissionTime).tvSec.toInt

/-- A stay that is not negative and not longer than some thirty years. -/
def Usual (now : Timestamp) (h : Hamsterdesc) : Prop :=
  0 ≤ seconds now h ∧ seconds now h ≤ 10 ^ 9

instance (now : Timestamp) (h : Hamsterdesc) : Decidable (Usual now h) :=
  inferInstanceAs (Decidable (_ ∧ _))

/-- The rounds of a usual stay are few enough for all that is done with them. -/
theorem getRounds_of_usual {now : Timestamp} {h : Hamsterdesc} (hu : Usual now h) :
    ∃ rounds : Nat, getRounds now h.admissionTime = some (BitVec.ofNat 32 rounds) ∧
      5 * rounds < 2 ^ 31 ∧ ((5 * rounds / 1000 : Nat) : Int) = 5 * (25 * seconds now h / 60) / 1000 := by
  obtain ⟨hlo, hhi⟩ := hu
  obtain ⟨sec, hsec⟩ := Int.eq_ofNat_of_zero_le hlo
  rw [hsec] at hhi ⊢
  refine ⟨sec * 25 / 60, getRounds_of_seconds hsec (by omega), by omega, by omega⟩

/-- What a usual stay adds to a bill. -/
theorem amount_of_usual {now : Timestamp} {h : Hamsterdesc} (hu : Usual now h) :
    amount now h = h.price.toInt + 5 * (25 * seconds now h / 60) / 1000 := by
  obtain ⟨rounds, hr, hlt, hq⟩ := getRounds_of_usual hu
  have hstay := (stay_ofNat rounds).2.2.mpr hlt
  rw [amount, hr, Option.getD_some]
  omega

theorem makeHash_nonneg (o n : CString) : 0 ≤ (makeHash o n).toInt := by
  rw [makeHash, BitVec.toInt_ushiftRight_of_lt Nat.one_pos]
  exact Int.natCast_nonneg _

end Hamster.Store.Amounts
