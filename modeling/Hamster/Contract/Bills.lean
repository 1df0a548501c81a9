import Hamster.Contract.Integrity
import Hamster.Store.Fields

/-!
# Three ways to compute a bill

`hmstr_howsdoing`, `hmstr_readentry` and `hmstr_collect` each add the stay to the
stored price: the first in unsigned words, the others in signed ones, and two of
them keep only sixteen bits. For a usual stay the words are the same.
-/
namespace Hamster.Contract.Bills

open Lib.Bytes Lib.Clock Lib.Posix Lib.RecordFile Lib.Rows Store Store.Entry Store.Library
  Store.Scans Store.Amounts Store.Outcomes Store.Fields

/-- The bill of the first entry with `id`, as the three functions have it. -/
structure BillsAgree (w : World) (id : BitVec 32) (h : Hamsterdesc) : Prop where
  /-- Read right after asking, price and stock are those reported. -/
  readAfter : ∀ st owner name price, ∃ st' w₁ owner' name' price' ret w₂,
    hmstrHowsdoing w id st = some (0, st', w₁) ∧
      hmstrReadentry w₁ id owner name price = some (ret, owner', name', price', w₂) ∧
      price' = st'.cost ∧ ret.toNat = st'.treatsLeft.toNat
  /-- What a collection adds up when it gets to the entry is what is read, modulo `2 ^ 16`. -/
  collected : ∀ owner name price, ∃ amount owner' name' price' ret w',
    hmstrReadentry w id owner name price = some (ret, owner', name', price', w') ∧
      2 ^ 16 ∣ amount.toInt - price'.toInt ∧
      ∀ fdi fd fuel v v' totalPrice found, v.now = w.now →
        v.read fdi sizeofHamsterdesc = (some h.toBytes, v') →
        collectLoop h.ownerStr fdi fd (fuel + 1) v totalPrice found =
          collectLoop h.ownerStr fdi fd fuel v' (totalPrice + amount) true

section Words
variable {h : Hamsterdesc} {now : Timestamp}

/-- Below `2 ^ 31` signed and unsigned division are the same. -/
theorem sdiv_eq_udiv {x : BitVec 32} (hx : x.toNat < 2 ^ 31) : BitVec.sdiv x 1000 = x / 1000 := by
  have hmsb : x.msb = false := by
    rw [BitVec.msb_eq_false_iff_two_mul_lt]
    omega
  have hmsb' : (1000 : BitVec 32).msb = false := by decide
  rw [BitVec.sdiv_eq, hmsb, hmsb']
  rfl

/-- The cost `hmstr_howsdoing` reports is what the others compute. -/
theorem cost_of_usual (hu : Usual now h) (h' : Hamsterdesc) :
    ∃ r, getRounds now h.admissionTime = some r ∧ (stateOf h' r).cost = (charge h' r).setWidth 16 := by
  obtain ⟨rounds, hr, hlt, -⟩ := getRounds_of_usual hu
  refine ⟨_, hr, ?_⟩
  have hprod : (BitVec.ofNat 32 rounds * BitVec.ofNat 32 hmstrStayPrice).toNat < 2 ^ 31 := by
    have hfive : (5 : Nat) % 2 ^ 32 = 5 := rfl
    rw [BitVec.toNat_mul, BitVec.toNat_ofNat, BitVec.toNat_ofNat, hmstrStayPrice, hfive,
      Nat.mod_eq_of_lt (by omega)]
    omega
  rw [stateOf, charge, sdiv_eq_udiv hprod]

/-- Sixteen bits of a sum are the sum modulo `2 ^ 16`. -/
theorem dvd_sub_setWidth (x : BitVec 32) : 2 ^ 16 ∣ x.toInt - (x.setWidth 16).toInt := by
  rw [BitVec.toInt_setWidth, BitVec.toInt_eq_toNat_bmod, Int.bmod_def, Int.bmod_def]
  omega

end Words

section Calls
variable {w : World} {ino : Nat} {id : BitVec 32} {h : Hamsterdesc}

/-- One turn of the loop at an entry of the owner. -/
theorem collectLoop_owned {rounds : BitVec 32} (hrounds : getRounds w.now h.admissionTime = some rounds)
    {fdi fd fuel : Nat} {v v' : World} (totalPrice : BitVec 32) (found : Bool) (hnow : v.now = w.now)
    (hread : v.read fdi sizeofHamsterdesc = (some h.toBytes, v')) :
    collectLoop h.ownerStr fdi fd (fuel + 1) v totalPrice found =
      collectLoop h.ownerStr fdi fd fuel v' (totalPrice + charge h rounds) true := by
  have hlater : v'.now = w.now := by
    rw [← hnow, ← Sys.read_now v fdi sizeofHamsterdesc, hread]
  rw [collectLoop, hread]
  dsimp only
  rw [if_pos h.length_toBytes, Hamsterdesc.ofBytes_toBytes, if_pos rfl, hlater, hrounds]

/-- Asking leaves the entry it answers from in its place. -/
theorem find?_inquired (hf : (entries (w.inodes ino)).find? (byId id) = some h) :
    (entries (image (updateFirst id inquire (entries (w.inodes ino))) ++
      damage (w.inodes ino))).find? (byId id) = some (inquire h) := by
  have hself := find?_patchFirst_self (keepsIdentity_inquire.byId id) (entries (w.inodes ino))
  rw [entries_image_append (length_damage_lt _)]
  rw [hf] at hself
  exact hself

theorem readentry_reads (hr : w.Reliable) (hn : w.names .datafile = some ino)
    (hf : (entries (w.inodes ino)).find? (byId id) = some h) {rounds : BitVec 32}
    (hrounds : getRounds w.now h.admissionTime = some rounds) (owner name : List Byte)
    (price : BitVec 16) :
    hmstrReadentry w id owner name price = some (h.treatsLeft.setWidth 32, strcpy owner h.ownerStr,
      strcpy name h.nameStr, (charge h rounds).setWidth 16, w) := by
  rw [readentry_present hr hn, hf]
  simp only [hrounds, Option.map_some]
  rfl

theorem bills_of_present (hr : w.Reliable) (hn : w.names .datafile = some ino)
    (hf : (entries (w.inodes ino)).find? (byId id) = some h) (hu : Usual w.now h) :
    BillsAgree w id h := by
  constructor
  · intro st owner name price
    obtain ⟨rounds, hrounds, hcost⟩ := cost_of_usual hu (inquire h)
    have hask := howsdoing_present hr hn id st
    simp only [hf, hrounds, Option.map_some] at hask
    have hread := readentry_reads (w := w.setInode ino (image (updateFirst id inquire
      (entries (w.inodes ino))) ++ damage (w.inodes ino))) (h := inquire h) hr hn
      (by rw [Sys.setInode_inodes, Function.update_self]; exact find?_inquired hf) hrounds
      owner name price
    refine ⟨_, _, _, _, _, _, _, hask, hread, hcost.symm, ?_⟩
    have hlt := h.treatsLeft.isLt
    change (h.treatsLeft.setWidth 32).toNat = h.treatsLeft.toNat
    rw [BitVec.toNat_setWidth]
    omega
  · intro owner name price
    obtain ⟨rounds, hrounds, -⟩ := cost_of_usual hu h
    exact ⟨charge h rounds, _, _, _, _, _, readentry_reads hr hn hf hrounds owner name price,
      dvd_sub_setWidth _, fun _ _ _ _ _ totalPrice found hnow hread =>
        collectLoop_owned hrounds totalPrice found hnow hread⟩

/-- For every entry that is the first with its id and has a usual stay. -/
theorem bills_agree {bytes : List Byte} (hr : w.Reliable) (hc : w.content .datafile = some bytes)
    (hf : (entries bytes).find? (byId h.uid) = some h) (hu : Usual w.now h) :
    BillsAgree w h.uid h := by
  obtain ⟨ino, hn, rfl⟩ := Option.map_eq_some_iff.mp hc
  exact bills_of_present hr hn hf hu

end Calls

open Integrity (alice bert hour twoGuests)

/-- The second of two hamsters, four hours after it came. -/
theorem bills_agree_second : BillsAgree { twoGuests.world with now := hour 5 }
    (newEntry (hour 1) bert alice 3).uid (newEntry (hour 1) bert alice 3) := by
  have hsecond : (twoGuests.world.content .datafile).map (fun bytes =>
      (entries bytes).find? (byId (newEntry (hour 1) bert alice 3).uid)) =
        some (some (newEntry (hour 1) bert alice 3)) := by decide +kernel
  obtain ⟨bytes, hbytes, hfound⟩ := Option.map_eq_some_iff.mp hsecond
  have hr : twoGuests.world.Reliable := show twoGuests.world.faults = [] by decide +kernel
  have hu : Usual (hour 5) (newEntry (hour 1) bert alice 3) := by decide +kernel
  clear hsecond
  generalize twoGuests.world = w at hbytes hr ⊢
  exact bills_agree (w := { w with now := hour 5 }) hr hbytes hfound hu

end Hamster.Contract.Bills
