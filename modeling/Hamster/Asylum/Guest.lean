import Hamster.Store.Library

/-!
# Guests and their accounts

What an entry is about: a hamster, when it came, the treats it came with, and
how much it was fed and asked after since. The account is kept in unbounded
numbers; `entry` is the record the library stores for it, in machine words.
-/
namespace Hamster.Asylum

open Lib.Bytes Lib.Clock Store.Entry Store.Library

/-- A name that fits its field. -/
structure Name where
  text : CString
  short : text.strlen ≤ 31
  deriving DecidableEq

theorem Name.ext {a b : Name} (h : a.text = b.text) : a = b := by
  cases a; cases b; simp_all

theorem tooLong_eq_false_iff (s : CString) : tooLong s = false ↔ s.strlen ≤ 31 := by
  simp [tooLong, hmstrMaxName]

instance lawfulBEqKey : LawfulBEq (Name × Name) := inferInstance

structure Guest where
  owner : Name
  name : Name
  admitted : Timestamp
  /-- The treats it came with. -/
  stock : BitVec 16
  /-- All treats asked for, whether the stock covered them or not. -/
  fed : Nat
  asked : Nat
  deriving DecidableEq

namespace Guest

def key (g : Guest) : Name × Name := (g.owner, g.name)

def uid (g : Guest) : BitVec 32 := makeHash g.owner.text g.name.text

def left (g : Guest) : Nat := g.stock.toNat - g.fed

/-- The price without the stay: admission, inquiries, and the treats the stock
did not cover. -/
def due (g : Guest) : Nat := 17 + g.asked + 2 * (g.fed - g.stock.toNat)

def feed (g : Guest) (treats : BitVec 16) : Guest := { g with fed := g.fed + treats.toNat }

def ask (g : Guest) : Guest := { g with asked := g.asked + 1 }

/-- The record of a guest. -/
def entry (g : Guest) : Hamsterdesc where
  uid := g.uid
  padding := 0
  admissionTime := g.admitted.toTimeval
  owner := nameField g.owner.text
  name := nameField g.name.text
  price := BitVec.ofNat 16 g.due
  treatsLeft := BitVec.ofNat 16 g.left
  tailPadding := 0

@[simp] theorem feed_key (g : Guest) (a : BitVec 16) : (g.feed a).key = g.key := rfl
@[simp] theorem ask_key (g : Guest) : g.ask.key = g.key := rfl
@[simp] theorem feed_uid (g : Guest) (a : BitVec 16) : (g.feed a).uid = g.uid := rfl
@[simp] theorem ask_uid (g : Guest) : g.ask.uid = g.uid := rfl
@[simp] theorem entry_uid (g : Guest) : g.entry.uid = g.uid := rfl
@[simp] theorem entry_price (g : Guest) : g.entry.price = BitVec.ofNat 16 g.due := rfl
@[simp] theorem entry_admissionTime (g : Guest) :
    g.entry.admissionTime = g.admitted.toTimeval := rfl

theorem left_lt (g : Guest) : g.left < 2 ^ 16 := by
  have h := g.stock.isLt
  unfold left
  omega

@[simp] theorem toNat_treatsLeft (g : Guest) : g.entry.treatsLeft.toNat = g.left := by
  rw [entry, BitVec.toNat_ofNat, Nat.mod_eq_of_lt g.left_lt]

theorem setWidth_treatsLeft (g : Guest) :
    g.entry.treatsLeft.setWidth 32 = BitVec.ofNat 32 g.left := by
  apply BitVec.eq_of_toNat_eq
  rw [BitVec.toNat_setWidth, toNat_treatsLeft, BitVec.toNat_ofNat]

theorem val_nameField {s : CString} (h : s.strlen ≤ 31) : (nameField s).val = s.pad 32 := by
  unfold CString.strlen at h
  change (s.chars ++ List.replicate 32 0).take 32 = s.chars ++ List.replicate (32 - s.strlen) 0
  rw [List.take_append, List.take_of_length_le (by omega), List.take_replicate,
    Nat.min_eq_left (by omega)]
  rfl

theorem nul_mem_nameField {s : CString} (h : s.strlen ≤ 31) : (0 : Byte) ∈ (nameField s).val := by
  rw [val_nameField h, CString.pad]
  exact List.mem_append_right _ (by simp; omega)

@[simp] theorem ownerStr_entry (g : Guest) : g.entry.ownerStr = g.owner.text := by
  have hs := g.owner.short
  rw [Hamsterdesc.ownerStr_of_nul (nul_mem_nameField hs)]
  change cstr (nameField g.owner.text).val = _
  rw [val_nameField hs]
  exact cstr_pad_self (by omega)

@[simp] theorem nameStr_entry (g : Guest) : g.entry.nameStr = g.name.text := by
  have hs := g.name.short
  rw [Hamsterdesc.nameStr_of_nul (nul_mem_nameField hs)]
  change cstr (nameField g.name.text).val = _
  rw [val_nameField hs]
  exact cstr_pad_self (by omega)

theorem signExtend_add_setWidth (p : BitVec 16) (x : BitVec 32) :
    (p.signExtend 32 + x).setWidth 16 = p + x.setWidth 16 := by
  have hp : (p.signExtend 32).setWidth 16 = p := by
    apply BitVec.eq_of_getLsbD_eq
    intro i hi
    rw [BitVec.getLsbD_setWidth, BitVec.getLsbD_signExtend]
    simp [hi, show i < 32 by omega]
  rw [BitVec.setWidth_add _ _ (by decide), hp]

/-- `hmstr_givetreats` on the record is feeding the guest: stock and price
together only depend on the sum of what was asked for. -/
theorem feed_entry (g : Guest) (a : BitVec 16) :
    Store.Library.feed g.entry a = (g.feed a).entry := by
  have hstock := g.stock.isLt
  have ha := a.isLt
  have hlt : g.entry.treatsLeft < a ↔ g.left < a.toNat := by
    rw [BitVec.lt_def, toNat_treatsLeft]
  unfold Store.Library.feed
  by_cases h : g.left < a.toNat
  · rw [if_pos (hlt.mpr h)]
    have hleft : (g.feed a).left = 0 := by
      simp only [left, feed] at h ⊢
      omega
    have hdue : (g.feed a).due = g.due + 2 * (a.toNat - g.left) := by
      simp only [due, left, feed] at h ⊢
      omega
    have hsub : (a - g.entry.treatsLeft).toNat = a.toNat - g.left := by
      rw [BitVec.toNat_sub_of_le (BitVec.le_def.mpr (by rw [toNat_treatsLeft]; omega)),
        toNat_treatsLeft]
    have hprice : (g.entry.price.signExtend 32 +
        (a - g.entry.treatsLeft).setWidth 32 * BitVec.ofNat 32 hmstrFeedPrice).setWidth 16 =
        BitVec.ofNat 16 (g.feed a).due := by
      rw [signExtend_add_setWidth]
      apply BitVec.eq_of_toNat_eq
      rw [entry_price, hdue, BitVec.toNat_add, BitVec.toNat_setWidth, BitVec.toNat_mul,
        BitVec.toNat_setWidth, hsub]
      simp only [BitVec.toNat_ofNat, hmstrFeedPrice]
      omega
    rw [hprice]
    simp only [entry, hleft]
    rfl
  · rw [if_neg (mt hlt.mp h)]
    have hdue : (g.feed a).due = g.due := by
      simp only [due, left, feed] at h ⊢
      omega
    have hleft : g.entry.treatsLeft - a = BitVec.ofNat 16 (g.feed a).left := by
      apply BitVec.eq_of_toNat_eq
      rw [BitVec.toNat_sub_of_le (BitVec.le_def.mpr (by rw [toNat_treatsLeft]; omega)),
        toNat_treatsLeft, BitVec.toNat_ofNat, Nat.mod_eq_of_lt (left_lt _)]
      simp only [left, feed]
      omega
    rw [hleft]
    simp only [entry, hdue]
    rfl

theorem inquire_entry (g : Guest) : inquire g.entry = g.ask.entry := by
  have hprice : (g.entry.price.signExtend 32 + BitVec.ofNat 32 hmstrCarePrice).setWidth 16 =
      BitVec.ofNat 16 g.ask.due := by
    rw [signExtend_add_setWidth]
    apply BitVec.eq_of_toNat_eq
    simp only [entry_price, due, ask, hmstrCarePrice, BitVec.toNat_add, BitVec.toNat_setWidth,
      BitVec.toNat_ofNat]
    omega
  rw [inquire, hprice]
  rfl

/-- The guest an admission makes. -/
def arrival (now : Timestamp) (owner name : Name) (treats : BitVec 16) : Guest :=
  ⟨owner, name, now, treats, 0, 0⟩

theorem newEntry_eq (now : Timestamp) (owner name : Name) (treats : BitVec 16) :
    newEntry now owner.text name.text treats = (arrival now owner name treats).entry := by
  simp [newEntry, entry, arrival, due, left, uid, hmstrBasePrice]

/-- The clock check passes exactly when the clock has not gone back behind the
admission. -/
theorem getRounds_entry (g : Guest) (now : Timestamp) :
    (getRounds now g.entry.admissionTime).isSome ↔ g.admitted ≤ now := by
  have h := timersub_sec_neg_iff g.admitted now
  rw [entry_admissionTime]
  unfold getRounds
  by_cases hle : g.admitted ≤ now
  · have hneg : ¬ (timersub now.toTimeval g.admitted.toTimeval).tvSec.toInt < 0 := by
      rw [h]; exact not_not.mpr hle
    simp [hneg, hle]
  · simp [h.mpr hle, hle]

end Guest
end Hamster.Asylum
