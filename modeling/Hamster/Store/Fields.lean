import Hamster.Lib.Rows
import Hamster.Asylum.Guest
import Hamster.Store.CollectScan

/-!
# What the searches look at

A name short enough to be accepted is compared with the name fields only: the
string in a field without a terminating zero is longer than any such name. So
feeding an entry or asking after it does not change what finds it.
-/
namespace Hamster.Store.Fields

open Lib.Bytes Lib.Clock Lib.Rows Entry Library Scans CollectScan

variable {h h' : Hamsterdesc} {o n : CString}

/-- Without a zero the string covers the whole field. -/
theorem length_le_strlen {mem : List Byte} (hz : (0 : Byte) ∉ mem) (rest : List Byte) :
    mem.length ≤ (cstr (mem ++ rest)).strlen := by
  have hall : ∀ b ∈ mem, (decide (b ≠ 0)) = true := by
    intro b hb
    simpa using fun he : b = 0 => hz (he ▸ hb)
  simp only [cstr, CString.strlen]
  rw [List.takeWhile_append_of_pos hall, List.length_append]
  omega

theorem strlen_le_of_fits (hl : tooLong o = false) : o.strlen ≤ 31 :=
  (Asylum.tooLong_eq_false_iff o).mp hl

theorem fits_of_or (hl : (tooLong o || tooLong n) = false) :
    tooLong o = false ∧ tooLong n = false := by simpa using hl

theorem ownerStr_eq_iff (hl : tooLong o = false) :
    h.ownerStr = o ↔ (0 : Byte) ∈ h.owner.val ∧ cstr h.owner.val = o := by
  by_cases hz : (0 : Byte) ∈ h.owner.val
  · rw [Hamsterdesc.ownerStr_of_nul hz, and_iff_right hz]
  · have hlen := length_le_strlen hz (h.toBytes.drop 56)
    rw [← Hamsterdesc.drop_owner, Hamsterdesc.length_owner] at hlen
    have hfits := strlen_le_of_fits hl
    refine iff_of_false ?_ fun hc => hz hc.1
    rintro rfl
    rw [Hamsterdesc.ownerStr] at hfits
    omega

theorem nameStr_eq_iff (hl : tooLong n = false) :
    h.nameStr = n ↔ (0 : Byte) ∈ h.name.val ∧ cstr h.name.val = n := by
  by_cases hz : (0 : Byte) ∈ h.name.val
  · rw [Hamsterdesc.nameStr_of_nul hz, and_iff_right hz]
  · have hlen := length_le_strlen hz (h.toBytes.drop 88)
    rw [← Hamsterdesc.drop_name, Hamsterdesc.length_name] at hlen
    have hfits := strlen_le_of_fits hl
    refine iff_of_false ?_ fun hc => hz hc.1
    rintro rfl
    rw [Hamsterdesc.nameStr] at hfits
    omega

theorem ownerStr_congr (hl : tooLong o = false) (he : h.owner = h'.owner) :
    h.ownerStr = o ↔ h'.ownerStr = o := by
  rw [ownerStr_eq_iff hl, ownerStr_eq_iff hl, he]

theorem byName_congr (hl : (tooLong o || tooLong n) = false) (ho : h.owner = h'.owner)
    (hn : h.name = h'.name) : byName o n h = byName o n h' := by
  obtain ⟨hlo, hln⟩ := fits_of_or hl
  have hname : h.nameStr = n ↔ h'.nameStr = n := by
    rw [nameStr_eq_iff hln, nameStr_eq_iff hln, hn]
  simp only [byName, ownerStr_congr hlo ho, hname]

section Admitted
variable (now : Timestamp) (treats : BitVec 16)

theorem newEntry_ownerStr (hl : tooLong o = false) (n : CString) :
    (newEntry now o n treats).ownerStr = o := by
  have hs := strlen_le_of_fits hl
  have hfield := Asylum.Guest.val_nameField hs
  rw [ownerStr_eq_iff hl]
  refine ⟨Asylum.Guest.nul_mem_nameField hs, ?_⟩
  rw [show (newEntry now o n treats).owner.val = o.pad 32 from hfield]
  exact cstr_pad_self (by omega)

theorem newEntry_nameStr (o : CString) (hl : tooLong n = false) :
    (newEntry now o n treats).nameStr = n := by
  have hs := strlen_le_of_fits hl
  have hfield := Asylum.Guest.val_nameField hs
  rw [nameStr_eq_iff hl]
  refine ⟨Asylum.Guest.nul_mem_nameField hs, ?_⟩
  rw [show (newEntry now o n treats).name.val = n.pad 32 from hfield]
  exact cstr_pad_self (by omega)

theorem byName_newEntry (hl : (tooLong o || tooLong n) = false) (o' n' : CString) :
    byName o' n' (newEntry now o n treats) = decide ((o, n) = (o', n')) := by
  obtain ⟨hlo, hln⟩ := fits_of_or hl
  rw [byName, newEntry_ownerStr now treats hlo, newEntry_nameStr now treats o hln, ← Bool.decide_and]
  simp only [Prod.mk.injEq]

end Admitted

/-- The patch leaves alone whose entry it is and since when. -/
structure KeepsIdentity (f : Hamsterdesc → Hamsterdesc) : Prop where
  uid : ∀ h, (f h).uid = h.uid
  owner : ∀ h, (f h).owner = h.owner
  name : ∀ h, (f h).name = h.name
  admissionTime : ∀ h, (f h).admissionTime = h.admissionTime

theorem keepsIdentity_feed (treats : BitVec 16) : KeepsIdentity (feed · treats) := by
  constructor <;>
  · intro h
    unfold feed
    split <;> rfl

theorem keepsIdentity_inquire : KeepsIdentity inquire := ⟨fun _ => rfl, fun _ => rfl, fun _ => rfl,
  fun _ => rfl⟩

section Kept
variable {f : Hamsterdesc → Hamsterdesc} (hf : KeepsIdentity f)
include hf

theorem KeepsIdentity.byId (id : BitVec 32) (h : Hamsterdesc) :
    Scans.byId id (f h) = Scans.byId id h := by
  rw [Scans.byId, Scans.byId, hf.uid]

theorem KeepsIdentity.byName (hl : (tooLong o || tooLong n) = false) (h : Hamsterdesc) :
    Scans.byName o n (f h) = Scans.byName o n h :=
  byName_congr hl (hf.owner h) (hf.name h)

theorem KeepsIdentity.ownerStr (hl : tooLong o = false) (h : Hamsterdesc) :
    (f h).ownerStr = o ↔ h.ownerStr = o := ownerStr_congr hl (hf.owner h)

end Kept

end Hamster.Store.Fields
