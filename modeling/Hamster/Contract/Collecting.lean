import Hamster.Contract.Integrity

/-!
# A collection takes out what it bills

Whatever whole records the database holds, a collection leaves those of other
owners, byte for byte and in their order, and returns what the others add up to.
Only a sum that looks like an error code is misread.
-/
namespace Hamster.Contract.Collecting

open Lib.Bytes Lib.Clock Lib.Posix Lib.RecordFile Store Store.Entry Store.Library Store.Scans
  Store.CollectScan Store.Amounts Store.Outcomes

/-- The stored price and the stay, 5 per 1000 rounds at 25 rounds a minute. -/
def exactAmount (now : Timestamp) (h : Hamsterdesc) : Int :=
  h.price.toInt + 5 * (25 * seconds now h / 60) / 1000

def exactSum (now : Timestamp) (o : CString) (bytes : List Byte) : Int :=
  ((owned o (entries bytes)).map (exactAmount now)).sum

/-- The records of other owners, as they stand in the file. -/
def foreign (o : CString) (bytes : List Byte) : List Byte :=
  ((chunks sizeofHamsterdesc bytes).filter fun c => (Hamsterdesc.ofBytes c).ownerStr ≠ o).flatten

/-- A collection for `o` over a database of these bytes does what it is for. -/
structure Collects (w : World) (o : CString) (bytes : List Byte) (ret : BitVec 32) (w' : World) :
    Prop where
  kept : w'.content .datafile = some (foreign o bytes)
  gone : w'.content .intermediateFile = none
  notFound : ret = hmstrErrNotFound ↔ owned o (entries bytes) = []
  total : owned o (entries bytes) ≠ [] → ret.toInt = (exactSum w.now o bytes).bmod (2 ^ 32)

section Sums
variable {w : World} {o : CString} {bytes : List Byte}

theorem image_others (o : CString) (bytes : List Byte) :
    image (others o (entries bytes)) = foreign o bytes := by
  rw [image_eq_flatten, others, entries, List.filter_map, List.map_map, foreign]
  congr 1
  conv_rhs => rw [← List.map_id (List.filter _ _)]
  apply List.map_congr_left
  intro c hc
  exact Hamsterdesc.toBytes_ofBytes (length_of_mem_chunks (by decide) (List.mem_of_mem_filter hc))

theorem owed_of_usual {now : Timestamp} {hs : List Hamsterdesc}
    (hu : ∀ h ∈ owned o hs, Usual now h) :
    owed now o hs = ((owned o hs).map (exactAmount now)).sum := by
  rw [owed]
  congr 1
  exact List.map_congr_left fun h hm => amount_of_usual (hu h hm)

/-- Usual stays do not fail the assertion. -/
theorem charges_of_usual {now : Timestamp} {hs : List Hamsterdesc}
    (hu : ∀ h ∈ owned o hs, Usual now h) : ∃ cs, charges now o hs = some cs := by
  apply Option.ne_none_iff_exists'.mp
  intro hnone
  obtain ⟨h, hm, hearly⟩ := charges_eq_none_iff.mp hnone
  have hlo := (hu h hm).1
  unfold seconds at hlo
  unfold Premature at hearly
  omega

/-- What the call does, before its result is compared with error codes. -/
theorem collect_whole (hr : w.Reliable) (hw : FilesApart w)
    (hc : w.content .datafile = some bytes) (hwhole : sizeofHamsterdesc ∣ bytes.length)
    (hl : tooLong o = false) (hu : ∀ h ∈ owned o (entries bytes), Usual w.now h) :
    ∃ ret w', hmstrCollect w (some o) = some (ret, w') ∧
      w'.content .datafile = some (foreign o bytes) ∧ w'.content .intermediateFile = none ∧
      ret = if owned o (entries bytes) = [] then hmstrErrNotFound
        else BitVec.ofInt 32 (exactSum w.now o bytes) := by
  obtain ⟨ino, hn, rfl⟩ := Option.map_eq_some_iff.mp hc
  obtain ⟨cs, hcs⟩ := charges_of_usual hu
  have hcol := collect_present hr hn (hw.apart ino hn) (hw.old ino hn) hl
  have hsum := sum_charges hcs
  rw [owed_of_usual hu] at hsum
  rw [hcs, (damage_eq_nil_iff _).mpr hwhole, Option.map_some, if_pos rfl, hsum] at hcol
  refine ⟨_, _, hcol, ?_, ?_, ?_⟩
  · rw [← image_others]
    simp [Sys.content, renewed, renamed]
  · simp [Sys.content]
  · simp only [List.isEmpty_iff]
    rfl

/-- It does what it is for unless the owner has entries that add up to -3, the
number of the error that says that there are none. -/
theorem collects_iff (hr : w.Reliable) (hw : FilesApart w)
    (hc : w.content .datafile = some bytes) (hwhole : sizeofHamsterdesc ∣ bytes.length)
    (hl : o.strlen ≤ 31) (hu : ∀ h ∈ owned o (entries bytes), Usual w.now h) :
    (∃ ret w', hmstrCollect w (some o) = some (ret, w') ∧ Collects w o bytes ret w') ↔
      (owned o (entries bytes) = [] ∨ (exactSum w.now o bytes).bmod (2 ^ 32) ≠ -3) := by
  have hfits := (Asylum.tooLong_eq_false_iff o).mpr hl
  obtain ⟨ret, w', hcol, hkept, hgone, hret⟩ := collect_whole hr hw hc hwhole hfits hu
  have hthree : hmstrErrNotFound.toInt = -3 := by decide
  by_cases hnone : owned o (entries bytes) = []
  · rw [if_pos hnone] at hret
    refine iff_of_true ⟨ret, w', hcol, hkept, hgone, ?_, fun hne => absurd hnone hne⟩ (.inl hnone)
    exact iff_of_true hret hnone
  · rw [if_neg hnone] at hret
    have hint : ret.toInt = (exactSum w.now o bytes).bmod (2 ^ 32) := by
      rw [hret, BitVec.toInt_ofInt]
    have herr : ret = hmstrErrNotFound ↔ (exactSum w.now o bytes).bmod (2 ^ 32) = -3 := by
      rw [← BitVec.toInt_inj, hint, hthree]
    rw [or_iff_right hnone]
    constructor
    · rintro ⟨ret', v, hcol', hdone⟩ hbad
      obtain ⟨rfl, -⟩ := Prod.mk.inj (Option.some.inj (hcol.symm.trans hcol'))
      exact hnone (hdone.notFound.mp (herr.mpr hbad))
    · intro hgood
      refine ⟨ret, w', hcol, hkept, hgone, ?_, fun _ => hint⟩
      exact iff_of_false (fun he => hgood (herr.mp he)) hnone

end Sums

open Integrity (alice bert)

/-- Both sides hold of an owner of one hamster. -/
theorem collects_first :
    (∃ ret w', hmstrCollect (Session.ofOne .epoch alice bert 3).world (some alice) =
        some (ret, w') ∧
      Collects (Session.ofOne .epoch alice bert 3).world alice
        ((Session.ofOne .epoch alice bert 3).world.inodes 0) ret w') ↔
      (owned alice (entries ((Session.ofOne .epoch alice bert 3).world.inodes 0)) = [] ∨
        (exactSum (Session.ofOne .epoch alice bert 3).world.now alice
          ((Session.ofOne .epoch alice bert 3).world.inodes 0)).bmod (2 ^ 32) ≠ -3) :=
  collects_iff rfl (Session.apart_ofOne (by decide)) rfl (by decide +kernel) (by decide)
    (by decide +kernel)

/-- A hamster fed 32758 treats beyond its stock: its price is 65533, which is -3 in
sixteen bits. -/
def lavish : World :=
  (hmstrGivetreats (Session.ofOne .epoch alice bert 0).world (makeHash alice bert) 32758).2

/-- Collecting it reports that there is none. -/
theorem collect_mistaken : lavish.Reliable ∧ FilesApart lavish ∧
    sizeofHamsterdesc ∣ (lavish.inodes 0).length ∧
    lavish.content .datafile = some (lavish.inodes 0) ∧
    (∀ h ∈ owned alice (entries (lavish.inodes 0)), Usual lavish.now h) ∧
    ¬ ∃ ret w', hmstrCollect lavish (some alice) = some (ret, w') ∧
      Collects lavish alice (lavish.inodes 0) ret w' := by
  have hnames : lavish.names .datafile = some 0 ∧ lavish.names .intermediateFile = none ∧
      lavish.nextIno = 1 := by decide +kernel
  refine ⟨show lavish.faults = [] by decide +kernel, ⟨?_, ?_⟩, by decide +kernel, by decide +kernel, by decide +kernel, ?_⟩
  · intro ino hino
    obtain rfl : 0 = ino := Option.some.inj (hnames.1.symm.trans hino)
    rw [hnames.2.2]
    exact Nat.zero_lt_one
  · intro ino _
    rw [hnames.2.1]
    exact nofun
  · rintro ⟨ret, w', hcol, hdone⟩
    have hret : (hmstrCollect lavish (some alice)).map (·.1) = some hmstrErrNotFound := by
      decide +kernel
    rw [hcol] at hret
    have hnone := hdone.notFound.mp (Option.some.inj hret)
    exact absurd hnone (by decide +kernel)

end Hamster.Contract.Collecting
