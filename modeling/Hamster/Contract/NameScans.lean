import Hamster.Contract.Integrity
import Hamster.Store.Fields

/-!
# Three scans by name

`hmstr_lookup`, `hmstr_directory` and `hmstr_new` each go through the database on
their own. Whatever it contains they come to the same conclusion about a name. In
a reachable database a name has one record at most, so a listing by full name ends
at its second call.
-/
namespace Hamster.Contract.NameScans

open Lib.Bytes Lib.Clock Lib.Posix Lib.RecordFile Lib.Runs Store Store.Entry Store.Library
  Store.Scans Store.Outcomes

/-- How a search for a name can end. -/
inductive NameScan
  | rejected
  | found (h : Hamsterdesc)
  | damaged
  | nothing

/-- The first complete record of that name; failing that, whether there is a record
that is not complete. -/
def nameScan (w : World) (o n : CString) : NameScan :=
  if 31 < o.strlen ∨ 31 < n.strlen then .rejected
  else
    match w.content .datafile with
    | none => .nothing
    | some bytes =>
      match (entries bytes).find? (byName o n) with
      | some h => .found h
      | none => if sizeofHamsterdesc ∣ bytes.length then .nothing else .damaged

/-- What a function that looks for the record returns. -/
def NameScan.code : NameScan → BitVec 32
  | .rejected => hmstrErrNameTooLong
  | .found h => h.uid
  | .damaged => hmstrErrCorrupt
  | .nothing => hmstrErrNotFound

/-- The three functions on one name. -/
structure ScansAgree (w : World) (o n : CString) (treats : BitVec 16) : Prop where
  lookup : (hmstrLookup w (some o) (some n)).1 = (nameScan w o n).code
  directory : (hmstrDirectory w (-1) (some o) (some n)).1 = (nameScan w o n).code
  tooLong : (hmstrNew w o n treats).1 = hmstrErrNameTooLong ↔ nameScan w o n = .rejected
  registered : (hmstrNew w o n treats).1 = hmstrErrExists ↔ ∃ h, nameScan w o n = .found h
  corrupt : (hmstrNew w o n treats).1 = hmstrErrCorrupt ↔ nameScan w o n = .damaged
  appends : nameScan w o n = .nothing → (hmstrNew w o n treats).2.content .datafile =
    some ((w.content .datafile).getD [] ++ (newEntry w.now o n treats).toBytes)
  leaves : nameScan w o n ≠ .nothing →
    (hmstrNew w o n treats).2.content .datafile = w.content .datafile

section Scans
variable {w : World} {ino : Nat} {o n : CString} {treats : BitVec 16}

theorem tooLong_or : (tooLong o || tooLong n) = true ↔ 31 < o.strlen ∨ 31 < n.strlen := by
  simp [tooLong, hmstrMaxName]

theorem nameScan_rejected (hl : (tooLong o || tooLong n) = true) :
    nameScan w o n = .rejected := if_pos (tooLong_or.mp hl)

theorem nameScan_absent (hl : (tooLong o || tooLong n) = false)
    (hn : w.names .datafile = none) : nameScan w o n = .nothing := by
  have hfits : ¬ (31 < o.strlen ∨ 31 < n.strlen) := by rw [← tooLong_or, hl]; decide
  rw [nameScan, if_neg hfits, Sys.content, hn]
  rfl

theorem nameScan_present (hl : (tooLong o || tooLong n) = false)
    (hn : w.names .datafile = some ino) : nameScan w o n =
      match (entries (w.inodes ino)).find? (byName o n) with
      | some h => .found h
      | none => if damage (w.inodes ino) = [] then .nothing else .damaged := by
  have hfits : ¬ (31 < o.strlen ∨ 31 < n.strlen) := by rw [← tooLong_or, hl]; decide
  rw [nameScan, if_neg hfits, content_of_name hn]
  simp only [← damage_eq_nil_iff]

theorem lookup_scan (hr : w.Reliable) (o n : CString) :
    (hmstrLookup w (some o) (some n)).1 = (nameScan w o n).code := by
  cases hl : tooLong o || tooLong n with
  | true =>
    rw [nameScan_rejected hl]
    simp only [hmstrLookup, hl, ↓reduceIte]
    rfl
  | false =>
    cases hn : w.names .datafile with
    | none => rw [lookup_absent hr hn hl, nameScan_absent hl hn]; rfl
    | some ino =>
      rw [lookup_present hr hn hl, nameScan_present hl hn]
      cases (entries (w.inodes ino)).find? (byName o n) with
      | some h => rfl
      | none =>
        simp only [Option.elim, endOfFile]
        split <;> rfl

/-- A first directory call, and a second one with the handle it leaves. -/
theorem directory_first (hr : w.Reliable) (hn : w.names .datafile = some ino)
    (hl : (tooLong o || tooLong n) = false) :
    (∃ pre h post, entries (w.inodes ino) = pre ++ h :: post ∧ byName o n h = true ∧
        (entries (w.inodes ino)).find? (byName o n) = some h ∧
        hmstrDirectory w (-1) (some o) (some n) = (h.uid, (w.lowestFree : Int),
          w.setDesc w.lowestFree (.file ino (96 * (pre.length + 1)) false))) ∨
      ((entries (w.inodes ino)).find? (byName o n) = none ∧
        hmstrDirectory w (-1) (some o) (some n) = (endOfFile (w.inodes ino), -1, w)) := by
  have hopen := directory_opens (o := some o) (n := some n) hr hn (by decide : (-1 : Int) < 0) hl
  have hcont := drop_zero_content (w.inodes ino)
  rw [hopen]
  rcases first_or_none (byName o n) (entries (w.inodes ino))
    with ⟨hf, hno⟩ | ⟨pre, h, post, he, hpre, hh, hf⟩
  · right
    rw [directory_end (w := w.setDesc w.lowestFree (.file ino 0 false)) (o := some o)
      (n := some n) hr (lookup_setDesc ..) hl hcont (length_damage_lt _) hno, close_opened]
    exact ⟨hf, rfl⟩
  · left
    rw [he] at hcont
    rw [directory_hit (w := w.setDesc w.lowestFree (.file ino 0 false)) (o := some o)
      (n := some n) hr (lookup_setDesc ..) hl hcont hpre hh, Sys.setDesc_setDesc, Nat.zero_add]
    exact ⟨pre, h, post, he, hh, hf, rfl⟩

theorem directory_scan (hr : w.Reliable) (o n : CString) :
    (hmstrDirectory w (-1) (some o) (some n)).1 = (nameScan w o n).code := by
  cases hl : tooLong o || tooLong n with
  | true =>
    have hl' : (tooLongOpt (some o) || tooLongOpt (some n)) = true := hl
    rw [nameScan_rejected hl]
    simp only [hmstrDirectory, hl', ↓reduceIte]
    rfl
  | false =>
    cases hn : w.names .datafile with
    | none =>
      rw [directory_absent (o := some o) (n := some n) hr hn (by decide) hl, nameScan_absent hl hn]
      rfl
    | some ino =>
      rw [nameScan_present hl hn]
      rcases directory_first hr hn hl with ⟨pre, h, post, -, -, hf, hd⟩ | ⟨hf, hd⟩
      · rw [hd, hf]
        rfl
      · rw [hd, hf, endOfFile]
        dsimp only
        split <;> rfl

/-- An admission, by the end of the search. -/
theorem new_scan (hr : w.Reliable) (o n : CString) (treats : BitVec 16) :
    match nameScan w o n with
    | .rejected => hmstrNew w o n treats = (hmstrErrNameTooLong, w)
    | .found _ => hmstrNew w o n treats = (hmstrErrExists, w)
    | .damaged => hmstrNew w o n treats = (hmstrErrCorrupt, w)
    | .nothing => (hmstrNew w o n treats).1 = makeHash o n ∧
        (hmstrNew w o n treats).2.content .datafile =
          some ((w.content .datafile).getD [] ++ (newEntry w.now o n treats).toBytes) := by
  cases hl : tooLong o || tooLong n with
  | true =>
    rw [nameScan_rejected hl]
    simp only [hmstrNew, hl, ↓reduceIte]
  | false =>
    cases hn : w.names .datafile with
    | none =>
      rw [nameScan_absent hl hn, new_absent hr hn hl]
      refine ⟨rfl, ?_⟩
      simp [Sys.content, hn]
    | some ino =>
      rw [nameScan_present hl hn, new_present hr hn hl]
      cases hf : (entries (w.inodes ino)).find? (byName o n) with
      | some h => simp
      | none =>
        by_cases hd : damage (w.inodes ino) = []
        · simp [hd, Sys.content, hn]
        · simp [hd]

theorem scans_agree (hr : w.Reliable) (o n : CString) (treats : BitVec 16) :
    ScansAgree w o n treats := by
  have hnew := new_scan hr o n treats
  have hpos := Amounts.makeHash_nonneg o n
  have herr {code : BitVec 32} (hc : code.toInt < 0) : makeHash o n ≠ code := by
    rintro rfl
    omega
  have hlookup := lookup_scan hr o n
  have hdirectory := directory_scan hr o n
  cases hs : nameScan w o n with
  | rejected =>
    rw [hs] at hnew
    have hret : (hmstrNew w o n treats).1 = hmstrErrNameTooLong := congrArg Prod.fst hnew
    refine ⟨hlookup, hdirectory, iff_of_true hret hs,
      iff_of_false (by rw [hret]; decide) ?_, iff_of_false (by rw [hret]; decide) ?_, ?_,
      fun _ => by rw [hnew]⟩
    · rintro ⟨_, he⟩
      exact nomatch hs.symm.trans he
    · exact fun he => nomatch hs.symm.trans he
    · exact fun he => nomatch hs.symm.trans he
  | found h =>
    rw [hs] at hnew
    have hret : (hmstrNew w o n treats).1 = hmstrErrExists := congrArg Prod.fst hnew
    refine ⟨hlookup, hdirectory, iff_of_false (by rw [hret]; decide) ?_,
      iff_of_true hret ⟨h, hs⟩, iff_of_false (by rw [hret]; decide) ?_, ?_,
      fun _ => by rw [hnew]⟩
    · exact fun he => nomatch hs.symm.trans he
    · exact fun he => nomatch hs.symm.trans he
    · exact fun he => nomatch hs.symm.trans he
  | damaged =>
    rw [hs] at hnew
    have hret : (hmstrNew w o n treats).1 = hmstrErrCorrupt := congrArg Prod.fst hnew
    refine ⟨hlookup, hdirectory, iff_of_false (by rw [hret]; decide) ?_,
      iff_of_false (by rw [hret]; decide) ?_, iff_of_true hret hs, ?_,
      fun _ => by rw [hnew]⟩
    · exact fun he => nomatch hs.symm.trans he
    · rintro ⟨_, he⟩
      exact nomatch hs.symm.trans he
    · exact fun he => nomatch hs.symm.trans he
  | nothing =>
    rw [hs] at hnew
    refine ⟨hlookup, hdirectory, iff_of_false (by rw [hnew.1]; exact herr (by decide)) ?_,
      iff_of_false (by rw [hnew.1]; exact herr (by decide)) ?_,
      iff_of_false (by rw [hnew.1]; exact herr (by decide)) ?_, fun _ => hnew.2,
      fun hne => absurd hs hne⟩
    · exact fun he => nomatch hs.symm.trans he
    · rintro ⟨_, he⟩
      exact nomatch hs.symm.trans he
    · exact fun he => nomatch hs.symm.trans he

/-- Where names are not repeated, nothing behind a hit has its name. -/
theorem no_second {hs pre post : List Hamsterdesc} {h : Hamsterdesc}
    (hd : (hs.map fun h => (h.ownerStr, h.nameStr)).Nodup) (he : hs = pre ++ h :: post)
    (hh : byName o n h = true) : ∀ x ∈ post, byName o n x = false := by
  intro x hx
  rw [he, List.map_append, List.map_cons] at hd
  have hne := (List.nodup_cons.mp (List.nodup_append.mp hd).2.1).1
  by_contra hb
  simp only [byName, Bool.and_eq_true, decide_eq_true_eq, Bool.not_eq_false] at hb hh
  apply hne
  rw [hh.1, hh.2, ← hb.1, ← hb.2]
  exact List.mem_map_of_mem hx

/-- In a database in order a second call by full name finds nothing more. -/
theorem second_call (hr : w.Reliable) (hw : Integrity.Intact w)
    (hl : (tooLong o || tooLong n) = false) :
    (hmstrDirectory (hmstrDirectory w (-1) (some o) (some n)).2.2
      (hmstrDirectory w (-1) (some o) (some n)).2.1 (some o) (some n)).1 = hmstrErrNotFound := by
  cases hn : w.names .datafile with
  | none =>
    have hnone := directory_absent (o := some o) (n := some n) hr hn (by decide : (-1 : Int) < 0) hl
    rw [hnone, hnone]
  | some ino =>
    have hcontent := content_of_name hn
    have hwhole : damage (w.inodes ino) = [] := (damage_eq_nil_iff _).mpr (hw.whole _ hcontent)
    rcases directory_first hr hn hl with ⟨pre, h, post, he, hh, -, hd⟩ | ⟨-, hd⟩
    · have hpost := no_second (hw.distinct _ hcontent) he hh
      have hrest : (w.inodes ino).drop (96 * (pre.length + 1)) = image post ++ [] := by
        have himage := image_entries (w.inodes ino)
        rw [hwhole, he, List.append_nil, List.append_cons, image_append] at himage
        rw [← himage, List.append_nil, List.drop_left' (by rw [length_image]; simp)]
      rw [hd, directory_end (w := w.setDesc w.lowestFree _) (o := some o) (n := some n) hr
        (lookup_setDesc ..) hl hrest (by decide) hpost]
      rfl
    · rw [hd, hd, endOfFile, if_pos hwhole]

/-- What the two calls of a listing by full name return, one after the other. -/
def listed (w : World) (o n : CString) : BitVec 32 × BitVec 32 :=
  let (first, handle, w) := hmstrDirectory w (-1) (some o) (some n)
  (first, (hmstrDirectory w handle (some o) (some n)).1)

/-- A name that is too long is rejected by both. -/
theorem listed_rejected (hl : (tooLong o || tooLong n) = true) (w : World) :
    (listed w o n).2 = hmstrErrNameTooLong := by
  have hl' : (tooLongOpt (some o) || tooLongOpt (some n)) = true := hl
  simp only [listed, hmstrDirectory, hl', ↓reduceIte]

/-- The three functions agree on every database and every name; in a database
reached by library calls the second call of a listing finds nothing more, unless
the name was rejected. -/
theorem scans_by_name :
    (∀ (w : World) (o n : CString) (treats : BitVec 16), w.Reliable → ScansAgree w o n treats) ∧
    ∀ (s t : Session) (tr : List (Event Session Input Reply)) (o n : CString), s.Fresh →
      Runs s tr t → (listed t.world o n).2 =
        if 31 < o.strlen ∨ 31 < n.strlen then hmstrErrNameTooLong else hmstrErrNotFound := by
  refine ⟨fun w o n treats hr => scans_agree hr o n treats, fun s t tr o n hs h => ?_⟩
  obtain ⟨_, b, -, hb, -⟩ := Asylum.reachable_represents hs h
  have hintact := Integrity.intact_of_represents hb
  cases hl : tooLong o || tooLong n with
  | true => rw [if_pos (tooLong_or.mp hl), listed_rejected hl]
  | false =>
    rw [if_neg (by rw [← tooLong_or, hl]; decide)]
    exact second_call hb.reliable hintact hl

end Scans

/-- A name of 32 characters. -/
def overlong : CString := ⟨List.replicate 32 120, by decide⟩

theorem scans_by_name_first :
    ScansAgree (Session.ofOne .epoch Integrity.alice Integrity.bert 3).world Integrity.alice
        Integrity.bert 0 ∧
      (listed (Session.ofOne .epoch Integrity.alice Integrity.bert 3).world Integrity.alice
        Integrity.bert).2 = hmstrErrNotFound :=
  ⟨scans_by_name.1 _ _ _ _ rfl,
    (scans_by_name.2 _ _ _ _ _ Session.fresh_initial (Session.runs_ofOne ..)).trans
      (if_neg (by decide))⟩

/-- For a rejected name the second call does not say that there is nothing more. -/
theorem second_call_rejected : ∃ s t tr, s.Fresh ∧ Runs s tr t ∧
    (listed t.world overlong Integrity.bert).2 ≠ hmstrErrNotFound :=
  ⟨_, _, [], Session.fresh_initial, .nil _, by decide +kernel⟩

end Hamster.Contract.NameScans
