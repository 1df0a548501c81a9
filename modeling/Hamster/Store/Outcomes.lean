import Hamster.Store.Amounts

/-!
# When a call returns, and when its result is no error

For a database in order, the outcome of each call is a property of the entries it
finds: whether the assertion on the clock fails, and otherwise whether the result
is negative.
-/
namespace Hamster.Store.Outcomes

open Lib.Bytes Lib.Clock Lib.Posix Lib.RecordFile Entry Library Scans CollectScan Amounts

/-- The two names are names of different files, and the next inode is a new one. -/
structure FilesApart (w : World) : Prop where
  old : ∀ ino, w.names .datafile = some ino → ino < w.nextIno
  apart : ∀ ino, w.names .datafile = some ino → w.names .intermediateFile ≠ some ino

/-- Everything a call relies on: no file system call fails, the two names are
apart, the database is whole and its ids are no errors. -/
structure Settled (w : World) : Prop where
  reliable : w.Reliable
  apart : FilesApart w
  whole : ∀ ino, w.names .datafile = some ino → damage (w.inodes ino) = []
  ids : ∀ h ∈ storeEntries w, 0 ≤ h.uid.toInt

/-- The clock shows a time before the entry's admission. -/
def Premature (now : Timestamp) (h : Hamsterdesc) : Prop :=
  (timersub now.toTimeval h.admissionTime).tvSec.toInt < 0

instance (now : Timestamp) (h : Hamsterdesc) : Decidable (Premature now h) :=
  inferInstanceAs (Decidable (_ < _))

/-- The call fails the assertion in `___get_rounds`. -/
def Aborts (w : World) : Call Int → Prop
  | .howsdoing id | .readentry id =>
      ∃ h, (storeEntries w).find? (byId id) = some h ∧ Premature w.now h
  | .collect (some o) => tooLong o = false ∧ ∃ h ∈ owned o (storeEntries w), Premature w.now h
  | _ => False

/-- The entries a directory call goes through. -/
def visited (w : World) (fdptr : Int) : List Hamsterdesc :=
  if fdptr < 0 then storeEntries w else coming w fdptr.toNat

/-- The call finds what it is about, and the number to report is no error. -/
def Succeeds (w : World) : Call Int → Prop
  | .new o n _ => (tooLong o || tooLong n) = false ∧ (storeEntries w).find? (byName o n) = none
  | .lookup (some o) (some n) => (tooLong o || tooLong n) = false ∧
      ((storeEntries w).find? (byName o n)).isSome
  | .directory p o n => (tooLongOpt o || tooLongOpt n) = false ∧
      ∃ h, (visited w p).find? (passesFilter o n) = some h ∧ 0 ≤ h.uid.toInt
  | .howsdoing id | .readentry id | .givetreats id _ =>
      ((storeEntries w).find? (byId id)).isSome
  | .collect (some o) => tooLong o = false ∧ owned o (storeEntries w) ≠ [] ∧
      0 ≤ (owed w.now o (storeEntries w)).bmod (2 ^ 32)
  | _ => False

section Entries
variable {w : World} {ino : Nat} {o : CString} {now : Timestamp}

theorem content_of_name (hn : w.names .datafile = some ino) :
    w.content .datafile = some (w.inodes ino) := by rw [Sys.content, hn]; rfl

theorem storeEntries_present (hn : w.names .datafile = some ino) :
    storeEntries w = entries (w.inodes ino) := by rw [storeEntries, content_of_name hn]; rfl

theorem storeEntries_absent (hn : w.names .datafile = none) : storeEntries w = [] := by
  rw [storeEntries, Sys.content, hn]; rfl

/-- `assert(duration.tv_sec >= 0)` -/
theorem getRounds_eq_none_iff {h : Hamsterdesc} :
    getRounds now h.admissionTime = none ↔ Premature now h := by
  simp [getRounds, Premature]

theorem charges_eq_none_iff {hs : List Hamsterdesc} : charges now o hs = none ↔
    ∃ h ∈ owned o hs, Premature now h := by
  rw [charges]
  generalize owned o hs = xs
  induction xs with
  | nil => simp
  | cons x xs ih =>
    rw [List.mapM_cons, List.exists_mem_cons_iff, ← ih, ← getRounds_eq_none_iff]
    simp only [Option.bind_eq_bind, Option.pure_def]
    cases getRounds now x.admissionTime with
    | none => simp
    | some r =>
      cases xs.mapM fun h => (getRounds now h.admissionTime).map (charge h) with
      | none => simp
      | some cs => simp

/-- What a collection answers, and the database it leaves. -/
theorem collect_outcome (hr : w.Reliable) (hw : FilesApart w)
    (hn : w.names .datafile = some ino) (hl : tooLong o = false) {cs : List (BitVec 32)}
    (hcs : charges w.now o (entries (w.inodes ino)) = some cs) :
    ∃ w', (Call.collect (some o)).exec w = some
        (⟨if damage (w.inodes ino) = [] then
            if owned o (entries (w.inodes ino)) = [] then hmstrErrNotFound else cs.sum
          else hmstrErrCorrupt, .none⟩, w') ∧
      w'.content .datafile = some (image (others o (entries (w.inodes ino)))) := by
  have hcol := collect_present hr hn (hw.apart ino hn) (hw.old ino hn) hl
  rw [hcs] at hcol
  rw [exec_collect, hcol]
  simp only [Option.map_some, List.isEmpty_iff]
  split
  · exact ⟨_, rfl, by simp [Sys.content, renewed, renamed]⟩
  · exact ⟨_, rfl, by simp [Sys.content, renewed, renamed]⟩

end Entries

section Calls
variable {w w' : World} {r : Reply}

/-- Errors are no results. -/
theorem err_neg : hmstrErrNameTooLong.toInt < 0 ∧ hmstrErrExists.toInt < 0 ∧
    hmstrErrNotFound.toInt < 0 ∧ hmstrErrStore.toInt < 0 ∧ hmstrErrCorrupt.toInt < 0 := by decide

theorem nameTooLong_neg : ¬ 0 ≤ hmstrErrNameTooLong.toInt := Int.not_le.mpr err_neg.1
theorem exists_neg : ¬ 0 ≤ hmstrErrExists.toInt := Int.not_le.mpr err_neg.2.1
theorem notFound_neg : ¬ 0 ≤ hmstrErrNotFound.toInt := Int.not_le.mpr err_neg.2.2.1
theorem store_neg : ¬ 0 ≤ hmstrErrStore.toInt := Int.not_le.mpr err_neg.2.2.2.1
theorem corrupt_neg : ¬ 0 ≤ hmstrErrCorrupt.toInt := Int.not_le.mpr err_neg.2.2.2.2

theorem setWidth_nonneg (x : BitVec 16) : 0 ≤ (x.setWidth 32).toInt := by
  have hx := x.isLt
  rw [BitVec.toInt_eq_toNat_of_lt (by rw [BitVec.toNat_setWidth]; omega)]
  exact Int.natCast_nonneg _

theorem new_nonneg_iff (hw : Settled w) (o n : CString) (t : BitVec 16) :
    0 ≤ (hmstrNew w o n t).1.toInt ↔ Succeeds w (.new o n t) := by
  rw [Succeeds]
  cases hl : tooLong o || tooLong n with
  | true =>
    simp only [hmstrNew, hl, ↓reduceIte]
    exact iff_of_false nameTooLong_neg (by simp)
  | false =>
    cases hn : w.names .datafile with
    | none =>
      rw [new_absent hw.reliable hn hl, storeEntries_absent hn]
      exact iff_of_true (makeHash_nonneg o n) ⟨rfl, rfl⟩
    | some ino =>
      rw [new_present hw.reliable hn hl, storeEntries_present hn, if_pos (hw.whole ino hn)]
      cases hf : (entries (w.inodes ino)).find? (byName o n) with
      | none => exact iff_of_true (makeHash_nonneg o n) ⟨rfl, rfl⟩
      | some h => exact iff_of_false exists_neg (by simp)

theorem lookup_ret (hw : Settled w) {o n : CString} (hl : (tooLong o || tooLong n) = false) :
    hmstrLookup w (some o) (some n) =
      (((storeEntries w).find? (byName o n)).elim hmstrErrNotFound (·.uid), w) := by
  cases hn : w.names .datafile with
  | none =>
    rw [lookup_absent hw.reliable hn hl, storeEntries_absent hn]
    rfl
  | some ino =>
    rw [lookup_present hw.reliable hn hl, storeEntries_present hn, endOfFile,
      if_pos (hw.whole ino hn)]

theorem lookup_nonneg_iff (hw : Settled w) (o n : Option CString) :
    0 ≤ (hmstrLookup w o n).1.toInt ↔ Succeeds w (.lookup o n) := by
  match o, n with
  | none, _ => exact iff_of_false notFound_neg id
  | some _, none => exact iff_of_false notFound_neg id
  | some o, some n =>
    rw [Succeeds]
    cases hl : tooLong o || tooLong n with
    | true =>
      simp only [hmstrLookup, hl, ↓reduceIte]
      exact iff_of_false nameTooLong_neg (by simp)
    | false =>
      rw [lookup_ret hw hl]
      cases hf : (storeEntries w).find? (byName o n) with
      | none => exact iff_of_false notFound_neg (by simp)
      | some h => exact iff_of_true (hw.ids h (List.mem_of_find?_eq_some hf)) ⟨rfl, rfl⟩

theorem givetreats_nonneg_iff (hw : Settled w) (id : BitVec 32) (t : BitVec 16) :
    0 ≤ (hmstrGivetreats w id t).1.toInt ↔ Succeeds w (.givetreats id t) := by
  rw [Succeeds]
  cases hn : w.names .datafile with
  | none =>
    rw [givetreats_absent hw.reliable hn, storeEntries_absent hn]
    exact iff_of_false notFound_neg (by simp)
  | some ino =>
    rw [givetreats_present hw.reliable hn, storeEntries_present hn]
    cases hf : (entries (w.inodes ino)).find? (byId id) with
    | none => exact iff_of_false notFound_neg (by simp)
    | some h => exact iff_of_true (setWidth_nonneg _) rfl

/-- A directory call reports the first entry of those it goes through. -/
theorem directory_ret (hr : w.Reliable) {o n : Option CString} (fd : Nat)
    (hl : (tooLongOpt o || tooLongOpt n) = false) :
    match (coming w fd).find? (passesFilter o n) with
    | some h => (hmstrDirectory w fd o n).1 = h.uid
    | none => ¬ 0 ≤ (hmstrDirectory w fd o n).1.toInt := by
  have hneg : ¬ (fd : Int) < 0 := by omega
  have hfirst := scanEntries_coming hr (passesFilter o n) fd
  simp only [hmstrDirectory, hl, directoryFd, hneg, Int.toNat_natCast, Bool.false_eq_true,
    ↓reduceIte]
  cases hs : scanEntries (passesFilter o n) w fd with
  | mk e w₁ =>
    rw [hs] at hfirst
    cases hf : (coming w fd).find? (passesFilter o n) with
    | some h =>
      rw [hf] at hfirst
      obtain ⟨bs, rfl, rfl⟩ := hfirst
      rfl
    | none =>
      rw [hf] at hfirst
      obtain ⟨last, rfl⟩ := hfirst
      dsimp only
      split
      · exact notFound_neg
      · exact corrupt_neg

theorem directory_nonneg_iff (hw : Settled w) (p : Int) (o n : Option CString) :
    0 ≤ (hmstrDirectory w p o n).1.toInt ↔ Succeeds w (.directory p o n) := by
  rw [Succeeds]
  cases hl : tooLongOpt o || tooLongOpt n with
  | true =>
    simp only [hmstrDirectory, hl, ↓reduceIte]
    exact iff_of_false nameTooLong_neg (by simp)
  | false =>
    have hopen (v : World) (hv : v.Reliable) (fd : Nat) : 0 ≤ (hmstrDirectory v fd o n).1.toInt ↔
        ∃ h, (coming v fd).find? (passesFilter o n) = some h ∧ 0 ≤ h.uid.toInt := by
      have hret := directory_ret hv fd hl
      cases hf : (coming v fd).find? (passesFilter o n) with
      | some h =>
        rw [hf] at hret
        rw [hret]
        refine ⟨fun hpos => ⟨h, rfl, hpos⟩, ?_⟩
        rintro ⟨_, ⟨⟩, hpos⟩
        exact hpos
      | none =>
        rw [hf] at hret
        exact iff_of_false hret (by simp)
    rw [and_iff_right rfl]
    rcases Int.lt_or_le p 0 with hp | hp
    · simp only [visited, if_pos hp]
      cases hn : w.names .datafile with
      | none =>
        rw [directory_absent hw.reliable hn hp hl, storeEntries_absent hn]
        exact iff_of_false notFound_neg (by simp)
      | some ino =>
        have hcoming : coming (w.setDesc w.lowestFree (.file ino 0 false)) w.lowestFree =
            entries (w.inodes ino) := by
          simp only [coming, lookup_setDesc, Sys.setDesc_inodes, List.drop_zero]
        rw [directory_opens hw.reliable hn hp hl,
          hopen (w.setDesc w.lowestFree (.file ino 0 false)) hw.reliable, hcoming,
          storeEntries_present hn]
    · obtain ⟨fd, rfl⟩ := Int.eq_ofNat_of_zero_le hp
      simp only [visited, if_neg (Int.not_lt.mpr hp), Int.toNat_natCast]
      exact hopen w hw.reliable fd

/-- The result of a call that aborts unless the entry's clock is behind, over the
entry it looks for. -/
def retById (w : World) (id : BitVec 32) (f : Hamsterdesc → BitVec 32) : Option (BitVec 32) :=
  match (storeEntries w).find? (byId id) with
  | none => some hmstrErrNotFound
  | some h => (getRounds w.now h.admissionTime).map fun _ => f h

theorem retById_eq_none_iff {id : BitVec 32} {f : Hamsterdesc → BitVec 32} :
    retById w id f = none ↔
      ∃ h, (storeEntries w).find? (byId id) = some h ∧ Premature w.now h := by
  rw [retById]
  cases (storeEntries w).find? (byId id) with
  | none => simp
  | some h => simp [getRounds_eq_none_iff]

theorem retById_nonneg_iff {id : BitVec 32} {f : Hamsterdesc → BitVec 32} {ret : BitVec 32}
    (hf : ∀ h, 0 ≤ (f h).toInt) (h : retById w id f = some ret) :
    0 ≤ ret.toInt ↔ ((storeEntries w).find? (byId id)).isSome := by
  rw [retById] at h
  cases hs : (storeEntries w).find? (byId id) with
  | none =>
    rw [hs] at h
    rw [← Option.some.inj h]
    exact iff_of_false notFound_neg (by simp)
  | some x =>
    rw [hs] at h
    obtain ⟨_, -, rfl⟩ := Option.map_eq_some_iff.mp h
    exact iff_of_true (hf x) rfl

theorem howsdoing_ret (hr : w.Reliable) (id : BitVec 32) :
    ((Call.howsdoing id).exec w).map (·.1.ret) = retById w id fun _ => 0 := by
  rw [exec_howsdoing, retById]
  cases hn : w.names .datafile with
  | none => rw [howsdoing_absent hr hn, storeEntries_absent hn]; rfl
  | some ino =>
    rw [howsdoing_present hr hn, storeEntries_present hn]
    cases (entries (w.inodes ino)).find? (byId id) with
    | none => rfl
    | some h => simp only [Option.map_map]; rfl

theorem readentry_ret (hr : w.Reliable) (id : BitVec 32) :
    ((Call.readentry id).exec w).map (·.1.ret) =
      retById w id fun h => h.treatsLeft.setWidth 32 := by
  rw [exec_readentry, retById]
  cases hn : w.names .datafile with
  | none => rw [readentry_absent hr hn, storeEntries_absent hn]; rfl
  | some ino =>
    rw [readentry_present hr hn, storeEntries_present hn]
    cases (entries (w.inodes ino)).find? (byId id) with
    | none => rfl
    | some h => simp only [Option.map_map]; rfl

/-- The result of a collection for a name that is short enough. -/
theorem collect_ret (hw : Settled w) {o : CString} (hl : tooLong o = false) :
    ((Call.collect (some o)).exec w).map (·.1.ret) =
      match w.names .datafile with
      | none => some hmstrErrStore
      | some _ => (charges w.now o (storeEntries w)).map fun cs =>
          if owned o (storeEntries w) = [] then hmstrErrNotFound else cs.sum := by
  cases hn : w.names .datafile with
  | none => rw [exec_collect, collect_absent hw.reliable hn hl]; rfl
  | some ino =>
    rw [storeEntries_present hn]
    cases hc : charges w.now o (entries (w.inodes ino)) with
    | none =>
      rw [exec_collect, collect_present hw.reliable hn (hw.apart.apart ino hn)
        (hw.apart.old ino hn) hl, hc]
      rfl
    | some cs =>
      obtain ⟨w', he, -⟩ := collect_outcome hw.reliable hw.apart hn hl hc
      rw [he, if_pos (hw.whole ino hn)]
      rfl

/-- A call returns unless an assertion fails. -/
theorem exec_eq_none_iff (hw : Settled w) (c : Call Int) : c.exec w = none ↔ Aborts w c := by
  rw [← Option.map_eq_none_iff (f := fun x : Reply × World => x.1.ret)]
  match c with
  | .new _ _ _ | .lookup _ _ | .directory _ _ _ | .givetreats _ _ | .collect none =>
    exact iff_of_false (Option.some_ne_none _) id
  | .howsdoing id => rw [howsdoing_ret hw.reliable, retById_eq_none_iff]; rfl
  | .readentry id => rw [readentry_ret hw.reliable, retById_eq_none_iff]; rfl
  | .collect (some o) =>
    rw [Aborts]
    cases hl : tooLong o with
    | true => simp [exec_collect, hmstrCollect, hl]
    | false =>
      rw [collect_ret hw hl]
      cases hn : w.names .datafile with
      | none => simp [storeEntries_absent hn, owned]
      | some ino => simp [charges_eq_none_iff]

/-- The result is an error unless the call succeeds. -/
theorem exec_nonneg_iff (hw : Settled w) {c : Call Int} (h : c.exec w = some (r, w')) :
    0 ≤ r.ret.toInt ↔ Succeeds w c := by
  have hret := congrArg (Option.map fun x : Reply × World => x.1.ret) h
  rw [Option.map_some] at hret
  match c with
  | .new o n t => rw [← Option.some.inj hret]; exact new_nonneg_iff hw o n t
  | .lookup o n => rw [← Option.some.inj hret]; exact lookup_nonneg_iff hw o n
  | .directory p o n => rw [← Option.some.inj hret]; exact directory_nonneg_iff hw p o n
  | .givetreats id t => rw [← Option.some.inj hret]; exact givetreats_nonneg_iff hw id t
  | .howsdoing id =>
    rw [howsdoing_ret hw.reliable] at hret
    exact retById_nonneg_iff (fun _ => by decide) hret
  | .readentry id =>
    rw [readentry_ret hw.reliable] at hret
    exact retById_nonneg_iff (fun _ => setWidth_nonneg _) hret
  | .collect none => rw [← Option.some.inj hret]; exact iff_of_false notFound_neg id
  | .collect (some o) =>
    rw [Succeeds]
    cases hl : tooLong o with
    | true =>
      simp only [exec_collect, hmstrCollect, hl, ↓reduceIte, Option.map_some] at hret
      rw [← Option.some.inj hret]
      exact iff_of_false nameTooLong_neg (by simp)
    | false =>
      rw [collect_ret hw hl] at hret
      cases hn : w.names .datafile with
      | none =>
        rw [hn] at hret
        rw [← Option.some.inj hret, storeEntries_absent hn]
        exact iff_of_false store_neg (by simp [owned])
      | some ino =>
        rw [hn] at hret
        obtain ⟨cs, hcs, hsum⟩ := Option.map_eq_some_iff.mp hret
        rw [← hsum, and_iff_right rfl]
        split
        next he => exact iff_of_false notFound_neg (by simp [he])
        next he => rw [and_iff_right he, sum_charges hcs, BitVec.toInt_ofInt]

end Calls

end Hamster.Store.Outcomes
