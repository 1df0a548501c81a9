import Hamster.Store.Library

/-!
# What a call does to open descriptors

Each function works on descriptors of its own, which it closes again. Only
`hmstr_directory` takes a number from its caller; it touches that descriptor, or
the one it opens, and no other. Calls to the file system may fail.
-/
namespace Hamster.Store.Frame

open Lib.Bytes Lib.Posix Lib.RecordFile Entry Library

variable {w w' : World}

theorem scanEntries_onlyFd (test : Hamsterdesc → Bool) (w : World) (fd : Nat) :
    Sys.OnlyFd fd w (scanEntries test w fd).2 := scan_onlyFd _ _ w fd

/-- Writing back works on one descriptor and closes it. -/
theorem writeBack_closes (w : World) (fd : Nat) (h : Hamsterdesc) (ok : BitVec 32) :
    ∃ v, Sys.OnlyFd fd w v ∧ (writeBack w fd h ok).2 = v.close fd := by
  have hseek := w.lseekCur_onlyFd fd (-96)
  unfold writeBack
  cases hs : w.lseekCur fd (-96) with
  | mk off w₁ =>
    rw [hs] at hseek
    cases off with
    | none => exact ⟨w₁, hseek, rfl⟩
    | some off => exact ⟨_, hseek.trans (w₁.write_onlyFd fd h.toBytes), rfl⟩

/-- A descriptor just opened, worked on and closed leaves the table as it was. -/
theorem fds_of_opened {name : StoreFile} {mode : OpenMode} {fd : Nat}
    (h : w.openFile name mode = (some fd, w')) {v : World} (hv : Sys.OnlyFd fd w' v) :
    (v.close fd).fds = w.fds := by
  obtain ⟨hfree, honly⟩ := Sys.openFile_fds h
  apply Finmap.ext_lookup
  intro x
  by_cases hx : x = fd
  · rw [hx, Finmap.lookup_eq_none.mpr hfree]
    exact Finmap.lookup_erase _ _
  · exact (Finmap.lookup_erase_ne hx).trans ((hv x hx).trans (honly x hx))

section Calls
variable (w : World)

theorem new_fds (o n : CString) (t : BitVec 16) : (hmstrNew w o n t).2.fds = w.fds := by
  unfold hmstrNew
  split
  · rfl
  · split
    · rename_i hopen
      exact Sys.openFile_failed hopen
    · rename_i fd w₁ hopen
      have hscan := scanEntries_onlyFd (fun h => h.ownerStr = o && h.nameStr = n) w₁ fd
      split
      · rename_i hs
        rw [hs] at hscan
        exact fds_of_opened hopen hscan
      · rename_i hs
        rw [hs] at hscan
        exact fds_of_opened hopen hscan
      · rename_i bs w₂ hs
        rw [hs] at hscan
        split
        · exact fds_of_opened hopen hscan
        · have hwrite := w₂.write_onlyFd fd (newEntry w₂.now o n t).toBytes
          dsimp only
          split
          all_goals exact fds_of_opened hopen (hscan.trans hwrite)

theorem lookup_fds (o n : Option CString) : (hmstrLookup w o n).2.fds = w.fds := by
  unfold hmstrLookup
  split
  · rename_i o n
    split
    · rfl
    · split
      · rename_i hopen
        exact Sys.openFile_failed hopen
      · rename_i fd w₁ hopen
        have hscan := scanEntries_onlyFd (fun h => h.ownerStr = o && h.nameStr = n) w₁ fd
        split
        all_goals
          rename_i hs
          rw [hs] at hscan
          exact fds_of_opened hopen hscan
  · rfl

theorem givetreats_fds (id : BitVec 32) (t : BitVec 16) :
    (hmstrGivetreats w id t).2.fds = w.fds := by
  unfold hmstrGivetreats
  split
  · rename_i hopen
    exact Sys.openFile_failed hopen
  · rename_i fd w₁ hopen
    have hscan := scanEntries_onlyFd (fun h => h.uid = id) w₁ fd
    split
    · rename_i bs w₂ hs
      rw [hs] at hscan
      obtain ⟨v, hv, he⟩ := writeBack_closes w₂ fd (feed (Hamsterdesc.ofBytes bs) t)
        ((feed (Hamsterdesc.ofBytes bs) t).treatsLeft.setWidth 32)
      dsimp only
      rw [he]
      exact fds_of_opened hopen (hscan.trans hv)
    · rename_i hs
      rw [hs] at hscan
      exact fds_of_opened hopen hscan

variable {w}

theorem howsdoing_fds {id : BitVec 32} {st st' : HmstrState} {ret : BitVec 32}
    (h : hmstrHowsdoing w id st = some (ret, st', w')) : w'.fds = w.fds := by
  unfold hmstrHowsdoing at h
  split at h
  · rename_i hopen
    cases h
    exact Sys.openFile_failed hopen
  · rename_i fd w₁ hopen
    have hscan := scanEntries_onlyFd (fun h => h.uid = id) w₁ fd
    split at h
    · rename_i bs w₂ hs
      rw [hs] at hscan
      dsimp only at h
      split at h
      · cases h
      · obtain ⟨v, hv, he⟩ := writeBack_closes w₂ fd (inquire (Hamsterdesc.ofBytes bs)) 0
        have hw : (writeBack w₂ fd (inquire (Hamsterdesc.ofBytes bs)) 0).2 = w' :=
          congrArg (·.2.2) (Option.some.inj h)
        rw [← hw, he]
        exact fds_of_opened hopen (hscan.trans hv)
    · rename_i hs
      rw [hs] at hscan
      cases h
      exact fds_of_opened hopen hscan

theorem readentry_fds {id : BitVec 32} {owner name owner' name' : List Byte}
    {price price' : BitVec 16} {ret : BitVec 32}
    (h : hmstrReadentry w id owner name price = some (ret, owner', name', price', w')) :
    w'.fds = w.fds := by
  unfold hmstrReadentry at h
  split at h
  · rename_i hopen
    cases h
    exact Sys.openFile_failed hopen
  · rename_i fd w₁ hopen
    have hscan := scanEntries_onlyFd (fun h => h.uid = id) w₁ fd
    split at h
    · rename_i bs w₂ hs
      rw [hs] at hscan
      dsimp only at h
      split at h
      · cases h
      · have hw : w₂.close fd = w' := congrArg (·.2.2.2.2) (Option.some.inj h)
        rw [← hw]
        exact fds_of_opened hopen hscan
    · rename_i hs
      rw [hs] at hscan
      cases h
      exact fds_of_opened hopen hscan

end Calls

section Collect
variable {o : CString} {fdi fd : Nat}

/-- What the copying loop leaves alone. -/
def OnlyTwo (fdi fd : Nat) (w w' : World) : Prop :=
  ∀ x, x ≠ fdi → x ≠ fd → w'.fds.lookup x = w.fds.lookup x

theorem OnlyTwo.trans {w w' w'' : World} (h : OnlyTwo fdi fd w w') (h' : OnlyTwo fdi fd w' w'') :
    OnlyTwo fdi fd w w'' := fun x hi hx => (h' x hi hx).trans (h x hi hx)

theorem OnlyTwo.of_left (h : Sys.OnlyFd fdi w w') : OnlyTwo fdi fd w w' := fun x hi _ => h x hi

theorem OnlyTwo.of_right (h : Sys.OnlyFd fd w w') : OnlyTwo fdi fd w w' := fun x _ hx => h x hx

theorem collectLoop_onlyTwo {e : CollectEnd} {fuel : Nat} {w w' : World} {total : BitVec 32}
    {found : Bool} (h : collectLoop o fdi fd fuel w total found = some (e, w')) :
    OnlyTwo fdi fd w w' := by
  induction fuel generalizing w total found with
  | zero =>
    cases h
    exact fun _ _ _ => rfl
  | succ fuel ih =>
    have hread : OnlyTwo fdi fd w (w.read fdi sizeofHamsterdesc).2 :=
      .of_left (w.read_onlyFd fdi sizeofHamsterdesc)
    rw [collectLoop] at h
    cases hr : w.read fdi sizeofHamsterdesc with
    | mk last w₁ =>
      rw [hr] at h hread
      cases last with
      | none =>
        cases h
        exact hread
      | some bs =>
        dsimp only at h
        split at h
        · split at h
          · split at h
            · cases h
            · exact hread.trans (ih h)
          · have hwrite : OnlyTwo fdi fd w₁ (w₁.write fd (Hamsterdesc.ofBytes bs).toBytes).2 :=
              .of_right (w₁.write_onlyFd fd _)
            split at h
            · exact (hread.trans hwrite).trans (ih h)
            · cases h
              exact hread.trans hwrite
        · cases h
          exact hread

/-- Two descriptors opened one after the other, worked on and closed. -/
theorem fds_of_two {w₁ w₂ w₃ v : World} {old new : StoreFile} {mode mode' : OpenMode}
    (hold : w₁.openFile old mode = (some fdi, w₂)) (hnew : w₂.openFile new mode' = (some fd, w₃))
    (h : OnlyTwo fdi fd w₃ v) : ((v.close fd).close fdi).fds = w₁.fds := by
  obtain ⟨hfd, hopen⟩ := Sys.openFile_fds hnew
  have hclosed : Sys.OnlyFd fdi w₂ (v.close fd) := by
    intro x hx
    by_cases hxf : x = fd
    · rw [hxf, Finmap.lookup_eq_none.mpr hfd]
      exact Finmap.lookup_erase _ _
    · exact (Finmap.lookup_erase_ne hxf).trans ((h x hx hxf).trans (hopen x hxf))
  exact fds_of_opened hold hclosed

/-- The three calls that begin a collection, where they lead to the copying loop or
to the one return that leaves a descriptor open. -/
theorem collect_fds {ret : BitVec 32} {o : CString} (hl : tooLong o = false)
    (h : hmstrCollect w (some o) = some (ret, w')) :
    w'.fds = w.fds ∨ ∃ w₁ w₂ fdi, w.rename .datafile .intermediateFile = (true, w₁) ∧
      w₁.openFile .intermediateFile .rdonly = (some fdi, w₂) ∧
      w₂.openFile .datafile .rdwrCreat = (none, w') := by
  simp only [hmstrCollect, hl, Bool.false_eq_true, ↓reduceIte] at h
  have hname := Sys.rename_fds (s := w) StoreFile.datafile .intermediateFile
  split at h
  · rename_i hren
    rw [hren] at hname
    cases h
    exact .inl hname
  · rename_i w₁ hren
    rw [hren] at hname
    split at h
    · rename_i hold
      cases h
      exact .inl ((Sys.openFile_failed hold).trans hname)
    · rename_i fdi w₂ hold
      split at h
      · rename_i hnew
        cases h
        exact .inr ⟨w₁, w₂, fdi, hren, hold, hnew⟩
      · rename_i fd w₃ hnew
        have hclosed {v : World} (hv : OnlyTwo fdi fd w₃ v) :
            ((v.close fd).close fdi).fds = w.fds := (fds_of_two hold hnew hv).trans hname
        left
        split at h
        · cases h
        · rename_i hloop
          cases h
          exact hclosed (collectLoop_onlyTwo hloop)
        · rename_i v hloop
          have htable := hclosed (collectLoop_onlyTwo hloop)
          split at h
          · cases h
            exact htable
          · cases h
            exact htable
          · have hgone := Sys.unlink_fds (s := (v.close fd).close fdi) .intermediateFile
            split at h
            all_goals
              rename_i hun
              rw [hun] at hgone
              cases h
              exact hgone.trans htable

theorem collect_spares {ret : BitVec 32} {o : Option CString}
    (h : hmstrCollect w o = some (ret, w')) : Sys.Spares w w' := by
  cases o with
  | none =>
    cases h
    exact .of_fds rfl
  | some o =>
    cases hl : tooLong o with
    | true =>
      rw [hmstrCollect, if_pos hl] at h
      cases h
      exact .of_fds rfl
    | false =>
      rcases collect_fds hl h with hsame | ⟨w₁, w₂, fdi, hren, hold, hnew⟩
      · exact .of_fds hsame
      · have hname := Sys.rename_fds (s := w) StoreFile.datafile .intermediateFile
        rw [hren] at hname
        obtain ⟨hfree, honly⟩ := Sys.openFile_fds hold
        intro x hx
        rw [← hname] at hx
        rw [Sys.openFile_failed hnew, honly.spares hfree x hx, hname]

end Collect

section Directory
variable {p : Int} {o n : Option CString} {fd : Nat}

theorem directoryFd_of_nonneg (hp : 0 ≤ p) : directoryFd w p = (some p.toNat, w) := by
  rw [directoryFd, if_neg (Int.not_lt.mpr hp)]

/-- Once it has its descriptor, a directory call scans it and keeps it open at a
hit, closes it otherwise. -/
theorem directory_of_fd (hl : (tooLongOpt o || tooLongOpt n) = false)
    (h : directoryFd w p = (some fd, w')) :
    (∃ bs v, scanEntries (passesFilter o n) w' fd = (.hit bs, v) ∧
        hmstrDirectory w p o n = ((Hamsterdesc.ofBytes bs).uid, (fd : Int), v)) ∨
      ∃ last v, scanEntries (passesFilter o n) w' fd = (.stop last, v) ∧
        hmstrDirectory w p o n =
          (if last = some [] then hmstrErrNotFound else hmstrErrCorrupt, -1, v.close fd) := by
  simp only [hmstrDirectory, hl, Bool.false_eq_true, ↓reduceIte, h]
  cases scanEntries (passesFilter o n) w' fd with
  | mk e v =>
    cases e with
    | hit bs => exact .inl ⟨bs, v, rfl, rfl⟩
    | stop last => exact .inr ⟨last, v, rfl, rfl⟩

theorem directory_of_tooLong (hl : (tooLongOpt o || tooLongOpt n) = true) :
    hmstrDirectory w p o n = (hmstrErrNameTooLong, p, w) := by
  simp only [hmstrDirectory, hl, ↓reduceIte]

theorem directory_onlyFd_of_fd (hl : (tooLongOpt o || tooLongOpt n) = false)
    (h : directoryFd w p = (some fd, w')) : Sys.OnlyFd fd w' (hmstrDirectory w p o n).2.2 := by
  have hscan := scanEntries_onlyFd (passesFilter o n) w' fd
  rcases directory_of_fd hl h with ⟨bs, v, hs, he⟩ | ⟨last, v, hs, he⟩
  · rw [hs] at hscan
    rw [he]
    exact hscan
  · rw [hs] at hscan
    rw [he]
    exact hscan.trans (Sys.close_onlyFd v fd)

/-- The descriptor a directory call works on is the one it is given or, for a
negative handle, one it opens. -/
theorem directory_onlyFd (w : World) (p : Int) (o n : Option CString) :
    (0 ≤ p ∧ Sys.OnlyFd p.toNat w (hmstrDirectory w p o n).2.2) ∨
      (p < 0 ∧ Sys.Spares w (hmstrDirectory w p o n).2.2) := by
  cases hl : tooLongOpt o || tooLongOpt n with
  | true =>
    rw [directory_of_tooLong hl]
    rcases Int.lt_or_le p 0 with hp | hp
    · exact .inr ⟨hp, .of_fds rfl⟩
    · exact .inl ⟨hp, .refl _ w⟩
  | false =>
    rcases Int.lt_or_le p 0 with hp | hp
    · refine .inr ⟨hp, ?_⟩
      have hfd : directoryFd w p = w.openFile .datafile .rdonly := by rw [directoryFd, if_pos hp]
      cases hopen : w.openFile .datafile .rdonly with
      | mk fd w₁ =>
        cases fd with
        | none =>
          have he : hmstrDirectory w p o n = (hmstrErrNotFound, -1, w₁) := by
            simp only [hmstrDirectory, hl, hfd, hopen, Bool.false_eq_true, ↓reduceIte]
          rw [he]
          exact .of_fds (Sys.openFile_failed hopen)
        | some fd =>
          obtain ⟨hfree, honly⟩ := Sys.openFile_fds hopen
          exact (honly.trans (directory_onlyFd_of_fd hl (hfd.trans hopen))).spares hfree
    · exact .inl ⟨hp, directory_onlyFd_of_fd hl (directoryFd_of_nonneg hp)⟩

/-- A number that names no descriptor is read from in vain, and nothing is closed. -/
theorem directory_of_notMem (hp : 0 ≤ p) (hfd : p.toNat ∉ w.fds) :
    (hmstrDirectory w p o n).1.toInt < 0 ∧ (hmstrDirectory w p o n).2.2.fds = w.fds := by
  cases hl : tooLongOpt o || tooLongOpt n with
  | true =>
    rw [directory_of_tooLong hl]
    exact ⟨show hmstrErrNameTooLong.toInt < 0 by decide, rfl⟩
  | false =>
    have hnone : w.fds.lookup p.toNat = none := Finmap.lookup_eq_none.mpr hfd
    have hscan := scanEntries_onlyFd (passesFilter o n) w p.toNat
    rcases directory_of_fd hl (directoryFd_of_nonneg hp) with ⟨bs, v, hs, -⟩ | ⟨last, v, hs, he⟩
    · have hmoved : unread v p.toNat + 96 ≤ unread w p.toNat := scanLoop_hit_unread hs
      have hempty : unread w p.toNat = 0 := by rw [unread, hnone]
      omega
    · rw [hs] at hscan
      rw [he]
      refine ⟨by dsimp only; split <;> decide, Finmap.ext_lookup fun x => ?_⟩
      by_cases hx : x = p.toNat
      · rw [hx, hnone]
        exact Finmap.lookup_erase _ _
      · exact (Finmap.lookup_erase_ne hx).trans (hscan x hx)

/-- An open descriptor does not stay as it is: a hit has moved it, and otherwise it
is closed. -/
theorem directory_of_mem (hl : (tooLongOpt o || tooLongOpt n) = false) (hp : 0 ≤ p)
    (hfd : p.toNat ∈ w.fds) :
    (hmstrDirectory w p o n).2.2.fds.lookup p.toNat ≠ w.fds.lookup p.toNat := by
  intro hsame
  rcases directory_of_fd hl (directoryFd_of_nonneg hp) with ⟨bs, v, hs, he⟩ | ⟨last, v, -, he⟩
  · have hmoved : unread v p.toNat + 96 ≤ unread w p.toNat := scanLoop_hit_unread hs
    have hfiles : Sys.OnlyReads w (scanEntries (passesFilter o n) w p.toNat).2 :=
      scanLoop_onlyReads ..
    rw [hs] at hfiles
    rw [he] at hsame
    have hstill : unread v p.toNat = unread w p.toNat := by
      rw [unread, unread, hsame, hfiles.inodes]
    omega
  · rw [he] at hsame
    have hclosed : (v.close p.toNat).fds.lookup p.toNat = none := Finmap.lookup_erase _ _
    exact Finmap.lookup_eq_none.mp (hsame.symm.trans hclosed) hfd

/-- The handle a call leaves is that of an open file, the one it was given if that
was a file's. -/
theorem directory_handle (hq : 0 ≤ (hmstrDirectory w p o n).2.1)
    (hfile : 0 ≤ p → Sys.IsFile w p.toNat) :
    Sys.IsFile (hmstrDirectory w p o n).2.2 (hmstrDirectory w p o n).2.1.toNat ∧
      (0 ≤ p → (hmstrDirectory w p o n).2.1 = p) := by
  cases hl : tooLongOpt o || tooLongOpt n with
  | true =>
    rw [directory_of_tooLong hl] at hq ⊢
    exact ⟨hfile hq, fun _ => rfl⟩
  | false =>
    cases hfd : directoryFd w p with
    | mk fd v =>
      cases fd with
      | none =>
        have he : (hmstrDirectory w p o n).2.1 = -1 := by
          simp only [hmstrDirectory, hl, hfd, Bool.false_eq_true, ↓reduceIte]
        omega
      | some fd =>
        have hopen : Sys.IsFile v fd ∧ (0 ≤ p → (fd : Int) = p) := by
          rcases Int.lt_or_le p 0 with hp | hp
          · rw [directoryFd, if_pos hp] at hfd
            exact ⟨Sys.openFile_isFile hfd, fun h => absurd h (Int.not_le.mpr hp)⟩
          · rw [directoryFd_of_nonneg hp] at hfd
            obtain ⟨h, rfl⟩ := Prod.mk.inj hfd
            obtain rfl := Option.some.inj h
            exact ⟨hfile hp, fun _ => Int.toNat_of_nonneg hp⟩
        have hscan : Sys.IsFile (scanEntries (passesFilter o n) v fd).2 fd :=
          scanLoop_isFile hopen.1 ..
        rcases directory_of_fd hl hfd with ⟨bs, v', hs, he⟩ | ⟨last, v', -, he⟩
        · rw [hs] at hscan
          rw [he]
          exact ⟨hscan, hopen.2⟩
        · rw [he] at hq
          exact absurd (show (0 : Int) ≤ -1 from hq) (by decide)

end Directory

/-- Whatever else was open when a call began is as it was when it returns. -/
theorem exec_spares {c : Call Int} {r : Reply} (h : c.exec w = some (r, w')) {fd : Nat}
    (hfd : fd ∈ w.fds) (hc : ∀ o n, c ≠ .directory fd o n) :
    w'.fds.lookup fd = w.fds.lookup fd := by
  have hsnd {x : Reply × World} (hx : some x = some (r, w')) : x.2 = w' :=
    congrArg Prod.snd (Option.some.inj hx)
  cases c with
  | new o n t =>
    have hw : (hmstrNew w o n t).2 = w' := hsnd h
    rw [← hw, new_fds]
  | lookup o n =>
    have hw : (hmstrLookup w o n).2 = w' := hsnd h
    rw [← hw, lookup_fds]
  | givetreats id t =>
    have hw : (hmstrGivetreats w id t).2 = w' := hsnd h
    rw [← hw, givetreats_fds]
  | howsdoing id =>
    obtain ⟨⟨ret, st, v⟩, he, h⟩ := Option.map_eq_some_iff.mp h
    obtain ⟨-, rfl⟩ := Prod.mk.inj h
    rw [howsdoing_fds he]
  | readentry id =>
    obtain ⟨⟨ret, o, n, p, v⟩, he, h⟩ := Option.map_eq_some_iff.mp h
    obtain ⟨-, rfl⟩ := Prod.mk.inj h
    rw [readentry_fds he]
  | collect o =>
    obtain ⟨⟨ret, v⟩, he, h⟩ := Option.map_eq_some_iff.mp h
    obtain ⟨-, rfl⟩ := Prod.mk.inj h
    exact collect_spares he fd hfd
  | directory p o n =>
    have hw : (hmstrDirectory w p o n).2.2 = w' := hsnd h
    rw [← hw]
    rcases directory_onlyFd w p o n with ⟨hp, honly⟩ | ⟨-, hspares⟩
    · refine honly fd fun he => hc o n ?_
      rw [he, Int.toNat_of_nonneg hp]
    · exact hspares fd hfd

end Hamster.Store.Frame
