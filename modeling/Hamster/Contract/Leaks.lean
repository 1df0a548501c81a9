import Hamster.Contract.Integrity
import Hamster.Store.Frame

/-!
# Descriptors after a call

Whichever calls to the file system fail, every function of the library returns
with the descriptors it was entered with, `hmstr_directory` up to the one in its
handle. The exception is one return of `hmstr_collect`: it gives up when the new
database cannot be opened, and leaves the old one open.
-/
namespace Hamster.Contract.Leaks

open Lib.Bytes Lib.Clock Lib.Posix Store Store.Entry Store.Library Store.Frame

/-- The open descriptors are those from before, for `hmstr_directory` apart from the
one its handle names before or after the call. -/
def KeepsDescriptors (w w' : World) : Call Int → Reply → Prop
  | .directory p _ _, ⟨_, .handle q⟩ =>
      ∀ fd : Nat, (fd : Int) ≠ p → (fd : Int) ≠ q → (fd ∈ w'.fds ↔ fd ∈ w.fds)
  | _, _ => ∀ fd, fd ∈ w'.fds ↔ fd ∈ w.fds

/-- A collection whose `rename` and first `open` succeed and whose second `open`
fails. -/
def LosesDescriptor (w : World) : Call Int → Prop
  | .collect (some o) => tooLong o = false ∧ w.names .datafile ≠ none ∧
      w.faults.take 3 = [false, false, true]
  | _ => False

section Collect
variable {w w₁ w₂ w' : World} {fdi : Nat}

theorem take_three {faults : List Bool} (h₀ : faults.headD false = false)
    (h₁ : faults.tail.headD false = false) (h₂ : faults.tail.tail.headD false = true) :
    faults.take 3 = [false, false, true] := by
  match faults, h₀, h₁, h₂ with
  | a :: b :: c :: _, h₀, h₁, h₂ =>
    simp only [List.headD_cons, List.tail_cons] at h₀ h₁ h₂
    rw [h₀, h₁, h₂]
    rfl

/-- The three calls succeed, succeed and fail just when they are scheduled so. -/
theorem takes_iff : (∃ w₁ w₂ fdi w', w.rename .datafile .intermediateFile = (true, w₁) ∧
      w₁.openFile .intermediateFile .rdonly = (some fdi, w₂) ∧
      w₂.openFile .datafile .rdwrCreat = (none, w')) ↔
    w.names .datafile ≠ none ∧ w.faults.take 3 = [false, false, true] := by
  have hren := w.rename_fst .datafile .intermediateFile
  have hleft := w.rename_faults .datafile .intermediateFile
  constructor
  · rintro ⟨w₁, w₂, fdi, w', hr, hold, hnew⟩
    have hfirst := (w₁.openFile_eq_none_iff .intermediateFile .rdonly).not.mp (by simp [hold])
    have hleft' := w₁.openFile_faults .intermediateFile .rdonly
    have hlast := (w₂.openFile_eq_none_iff .datafile .rdwrCreat).mp (by rw [hnew])
    rw [hr] at hren hleft
    rw [hold] at hleft'
    have hok : w.failing = false ∧ (w.names .datafile).isSome = true := by simpa using hren.symm
    have hone : w₁.failing = false := by simpa using fun h => hfirst (.inl h)
    have htwo : w₂.failing = true := hlast.resolve_right fun h => h.2 rfl
    rw [Sys.failing, hleft] at hone
    rw [Sys.failing, hleft', hleft] at htwo
    exact ⟨Option.isSome_iff_ne_none.mp hok.2, take_three hok.1 hone htwo⟩
  · rintro ⟨hn, htake⟩
    obtain ⟨rest, hf⟩ : ∃ rest, w.faults = false :: false :: true :: rest :=
      ⟨w.faults.drop 3, by rw [← List.take_append_drop 3 w.faults, htake]; simp⟩
    cases hr : w.rename .datafile .intermediateFile with
    | mk ok w₁ =>
      have hok : ok = true := by
        rw [hr] at hren
        simpa [Sys.failing, hf, Option.isSome_iff_ne_none.mpr hn] using hren
      subst hok
      rw [hr, hf] at hleft
      replace hleft : w₁.faults = false :: true :: rest := hleft
      have hname := w.rename_names hr
      cases hold : w₁.openFile .intermediateFile .rdonly with
      | mk fdi w₂ =>
        have hleft' := w₁.openFile_faults .intermediateFile .rdonly
        have hfirst := w₁.openFile_eq_none_iff .intermediateFile .rdonly
        rw [hold, hleft] at hleft'
        replace hleft' : w₂.faults = true :: rest := hleft'
        rw [hold] at hfirst
        cases fdi with
        | none => simp [Sys.failing, hleft, hname] at hfirst
        | some fdi =>
          cases hnew : w₂.openFile .datafile .rdwrCreat with
          | mk fd w' =>
            have hlast := w₂.openFile_eq_none_iff .datafile .rdwrCreat
            rw [hnew] at hlast
            obtain rfl : fd = none := hlast.mpr (.inl (by simp [Sys.failing, hleft']))
            exact ⟨w₁, w₂, fdi, w', rfl, hold, hnew⟩

end Collect

section Calls
variable {w w' : World} {r : Reply}

/-- A collection keeps the table unless it gives up at the second `open`. -/
theorem collect_keeps {ret : BitVec 32} {o : CString}
    (h : hmstrCollect w (some o) = some (ret, w')) :
    (∀ fd, fd ∈ w'.fds ↔ fd ∈ w.fds) ↔ ¬ LosesDescriptor w (.collect (some o)) := by
  cases hl : tooLong o with
  | true =>
    rw [hmstrCollect, if_pos hl] at h
    cases h
    exact iff_of_true (fun _ => Iff.rfl) fun hlost => absurd (hl.symm.trans hlost.1) (by decide)
  | false =>
    by_cases hlost : LosesDescriptor w (.collect (some o))
    · obtain ⟨w₁, w₂, fdi, v, hren, hold, hnew⟩ := takes_iff.mpr hlost.2
      have hstop : hmstrCollect w (some o) = some (hmstrErrStore, v) := by
        simp only [hmstrCollect, hl, hren, hold, hnew, Bool.false_eq_true, ↓reduceIte]
      obtain rfl : v = w' := congrArg Prod.snd (Option.some.inj (hstop.symm.trans h))
      have hname := Sys.rename_fds (s := w) StoreFile.datafile .intermediateFile
      rw [hren] at hname
      refine iff_of_false (fun hsame => ?_) (not_not.mpr hlost)
      have hopen : fdi ∈ v.fds := by
        rw [Sys.openFile_failed hnew]
        exact (Sys.openFile_isFile hold).mem
      have hfree := (Sys.openFile_fds hold).1
      rw [hname] at hfree
      exact hfree ((hsame fdi).mp hopen)
    · refine iff_of_true ?_ hlost
      rcases collect_fds hl h with hsame | ⟨w₁, w₂, fdi, hren, hold, hnew⟩
      · exact fun fd => by rw [hsame]
      · exact absurd ⟨hl, takes_iff.mp ⟨w₁, w₂, fdi, w', hren, hold, hnew⟩⟩ hlost

/-- A directory call leaves every descriptor alone but those its handle names. -/
theorem directory_keeps {p : Int} {o n : Option CString} {fd : Nat} (hp : (fd : Int) ≠ p)
    (hq : (fd : Int) ≠ (hmstrDirectory w p o n).2.1) :
    (hmstrDirectory w p o n).2.2.fds.lookup fd = w.fds.lookup fd := by
  rcases directory_onlyFd w p o n with ⟨hpos, honly⟩ | ⟨hneg, -⟩
  · apply honly
    rintro rfl
    exact hp (Int.toNat_of_nonneg hpos)
  · cases hl : tooLongOpt o || tooLongOpt n with
    | true => rw [directory_of_tooLong hl]
    | false =>
      have hfd : directoryFd w p = w.openFile .datafile .rdonly := by rw [directoryFd, if_pos hneg]
      cases hopen : w.openFile .datafile .rdonly with
      | mk x w₁ =>
        cases x with
        | none =>
          have he : (hmstrDirectory w p o n).2.2 = w₁ := by
            simp only [hmstrDirectory, hl, hfd, hopen, Bool.false_eq_true, ↓reduceIte]
          rw [he, Sys.openFile_failed hopen]
        | some x =>
          have hscan := scanEntries_onlyFd (passesFilter o n) w₁ x
          rcases directory_of_fd hl (hfd.trans hopen) with ⟨bs, v, hs, he⟩ | ⟨last, v, hs, he⟩
          · rw [hs] at hscan
            rw [he] at hq ⊢
            have hx : fd ≠ x := fun h => hq (congrArg Int.ofNat h)
            exact (hscan fd hx).trans ((Sys.openFile_fds hopen).2 fd hx)
          · rw [hs] at hscan
            rw [he, fds_of_opened hopen hscan]

/-- In every state of the file system and under every schedule of failures, a call
that returns keeps the descriptors unless it is that collection. -/
theorem keepsDescriptors_iff {c : Call Int} (h : c.exec w = some (r, w')) :
    KeepsDescriptors w w' c r ↔ ¬ LosesDescriptor w c := by
  have hsnd {x : Reply × World} (hx : some x = some (r, w')) : x.2 = w' :=
    congrArg Prod.snd (Option.some.inj hx)
  have hsame (hfds : w'.fds = w.fds) : ∀ fd, fd ∈ w'.fds ↔ fd ∈ w.fds := fun fd => by rw [hfds]
  cases c with
  | new o n t =>
    have hw : (hmstrNew w o n t).2 = w' := hsnd h
    exact iff_of_true (hsame (hw ▸ new_fds w o n t)) not_false
  | lookup o n =>
    have hw : (hmstrLookup w o n).2 = w' := hsnd h
    exact iff_of_true (hsame (hw ▸ lookup_fds w o n)) not_false
  | givetreats id t =>
    have hw : (hmstrGivetreats w id t).2 = w' := hsnd h
    exact iff_of_true (hsame (hw ▸ givetreats_fds w id t)) not_false
  | howsdoing id =>
    obtain ⟨⟨ret, st, v⟩, he, h⟩ := Option.map_eq_some_iff.mp h
    obtain ⟨-, rfl⟩ := Prod.mk.inj h
    exact iff_of_true (hsame (howsdoing_fds he)) not_false
  | readentry id =>
    obtain ⟨⟨ret, o, n, p, v⟩, he, h⟩ := Option.map_eq_some_iff.mp h
    obtain ⟨-, rfl⟩ := Prod.mk.inj h
    exact iff_of_true (hsame (readentry_fds he)) not_false
  | collect o =>
    obtain ⟨⟨ret, v⟩, he, h⟩ := Option.map_eq_some_iff.mp h
    obtain ⟨-, rfl⟩ := Prod.mk.inj h
    cases o with
    | none =>
      cases he
      exact iff_of_true (fun _ => Iff.rfl) not_false
    | some o => exact collect_keeps he
  | directory p o n =>
    have hw : (hmstrDirectory w p o n).2.2 = w' := hsnd h
    have hr : (⟨(hmstrDirectory w p o n).1, .handle (hmstrDirectory w p o n).2.1⟩ : Reply) = r :=
      congrArg Prod.fst (Option.some.inj h)
    rw [← hw, ← hr]
    refine iff_of_true (fun fd hp hq => ?_) not_false
    have hkept := directory_keeps (w := w) (o := o) (n := n) hp hq
    rw [← Finmap.lookup_isSome, ← Finmap.lookup_isSome, hkept]

end Calls

open Integrity (alice bert twoGuests)

theorem keepsDescriptors_collect : ∃ r w',
    (Call.collect (some alice)).exec twoGuests.world = some (r, w') ∧
      KeepsDescriptors twoGuests.world w' (.collect (some alice)) r := by
  obtain ⟨⟨r, w'⟩, hcol⟩ := Option.isSome_iff_exists.mp
    (show ((Call.collect (some alice)).exec twoGuests.world).isSome = true by decide +kernel)
  refine ⟨r, w', hcol, (keepsDescriptors_iff hcol).mpr fun hlost => ?_⟩
  exact absurd hlost.2.2 (by decide +kernel)

/-- The second `open` of a collection is going to fail. -/
def crowded : World :=
  { (Session.ofOne .epoch alice bert 3).world with faults := [false, false, true] }

/-- It leaves a descriptor open. -/
theorem collect_leaks : ∃ r w', (Call.collect (some alice)).exec crowded = some (r, w') ∧
    ¬ KeepsDescriptors crowded w' (.collect (some alice)) r := by
  obtain ⟨⟨ret, w'⟩, hcol⟩ := Option.isSome_iff_exists.mp
    (show (hmstrCollect crowded (some alice)).isSome = true by decide +kernel)
  have hlost : LosesDescriptor crowded (.collect (some alice)) :=
    ⟨by decide, by decide +kernel, rfl⟩
  refine ⟨⟨ret, .none⟩, w', by rw [exec_collect, hcol]; rfl, fun hkept => ?_⟩
  exact (collect_keeps hcol).mp hkept hlost

end Hamster.Contract.Leaks
