import Hamster.Store.Frame
import Hamster.Store.Outcomes

/-!
# What a reply depends on

Two worlds with the same database at the same time. A call returns the same in both, and
gives the same out values, whatever else they hold; only a directory call asks for more,
that its descriptor delivers the same or, if it opens one, that the next number is free
in both.
-/
namespace Hamster.Store.Alike

open Lib.Bytes Lib.Clock Lib.Posix Lib.RecordFile Entry Library Scans CollectScan Amounts Outcomes
  Store.Frame

/-- Two worlds in which no file system call fails, with the same database, if any. -/
structure SameStore (w w' : World) : Prop where
  reliable : w.Reliable ∧ w'.Reliable
  apart : FilesApart w ∧ FilesApart w'
  content : w.content .datafile = w'.content .datafile

/-- What a directory call depends on besides. -/
def SameHandle (w w' : World) : Call Int → Prop
  | .directory p _ _ =>
    if p < 0 then w.lowestFree = w'.lowestFree else w.ahead p.toNat = w'.ahead p.toNat
  | _ => True

section Calls
variable {w w' : World} {o n : CString} {id : BitVec 32}

theorem SameStore.cases (h : SameStore w w') :
    (w.names .datafile = none ∧ w'.names .datafile = none) ∨
      ∃ i i', w.names .datafile = some i ∧ w'.names .datafile = some i' ∧
        w.inodes i = w'.inodes i' := by
  have hc := h.content
  unfold Sys.content at hc
  cases hi : w.names .datafile with
  | none =>
    cases hi' : w'.names .datafile with
    | none => exact .inl ⟨rfl, rfl⟩
    | some i' =>
      rw [hi, hi'] at hc
      cases hc
  | some i =>
    cases hi' : w'.names .datafile with
    | none =>
      rw [hi, hi'] at hc
      cases hc
    | some i' =>
      rw [hi, hi'] at hc
      exact .inr ⟨i, i', rfl, rfl, Option.some.inj hc⟩

theorem new_alike (h : SameStore w w') (o n : CString) (t : BitVec 16) :
    (hmstrNew w o n t).1 = (hmstrNew w' o n t).1 := by
  cases hl : tooLong o || tooLong n with
  | true => simp only [hmstrNew, hl, ↓reduceIte]
  | false =>
    rcases h.cases with ⟨hn, hn'⟩ | ⟨i, i', hn, hn', hi⟩
    · rw [new_absent h.reliable.1 hn hl, new_absent h.reliable.2 hn' hl]
    · rw [new_present h.reliable.1 hn hl, new_present h.reliable.2 hn' hl, hi]
      split
      · rfl
      · split <;> rfl

theorem lookup_alike (h : SameStore w w') (o n : Option CString) :
    (hmstrLookup w o n).1 = (hmstrLookup w' o n).1 := by
  match o, n with
  | none, _ => rfl
  | some _, none => rfl
  | some o, some n =>
    cases hl : tooLong o || tooLong n with
    | true => simp only [hmstrLookup, hl, ↓reduceIte]
    | false =>
      rcases h.cases with ⟨hn, hn'⟩ | ⟨i, i', hn, hn', hi⟩
      · rw [lookup_absent h.reliable.1 hn hl, lookup_absent h.reliable.2 hn' hl]
      · rw [lookup_present h.reliable.1 hn hl, lookup_present h.reliable.2 hn' hl, hi]

theorem givetreats_alike (h : SameStore w w') (id : BitVec 32) (t : BitVec 16) :
    (hmstrGivetreats w id t).1 = (hmstrGivetreats w' id t).1 := by
  rcases h.cases with ⟨hn, hn'⟩ | ⟨i, i', hn, hn', hi⟩
  · rw [givetreats_absent h.reliable.1 hn, givetreats_absent h.reliable.2 hn']
  · rw [givetreats_present h.reliable.1 hn, givetreats_present h.reliable.2 hn', hi]

theorem howsdoing_alike (h : SameStore w w') (hnow : w.now = w'.now) (id : BitVec 32)
    (st : HmstrState) :
    (hmstrHowsdoing w id st).map (fun x => (x.1, x.2.1)) =
      (hmstrHowsdoing w' id st).map fun x => (x.1, x.2.1) := by
  rcases h.cases with ⟨hn, hn'⟩ | ⟨i, i', hn, hn', hi⟩
  · rw [howsdoing_absent h.reliable.1 hn, howsdoing_absent h.reliable.2 hn']
    rfl
  · rw [howsdoing_present h.reliable.1 hn, howsdoing_present h.reliable.2 hn', hi, hnow]
    cases (entries (w'.inodes i')).find? (byId id) with
    | none => rfl
    | some x => simp only [Option.map_map, Function.comp_def]

theorem readentry_alike (h : SameStore w w') (hnow : w.now = w'.now) (id : BitVec 32)
    (owner name : List Byte) (price : BitVec 16) :
    (hmstrReadentry w id owner name price).map (fun x => (x.1, x.2.1, x.2.2.1, x.2.2.2.1)) =
      (hmstrReadentry w' id owner name price).map fun x => (x.1, x.2.1, x.2.2.1, x.2.2.2.1) := by
  rcases h.cases with ⟨hn, hn'⟩ | ⟨i, i', hn, hn', hi⟩
  · rw [readentry_absent h.reliable.1 hn, readentry_absent h.reliable.2 hn']
    rfl
  · rw [readentry_present h.reliable.1 hn, readentry_present h.reliable.2 hn', hi, hnow]
    cases (entries (w'.inodes i')).find? (byId id) with
    | none => rfl
    | some x => simp only [Option.map_map, Function.comp_def]

theorem collect_alike (h : SameStore w w') (hnow : w.now = w'.now) (o : Option CString) :
    (hmstrCollect w o).map Prod.fst = (hmstrCollect w' o).map Prod.fst := by
  cases o with
  | none => rfl
  | some o =>
    cases hl : tooLong o with
    | true => simp only [hmstrCollect, hl, ↓reduceIte, Option.map_some]
    | false =>
      rcases h.cases with ⟨hn, hn'⟩ | ⟨i, i', hn, hn', hi⟩
      · rw [collect_absent h.reliable.1 hn hl, collect_absent h.reliable.2 hn' hl]
        rfl
      · rw [collect_present h.reliable.1 hn (h.apart.1.apart i hn) (h.apart.1.old i hn) hl,
          collect_present h.reliable.2 hn' (h.apart.2.apart i' hn') (h.apart.2.old i' hn') hl, hi,
          hnow, Option.map_map, Option.map_map]
        refine congrArg (Option.map · _) (funext fun cs => ?_)
        dsimp only [Function.comp_apply]
        split
        · rfl
        · rfl

/-- A scan of a descriptor ends as what is ahead of it says. -/
theorem directory_fd_alike (hr : w.Reliable) (hr' : w'.Reliable) {o n : Option CString} {fd : Nat}
    (hl : (tooLongOpt o || tooLongOpt n) = false) (ha : w.ahead fd = w'.ahead fd) :
    (hmstrDirectory w fd o n).1 = (hmstrDirectory w' fd o n).1 ∧
      (hmstrDirectory w fd o n).2.1 = (hmstrDirectory w' fd o n).2.1 := by
  have hfd (v : World) : directoryFd v fd = (some fd, v) :=
    directoryFd_of_nonneg (Int.natCast_nonneg fd)
  have hscan : (scanEntries (passesFilter o n) w fd).1 = (scanEntries (passesFilter o n) w' fd).1 :=
    scan_congr _ _ hr hr' ha
  rcases directory_of_fd hl (hfd w) with ⟨bs, v, hs, he⟩ | ⟨last, v, hs, he⟩
  · rcases directory_of_fd hl (hfd w') with ⟨bs', v', hs', he'⟩ | ⟨last', v', hs', he'⟩
    · rw [hs, hs'] at hscan
      cases hscan
      rw [he, he']
      exact ⟨rfl, rfl⟩
    · rw [hs, hs'] at hscan
      cases hscan
  · rcases directory_of_fd hl (hfd w') with ⟨bs', v', hs', he'⟩ | ⟨last', v', hs', he'⟩
    · rw [hs, hs'] at hscan
      cases hscan
    · rw [hs, hs'] at hscan
      cases hscan
      rw [he, he']
      exact ⟨rfl, rfl⟩

theorem ahead_opened (v : World) (ino : Nat) :
    (v.setDesc v.lowestFree (.file ino 0 false)).ahead v.lowestFree = some (.inl (v.inodes ino)) := by
  unfold Sys.ahead
  rw [lookup_setDesc]
  rfl

theorem directory_alike (h : SameStore w w') {p : Int} {o n : Option CString}
    (hh : SameHandle w w' (.directory p o n)) :
    (hmstrDirectory w p o n).1 = (hmstrDirectory w' p o n).1 ∧
      (hmstrDirectory w p o n).2.1 = (hmstrDirectory w' p o n).2.1 := by
  cases hl : tooLongOpt o || tooLongOpt n with
  | true =>
    rw [directory_of_tooLong hl, directory_of_tooLong hl]
    exact ⟨rfl, rfl⟩
  | false =>
    rw [SameHandle] at hh
    rcases Int.lt_or_le p 0 with hp | hp
    · rw [if_pos hp] at hh
      rcases h.cases with ⟨hn, hn'⟩ | ⟨i, i', hn, hn', hi⟩
      · rw [directory_absent h.reliable.1 hn hp hl, directory_absent h.reliable.2 hn' hp hl]
        exact ⟨rfl, rfl⟩
      · rw [directory_opens h.reliable.1 hn hp hl, directory_opens h.reliable.2 hn' hp hl]
        have ha := (ahead_opened w i).trans
          ((congrArg (fun c => some (Sum.inl c)) hi).trans (ahead_opened w' i').symm)
        rw [hh] at ha ⊢
        have hr : (w.setDesc w'.lowestFree (.file i 0 false)).Reliable := h.reliable.1
        have hr' : (w'.setDesc w'.lowestFree (.file i' 0 false)).Reliable := h.reliable.2
        exact directory_fd_alike hr hr' hl ha
    · rw [if_neg (Int.not_lt.mpr hp)] at hh
      obtain ⟨fd, rfl⟩ := Int.eq_ofNat_of_zero_le hp
      exact directory_fd_alike h.reliable.1 h.reliable.2 hl hh

end Calls

end Hamster.Store.Alike
