import Hamster.Store.Outcomes

/-!
# What a failed call leaves behind

Six of the seven functions return a negative value only with the database as it
was, whatever it contains. `hmstr_collect` rewrites it before it knows the
outcome: it keeps to this exactly when the file has no damaged tail and the bill
is not negative.
-/
namespace Hamster.Contract.Failure

open Lib.Bytes Lib.Clock Lib.Posix Lib.RecordFile Store Store.Entry Store.Library Store.Scans
  Store.CollectScan Store.Amounts Store.Outcomes

/-- If the call returns a negative value, the database has the bytes it had. -/
def Harmless (w : World) (c : Call Int) : Prop :=
  ∀ r w', c.exec w = some (r, w') → r.ret.toInt < 0 →
    w'.content .datafile = w.content .datafile

/-- A collection that does not lose anything when it fails: it aborts at an entry
admitted after `now`, or the file is whole and the owner has nothing in it or
owes an amount that is not negative in 32 bits. -/
def CollectsCleanly (now : Timestamp) (o : CString) (bytes : List Byte) : Prop :=
  (∃ h ∈ owned o (entries bytes), Premature now h) ∨
    (sizeofHamsterdesc ∣ bytes.length ∧
      (owned o (entries bytes) = [] ∨ 0 ≤ (owed now o (entries bytes)).bmod (2 ^ 32)))

instance (now : Timestamp) (o : CString) (bytes : List Byte) :
    Decidable (CollectsCleanly now o bytes) :=
  inferInstanceAs (Decidable (_ ∨ _ ∧ (_ ∨ _)))

section Others
variable {w : World} {ino : Nat}

theorem harmless_iff {c : Call Int} {r : Reply} {w' : World} (h : c.exec w = some (r, w')) :
    Harmless w c ↔ (r.ret.toInt < 0 → w'.content .datafile = w.content .datafile) := by
  constructor
  · exact fun hc => hc r w' h
  · intro hw r' v hv
    rw [h] at hv
    cases hv
    exact hw

theorem new_outcome (hr : w.Reliable) (o n : CString) (t : BitVec 16) :
    0 ≤ (hmstrNew w o n t).1.toInt ∨ (hmstrNew w o n t).2 = w := by
  cases hl : tooLong o || tooLong n with
  | true => exact .inr (by simp only [hmstrNew, hl, ↓reduceIte])
  | false =>
    cases hn : w.names .datafile with
    | none =>
      rw [new_absent hr hn hl]
      exact .inl (makeHash_nonneg o n)
    | some ino =>
      rw [new_present hr hn hl]
      split
      · exact .inr rfl
      · split
        · exact .inl (makeHash_nonneg o n)
        · exact .inr rfl

theorem lookup_world (hr : w.Reliable) : ∀ o n, (hmstrLookup w o n).2 = w
  | some o, some n => by
    cases hl : tooLong o || tooLong n with
    | true => simp only [hmstrLookup, hl, ↓reduceIte]
    | false =>
      cases hn : w.names .datafile with
      | none => rw [lookup_absent hr hn hl]
      | some ino => rw [lookup_present hr hn hl]
  | some _, none => rfl
  | none, _ => rfl

/-- Where no entry has that uid, nothing is written back. -/
theorem content_unchanged {id : BitVec 32} {f : Hamsterdesc → Hamsterdesc}
    (hn : w.names .datafile = some ino) (hf : (entries (w.inodes ino)).find? (byId id) = none) :
    (w.setInode ino (image (updateFirst id f (entries (w.inodes ino))) ++
      damage (w.inodes ino))).content .datafile = w.content .datafile := by
  have hno : ∀ x ∈ entries (w.inodes ino), byId id x = false := fun x hx => by
    simpa using List.find?_eq_none.mp hf x hx
  rw [content_of_name hn, content_of_name (w := w.setInode _ _) hn, updateFirst_of_none hno,
    image_entries, Sys.setInode_inodes, Function.update_self]

theorem givetreats_outcome (hr : w.Reliable) (id : BitVec 32) (t : BitVec 16) :
    0 ≤ (hmstrGivetreats w id t).1.toInt ∨
      (hmstrGivetreats w id t).2.content .datafile = w.content .datafile := by
  cases hn : w.names .datafile with
  | none => exact .inr (by rw [givetreats_absent hr hn])
  | some ino =>
    rw [givetreats_present hr hn]
    cases hf : (entries (w.inodes ino)).find? (byId id) with
    | none => exact .inr (content_unchanged hn hf)
    | some h =>
      left
      have hlt := (feed h t).treatsLeft.isLt
      rw [Option.elim, BitVec.toInt_eq_toNat_of_lt (by rw [BitVec.toNat_setWidth]; omega)]
      exact Int.natCast_nonneg _

theorem howsdoing_outcome (hr : w.Reliable) (id : BitVec 32) {st st' : HmstrState}
    {ret : BitVec 32} {w' : World} (h : hmstrHowsdoing w id st = some (ret, st', w')) :
    0 ≤ ret.toInt ∨ w' = w := by
  cases hn : w.names .datafile with
  | none =>
    rw [howsdoing_absent hr hn] at h
    exact .inr (congrArg (·.2.2) (Option.some.inj h)).symm
  | some ino =>
    rw [howsdoing_present hr hn] at h
    split at h
    · exact .inr (congrArg (·.2.2) (Option.some.inj h)).symm
    · obtain ⟨_, -, h⟩ := Option.map_eq_some_iff.mp h
      have hret : (0 : BitVec 32) = ret := congrArg Prod.fst h
      exact .inl (hret ▸ show 0 ≤ (0 : BitVec 32).toInt by decide)

theorem readentry_world (hr : w.Reliable) (id : BitVec 32) {on nn on' nn' : List Byte}
    {p p' : BitVec 16} {ret : BitVec 32} {w' : World}
    (h : hmstrReadentry w id on nn p = some (ret, on', nn', p', w')) : w' = w := by
  cases hn : w.names .datafile with
  | none =>
    rw [readentry_absent hr hn] at h
    exact (congrArg (·.2.2.2.2) (Option.some.inj h)).symm
  | some ino =>
    rw [readentry_present hr hn] at h
    split at h
    · exact (congrArg (·.2.2.2.2) (Option.some.inj h)).symm
    · obtain ⟨_, -, h⟩ := Option.map_eq_some_iff.mp h
      exact (congrArg (·.2.2.2.2) h).symm

end Others

section Collecting
variable {w : World} {ino : Nat} {o : CString} {now : Timestamp} {bytes : List Byte}

theorem length_others_lt {hs : List Hamsterdesc} (h : owned o hs ≠ []) :
    (others o hs).length < hs.length := by
  have hsplit : (owned o hs).length + (others o hs).length = hs.length := by
    simpa [owned, others] using
      (List.length_eq_length_filter_add (l := hs) fun h => decide (h.ownerStr = o)).symm
  have hpos := List.length_pos_iff.mpr h
  omega

theorem others_eq_self {hs : List Hamsterdesc} (h : owned o hs = []) : others o hs = hs := by
  rw [others, List.filter_eq_self]
  intro x hx
  simpa using List.filter_eq_nil_iff.mp h x hx

/-- The copy is the file again when nothing was dropped from it. -/
theorem copy_eq_iff : image (others o (entries bytes)) = bytes ↔
    damage bytes = [] ∧ owned o (entries bytes) = [] := by
  have hlen := congrArg List.length (image_entries bytes)
  rw [List.length_append, length_image] at hlen
  have hle : (others o (entries bytes)).length ≤ (entries bytes).length := List.length_filter_le ..
  constructor
  · intro h
    have hcopy := congrArg List.length h
    rw [length_image] at hcopy
    refine ⟨List.length_eq_zero_iff.mp (by omega), ?_⟩
    by_contra hne
    have hlt := length_others_lt hne
    omega
  · rintro ⟨hd, ho⟩
    have h := image_entries bytes
    rwa [hd, List.append_nil, ← others_eq_self ho] at h

theorem collect_harmless_iff (hr : w.Reliable) (hw : FilesApart w)
    (hn : w.names .datafile = some ino) (hl : tooLong o = false) :
    Harmless w (.collect (some o)) ↔ CollectsCleanly w.now o (w.inodes ino) := by
  cases hcs : charges w.now o (entries (w.inodes ino)) with
  | none =>
    have habort : (Call.collect (some o)).exec w = none := by
      rw [exec_collect, collect_present hr hn (hw.apart ino hn) (hw.old ino hn) hl, hcs]
      rfl
    constructor
    · exact fun _ => .inl (charges_eq_none_iff.mp hcs)
    · intro _ r w' h
      rw [habort] at h
      cases h
  | some cs =>
    obtain ⟨w', hex, hcont⟩ := collect_outcome hr hw hn hl hcs
    have hsum : cs.sum.toInt = (owed w.now o (entries (w.inodes ino))).bmod (2 ^ 32) := by
      rw [sum_charges hcs, BitVec.toInt_ofInt]
    have hgoes : ¬ ∃ h ∈ owned o (entries (w.inodes ino)), Premature w.now h := by
      rw [← charges_eq_none_iff, hcs]
      exact nofun
    have hkept : w'.content .datafile = w.content .datafile ↔
        damage (w.inodes ino) = [] ∧ owned o (entries (w.inodes ino)) = [] := by
      rw [hcont, content_of_name hn, Option.some.injEq, copy_eq_iff]
    rw [harmless_iff hex, hkept, CollectsCleanly, ← damage_eq_nil_iff, ← hsum, or_iff_right hgoes]
    by_cases hd : damage (w.inodes ino) = []
    · by_cases ho : owned o (entries (w.inodes ino)) = []
      · simp only [hd, ho, and_self, implies_true, true_or]
      · simp only [hd, ho, ↓reduceIte, and_false, imp_false, Int.not_lt, false_or, true_and]
    · have hneg : hmstrErrCorrupt.toInt < 0 := by decide
      simp only [hd, ↓reduceIte, hneg, false_and, forall_const]

end Collecting

section Calls
variable {w : World}

theorem harmless_of_outcome {c : Call Int} {r : Reply} {w' : World} (h : c.exec w = some (r, w'))
    (hout : 0 ≤ r.ret.toInt ∨ w'.content .datafile = w.content .datafile) : Harmless w c :=
  (harmless_iff h).mpr fun hneg => hout.resolve_left (Int.not_le.mpr hneg)

/-- No other call does more than it reports. -/
theorem harmless_unless_collects (hr : w.Reliable) {c : Call Int}
    (hc : ∀ o, c ≠ .collect (some o)) : Harmless w c := by
  cases c with
  | new o n t =>
    apply harmless_of_outcome (exec_new w o n t)
    exact (new_outcome hr o n t).imp_right fun h => by rw [h]
  | lookup o n =>
    apply harmless_of_outcome (exec_lookup w o n)
    rw [lookup_world hr]
    exact .inr rfl
  | directory p o n =>
    apply harmless_of_outcome (exec_directory w p o n)
    exact .inr ((directory_onlyReads w p o n).content _)
  | howsdoing id =>
    intro r w' h hneg
    obtain ⟨⟨ret, st, v⟩, he, h⟩ := Option.map_eq_some_iff.mp h
    obtain ⟨rfl, rfl⟩ := Prod.mk.inj h
    rcases howsdoing_outcome hr id he with hpos | rfl
    · exact absurd hpos (Int.not_le.mpr hneg)
    · rfl
  | readentry id =>
    intro r w' h _
    obtain ⟨⟨ret, o, n, p, v⟩, he, h⟩ := Option.map_eq_some_iff.mp h
    obtain ⟨-, rfl⟩ := Prod.mk.inj h
    rw [readentry_world hr id he]
  | givetreats id t => exact harmless_of_outcome (exec_givetreats w id t) (givetreats_outcome hr id t)
  | collect o =>
    cases o with
    | none => exact harmless_of_outcome rfl (.inr rfl)
    | some o => exact absurd rfl (hc o)

theorem collection_harmless_iff (hr : w.Reliable) (hw : FilesApart w) (o : CString) :
    Harmless w (.collect (some o)) ↔ (tooLong o = false → ∀ bytes,
      w.content .datafile = some bytes → CollectsCleanly w.now o bytes) := by
  cases hl : tooLong o with
  | true =>
    have hex : (Call.collect (some o)).exec w = some (⟨hmstrErrNameTooLong, .none⟩, w) := by
      rw [exec_collect, hmstrCollect, if_pos hl]
      rfl
    exact iff_of_true (harmless_of_outcome hex (.inr rfl)) fun h => Bool.noConfusion h
  | false =>
    cases hn : w.names .datafile with
    | none =>
      have hex : (Call.collect (some o)).exec w = some (⟨hmstrErrStore, .none⟩, w) := by
        rw [exec_collect, collect_absent hr hn hl]
        rfl
      refine iff_of_true (harmless_of_outcome hex (.inr rfl)) fun _ bytes hb => ?_
      rw [Sys.content, hn] at hb
      cases hb
    | some ino =>
      rw [collect_harmless_iff hr hw hn hl, content_of_name hn]
      simp only [Option.some.injEq, forall_const, forall_eq']

end Calls

/-- A failed call leaves the database as it was, unless it is a collection that
does not go cleanly. -/
theorem failed_call_harmless_iff {w : World} (hr : w.Reliable) (hw : FilesApart w)
    (c : Call Int) : Harmless w c ↔ ∀ o bytes, c = .collect (some o) → tooLong o = false →
      w.content .datafile = some bytes → CollectsCleanly w.now o bytes := by
  by_cases hc : ∃ o, c = .collect (some o)
  · obtain ⟨o, rfl⟩ := hc
    rw [collection_harmless_iff hr hw]
    constructor
    · intro h o' bytes he hl hb
      cases he
      exact h hl bytes hb
    · exact fun h hl bytes hb => h o bytes rfl hl hb
  · have hno : ∀ o, c ≠ .collect (some o) := fun o he => hc ⟨o, he⟩
    exact iff_of_true (harmless_unless_collects hr hno) fun o _ he => absurd he (hno o)

/-- A database of the given bytes at time zero, and no other file. -/
def holding (bytes : List Byte) : World where
  names f := if f = .datafile then some 0 else none
  inodes _ := bytes
  nextIno := 1
  fds := ∅
  faults := []
  now := .epoch

theorem filesApart_holding (bytes : List Byte) : FilesApart (holding bytes) where
  old ino h := by
    cases h
    exact Nat.one_pos
  apart ino _ h := by cases h

def carol : CString := ⟨[99], by decide⟩
def daisy : CString := ⟨[100], by decide⟩

/-- The entries of two owners. -/
def pair : List Byte :=
  (newEntry .epoch carol daisy 3).toBytes ++ (newEntry .epoch daisy carol 5).toBytes

theorem failed_call_harmless_pair : Harmless (holding pair) (.collect (some carol)) := by
  refine (failed_call_harmless_iff (w := holding pair) rfl (filesApart_holding pair) _).mpr ?_
  intro o bytes hcall _ hbytes
  obtain rfl : carol = o := Option.some.inj (Call.collect.inj hcall)
  obtain rfl : pair = bytes := Option.some.inj hbytes
  decide +kernel

/-- An entry whose price has become negative. -/
def indebted : Hamsterdesc :=
  { newEntry .epoch carol daisy 0 with price := -1 }

/-- A damaged tail is lost though the call reports it, and an entry is gone
though its bill reads as an error. -/
theorem collect_loses : ¬ Harmless (holding [0]) (.collect (some carol)) ∧
    ¬ Harmless (holding indebted.toBytes) (.collect (some carol)) := by
  have hclean (bytes : List Byte) : Harmless (holding bytes) (.collect (some carol)) ↔
      CollectsCleanly (holding bytes).now carol bytes :=
    collect_harmless_iff (w := holding bytes) rfl (filesApart_holding bytes) rfl (by decide)
  rw [hclean, hclean]
  decide +kernel

end Hamster.Contract.Failure
