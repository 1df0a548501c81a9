import Hamster.Lib.Unreliable
import Hamster.Store.Fields
import Hamster.Store.Outcomes

/-!
# What a call does to the two files when calls may fail

The database and the file that `hmstr_collect` renames it to hold complete entries,
and every call keeps that, wherever it is interrupted. Up to the accounts there are
four things a call can do to the entries: nothing, admit one, collect, or begin to
collect and give up.
-/
namespace Hamster.Store.Faults

open Lib.Bytes Lib.Clock Lib.Posix Lib.RecordFile Lib.Unreliable Entry Library Scans CollectScan
  Amounts Fields Outcomes

/-! ## Files in order -/

/-- Different names are names of different, older files of complete entries. -/
structure Sound (w : World) : Prop where
  old : ∀ f ino, w.names f = some ino → ino < w.nextIno
  apart : ∀ f f' ino, w.names f = some ino → w.names f' = some ino → f = f'
  whole : ∀ f ino, w.names f = some ino → damage (w.inodes ino) = []

/-- The entries under a name, none if the file does not exist. -/
def entriesOf (w : World) (f : StoreFile) : List Hamsterdesc := ((w.content f).map entries).getD []

section Sound
variable {w w' : World} {f f' : StoreFile} {ino : Nat} {hs : List Hamsterdesc}

theorem entriesOf_present (hn : w.names f = some ino) :
    entriesOf w f = entries (w.inodes ino) := by
  rw [entriesOf, Sys.content, hn]
  rfl

theorem entriesOf_absent (hn : w.names f = none) : entriesOf w f = [] := by
  rw [entriesOf, Sys.content, hn]
  rfl

theorem Sound.image (hw : Sound w) (hn : w.names f = some ino) :
    w.inodes ino = image (entriesOf w f) := by
  have h := image_entries (w.inodes ino)
  rw [hw.whole f ino hn, List.append_nil] at h
  rw [entriesOf_present hn, h]

theorem Sound.same (hw : Sound w) (h : Sys.SameFiles w w') (hnext : w'.nextIno = w.nextIno) :
    Sound w' := by
  constructor
  · intro f ino
    rw [h.names, hnext]
    exact hw.old f ino
  · intro f f' ino
    rw [h.names]
    exact hw.apart f f' ino
  · intro f ino
    rw [h.names, h.inodes]
    exact hw.whole f ino

theorem entriesOf_same (h : Sys.SameFiles w w') (f : StoreFile) :
    entriesOf w' f = entriesOf w f := by
  rw [entriesOf, h.content, entriesOf]

theorem Sound.touches (hw : Sound w) (h : Touches ino w w')
    (himage : w'.inodes ino = Entry.image hs) : Sound w' := by
  constructor
  · intro f i
    rw [h.names, h.nextIno]
    exact hw.old f i
  · intro f f' i
    rw [h.names]
    exact hw.apart f f' i
  · intro f i hn
    rw [h.names] at hn
    by_cases hi : i = ino
    · rw [hi, himage, damage_image]
    · rw [h.others i hi]
      exact hw.whole f i hn

theorem entriesOf_untouched (hw : Sound w) (h : Touches ino w w') (hn : w.names f = some ino)
    (hf : f' ≠ f) : entriesOf w' f' = entriesOf w f' := by
  cases hn' : w.names f' with
  | none => rw [entriesOf_absent hn', entriesOf_absent (h.names ▸ hn')]
  | some i =>
    have hi : i ≠ ino := by
      rintro rfl
      exact hf (hw.apart f' f i hn' hn)
    rw [entriesOf_present hn', entriesOf_present (h.names ▸ hn'), h.others i hi]

theorem Sound.creates (hw : Sound w) (h : Creates f w w') : Sound w' := by
  have hnew (g : StoreFile) (i : Nat) (hi : w'.names g = some i) :
      (g = f ∧ i = w.nextIno) ∨ (g ≠ f ∧ w.names g = some i) := by
    rw [h.names] at hi
    by_cases hg : g = f
    · subst hg
      rw [Function.update_self] at hi
      exact .inl ⟨rfl, (Option.some.inj hi).symm⟩
    · rw [Function.update_of_ne hg] at hi
      exact .inr ⟨hg, hi⟩
  constructor
  · intro g i hi
    rw [h.nextIno]
    rcases hnew g i hi with ⟨-, rfl⟩ | ⟨-, hold⟩
    · exact Nat.lt_succ_self _
    · exact Nat.lt_succ_of_lt (hw.old g i hold)
  · intro g g' i hi hi'
    rcases hnew g i hi with ⟨hg, he⟩ | ⟨-, hold⟩
    · rcases hnew g' i hi' with ⟨hg', -⟩ | ⟨-, hold'⟩
      · rw [hg, hg']
      · exact absurd (hw.old g' i hold') (by omega)
    · rcases hnew g' i hi' with ⟨-, he'⟩ | ⟨-, hold'⟩
      · exact absurd (hw.old g i hold) (by omega)
      · exact hw.apart g g' i hold hold'
  · intro g i hi
    rw [h.inodes]
    rcases hnew g i hi with ⟨-, rfl⟩ | ⟨-, hold⟩
    · rw [Function.update_self]
      rfl
    · rw [Function.update_of_ne (hw.old g i hold).ne]
      exact hw.whole g i hold

theorem entriesOf_created (hw : Sound w) (h : Creates f w w') (g : StoreFile) :
    entriesOf w' g = entriesOf w g := by
  by_cases hg : g = f
  · subst hg
    have hn : w'.names g = some w.nextIno := by rw [h.names, Function.update_self]
    rw [entriesOf_present hn, entriesOf_absent h.missing, h.inodes, Function.update_self]
    rfl
  · have hsame : w'.names g = w.names g := by rw [h.names, Function.update_of_ne hg]
    cases hn : w.names g with
    | none => rw [entriesOf_absent hn, entriesOf_absent (hsame.trans hn)]
    | some i =>
      rw [entriesOf_present hn, entriesOf_present (hsame.trans hn), h.inodes,
        Function.update_of_ne (hw.old g i hn).ne]

/-- The database with other entries in its file. -/
theorem Sound.rewritten (hw : Sound w) (h : Touches ino w w') (hn : w.names .datafile = some ino)
    (himage : w'.inodes ino = Entry.image hs) : Sound w' ∧ entriesOf w' .datafile = hs ∧
      entriesOf w' .intermediateFile = entriesOf w .intermediateFile := by
  refine ⟨hw.touches h himage, ?_, entriesOf_untouched hw h hn (by decide)⟩
  rw [entriesOf_present (h.names ▸ hn), himage, entries_image]

/-- One name less. -/
theorem Sound.unlinked (hw : Sound w) (hinodes : w'.inodes = w.inodes)
    (hnext : w'.nextIno = w.nextIno) (hnames : w'.names = Function.update w.names f none) :
    Sound w' ∧ ∀ g, g ≠ f → entriesOf w' g = entriesOf w g := by
  have hleft (g : StoreFile) (i : Nat) (hi : w'.names g = some i) : w.names g = some i := by
    by_cases hg : g = f
    · subst hg
      rw [hnames, Function.update_self] at hi
      cases hi
    · rwa [hnames, Function.update_of_ne hg] at hi
  refine ⟨⟨fun g i hi => ?_, fun g g' i hi hi' => ?_, fun g i hi => ?_⟩, fun g hg => ?_⟩
  · rw [hnext]
    exact hw.old g i (hleft g i hi)
  · exact hw.apart g g' i (hleft g i hi) (hleft g' i hi')
  · rw [hinodes]
    exact hw.whole g i (hleft g i hi)
  · rw [entriesOf, Sys.content, hnames, Function.update_of_ne hg, hinodes]
    rfl

/-- Opening leaves the entries alone, even where it creates the file. -/
theorem opened {mode : OpenMode} {x : Option Nat} (hw : Sound w)
    (h : w.openFile f mode = (x, w')) : Sound w' ∧ (∀ g, entriesOf w' g = entriesOf w g) ∧
      w'.now = w.now ∧ ∀ fd, x = some fd → ∃ ino, w'.names f = some ino ∧
        w'.fds.lookup fd = some (.file ino 0 mode.writable) := by
  rcases openFile_cases h with ⟨rfl, hquiet⟩ | ⟨fd, ino, rfl, hn, hd, hworld⟩
  · exact ⟨hw.same hquiet.toSameFiles hquiet.nextIno, entriesOf_same hquiet.toSameFiles,
      hquiet.now, nofun⟩
  · have hfile : ∀ x, some fd = some x → ∃ ino, w'.names f = some ino ∧
        w'.fds.lookup x = some (.file ino 0 mode.writable) := by
      rintro x ⟨⟩
      exact ⟨ino, hn, hd⟩
    rcases hworld with hquiet | ⟨-, hcreates⟩
    · exact ⟨hw.same hquiet.toSameFiles hquiet.nextIno, entriesOf_same hquiet.toSameFiles,
        hquiet.now, hfile⟩
    · exact ⟨hw.creates hcreates, entriesOf_created hw hcreates, hcreates.now, hfile⟩

end Sound

/-! ## The scan -/

section Scan
variable {w : World} {fd ino : Nat} {wr : Bool}

/-- Where a scan of a database just opened can end. -/
theorem scan_cases (hw : Sound w) (hn : w.names .datafile = some ino)
    (hd : w.fds.lookup fd = some (.file ino 0 wr)) (test : Hamsterdesc → Bool) :
    Quiet w (scanEntries test w fd).2 ∧
      ((scanEntries test w fd).1 = .stop none ∨
        (∃ pre h post, entriesOf w .datafile = pre ++ h :: post ∧
          (scanEntries test w fd).1 = .hit h.toBytes ∧
          (scanEntries test w fd).2.fds.lookup fd =
            some (.file ino (96 * (pre.length + 1)) wr)) ∨
        (scanEntries test w fd).1 = .stop (some []) ∧
          (scanEntries test w fd).2.fds.lookup fd =
            some (.file ino (w.inodes ino).length wr)) := by
  have hcont : (w.inodes ino).drop 0 =
      ((entriesOf w .datafile).map Hamsterdesc.toBytes).flatten := by
    rw [List.drop_zero, hw.image hn, image_eq_flatten]
  obtain ⟨hquiet, hends⟩ := scanLoop_ends (by decide : 0 < 96)
    (fun bs => test (Hamsterdesc.ofBytes bs)) (unread w fd + 1) hd hcont length_of_mem_map_toBytes
  refine ⟨hquiet, ?_⟩
  change Ends _ _ _ _ _ _ _ (scanEntries test w fd).2 (scanEntries test w fd).1 at hends
  generalize (scanEntries test w fd).1 = e at hends
  cases hends with
  | failed => exact .inl rfl
  | found hsplit hpre hhit hat =>
    obtain ⟨pre, rest, he, rfl, hrest⟩ := List.map_eq_append_iff.mp hsplit
    obtain ⟨h, post, rfl, rfl, rfl⟩ := List.map_eq_cons_iff.mp hrest
    rw [List.length_map, Nat.zero_add] at hat
    exact .inr (.inl ⟨pre, h, post, he, rfl, hat⟩)
  | exhausted hno hat =>
    rw [List.length_map, Nat.zero_add, ← length_image, ← hw.image hn] at hat
    exact .inr (.inr ⟨rfl, hat⟩)

end Scan

/-! ## What a call can do -/

/-- Whose entry it is, and since when. -/
def ident (h : Hamsterdesc) : NameField × NameField × Timeval := (h.owner, h.name, h.admissionTime)

/-- A collection that gets as far as renaming the database. -/
def Renames (w : World) (o : CString) : Prop :=
  tooLong o = false ∧ w.failing = false ∧ w.names .datafile ≠ none

/-- The effect of a call with the given result. -/
inductive Effect (w : World) : Call Int → BitVec 32 → World → Prop
  | unchanged {c : Call Int} {ret : BitVec 32} {w' : World}
      (hdata : (entriesOf w' .datafile).map ident = (entriesOf w .datafile).map ident)
      (hold : entriesOf w' .intermediateFile = entriesOf w .intermediateFile)
      (hnew : ∀ o n t, c = .new o n t → ret.toInt < 0)
      (hcollect : ∀ o, c = .collect (some o) → ¬ Renames w o) : Effect w c ret w'
  | admitted {o n : CString} {t : BitVec 16} {ret : BitVec 32} {w' : World}
      (hdata : entriesOf w' .datafile = entriesOf w .datafile ++ [newEntry w.now o n t])
      (hold : entriesOf w' .intermediateFile = entriesOf w .intermediateFile)
      (hret : 0 ≤ ret.toInt) : Effect w (.new o n t) ret w'
  | collected {o : CString} {ret : BitVec 32} {w' : World} (hren : Renames w o)
      (hdata : entriesOf w' .datafile = others o (entriesOf w .datafile))
      (hold : w'.names .intermediateFile = none)
      (hret : owned o (entriesOf w .datafile) ≠ [] →
        ret = BitVec.ofInt 32 (owed w.now o (entriesOf w .datafile))) :
      Effect w (.collect (some o)) ret w'
  | interrupted {o : CString} {ret : BitVec 32} {w' : World} (hren : Renames w o)
      (hdata : entriesOf w' .datafile ⊆ entriesOf w .datafile)
      (hold : entriesOf w' .intermediateFile = entriesOf w .datafile)
      (hleft : w'.names .intermediateFile ≠ none) : Effect w (.collect (some o)) ret w'

/-! ## Calls that leave the entries alone -/

section Reading
variable {w w' : World}

/-- The database is as it was. -/
theorem Effect.of_same {c : Call Int} {ret : BitVec 32} (h : Sys.SameFiles w w')
    (hnew : ∀ o n t, c = .new o n t → ret.toInt < 0)
    (hcollect : ∀ o, c = .collect (some o) → ¬ Renames w o) : Effect w c ret w' := by
  refine .unchanged ?_ (entriesOf_same h _) hnew hcollect
  rw [entriesOf_same h]

theorem lookup_onlyReads (w : World) (o n : Option CString) :
    Sys.OnlyReads w (hmstrLookup w o n).2 := by
  unfold hmstrLookup
  split
  · rename_i o n
    split
    · exact .refl w
    · have hopen := Sys.openFile_onlyReads w .datafile (show OpenMode.rdonly ≠ .rdwrCreat by decide)
      split
      · rename_i h
        rw [h] at hopen
        exact hopen
      · rename_i fd w₁ h
        rw [h] at hopen
        have hscan : Sys.OnlyReads w₁
            (scanEntries (fun h => h.ownerStr = o && h.nameStr = n) w₁ fd).2 :=
          scanLoop_onlyReads ..
        split
        all_goals
          rename_i hs
          rw [hs] at hscan
          exact hopen.trans (hscan.setFds _)
  · exact .refl w

theorem readentry_onlyReads {id : BitVec 32} {owner name owner' name' : List Byte}
    {price price' : BitVec 16} {ret : BitVec 32}
    (h : hmstrReadentry w id owner name price = some (ret, owner', name', price', w')) :
    Sys.OnlyReads w w' := by
  unfold hmstrReadentry at h
  have hopen := Sys.openFile_onlyReads w .datafile (show OpenMode.rdonly ≠ .rdwrCreat by decide)
  split at h
  · rename_i ho
    rw [ho] at hopen
    cases h
    exact hopen
  · rename_i fd w₁ ho
    rw [ho] at hopen
    have hscan : Sys.OnlyReads w₁ (scanEntries (fun h => h.uid = id) w₁ fd).2 :=
      scanLoop_onlyReads ..
    split at h
    · rename_i bs w₂ hs
      rw [hs] at hscan
      dsimp only at h
      split at h
      · cases h
      · have hw : w₂.close fd = w' := congrArg (·.2.2.2.2) (Option.some.inj h)
        rw [← hw]
        exact hopen.trans (hscan.setFds _)
    · rename_i hs
      rw [hs] at hscan
      cases h
      exact hopen.trans (hscan.setFds _)

end Reading

/-! ## Writing to the database -/

/-- Both files have the entries from before, up to their accounts. -/
structure Keeps (w w' : World) : Prop where
  sound : Sound w'
  data : (entriesOf w' .datafile).map ident = (entriesOf w .datafile).map ident
  old : entriesOf w' .intermediateFile = entriesOf w .intermediateFile

section Writing
variable {w w' w'' : World} {fd ino : Nat}

theorem Keeps.of_entries (hsound : Sound w') (h : ∀ f, entriesOf w' f = entriesOf w f) :
    Keeps w w' := ⟨hsound, by rw [h], h _⟩

theorem Keeps.of_quiet (hw : Sound w) (h : Quiet w w') : Keeps w w' :=
  .of_entries (hw.same h.toSameFiles h.nextIno) (entriesOf_same h.toSameFiles)

theorem Keeps.trans (h : Keeps w w') (h' : Keeps w' w'') : Keeps w w'' :=
  ⟨h'.sound, h'.data.trans h.data, h'.old.trans h.old⟩

theorem ident_patch {f : Hamsterdesc → Hamsterdesc} (hf : KeepsIdentity f) (h : Hamsterdesc) :
    ident (f h) = ident h := by
  rw [ident, hf.owner, hf.name, hf.admissionTime, ident]

/-- The entry just read is replaced, or stays if a call fails. -/
theorem writeBack_keeps (hw : Sound w) (hn : w.names .datafile = some ino)
    {pre post : List Hamsterdesc} {h h' : Hamsterdesc}
    (hsplit : entriesOf w .datafile = pre ++ h :: post)
    (hd : w.fds.lookup fd = some (.file ino (96 * (pre.length + 1)) true))
    (hident : ident h' = ident h) (ok : BitVec 32) : Keeps w (writeBack w fd h' ok).2 := by
  have hback : 96 * (pre.length + 1) - 96 = 96 * pre.length := by omega
  unfold writeBack
  obtain ⟨v, hquiet, hseek | ⟨hseek, hat⟩⟩ := lseekCur_cases hd (show 96 ≤ _ by omega)
  · rw [show (-96 : Int) = -((96 : Nat) : Int) from rfl, hseek]
    exact .of_quiet hw (hquiet.close fd)
  · rw [show (-96 : Int) = -((96 : Nat) : Int) from rfl, hseek]
    rw [hback] at hat
    have hcont : v.inodes ino = image pre ++ h.toBytes ++ image post := by
      rw [hquiet.inodes, hw.image hn, hsplit, image_append, image_cons, List.append_assoc]
    dsimp only
    obtain ⟨v', htouch, ⟨hwrite, hsame⟩ | ⟨hwrite, hover, -⟩⟩ := write_cases hat h'.toBytes
    · rw [hwrite]
      have himage : v'.inodes ino = image (pre ++ h :: post) := by
        rw [hsame, hcont, image_append, image_cons, List.append_assoc]
      obtain ⟨hsound, hdata, hold⟩ :=
        hw.rewritten (((hquiet.touches ino).trans htouch).close fd) hn himage
      exact ⟨hsound, by rw [hdata, hsplit], hold⟩
    · rw [hwrite]
      have himage : v'.inodes ino = image (pre ++ h' :: post) := by
        have hm : Sys.overwrite (image pre ++ h.toBytes ++ image post) (image pre).length
            h'.toBytes = image pre ++ h'.toBytes ++ image post := Sys.overwrite_middle (by simp)
        rw [length_image] at hm
        rw [hover, hcont, hm, image_append, image_cons, List.append_assoc]
      obtain ⟨hsound, hdata, hold⟩ :=
        hw.rewritten (((hquiet.touches ino).trans htouch).close fd) hn himage
      refine ⟨hsound, ?_, hold⟩
      rw [hdata, hsplit, List.map_append, List.map_append, List.map_cons, List.map_cons, hident]

/-- The database opened for writing and scanned for an id, with what the scan hands
to the caller. -/
theorem opened_scanned {mode : OpenMode} {w₁ w₂ : World} {e : ScanEnd}
    {test : Hamsterdesc → Bool} (hw : Sound w) (hopen : w.openFile .datafile mode = (some fd, w₁))
    (hs : scanEntries test w₁ fd = (e, w₂)) :
    Sound w₂ ∧ (∀ f, entriesOf w₂ f = entriesOf w f) ∧ w₂.now = w.now ∧
      ∃ ino, w₂.names .datafile = some ino ∧
        (e = .stop none ∨
          (∃ pre h post, entriesOf w₂ .datafile = pre ++ h :: post ∧ e = .hit h.toBytes ∧
            w₂.fds.lookup fd = some (.file ino (96 * (pre.length + 1)) mode.writable)) ∨
          e = .stop (some []) ∧
            w₂.fds.lookup fd = some (.file ino (w₂.inodes ino).length mode.writable)) := by
  obtain ⟨hsound, hsame, hnow, hfile⟩ := opened hw hopen
  obtain ⟨ino, hn, hd⟩ := hfile fd rfl
  obtain ⟨hquiet, hscan⟩ := scan_cases hsound hn hd test
  rw [hs] at hquiet hscan
  have hentries := entriesOf_same hquiet.toSameFiles
  refine ⟨hsound.same hquiet.toSameFiles hquiet.nextIno, fun f => (hentries f).trans (hsame f),
    hquiet.now.trans hnow, ino, hquiet.names ▸ hn, ?_⟩
  rwa [hentries, hquiet.inodes]

theorem givetreats_keeps (hw : Sound w) (id : BitVec 32) (t : BitVec 16) :
    Keeps w (hmstrGivetreats w id t).2 := by
  unfold hmstrGivetreats
  split
  · rename_i hopen
    obtain ⟨hsound, hsame, -, -⟩ := opened hw hopen
    exact .of_entries hsound hsame
  · rename_i fd w₁ hopen
    split
    · rename_i bs w₂ hs
      obtain ⟨hsound, hsame, -, ino, hn, hend⟩ := opened_scanned hw hopen hs
      obtain ⟨pre, h, post, hsplit, hbs, hat⟩ :=
        (hend.resolve_left nofun).resolve_right fun h => nomatch h.1
      cases hbs
      rw [Hamsterdesc.ofBytes_toBytes]
      exact (Keeps.of_entries hsound hsame).trans
        (writeBack_keeps hsound hn hsplit hat (ident_patch (keepsIdentity_feed t) h) _)
    · rename_i hs
      obtain ⟨hsound, hsame, -, -⟩ := opened_scanned hw hopen hs
      exact (Keeps.of_entries hsound hsame).trans (.of_quiet hsound ((Quiet.refl _).close fd))

theorem howsdoing_keeps (hw : Sound w) {id : BitVec 32} {st st' : HmstrState} {ret : BitVec 32}
    (h : hmstrHowsdoing w id st = some (ret, st', w')) : Keeps w w' := by
  unfold hmstrHowsdoing at h
  split at h
  · rename_i hopen
    obtain ⟨hsound, hsame, -, -⟩ := opened hw hopen
    cases h
    exact .of_entries hsound hsame
  · rename_i fd w₁ hopen
    split at h
    · rename_i bs w₂ hs
      obtain ⟨hsound, hsame, -, ino, hn, hend⟩ := opened_scanned hw hopen hs
      obtain ⟨pre, x, post, hsplit, hbs, hat⟩ :=
        (hend.resolve_left nofun).resolve_right fun h => nomatch h.1
      cases hbs
      dsimp only at h
      split at h
      · cases h
      · rw [Hamsterdesc.ofBytes_toBytes] at h
        have hback : (writeBack w₂ fd (inquire x) 0).2 = w' :=
          congrArg (·.2.2) (Option.some.inj h)
        rw [← hback]
        exact (Keeps.of_entries hsound hsame).trans
          (writeBack_keeps hsound hn hsplit hat (ident_patch keepsIdentity_inquire x) 0)
    · rename_i hs
      obtain ⟨hsound, hsame, -, -⟩ := opened_scanned hw hopen hs
      cases h
      exact (Keeps.of_entries hsound hsame).trans (.of_quiet hsound ((Quiet.refl _).close fd))

/-- An entry is appended by a call that succeeds, and by no other. -/
theorem new_effect (hw : Sound w) (o n : CString) (t : BitVec 16) :
    Sound (hmstrNew w o n t).2 ∧
      Effect w (.new o n t) (hmstrNew w o n t).1 (hmstrNew w o n t).2 := by
  have hkept {ret : BitVec 32} {v : World} (h : Keeps w v) (hret : ret.toInt < 0) :
      Sound v ∧ Effect w (.new o n t) ret v :=
    ⟨h.sound, .unchanged h.data h.old (fun _ _ _ _ => hret) nofun⟩
  obtain ⟨hlong, hexists, hnotFound, hstore, hcorrupt⟩ := err_neg
  unfold hmstrNew
  split
  · exact hkept (.of_quiet hw (.refl w)) hlong
  · split
    · rename_i hopen
      obtain ⟨hsound, hsame, -, -⟩ := opened hw hopen
      exact hkept (.of_entries hsound hsame) hstore
    · rename_i fd w₁ hopen
      have hclosed {e : ScanEnd} {v : World}
          (hs : scanEntries (fun h => h.ownerStr = o && h.nameStr = n) w₁ fd = (e, v)) :
          Keeps w (v.close fd) := by
        obtain ⟨hsound, hsame, -, -⟩ := opened_scanned hw hopen hs
        exact (Keeps.of_entries hsound hsame).trans (.of_quiet hsound ((Quiet.refl v).close fd))
      split
      · rename_i hs
        exact hkept (hclosed hs) hexists
      · rename_i hs
        exact hkept (hclosed hs) hstore
      · rename_i bs w₂ hs
        split
        · exact hkept (hclosed hs) hcorrupt
        · obtain ⟨hsound, hsame, hnow, ino, hn, hend⟩ := opened_scanned hw hopen hs
          obtain ⟨-, hat⟩ := (hend.resolve_left (by simp)).resolve_left (by simp)
          dsimp only
          obtain ⟨v, htouch, ⟨hwrite, hcont⟩ | ⟨hwrite, hcont, -⟩⟩ :=
            write_cases hat (newEntry w₂.now o n t).toBytes
          · rw [hwrite, if_neg nofun]
            have himage : v.inodes ino = image (entriesOf w₂ .datafile) := by
              rw [hcont, hsound.image hn]
            obtain ⟨hsound', hdata, hold⟩ := hsound.rewritten (htouch.close fd) hn himage
            exact hkept ⟨hsound', by rw [hdata, hsame], by rw [hold, hsame]⟩ hstore
          · rw [hwrite, if_pos (by rw [Hamsterdesc.length_toBytes])]
            have himage : v.inodes ino =
                image (entriesOf w₂ .datafile ++ [newEntry w₂.now o n t]) := by
              rw [hcont, Sys.overwrite_append, hsound.image hn, image_append, image_cons, image_nil,
                List.append_nil]
            obtain ⟨hsound', hdata, hold⟩ := hsound.rewritten (htouch.close fd) hn himage
            refine ⟨hsound', .admitted ?_ (by rw [hold, hsame]) (makeHash_nonneg o n)⟩
            rw [hdata, hsame, hnow]

end Writing

/-! ## Collecting -/

/-- How the copying loop can end: with some of the entries copied and, if it met the
end of the old file, all that have another owner. -/
def CopyEnds (now : Timestamp) (o : CString) (hs ks : List Hamsterdesc) (jno : Nat)
    (total : BitVec 32) (found : Bool) (e : CollectEnd) (v : World) : Prop :=
  ∃ copied, v.inodes jno = image (ks ++ copied) ∧ copied ⊆ hs ∧
    ∀ last total' found', e = .read (some last) total' found' → last = [] ∧
      copied = others o hs ∧ ∃ cs, charges now o hs = some cs ∧ total' = total + cs.sum ∧
        found' = (found || !(owned o hs).isEmpty)

section Copying
variable {now : Timestamp} {o : CString} {h : Hamsterdesc} {hs ks : List Hamsterdesc} {jno : Nat}
  {total : BitVec 32} {found : Bool} {e : CollectEnd} {v : World}

theorem CopyEnds.failed (hv : v.inodes jno = image ks)
    (he : ∀ last total' found', e ≠ .read (some last) total' found') :
    CopyEnds now o hs ks jno total found e v :=
  ⟨[], by rw [List.append_nil, hv], List.nil_subset hs, fun _ _ _ h => absurd h (he _ _ _)⟩

theorem CopyEnds.skip (howner : h.ownerStr = o) {r : BitVec 32}
    (hr : getRounds now h.admissionTime = some r)
    (hrest : CopyEnds now o hs ks jno (total + charge h r) true e v) :
    CopyEnds now o (h :: hs) ks jno total found e v := by
  obtain ⟨copied, hv, hsub, hend⟩ := hrest
  refine ⟨copied, hv, fun x hx => List.mem_cons_of_mem h (hsub hx), fun last total' found' he => ?_⟩
  obtain ⟨hlast, hcopied, cs, hcs, htotal, hfound⟩ := hend last total' found' he
  refine ⟨hlast, by rw [others_cons_of_eq howner, hcopied], charge h r :: cs, ?_, ?_, ?_⟩
  · rw [charges_cons_of_eq howner, hr, hcs]
    rfl
  · rw [htotal, List.sum_cons, BitVec.add_assoc]
  · rw [hfound, owned_cons_of_eq howner]
    simp

theorem CopyEnds.copy (howner : h.ownerStr ≠ o)
    (hrest : CopyEnds now o hs (ks ++ [h]) jno total found e v) :
    CopyEnds now o (h :: hs) ks jno total found e v := by
  obtain ⟨copied, hv, hsub, hend⟩ := hrest
  refine ⟨h :: copied, by rw [hv, List.append_assoc]; rfl, ?_, fun last total' found' he => ?_⟩
  · exact List.cons_subset_cons h hsub
  · obtain ⟨hlast, hcopied, cs, hcs, htotal, hfound⟩ := hend last total' found' he
    refine ⟨hlast, by rw [others_cons_of_ne howner, hcopied], cs, ?_, htotal, ?_⟩
    · rw [charges_cons_of_ne howner, hcs]
    · rw [hfound, owned_cons_of_ne howner]

/-- The copy holds the entries already seen that have another owner; it grows by one
with each turn that does not fail. -/
theorem collectLoop_ends {fdi fd ino : Nat} (hne : fd ≠ fdi) (hij : ino ≠ jno) (fuel : Nat)
    {w : World} {total : BitVec 32} {found : Bool} {hs ks : List Hamsterdesc} {off : Nat}
    (hold : w.fds.lookup fdi = some (.file ino off false))
    (hnew : w.fds.lookup fd = some (.file jno (image ks).length true))
    (hcont : (w.inodes ino).drop off = image hs) (hkept : w.inodes jno = image ks)
    (h : collectLoop o fdi fd fuel w total found = some (e, v)) :
    Touches jno w v ∧ CopyEnds w.now o hs ks jno total found e v := by
  induction fuel generalizing w total found hs ks off with
  | zero =>
    cases h
    exact ⟨(Quiet.refl v).touches jno, .failed hkept (by simp)⟩
  | succ fuel ih =>
    have hnew₁ := (w.read_onlyFd fdi 96 fd hne).trans hnew
    rw [collectLoop] at h
    obtain ⟨w₁, hquiet, hfail | ⟨hread, hat⟩⟩ := read_cases hold 96
    · rw [hfail] at h
      cases h
      exact ⟨hquiet.touches jno, .failed (by rw [hquiet.inodes, hkept]) (by simp)⟩
    · have hkept₁ : w₁.inodes jno = image ks := by rw [hquiet.inodes, hkept]
      rw [hcont] at hread hat
      rw [hread] at h hnew₁
      cases hs with
      | nil =>
        rw [image_nil, List.take_nil] at h
        cases h
        refine ⟨hquiet.touches jno, [], by rw [List.append_nil, hkept₁], List.nil_subset _, ?_⟩
        intro last total' found' he
        cases he
        exact ⟨rfl, rfl, [], rfl, by simp, by simp [owned]⟩
      | cons x hs =>
        have htake : (image (x :: hs)).take 96 = x.toBytes := by
          rw [image_cons, List.take_left' x.length_toBytes]
        have hnext : (w₁.inodes ino).drop (off + 96) = image hs := by
          rw [hquiet.inodes, ← List.drop_drop, hcont, image_cons, List.drop_left' x.length_toBytes]
        rw [htake] at h hat
        rw [x.length_toBytes] at hat
        dsimp only at h
        rw [if_pos x.length_toBytes, Hamsterdesc.ofBytes_toBytes] at h
        by_cases howner : x.ownerStr = o
        · rw [if_pos howner, hquiet.now] at h
          cases hrounds : getRounds w.now x.admissionTime with
          | none =>
            rw [hrounds] at h
            cases h
          | some r =>
            rw [hrounds] at h
            obtain ⟨htouch, hends⟩ := ih hat hnew₁ hnext hkept₁ h
            rw [hquiet.now] at hends
            exact ⟨(hquiet.touches jno).trans htouch, hends.skip howner hrounds⟩
        · rw [if_neg howner] at h
          have hat₂ := (w₁.write_onlyFd fd x.toBytes fdi hne.symm).trans hat
          obtain ⟨w₂, htouch, ⟨hwrite, hsame⟩ | ⟨hwrite, hover, hfd⟩⟩ := write_cases hnew₁ x.toBytes
          · rw [hwrite] at h
            cases h
            exact ⟨(hquiet.touches jno).trans htouch, .failed (by rw [hsame, hkept₁]) (by simp)⟩
          · rw [hwrite] at h hat₂
            dsimp only at h
            rw [if_pos (by rw [x.length_toBytes])] at h
            have hgrown : w₂.inodes jno = image (ks ++ [x]) := by
              rw [hover, hkept₁, Sys.overwrite_append, image_append, image_cons, image_nil,
                List.append_nil]
            rw [← List.length_append, ← List.append_nil x.toBytes, ← image_nil, ← image_cons,
              ← image_append] at hfd
            rw [← htouch.others ino hij] at hnext
            obtain ⟨htouch', hends⟩ := ih hat₂ hfd hnext hgrown h
            rw [htouch.now, hquiet.now] at hends
            exact ⟨((hquiet.touches jno).trans htouch).trans htouch', hends.copy howner⟩

end Copying

/-- The database has been renamed and its new name not been removed. -/
structure Moved (w w' : World) (ino : Nat) : Prop where
  sound : Sound w'
  name : w'.names .intermediateFile = some ino
  content : w'.inodes ino = image (entriesOf w .datafile)

section Collecting
variable {w w' w'' : World} {ino jno : Nat} {o : CString} {ret : BitVec 32}

theorem Moved.entries (h : Moved w w' ino) :
    entriesOf w' .intermediateFile = entriesOf w .datafile := by
  rw [entriesOf_present h.name, h.content, entries_image]

theorem Moved.quiet (h : Moved w w' ino) (hq : Quiet w' w'') : Moved w w'' ino :=
  ⟨h.sound.same hq.toSameFiles hq.nextIno, hq.names ▸ h.name, by rw [hq.inodes, h.content]⟩

theorem Moved.touches {hs : List Hamsterdesc} (h : Moved w w' ino) (ht : Touches jno w' w'')
    (hij : ino ≠ jno) (himage : w''.inodes jno = image hs) : Moved w w'' ino :=
  ⟨h.sound.touches ht himage, ht.names ▸ h.name, by rw [ht.others ino hij, h.content]⟩

theorem Moved.creates (h : Moved w w' ino) (hc : Creates .datafile w' w'') : Moved w w'' ino := by
  refine ⟨h.sound.creates hc, ?_, ?_⟩
  · rw [hc.names, Function.update_of_ne (by decide), h.name]
  · rw [hc.inodes, Function.update_of_ne (h.sound.old _ _ h.name).ne, h.content]

theorem Moved.effect (h : Moved w w' ino) (hren : Renames w o)
    (hdata : entriesOf w' .datafile ⊆ entriesOf w .datafile) :
    Sound w' ∧ Effect w (.collect (some o)) ret w' :=
  ⟨h.sound, .interrupted hren hdata h.entries (by rw [h.name]; exact nofun)⟩

/-- What `rename` makes of the two files. -/
theorem Sound.moved (hw : Sound w) (hn : w.names .datafile = some ino)
    (hinodes : w'.inodes = w.inodes) (hnext : w'.nextIno = w.nextIno)
    (hnames : w'.names =
      Function.update (Function.update w.names .intermediateFile (some ino)) .datafile none) :
    Moved w w' ino ∧ w'.names .datafile = none := by
  have hdata : w'.names .datafile = none := by rw [hnames, Function.update_self]
  have hback : w'.names .intermediateFile = some ino := by
    rw [hnames, Function.update_of_ne (by decide), Function.update_self]
  have honly (f : StoreFile) (i : Nat) (hi : w'.names f = some i) :
      f = .intermediateFile ∧ i = ino := by
    cases f with
    | datafile => rw [hdata] at hi; cases hi
    | intermediateFile => exact ⟨rfl, Option.some.inj (hi.symm.trans hback)⟩
  refine ⟨⟨⟨fun f i hi => ?_, fun f f' i hi hi' => ?_, fun f i hi => ?_⟩, hback, ?_⟩, hdata⟩
  · rw [(honly f i hi).2, hnext]
    exact hw.old _ _ hn
  · rw [(honly f i hi).1, (honly f' i hi').1]
  · rw [(honly f i hi).2, hinodes]
    exact hw.whole _ _ hn
  · rw [hinodes, hw.image hn]

/-- The new database is opened next to the old one: a new, empty file. -/
theorem Moved.copy_opened {fdi fd : Nat} {w₂ w₃ : World} (h : Moved w w₂ ino)
    (hgone : w₂.names .datafile = none) (hd : w₂.fds.lookup fdi = some (.file ino 0 false))
    (hopen : w₂.openFile .datafile .rdwrCreat = (some fd, w₃)) :
    ∃ jno, Moved w w₃ ino ∧ w₃.names .datafile = some jno ∧ ino ≠ jno ∧ fd ≠ fdi ∧
      w₃.fds.lookup fdi = some (.file ino 0 false) ∧
      w₃.fds.lookup fd = some (.file jno (image []).length true) ∧
      w₃.inodes jno = image [] ∧ w₃.now = w₂.now := by
  obtain ⟨jno, hn, hat, hworld⟩ := openFile_some hopen
  have hcreates := (hworld.resolve_left fun hq => by
    rw [hq.names, hgone] at hn
    cases hn).2
  obtain rfl : w₂.nextIno = jno := by
    rw [hcreates.names, Function.update_self] at hn
    exact Option.some.inj hn
  obtain ⟨hfree, honly⟩ := Sys.openFile_fds hopen
  have hne : fd ≠ fdi := by
    rintro rfl
    exact hfree (Finmap.mem_of_lookup_eq_some hd)
  refine ⟨_, h.creates hcreates, hn, (h.sound.old _ _ h.name).ne, hne,
    (honly fdi hne.symm).trans hd, hat, ?_, hcreates.now⟩
  rw [hcreates.inodes, Function.update_self, image_nil]

/-- The last call of a collection that has copied all it keeps. -/
theorem Moved.unlinked {ok : Bool} (h : Moved w w' ino) (hren : Renames w o)
    (hdata : entriesOf w' .datafile = others o (entriesOf w .datafile))
    (hunlink : w'.unlink .intermediateFile = (ok, w''))
    (hret : ok = true → owned o (entriesOf w .datafile) ≠ [] →
      ret = BitVec.ofInt 32 (owed w.now o (entriesOf w .datafile))) :
    Sound w'' ∧ Effect w (.collect (some o)) ret w'' := by
  cases ok with
  | false =>
    have hq := unlink_false hunlink
    apply (h.quiet hq).effect hren
    rw [entriesOf_same hq.toSameFiles, hdata]
    exact List.filter_sublist.subset
  | true =>
    obtain ⟨hinodes, hnext, hnames⟩ := unlink_true hunlink
    obtain ⟨hsound, hsame⟩ := h.sound.unlinked hinodes hnext hnames
    refine ⟨hsound, .collected hren ?_ ?_ (hret rfl)⟩
    · rw [hsame _ (by decide), hdata]
    · rw [hnames, Function.update_self]

/-- A collection copies what it keeps, or gives up with the database renamed. -/
theorem collect_effect (hw : Sound w) (h : hmstrCollect w (some o) = some (ret, w')) :
    Sound w' ∧ Effect w (.collect (some o)) ret w' := by
  have hkept {v : World} {ret : BitVec 32} (hv : Quiet w v) (hno : ¬ Renames w o) :
      Sound v ∧ Effect w (.collect (some o)) ret v :=
    ⟨hw.same hv.toSameFiles hv.nextIno,
      .of_same hv.toSameFiles nofun fun _ he => by cases he; exact hno⟩
  unfold hmstrCollect at h
  dsimp only at h
  split at h
  · rename_i hl
    cases h
    exact hkept (.refl w) fun hren => absurd (hl.symm.trans hren.1) (by decide)
  · rename_i hl
    have hfirst := w.rename_fst .datafile .intermediateFile
    have happart : w.names .datafile ≠ none →
        w.names .intermediateFile ≠ w.names .datafile := by
      intro hn he
      obtain ⟨i, hi⟩ := Option.ne_none_iff_exists'.mp hn
      exact absurd (hw.apart _ _ i hi (he.trans hi)) (by decide)
    split at h
    · rename_i w₁ hrename
      rw [hrename] at hfirst
      cases h
      refine hkept (rename_false happart hrename) fun hren => ?_
      rw [hren.2.1, Option.isSome_iff_ne_none.mpr hren.2.2] at hfirst
      cases hfirst
    · rename_i w₁ hrename
      rw [hrename] at hfirst
      obtain ⟨ino, hn, hinodes, hnext, hnow, hnames⟩ := rename_true happart hrename
      have hren : Renames w o := by
        refine ⟨by simpa using hl, ?_, by rw [hn]; exact nofun⟩
        rw [hn] at hfirst
        simpa using hfirst.symm
      obtain ⟨hmoved, hgone⟩ := hw.moved hn hinodes hnext hnames
      have hnone {v : World} (hq : Quiet w₁ v) :
          entriesOf v .datafile ⊆ entriesOf w .datafile := by
        rw [entriesOf_absent (hq.names ▸ hgone)]
        exact List.nil_subset _
      split at h
      · rename_i w₂ hopen
        cases h
        have hq := openFile_none hopen
        exact (hmoved.quiet hq).effect hren (hnone hq)
      · rename_i fdi w₂ hopen
        obtain ⟨i, hni, hat, hworld⟩ := openFile_some hopen
        have hq := hworld.resolve_right fun h => nomatch h.1
        have hmoved₂ := hmoved.quiet hq
        obtain rfl : i = ino := Option.some.inj (hni.symm.trans hmoved₂.name)
        split at h
        · rename_i w₃ hopen'
          cases h
          have hq' := openFile_none hopen'
          exact (hmoved₂.quiet hq').effect hren (hnone (hq.trans hq'))
        · rename_i fd w₃ hopen'
          obtain ⟨jno, hmoved₃, hnj, hij, hne, hold, hnew, hempty, hnow₃⟩ :=
            hmoved₂.copy_opened (hq.names ▸ hgone) hat hopen'
          rw [hq.now, hnow] at hnow₃
          have hcopies {e : CollectEnd} {v : World}
              (hloop : collectLoop o fdi fd (unread w₃ fdi + 1) w₃ 0 false = some (e, v)) :=
            collectLoop_ends hne hij _ hold hnew (by rw [List.drop_zero, hmoved₃.content]) hempty
              hloop
          split at h
          · cases h
          · rename_i v hloop
            obtain ⟨htouch, copied, hv, hsub, -⟩ := hcopies hloop
            have hclosed := (htouch.close fd).close fdi
            obtain ⟨-, hdata, -⟩ := hmoved₃.sound.rewritten hclosed hnj hv
            cases h
            exact (hmoved₃.touches hclosed hij hv).effect hren (hdata ▸ hsub)
          · rename_i last totalPrice found v hloop
            obtain ⟨htouch, copied, hv, hsub, hend⟩ := hcopies hloop
            have hclosed := (htouch.close fd).close fdi
            obtain ⟨hsound, hdata, -⟩ := hmoved₃.sound.rewritten hclosed hnj hv
            have hmoved₄ := hmoved₃.touches hclosed hij hv
            split at h
            · cases h
              exact hmoved₄.effect hren (hdata ▸ hsub)
            · cases h
              exact hmoved₄.effect hren (hdata ▸ hsub)
            · rename_i hlast
              obtain ⟨-, hcopied, cs, hcs, htotal, hfound⟩ := hend _ _ _ rfl
              have hothers : entriesOf ((v.close fd).close fdi) .datafile =
                  others o (entriesOf w .datafile) := by
                rw [hdata, List.nil_append, hcopied]
              split at h
              · rename_i w₅ hunlink
                cases h
                exact hmoved₄.unlinked hren hothers hunlink fun hok => absurd hok (by decide)
              · rename_i w₅ hunlink
                cases h
                refine hmoved₄.unlinked hren hothers hunlink fun _ howned => ?_
                rw [hfound, Bool.false_or, if_pos (by simpa using howned), htotal, zero_add,
                  ← hnow₃]
                exact sum_charges hcs

end Collecting

theorem exec_effect {w w' : World} (hw : Sound w) {c : Call Int} {r : Reply}
    (h : c.exec w = some (r, w')) : Sound w' ∧ Effect w c r.ret w' := by
  have hreads (hv : Sys.OnlyReads w w') (hnew : ∀ o n t, c ≠ .new o n t)
      (hcollect : ∀ o, c ≠ .collect (some o)) : Sound w' ∧ Effect w c r.ret w' :=
    ⟨hw.same hv.toSameFiles hv.nextIno, .of_same hv.toSameFiles
      (fun _ _ _ he => absurd he (hnew _ _ _)) fun _ he => absurd he (hcollect _)⟩
  have hwrites (hv : Keeps w w') (hnew : ∀ o n t, c ≠ .new o n t)
      (hcollect : ∀ o, c ≠ .collect (some o)) : Sound w' ∧ Effect w c r.ret w' :=
    ⟨hv.sound, .unchanged hv.data hv.old (fun _ _ _ he => absurd he (hnew _ _ _))
      fun _ he => absurd he (hcollect _)⟩
  cases c with
  | new o n t =>
    cases h
    exact new_effect hw o n t
  | lookup o n =>
    cases h
    exact hreads (lookup_onlyReads w o n) nofun nofun
  | directory p o n =>
    cases h
    exact hreads (directory_onlyReads w p o n) nofun nofun
  | givetreats id t =>
    cases h
    exact hwrites (givetreats_keeps hw id t) nofun nofun
  | howsdoing id =>
    obtain ⟨⟨ret, st, v⟩, he, h⟩ := Option.map_eq_some_iff.mp h
    obtain ⟨-, rfl⟩ := Prod.mk.inj h
    exact hwrites (howsdoing_keeps hw he) nofun nofun
  | readentry id =>
    obtain ⟨⟨ret, o, n, p, v⟩, he, h⟩ := Option.map_eq_some_iff.mp h
    obtain ⟨-, rfl⟩ := Prod.mk.inj h
    exact hreads (readentry_onlyReads he) nofun nofun
  | collect o =>
    obtain ⟨⟨ret, v⟩, he, h⟩ := Option.map_eq_some_iff.mp h
    obtain ⟨rfl, rfl⟩ := Prod.mk.inj h
    cases o with
    | none =>
      cases he
      exact hreads (.refl w) nofun nofun
    | some o => exact collect_effect hw he

end Hamster.Store.Faults
