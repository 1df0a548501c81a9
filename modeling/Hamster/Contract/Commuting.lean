import Hamster.Contract.Integrity
import Hamster.Store.Fields

/-!
# The order of unrelated requests does not matter

The four functions that change the database, over a database that is whole. On
the list of its entries each of them gives a reply and leaves a list; calls about
different hamsters or owners do not disturb each other's reply, and the lists
they leave in either order are the same, but for the order of two new entries.
-/
namespace Hamster.Contract.Commuting

open Lib.Bytes Lib.Clock Lib.Posix Lib.Rows Lib.Runs Store Store.Entry Store.Library Store.Scans
  Store.CollectScan Store.Outcomes Store.Fields

/-! ## Calls that change the database -/

inductive Mutation
  | new (ownerName hamsterName : CString) (treats : BitVec 16)
  | howsdoing (id : BitVec 32)
  | givetreats (id : BitVec 32) (treats : BitVec 16)
  | collect (ownerName : Option CString)
  deriving DecidableEq

namespace Mutation

def call : Mutation → Call Int
  | .new o n t => .new o n t
  | .howsdoing id => .howsdoing id
  | .givetreats id t => .givetreats id t
  | .collect o => .collect o

/-- The hamster a call asks after or feeds. -/
def id? : Mutation → Option (BitVec 32)
  | .howsdoing id | .givetreats id _ => some id
  | .new _ _ _ | .collect _ => none

end Mutation

/-- The two calls concern different hamsters or owners, in a database of the
entries `hs`. -/
inductive Independent (hs : List Hamsterdesc) : Mutation → Mutation → Prop
  | visits {a b : Mutation} {i j : BitVec 32} (ha : a.id? = some i) (hb : b.id? = some j)
      (hne : i ≠ j) : Independent hs a b
  | collects {o o' : Option CString} (hne : o ≠ o') : Independent hs (.collect o) (.collect o')
  | newCollect {o n : CString} {t : BitVec 16} {o' : Option CString} (hne : some o ≠ o') :
      Independent hs (.new o n t) (.collect o')
  | newVisit {o n : CString} {t : BitVec 16} {b : Mutation} {i : BitVec 32} (hb : b.id? = some i)
      (hne : i ≠ makeHash o n) : Independent hs (.new o n t) b
  | collectVisit {o : Option CString} {b : Mutation} {i : BitVec 32} (hb : b.id? = some i)
      (hne : ∀ h ∈ hs, h.uid = i → some h.ownerStr ≠ o) : Independent hs (.collect o) b
  | news {o n o' n' : CString} {t t' : BitVec 16} (hne : (o, n) ≠ (o', n')) :
      Independent hs (.new o n t) (.new o' n' t')

/-- Both calls, one after the other: their replies and the world they leave. -/
def inOrder (w : World) (a b : Mutation) : Option (Reply × Reply × World) :=
  (a.call.exec w).bind fun (ra, v) => (b.call.exec v).map fun (rb, u) => (ra, rb, u)

/-- A file system that does not fail, with a database that is there and whole. -/
structure Orderly (w : World) : Prop where
  reliable : w.Reliable
  apart : FilesApart w
  present : w.names .datafile ≠ none
  whole : ∀ ino, w.names .datafile = some ino → damage (w.inodes ino) = []

/-- The same bytes under both names, except that two admissions may have swapped
their records. -/
def SameFiles (now : Timestamp) (a b : Mutation) (v w : World) : Prop :=
  v.content .intermediateFile = w.content .intermediateFile ∧
    (v.content .datafile = w.content .datafile ∨
      ∃ o n t o' n' t' bytes, a = .new o n t ∧ b = .new o' n' t' ∧
        v.content .datafile = some (bytes ++ (newEntry now o n t).toBytes ++
          (newEntry now o' n' t').toBytes) ∧
        w.content .datafile = some (bytes ++ (newEntry now o' n' t').toBytes ++
          (newEntry now o n t).toBytes))

/-- Either order fails the assertion on the clock, or either gives both calls the
same replies and leaves the same files. -/
def Commute (w : World) (a b : Mutation) : Prop :=
  (inOrder w a b = none ∧ inOrder w b a = none) ∨
    ∃ ra rb v u, inOrder w a b = some (ra, rb, v) ∧ inOrder w b a = some (rb, ra, u) ∧
      SameFiles w.now a b v u

/-! ## On the list of entries -/

/-- The two files: the entries of the one, the bytes of the other, if it exists. -/
@[ext] structure Files where
  hs : List Hamsterdesc
  backup : Option (List Byte)

namespace Files
variable (now : Timestamp) (f : Files)

/-- What the first entry of an id has to say, or that there is none. -/
def replyOf (id : BitVec 32) (missing : OutArgs) (answer : Hamsterdesc → Option Reply) :
    Option Reply :=
  (f.hs.find? (byId id)).elim (some ⟨hmstrErrNotFound, missing⟩) answer

def reply : Mutation → Option Reply
  | .new o n _ => some ⟨
      if tooLong o || tooLong n then hmstrErrNameTooLong
      else if (f.hs.find? (byName o n)).isSome then hmstrErrExists
      else makeHash o n, .none⟩
  | .howsdoing id => f.replyOf id (.state blankState) fun h =>
      (getRounds now h.admissionTime).map fun r => ⟨0, .state (stateOf (inquire h) r)⟩
  | .givetreats id t => f.replyOf id .none fun h => some ⟨(feed h t).treatsLeft.setWidth 32, .none⟩
  | .collect none => some ⟨hmstrErrNotFound, .none⟩
  | .collect (some o) =>
      if tooLong o then some ⟨hmstrErrNameTooLong, .none⟩
      else (charges now o f.hs).map fun cs =>
        ⟨if (owned o f.hs).isEmpty then hmstrErrNotFound else cs.sum, .none⟩

def patched (id : BitVec 32) (g : Hamsterdesc → Hamsterdesc) : Files :=
  { f with hs := patchFirst (byId id) g f.hs }

/-- `hmstr_new` adds an entry. -/
def Admits (o n : CString) : Prop :=
  (tooLong o || tooLong n) = false ∧ f.hs.find? (byName o n) = none

instance (o n : CString) : Decidable (f.Admits o n) := inferInstanceAs (Decidable (_ ∧ _))

def next : Mutation → Files
  | .new o n t => if f.Admits o n then { f with hs := f.hs ++ [newEntry now o n t] } else f
  | .howsdoing id => f.patched id inquire
  | .givetreats id t => f.patched id (feed · t)
  | .collect none => f
  | .collect (some o) => if tooLong o then f else ⟨others o f.hs, none⟩

end Files

/-! ## The library does just that -/

/-- The files of a world in order. -/
structure Holds (w : World) (f : Files) : Prop extends Orderly w where
  listed : storeEntries w = f.hs
  backup : w.content .intermediateFile = f.backup

section Library
variable {w : World} {f : Files} {ino : Nat}

theorem Holds.bytes (h : Holds w f) (hn : w.names .datafile = some ino) :
    w.inodes ino = image f.hs := by
  have himage := image_entries (w.inodes ino)
  rw [h.whole ino hn, List.append_nil, ← storeEntries_present hn, h.listed] at himage
  exact himage.symm

theorem Holds.content (h : Holds w f) : w.content .datafile = some (image f.hs) := by
  obtain ⟨ino, hn⟩ := Option.ne_none_iff_exists'.mp h.present
  rw [content_of_name hn, h.bytes hn]

/-- The database written anew, in place. -/
theorem Holds.setInode (h : Holds w f) (hn : w.names .datafile = some ino) (hs : List Hamsterdesc) :
    Holds (w.setInode ino (image hs)) { f with hs := hs } where
  reliable := h.reliable
  apart := ⟨h.apart.old, h.apart.apart⟩
  present := h.present
  whole j hj := by
    obtain rfl : ino = j := Option.some.inj (hn.symm.trans hj)
    rw [Sys.setInode_inodes, Function.update_self, damage_image]
  listed := by
    rw [storeEntries_present (w := w.setInode ino (image hs)) hn, Sys.setInode_inodes,
      Function.update_self, entries_image]
  backup := by
    rw [← h.backup, Sys.content, Sys.content, Sys.setInode_names, Sys.setInode_inodes]
    cases hi : w.names .intermediateFile with
    | none => rfl
    | some j =>
      have hne : j ≠ ino := by
        rintro rfl
        exact h.apart.apart j hn hi
      rw [Option.map_some, Option.map_some, Function.update_of_ne hne]

theorem Holds.collected (h : Holds w f) (hs : List Hamsterdesc) :
    Holds (((renewed w ino).setInode w.nextIno (image hs)).setName .intermediateFile none)
      ⟨hs, none⟩ := by
  have hname : (((renewed w ino).setInode w.nextIno (image hs)).setName .intermediateFile
      none).names .datafile = some w.nextIno := by simp [renewed, renamed]
  have hgone : (((renewed w ino).setInode w.nextIno (image hs)).setName .intermediateFile
      none).names .intermediateFile = none := by simp
  have hbytes : (((renewed w ino).setInode w.nextIno (image hs)).setName .intermediateFile
      none).inodes w.nextIno = image hs := by simp
  refine ⟨⟨h.reliable, ⟨?_, ?_⟩, by rw [hname]; exact Option.some_ne_none _, ?_⟩, ?_, ?_⟩
  · intro j hj
    obtain rfl : w.nextIno = j := Option.some.inj (hname.symm.trans hj)
    exact Nat.lt_succ_self _
  · intro j _ hj
    rw [hgone] at hj
    cases hj
  · intro j hj
    obtain rfl : w.nextIno = j := Option.some.inj (hname.symm.trans hj)
    rw [hbytes, damage_image]
  · rw [storeEntries_present hname, hbytes, entries_image]
  · rw [Sys.content, hgone]
    rfl

/-- What the library does to the files of `w`, `f` does too. -/
def Follows (w : World) (f : Files) (m : Mutation) : Prop :=
  m.call.exec w = none ∧ f.reply w.now m = none ∨
    ∃ r w', m.call.exec w = some (r, w') ∧ f.reply w.now m = some r ∧ w'.now = w.now ∧
      Holds w' (f.next w.now m)

theorem new_follows (h : Holds w f) (o n : CString) (t : BitVec 16) : Follows w f (.new o n t) := by
  right
  have hkeep : ¬ f.Admits o n → Holds w (f.next w.now (.new o n t)) := fun hno => by
    rw [Files.next, if_neg hno]
    exact h
  cases hl : tooLong o || tooLong n with
  | true =>
    refine ⟨_, w, ?_, rfl, rfl, hkeep fun hc => absurd (hl.symm.trans hc.1) (by decide)⟩
    simp only [Mutation.call, exec_new, hmstrNew, hl, ↓reduceIte]
  | false =>
    obtain ⟨ino, hn⟩ := Option.ne_none_iff_exists'.mp h.present
    have hcall := new_present h.reliable hn hl t
    rw [h.whole ino hn, if_pos rfl, ← storeEntries_present hn, h.listed, h.bytes hn] at hcall
    simp only [Mutation.call, exec_new, Files.reply, hl, Bool.false_eq_true, ↓reduceIte]
    cases hf : f.hs.find? (byName o n) with
    | some x =>
      simp only [hf, Option.isSome_some, ↓reduceIte] at hcall
      rw [hcall]
      exact ⟨_, w, rfl, rfl, rfl, hkeep fun hc => absurd (hf.symm.trans hc.2) (by simp)⟩
    | none =>
      simp only [hf, Option.isSome_none, Bool.false_eq_true, ↓reduceIte] at hcall
      rw [hcall]
      refine ⟨_, _, rfl, rfl, rfl, ?_⟩
      rw [Files.next, if_pos ⟨hl, hf⟩]
      have hset := h.setInode hn (f.hs ++ [newEntry w.now o n t])
      rw [image_append, image_cons, image_nil, List.append_nil] at hset
      exact hset

/-- A patch of the first entry of an id. -/
theorem Holds.patched (h : Holds w f) (hn : w.names .datafile = some ino) (id : BitVec 32)
    (g : Hamsterdesc → Hamsterdesc) :
    Holds (w.setInode ino (image (updateFirst id g (entries (w.inodes ino))) ++
      damage (w.inodes ino))) (f.patched id g) := by
  have hset := h.setInode hn (patchFirst (byId id) g f.hs)
  rw [h.whole ino hn, List.append_nil, ← storeEntries_present hn, h.listed]
  exact hset

/-- Where no entry has the id there is nothing to patch. -/
theorem patched_of_none {id : BitVec 32} {g : Hamsterdesc → Hamsterdesc}
    (hf : f.hs.find? (byId id) = none) : f.patched id g = f := by
  have hno : ∀ x ∈ f.hs, byId id x = false := fun x hx => by
    simpa using List.find?_eq_none.mp hf x hx
  have hsame : patchFirst (byId id) g f.hs = f.hs := updateFirst_of_none hno
  rw [Files.patched, hsame]

theorem givetreats_follows (h : Holds w f) (id : BitVec 32) (t : BitVec 16) :
    Follows w f (.givetreats id t) := by
  obtain ⟨ino, hn⟩ := Option.ne_none_iff_exists'.mp h.present
  have hcall := givetreats_present h.reliable hn id t
  have hworld := h.patched hn id (feed · t)
  refine .inr ⟨_, _, exec_givetreats w id t, ?_, by rw [hcall]; rfl, by rw [hcall]; exact hworld⟩
  rw [hcall, ← storeEntries_present hn, h.listed, Files.reply, Files.replyOf]
  cases f.hs.find? (byId id) <;> rfl

theorem howsdoing_follows (h : Holds w f) (id : BitVec 32) : Follows w f (.howsdoing id) := by
  obtain ⟨ino, hn⟩ := Option.ne_none_iff_exists'.mp h.present
  have hcall := howsdoing_present h.reliable hn id blankState
  have hworld := h.patched hn id inquire
  rw [← storeEntries_present hn, h.listed] at hcall hworld
  simp only [Follows, Mutation.call, exec_howsdoing, Files.reply, Files.replyOf, hcall, Files.next]
  cases hf : f.hs.find? (byId id) with
  | none =>
    rw [patched_of_none hf]
    exact .inr ⟨_, w, rfl, rfl, rfl, h⟩
  | some x =>
    simp only [Option.elim]
    cases getRounds w.now x.admissionTime with
    | none => exact .inl ⟨rfl, rfl⟩
    | some r => exact .inr ⟨_, _, rfl, rfl, rfl, hworld⟩

theorem collect_follows (h : Holds w f) (o : Option CString) : Follows w f (.collect o) := by
  cases o with
  | none => exact .inr ⟨_, w, rfl, rfl, rfl, h⟩
  | some o =>
    cases hl : tooLong o with
    | true =>
      refine .inr ⟨_, w, ?_, by rw [Files.reply, if_pos hl], rfl, by rw [Files.next, if_pos hl]; exact h⟩
      simp only [Mutation.call, exec_collect, hmstrCollect, hl, ↓reduceIte, Option.map_some]
    | false =>
      obtain ⟨ino, hn⟩ := Option.ne_none_iff_exists'.mp h.present
      have hcall := collect_present h.reliable hn (h.apart.apart ino hn) (h.apart.old ino hn) hl
      rw [h.whole ino hn, ← storeEntries_present hn, h.listed] at hcall
      simp only [Follows, Mutation.call, exec_collect, Files.reply, Files.next, hcall, hl,
        Bool.false_eq_true, ↓reduceIte]
      cases charges w.now o f.hs with
      | none => exact .inl ⟨rfl, rfl⟩
      | some cs => exact .inr ⟨_, _, rfl, rfl, rfl, h.collected (others o f.hs)⟩

theorem follows (h : Holds w f) (m : Mutation) : Follows w f m := by
  cases m with
  | new o n t => exact new_follows h o n t
  | howsdoing id => exact howsdoing_follows h id
  | givetreats id t => exact givetreats_follows h id t
  | collect o => exact collect_follows h o

end Library

/-! ## Calls about different entries -/

section Apart
variable {now : Timestamp} {f : Files} {o n : CString} {t : BitVec 16} {i j : BitVec 32}
  {g g' : Hamsterdesc → Hamsterdesc}

/-- A call with an id, as a search and a patch. -/
theorem visit_of_id {m : Mutation} (hm : m.id? = some i) (now : Timestamp) :
    ∃ g missing answer, KeepsIdentity g ∧ ∀ f : Files,
      f.reply now m = f.replyOf i missing answer ∧ f.next now m = f.patched i g := by
  cases m with
  | new _ _ _ => cases hm
  | collect _ => cases hm
  | howsdoing id =>
    cases hm
    exact ⟨_, _, _, keepsIdentity_inquire, fun f => ⟨rfl, rfl⟩⟩
  | givetreats id t =>
    cases hm
    exact ⟨_, _, _, keepsIdentity_feed t, fun f => ⟨rfl, rfl⟩⟩

theorem byId_ne (hne : i ≠ j) {h : Hamsterdesc} (hi : byId i h = true) : byId j h = false := by
  simp only [byId, decide_eq_true_eq, decide_eq_false_iff_not] at hi ⊢
  rw [hi]
  exact hne

theorem replyOf_patched (hg : KeepsIdentity g) (hne : i ≠ j) (missing : OutArgs)
    (answer : Hamsterdesc → Option Reply) :
    (f.patched i g).replyOf j missing answer = f.replyOf j missing answer := by
  have hfind : (patchFirst (byId i) g f.hs).find? (byId j) = f.hs.find? (byId j) := by
    apply find?_patchFirst
    intro h _ hi
    exact ⟨byId_ne hne hi, by rw [hg.byId]; exact byId_ne hne hi⟩
  rw [Files.replyOf, Files.replyOf, Files.patched, hfind]

theorem patched_comm (hg : KeepsIdentity g) (hg' : KeepsIdentity g') (hne : i ≠ j) :
    (f.patched i g).patched j g' = (f.patched j g').patched i g := by
  have hcomm := patchFirst_comm (p := byId j) (q := byId i) (f := g') (g := g)
    (fun h hj => byId_ne hne.symm hj) (hg'.byId i) (hg.byId j) f.hs
  rw [Files.patched, Files.patched, Files.patched, Files.patched, hcomm]

theorem admits_patched (hg : KeepsIdentity g) : (f.patched i g).Admits o n ↔ f.Admits o n := by
  refine and_congr_right fun hl => ?_
  have hsome := isSome_find?_patchFirst (hg.byName hl) (byId i) f.hs
  rw [← Option.not_isSome_iff_eq_none, ← Option.not_isSome_iff_eq_none, Files.patched, hsome]

theorem reply_new_patched (hg : KeepsIdentity g) :
    (f.patched i g).reply now (.new o n t) = f.reply now (.new o n t) := by
  cases hl : tooLong o || tooLong n with
  | true => simp only [Files.reply, hl, ↓reduceIte]
  | false =>
    have hsome := isSome_find?_patchFirst (hg.byName hl) (byId i) f.hs
    simp only [Files.reply, Files.patched, hl, hsome]

theorem byId_newEntry (hne : i ≠ makeHash o n) (now : Timestamp) (t : BitVec 16) :
    byId i (newEntry now o n t) = false := by
  simp only [byId, decide_eq_false_iff_not]
  exact fun he => hne he.symm

theorem replyOf_next_new (hne : i ≠ makeHash o n) (missing : OutArgs)
    (answer : Hamsterdesc → Option Reply) :
    (f.next now (.new o n t)).replyOf i missing answer = f.replyOf i missing answer := by
  rw [Files.next]
  split
  · rw [Files.replyOf, Files.replyOf, find?_append_of_neg (byId_newEntry hne now t)]
  · rfl

theorem next_new_patched (hg : KeepsIdentity g) (hne : i ≠ makeHash o n) :
    (f.patched i g).next now (.new o n t) = (f.next now (.new o n t)).patched i g := by
  simp only [Files.next, admits_patched hg]
  split
  · simp only [Files.patched, patchFirst_append_of_neg (byId_newEntry hne now t)]
  · rfl

/-- The entry a visit is about stays when `o` collects. -/
theorem stays_of (hne : ∀ h ∈ f.hs, h.uid = i → some h.ownerStr ≠ some o) :
    ∀ h ∈ f.hs, byId i h = true → h.ownerStr ≠ o := by
  intro h hm hi he
  rw [byId, decide_eq_true_eq] at hi
  exact hne h hm hi (congrArg some he)

theorem owned_patched (hg : KeepsIdentity g) (hl : tooLong o = false)
    (hstay : ∀ h ∈ f.hs, byId i h = true → h.ownerStr ≠ o) :
    owned o (f.patched i g).hs = owned o f.hs := by
  apply filter_patchFirst_of_gone
  intro h hm hi
  have hne := hstay h hm hi
  exact ⟨by simpa using hne, by simpa [hg.ownerStr hl] using hne⟩

theorem others_patched (hg : KeepsIdentity g) (hl : tooLong o = false)
    (hstay : ∀ h ∈ f.hs, byId i h = true → h.ownerStr ≠ o) :
    others o (f.patched i g).hs = patchFirst (byId i) g (others o f.hs) := by
  apply filter_patchFirst_of_kept
  intro h hm hi
  have hne := hstay h hm hi
  exact ⟨by simpa using hne, by simpa [hg.ownerStr hl] using hne⟩

theorem charges_of_owned {hs hs' : List Hamsterdesc} (h : owned o hs = owned o hs') :
    charges now o hs = charges now o hs' := by rw [charges, charges, h]

theorem reply_collect_patched (hg : KeepsIdentity g) {o : Option CString}
    (hne : ∀ h ∈ f.hs, h.uid = i → some h.ownerStr ≠ o) :
    (f.patched i g).reply now (.collect o) = f.reply now (.collect o) := by
  cases o with
  | none => rfl
  | some o =>
    cases hl : tooLong o with
    | true => simp only [Files.reply, hl, ↓reduceIte]
    | false =>
      have hown := owned_patched hg hl (stays_of hne)
      simp only [Files.reply, charges_of_owned hown, hown]

theorem replyOf_next_collect {o : Option CString}
    (hne : ∀ h ∈ f.hs, h.uid = i → some h.ownerStr ≠ o) (missing : OutArgs)
    (answer : Hamsterdesc → Option Reply) :
    (f.next now (.collect o)).replyOf i missing answer = f.replyOf i missing answer := by
  cases o with
  | none => rfl
  | some o =>
    rw [Files.next]
    split
    · rfl
    · have hfind : (others o f.hs).find? (byId i) = f.hs.find? (byId i) := by
        apply find?_filter_of_kept
        intro h hm hi
        simpa using stays_of hne h hm hi
      rw [Files.replyOf, Files.replyOf, hfind]

theorem next_collect_patched (hg : KeepsIdentity g) {o : Option CString}
    (hne : ∀ h ∈ f.hs, h.uid = i → some h.ownerStr ≠ o) :
    (f.patched i g).next now (.collect o) = (f.next now (.collect o)).patched i g := by
  cases o with
  | none => rfl
  | some o =>
    cases hl : tooLong o with
    | true => simp only [Files.next, hl, ↓reduceIte]
    | false =>
      have hkept := others_patched hg hl (stays_of hne)
      simp only [Files.next, hl, Bool.false_eq_true, ↓reduceIte, hkept]
      rfl

theorem owned_next_new {o' : CString} (hne : o ≠ o') :
    owned o' (f.next now (.new o n t)).hs = owned o' f.hs := by
  rw [Files.next]
  split
  next ha =>
    have hstr := newEntry_ownerStr now t (fits_of_or ha.1).1 n
    rw [owned, owned, List.filter_append, List.filter_cons_of_neg (by simp [hstr, hne]),
      List.filter_nil, List.append_nil]
  next => rfl

theorem reply_collect_next_new {o' : Option CString} (hne : some o ≠ o') :
    (f.next now (.new o n t)).reply now (.collect o') = f.reply now (.collect o') := by
  cases o' with
  | none => rfl
  | some o' =>
    have hown : owned o' (f.next now (.new o n t)).hs = owned o' f.hs :=
      owned_next_new fun he => hne (congrArg some he)
    simp only [Files.reply, charges_of_owned hown, hown]

theorem find?_byName_others {o' : CString} (hne : o ≠ o') (hs : List Hamsterdesc) :
    (others o' hs).find? (byName o n) = hs.find? (byName o n) := by
  apply find?_filter_of_kept
  intro h _ hb
  simp only [byName, Bool.and_eq_true, decide_eq_true_eq] at hb
  simpa [hb.1] using hne

theorem reply_new_next_collect {o' : Option CString} (hne : some o ≠ o') :
    (f.next now (.collect o')).reply now (.new o n t) = f.reply now (.new o n t) := by
  cases o' with
  | none => rfl
  | some o' =>
    rw [Files.next]
    split
    · rfl
    · rw [Files.reply, Files.reply, find?_byName_others fun he => hne (congrArg some he)]

theorem next_new_collect {o' : Option CString} (hne : some o ≠ o') :
    (f.next now (.collect o')).next now (.new o n t) =
      (f.next now (.new o n t)).next now (.collect o') := by
  cases o' with
  | none => rfl
  | some o' =>
    have hne' : o ≠ o' := fun he => hne (congrArg some he)
    cases hl : tooLong o' with
    | true => simp only [Files.next, hl, ↓reduceIte]
    | false =>
      have hadmits : Files.Admits ⟨others o' f.hs, none⟩ o n ↔ f.Admits o n := by
        rw [Files.Admits, Files.Admits, find?_byName_others hne']
      simp only [Files.next, hl, Bool.false_eq_true, ↓reduceIte, hadmits]
      split
      next ha =>
        have hstr := newEntry_ownerStr now t (fits_of_or ha.1).1 n
        simp [others, List.filter_append, hstr, hne']
      next => rfl

theorem owned_others {o' : CString} (hne : o ≠ o') (hs : List Hamsterdesc) :
    owned o (others o' hs) = owned o hs := by
  rw [owned, owned, others, List.filter_filter]
  apply List.filter_congr
  intro h _
  by_cases he : h.ownerStr = o
  · simp [he, hne]
  · simp [he]

theorem reply_collect_next_collect {o o' : Option CString} (hne : o ≠ o') :
    (f.next now (.collect o')).reply now (.collect o) = f.reply now (.collect o) := by
  cases o' with
  | none => rfl
  | some o' =>
    rw [Files.next]
    split
    · rfl
    · cases o with
      | none => rfl
      | some o =>
        have hown := owned_others (fun he => hne (congrArg some he)) f.hs
        simp only [Files.reply, charges_of_owned hown, hown]

theorem next_collect_comm (o o' : Option CString) :
    (f.next now (.collect o)).next now (.collect o') =
      (f.next now (.collect o')).next now (.collect o) := by
  cases o with
  | none => rfl
  | some o =>
    cases o' with
    | none => rfl
    | some o' =>
      simp only [Files.next]
      split <;> split
      · rfl
      · rfl
      · rfl
      · rw [others, others, others, others, filter_comm]

theorem admits_next_new {o' n' : CString} (hne : (o, n) ≠ (o', n')) :
    (f.next now (.new o n t)).Admits o' n' ↔ f.Admits o' n' := by
  rw [Files.next]
  split
  next ha =>
    have hother : byName o' n' (newEntry now o n t) = false := by
      rw [byName_newEntry now t ha.1]
      exact decide_eq_false hne
    rw [Files.Admits, Files.Admits, find?_append_of_neg hother]
  next => rfl

theorem reply_new_next_new {o' n' : CString} {t' : BitVec 16} (hne : (o, n) ≠ (o', n')) :
    (f.next now (.new o n t)).reply now (.new o' n' t') = f.reply now (.new o' n' t') := by
  rw [Files.next]
  split
  next ha =>
    have hother : byName o' n' (newEntry now o n t) = false := by
      rw [byName_newEntry now t ha.1]
      exact decide_eq_false hne
    rw [Files.reply, Files.reply, find?_append_of_neg hother]
  next => rfl

/-- Both entries are added, in the order of the calls, or at most one. -/
theorem next_new_new {o' n' : CString} {t' : BitVec 16} (hne : (o, n) ≠ (o', n')) :
    (f.next now (.new o n t)).next now (.new o' n' t') =
        (f.next now (.new o' n' t')).next now (.new o n t) ∨
      (f.next now (.new o n t)).next now (.new o' n' t') =
          { f with hs := f.hs ++ [newEntry now o n t] ++ [newEntry now o' n' t'] } ∧
        (f.next now (.new o' n' t')).next now (.new o n t) =
          { f with hs := f.hs ++ [newEntry now o' n' t'] ++ [newEntry now o n t] } := by
  have hfirst : (f.next now (.new o n t)).Admits o' n' ↔ f.Admits o' n' := admits_next_new hne
  have hsecond : (f.next now (.new o' n' t')).Admits o n ↔ f.Admits o n :=
    admits_next_new hne.symm
  have hnext (x : Files) (o n : CString) (t : BitVec 16) : x.next now (.new o n t) =
      if x.Admits o n then { x with hs := x.hs ++ [newEntry now o n t] } else x := rfl
  rw [hnext (f.next now (.new o n t)), hnext (f.next now (.new o' n' t'))]
  simp only [hfirst, hsecond]
  by_cases ha : f.Admits o n <;> by_cases ha' : f.Admits o' n'
  · exact .inr ⟨by simp [Files.next, ha, ha'], by simp [Files.next, ha, ha']⟩
  · exact .inl (by simp [Files.next, ha, ha'])
  · exact .inl (by simp [Files.next, ha, ha'])
  · exact .inl (by simp [Files.next, ha, ha'])

end Apart

/-! ## Independent calls -/

section Independent
variable {w : World} {now : Timestamp} {f : Files} {a b : Mutation}

/-- Neither call changes what the other replies. -/
theorem replies_of_independent (h : Independent f.hs a b) (now : Timestamp) :
    (f.next now b).reply now a = f.reply now a ∧ (f.next now a).reply now b = f.reply now b := by
  cases h with
  | visits ha hb hne =>
    obtain ⟨g, missing, answer, hg, hm⟩ := visit_of_id ha now
    obtain ⟨g', missing', answer', hg', hm'⟩ := visit_of_id hb now
    simp only [hm, hm', replyOf_patched hg' hne.symm, replyOf_patched hg hne, and_self]
  | collects hne => exact ⟨reply_collect_next_collect hne, reply_collect_next_collect hne.symm⟩
  | newCollect hne => exact ⟨reply_new_next_collect hne, reply_collect_next_new hne⟩
  | newVisit hb hne =>
    obtain ⟨g, missing, answer, hg, hm⟩ := visit_of_id hb now
    simp only [hm, reply_new_patched hg, replyOf_next_new hne, and_self]
  | collectVisit hb hne =>
    obtain ⟨g, missing, answer, hg, hm⟩ := visit_of_id hb now
    simp only [hm, reply_collect_patched hg hne, replyOf_next_collect hne, and_self]
  | news hne => exact ⟨reply_new_next_new hne.symm, reply_new_next_new hne⟩

/-- Either order leaves the same entries, or those of two admissions swapped. -/
theorem next_of_independent (h : Independent f.hs a b) (now : Timestamp) :
    (f.next now a).next now b = (f.next now b).next now a ∨
      ∃ o n t o' n' t', a = .new o n t ∧ b = .new o' n' t' ∧
        (f.next now a).next now b =
          { f with hs := f.hs ++ [newEntry now o n t] ++ [newEntry now o' n' t'] } ∧
        (f.next now b).next now a =
          { f with hs := f.hs ++ [newEntry now o' n' t'] ++ [newEntry now o n t] } := by
  cases h with
  | visits ha hb hne =>
    obtain ⟨g, missing, answer, hg, hm⟩ := visit_of_id ha now
    obtain ⟨g', missing', answer', hg', hm'⟩ := visit_of_id hb now
    left
    simp only [hm, hm', patched_comm hg hg' hne]
  | collects hne => exact .inl (next_collect_comm _ _)
  | newCollect hne => exact .inl (next_new_collect hne).symm
  | newVisit hb hne =>
    obtain ⟨g, missing, answer, hg, hm⟩ := visit_of_id hb now
    left
    simp only [hm, next_new_patched hg hne]
  | collectVisit hb hne =>
    obtain ⟨g, missing, answer, hg, hm⟩ := visit_of_id hb now
    left
    simp only [hm, next_collect_patched hg hne]
  | news hne =>
    rcases next_new_new hne with he | ⟨hab, hba⟩
    · exact .inl he
    · exact .inr ⟨_, _, _, _, _, _, rfl, rfl, hab, hba⟩

/-- The library's two calls, on the list of entries. -/
theorem inOrder_follows (h : Holds w f) (a b : Mutation) :
    (inOrder w a b = none ∧
        (f.reply w.now a = none ∨ (f.next w.now a).reply w.now b = none)) ∨
      ∃ ra rb v, inOrder w a b = some (ra, rb, v) ∧ f.reply w.now a = some ra ∧
        (f.next w.now a).reply w.now b = some rb ∧
        Holds v ((f.next w.now a).next w.now b) := by
  rcases follows h a with ⟨hexec, hreply⟩ | ⟨ra, v, hexec, hreply, hnow, hv⟩
  · exact .inl ⟨by rw [inOrder, hexec]; rfl, .inl hreply⟩
  · have hsecond := follows hv b
    rw [Follows, hnow] at hsecond
    rcases hsecond with ⟨hexec', hreply'⟩ | ⟨rb, u, hexec', hreply', -, hu⟩
    · refine .inl ⟨?_, .inr hreply'⟩
      simp only [inOrder, hexec, Option.bind_some, hexec', Option.map_none]
    · refine .inr ⟨ra, rb, u, ?_, hreply, hreply', hu⟩
      simp only [inOrder, hexec, Option.bind_some, hexec', Option.map_some]

theorem sameFiles_of_holds {v u : World} (h : Independent f.hs a b)
    (hv : Holds v ((f.next now a).next now b)) (hu : Holds u ((f.next now b).next now a)) :
    SameFiles now a b v u := by
  rcases next_of_independent h now with he | ⟨o, n, t, o', n', t', ha, hb, hab, hba⟩
  · rw [he] at hv
    exact ⟨hv.backup.trans hu.backup.symm, .inl (hv.content.trans hu.content.symm)⟩
  · rw [hab] at hv
    rw [hba] at hu
    refine ⟨hv.backup.trans hu.backup.symm,
      .inr ⟨o, n, t, o', n', t', image f.hs, ha, hb, ?_, ?_⟩⟩
    · rw [hv.content]
      simp
    · rw [hu.content]
      simp

theorem commute_of_holds (hw : Holds w f) (h : Independent f.hs a b) : Commute w a b := by
  obtain ⟨hfirst, hsecond⟩ := replies_of_independent h w.now
  have hab := inOrder_follows hw a b
  have hba := inOrder_follows hw b a
  rw [hsecond] at hab
  rw [hfirst] at hba
  rcases hab with ⟨hno, hreply⟩ | ⟨ra, rb, v, hex, ha, hb, hv⟩
  · rcases hba with ⟨hno', -⟩ | ⟨rb, ra, u, -, hb, ha, -⟩
    · exact .inl ⟨hno, hno'⟩
    · rcases hreply with hnone | hnone
      · rw [ha] at hnone
        cases hnone
      · rw [hb] at hnone
        cases hnone
  · rcases hba with ⟨-, hreply⟩ | ⟨rb', ra', u, hex', hb', ha', hu⟩
    · rcases hreply with hnone | hnone
      · rw [hb] at hnone
        cases hnone
      · rw [ha] at hnone
        cases hnone
    · obtain rfl : ra = ra' := Option.some.inj (ha.symm.trans ha')
      obtain rfl : rb = rb' := Option.some.inj (hb.symm.trans hb')
      exact .inr ⟨ra, rb, v, u, hex, hex', sameFiles_of_holds h hv hu⟩

end Independent

/-- On every database in order, at any time, independent calls commute; its ids
need not even be distinct. -/
theorem independent_commute {w : World} (hw : Orderly w) {a b : Mutation}
    (h : Independent (storeEntries w) a b) : Commute w a b :=
  commute_of_holds (f := ⟨storeEntries w, w.content .intermediateFile⟩) ⟨hw, rfl, rfl⟩ h

theorem orderly_ofOne {now : Timestamp} {o n : CString} {t : BitVec 16}
    (hl : (tooLong o || tooLong n) = false) : Orderly (Session.ofOne now o n t).world := by
  have hn : (Session.ofOne now o n t).world.names .datafile = some 0 := (Session.names_ofOne hl).1
  refine ⟨by rw [Session.ofOne_world hl]; rfl, Session.apart_ofOne hl, by rw [hn]; exact nofun,
    fun ino hino => ?_⟩
  obtain rfl : 0 = ino := Option.some.inj (hn.symm.trans hino)
  have hone := damage_image [newEntry now o n t]
  rw [image_cons, image_nil, List.append_nil] at hone
  rw [Session.ofOne_world hl, Sys.setInode_inodes, Function.update_self, hone]

/-- The owner of the one hamster leaves with it, another owner brings one. -/
theorem independent_commute_first :
    Commute (Session.ofOne .epoch Integrity.alice Integrity.bert 3).world
      (.new Integrity.bert Integrity.alice 1) (.collect (some Integrity.alice)) :=
  independent_commute (orderly_ofOne (by decide)) (.newCollect (by decide))

end Hamster.Contract.Commuting
