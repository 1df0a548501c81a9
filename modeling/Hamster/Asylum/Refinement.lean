import Hamster.Asylum.Machine
import Hamster.Store.Outcomes
import Hamster.Store.Session

/-!
# The library is the asylum

`Represents` says when a world and its handles stand for a state of the asylum.
Each call keeps it and answers what the asylum answers; the seven calls are
treated one by one, then a step, then a run.
-/
namespace Hamster.Asylum

open Lib.Bytes Lib.Clock Lib.Posix Lib.Runs Store Store.Entry Store.Library Store.Scans
  Store.CollectScan Store.Outcomes

/-! ## Representation -/

def Stored (w : World) : Option Register → Prop
  | none => w.names .datafile = none
  | some r => ∃ ino, w.names .datafile = some ino ∧ ino < w.nextIno ∧
      w.inodes ino = image (r.guests.map Guest.entry)

/-- What a handle's value means. A detached cursor has its own inode, which no
name leads to any more, so nothing is written there. -/
inductive StandsAt (w : World) (a : State) : Int → Cursor → Prop
  | closed : StandsAt w a (-1) .closed
  | live {fd ino pos : Nat} : w.names .datafile = some ino →
      w.fds.lookup fd = some (.file ino (96 * pos) false) → pos ≤ a.guests.length →
      StandsAt w a fd (.live pos)
  | detached {fd ino : Nat} {pre rest : List Guest} : w.names .datafile ≠ some ino →
      ino < w.nextIno → w.inodes ino = image ((pre ++ rest).map Guest.entry) →
      w.fds.lookup fd = some (.file ino (96 * pre.length) false) →
      StandsAt w a fd (.detached rest)

/-- A handle keeps its meaning when the inodes without a name and its own
descriptor are left alone and the register does not shrink. -/
theorem StandsAt.frame {w w' : World} {a a' : State} {q : Int} {c : Cursor} (h : StandsAt w a q c)
    (hn : ∀ ino, w.names .datafile = some ino → w'.names .datafile = some ino)
    (hn' : ∀ ino < w.nextIno, w.names .datafile ≠ some ino → w'.names .datafile ≠ some ino)
    (hx : w.nextIno ≤ w'.nextIno)
    (hi : ∀ ino < w.nextIno, w.names .datafile ≠ some ino → w'.inodes ino = w.inodes ino)
    (hf : ∀ fd : Nat, q = fd → w'.fds.lookup fd = w.fds.lookup fd)
    (hl : a.guests.length ≤ a'.guests.length) : StandsAt w' a' q c := by
  cases h with
  | closed => exact .closed
  | live hdata hd hp => exact .live (hn _ hdata) ((hf _ rfl).trans hd) (hp.trans hl)
  | detached hne hlt hc hd =>
    exact .detached (hn' _ hlt hne) (hlt.trans_le hx) ((hi _ hlt hne).trans hc)
      ((hf _ rfl).trans hd)

structure Represents (s : Session) (a : State) : Prop where
  reliable : s.world.Reliable
  intermediate : s.world.names .intermediateFile = none
  stored : Stored s.world a.register
  stands : ∀ v, StandsAt s.world a (s.handle v) (a.cursor v)
  apart : ∀ v v', 0 ≤ s.handle v → s.handle v = s.handle v' → v = v'

theorem represents_start {s : Session} (h : s.Fresh) : Represents s State.start where
  reliable := h.reliable
  intermediate := h.intermediateFile
  stored := h.datafile
  stands v := by rw [h.handles v]; exact .closed
  apart v v' hv := by rw [h.handles v] at hv; omega

section Frame
variable {w : World} {p : Nat → Int} {a : State} {ino : Nat}

theorem Represents.clockAt {s : Session} (h : Represents s a) (now : Timestamp) :
    Represents ⟨s.clockAt now, s.handle⟩ a where
  reliable := h.reliable
  intermediate := h.intermediate
  stored := by
    have hs := h.stored
    cases hreg : a.register with
    | none => rw [hreg] at hs; exact hs
    | some r => rw [hreg] at hs; exact hs
  stands v := (h.stands v).frame (fun _ h => h) (fun _ _ h => h) le_rfl (fun _ _ _ => rfl)
    (fun _ _ => rfl) le_rfl
  apart := h.apart

theorem guests_of_register {r : Register} (h : a.register = some r) : a.guests = r.guests := by
  rw [State.guests, h]; rfl

theorem Represents.present (h : Represents ⟨w, p⟩ a) {r : Register} (hreg : a.register = some r) :
    ∃ ino, w.names .datafile = some ino ∧ ino < w.nextIno ∧
      w.inodes ino = image (a.guests.map Guest.entry) := by
  have hs := h.stored
  rw [hreg] at hs
  rwa [guests_of_register hreg]

theorem Represents.absent (h : Represents ⟨w, p⟩ a) (hreg : a.register = none) :
    w.names .datafile = none ∧ a.guests = [] := by
  have hs := h.stored
  rw [hreg] at hs
  exact ⟨hs, by rw [State.guests, hreg]; rfl⟩

theorem Represents.absent_guests (h : Represents ⟨w, p⟩ a) (hn : w.names .datafile = none) :
    a.guests = [] := by
  cases hreg : a.register with
  | none => exact (h.absent hreg).2
  | some r =>
    obtain ⟨ino, hn', -⟩ := h.present hreg
    rw [hn'] at hn
    cases hn

theorem Represents.present_of_mem (h : Represents ⟨w, p⟩ a) {g : Guest} (hg : g ∈ a.guests) :
    ∃ ino, w.names .datafile = some ino ∧ ino < w.nextIno ∧
      w.inodes ino = image (a.guests.map Guest.entry) := by
  cases hreg : a.register with
  | none =>
    rw [(h.absent hreg).2] at hg
    cases hg
  | some r => exact h.present hreg

/-- Who has no handle need not know the descriptors. -/
theorem Represents.onlyReads {s : Session} {w' : World} (h : Represents s a)
    (hw : Sys.OnlyReads s.world w') :
    Represents ⟨w', fun _ => -1⟩ { a with cursor := fun _ => .closed } where
  reliable := hw.reliable h.reliable
  intermediate := by rw [hw.names]; exact h.intermediate
  stored := by
    have hs := h.stored
    cases hreg : a.register with
    | none =>
      rw [hreg] at hs
      exact (congrFun hw.names _).trans hs
    | some r =>
      rw [hreg] at hs
      obtain ⟨ino, hn, hlt, hc⟩ := hs
      exact ⟨ino, (congrFun hw.names _).trans hn, by rw [hw.nextIno]; exact hlt,
        (congrFun hw.inodes _).trans hc⟩
  stands _ := .closed
  apart _ _ hv := absurd hv (show ¬ (0 : Int) ≤ -1 by decide)

/-- The database rewritten in place, with no fewer entries. -/
theorem Represents.rewrite (h : Represents ⟨w, p⟩ a) (hn : w.names .datafile = some ino)
    (r : Register) (hlen : a.guests.length ≤ r.guests.length) :
    Represents ⟨w.setInode ino (image (r.guests.map Guest.entry)), p⟩
      { a with register := some r } where
  reliable := h.reliable
  intermediate := h.intermediate
  stored := by
    refine ⟨ino, hn, ?_, by simp⟩
    cases hreg : a.register with
    | none =>
      rw [(h.absent hreg).1] at hn
      cases hn
    | some r' =>
      obtain ⟨ino', hn', hlt, -⟩ := h.present hreg
      rw [hn'] at hn
      cases hn
      exact hlt
  stands v := (h.stands v).frame (fun _ h => h) (fun _ _ h => h) le_rfl
    (fun jno _ hne => Function.update_of_ne (fun he : jno = ino => hne (he.symm ▸ hn)) _ _)
    (fun _ _ => rfl) hlen
  apart := h.apart

/-- The first admission creates the database. -/
theorem Represents.created (h : Represents ⟨w, p⟩ a) (hn : w.names .datafile = none)
    (r : Register) :
    Represents ⟨(w.create .datafile).setInode w.nextIno (image (r.guests.map Guest.entry)), p⟩
      { a with register := some r } where
  reliable := h.reliable
  intermediate := by
    change Function.update w.names .datafile (some w.nextIno) .intermediateFile = none
    rw [Function.update_of_ne (by decide)]
    exact h.intermediate
  stored := ⟨w.nextIno, by simp, Nat.lt_succ_self _, by simp⟩
  stands v := by
    refine (h.stands v).frame (fun _ h' => ?_) (fun jno hlt _ => ?_) (Nat.le_succ _)
      (fun jno hlt _ => ?_) (fun _ _ => rfl) ?_
    · rw [show w.names .datafile = none from hn] at h'
      cases h'
    · simpa using Nat.ne_of_gt hlt
    · have hij : jno ≠ w.nextIno := Nat.ne_of_lt hlt
      rw [Sys.setInode_inodes, Function.update_of_ne hij, Sys.create_inodes,
        Function.update_of_ne hij]
    · rw [(h.absent_guests hn)]
      exact Nat.zero_le _
  apart := h.apart

/-- A handle that is not negative names an open descriptor. -/
theorem Represents.handle_open (h : Represents ⟨w, p⟩ a) {v fd : Nat} (he : p v = fd) :
    fd ∈ w.fds := by
  have hs := h.stands v
  change StandsAt w a (p v) (a.cursor v) at hs
  rw [he] at hs
  generalize hx : ((fd : Nat) : Int) = x at hs
  generalize a.cursor v = c at hs
  cases hs with
  | closed => omega
  | live _ hd _ =>
    cases Int.ofNat.inj hx
    exact Finmap.mem_of_lookup_eq_some hd
  | detached _ _ _ hd =>
    cases Int.ofNat.inj hx
    exact Finmap.mem_of_lookup_eq_some hd

/-- One handle set, the descriptors of the others left alone. -/
theorem Represents.setHandle {w' : World} {v : Nat} {q : Int} {c : Cursor}
    (h : Represents ⟨w, p⟩ a) (hr : w'.Reliable) (hn : w'.names = w.names)
    (hi : w'.inodes = w.inodes) (hx : w'.nextIno = w.nextIno)
    (hfds : ∀ v' fd, v' ≠ v → p v' = (fd : Nat) → w'.fds.lookup fd = w.fds.lookup fd)
    (hc : StandsAt w' a q c) (hq : ∀ v', v' ≠ v → 0 ≤ q → p v' ≠ q) :
    Represents ⟨w', Function.update p v q⟩ (a.setCursor v c) where
  reliable := hr
  intermediate := by rw [hn]; exact h.intermediate
  stored := by
    have hs := h.stored
    change Stored w' a.register
    cases hreg : a.register with
    | none => rw [hreg] at hs; rw [Stored, hn]; exact hs
    | some r => rw [hreg] at hs; rw [Stored, hn, hi, hx]; exact hs
  stands v' := by
    change StandsAt w' (a.setCursor v c) (Function.update p v q v')
      (Function.update a.cursor v c v')
    by_cases hv : v' = v
    · subst hv
      rw [Function.update_self, Function.update_self]
      exact hc.frame (fun _ h => h) (fun _ _ h => h) le_rfl (fun _ _ _ => rfl) (fun _ _ => rfl)
        le_rfl
    · rw [Function.update_of_ne hv, Function.update_of_ne hv]
      exact (h.stands v').frame (fun _ h => hn ▸ h) (fun _ _ h => hn ▸ h) hx.ge
        (fun _ _ _ => by rw [hi]) (fun fd he => hfds v' fd hv he) le_rfl
  apart v₁ v₂ h₁ h₂ := by
    change 0 ≤ Function.update p v q v₁ at h₁
    change Function.update p v q v₁ = Function.update p v q v₂ at h₂
    by_cases e₁ : v₁ = v
    · by_cases e₂ : v₂ = v
      · rw [e₁, e₂]
      · subst e₁
        rw [Function.update_self] at h₁ h₂
        rw [Function.update_of_ne e₂] at h₂
        exact absurd h₂.symm (hq v₂ e₂ h₁)
    · rw [Function.update_of_ne e₁] at h₁ h₂
      by_cases e₂ : v₂ = v
      · subst e₂
        rw [Function.update_self] at h₂
        exact absurd h₂ (hq v₁ e₁ (h₂ ▸ h₁))
      · rw [Function.update_of_ne e₂] at h₂
        exact h.apart v₁ v₂ h₁ h₂

end Frame

/-! ## Entries and guests -/

section Entries
variable {gs : List Guest} {o n : CString} {id : BitVec 32}

theorem find_entry {q : Hamsterdesc → Bool} {q' : Guest → Bool}
    (h : ∀ g, q g.entry = q' g) (gs : List Guest) :
    (gs.map Guest.entry).find? q = (gs.find? q').map Guest.entry := by
  rw [List.find?_map]
  congr 2
  exact funext h

theorem updateFirst_entry {F : Hamsterdesc → Hamsterdesc} {f : Guest → Guest}
    (hF : ∀ g : Guest, F g.entry = (f g).entry) :
    updateFirst id F (gs.map Guest.entry) = (amendFirst id f gs).map Guest.entry := by
  induction gs with
  | nil => rfl
  | cons g gs ih =>
    rw [amendFirst_cons]
    unfold updateFirst at ih ⊢
    rw [List.map_cons]
    by_cases hg : g.has id = true
    · rw [List.lookmap_cons_some (b := F g.entry) _ _ (by simp [byId_entry, hg])]
      simp [hg, hF]
    · rw [List.lookmap_cons_none _ _ (by simp [byId_entry, hg]), ih]
      simp [hg]

theorem amendFirst_length (id : BitVec 32) (f : Guest → Guest) (gs : List Guest) :
    (amendFirst id f gs).length = gs.length := List.length_lookmap ..

theorem owned_entry : owned o (gs.map Guest.entry) = (ownedBy o gs).map Guest.entry := by
  rw [owned, ownedBy, List.filter_map]
  congr 2
  exact funext fun g => by simp

theorem others_entry :
    others o (gs.map Guest.entry) = (gs.filter (·.owner.text ≠ o)).map Guest.entry := by
  rw [others, List.filter_map]
  congr 2
  exact funext fun g => by simp

theorem charges_entry (now : Timestamp) :
    charges now o (gs.map Guest.entry) = (ownedBy o gs).mapM (Guest.bill now) := by
  rw [charges, owned_entry]
  induction ownedBy o gs with
  | nil => rfl
  | cons g gs ih => simp only [List.map_cons, List.mapM_cons, ih]; rfl

end Entries

theorem newEntry_image (now : Timestamp) {o n : CString} (ho : o.strlen ≤ 31) (hn : n.strlen ≤ 31)
    (t : BitVec 16) : (newEntry now o n t).toBytes =
      image ([Guest.arrival now ⟨o, ho⟩ ⟨n, hn⟩ t].map Guest.entry) := by
  rw [show newEntry now o n t = _ from Guest.newEntry_eq now ⟨o, ho⟩ ⟨n, hn⟩ t]
  simp

theorem amendFirst_of_none {id : BitVec 32} {f : Guest → Guest} {gs : List Guest}
    (h : ∀ g ∈ gs, ¬ g.has id = true) : amendFirst id f gs = gs :=
  List.lookmap_of_forall_not _ fun g hg => by simp [h g hg]

theorem strcpy_blank {s : CString} (h : s.strlen ≤ 31) : strcpy blankName s = s.pad 32 := by
  obtain ⟨k, hk⟩ : ∃ k, 32 - s.strlen = k + 1 := ⟨31 - s.strlen, by omega⟩
  rw [strcpy, blankName, List.drop_replicate, CString.pad, hk, List.replicate_succ,
    show 32 - (s.strlen + 1) = k by omega]

theorem setInode_self (w : World) (ino : Nat) : w.setInode ino (w.inodes ino) = w := by
  rw [Sys.setInode, Function.update_eq_self]

/-! ## What the store shows -/

section Contents
variable {s : Session} {a : State} {o n : CString}

/-- The content of the database in a represented world. -/
theorem content_of_represents {s : Session} {a : State} (h : Represents s a) :
    s.world.content .datafile = a.register.map fun _ => image (a.guests.map Guest.entry) := by
  cases hreg : a.register with
  | none => rw [Sys.content, (h.absent hreg).1]; rfl
  | some r =>
    obtain ⟨ino, hn, -, hc⟩ := h.present hreg
    rw [Sys.content, hn]
    exact congrArg some hc

/-- The same guests in the same register are the same database. -/
theorem content_eq_of_guests {s t : Session} {a b : State} (h : Represents s a)
    (h' : Represents t b) (hreg : b.register.isSome = a.register.isSome)
    (hg : b.guests = a.guests) :
    t.world.content .datafile = s.world.content .datafile := by
  rw [content_of_represents h, content_of_represents h', hg]
  cases ha : a.register with
  | none =>
    rw [ha, Option.isSome_none, Option.isSome_eq_false_iff, Option.isNone_iff_eq_none] at hreg
    rw [hreg]
  | some r =>
    rw [ha, Option.isSome_some, Option.isSome_iff_exists] at hreg
    obtain ⟨r', hr'⟩ := hreg
    rw [hr']
    rfl

theorem storeEntries_of_represents (h : Represents s a) :
    storeEntries s.world = a.guests.map Guest.entry := by
  rw [storeEntries, content_of_represents h]
  cases hreg : a.register with
  | none => rw [(h.absent hreg).2]; rfl
  | some r => exact entries_image _

/-- A world that stands for the asylum is in order. -/
theorem settled_of_represents (h : Represents s a) : Settled s.world where
  reliable := h.reliable
  apart.old ino hn := by
    cases hreg : a.register with
    | none => rw [(h.absent hreg).1] at hn; cases hn
    | some r =>
      obtain ⟨ino', hn', hlt, -⟩ := h.present hreg
      rw [hn] at hn'
      cases hn'
      exact hlt
  apart.apart ino _ := by rw [h.intermediate]; nofun
  whole ino hn := by
    cases hreg : a.register with
    | none => rw [(h.absent hreg).1] at hn; cases hn
    | some r =>
      obtain ⟨ino', hn', -, hc⟩ := h.present hreg
      rw [hn] at hn'
      cases hn'
      rw [hc, damage_image]
  ids x hx := by
    rw [storeEntries_of_represents h] at hx
    obtain ⟨g, -, rfl⟩ := List.mem_map.mp hx
    exact Amounts.makeHash_nonneg _ _

/-- Guests with one name are one guest. -/
theorem eq_of_named {g g' : Guest} (hg : g ∈ a.guests) (hg' : g' ∈ a.guests)
    (h : g.named o n = true) (h' : g'.named o n = true) : g = g' := by
  exact List.inj_on_of_nodup_map (a.register.getD .empty).distinct hg hg'
    (Guest.key_of_named h h')

end Contents

/-! ## The calls, one by one -/

/-- Related by the same handles. -/
abbrev Holds (p : Nat → Int) (w : World) (a : State) : Prop := Represents ⟨w, p⟩ a

section Calls
variable {w : World} {p : Nat → Int} {a : State}

theorem mem_keys_iff {o n : CString} (ho : o.strlen ≤ 31) (hn : n.strlen ≤ 31) (gs : List Guest) :
    ((⟨o, ho⟩, ⟨n, hn⟩) : Name × Name) ∈ gs.map Guest.key ↔ (gs.find? (·.named o n)).isSome := by
  rw [List.find?_isSome, List.mem_map]
  constructor
  · rintro ⟨g, hg, hk⟩
    obtain ⟨h₁, h₂⟩ := Prod.mk.inj hk
    exact ⟨g, hg, by simp [Guest.named, h₁, h₂]⟩
  · rintro ⟨g, hg, hk⟩
    simp only [Guest.named, Bool.and_eq_true, decide_eq_true_eq] at hk
    exact ⟨g, hg, Prod.ext (Name.ext hk.1) (Name.ext hk.2)⟩

theorem tooLong_or_iff {o n : CString} :
    (tooLong o || tooLong n) = false ↔ o.strlen ≤ 31 ∧ n.strlen ≤ 31 := by
  rw [Bool.or_eq_false_iff, tooLong_eq_false_iff, tooLong_eq_false_iff]

theorem new_agree (h : Represents ⟨w, p⟩ a) (o n : CString) (t : BitVec 16) :
    Agree (Holds p) (Call.exec w (.new o n t)) (a.exec w.now (.new o n t)) := by
  simp only [Call.exec, State.exec, State.new]
  by_cases hl : o.strlen ≤ 31 ∧ n.strlen ≤ 31
  · have hl' := tooLong_or_iff.mpr hl
    rw [dif_pos hl]
    cases hreg : a.register with
    | none =>
      obtain ⟨hn, -⟩ := h.absent hreg
      have hk : ((Guest.arrival w.now ⟨o, hl.1⟩ ⟨n, hl.2⟩ t).key) ∉
          (Register.empty.guests.map Guest.key) := by simp [Register.empty]
      rw [new_absent h.reliable hn hl' t, newEntry_image w.now hl.1 hl.2]
      simp only [Option.getD_none]
      rw [dif_pos hk]
      exact .step (h.created hn (Register.empty.enrol _ hk))
    | some r =>
      obtain ⟨ino, hn, -, hc⟩ := h.present hreg
      have hg := guests_of_register hreg
      rw [new_present h.reliable hn hl' t, hc, entries_image, damage_image,
        find_entry (byName_entry o n), Option.isSome_map, hg]
      have hmem : (Guest.arrival w.now ⟨o, hl.1⟩ ⟨n, hl.2⟩ t).key ∈ r.guests.map Guest.key ↔
          (r.guests.find? (·.named o n)).isSome := mem_keys_iff hl.1 hl.2 r.guests
      simp only [Option.getD_some, ↓reduceIte]
      by_cases hs : (r.guests.find? (·.named o n)).isSome
      · rw [if_pos hs, dif_neg (not_not.mpr (hmem.mpr hs))]
        exact .step h
      · have hk : (Guest.arrival w.now ⟨o, hl.1⟩ ⟨n, hl.2⟩ t).key ∉ r.guests.map Guest.key :=
          mt hmem.mp hs
        rw [if_neg hs, dif_pos hk]
        have hrw := h.rewrite hn (r.enrol _ hk) (by simp [hg, Register.enrol])
        refine .step ?_
        have himage : image (r.guests.map Guest.entry) ++ (newEntry w.now o n t).toBytes =
            image ((r.enrol _ hk).guests.map Guest.entry) := by
          rw [newEntry_image w.now hl.1 hl.2, Register.enrol, List.map_append, image_append]
        rw [himage]
        exact hrw
  · have hl' : (tooLong o || tooLong n) = true := by
      rw [← Bool.not_eq_false, tooLong_or_iff]; exact hl
    rw [dif_neg hl]
    simp only [hmstrNew, hl', ↓reduceIte]
    exact .step h

theorem lookup_agree (h : Represents ⟨w, p⟩ a) (o n : Option CString) :
    Agree (Holds p) (Call.exec w (.lookup o n)) (a.exec w.now (.lookup o n)) := by
  cases o with
  | none => exact .step h
  | some o =>
    cases n with
    | none => exact .step h
    | some n =>
      simp only [Call.exec, State.exec, State.lookup]
      cases hl : tooLong o || tooLong n with
      | true =>
        simp only [hmstrLookup, hl, ↓reduceIte]
        exact .step h
      | false =>
        cases hreg : a.register with
        | none =>
          obtain ⟨hn, hg⟩ := h.absent hreg
          rw [lookup_absent h.reliable hn hl, hg]
          exact .step h
        | some r =>
          obtain ⟨ino, hn, -, hc⟩ := h.present hreg
          rw [lookup_present h.reliable hn hl, hc, entries_image, find_entry (byName_entry o n)]
          have he : endOfFile (image (a.guests.map Guest.entry)) = hmstrErrNotFound := by
            simp [endOfFile]
          rw [he]
          cases a.guests.find? (·.named o n) <;> exact .step h

theorem howsdoing_agree (h : Represents ⟨w, p⟩ a) (id : BitVec 32) :
    Agree (Holds p) (Call.exec w (.howsdoing id)) (a.exec w.now (.howsdoing id)) := by
  simp only [Call.exec, State.exec, State.howsdoing]
  cases hreg : a.register with
  | none =>
    obtain ⟨hn, hg⟩ := h.absent hreg
    rw [howsdoing_absent h.reliable hn, hg]
    exact .step h
  | some r =>
    obtain ⟨ino, hn, -, hc⟩ := h.present hreg
    have hg := guests_of_register hreg
    rw [howsdoing_present h.reliable hn, hc, entries_image, damage_image,
      find_entry (byId_entry id), updateFirst_entry Guest.inquire_entry]
    cases hf : a.guests.find? (·.has id) with
    | none => exact .step h
    | some g =>
      simp only [Option.map_some, Guest.inquire_entry]
      cases getRounds w.now g.entry.admissionTime with
      | none => exact .stop
      | some rounds =>
        refine .step ?_
        have hrw := h.rewrite hn (r.amend id Guest.ask Guest.ask_key)
          (by simp [hg, Register.amend, amendFirst_length])
        rw [List.append_nil]
        simpa [State.amend, hreg, Register.amend, hg] using hrw

theorem readentry_agree (h : Represents ⟨w, p⟩ a) (id : BitVec 32) :
    Agree (Holds p) (Call.exec w (.readentry id)) (a.exec w.now (.readentry id)) := by
  simp only [Call.exec, State.exec, State.readentry]
  cases hreg : a.register with
  | none =>
    obtain ⟨hn, hg⟩ := h.absent hreg
    rw [readentry_absent h.reliable hn, hg]
    exact .step h
  | some r =>
    obtain ⟨ino, hn, -, hc⟩ := h.present hreg
    rw [readentry_present h.reliable hn, hc, entries_image, find_entry (byId_entry id)]
    cases hf : a.guests.find? (·.has id) with
    | none => exact .step h
    | some g =>
      simp only [Option.map_some, Guest.bill]
      cases getRounds w.now g.entry.admissionTime with
      | none => exact .stop
      | some rounds =>
        simp only [Option.map_some, entryOut, Guest.ownerStr_entry, Guest.nameStr_entry,
          strcpy_blank g.owner.short, strcpy_blank g.name.short, Guest.setWidth_treatsLeft]
        exact .step h

theorem givetreats_agree (h : Represents ⟨w, p⟩ a) (id : BitVec 32) (t : BitVec 16) :
    Agree (Holds p) (Call.exec w (.givetreats id t)) (a.exec w.now (.givetreats id t)) := by
  simp only [Call.exec, State.exec, State.givetreats]
  cases hreg : a.register with
  | none =>
    obtain ⟨hn, hg⟩ := h.absent hreg
    rw [givetreats_absent h.reliable hn, hg]
    exact .step h
  | some r =>
    obtain ⟨ino, hn, -, hc⟩ := h.present hreg
    have hg := guests_of_register hreg
    rw [givetreats_present h.reliable hn, hc, entries_image, damage_image,
      find_entry (byId_entry id), updateFirst_entry (Guest.feed_entry · t), List.append_nil]
    have hrw := h.rewrite hn (r.amend id (·.feed t) (Guest.feed_key · t))
      (by simp [hg, Register.amend, amendFirst_length])
    cases hf : a.guests.find? (·.has id) with
    | none =>
      have hsame : amendFirst id (·.feed t) a.guests = a.guests :=
        amendFirst_of_none (List.find?_eq_none.mp hf)
      rw [hsame, ← hc, setInode_self]
      exact .step h
    | some g =>
      simp only [Option.map_some, Option.elim, Guest.feed_entry, Guest.setWidth_treatsLeft]
      refine .step ?_
      simpa [State.amend, hreg, Register.amend, hg] using hrw

/-- A live cursor keeps reading the inode that lost its name. -/
theorem Represents.collected (h : Represents ⟨w, p⟩ a) {ino : Nat}
    (hn : w.names .datafile = some ino) (hlt : ino < w.nextIno)
    (hc : w.inodes ino = image (a.guests.map Guest.entry)) (r' : Register) :
    Represents ⟨((renewed w ino).setInode w.nextIno (image (r'.guests.map Guest.entry))).setName
        .intermediateFile none, p⟩ ⟨some r', fun v => a.detach (a.cursor v)⟩ where
  reliable := h.reliable
  intermediate := by simp
  stored := ⟨w.nextIno, by simp [renewed, renamed], Nat.lt_succ_self _, by simp⟩
  apart := h.apart
  stands v := by
    have hold : ∀ jno < w.nextIno, (((renewed w ino).setInode w.nextIno
        (image (r'.guests.map Guest.entry))).setName .intermediateFile none).inodes jno =
          w.inodes jno := by
      intro jno hj
      have hne : jno ≠ w.nextIno := Nat.ne_of_lt hj
      simp [renewed, renamed, hne]
    have hnew : (((renewed w ino).setInode w.nextIno
        (image (r'.guests.map Guest.entry))).setName .intermediateFile none).names .datafile =
          some w.nextIno := by simp [renewed, renamed]
    have hs := h.stands v
    change StandsAt w a (p v) (a.cursor v) at hs
    change StandsAt _ _ (p v) (a.detach (a.cursor v))
    generalize p v = q at hs
    generalize a.cursor v = c at hs
    cases hs with
    | closed => exact .closed
    | @live fd jno pos hn' hd hp =>
      rw [hn] at hn'
      cases hn'
      have hvisited : w.inodes ino =
          image ((a.guests.take pos ++ a.guests.drop pos).map Guest.entry) := by
        rw [hc, List.take_append_drop]
      have hpos : (a.guests.take pos).length = pos := by rw [List.length_take, Nat.min_eq_left hp]
      refine .detached ?_ (Nat.lt_succ_of_lt hlt) ((hold ino hlt).trans hvisited)
        (by rw [hpos]; exact hd)
      rw [hnew]
      exact fun he => Nat.ne_of_gt hlt (Option.some.inj he)
    | @detached fd jno pre rest hne hlt' hc' hd =>
      refine .detached ?_ (Nat.lt_succ_of_lt hlt') ((hold jno hlt').trans hc') hd
      rw [hnew]
      exact fun he => Nat.ne_of_gt hlt' (Option.some.inj he)

theorem collect_agree (h : Represents ⟨w, p⟩ a) (o : Option CString) :
    Agree (Holds p) (Call.exec w (.collect o)) (a.exec w.now (.collect o)) := by
  cases o with
  | none => exact .step h
  | some o =>
    simp only [Call.exec, State.exec, State.collect]
    cases hl : tooLong o with
    | true =>
      simp only [hmstrCollect, hl, ↓reduceIte]
      exact .step h
    | false =>
      cases hreg : a.register with
      | none =>
        obtain ⟨hn, -⟩ := h.absent hreg
        rw [collect_absent h.reliable hn hl]
        exact .step h
      | some r =>
        obtain ⟨ino, hn, hlt, hc⟩ := h.present hreg
        have hi : w.names .intermediateFile ≠ some ino := by
          rw [show w.names .intermediateFile = none from h.intermediate]
          exact Option.some_ne_none _ |>.symm
        rw [collect_present h.reliable hn hi hlt hl, hc, entries_image, damage_image, charges_entry,
          owned_entry, others_entry, State.bills, List.isEmpty_map]
        cases (ownedBy o a.guests).mapM (Guest.bill w.now) with
        | none => exact .stop
        | some amounts =>
          have hcol := h.collected hn hlt hc (r.release o)
          have hkept : (r.release o).guests = a.guests.filter (·.owner.text ≠ o) := by
            rw [Register.release, guests_of_register hreg]
          rw [hkept] at hcol
          exact .step hcol

theorem visit_cases (q : Guest → Bool) (gs : List Guest) :
    (gs.dropWhile (fun g => !q g) = [] ∧ ∀ g ∈ gs, q g = false) ∨
      ∃ pre g post, gs = pre ++ g :: post ∧ (∀ x ∈ pre, q x = false) ∧ q g = true ∧
        gs.dropWhile (fun g => !q g) = g :: post := by
  induction gs with
  | nil => exact .inl ⟨rfl, by simp⟩
  | cons g gs ih =>
    cases hg : q g with
    | true => exact .inr ⟨[], g, gs, rfl, by simp, hg, by simp [hg]⟩
    | false =>
      rw [List.dropWhile_cons_of_pos (by simp [hg])]
      rcases ih with ⟨hd, hno⟩ | ⟨pre, x, post, rfl, hpre, hx, hd⟩
      · exact .inl ⟨hd, by simpa [hg] using hno⟩
      · exact .inr ⟨g :: pre, x, post, rfl, by simpa [hg] using hpre, hx, hd⟩

/-- A directory call on an open descriptor in front of `rest`. -/
theorem directory_visits {fd ino : Nat} {pre rest : List Guest} (hr : w.Reliable)
    (hd : w.fds.lookup fd = some (.file ino (96 * pre.length) false))
    (hc : w.inodes ino = image ((pre ++ rest).map Guest.entry)) {o n : Option CString}
    (hl : (tooLongOpt o || tooLongOpt n) = false) :
    hmstrDirectory w fd o n =
      match rest.dropWhile (fun g => !g.passes o n) with
      | [] => (hmstrErrNotFound, -1, w.close fd)
      | g :: post => (g.uid, (fd : Int),
          w.setDesc fd (.file ino (96 * ((pre ++ rest).length - post.length)) false)) := by
  have hrest : (w.inodes ino).drop (96 * pre.length) = image (rest.map Guest.entry) ++ [] := by
    rw [hc, List.map_append, image_append, List.append_nil,
      List.drop_left' (by rw [length_image, List.length_map])]
  rcases visit_cases (Guest.passes o n) rest with ⟨hend, hno⟩ | ⟨skip, g, post, rfl, hskip, hg, hhit⟩
  · rw [hend, directory_end hr hd hl hrest (by decide)]
    · simp
    · intro x hx
      obtain ⟨g, hg, rfl⟩ := List.mem_map.mp hx
      rw [passesFilter_entry, hno g hg]
  · rw [hhit]
    rw [List.map_append, List.map_cons] at hrest
    rw [directory_hit hr hd hl hrest _ (by rw [passesFilter_entry, hg])]
    · have hoff : 96 * pre.length + 96 * ((skip.map Guest.entry).length + 1) =
          96 * ((pre ++ (skip ++ g :: post)).length - post.length) := by
        simp only [List.length_append, List.length_map, List.length_cons]
        omega
      rw [hoff, Guest.entry_uid]
    · intro x hx
      obtain ⟨g', hg', rfl⟩ := List.mem_map.mp hx
      rw [passesFilter_entry, hskip g' hg']

/-- What a directory call on the handle `q` of `v` comes to, with `visits` before it: the first
that passes, `next` for what remains behind it, or the end. -/
def DirectoryFrom (w : World) (p : Nat → Int) (a : State) (v : Nat) (q : Int) (o n : Option CString)
    (visits : List Guest) (next : List Guest → Cursor) : Prop :=
  ∃ q' w', hmstrDirectory w q o n =
      ((match visits.dropWhile (fun g => !g.passes o n) with
        | [] => hmstrErrNotFound
        | g :: _ => g.uid), q', w') ∧
    Represents ⟨w', Function.update p v q'⟩ (a.setCursor v
      (match visits.dropWhile (fun g => !g.passes o n) with
        | [] => .closed
        | _ :: post => next post))

/-- Both ends of a scan on a handle that is open: moved on, or closed. -/
theorem directory_from {v fd ino : Nat} (pre rest : List Guest) (next : List Guest → Cursor)
    (h : Represents ⟨w, Function.update p v (fd : Int)⟩ a)
    (hd : w.fds.lookup fd = some (.file ino (96 * pre.length) false))
    (hc : w.inodes ino = image ((pre ++ rest).map Guest.entry)) {o n : Option CString}
    (hl : (tooLongOpt o || tooLongOpt n) = false)
    (hnext : ∀ post, post <:+ rest →
      StandsAt (w.setDesc fd (.file ino (96 * ((pre ++ rest).length - post.length)) false)) a fd
        (next post)) :
    DirectoryFrom w p a v fd o n rest next := by
  have hother : ∀ v' fd', v' ≠ v → Function.update p v (fd : Int) v' = (fd' : Nat) → fd' ≠ fd := by
    intro v' fd' hv he hfd
    subst hfd
    refine hv (h.apart v' v ?_ ?_)
    · change 0 ≤ Function.update p v (fd' : Int) v'
      rw [he]
      exact Int.natCast_nonneg _
    · change Function.update p v (fd' : Int) v' = Function.update p v (fd' : Int) v
      rw [he, Function.update_self]
  rw [DirectoryFrom, directory_visits h.reliable hd hc hl]
  have hsuf := List.dropWhile_suffix (l := rest) (fun g => !g.passes o n)
  cases hdw : rest.dropWhile (fun g => !g.passes o n) with
  | nil =>
    refine ⟨_, _, rfl, ?_⟩
    rw [← Function.update_idem (f := p) (a := v) (v := (fd : Int)) (w := -1)]
    refine h.setHandle h.reliable rfl rfl rfl ?_ .closed (by omega)
    intro v' fd' hv he
    exact Finmap.lookup_erase_ne (hother v' fd' hv he)
  | cons g post =>
    refine ⟨_, _, rfl, ?_⟩
    rw [← Function.update_idem (f := p) (a := v) (v := (fd : Int)) (w := (fd : Int))]
    rw [hdw] at hsuf
    refine h.setHandle h.reliable rfl rfl rfl ?_ (hnext post ((List.suffix_cons g post).trans hsuf)) ?_
    · intro v' fd' hv he
      exact Finmap.lookup_insert_of_ne _ (hother v' fd' hv he)
    · intro v' hv _ he
      exact hother v' fd hv he rfl

theorem State.directory_eq (a : State) (v : Nat) {o n : Option CString}
    (hl : (tooLongOpt o || tooLongOpt n) = false) :
    a.directory v o n =
      (⟨match (a.toVisit (a.cursor v)).dropWhile (fun g => !g.passes o n) with
        | [] => hmstrErrNotFound
        | g :: _ => g.uid, .none⟩,
        a.setCursor v (match (a.toVisit (a.cursor v)).dropWhile (fun g => !g.passes o n) with
          | [] => .closed
          | _ :: post => a.moveTo post (a.cursor v))) := by
  rw [State.directory, hl]
  cases (a.toVisit (a.cursor v)).dropWhile (fun g => !g.passes o n) <;> rfl

theorem State.setCursor_setCursor (a : State) (v : Nat) (c c' : Cursor) :
    (a.setCursor v c).setCursor v c' = a.setCursor v c' := by
  simp only [setCursor, Function.update_idem]

/-- The first call opens the file, if there is one. -/
theorem directory_closed (h : Represents ⟨w, p⟩ a) (v : Nat) {o n : Option CString}
    (hl : (tooLongOpt o || tooLongOpt n) = false) :
    DirectoryFrom w p a v (-1) o n a.guests fun post => .live (a.guests.length - post.length) := by
  cases hreg : a.register with
  | none =>
    obtain ⟨hn, hg⟩ := h.absent hreg
    refine ⟨-1, w, ?_, ?_⟩
    · rw [directory_absent h.reliable hn (by omega) hl, hg]
      rfl
    · rw [hg]
      exact h.setHandle h.reliable rfl rfl rfl (fun _ _ _ _ => rfl) .closed (by omega)
  | some r =>
    obtain ⟨ino, hn, -, hc⟩ := h.present hreg
    have hfree : ∀ v' fd, p v' = (fd : Nat) → fd ≠ w.lowestFree :=
      fun v' fd he hfd => w.lowestFree_notMem (hfd ▸ h.handle_open he)
    have hopened : Represents ⟨w.setDesc w.lowestFree (.file ino 0 false),
        Function.update p v (w.lowestFree : Int)⟩ (a.setCursor v (.live 0)) := by
      refine h.setHandle h.reliable rfl rfl rfl ?_ ?_ ?_
      · intro v' fd _ he
        exact Finmap.lookup_insert_of_ne _ (hfree v' fd he)
      · exact .live hn (lookup_setDesc ..) (Nat.zero_le _)
      · intro v' _ _ he
        exact hfree v' _ he rfl
    obtain ⟨q, w', he, hrep⟩ := directory_from [] a.guests
      (fun post => .live (a.guests.length - post.length)) hopened
      (lookup_setDesc ..) hc hl
      (fun post _ => .live hn (lookup_setDesc ..) (Nat.sub_le _ _))
    rw [State.setCursor_setCursor] at hrep
    rw [DirectoryFrom, directory_opens h.reliable hn (by omega) hl]
    exact ⟨q, w', he, hrep⟩

/-- A handle in the register goes on with the guests behind its place. -/
theorem directory_live {v fd ino pos : Nat}
    (h : Represents ⟨w, Function.update p v (fd : Int)⟩ a) {o n : Option CString}
    (hl : (tooLongOpt o || tooLongOpt n) = false) (hn : w.names .datafile = some ino)
    (hd : w.fds.lookup fd = some (.file ino (96 * pos) false)) (hp : pos ≤ a.guests.length) :
    DirectoryFrom w p a v fd o n (a.guests.drop pos)
      fun post => .live (a.guests.length - post.length) := by
  have hlen : (a.guests.take pos).length = pos := by rw [List.length_take, Nat.min_eq_left hp]
  have hsplit : a.guests.take pos ++ a.guests.drop pos = a.guests := List.take_append_drop ..
  obtain ⟨r, hreg⟩ : ∃ r, a.register = some r := by
    cases hreg : a.register with
    | none =>
      rw [(h.absent hreg).1] at hn
      cases hn
    | some r => exact ⟨r, rfl⟩
  obtain ⟨ino', hn', -, hc⟩ := h.present hreg
  obtain rfl : ino' = ino := Option.some.inj (hn'.symm.trans hn)
  exact directory_from (a.guests.take pos) (a.guests.drop pos)
    (fun post => .live (a.guests.length - post.length)) h
    (by rw [hlen]; exact hd) (by rw [hsplit]; exact hc) hl
    (fun post _ => .live hn' (by rw [hsplit]; exact lookup_setDesc ..) (Nat.sub_le _ _))

/-- A handle on a file that is no longer the register goes on with its copy. -/
theorem directory_detached {v fd ino : Nat} {pre rest : List Guest}
    (h : Represents ⟨w, Function.update p v (fd : Int)⟩ a) {o n : Option CString}
    (hl : (tooLongOpt o || tooLongOpt n) = false) (hne : w.names .datafile ≠ some ino)
    (hlt : ino < w.nextIno) (hc : w.inodes ino = image ((pre ++ rest).map Guest.entry))
    (hd : w.fds.lookup fd = some (.file ino (96 * pre.length) false)) :
    DirectoryFrom w p a v fd o n rest .detached := by
  apply directory_from pre rest .detached h hd hc hl
  intro post hpost
  obtain ⟨skip, rfl⟩ := hpost
  have hlen : (pre ++ (skip ++ post)).length - post.length = (pre ++ skip).length := by
    simp only [List.length_append]
    omega
  have hvisited : w.inodes ino = image (((pre ++ skip) ++ post).map Guest.entry) := by
    rw [List.append_assoc]
    exact hc
  exact .detached hne hlt hvisited (by rw [hlen]; exact lookup_setDesc ..)

theorem directory_agree (h : Represents ⟨w, p⟩ a) (v : Nat) (o n : Option CString) :
    ∃ q w', hmstrDirectory w (p v) o n = ((a.directory v o n).1.ret, q, w') ∧
      Represents ⟨w', Function.update p v q⟩ (a.directory v o n).2 := by
  cases hl : tooLongOpt o || tooLongOpt n with
  | true =>
    refine ⟨p v, w, by simp [hmstrDirectory, State.directory, hl], ?_⟩
    rw [Function.update_eq_self]
    simpa [State.directory, hl] using h
  | false =>
    rw [State.directory_eq a v hl]
    have hs := h.stands v
    change StandsAt w a (p v) (a.cursor v) at hs
    have hself : Function.update p v (p v) = p := Function.update_eq_self v p
    generalize p v = q at hs hself
    generalize a.cursor v = c at hs
    cases hs with
    | closed => exact directory_closed h v hl
    | live hn hd hp =>
      rw [← hself] at h
      exact directory_live h hl hn hd hp
    | detached hne hlt hc hd =>
      rw [← hself] at h
      exact directory_detached h hl hne hlt hc hd

end Calls

/-! ## Steps and runs -/

theorem agree_of_holds {p : Nat → Int} {x : Option (Reply × World)} {y : Option (Reply × State)}
    (h : Agree (Holds p) x y) :
    Agree Represents (x.map fun (r, w) => (r, (⟨w, p⟩ : Session))) y := by
  cases h with
  | stop => exact .stop
  | step h => exact .step h

theorem step_agree {s : Session} {a : State} (i : Input) (h : Represents s a) :
    Agree Represents (s.step i) (a.step i) := by
  obtain ⟨now, c⟩ := i
  have hw := h.clockAt now
  cases c with
  | new o n t => exact agree_of_holds (new_agree hw o n t)
  | lookup o n => exact agree_of_holds (lookup_agree hw o n)
  | howsdoing id => exact agree_of_holds (howsdoing_agree hw id)
  | readentry id => exact agree_of_holds (readentry_agree hw id)
  | givetreats id t => exact agree_of_holds (givetreats_agree hw id t)
  | collect o => exact agree_of_holds (collect_agree hw o)
  | directory v o n =>
    obtain ⟨q, w', he, hrep⟩ := directory_agree hw v o n
    have hout : (a.directory v o n).1 = ⟨(a.directory v o n).1.ret, .none⟩ := by
      unfold State.directory
      split
      · rfl
      · split <;> rfl
    have hstep : s.step (now, .directory v o n) = some ((a.directory v o n).1,
        ⟨w', Function.update s.handle v q⟩) := by
      rw [hout]
      simp only [Session.step, Call.map, Call.exec, he, Option.map_some, Session.settle]
    rw [hstep]
    exact .step hrep

/-- Every run of the library is a run of the asylum, event by event. -/
theorem run_refines {s t : Session} {a : State} {tr : List (Event Session Input Reply)}
    (h : Runs s tr t) (ha : Represents s a) :
    ∃ tr' b, Run State.step a tr' b ∧ Represents t b ∧
      List.Forall₂ (Event.Matches Represents) tr tr' :=
  h.simulate (fun _ _ i hr => step_agree i hr) ha

/-- What is known of every state a fresh session can reach. -/
theorem reachable_represents {s t : Session} {tr : List (Event Session Input Reply)}
    (hs : s.Fresh) (h : Runs s tr t) :
    ∃ tr' b, Run State.step .start tr' b ∧ Represents t b ∧
      List.Forall₂ (Event.Matches Represents) tr tr' :=
  run_refines h (represents_start hs)

/-- What the asylum does, the library does. -/
theorem run_of_play {s : Session} {b : State} {is : List Input} {rs : List Reply} (hs : s.Fresh)
    (h : play State.step .start is = some (rs, b)) :
    ∃ tr t, Runs s tr t ∧ inputs tr = is ∧ outputs tr = rs ∧ Represents t b := by
  obtain ⟨tr', hr, hi, ho⟩ := Run.of_play h
  have hback : ∀ b s i, Represents s b →
      Agree (fun a s => Represents s a) (State.step b i) (Session.step s i) :=
    fun _ _ i hr => (step_agree i hr).symm
  obtain ⟨tr, t, hrun, hrep, hm⟩ := hr.simulate hback (represents_start hs)
  exact ⟨tr, t, hrun, by rw [← hi, matches_inputs hm], by rw [← ho, matches_outputs hm], hrep⟩

theorem run_of_guests {s : Session} {is : List Input} {rs : List Reply} {gs : List Guest}
    (hs : s.Fresh)
    (h : (play State.step .start is).map (fun x => (x.1, x.2.guests)) = some (rs, gs)) :
    ∃ tr t b, Runs s tr t ∧ inputs tr = is ∧ outputs tr = rs ∧ Represents t b ∧
      b.guests = gs := by
  obtain ⟨⟨rs', b⟩, hp, he⟩ := Option.map_eq_some_iff.mp h
  obtain ⟨rfl, rfl⟩ := Prod.mk.inj he
  obtain ⟨tr, t, hr, hi, ho, hb⟩ := run_of_play hs hp
  exact ⟨tr, t, b, hr, hi, ho, hb, rfl⟩

end Hamster.Asylum
