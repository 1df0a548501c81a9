import Hamster.Contract.Integrity

/-!
# Which hamster an id means

Lookups go by name, everything else by id, and ids are hashes of the names. An id
that a lookup returns means the looked-up hamster exactly when no entry in front
of it has the same hash.
-/
namespace Hamster.Contract.Identity

open Lib.Bytes Lib.Clock Lib.Posix Lib.Runs Store Store.Entry Store.Library Store.Scans Asylum
open Integrity (alice)
open Timestamp (epoch)

/-- The entry of `(o, n)` changed by `f`, and no other. -/
def onlyNamed (o n : CString) (f : Hamsterdesc → Hamsterdesc) (hs : List Hamsterdesc) :
    List Hamsterdesc :=
  hs.map fun h => if byName o n h then f h else h

structure Identifies (w : World) (o n : CString) (id : BitVec 32) : Prop where
  reads : ∀ owner name price, ∃ ret owner' name' price' w',
    hmstrReadentry w id owner name price = some (ret, owner', name', price', w') ∧
      cstr owner' = o ∧ cstr name' = n
  feeds : ∀ treats, storeEntries (hmstrGivetreats w id treats).2 =
    onlyNamed o n (feed · treats) (storeEntries w)
  asks : ∀ st, ∃ ret st' w', hmstrHowsdoing w id st = some (ret, st', w') ∧
    storeEntries w' = onlyNamed o n inquire (storeEntries w)

/-- No entry in front of the one of `(o, n)` has its hash, and the clock is not
behind its admission. -/
def FirstOfItsHash (w : World) (o n : CString) : Prop :=
  ∃ pre h post, storeEntries w = pre ++ h :: post ∧ byName o n h = true ∧
    (∀ x ∈ pre, makeHash x.ownerStr x.nameStr ≠ makeHash o n) ∧
    0 ≤ (timersub w.now.toTimeval h.admissionTime).tvSec.toInt

section Guests
variable {s t : Session} {a : State} {o n : CString}

theorem cstr_strcpy (dst : List Byte) (s : CString) : cstr (strcpy dst s) = s :=
  cstr_terminated s _

/-- In a register with distinct names, changing one guest is changing the named one. -/
theorem onlyNamed_entry {pre post : List Guest} {g : Guest} (he : a.guests = pre ++ g :: post)
    (hg : g.named o n = true) {F : Hamsterdesc → Hamsterdesc} {f : Guest → Guest}
    (hF : ∀ g : Guest, F g.entry = (f g).entry) :
    onlyNamed o n F (a.guests.map Guest.entry) = (pre ++ f g :: post).map Guest.entry := by
  have hdistinct : (a.guests.map Guest.key).Nodup := (a.register.getD .empty).distinct
  rw [he, List.map_append, List.map_cons, List.nodup_append] at hdistinct
  obtain ⟨-, hgpost, hpre⟩ := hdistinct
  have hkey : ∀ x : Guest, x.named o n = true → x.key = g.key := fun x hx => Guest.key_of_named hx hg
  have hkeep : ∀ gs : List Guest, (∀ x ∈ gs, x.named o n = false) →
      onlyNamed o n F (gs.map Guest.entry) = gs.map Guest.entry := by
    intro gs hgs
    rw [onlyNamed, List.map_map]
    exact List.map_congr_left fun x hx => by simp [byName_entry, hgs x hx]
  have h₁ := hkeep pre fun x hx => by
    rw [← Bool.not_eq_true]
    intro hxn
    exact hpre _ (List.mem_map_of_mem hx) _ List.mem_cons_self (hkey x hxn)
  have h₂ := hkeep post fun x hx => by
    rw [← Bool.not_eq_true]
    intro hxn
    exact (List.nodup_cons.mp hgpost).1 (List.mem_map.mpr ⟨x, hx, hkey x hxn⟩)
  unfold onlyNamed at h₁ h₂ ⊢
  rw [he, List.map_append, List.map_append, List.map_cons, List.map_cons, h₁, h₂]
  simp [byName_entry, hg, hF]

theorem storeEntries_of_agree {p : Nat → Int} {x : Option (Reply × World)}
    {r : Reply} {b : State} (h : Agree (Holds p) x (some (r, b))) :
    ∃ w, x = some (r, w) ∧ storeEntries w = b.guests.map Guest.entry := by
  obtain ⟨w, hx, hw⟩ := h.of_some'
  exact ⟨w, hx, storeEntries_of_represents hw⟩

/-- The guest the hash leads to is the one meant, and the clock is not behind it. -/
def MeansGuest (a : State) (now : Timestamp) (o n : CString) : Prop :=
  ∃ g, a.guests.find? (·.has (makeHash o n)) = some g ∧ g.named o n = true ∧ g.admitted ≤ now

variable {w : World} {p : Nat → Int}

theorem firstOfItsHash_iff (h : Represents ⟨w, p⟩ a) :
    FirstOfItsHash w o n ↔ MeansGuest a w.now o n := by
  have hclock : ∀ g : Guest, 0 ≤ (timersub w.now.toTimeval g.admitted.toTimeval).tvSec.toInt ↔
      g.admitted ≤ w.now := fun g => by
    rw [← Int.not_lt, timersub_sec_neg_iff, not_not]
  have hentries : storeEntries w = a.guests.map Guest.entry := storeEntries_of_represents h
  constructor
  · rintro ⟨pre, x, post, he, hx, hpre, hnow⟩
    rw [hentries] at he
    obtain ⟨gs, _, hgs, rfl, hrest⟩ := List.map_eq_append_iff.mp he
    obtain ⟨g, gs', rfl, rfl, rfl⟩ := List.map_eq_cons_iff.mp hrest
    rw [byName_entry] at hx
    refine ⟨g, ?_, hx, (hclock g).mp hnow⟩
    rw [hgs, List.find?_append, List.find?_eq_none.mpr, Option.none_or,
      List.find?_cons_of_pos (by simp [Guest.has, Guest.uid_of_named hx])]
    intro y hy hid
    have hne := hpre y.entry (List.mem_map_of_mem hy)
    rw [Guest.ownerStr_entry, Guest.nameStr_entry] at hne
    exact hne (of_decide_eq_true hid)
  · rintro ⟨g, hf, hg, hnow⟩
    obtain ⟨-, pre, post, he, hpre⟩ := List.find?_eq_some_iff_append.mp hf
    refine ⟨pre.map Guest.entry, g.entry, post.map Guest.entry, ?_, ?_, ?_, (hclock g).mpr hnow⟩
    · rw [hentries, he, List.map_append, List.map_cons]
    · rw [byName_entry, hg]
    · intro x hx hhash
      obtain ⟨y, hy, rfl⟩ := List.mem_map.mp hx
      rw [Guest.ownerStr_entry, Guest.nameStr_entry] at hhash
      simpa [Guest.has, Guest.uid, hhash] using hpre y hy

theorem means_of_identifies (h : Represents ⟨w, p⟩ a) (hg : ∃ g ∈ a.guests, g.named o n = true)
    (hi : Identifies w o n (makeHash o n)) : MeansGuest a w.now o n := by
  obtain ⟨x, hx, hxn⟩ := hg
  have hsome : (a.guests.find? (·.has (makeHash o n))).isSome :=
    List.find?_isSome.mpr ⟨x, hx, by simp [Guest.has, Guest.uid_of_named hxn]⟩
  obtain ⟨g, hf⟩ := Option.isSome_iff_exists.mp hsome
  obtain ⟨ino, hn, -, hc⟩ := h.present_of_mem hx
  obtain ⟨ret, ob, nb, p', w', hread, ho, hn'⟩ := hi.reads [] [] 0
  rw [readentry_present h.reliable hn, hc, entries_image, find_entry (byId_entry _), hf] at hread
  obtain ⟨rounds, hrounds, hout⟩ := Option.map_eq_some_iff.mp hread
  simp only [entryOut, Prod.mk.injEq] at hout
  obtain ⟨-, rfl, rfl, -, -⟩ := hout
  rw [cstr_strcpy, Guest.ownerStr_entry] at ho
  rw [cstr_strcpy, Guest.nameStr_entry] at hn'
  exact ⟨g, hf, Guest.named_iff.mpr ⟨ho, hn'⟩,
    (g.getRounds_entry w.now).mp (Option.isSome_iff_exists.mpr ⟨rounds, hrounds⟩)⟩

theorem identifies_of_means (h : Represents ⟨w, p⟩ a) (hm : MeansGuest a w.now o n) :
    Identifies w o n (makeHash o n) := by
  obtain ⟨g, hf, hg, hnow⟩ := hm
  obtain ⟨rounds, hrounds⟩ := Option.isSome_iff_exists.mp ((g.getRounds_entry w.now).mpr hnow)
  have hentries : storeEntries w = a.guests.map Guest.entry := storeEntries_of_represents h
  obtain ⟨ino, hn, -, hc⟩ := h.present_of_mem (List.mem_of_find?_eq_some hf)
  have hamended : ∀ {F f}, (hF : ∀ g : Guest, F g.entry = (f g).entry) →
      (amendFirst (makeHash o n) f a.guests).map Guest.entry = onlyNamed o n F (storeEntries w) := by
    intro F f hF
    obtain ⟨pre, post, he, -, ham⟩ := amendFirst_split hf f
    rw [ham, hentries, onlyNamed_entry he hg hF]
  constructor
  · intro owner name price
    rw [readentry_present h.reliable hn, hc, entries_image, find_entry (byId_entry _), hf]
    simp only [Option.map_some, hrounds, entryOut]
    exact ⟨_, _, _, _, _, rfl, by rw [cstr_strcpy, Guest.ownerStr_entry, (Guest.named_iff.mp hg).1],
      by rw [cstr_strcpy, Guest.nameStr_entry, (Guest.named_iff.mp hg).2]⟩
  · intro treats
    have hag := givetreats_agree h (makeHash o n) treats
    obtain ⟨w', hw, he⟩ := storeEntries_of_agree hag
    have hw' : (hmstrGivetreats w (makeHash o n) treats).2 = w' :=
      (Prod.mk.inj (Option.some.inj hw)).2
    rw [hw', he, ← hamended (Guest.feed_entry · treats)]
    simp only [hf, State.guests_amend]
  · intro st
    rw [howsdoing_present h.reliable hn, hc, entries_image, find_entry (byId_entry _), hf]
    simp only [Option.map_some, hrounds]
    refine ⟨_, _, _, rfl, ?_⟩
    rw [← hamended Guest.inquire_entry, updateFirst_entry Guest.inquire_entry, damage_image,
      List.append_nil, storeEntries, Sys.content, Sys.setInode_names, hn]
    simp

theorem lookup_found (h : Represents ⟨w, p⟩ a) {id : BitVec 32} {w' : World}
    (hl : hmstrLookup w (some o) (some n) = (id, w')) (hid : 0 ≤ id.toInt) :
    id = makeHash o n ∧ ∃ g ∈ a.guests, g.named o n = true := by
  have hag := lookup_agree h (some o) (some n)
  simp only [Call.exec, hl, State.exec] at hag
  obtain ⟨_, hout, -⟩ := hag.of_some
  have hret := congrArg (fun x => x.1.ret) (Option.some.inj hout)
  simp only [State.lookup] at hret
  split at hret
  · rw [← hret] at hid
    exact absurd hid (by decide)
  · cases hf : a.guests.find? (·.named o n) with
    | none =>
      rw [hf] at hret
      rw [← hret] at hid
      exact absurd hid (by decide)
    | some g =>
      rw [hf] at hret
      exact ⟨by rw [← hret]; exact Guest.uid_of_named (List.find?_some hf), g,
        List.mem_of_find?_eq_some hf, List.find?_some hf⟩

end Guests

theorem id_identifies_iff {s t : Session} (hs : s.Fresh) {tr : List (Event Session Input Reply)}
    (hrun : Runs s tr t) (now : Timestamp) {o n : CString} {id : BitVec 32} {w' : World}
    (hl : hmstrLookup (t.clockAt now) (some o) (some n) = (id, w')) (hid : 0 ≤ id.toInt) :
    Identifies (t.clockAt now) o n id ↔ FirstOfItsHash (t.clockAt now) o n := by
  obtain ⟨_, a, -, ha, -⟩ := reachable_represents hs hrun
  have h := ha.clockAt now
  obtain ⟨rfl, hg⟩ := lookup_found h hl hid
  rw [firstOfItsHash_iff h]
  exact ⟨means_of_identifies h hg, identifies_of_means h⟩

theorem lookup_of_agree {w : World} {p : Nat → Int} {a : State} (h : Represents ⟨w, p⟩ a)
    (o n : CString) : ∃ w', hmstrLookup w (some o) (some n) = ((a.lookup (some o) (some n)).ret, w') := by
  obtain ⟨w', he, -⟩ := (lookup_agree h (some o) (some n)).of_some'
  have hpair := Option.some.inj he
  exact ⟨w', Prod.ext (congrArg (fun x => x.1.ret) hpair) (congrArg (·.2) hpair)⟩

theorem id_identifies_alone : ∃ tr t id w', Runs .initial tr t ∧
    inputs tr = [(epoch, .new alice alice 0)] ∧
    hmstrLookup (t.clockAt epoch) (some alice) (some alice) = (id, w') ∧ 0 ≤ id.toInt ∧
    (Identifies (t.clockAt epoch) alice alice id ↔ FirstOfItsHash (t.clockAt epoch) alice alice) := by
  let guest : Guest := .arrival epoch ⟨alice, by decide⟩ ⟨alice, by decide⟩ 0
  have hplay : (play State.step .start [(epoch, .new alice alice 0)]).map
      (fun x => (x.1, x.2.guests)) = some ([⟨guest.uid, .none⟩], [guest]) := by decide +kernel
  obtain ⟨tr, t, a, hr, hi, -, ha, hg⟩ := run_of_guests Session.fresh_initial hplay
  obtain ⟨w', hl⟩ := lookup_of_agree (ha.clockAt epoch) alice alice
  have hret : (a.lookup (some alice) (some alice)).ret = guest.uid := by
    rw [State.lookup, hg]
    decide +kernel
  rw [hret] at hl
  have hid : 0 ≤ guest.uid.toInt := by decide +kernel
  exact ⟨tr, t, _, w', hr, hi, hl, hid, id_identifies_iff Session.fresh_initial hr epoch hl hid⟩

/-! Two owners whose names hash alike: `33 * 'a' + 'b' = 33 * 'b' + 'A'`. -/

def ownerAb : CString := ⟨[97, 98], by decide⟩
def ownerBA : CString := ⟨[98, 65], by decide⟩

theorem shared_hash : ∃ tr t id w', Runs .initial tr t ∧
    inputs tr = [(epoch, .new ownerAb alice 0), (epoch, .new ownerBA alice 0)] ∧
    hmstrLookup (t.clockAt epoch) (some ownerBA) (some alice) = (id, w') ∧ 0 ≤ id.toInt ∧
    ¬ Identifies (t.clockAt epoch) ownerBA alice id := by
  let first : Guest := .arrival epoch ⟨ownerAb, by decide⟩ ⟨alice, by decide⟩ 0
  let second : Guest := .arrival epoch ⟨ownerBA, by decide⟩ ⟨alice, by decide⟩ 0
  have hplay : (play State.step .start
      [(epoch, .new ownerAb alice 0), (epoch, .new ownerBA alice 0)]).map
      (fun x => (x.1, x.2.guests)) =
        some ([⟨first.uid, .none⟩, ⟨second.uid, .none⟩], [first, second]) := by decide +kernel
  obtain ⟨tr, t, a, hr, hi, -, ha, hg⟩ := run_of_guests Session.fresh_initial hplay
  obtain ⟨w', hl⟩ := lookup_of_agree (ha.clockAt epoch) ownerBA alice
  have hret : (a.lookup (some ownerBA) (some alice)).ret = makeHash ownerBA alice := by
    rw [State.lookup, hg]
    decide +kernel
  rw [hret] at hl
  refine ⟨tr, t, _, w', hr, hi, hl, by decide +kernel, fun hid => ?_⟩
  have hmem : ∃ g ∈ a.guests, g.named ownerBA alice = true :=
    ⟨second, by rw [hg]; simp, by decide +kernel⟩
  obtain ⟨g, hf, hname, -⟩ := means_of_identifies (ha.clockAt epoch) hmem hid
  have hfirst : a.guests.find? (·.has (makeHash ownerBA alice)) = some first := by
    rw [hg]
    decide +kernel
  rw [hfirst] at hf
  cases hf
  revert hname
  decide +kernel

end Hamster.Contract.Identity
