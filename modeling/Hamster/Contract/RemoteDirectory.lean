import Hamster.Contract.Integrity
import Hamster.Contract.RoundTrip

/-!
# A directory handle of the Java client

The same enumeration twice: through `hmstr_directory` with one `int`, and through the
stub with one `HamsterHandle`. An error reply carries no handle, so the stub keeps the
number of a descriptor that the server has closed. Nothing is said here about a server
that opens more than 2³¹ descriptors.
-/
namespace Hamster.Contract.RemoteDirectory

open Lib.Bytes Lib.Posix Lib.RecordFile Lib.Runs Store Store.Entry Store.Library Store.Scans
  Store.Outcomes Server.Messages Client.Stubs Client.Exchange Contract.Arguments Contract.RoundTrip
open Contract.Integrity (alice)
open Contract.Pairing (wrongMessageId exceptionOf_ne_plain)

/-! ## The two enumerations -/

/-- What the stub makes of a return value. -/
def asJava (ret : BitVec 32) : Except Thrown (BitVec 32) :=
  (exceptionOf ret).elim (.ok ret) fun x => .error (.hamsterRPC x)

/-- The results of calling `hmstr_directory` with one handle. -/
def localResults (o n : Option CString) : Nat → World → Int → List (Except Thrown (BitVec 32))
  | 0, _, _ => []
  | k + 1, w, p =>
    let (ret, q, w') := hmstrDirectory w p o n
    asJava ret :: localResults o n k w' q

/-- A server, a connection to it, and a `HamsterHandle`. -/
structure Remote where
  world : World
  sendHeader : Header
  connection : Connection
  fdptr : BitVec 32

/-- `fdptr.fdptr = rpayload.getInt()`, unless something was thrown before. -/
def assign (fdptr : BitVec 32) : Except Thrown StubResult → BitVec 32
  | .ok (.handle _ p) => p
  | _ => fdptr

def returned : StubResult → BitVec 32
  | .value ret | .handle ret _ | .state ret _ _ _ | .entry ret _ _ _ => ret

/-- The next call of `directory`. -/
def step (o n : Option Lib.Java.JString) (s : Remote) (v : Surroundings) :
    Option (Except Thrown (BitVec 32) × Remote) :=
  (roundTrip s.world s.sendHeader v s.connection (.directory s.fdptr o n)).map
    fun (res, w, sendHeader, c) => (res.map returned, ⟨w, sendHeader, c, assign s.fdptr res⟩)

/-! ## When they agree -/

/-- The records that pass the filter. -/
def matching (w : World) (o n : Option CString) : Nat :=
  (storeEntries w).countP (passesFilter o n)

/-- The replies to the next `k` requests are not taken for others'. -/
def AcceptsNext (c : Connection) (k : Nat) : Prop :=
  ∀ i < k, AcceptsOwn { c with requestCounter := c.requestCounter + BitVec.ofNat 32 i }

/-! ## Where a handle stands -/

section Standing
variable {w : World} {p : Int} {o n : Option CString} {rest : List Hamsterdesc}

/-- What a handle has still to deliver: everything, what lies behind the offset of an open
descriptor, or nothing. -/
inductive Standing (w : World) : Int → List Hamsterdesc → Prop
  | unopened : w.lowestFree < 2 ^ 31 → Standing w (-1) (storeEntries w)
  | opened {fd ino off : Nat} {wr : Bool} {rest : List Hamsterdesc} : fd < 2 ^ 31 →
      w.fds.lookup fd = some (.file ino off wr) → (w.inodes ino).drop off = image rest →
      (∀ h ∈ rest, 0 ≤ h.uid.toInt) → Standing w fd rest
  | ended {fd : Nat} : fd < 2 ^ 31 → fd ∉ w.fds → Standing w fd []

theorem Standing.bounds (h : Standing w p rest) : -1 ≤ p ∧ p < 2 ^ 31 := by
  cases h with
  | unopened => decide
  | opened hlt | ended hlt => omega

theorem settled_setDesc (hw : Settled w) (fd : Nat) (d : Desc) : Settled (w.setDesc fd d) where
  reliable := hw.reliable
  apart := ⟨hw.apart.old, hw.apart.apart⟩
  whole := hw.whole
  ids := hw.ids

theorem settled_close (hw : Settled w) (fd : Nat) : Settled (w.close fd) where
  reliable := hw.reliable
  apart := ⟨hw.apart.old, hw.apart.apart⟩
  whole := hw.whole
  ids := hw.ids

theorem notMem_close (w : World) (fd : Nat) : fd ∉ (w.close fd).fds :=
  Finmap.lookup_eq_none.mp (Finmap.lookup_erase _ _)

/-- A call that delivers a record, and stands behind it. -/
def Delivers (o n : Option CString) (w : World) (p : Int) (rest : List Hamsterdesc) : Prop :=
  ∃ pre h post q w', rest = pre ++ h :: post ∧ (∀ x ∈ pre, passesFilter o n x = false) ∧
    passesFilter o n h = true ∧ 0 ≤ h.uid.toInt ∧ hmstrDirectory w p o n = (h.uid, q, w') ∧
    0 ≤ q ∧ Settled w' ∧ storeEntries w' = storeEntries w ∧ Standing w' q post

/-- A call that ends the enumeration. Its handle is closed if it was open. -/
def Ends (o n : Option CString) (w : World) (p : Int) (rest : List Hamsterdesc) : Prop :=
  (∀ x ∈ rest, passesFilter o n x = false) ∧
    ∃ ret w', hmstrDirectory w p o n = (ret, -1, w') ∧
      (ret = hmstrErrNotFound ∨ ret = hmstrErrCorrupt) ∧ Settled w' ∧
      storeEntries w' = storeEntries w ∧ (p < 0 → w' = w) ∧ (0 ≤ p → Standing w' p [])

section Opened
variable {fd ino off : Nat} {wr : Bool}

theorem opened_delivers (hw : Settled w) (hl : (tooLongOpt o || tooLongOpt n) = false)
    (hlt : fd < 2 ^ 31) (hd : w.fds.lookup fd = some (.file ino off wr))
    (hc : (w.inodes ino).drop off = image rest) (hids : ∀ h ∈ rest, 0 ≤ h.uid.toInt)
    {pre post : List Hamsterdesc} {h : Hamsterdesc} (he : rest = pre ++ h :: post)
    (hpre : ∀ x ∈ pre, passesFilter o n x = false) (hh : passesFilter o n h = true) :
    Delivers o n w fd rest := by
  subst he
  have hcont : (w.inodes ino).drop off = image (pre ++ h :: post) ++ [] := by
    rw [hc, List.append_nil]
  have hhit := directory_hit hw.reliable hd hl hcont hpre hh
  have hafter : (w.inodes ino).drop (off + 96 * (pre.length + 1)) = image post := by
    have hsplit : image (pre ++ h :: post) = image (pre ++ [h]) ++ image post := by simp
    have hlen : (image (pre ++ [h])).length = 96 * (pre.length + 1) := by
      rw [length_image, List.length_append, List.length_singleton]
    rw [← List.drop_drop, hc, hsplit, List.drop_left' hlen]
  refine ⟨pre, h, post, fd, _, rfl, hpre, hh, hids h (by simp), hhit, Int.natCast_nonneg fd,
    settled_setDesc hw _ _, rfl, ?_⟩
  exact .opened hlt (lookup_setDesc ..) hafter fun x hx => hids x (by simp [hx])

theorem opened_ends (hw : Settled w) (hl : (tooLongOpt o || tooLongOpt n) = false)
    (hd : w.fds.lookup fd = some (.file ino off wr)) (hc : (w.inodes ino).drop off = image rest)
    (hno : ∀ x ∈ rest, passesFilter o n x = false) :
    hmstrDirectory w fd o n = (hmstrErrNotFound, -1, w.close fd) := by
  have hcont : (w.inodes ino).drop off = image rest ++ [] := by rw [hc, List.append_nil]
  exact directory_end hw.reliable hd hl hcont (by decide) hno

end Opened

/-- The whole database lies before a handle just opened. -/
theorem drop_opened (hw : Settled w) {ino : Nat} (hn : w.names .datafile = some ino) :
    (w.inodes ino).drop 0 = image (storeEntries w) := by
  have hwhole := image_entries (w.inodes ino)
  rw [hw.whole ino hn, List.append_nil] at hwhole
  rw [storeEntries_present hn, List.drop_zero]
  exact hwhole.symm

/-- A call on any handle that stands somewhere. -/
theorem directory_cases (hw : Settled w) (hl : (tooLongOpt o || tooLongOpt n) = false)
    (hs : Standing w p rest) : Delivers o n w p rest ∨ Ends o n w p rest := by
  have hfirst := first_or_none (passesFilter o n) rest
  cases hs with
  | @opened fd ino off wr rest hlt hd hc hids =>
    rcases hfirst with ⟨-, hno⟩ | ⟨pre, h, post, he, hpre, hh, -⟩
    · exact .inr ⟨hno, _, _, opened_ends hw hl hd hc hno, .inl rfl, settled_close hw fd, rfl,
        fun hneg => by omega, fun _ => .ended hlt (notMem_close w fd)⟩
    · exact .inl (opened_delivers hw hl hlt hd hc hids he hpre hh)
  | @ended fd hlt hd =>
    exact .inr ⟨nofun, _, _, directory_closed hw.reliable hd hl, .inr rfl, settled_close hw fd, rfl,
      fun hneg => by omega, fun _ => .ended hlt (notMem_close w fd)⟩
  | unopened hlt =>
    cases hn : w.names .datafile with
    | none =>
      have habsent := directory_absent hw.reliable hn (show (-1 : Int) < 0 by decide) hl
      rw [storeEntries_absent hn]
      exact .inr ⟨nofun, _, _, habsent, .inl rfl, hw, rfl, fun _ => rfl, nofun⟩
    | some ino =>
      have hopens := directory_opens hw.reliable hn (show (-1 : Int) < 0 by decide) hl
      have hw' := settled_setDesc hw w.lowestFree (.file ino 0 false)
      have hd := lookup_setDesc w w.lowestFree (.file ino 0 false)
      rcases hfirst with ⟨-, hno⟩ | ⟨pre, h, post, he, hpre, hh, -⟩
      · have hend := opened_ends hw' hl hd (drop_opened hw hn) hno
        rw [close_opened] at hend
        exact .inr ⟨hno, _, _, hopens.trans hend, .inl rfl, hw, rfl, fun _ => rfl, nofun⟩
      · obtain ⟨pre, h, post, q, w', he, hpre, hh, hid, hcall, hrest⟩ :=
          opened_delivers hw' hl hlt hd (drop_opened hw hn) hw.ids he hpre hh
        exact .inl ⟨pre, h, post, q, w', he, hpre, hh, hid, hopens.trans hcall, hrest⟩

end Standing

/-! ## A handle that is kept at an error -/

section Kept
variable {w w' : World} {p q : Int} {o n : Option CString} {rest : List Hamsterdesc} {k : Nat}
  {ret : BitVec 32}

/-- The results if `*fdptr` is only assigned when the call succeeds. -/
def keptResults (o n : Option CString) : Nat → World → Int → List (Except Thrown (BitVec 32))
  | 0, _, _ => []
  | k + 1, w, p =>
    let (ret, q, w') := hmstrDirectory w p o n
    asJava ret :: keptResults o n k w' (if 0 ≤ ret.toInt then q else p)

theorem localResults_succ (h : hmstrDirectory w p o n = (ret, q, w')) :
    localResults o n (k + 1) w p = asJava ret :: localResults o n k w' q := by
  rw [localResults, h]

theorem keptResults_succ (h : hmstrDirectory w p o n = (ret, q, w')) :
    keptResults o n (k + 1) w p =
      asJava ret :: keptResults o n k w' (if 0 ≤ ret.toInt then q else p) := by
  rw [keptResults, h]

theorem asJava_of_nonneg (h : 0 ≤ ret.toInt) : asJava ret = .ok ret := by
  rw [asJava, exceptionOf_of_nonneg h]
  rfl

/-- The two errors that end an enumeration. -/
theorem asJava_of_end (h : ret = hmstrErrNotFound ∨ ret = hmstrErrCorrupt) :
    ¬ 0 ≤ ret.toInt ∧ ∃ x, exceptionOf ret = some x := by
  rcases h with rfl | rfl
  · exact ⟨notFound_neg, .notFound, by decide⟩
  · exact ⟨corrupt_neg, .storageError, by decide⟩

theorem countP_delivered {pre post : List Hamsterdesc} {h : Hamsterdesc}
    (hpre : ∀ x ∈ pre, passesFilter o n x = false) (hh : passesFilter o n h = true) :
    (pre ++ h :: post).countP (passesFilter o n) = post.countP (passesFilter o n) + 1 := by
  have hzero : pre.countP (passesFilter o n) = 0 := by
    apply List.countP_eq_zero.mpr
    intro x hx
    rw [hpre x hx]
    decide
  rw [List.countP_append, hzero, Nat.zero_add, List.countP_cons_of_pos hh]

/-- A fresh enumeration starts with a record if there is one. -/
theorem local_starts (hw : Settled w) (hl : (tooLongOpt o || tooLongOpt n) = false)
    (hm : ∃ h ∈ storeEntries w, passesFilter o n h = true) (k : Nat) :
    ∃ id later, localResults o n (k + 1) w (-1) = .ok id :: later := by
  have hsucc : 0 ≤ (hmstrDirectory w (-1) o n).1.toInt := by
    apply (directory_nonneg_iff hw (-1) o n).mpr
    obtain ⟨h, hmem, hh⟩ := hm
    obtain ⟨x, hx⟩ := Option.isSome_iff_exists.mp (List.find?_isSome.mpr ⟨h, hmem, hh⟩)
    exact ⟨hl, x, hx, hw.ids x (List.mem_of_find?_eq_some hx)⟩
  cases hcall : hmstrDirectory w (-1) o n with
  | mk ret after =>
    rw [hcall] at hsucc
    exact ⟨ret, _, (localResults_succ hcall).trans (by rw [asJava_of_nonneg hsucc])⟩

/-- After the end a kept handle is of no more use, while a fresh enumeration starts. -/
theorem kept_ended (hw : Settled w) (hl : (tooLongOpt o || tooLongOpt n) = false)
    (hm : ∃ h ∈ storeEntries w, passesFilter o n h = true) (hs : Standing w p []) (k : Nat) :
    keptResults o n k w p = localResults o n k w (-1) ↔ k = 0 := by
  cases k with
  | zero => exact iff_of_true rfl rfl
  | succ k =>
    refine iff_of_false (fun he => ?_) (Nat.succ_ne_zero k)
    obtain ⟨id, later, hstart⟩ := local_starts hw hl hm k
    rcases directory_cases hw hl hs with ⟨pre, h, post, -, -, hnil, -⟩ | ⟨-, ret, w', hcall, hret, -⟩
    · exact List.append_ne_nil_of_right_ne_nil pre (List.cons_ne_nil h post) hnil.symm
    · obtain ⟨-, x, hx⟩ := asJava_of_end hret
      rw [hstart, keptResults_succ hcall, asJava, hx] at he
      exact nomatch (List.cons_eq_cons.mp he).1

/-- If some record passes, the first error makes the difference. -/
theorem kept_iff (hl : (tooLongOpt o || tooLongOpt n) = false) (k : Nat) {w : World} {p : Int}
    {rest : List Hamsterdesc} (hw : Settled w)
    (hm : ∃ h ∈ storeEntries w, passesFilter o n h = true) (hs : Standing w p rest) :
    keptResults o n k w p = localResults o n k w p ↔ k ≤ rest.countP (passesFilter o n) + 1 := by
  induction k generalizing w p rest with
  | zero => exact iff_of_true rfl (Nat.zero_le _)
  | succ k ih =>
    rcases directory_cases hw hl hs with hdel | ⟨hno, ret, w', hcall, hret, hw', hstore, hsame, hend⟩
    · obtain ⟨pre, h, post, q, w', rfl, hpre, hh, hid, hcall, -, hw', hstore, hs'⟩ := hdel
      have hnext := ih hw' (by rw [hstore]; exact hm) hs'
      rw [keptResults_succ hcall, localResults_succ hcall, if_pos hid, List.cons_inj_right, hnext,
        countP_delivered hpre hh]
      omega
    · have hzero : rest.countP (passesFilter o n) = 0 := by
        apply List.countP_eq_zero.mpr
        intro x hx
        rw [hno x hx]
        decide
      have hopen : 0 ≤ p := by
        by_contra hneg
        obtain ⟨h, hmem, hh⟩ := hm
        cases hs with
        | unopened hlt => exact absurd hh (by rw [hno h hmem]; decide)
        | opened hlt | ended hlt => omega
      rw [keptResults_succ hcall, localResults_succ hcall, if_neg (asJava_of_end hret).1,
        List.cons_inj_right, kept_ended hw' hl (by rw [hstore]; exact hm) (hend hopen), hzero]
      omega

/-- If no record passes, each call opens the database and closes it again. -/
theorem kept_none (hw : Settled w) (hl : (tooLongOpt o || tooLongOpt n) = false)
    (hlt : w.lowestFree < 2 ^ 31) (hno : ∀ h ∈ storeEntries w, passesFilter o n h = false) (k : Nat) :
    keptResults o n k w (-1) = localResults o n k w (-1) := by
  induction k with
  | zero => rfl
  | succ k ih =>
    rcases directory_cases hw hl (.unopened hlt) with hdel | ⟨-, ret, w', hcall, hret, -, -, hsame, -⟩
    · obtain ⟨pre, h, post, -, -, he, -, hh, -⟩ := hdel
      have hmem : h ∈ storeEntries w := by rw [he]; simp
      rw [hno h hmem] at hh
      cases hh
    · obtain rfl := hsame (by decide)
      rw [keptResults_succ hcall, localResults_succ hcall, if_neg (asJava_of_end hret).1, ih]

theorem keptResults_iff (hw : Settled w) (hl : (tooLongOpt o || tooLongOpt n) = false)
    (hlt : w.lowestFree < 2 ^ 31) (k : Nat) :
    keptResults o n k w (-1) = localResults o n k w (-1) ↔
      matching w o n = 0 ∨ k ≤ matching w o n + 1 := by
  by_cases hm : ∃ h ∈ storeEntries w, passesFilter o n h = true
  · have hpos : 0 < matching w o n := List.countP_pos_iff.mpr hm
    rw [kept_iff hl k hw hm (.unopened hlt), or_iff_right (Nat.ne_of_gt hpos)]
    rfl
  · have hno : ∀ h ∈ storeEntries w, passesFilter o n h = false := by
      intro h hmem
      exact Bool.eq_false_iff.mpr fun hh => hm ⟨h, hmem, hh⟩
    have hzero : matching w o n = 0 := by
      apply List.countP_eq_zero.mpr
      exact fun h hmem hh => hm ⟨h, hmem, hh⟩
    exact iff_of_true (kept_none hw hl hlt hno k) (.inl hzero)

end Kept

/-! ## The stub's handle -/

section Remote
variable {s m : Remote} {o n : Option Lib.Java.JString} {v : Surroundings}
  {out : Except Thrown (BitVec 32)} {ret : BitVec 32} {q : Int} {w' : World}

theorem tooLong_wireFilter {x : Option Lib.Java.JString} (h : checkNonNull x = .ok ()) :
    tooLongOpt (wireFilter x) = false := by
  obtain ⟨k, hk⟩ := getStaticAscii_of_checked h
  have hroom := congrArg List.length hk
  rw [length_getStaticAscii, List.length_append, List.length_cons] at hroom
  have hshort : (wireName x).strlen ≤ ((x.map Lib.Java.asciiBytes).getD []).length :=
    (List.takeWhile_prefix _).length_le
  unfold wireFilter
  split
  · rfl
  · exact decide_eq_false (Nat.not_lt.mpr (show (wireName x).strlen ≤ 31 by omega))

theorem toInt_ofInt_handle (hq : -1 ≤ q ∧ q < 2 ^ 31) : (BitVec.ofInt 32 q).toInt = q := by
  rw [BitVec.toInt_ofInt]
  exact Int.bmod_eq_of_le (by omega) (by omega)

theorem outcome_handle {p : BitVec 32} (hq : -1 ≤ q ∧ q < 2 ^ 31)
    (he : 0 ≤ ret.toInt ∨ ∃ x, exceptionOf ret = some x) :
    (javaOutcome ⟨ret, .handle q⟩).map returned = asJava ret ∧
      (assign p (javaOutcome ⟨ret, .handle q⟩)).toInt = if 0 ≤ ret.toInt then q else p.toInt := by
  rcases he with hr | ⟨x, hx⟩
  · rw [javaOutcome, exceptionOf_of_nonneg hr, asJava_of_nonneg hr, if_pos hr]
    exact ⟨rfl, toInt_ofInt_handle hq⟩
  · have hneg : ¬ 0 ≤ ret.toInt := by
      intro hr
      rw [exceptionOf_of_nonneg hr] at hx
      cases hx
    rw [javaOutcome, asJava, hx, if_neg hneg]
    exact ⟨rfl, rfl⟩

theorem checked_directory (p : BitVec 32) (hc : checkNonNull o = .ok () ∧ checkNonNull n = .ok ()) :
    Checked (.directory p o n) := by
  intro x hx
  rcases List.mem_cons.mp hx with rfl | hx
  · exact hc.1
  · rw [List.mem_singleton.mp hx]
    exact hc.2

theorem tooLong_filters (hc : checkNonNull o = .ok () ∧ checkNonNull n = .ok ()) :
    (tooLongOpt (wireFilter o) || tooLongOpt (wireFilter n)) = false := by
  rw [tooLong_wireFilter hc.1, tooLong_wireFilter hc.2]
  rfl

/-- The reply to a call that is taken for it assigns the handle at a success; another
ends in `wrong message ID`. -/
theorem step_spec (hc : checkNonNull o = .ok () ∧ checkNonNull n = .ok ())
    (hcall : hmstrDirectory s.world s.fdptr.toInt (wireFilter o) (wireFilter n) = (ret, q, w'))
    (hq : -1 ≤ q ∧ q < 2 ^ 31) (he : 0 ≤ ret.toInt ∨ ∃ x, exceptionOf ret = some x)
    (hs : step o n s v = some (out, m)) :
    m.world = w' ∧ m.connection = advanced s.connection ∧
      (AcceptsOwn s.connection → out = asJava ret ∧
        m.fdptr.toInt = if 0 ≤ ret.toInt then q else s.fdptr.toInt) ∧
      (¬ AcceptsOwn s.connection → out = .error wrongMessageId) := by
  have hchecked := checked_directory s.fdptr hc
  have hex : (wireCall (.directory s.fdptr o n)).exec s.world = some (⟨ret, .handle q⟩, w') := by
    rw [wireCall, exec_directory, hcall]
  have hfits : 0 ≤ ret.toInt → Results.Fits (.directory s.fdptr o n) (.handle q) :=
    fun _ => toInt_ofInt_handle hq
  have herr : ret.toInt < 0 → (exceptionOf ret).isSome := by
    intro hneg
    obtain ⟨x, hx⟩ := he.resolve_left (Int.not_le.mpr hneg)
    rw [hx]
    rfl
  obtain ⟨stale', heq⟩ := roundTrip_eq s.sendHeader v s.connection
    (show Sends (.directory s.fdptr o n) from hc) hchecked hex
  rw [step, heq] at hs
  cases hs
  obtain ⟨hout, hhandle⟩ := outcome_handle (p := s.fdptr) hq he
  refine ⟨rfl, rfl, fun ha => ?_, fun hother => ?_⟩
  · dsimp only
    rw [receive_own (r := ⟨ret, .handle q⟩) (fun hr => ⟨hfits hr, trivial⟩) herr ha]
    exact ⟨hout, hhandle⟩
  · rw [receive_other (r := ⟨ret, .handle q⟩) hfits hother]
    rfl

theorem acceptsNext_succ (c : Connection) (k : Nat) :
    AcceptsNext c (k + 1) ↔ AcceptsOwn c ∧ AcceptsNext (advanced c) k := by
  have hlater (i : Nat) : { c with requestCounter := c.requestCounter + BitVec.ofNat 32 (i + 1) } =
      { advanced c with
        requestCounter := (advanced c).requestCounter + BitVec.ofNat 32 i } := by
    have hsum : c.requestCounter + BitVec.ofNat 32 (i + 1) =
        c.requestCounter + 1 + BitVec.ofNat 32 i := by
      rw [BitVec.add_assoc, Nat.add_comm i 1, BitVec.ofNat_add]
      rfl
    rw [hsum]
    rfl
  have hnow : { c with requestCounter := c.requestCounter + BitVec.ofNat 32 0 } = c := by
    rw [BitVec.add_zero]
  constructor
  · intro h
    refine ⟨?_, fun i hi => ?_⟩
    · have hfirst := h 0 (Nat.succ_pos k)
      rwa [hnow] at hfirst
    · rw [← hlater]
      exact h (i + 1) (Nat.succ_lt_succ hi)
  · rintro ⟨hfirst, hrest⟩ i hi
    cases i with
    | zero =>
      rw [hnow]
      exact hfirst
    | succ i =>
      rw [hlater]
      exact hrest i (Nat.lt_of_succ_lt_succ hi)

/-- A call of the stub on a handle that stands somewhere leaves one that does. -/
theorem step_stands {rest : List Hamsterdesc} (hc : checkNonNull o = .ok () ∧ checkNonNull n = .ok ())
    (hw : Settled s.world) (hst : Standing s.world s.fdptr.toInt rest)
    (hs : step o n s v = some (out, m)) :
    m.connection = advanced s.connection ∧
      (AcceptsOwn s.connection → Settled m.world ∧ (∃ rest', Standing m.world m.fdptr.toInt rest') ∧
        ∀ k, keptResults (wireFilter o) (wireFilter n) (k + 1) s.world s.fdptr.toInt =
          out :: keptResults (wireFilter o) (wireFilter n) k m.world m.fdptr.toInt) ∧
      (¬ AcceptsOwn s.connection → out = .error wrongMessageId) := by
  have hl := tooLong_filters hc
  rcases directory_cases hw hl hst with hdel | ⟨-, ret, w', hcall, hret, hw', -, hsame, hend⟩
  · obtain ⟨pre, h, post, q, w', -, -, -, hid, hcall, -, hw', -, hst'⟩ := hdel
    obtain ⟨rfl, hconn, hown, hother⟩ := step_spec hc hcall hst'.bounds (.inl hid) hs
    refine ⟨hconn, fun ha => ?_, hother⟩
    obtain ⟨rfl, hp⟩ := hown ha
    rw [if_pos hid] at hp
    refine ⟨hw', ⟨post, by rw [hp]; exact hst'⟩, fun k => ?_⟩
    rw [keptResults_succ hcall, if_pos hid, hp]
  · have herr := asJava_of_end hret
    obtain ⟨rfl, hconn, hown, hother⟩ := step_spec hc hcall (by decide) (.inr herr.2) hs
    refine ⟨hconn, fun ha => ?_, hother⟩
    obtain ⟨rfl, hp⟩ := hown ha
    rw [if_neg herr.1] at hp
    refine ⟨hw', ?_, fun k => ?_⟩
    · rw [hp]
      rcases Int.lt_or_le s.fdptr.toInt 0 with hneg | hpos
      · exact ⟨rest, by rw [hsame hneg]; exact hst⟩
      · exact ⟨[], hend hpos⟩
    · rw [keptResults_succ hcall, if_neg herr.1, hp]

/-- A whole enumeration gives the results of a kept handle, unless some reply is taken
for another's. -/
theorem run_outputs {tr : List (Event Remote Surroundings (Except Thrown (BitVec 32)))}
    (hc : checkNonNull o = .ok () ∧ checkNonNull n = .ok ()) (hr : Run (step o n) s tr m) :
    ∀ {rest : List Hamsterdesc}, Settled s.world → Standing s.world s.fdptr.toInt rest →
      (AcceptsNext s.connection tr.length → outputs tr =
        keptResults (wireFilter o) (wireFilter n) tr.length s.world s.fdptr.toInt) ∧
      (¬ AcceptsNext s.connection tr.length → .error wrongMessageId ∈ outputs tr) := by
  induction hr with
  | nil s => exact fun _ _ => ⟨fun _ => rfl, fun hno => absurd nofun hno⟩
  | @cons s m t v out tr hstep _ ih =>
    intro rest hw hst
    obtain ⟨hconn, hown, hother⟩ := step_stands hc hw hst hstep
    rw [List.length_cons, acceptsNext_succ]
    by_cases ha : AcceptsOwn s.connection
    · obtain ⟨hw', ⟨rest', hst'⟩, hkept⟩ := hown ha
      obtain ⟨hall, hsome⟩ := ih hw' hst'
      rw [← hconn, and_iff_right ha]
      constructor
      · intro hrest
        rw [hkept, ← hall hrest]
        rfl
      · exact fun hno => List.mem_cons_of_mem _ (hsome hno)
    · refine ⟨fun h => absurd h.1 ha, fun _ => ?_⟩
      rw [hother ha]
      exact List.mem_cons_self

theorem wrongMessageId_notMem_local {o n : Option CString} (k : Nat) (w : World) (p : Int) :
    .error wrongMessageId ∉ localResults o n k w p := by
  induction k generalizing w p with
  | zero => exact List.not_mem_nil
  | succ k ih =>
    rw [localResults, List.mem_cons]
    rintro (he | hmem)
    · unfold asJava at he
      cases hx : exceptionOf (hmstrDirectory w p o n).1 with
      | none =>
        rw [hx] at he
        cases he
      | some x =>
        rw [hx] at he
        exact exceptionOf_ne_plain hx _ (Thrown.hamsterRPC.inj (Except.error.inj he)).symm
    · exact ih _ _ hmem

theorem step_isSome (hc : checkNonNull o = .ok () ∧ checkNonNull n = .ok ()) (s : Remote)
    (v : Surroundings) : ∃ out m, step o n s v = some (out, m) := by
  have hchecked := checked_directory s.fdptr hc
  have hex := exec_directory s.world s.fdptr.toInt (wireFilter o) (wireFilter n)
  obtain ⟨stale', heq⟩ := roundTrip_eq s.sendHeader v s.connection
    (show Sends (.directory s.fdptr o n) from hc) hchecked hex
  exact ⟨_, _, by rw [step, heq]; rfl⟩

/-- The server and the stub go on for any number of calls. -/
theorem exists_run (hc : checkNonNull o = .ok () ∧ checkNonNull n = .ok ()) (s : Remote) (k : Nat) :
    ∃ tr m, Run (step o n) s tr m ∧ tr.length = k := by
  obtain ⟨tr, m, hr, hin, -⟩ := Run.exists_of (fun _ _ => True)
    (fun s v _ _ => let ⟨out, m, hs⟩ := step_isSome hc s v; ⟨out, m, hs, trivial⟩)
    (List.replicate k Surroundings.plain) s trivial
  have hlen := congrArg List.length hin
  rw [inputs, List.length_map, List.length_replicate] at hlen
  exact ⟨tr, m, hr, hlen⟩

theorem outputs_eq_iff {w : World} {stale : Header} {c : Connection}
    {tr : List (Event Remote Surroundings (Except Thrown (BitVec 32)))}
    (hc : checkNonNull o = .ok () ∧ checkNonNull n = .ok ()) (hw : Settled w)
    (hlt : w.lowestFree < 2 ^ 31) (hr : Run (step o n) ⟨w, stale, c, -1⟩ tr m) :
    outputs tr = localResults (wireFilter o) (wireFilter n) tr.length w (-1) ↔
      (matching w (wireFilter o) (wireFilter n) = 0 ∨
        tr.length ≤ matching w (wireFilter o) (wireFilter n) + 1) ∧ AcceptsNext c tr.length := by
  have hl := tooLong_filters hc
  have hst : Standing w (-1 : BitVec 32).toInt (storeEntries w) := .unopened hlt
  obtain ⟨hall, hsome⟩ := run_outputs hc hr hw hst
  by_cases ha : AcceptsNext c tr.length
  · rw [hall ha, and_iff_left ha]
    exact keptResults_iff hw hl hlt tr.length
  · refine iff_of_false (fun he => ?_) fun h => ha h.2
    have hmem := hsome ha
    rw [he] at hmem
    exact wrongMessageId_notMem_local _ _ _ hmem

end Remote

/-- A run of the stub with one handle, and the same number of local calls. The names are
checked strings, taken by the library as the stub encodes them. -/
theorem handle_agrees_iff {s t : Session} (hs : s.Fresh) {past : List (Event Session Input Reply)}
    (h : Runs s past t) (hlt : t.world.lowestFree < 2 ^ 31) {o n : Option Lib.Java.JString}
    (hc : checkNonNull o = .ok () ∧ checkNonNull n = .ok ()) {stale : Header} {c : Connection}
    {tr : List (Event Remote Surroundings (Except Thrown (BitVec 32)))} {m : Remote}
    (hr : Run (step o n) ⟨t.world, stale, c, -1⟩ tr m) :
    outputs tr = localResults (wireFilter o) (wireFilter n) tr.length t.world (-1) ↔
      (matching t.world (wireFilter o) (wireFilter n) = 0 ∨
        tr.length ≤ matching t.world (wireFilter o) (wireFilter n) + 1) ∧
      AcceptsNext c tr.length := by
  obtain ⟨_, a, -, ha, -⟩ := Asylum.reachable_represents hs h
  exact outputs_eq_iff hc (Asylum.settled_of_represents ha) hlt hr

/-- A session in which one hamster was admitted. -/
def listed : Session := .ofOne .epoch alice alice 0

theorem runs_listed : Runs .initial [Session.admission .epoch alice alice 0] listed :=
  Session.runs_ofOne ..

theorem lowestFree_listed : listed.world.lowestFree < 2 ^ 31 := by
  rw [listed, Session.lowestFree_ofOne (by decide)]
  decide

theorem matching_listed : matching listed.world none none = 1 := by
  rw [matching, listed, Session.storeEntries_ofOne (by decide)]
  rfl

theorem handle_agrees_first : ∃ tr m,
    Run (step none none) ⟨listed.world, ⟨0, 0, 0, 0, 0⟩, .opened false, -1⟩ tr m ∧ tr.length = 2 ∧
      outputs tr = localResults none none 2 listed.world (-1) := by
  obtain ⟨tr, m, hr, hlen⟩ := exists_run (o := none) (n := none) ⟨rfl, rfl⟩
    ⟨listed.world, ⟨0, 0, 0, 0, 0⟩, .opened false, -1⟩ 2
  refine ⟨tr, m, hr, hlen, ?_⟩
  have hiff := handle_agrees_iff Session.fresh_initial runs_listed lowestFree_listed ⟨rfl, rfl⟩ hr
  rw [hlen] at hiff
  exact hiff.mpr ⟨.inr (by rw [show wireFilter none = none from rfl, matching_listed]), by
    show ∀ i < 2, _
    decide⟩

/-- The third call asks for a fresh enumeration. -/
theorem handle_not_renewed : ∃ tr m, Runs .initial [Session.admission .epoch alice alice 0] listed ∧
    Run (step none none) ⟨listed.world, ⟨0, 0, 0, 0, 0⟩, .opened false, -1⟩ tr m ∧ tr.length = 3 ∧
      outputs tr ≠ localResults none none 3 listed.world (-1) := by
  obtain ⟨tr, m, hr, hlen⟩ := exists_run (o := none) (n := none) ⟨rfl, rfl⟩
    ⟨listed.world, ⟨0, 0, 0, 0, 0⟩, .opened false, -1⟩ 3
  refine ⟨tr, m, runs_listed, hr, hlen, fun he => ?_⟩
  obtain ⟨_, a, -, ha, -⟩ := Asylum.reachable_represents Session.fresh_initial runs_listed
  have hiff := outputs_eq_iff ⟨rfl, rfl⟩ (Asylum.settled_of_represents ha) lowestFree_listed hr
  rw [hlen, show wireFilter none = none from rfl, matching_listed] at hiff
  have hshort := (hiff.mp he).1
  omega

end Hamster.Contract.RemoteDirectory
