import Hamster.Lib.Buffer
import Hamster.Server.Protocol

/-!
# The handlers on buffers with an end

payloadHandler.c once more, and the library functions it passes names to, with every
access to the payload and to the two name arrays checked: the outermost `none` is a
read outside. The functions that take no name are used as they are.
-/
namespace Hamster.Server.Bounded

open Lib.Bytes Lib.Buffer Lib.Clock Lib.Memory Lib.Posix Lib.RecordFile Store.Entry Store.Library
  Wire Messages Handlers Protocol

/-! ## The library on name arrays -/

section Names
variable (owner hamster : List Byte)

/-- `strlen(name) > HMSTR_MAX_NAME` -/
def tooLongIn : Option Bool := (strlen owner).map fun n => hmstrMaxName < n

/-- `name && strlen(name) > HMSTR_MAX_NAME` -/
def tooLongOptIn (name : Option (List Byte)) : Option Bool :=
  match name with
  | none => some false
  | some buf => tooLongIn buf

/-- `!strcmp(h.owner, owner_name) && !strcmp(h.name, hamster_name)` -/
def isPairIn (h : Hamsterdesc) : Option Bool :=
  andThen (strsame h.ownerStr.chars owner) (strsame h.nameStr.chars hamster)

/-- `!name || !strcmp(field, name)` -/
def passesIn (field : CString) (name : Option (List Byte)) : Option Bool :=
  match name with
  | none => some true
  | some buf => strsame field.chars buf

def scanEntriesIn (test : Hamsterdesc → Option Bool) (w : World) (fd : Nat) :
    Option (ScanEnd × World) :=
  scanOpt sizeofHamsterdesc (fun bs => test (Hamsterdesc.ofBytes bs)) w fd

/-- `make_hash` copies both names as well. -/
def newEntryIn (now : Timestamp) (treats : BitVec 16) : Option Hamsterdesc :=
  (strcpyFrom owner).bind fun o => (strcpyFrom hamster).map fun n => newEntry now o n treats

def hmstrNewIn (w : World) (treats : BitVec 16) : Option (BitVec 32 × World) :=
  (orElse (tooLongIn owner) (tooLongIn hamster)).bind fun tooLong =>
    if tooLong then some (hmstrErrNameTooLong, w)
    else
      match w.openFile .datafile .rdwrCreat with
      | (none, w) => some (hmstrErrStore, w)
      | (some fd, w) =>
        (scanEntriesIn (isPairIn owner hamster) w fd).bind fun
          | (.hit _, w) => some (hmstrErrExists, w.close fd)
          | (.stop none, w) => some (hmstrErrStore, w.close fd)
          | (.stop (some bs), w) =>
            if 0 < bs.length then some (hmstrErrCorrupt, w.close fd)
            else (newEntryIn owner hamster w.now treats).map fun h =>
              match w.write fd h.toBytes with
              | (written, w) =>
                if written = some sizeofHamsterdesc then (h.uid, w.close fd)
                else (hmstrErrStore, w.close fd)

def hmstrLookupIn (w : World) : Option (BitVec 32 × World) :=
  (orElse (tooLongIn owner) (tooLongIn hamster)).bind fun tooLong =>
    if tooLong then some (hmstrErrNameTooLong, w)
    else
      match w.openFile .datafile .rdonly with
      | (none, w) => some (hmstrErrNotFound, w)
      | (some fd, w) =>
        (scanEntriesIn (isPairIn owner hamster) w fd).map fun
          | (.hit bs, w) => ((Hamsterdesc.ofBytes bs).uid, w.close fd)
          | (.stop last, w) =>
            (if last = some [] then hmstrErrNotFound else hmstrErrCorrupt, w.close fd)

end Names

def hmstrDirectoryIn (w : World) (fdptr : Int) (ownerName hamsterName : Option (List Byte)) :
    Option (BitVec 32 × Int × World) :=
  (orElse (tooLongOptIn ownerName) (tooLongOptIn hamsterName)).bind fun tooLong =>
    if tooLong then some (hmstrErrNameTooLong, fdptr, w)
    else
      match directoryFd w fdptr with
      | (none, w) => some (hmstrErrNotFound, -1, w)
      | (some fd, w) =>
        (scanEntriesIn (fun h => andThen (passesIn h.ownerStr ownerName)
            (passesIn h.nameStr hamsterName)) w fd).map fun
          | (.hit bs, w) => ((Hamsterdesc.ofBytes bs).uid, fd, w)
          | (.stop last, w) =>
            (if last = some [] then hmstrErrNotFound else hmstrErrCorrupt, -1, w.close fd)

/-- The inner `none` is the aborted process. -/
def collectLoopIn (owner : List Byte) (fdi fd : Nat) :
    Nat → World → BitVec 32 → Bool → Option (Option (CollectEnd × World))
  | 0, w, totalPrice, found => some (some (.read none totalPrice found, w))
  | fuel + 1, w, totalPrice, found =>
    match w.read fdi sizeofHamsterdesc with
    | (none, w) => some (some (.read none totalPrice found, w))
    | (some bs, w) =>
      if bs.length = sizeofHamsterdesc then
        let h := Hamsterdesc.ofBytes bs
        (strsame h.ownerStr.chars owner).bind fun same =>
          if same then
            match getRounds w.now h.admissionTime with
            | none => some none
            | some rounds =>
                collectLoopIn owner fdi fd fuel w (totalPrice + charge h rounds) true
          else
            match w.write fd h.toBytes with
            | (written, w) =>
              if written = some sizeofHamsterdesc then
                collectLoopIn owner fdi fd fuel w totalPrice found
              else some (some (.writeFailed, w))
      else some (some (.read (some bs) totalPrice found, w))

def hmstrCollectIn (w : World) (owner : List Byte) : Option (Option (BitVec 32 × World)) :=
  (tooLongIn owner).bind fun tooLong =>
    if tooLong then some (some (hmstrErrNameTooLong, w))
    else
      match w.rename .datafile .intermediateFile with
      | (false, w) => some (some (hmstrErrStore, w))
      | (true, w) =>
        match w.openFile .intermediateFile .rdonly with
        | (none, w) => some (some (hmstrErrStore, w))
        | (some fdi, w) =>
          match w.openFile .datafile .rdwrCreat with
          | (none, w) => some (some (hmstrErrStore, w))
          | (some fd, w) =>
            (collectLoopIn owner fdi fd (unread w fdi + 1) w 0 false).map fun
              | none => none
              | some (.writeFailed, w) => some (hmstrErrStore, (w.close fd).close fdi)
              | some (.read last totalPrice found, w) =>
                let w := (w.close fd).close fdi
                match last with
                | none => some (hmstrErrStore, w)
                | some (_ :: _) => some (hmstrErrCorrupt, w)
                | some [] =>
                  match w.unlink .intermediateFile with
                  | (false, w) => some (hmstrErrStore, w)
                  | (true, w) => some (if found then totalPrice else hmstrErrNotFound, w)

/-! ## payloadHandler.c -/

section Execute
variable (w : World) (payloadStream : List Byte)

/-- `rpc_decode_sstring`: all 32 bytes, whatever they are. -/
def decodeSstring (off : Nat) : Option (List Byte) := fetch payloadStream off 32

def decodeInt32 (off : Nat) : Option (BitVec 32) :=
  (fetch payloadStream off 4).map fun bs => rpcDecodeInt32 (poke (fun _ => 0) 0 bs) 0

def decodeUint16 (off : Nat) : Option (BitVec 16) :=
  (fetch payloadStream off 2).map fun bs => rpcDecodeUint16 (poke (fun _ => 0) 0 bs) 0

/-- `if(owner[0] == '\0') ownerptr = NULL;` -/
def nullIfEmpty (name : List Byte) : Option (List Byte) :=
  if name.head? = some 0 then none else some name

def executeNew : Option (Option (BitVec 32 × World)) :=
  (decodeSstring payloadStream 0).bind fun owner =>
    (decodeSstring payloadStream 32).bind fun hamster =>
      (decodeUint16 payloadStream 64).bind fun treats =>
        (hmstrNewIn owner hamster w treats).map some

def executeLookUp : Option (Option (BitVec 32 × World)) :=
  (decodeSstring payloadStream 0).bind fun owner =>
    (decodeSstring payloadStream 32).bind fun hamster => (hmstrLookupIn owner hamster w).map some

/-- The owner is printed with `%s` before the call. -/
def executeDirectory : Option (Option (BitVec 32 × World)) :=
  (decodeInt32 payloadStream 0).bind fun fd =>
    (decodeSstring payloadStream 4).bind fun owner =>
      (decodeSstring payloadStream 36).bind fun hamster =>
        (strlen owner).bind fun _ =>
          (hmstrDirectoryIn w fd.toInt (nullIfEmpty owner) (nullIfEmpty hamster)).map
            fun (result, _, w) => some (result, w)

def executeHowsDoing : Option (Option (BitVec 32 × World)) :=
  (decodeInt32 payloadStream 0).map fun hamsterID =>
    (hmstrHowsdoing w hamsterID blankState).map fun (result, _, w) => (result, w)

def executeReadEntry : Option (Option (BitVec 32 × World)) :=
  (decodeInt32 payloadStream 0).map fun hamsterID =>
    (hmstrReadentry w hamsterID blankName blankName 0).map fun (treats, _, _, _, w) => (treats, w)

def executeGiveTreats : Option (Option (BitVec 32 × World)) :=
  (decodeInt32 payloadStream 0).bind fun hamsterID =>
    (decodeUint16 payloadStream 4).map fun treats => some (hmstrGivetreats w hamsterID treats)

def executeCollect : Option (Option (BitVec 32 × World)) :=
  (decodeSstring payloadStream 0).bind fun owner => hmstrCollectIn w owner

/-- The result and the world after a request. -/
def execute (rpcID : BitVec 16) : Option (Option (BitVec 32 × World)) :=
  match rpcID.toNat with
  | 1 => executeNew w payloadStream
  | 2 => executeLookUp w payloadStream
  | 3 => executeDirectory w payloadStream
  | 4 => executeHowsDoing w payloadStream
  | 5 => executeReadEntry w payloadStream
  | 6 => executeGiveTreats w payloadStream
  | 7 => executeCollect w payloadStream
  | _ => some (some (0, w))

end Execute

/-! ## Inside the buffers nothing changes -/

section Terminated
variable {owner hamster : List Byte} {w : World}

theorem tooLongIn_of_mem (h : (0 : Byte) ∈ owner) :
    tooLongIn owner = some (tooLong (cstr owner)) := by
  rw [tooLongIn, strlen_of_mem h, Option.map_some]
  rfl

theorem tooLongIn_of_notMem (h : (0 : Byte) ∉ owner) : tooLongIn owner = none := by
  rw [tooLongIn, strlen_of_notMem h, Option.map_none]

/-- A zero within 32 bytes leaves 31 characters at most. -/
theorem tooLong_of_mem (h : (0 : Byte) ∈ owner) (hl : owner.length = 32) :
    tooLong (cstr owner) = false := by
  obtain ⟨front, back, rfl, hf⟩ := List.eq_append_cons_of_mem h
  have hs : cstr (front ++ 0 :: back) = ⟨front, hf⟩ := cstr_terminated ⟨front, hf⟩ back
  rw [List.length_append, List.length_cons] at hl
  simp only [hs, tooLong, CString.strlen, hmstrMaxName, decide_eq_false_iff_not]
  omega

theorem scanEntriesIn_eq {test : Hamsterdesc → Option Bool} {t : Hamsterdesc → Bool}
    (h : ∀ x, test x = some (t x)) (w : World) (fd : Nat) :
    scanEntriesIn test w fd = some (scanEntries t w fd) := scanOpt_eq (fun _ => h _) w fd

theorem isPairIn_of_mem (ho : (0 : Byte) ∈ owner) (hn : (0 : Byte) ∈ hamster) (h : Hamsterdesc) :
    isPairIn owner hamster h =
      some (decide (h.ownerStr = cstr owner) && decide (h.nameStr = cstr hamster)) := by
  rw [isPairIn, strsame_of_mem _ ho, strsame_of_mem _ hn, andThen_some]

theorem newEntryIn_of_mem (ho : (0 : Byte) ∈ owner) (hn : (0 : Byte) ∈ hamster) (now : Timestamp)
    (treats : BitVec 16) :
    newEntryIn owner hamster now treats = some (newEntry now (cstr owner) (cstr hamster) treats) := by
  rw [newEntryIn, strcpyFrom_of_mem ho, strcpyFrom_of_mem hn, Option.bind_some, Option.map_some]

/-- The length check of a pair of arrays leaves them unless both hold a zero. -/
theorem pairCheck_none (hl : owner.length = 32) (h : ¬ ((0 : Byte) ∈ owner ∧ (0 : Byte) ∈ hamster)) :
    orElse (tooLongIn owner) (tooLongIn hamster) = none := by
  by_cases ho : (0 : Byte) ∈ owner
  · rw [tooLongIn_of_mem ho, tooLong_of_mem ho hl, tooLongIn_of_notMem fun hn => h ⟨ho, hn⟩]
    rfl
  · rw [tooLongIn_of_notMem ho]
    rfl

theorem hmstrNewIn_eq (hl : owner.length = 32) (treats : BitVec 16) :
    hmstrNewIn owner hamster w treats =
      if (0 : Byte) ∈ owner ∧ (0 : Byte) ∈ hamster then
        some (hmstrNew w (cstr owner) (cstr hamster) treats)
      else none := by
  split
  · rename_i h
    rw [hmstrNewIn, tooLongIn_of_mem h.1, tooLongIn_of_mem h.2, orElse_some, Option.bind_some,
      hmstrNew]
    split
    · rfl
    · cases w.openFile .datafile .rdwrCreat with
      | mk got w =>
        cases got with
        | none => rfl
        | some fd =>
          have hscan := scanEntriesIn_eq (isPairIn_of_mem h.1 h.2) w fd
          have hentry (w : World) := newEntryIn_of_mem h.1 h.2 w.now treats
          dsimp only
          cases hs : scanEntries (fun x => decide (x.ownerStr = cstr owner) &&
            decide (x.nameStr = cstr hamster)) w fd with
          | mk stop w' =>
            rw [hs] at hscan
            refine (congrArg (Option.bind · _) hscan).trans ?_
            cases stop with
            | hit bs => rfl
            | stop last =>
              cases last with
              | none => rfl
              | some bs =>
                simp only [Option.bind_some]
                split
                · rfl
                · exact congrArg (Option.map _) (hentry w')
  · rename_i h
    rw [hmstrNewIn, pairCheck_none hl h, Option.bind_none]

theorem hmstrLookupIn_eq (hl : owner.length = 32) :
    hmstrLookupIn owner hamster w =
      if (0 : Byte) ∈ owner ∧ (0 : Byte) ∈ hamster then
        some (hmstrLookup w (some (cstr owner)) (some (cstr hamster)))
      else none := by
  split
  · rename_i h
    rw [hmstrLookupIn, tooLongIn_of_mem h.1, tooLongIn_of_mem h.2, orElse_some, Option.bind_some,
      hmstrLookup]
    split
    · rfl
    · cases w.openFile .datafile .rdonly with
      | mk got w =>
        cases got with
        | none => rfl
        | some fd =>
          have hscan := scanEntriesIn_eq (isPairIn_of_mem h.1 h.2) w fd
          dsimp only
          cases hs : scanEntries (fun x => decide (x.ownerStr = cstr owner) &&
            decide (x.nameStr = cstr hamster)) w fd with
          | mk stop w' =>
            rw [hs] at hscan
            refine (congrArg (Option.map _) hscan).trans ?_
            cases stop <;> rfl
  · rename_i h
    rw [hmstrLookupIn, pairCheck_none hl h, Option.bind_none]

end Terminated

section Optional
variable {w : World} {o n : Option (List Byte)}

/-- The name, if any, ends within its array. -/
def Ends (name : Option (List Byte)) : Prop := ∀ buf ∈ name, (0 : Byte) ∈ buf

theorem tooLongOptIn_of_ends (h : Ends o) : tooLongOptIn o = some (tooLongOpt (o.map cstr)) := by
  cases o with
  | none => rfl
  | some buf => exact tooLongIn_of_mem (h buf rfl)

theorem passesIn_of_ends (h : Ends o) (field : CString) :
    passesIn field o = some ((o.map cstr).all fun s => field = s) := by
  cases o with
  | none => rfl
  | some buf => exact strsame_of_mem field (h buf rfl)

theorem hmstrDirectoryIn_eq (ho : Ends o) (hn : Ends n) (fdptr : Int) :
    hmstrDirectoryIn w fdptr o n = some (hmstrDirectory w fdptr (o.map cstr) (n.map cstr)) := by
  rw [hmstrDirectoryIn, tooLongOptIn_of_ends ho, tooLongOptIn_of_ends hn, orElse_some,
    Option.bind_some, hmstrDirectory]
  split
  · rfl
  · cases directoryFd w fdptr with
    | mk got w =>
      cases got with
      | none => rfl
      | some fd =>
        have htest (h : Hamsterdesc) : andThen (passesIn h.ownerStr o) (passesIn h.nameStr n) =
            some (passesFilter (o.map cstr) (n.map cstr) h) := by
          rw [passesIn_of_ends ho, passesIn_of_ends hn, andThen_some]
          rfl
        have hscan := scanEntriesIn_eq htest w fd
        dsimp only
        cases hs : scanEntries (passesFilter (o.map cstr) (n.map cstr)) w fd with
        | mk stop w' =>
          rw [hs] at hscan
          refine (congrArg (Option.map _) hscan).trans ?_
          cases stop <;> rfl

/-- The second name is looked at unless the first is too long. -/
theorem hmstrDirectoryIn_none {buf : List Byte} (ho : Ends o)
    (hl : tooLongOpt (o.map cstr) = false) (hn : (0 : Byte) ∉ buf) (fdptr : Int) :
    hmstrDirectoryIn w fdptr o (some buf) = none := by
  have hbuf : tooLongOptIn (some buf) = none := tooLongIn_of_notMem hn
  rw [hmstrDirectoryIn, tooLongOptIn_of_ends ho, hl, hbuf]
  rfl

theorem ends_nullIfEmpty {buf : List Byte} (h : (0 : Byte) ∈ buf) : Ends (nullIfEmpty buf) := by
  unfold nullIfEmpty
  split
  · exact fun _ => nofun
  · rintro _ ⟨⟩
    exact h

theorem nullIfEmpty_of_notMem {buf : List Byte} (h : (0 : Byte) ∉ buf) :
    nullIfEmpty buf = some buf :=
  if_neg fun hz => h (List.mem_of_mem_head? hz)

theorem tooLongOpt_nullIfEmpty {buf : List Byte} (h : (0 : Byte) ∈ buf) (hl : buf.length = 32) :
    tooLongOpt ((nullIfEmpty buf).map cstr) = false := by
  unfold nullIfEmpty
  split
  · rfl
  · exact tooLong_of_mem h hl

theorem map_nullIfEmpty {payload : List Byte} {off : Nat}
    (hl : (field payload off 32).length = 32) :
    (nullIfEmpty (field payload off 32)).map cstr = textOpt payload off := by
  obtain ⟨b, bs, hb⟩ := List.exists_cons_of_length_eq_add_one hl
  have hempty : (text payload off).chars = [] ↔ b = 0 := by
    rw [text, hb]
    simp [cstr, List.takeWhile_cons]
  unfold nullIfEmpty textOpt
  simp only [hempty, hb, List.head?_cons, Option.some.injEq]
  split
  · rfl
  · rw [text, hb, Option.map_some]

end Optional

section Collect
variable {owner : List Byte} {w : World}

theorem collectLoopIn_eq (h : (0 : Byte) ∈ owner) (fdi fd fuel : Nat) (w : World)
    (totalPrice : BitVec 32) (found : Bool) :
    collectLoopIn owner fdi fd fuel w totalPrice found =
      some (collectLoop (cstr owner) fdi fd fuel w totalPrice found) := by
  induction fuel generalizing w totalPrice found with
  | zero => rfl
  | succ fuel ih =>
    simp only [collectLoopIn, collectLoop]
    cases w.read fdi sizeofHamsterdesc with
    | mk got w =>
      cases got with
      | none => rfl
      | some bs =>
        simp only [strsame_of_mem _ h, Option.bind_some, decide_eq_true_eq]
        split
        · split
          · cases getRounds w.now (Hamsterdesc.ofBytes bs).admissionTime with
            | none => rfl
            | some rounds => exact ih ..
          · cases w.write fd (Hamsterdesc.ofBytes bs).toBytes with
            | mk written w =>
              dsimp only
              split
              · exact ih ..
              · rfl
        · rfl

theorem hmstrCollectIn_eq : hmstrCollectIn w owner =
    if (0 : Byte) ∈ owner then some (hmstrCollect w (some (cstr owner))) else none := by
  split
  · rename_i h
    rw [hmstrCollectIn, tooLongIn_of_mem h, Option.bind_some, hmstrCollect]
    split
    · rfl
    · cases w.rename .datafile .intermediateFile with
      | mk ok w =>
        cases ok with
        | false => rfl
        | true =>
          dsimp only
          cases w.openFile .intermediateFile .rdonly with
          | mk got w =>
            cases got with
            | none => rfl
            | some fdi =>
              dsimp only
              cases w.openFile .datafile .rdwrCreat with
              | mk got w =>
                cases got with
                | none => rfl
                | some fd =>
                  have hloop := collectLoopIn_eq h fdi fd (unread w fdi + 1) w 0 false
                  dsimp only
                  cases hc : collectLoop (cstr owner) fdi fd (unread w fdi + 1) w 0 false with
                  | none =>
                    rw [hc] at hloop
                    exact congrArg (Option.map _) hloop
                  | some x =>
                    obtain ⟨stop, w'⟩ := x
                    rw [hc] at hloop
                    refine (congrArg (Option.map _) hloop).trans ?_
                    cases stop <;> rfl
  · rename_i h
    rw [hmstrCollectIn, tooLongIn_of_notMem h, Option.bind_none]

end Collect

/-! ## A request inside its buffers -/

/-- The payload reaches as far as the call reads, and each name ends in its array. -/
def Fits (rpcID : BitVec 16) (payload : List Byte) : Prop :=
  (1 ≤ rpcID.toNat ∧ rpcID.toNat ≤ 7 → documentedSize rpcID ≤ payload.length) ∧
    ∀ off ∈ nameOffsets rpcID, (0 : Byte) ∈ field payload off 32

section Request
variable {payload : List Byte} {off : Nat}

theorem length_field {n : Nat} (h : off + n ≤ payload.length) : (field payload off n).length = n := by
  rw [field, List.length_take, List.length_drop]
  omega

theorem decodeSstring_eq : decodeSstring payload off =
    if off + 32 ≤ payload.length then some (field payload off 32) else none := by
  split
  · rename_i h
    exact fetch_of_le h
  · exact fetch_of_lt (by omega) (by decide)

theorem decodeInt32_eq : decodeInt32 payload off =
    if off + 4 ≤ payload.length then some (word payload 32 off 4) else none := by
  unfold decodeInt32
  split
  · rename_i h
    have hpeek : peek (poke (fun _ => 0) 0 (field payload off 4)) 0 4 = field payload off 4 := by
      rw [peek_poke_inside _ (Nat.le_refl 0) (by rw [length_field h]), Nat.sub_self, List.drop_zero,
        List.take_of_length_le (by rw [length_field h])]
    rw [fetch_of_le h, Option.map_some, ← field, rpcDecodeInt32_eq, hpeek]
    rfl
  · rw [fetch_of_lt (by omega) (by decide), Option.map_none]

theorem decodeUint16_eq : decodeUint16 payload off =
    if off + 2 ≤ payload.length then some (word payload 16 off 2) else none := by
  unfold decodeUint16
  split
  · rename_i h
    have hpeek : peek (poke (fun _ => 0) 0 (field payload off 2)) 0 2 = field payload off 2 := by
      rw [peek_poke_inside _ (Nat.le_refl 0) (by rw [length_field h]), Nat.sub_self, List.drop_zero,
        List.take_of_length_le (by rw [length_field h])]
    rw [fetch_of_le h, Option.map_some, ← field, rpcDecodeUint16_eq, hpeek]
    rfl
  · rw [fetch_of_lt (by omega) (by decide), Option.map_none]

/-- The bytes that come with a request and its call id. -/
theorem execute_of_fits (w : World) {id : BitVec 16} (hid : 1 ≤ id.toNat ∧ id.toNat ≤ 7)
    (h : Fits id payload) : execute w payload id =
      some (((documentedCall payload id).exec w).map fun x => (x.1.ret, x.2)) := by
  have hlen := h.1 hid
  have hz := h.2
  unfold documentedSize at hlen
  unfold nameOffsets at hz
  unfold execute documentedCall
  rcases cases_known hid with h | h | h | h | h | h | h
  all_goals
    simp only [h, List.mem_cons, List.not_mem_nil, or_false, forall_eq_or_imp, forall_eq] at hlen hz ⊢
  · rw [executeNew, decodeSstring_eq, if_pos (by omega), decodeSstring_eq, if_pos (by omega),
      decodeUint16_eq, if_pos (by omega)]
    simp only [Option.bind_some, hmstrNewIn_eq (length_field (show 0 + 32 ≤ payload.length by omega)),
      hz, and_self, ↓reduceIte, Option.map_some, exec_new, text]
  · rw [executeLookUp, decodeSstring_eq, if_pos (by omega), decodeSstring_eq, if_pos (by omega)]
    simp only [Option.bind_some,
      hmstrLookupIn_eq (length_field (show 0 + 32 ≤ payload.length by omega)), hz, and_self,
      ↓reduceIte, Option.map_some, exec_lookup, text]
  · rw [executeDirectory, decodeInt32_eq, if_pos (by omega), decodeSstring_eq, if_pos (by omega),
      decodeSstring_eq, if_pos (by omega)]
    simp only [Option.bind_some, strlen_of_mem hz.1,
      hmstrDirectoryIn_eq (ends_nullIfEmpty hz.1) (ends_nullIfEmpty hz.2),
      map_nullIfEmpty (length_field (show 4 + 32 ≤ payload.length by omega)),
      map_nullIfEmpty (length_field (show 36 + 32 ≤ payload.length by omega)), Option.map_some,
      exec_directory]
  · rw [executeHowsDoing, decodeInt32_eq, if_pos (by omega), Option.map_some, exec_howsdoing,
      Option.map_map]
    rfl
  · rw [executeReadEntry, decodeInt32_eq, if_pos (by omega), Option.map_some, exec_readentry,
      Option.map_map]
    rfl
  · rw [executeGiveTreats, decodeInt32_eq, if_pos (by omega), decodeUint16_eq, if_pos (by omega)]
    rfl
  · rw [executeCollect, decodeSstring_eq, if_pos (by omega), Option.bind_some, hmstrCollectIn_eq,
      if_pos hz, exec_collect]
    rw [← text]
    cases hmstrCollect w (some (text payload 0)) <;> rfl

/-- A request that does not fit makes the server read outside its buffers. -/
theorem execute_of_not_fits (w : World) {id : BitVec 16} (hid : 1 ≤ id.toNat ∧ id.toNat ≤ 7)
    (h : ¬ Fits id payload) : execute w payload id = none := by
  unfold Fits at h
  rw [imp_iff_right hid, not_and_or] at h
  unfold documentedSize nameOffsets at h
  unfold execute
  rcases cases_known hid with hc | hc | hc | hc | hc | hc | hc
  all_goals
    simp only [hc, List.mem_cons, List.not_mem_nil, or_false, forall_eq_or_imp, forall_eq,
      Nat.not_le, IsEmpty.forall_iff, implies_true, not_true_eq_false] at h ⊢
  · rw [executeNew, decodeSstring_eq, decodeSstring_eq, decodeUint16_eq]
    by_cases hlen : 66 ≤ payload.length
    · rw [if_pos (by omega), if_pos (by omega), if_pos (by omega)]
      simp only [Option.bind_some,
        hmstrNewIn_eq (length_field (show 0 + 32 ≤ payload.length by omega)),
        if_neg (h.resolve_left (by omega)), Option.map_none]
    · rw [if_neg (show ¬ 64 + 2 ≤ payload.length by omega)]
      simp only [Option.bind_none, Option.bind_fun_none]
  · rw [executeLookUp, decodeSstring_eq, decodeSstring_eq]
    by_cases hlen : 64 ≤ payload.length
    · rw [if_pos (by omega), if_pos (by omega)]
      simp only [Option.bind_some,
        hmstrLookupIn_eq (length_field (show 0 + 32 ≤ payload.length by omega)),
        if_neg (h.resolve_left (by omega)), Option.map_none]
    · rw [if_neg (show ¬ 32 + 32 ≤ payload.length by omega)]
      simp only [Option.bind_none, Option.bind_fun_none]
  · rw [executeDirectory, decodeInt32_eq, decodeSstring_eq, decodeSstring_eq]
    by_cases hlen : 68 ≤ payload.length
    · rw [if_pos (by omega), if_pos (by omega), if_pos (by omega)]
      simp only [Option.bind_some]
      by_cases ho : (0 : Byte) ∈ field payload 4 32
      · have hn : (0 : Byte) ∉ field payload 36 32 := fun hn => h.resolve_left (by omega) ⟨ho, hn⟩
        rw [strlen_of_mem ho, Option.bind_some, nullIfEmpty_of_notMem hn,
          hmstrDirectoryIn_none (ends_nullIfEmpty ho)
            (tooLongOpt_nullIfEmpty ho (length_field (by omega))) hn, Option.map_none]
      · rw [strlen_of_notMem ho, Option.bind_none]
    · rw [if_neg (show ¬ 36 + 32 ≤ payload.length by omega)]
      simp only [Option.bind_none, Option.bind_fun_none]
  · rw [executeHowsDoing, decodeInt32_eq, if_neg (by omega), Option.map_none]
  · rw [executeReadEntry, decodeInt32_eq, if_neg (by omega), Option.map_none]
  · rw [executeGiveTreats, decodeInt32_eq, decodeUint16_eq, if_neg (show ¬ 4 + 2 ≤ _ by omega)]
    simp only [Option.map_none, Option.bind_fun_none]
  · rw [executeCollect, decodeSstring_eq]
    by_cases hlen : 32 ≤ payload.length
    · rw [if_pos (by omega), Option.bind_some, hmstrCollectIn_eq, if_neg (h.resolve_left (by omega))]
    · rw [if_neg (by omega), Option.bind_none]

end Request

end Hamster.Server.Bounded
