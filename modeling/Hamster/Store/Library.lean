import Hamster.Store.Entry

/-!
# The seven library functions

`hmstr_new` … `hmstr_collect` as libsrc has them, over the file system of
`Lib.Posix`. A result is the returned `int32_t`, the out parameters the caller
passed a pointer to, and the world after the call. `none` is the process aborted
by the assertion in `___get_rounds`.
-/
namespace Hamster.Store.Library

open Lib.Bytes Lib.Clock Lib.Posix Lib.RecordFile Entry

/-! ## Helpers -/

/-- `make_hash`: both names, each in its zeroed half of a 64-byte key. `char` is
signed, so a byte from 128 on enters the sum as a negative number. -/
def makeHash (s1 s2 : CString) : BitVec 32 :=
  (s1.pad 32 ++ s2.pad 32).foldl (fun hash c => 33 * hash + c.signExtend 32) 5381 >>> 1

/-- `___get_rounds` -/
def getRounds (now : Timestamp) (admissionTime : Timeval) : Option (BitVec 32) :=
  let duration := timersub now.toTimeval admissionTime
  if duration.tvSec.toInt < 0 then none
  else some ((BitVec.sdiv (duration.tvSec * BitVec.ofNat 64 hmstrRpm) 60).setWidth 32)

/-- `strlen(name) > HMSTR_MAX_NAME` -/
def tooLong (name : CString) : Bool := hmstrMaxName < name.strlen

/-- A null pointer is no name at all, so it is never too long. -/
def tooLongOpt (name : Option CString) : Bool := name.any tooLong

/-- `strcpy(dst, s)` -/
def strcpy (dst : List Byte) (s : CString) : List Byte :=
  s.chars ++ 0 :: dst.drop (s.strlen + 1)

/-- `strcpy` into a zeroed name field. -/
def nameField (s : CString) : NameField :=
  ⟨(s.chars ++ List.replicate 32 0).take 32, by
    simp only [List.length_take, List.length_append, List.length_replicate]; omega⟩

/-- The loops' `while((ret = read(fd, &h, sizeof(h))) == sizeof(h)) if(test(h)) …` -/
def scanEntries (test : Hamsterdesc → Bool) (w : World) (fd : Nat) : ScanEnd × World :=
  scan sizeofHamsterdesc (fun bs => test (Hamsterdesc.ofBytes bs)) w fd

/-! ## hmstr_new.c -/

def newEntry (now : Timestamp) (ownerName hamsterName : CString) (treats : BitVec 16) :
    Hamsterdesc where
  uid := makeHash ownerName hamsterName
  padding := 0
  admissionTime := now.toTimeval
  owner := nameField ownerName
  name := nameField hamsterName
  price := BitVec.ofNat 16 hmstrBasePrice
  treatsLeft := treats
  tailPadding := 0

def hmstrNew (w : World) (ownerName hamsterName : CString) (treats : BitVec 16) :
    BitVec 32 × World :=
  if tooLong ownerName || tooLong hamsterName then (hmstrErrNameTooLong, w)
  else
    match w.openFile .datafile .rdwrCreat with
    | (none, w) => (hmstrErrStore, w)
    | (some fd, w) =>
      match scanEntries (fun h => h.ownerStr = ownerName && h.nameStr = hamsterName) w fd with
      | (.hit _, w) => (hmstrErrExists, w.close fd)
      | (.stop none, w) => (hmstrErrStore, w.close fd)
      | (.stop (some bs), w) =>
        if 0 < bs.length then (hmstrErrCorrupt, w.close fd)
        else
          let h := newEntry w.now ownerName hamsterName treats
          match w.write fd h.toBytes with
          | (written, w) =>
            if written = some sizeofHamsterdesc then (h.uid, w.close fd)
            else (hmstrErrStore, w.close fd)

/-! ## hmstr_lookup.c -/

def hmstrLookup (w : World) : Option CString → Option CString → BitVec 32 × World
  | some ownerName, some hamsterName =>
    if tooLong ownerName || tooLong hamsterName then (hmstrErrNameTooLong, w)
    else
      match w.openFile .datafile .rdonly with
      | (none, w) => (hmstrErrNotFound, w)
      | (some fd, w) =>
        match scanEntries (fun h => h.ownerStr = ownerName && h.nameStr = hamsterName) w fd with
        | (.hit bs, w) => ((Hamsterdesc.ofBytes bs).uid, w.close fd)
        | (.stop last, w) =>
          (if last = some [] then hmstrErrNotFound else hmstrErrCorrupt, w.close fd)
  | _, _ => (hmstrErrNotFound, w)

/-! ## hmstr_directory.c -/

/-- `!owner_name || !strcmp(h.owner, owner_name)`, and the same for the name. -/
def passesFilter (ownerName hamsterName : Option CString) (h : Hamsterdesc) : Bool :=
  ownerName.all (fun s => h.ownerStr = s) && hamsterName.all (fun s => h.nameStr = s)

/-- `if(*fdptr < 0) *fdptr = open(DATAFILE, O_RDONLY)`; a handle that is not
negative is used as it is. -/
def directoryFd (w : World) (fdptr : Int) : Option Nat × World :=
  if fdptr < 0 then w.openFile .datafile .rdonly else (some fdptr.toNat, w)

/-- The second component is `*fdptr` after the call. -/
def hmstrDirectory (w : World) (fdptr : Int) (ownerName hamsterName : Option CString) :
    BitVec 32 × Int × World :=
  if tooLongOpt ownerName || tooLongOpt hamsterName then (hmstrErrNameTooLong, fdptr, w)
  else
    match directoryFd w fdptr with
    | (none, w) => (hmstrErrNotFound, -1, w)
    | (some fd, w) =>
      match scanEntries (passesFilter ownerName hamsterName) w fd with
      | (.hit bs, w) => ((Hamsterdesc.ofBytes bs).uid, fd, w)
      | (.stop last, w) =>
        (if last = some [] then hmstrErrNotFound else hmstrErrCorrupt, -1, w.close fd)

/-! ## hmstr_howsdoing.c -/

/-- `h.price += HMSTR_CARE_PRICE` -/
def inquire (h : Hamsterdesc) : Hamsterdesc :=
  { h with price := (h.price.signExtend 32 + BitVec.ofNat 32 hmstrCarePrice).setWidth 16 }

/-- The state handed out. `rounds` is unsigned, so the price is converted to
unsigned before the stay is added, and the division is unsigned. -/
def stateOf (h : Hamsterdesc) (rounds : BitVec 32) : HmstrState where
  treatsLeft := h.treatsLeft
  rounds := rounds
  cost := (h.price.signExtend 32 + rounds * BitVec.ofNat 32 hmstrStayPrice / 1000).setWidth 16

/-- `lseek(fd, -sizeof(h), SEEK_CUR)`, `write(fd, &h, sizeof(h))`, `close(fd)`. -/
def writeBack (w : World) (fd : Nat) (h : Hamsterdesc) (ok : BitVec 32) : BitVec 32 × World :=
  match w.lseekCur fd (-96) with
  | (none, w) => (hmstrErrStore, w.close fd)
  | (some _, w) =>
    match w.write fd h.toBytes with
    | (written, w) =>
      (if written = some sizeofHamsterdesc then ok else hmstrErrStore, w.close fd)

def hmstrHowsdoing (w : World) (id : BitVec 32) (state : HmstrState) :
    Option (BitVec 32 × HmstrState × World) :=
  match w.openFile .datafile .rdwr with
  | (none, w) => some (hmstrErrNotFound, state, w)
  | (some fd, w) =>
    match scanEntries (fun h => h.uid = id) w fd with
    | (.hit bs, w) =>
      let h := Hamsterdesc.ofBytes bs
      match getRounds w.now h.admissionTime with
      | none => none
      | some rounds =>
        let (ret, w) := writeBack w fd (inquire h) 0
        some (ret, stateOf (inquire h) rounds, w)
    | (.stop _, w) => some (hmstrErrNotFound, state, w.close fd)

/-! ## hmstr_readentry.c -/

def hmstrReadentry (w : World) (id : BitVec 32) (owner name : List Byte) (price : BitVec 16) :
    Option (BitVec 32 × List Byte × List Byte × BitVec 16 × World) :=
  match w.openFile .datafile .rdonly with
  | (none, w) => some (hmstrErrNotFound, owner, name, price, w)
  | (some fd, w) =>
    match scanEntries (fun h => h.uid = id) w fd with
    | (.hit bs, w) =>
      let h := Hamsterdesc.ofBytes bs
      match getRounds w.now h.admissionTime with
      | none => none
      | some rounds =>
        let stay := BitVec.sdiv (rounds * BitVec.ofNat 32 hmstrStayPrice) 1000
        some (h.treatsLeft.setWidth 32, strcpy owner h.ownerStr, strcpy name h.nameStr,
          (h.price.signExtend 32 + stay).setWidth 16, w.close fd)
    | (.stop _, w) => some (hmstrErrNotFound, owner, name, price, w.close fd)

/-! ## hmstr_givetreats.c -/

/-- Stock first; what it does not cover is charged. -/
def feed (h : Hamsterdesc) (treats : BitVec 16) : Hamsterdesc :=
  if h.treatsLeft < treats then
    { h with
      treatsLeft := 0
      price := (h.price.signExtend 32 +
        (treats - h.treatsLeft).setWidth 32 * BitVec.ofNat 32 hmstrFeedPrice).setWidth 16 }
  else { h with treatsLeft := h.treatsLeft - treats }

def hmstrGivetreats (w : World) (id : BitVec 32) (treats : BitVec 16) : BitVec 32 × World :=
  match w.openFile .datafile .rdwr with
  | (none, w) => (hmstrErrNotFound, w)
  | (some fd, w) =>
    match scanEntries (fun h => h.uid = id) w fd with
    | (.hit bs, w) =>
      let h := feed (Hamsterdesc.ofBytes bs) treats
      writeBack w fd h (h.treatsLeft.setWidth 32)
    | (.stop _, w) => (hmstrErrNotFound, w.close fd)

/-! ## hmstr_collect.c -/

/-- `h.price + (___get_rounds(&h.admission_time) * HMSTR_STAY_PRICE) / 1000` -/
def charge (h : Hamsterdesc) (rounds : BitVec 32) : BitVec 32 :=
  h.price.signExtend 32 + BitVec.sdiv (rounds * BitVec.ofNat 32 hmstrStayPrice) 1000

/-- How the copying loop ends: at a read that did not fill an entry, with the
sum so far and whether an entry was found, or at a failed write. -/
inductive CollectEnd
  | read (last : Option (List Byte)) (totalPrice : BitVec 32) (found : Bool)
  | writeFailed

def collectLoop (ownerName : CString) (fdi fd : Nat) :
    Nat → World → BitVec 32 → Bool → Option (CollectEnd × World)
  | 0, w, totalPrice, found => some (.read none totalPrice found, w)
  | fuel + 1, w, totalPrice, found =>
    match w.read fdi sizeofHamsterdesc with
    | (none, w) => some (.read none totalPrice found, w)
    | (some bs, w) =>
      if bs.length = sizeofHamsterdesc then
        let h := Hamsterdesc.ofBytes bs
        if h.ownerStr = ownerName then
          match getRounds w.now h.admissionTime with
          | none => none
          | some rounds => collectLoop ownerName fdi fd fuel w (totalPrice + charge h rounds) true
        else
          match w.write fd h.toBytes with
          | (written, w) =>
            if written = some sizeofHamsterdesc then
              collectLoop ownerName fdi fd fuel w totalPrice found
            else some (.writeFailed, w)
      else some (.read (some bs) totalPrice found, w)

def hmstrCollect (w : World) : Option CString → Option (BitVec 32 × World)
  | none => some (hmstrErrNotFound, w)
  | some ownerName =>
    if tooLong ownerName then some (hmstrErrNameTooLong, w)
    else
      match w.rename .datafile .intermediateFile with
      | (false, w) => some (hmstrErrStore, w)
      | (true, w) =>
        match w.openFile .intermediateFile .rdonly with
        | (none, w) => some (hmstrErrStore, w)
        | (some fdi, w) =>
          match w.openFile .datafile .rdwrCreat with
          | (none, w) => some (hmstrErrStore, w)
          | (some fd, w) =>
            match collectLoop ownerName fdi fd (unread w fdi + 1) w 0 false with
            | none => none
            | some (.writeFailed, w) => some (hmstrErrStore, (w.close fd).close fdi)
            | some (.read last totalPrice found, w) =>
              let w := (w.close fd).close fdi
              match last with
              | none => some (hmstrErrStore, w)
              | some (_ :: _) => some (hmstrErrCorrupt, w)
              | some [] =>
                match w.unlink .intermediateFile with
                | (false, w) => some (hmstrErrStore, w)
                | (true, w) => some (if found then totalPrice else hmstrErrNotFound, w)

/-! ## Calls as data -/

/-- A call with its in parameters. `η` is how the caller names the variable whose
address it passes to `hmstr_directory`; with `η = Int` it is the value itself. -/
inductive Call (η : Type)
  | new (ownerName hamsterName : CString) (treats : BitVec 16)
  | lookup (ownerName hamsterName : Option CString)
  | directory (fdptr : η) (ownerName hamsterName : Option CString)
  | howsdoing (id : BitVec 32)
  | readentry (id : BitVec 32)
  | givetreats (id : BitVec 32) (treats : BitVec 16)
  | collect (ownerName : Option CString)
  deriving DecidableEq

def Call.map {η θ : Type} (f : η → θ) : Call η → Call θ
  | .new o n t => .new o n t
  | .lookup o n => .lookup o n
  | .directory p o n => .directory (f p) o n
  | .howsdoing id => .howsdoing id
  | .readentry id => .readentry id
  | .givetreats id t => .givetreats id t
  | .collect o => .collect o

inductive OutArgs
  | none
  | handle (fdptr : Int)
  | state (st : HmstrState)
  | entry (owner name : List Byte) (price : BitVec 16)
  deriving DecidableEq

structure Reply where
  ret : BitVec 32
  out : OutArgs
  deriving DecidableEq

/-- A C caller's zeroed out parameters. -/
def blankState : HmstrState := ⟨0, 0, 0⟩
def blankName : List Byte := List.replicate 32 0

def Call.exec (w : World) : Call Int → Option (Reply × World)
  | .new o n t => let (ret, w) := hmstrNew w o n t; some (⟨ret, .none⟩, w)
  | .lookup o n => let (ret, w) := hmstrLookup w o n; some (⟨ret, .none⟩, w)
  | .directory p o n =>
      let (ret, p, w) := hmstrDirectory w p o n; some (⟨ret, .handle p⟩, w)
  | .howsdoing id =>
      (hmstrHowsdoing w id blankState).map fun (ret, st, w) => (⟨ret, .state st⟩, w)
  | .readentry id =>
      (hmstrReadentry w id blankName blankName 0).map fun (ret, o, n, p, w) =>
        (⟨ret, .entry o n p⟩, w)
  | .givetreats id t => let (ret, w) := hmstrGivetreats w id t; some (⟨ret, .none⟩, w)
  | .collect o => (hmstrCollect w o).map fun (ret, w) => (⟨ret, .none⟩, w)

section Exec
variable (w : World)

theorem exec_new (o n : CString) (t : BitVec 16) : (Call.new o n t).exec w =
    some (⟨(hmstrNew w o n t).1, .none⟩, (hmstrNew w o n t).2) := rfl

theorem exec_lookup (o n : Option CString) : (Call.lookup o n).exec w =
    some (⟨(hmstrLookup w o n).1, .none⟩, (hmstrLookup w o n).2) := rfl

theorem exec_directory (p : Int) (o n : Option CString) : (Call.directory p o n).exec w =
    some (⟨(hmstrDirectory w p o n).1, .handle (hmstrDirectory w p o n).2.1⟩,
      (hmstrDirectory w p o n).2.2) := rfl

theorem exec_howsdoing (id : BitVec 32) : (Call.howsdoing id).exec w =
    (hmstrHowsdoing w id blankState).map fun x => (⟨x.1, .state x.2.1⟩, x.2.2) := rfl

theorem exec_readentry (id : BitVec 32) : (Call.readentry id).exec w =
    (hmstrReadentry w id blankName blankName 0).map fun x =>
      (⟨x.1, .entry x.2.1 x.2.2.1 x.2.2.2.1⟩, x.2.2.2.2) := rfl

theorem exec_givetreats (id : BitVec 32) (t : BitVec 16) : (Call.givetreats id t).exec w =
    some (⟨(hmstrGivetreats w id t).1, .none⟩, (hmstrGivetreats w id t).2) := rfl

theorem exec_collect (o : Option CString) : (Call.collect o).exec w =
    (hmstrCollect w o).map fun x => (⟨x.1, .none⟩, x.2) := rfl

end Exec

end Hamster.Store.Library
