import Hamster.Store.CollectScan
import Hamster.Asylum.Guest

/-!
# The asylum the library stands for

A register of guests with pairwise different names, and a cursor for every
directory handle a caller keeps. `exec` says what each call means here; files,
descriptors and byte positions are gone. Amounts handed out are the machine
words the accounts give, so they wrap where the library's do.
-/
namespace Hamster.Asylum

open Lib.Bytes Lib.Clock Store.Entry Store.Library

namespace Guest

def named (o n : CString) (g : Guest) : Bool := g.owner.text = o && g.name.text = n

theorem named_iff {o n : CString} {g : Guest} :
    g.named o n = true ↔ g.owner.text = o ∧ g.name.text = n := by
  simp only [named, Bool.and_eq_true, decide_eq_true_eq]

theorem uid_of_named {o n : CString} {g : Guest} (h : g.named o n = true) :
    g.uid = makeHash o n := by
  rw [uid, (named_iff.mp h).1, (named_iff.mp h).2]

theorem key_of_named {o n : CString} {g g' : Guest} (h : g.named o n = true)
    (h' : g'.named o n = true) : g.key = g'.key :=
  Prod.ext (Name.ext ((named_iff.mp h).1.trans (named_iff.mp h').1.symm))
    (Name.ext ((named_iff.mp h).2.trans (named_iff.mp h').2.symm))

/-- A missing name lets every guest pass. -/
def passes (o n : Option CString) (g : Guest) : Bool :=
  o.all (fun s => g.owner.text = s) && n.all (fun s => g.name.text = s)

def has (id : BitVec 32) (g : Guest) : Bool := g.uid = id

/-- What a collection adds for a guest; `none` if the clock is behind. -/
def bill (now : Timestamp) (g : Guest) : Option (BitVec 32) :=
  (getRounds now g.entry.admissionTime).map (charge g.entry)

theorem bill_isSome (now : Timestamp) (g : Guest) : (g.bill now).isSome ↔ g.admitted ≤ now := by
  rw [bill, Option.isSome_map, getRounds_entry]

end Guest

/-- The guests of an owner. -/
def ownedBy (o : CString) (gs : List Guest) : List Guest := gs.filter (·.owner.text = o)

/-- The first guest with an id, changed. -/
def amendFirst (id : BitVec 32) (f : Guest → Guest) (gs : List Guest) : List Guest :=
  gs.lookmap fun g => if g.has id then some (f g) else none

theorem amendFirst_cons (id : BitVec 32) (f : Guest → Guest) (g : Guest) (gs : List Guest) :
    amendFirst id f (g :: gs) = if g.has id then f g :: gs else g :: amendFirst id f gs := by
  by_cases h : g.has id = true <;> simp [amendFirst, h]

theorem amendFirst_keys {id : BitVec 32} {f : Guest → Guest} (hf : ∀ g, (f g).key = g.key)
    (gs : List Guest) : (amendFirst id f gs).map Guest.key = gs.map Guest.key := by
  induction gs with
  | nil => rfl
  | cons g gs ih =>
    rw [amendFirst_cons]
    by_cases h : g.has id = true
    · simp [h, hf]
    · simp [h, ih]

structure Register where
  guests : List Guest
  distinct : (guests.map Guest.key).Nodup

namespace Register

def empty : Register := ⟨[], List.nodup_nil⟩

def enrol (r : Register) (g : Guest) (h : g.key ∉ r.guests.map Guest.key) : Register where
  guests := r.guests ++ [g]
  distinct := by
    rw [List.map_append, List.map_singleton]
    exact List.nodup_append.mpr ⟨r.distinct, List.nodup_singleton _, fun k hk k' hk' => by
      rw [List.mem_singleton.mp hk']
      exact fun he => h (he ▸ hk)⟩

def amend (r : Register) (id : BitVec 32) (f : Guest → Guest) (hf : ∀ g, (f g).key = g.key) :
    Register where
  guests := amendFirst id f r.guests
  distinct := by rw [amendFirst_keys hf]; exact r.distinct

/-- Everyone but the owner's guests. -/
def release (r : Register) (o : CString) : Register where
  guests := r.guests.filter (·.owner.text ≠ o)
  distinct := r.distinct.sublist (List.Sublist.map _ List.filter_sublist)

end Register

/-- A newcomer goes to the end, unless a name is too long or the pair is taken. -/
def join (now : Timestamp) (o n : CString) (treats : BitVec 16) (gs : List Guest) : List Guest :=
  if h : o.strlen ≤ 31 ∧ n.strlen ≤ 31 then
    if (⟨o, h.1⟩, ⟨n, h.2⟩) ∈ gs.map Guest.key then gs
    else gs ++ [Guest.arrival now ⟨o, h.1⟩ ⟨n, h.2⟩ treats]
  else gs

theorem join_eq (now : Timestamp) (o n : CString) (treats : BitVec 16) (gs : List Guest) :
    join now o n treats gs = gs ∨ ∃ ho hn,
      join now o n treats gs = gs ++ [Guest.arrival now ⟨o, ho⟩ ⟨n, hn⟩ treats] := by
  unfold join
  by_cases h : o.strlen ≤ 31 ∧ n.strlen ≤ 31
  · rw [dif_pos h]
    split
    · exact .inl rfl
    · exact .inr ⟨h.1, h.2, rfl⟩
  · rw [dif_neg h]
    exact .inl rfl

/-- Where a directory handle stands. A collection replaces the register; a
handle opened before goes on with the guests it had still to visit. -/
inductive Cursor
  | closed
  | live (pos : Nat)
  | detached (rest : List Guest)

structure State where
  /-- `none` before the first admission. -/
  register : Option Register
  cursor : Nat → Cursor

namespace State

def start : State := ⟨none, fun _ => .closed⟩

def guests (a : State) : List Guest := (a.register.getD .empty).guests

/-- The guests a handle has still to visit; a closed one starts at the front. -/
def toVisit (a : State) : Cursor → List Guest
  | .closed => a.guests
  | .live pos => a.guests.drop pos
  | .detached rest => rest

/-- The cursor in front of `rest`. -/
def moveTo (a : State) (rest : List Guest) : Cursor → Cursor
  | .detached _ => .detached rest
  | .closed | .live _ => .live (a.guests.length - rest.length)

def setCursor (a : State) (v : Nat) (c : Cursor) : State :=
  { a with cursor := Function.update a.cursor v c }

def new (a : State) (now : Timestamp) (o n : CString) (treats : BitVec 16) : Reply × State :=
  if h : o.strlen ≤ 31 ∧ n.strlen ≤ 31 then
    let r := a.register.getD .empty
    let g := Guest.arrival now ⟨o, h.1⟩ ⟨n, h.2⟩ treats
    if hk : g.key ∉ r.guests.map Guest.key then
      (⟨g.uid, .none⟩, { a with register := some (r.enrol g hk) })
    else (⟨hmstrErrExists, .none⟩, a)
  else (⟨hmstrErrNameTooLong, .none⟩, a)

def lookup (a : State) : Option CString → Option CString → Reply
  | some o, some n =>
    if tooLong o || tooLong n then ⟨hmstrErrNameTooLong, .none⟩
    else ⟨(a.guests.find? (·.named o n)).elim hmstrErrNotFound Guest.uid, .none⟩
  | _, _ => ⟨hmstrErrNotFound, .none⟩

/-- The next guest that passes, with those behind it. -/
def directory (a : State) (v : Nat) (o n : Option CString) : Reply × State :=
  if tooLongOpt o || tooLongOpt n then (⟨hmstrErrNameTooLong, .none⟩, a)
  else
    match (a.toVisit (a.cursor v)).dropWhile (fun g => !g.passes o n) with
    | [] => (⟨hmstrErrNotFound, .none⟩, a.setCursor v .closed)
    | g :: rest => (⟨g.uid, .none⟩, a.setCursor v (a.moveTo rest (a.cursor v)))

def amend (a : State) (id : BitVec 32) (f : Guest → Guest) (hf : ∀ g, (f g).key = g.key) :
    State :=
  { a with register := a.register.map fun r => r.amend id f hf }

def howsdoing (a : State) (now : Timestamp) (id : BitVec 32) : Option (Reply × State) :=
  match a.guests.find? (·.has id) with
  | none => some (⟨hmstrErrNotFound, .state blankState⟩, a)
  | some g => (getRounds now g.entry.admissionTime).map fun rounds =>
      (⟨0, .state (stateOf g.ask.entry rounds)⟩, a.amend id Guest.ask Guest.ask_key)

def readentry (a : State) (now : Timestamp) (id : BitVec 32) : Option Reply :=
  match a.guests.find? (·.has id) with
  | none => some ⟨hmstrErrNotFound, .entry blankName blankName 0⟩
  | some g => (g.bill now).map fun amount =>
      ⟨BitVec.ofNat 32 g.left,
        .entry (g.owner.text.pad 32) (g.name.text.pad 32) (amount.setWidth 16)⟩

def givetreats (a : State) (id : BitVec 32) (treats : BitVec 16) : Reply × State :=
  match a.guests.find? (·.has id) with
  | none => (⟨hmstrErrNotFound, .none⟩, a)
  | some g => (⟨BitVec.ofNat 32 (g.feed treats).left, .none⟩,
      a.amend id (·.feed treats) (Guest.feed_key · treats))

/-- A handle that was in the register keeps what it had still to visit. -/
def detach (a : State) : Cursor → Cursor
  | .live pos => .detached (a.guests.drop pos)
  | c => c

/-- The owner's bill, word by word. -/
def bills (a : State) (now : Timestamp) (o : CString) : Option (List (BitVec 32)) :=
  (ownedBy o a.guests).mapM (Guest.bill now)

def collect (a : State) (now : Timestamp) : Option CString → Option (Reply × State)
  | none => some (⟨hmstrErrNotFound, .none⟩, a)
  | some o =>
    if tooLong o then some (⟨hmstrErrNameTooLong, .none⟩, a)
    else
      match a.register with
      | none => some (⟨hmstrErrStore, .none⟩, a)
      | some r => (a.bills now o).map fun amounts =>
          (⟨if (ownedBy o a.guests).isEmpty then hmstrErrNotFound else amounts.sum, .none⟩,
            ⟨some (r.release o), fun v => a.detach (a.cursor v)⟩)

def exec (a : State) (now : Timestamp) : Call Nat → Option (Reply × State)
  | .new o n t => some (a.new now o n t)
  | .lookup o n => some (a.lookup o n, a)
  | .directory v o n => some (a.directory v o n)
  | .howsdoing id => a.howsdoing now id
  | .readentry id => (a.readentry now id).map fun r => (r, a)
  | .givetreats id t => some (a.givetreats id t)
  | .collect o => a.collect now o

def step (a : State) (i : Timestamp × Call Nat) : Option (Reply × State) := a.exec i.1 i.2

end State

section Entries
variable {gs : List Guest} {o n : CString} {id : BitVec 32}

theorem byName_entry (o n : CString) (g : Guest) :
    Store.Scans.byName o n g.entry = g.named o n := by
  simp [Store.Scans.byName, Guest.named]

theorem byId_entry (id : BitVec 32) (g : Guest) : Store.Scans.byId id g.entry = g.has id := by
  rfl

theorem passesFilter_entry (o n : Option CString) (g : Guest) :
    passesFilter o n g.entry = g.passes o n := by
  simp [passesFilter, Guest.passes]

end Entries
end Hamster.Asylum
