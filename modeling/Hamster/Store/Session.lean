import Hamster.Lib.Runs
import Hamster.Store.Outcomes

/-!
# A program that uses the library

The program keeps its directory handles in numbered variables and passes their
addresses; every other argument is free. Each call reads the clock once. All
handles are `-1` before they are first used.
-/
namespace Hamster.Store

open Lib.Bytes Lib.Clock Lib.Posix Lib.Runs Entry Library Scans Outcomes

structure Session where
  world : World
  handle : Nat → Int

/-- A clock reading and a call. -/
abbrev Input := Timestamp × Call Nat

namespace Session

/-- The world once the clock shows `now`. -/
def clockAt (s : Session) (now : Timestamp) : World := { s.world with now := now }

/-- The handle a directory call leaves goes into the caller's variable. -/
def settle (s : Session) : Call Nat → Reply → World → Reply × Session
  | .directory v _ _, ⟨ret, .handle p⟩, w => (⟨ret, .none⟩, ⟨w, Function.update s.handle v p⟩)
  | _, r, w => (r, ⟨w, s.handle⟩)

def step (s : Session) (i : Input) : Option (Reply × Session) :=
  ((i.2.map s.handle).exec (s.clockAt i.1)).map fun (r, w) => s.settle i.2 r w

theorem settle_spec (s : Session) (c : Call Nat) (r : Reply) (w : World) :
    (s.settle c r w).1.ret = r.ret ∧ (s.settle c r w).2.world = w := by
  unfold settle
  split <;> exact ⟨rfl, rfl⟩

/-- Neither file exists, no handle has been used, and no call is going to fail.
Other descriptors may be open, and inodes without a name may hold anything. -/
structure Fresh (s : Session) : Prop where
  reliable : s.world.Reliable
  datafile : s.world.names .datafile = none
  intermediateFile : s.world.names .intermediateFile = none
  handles : ∀ v, s.handle v = -1

/-- An empty file system at time zero. -/
def initial : Session where
  world := ⟨fun _ => none, fun _ => [], 0, ∅, [], .epoch⟩
  handle _ := -1

theorem fresh_initial : initial.Fresh := ⟨rfl, rfl, rfl, fun _ => rfl⟩

end Session

/-- The clock never goes back. -/
def Clocked : Timestamp → List Input → Prop
  | _, [] => True
  | now, (t, _) :: is => now ≤ t ∧ Clocked t is

instance Clocked.decidable : (now : Timestamp) → (is : List Input) → Decidable (Clocked now is)
  | _, [] => inferInstanceAs (Decidable True)
  | now, (t, _) :: is =>
    have := Clocked.decidable t is
    inferInstanceAs (Decidable (now ≤ t ∧ Clocked t is))

/-- The runs of a session. -/
abbrev Runs (s : Session) (tr : List (Event Session Input Reply)) (t : Session) : Prop :=
  Run Session.step s tr t

namespace Session
variable {now : Timestamp} {o n : CString} {treats : BitVec 16}

/-- What `hmstr_new` makes of the empty file system. -/
def founded (now : Timestamp) (o n : CString) (treats : BitVec 16) : BitVec 32 × World :=
  hmstrNew (initial.clockAt now) o n treats

def admission (now : Timestamp) (o n : CString) (treats : BitVec 16) : Event Session Input Reply :=
  ⟨initial, (now, .new o n treats), ⟨(founded now o n treats).1, .none⟩⟩

/-- A session in which one hamster was admitted. -/
def ofOne (now : Timestamp) (o n : CString) (treats : BitVec 16) : Session :=
  ⟨(founded now o n treats).2, fun _ => -1⟩

theorem runs_ofOne (now : Timestamp) (o n : CString) (treats : BitVec 16) :
    Runs initial [admission now o n treats] (ofOne now o n treats) := .single rfl

theorem ofOne_world (hl : (tooLong o || tooLong n) = false) :
    (ofOne now o n treats).world = ((initial.clockAt now).create .datafile).setInode 0
      (newEntry now o n treats).toBytes :=
  congrArg Prod.snd (new_absent (w := initial.clockAt now) rfl rfl hl treats)

theorem lowestFree_ofOne (hl : (tooLong o || tooLong n) = false) :
    (ofOne now o n treats).world.lowestFree = 0 := by
  rw [ofOne_world hl]
  rfl

theorem names_ofOne (hl : (tooLong o || tooLong n) = false) :
    (ofOne now o n treats).world.names .datafile = some 0 ∧
      (ofOne now o n treats).world.names .intermediateFile = none := by
  rw [ofOne_world hl]
  exact ⟨rfl, rfl⟩

theorem apart_ofOne (hl : (tooLong o || tooLong n) = false) :
    FilesApart (ofOne now o n treats).world := by
  have hnames : (ofOne now o n treats).world.names .datafile = some 0 ∧
      (ofOne now o n treats).world.names .intermediateFile = none := names_ofOne hl
  obtain ⟨hn, hbak⟩ := hnames
  refine ⟨fun ino hino => ?_, fun ino _ => by rw [hbak]; exact nofun⟩
  obtain rfl : 0 = ino := Option.some.inj (hn.symm.trans hino)
  rw [ofOne_world hl]
  exact Nat.zero_lt_one

theorem storeEntries_ofOne (hl : (tooLong o || tooLong n) = false) :
    storeEntries (ofOne now o n treats).world = [newEntry now o n treats] := by
  have hn : (ofOne now o n treats).world.names .datafile = some 0 := (names_ofOne hl).1
  have himage := entries_image [newEntry now o n treats]
  rw [image_cons, image_nil, List.append_nil] at himage
  rw [storeEntries_present hn, ofOne_world hl, Sys.setInode_inodes, Function.update_self, himage]

end Session

end Hamster.Store
