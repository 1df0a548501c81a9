import Hamster.Lib.Loops
import Hamster.Lib.Stdin
import Hamster.Store.Library

/-!
# The menu

`main` of SunRPC/src/hamster_cli.c behind its options: a loop that takes a command and
its arguments from standard input, makes the calls and prints what came of them. It is
linked with the library or with the stubs; which of them is a parameter.
-/
namespace Hamster.Cli.Menu

open Lib.Bytes Lib.Loops Lib.Scanf Lib.Stdin Store.Entry Store.Library

/-- The bytes of a text in UTF-8. -/
def text (s : String) : List Byte := s.toUTF8.data.toList.map (·.toBitVec)

/-- Why the program does not go on: it waits for a newline behind the end of the input, it
looks in front of an array, it exits with a failure, an assertion of its own fails, or a
function it called does not return. The last is no end of the program: more turns were
to come. -/
inductive Stop
  | hung
  | undefined
  | failure
  | aborted
  | crashed
  | unfinished
  deriving DecidableEq

/-- What the program is linked with. A directory call is passed the address of `status`. -/
structure Backend (σ : Type) where
  /-- `status = -1;` -/
  rewind : σ → σ
  /-- What the function prints before anything else. -/
  tells : σ → Call Unit → List Byte
  call : σ → Call Unit → Option (Reply × σ)

structure Terminal (σ : Type) where
  stdin : List Byte
  stdout : List Byte
  /-- The last command, or `EOF`. -/
  cmd : Option Byte
  back : σ

abbrev Ran (σ α : Type) := Except (Stop × Terminal σ) α

section Program
variable {σ : Type}

/-- `printf(…)` -/
def Terminal.print (m : Terminal σ) (s : List Byte) : Terminal σ := { m with stdout := m.stdout ++ s }

def Terminal.call (m : Terminal σ) (lib : Backend σ) (c : Call Unit) : Ran σ (Reply × Terminal σ) :=
  match lib.call m.back c with
  | none => .error (.crashed, m.print (lib.tells m.back c))
  | some (r, back) => .ok (r, { m.print (lib.tells m.back c) with back := back })

def cliCommands : List Byte := text <|
  "\nCommands:\n" ++
  "        q                           - quit\n" ++
  "        n                           - check in new hamster\n" ++
  "        b                           - collect hamsters\n" ++
  "        l                           - list all hamsters\n" ++
  "        s                           - show hamster status\n" ++
  "        f                           - feed hamster\n" ++
  "> "

/-- What is left behind the next newline. -/
def skipLine : List Byte → Option (List Byte)
  | [] => none
  | b :: bs => if b = newline then some bs else skipLine bs

def flushinput (m : Terminal σ) : Ran σ (Terminal σ) :=
  match skipLine m.stdin with
  | none => .error (.hung, { m with stdin := [] })
  | some rest => .ok { m with stdin := rest }

/-- `if(name[strlen(name)-1] == '\n') name[strlen(name)-1] = '\0';` -/
def dropNewline (name : CString) : CString :=
  if name.chars.getLast? = some newline then
    ⟨name.chars.dropLast, fun h => name.no_nul (List.mem_of_mem_dropLast h)⟩
  else name

/-- The array is all zeros before `fgets`, so nothing read is the empty string, whose last
character would be in front of the array. -/
def getnameHelper (m : Terminal σ) : Ran σ (CString × Terminal σ) :=
  let (line, rest) := fgets (hmstrMaxName - 1) m.stdin
  let m := { m with stdin := rest }
  let name := cstr line
  if name.chars = [] then .error (.undefined, m) else .ok (dropNewline name, m)

def notANumber : List Byte := text "Not a valid number, please try again: "

/-- `while(scanf("%d", num) != 1) { … }` -/
def getnumberLoop : Nat → Terminal σ → Ran σ (BitVec 32 × Terminal σ)
  | 0, m => .error (.unfinished, m)
  | turns + 1, m =>
    match scanfInt m.stdin with
    | (some num, rest) => .ok (num, { m with stdin := rest })
    | (none, rest) => do
      let m ← flushinput ({ m with stdin := rest }.print notANumber)
      getnumberLoop turns m

/-- A number that is no number costs a line, so there are not more of them than bytes. -/
def getnumberHelper (m : Terminal σ) : Ran σ (BitVec 32 × Terminal σ) := do
  let (num, m) ← getnumberLoop (m.stdin.length + 1) m
  let m ← flushinput m
  return (num, m)

/-- `HMSTR_ERR_IS_CATASTROPHIC(err)` -/
def isCatastrophic (rc : BitVec 32) : Bool := rc.toInt ≤ hmstrErrStore.toInt

def complaint (funcname what : String) : List Byte :=
  text ("In function " ++ funcname ++ ": Error: " ++ what ++ "\n")

/-- `perror` writes to another stream. -/
def checkError (rc : BitVec 32) (funcname : String) (m : Terminal σ) : Ran σ (Bool × Terminal σ) :=
  if isCatastrophic rc then .error (.failure, m)
  else if rc.toInt < 0 then
    if rc = hmstrErrNameTooLong then
      .ok (true, m.print (complaint funcname "the specified name is too long"))
    else if rc = hmstrErrExists then
      .ok (true, m.print (complaint funcname "a hamster by that owner/name already exists"))
    else if rc = hmstrErrNotFound then
      .ok (true, m.print (complaint funcname "A hamster or hamster owner could not be found"))
    else .error (.aborted, m)
  else .ok (false, m)

/-- `%d` -/
def printed (x : BitVec 32) : List Byte := printInt x.toInt

/-- `%-<width>s` -/
def leftAligned (width : Nat) (s : List Byte) : List Byte :=
  s ++ List.replicate (width - s.length) 32

def heading : List Byte := text <|
  "==================================================" ++
  "==================================================\n" ++
  "ID         Owner Name                      Hamster Name                    " ++
  "Price â‚¬      Treats left\n"

/-- `printf("%-10d %-32s%-32s%-12d %-12d\n", id, owner, name, price, treats)` -/
def row (id : BitVec 32) (owner name : CString) (price : BitVec 16) (treats : BitVec 32) :
    List Byte :=
  leftAligned 10 (printed id) ++ [32] ++ leftAligned 32 owner.chars ++ leftAligned 32 name.chars ++
    leftAligned 12 (printInt price.toInt) ++ [32] ++ leftAligned 12 (printed treats) ++ [newline]

/-- The row of an entry that was read. -/
def rowOf (id : BitVec 32) : Reply → List Byte
  | ⟨treats, .entry owner name price⟩ => row id (cstr owner) (cstr name) price treats
  | _ => []

/-- The lines about a state that was asked for. -/
def stateLines : Reply → List Byte
  | ⟨ret, .state st⟩ =>
    text "return code: " ++ printed ret ++ text "\n" ++
      text "         Hamster State\n==================================\n" ++
      text "treats left: " ++ decimal st.treatsLeft.toNat ++ text "\n" ++
      text "rounds:      " ++ printed st.rounds ++ text "\n" ++
      text "cost:        " ++ printInt st.cost.toInt ++ text "\n"
  | _ => []

variable (lib : Backend σ)

/-- `case 'n'` -/
def checkIn (m : Terminal σ) : Ran σ (Terminal σ) := do
  let (owner, m) ← getnameHelper (m.print (text "checking in new hamster:\n        owner: "))
  let (name, m) ← getnameHelper (m.print (text "        hamster name: "))
  let (treats, m) ← getnumberHelper (m.print (text "        treats: "))
  let (r, m) ← m.call lib (.new owner name (treats.setWidth 16))
  let (failed, m) ← checkError r.ret "hmstr_new()" m
  return if failed then m else m.print (text "OK\n")

/-- `case 'b'` -/
def collect (m : Terminal σ) : Ran σ (Terminal σ) := do
  let (owner, m) ← getnameHelper (m.print (text "collecting hamsters:\n        owner: "))
  let (r, m) ← m.call lib (.collect (some owner))
  let (failed, m) ← checkError r.ret "hmstr_collect()" m
  return if failed then m else m.print (text "return code: " ++ printed r.ret ++ text "\n")

/-- `while((ret = hmstr_directory(&status, NULL, NULL)) >= 0) { … }` -/
def listLoop : Nat → Bool → Terminal σ → Ran σ (BitVec 32 × Bool × Terminal σ)
  | 0, _, m => .error (.unfinished, m)
  | turns + 1, any, m => do
    let (r, m) ← m.call lib (.directory () none none)
    if 0 ≤ r.ret.toInt then
      let id := r.ret
      let m := if any then m else m.print heading
      let (r, m) ← m.call lib (.readentry id)
      let (failed, m) ← checkError r.ret "hmstr_readentry()" m
      listLoop turns true (if failed then m else m.print (rowOf id r))
    else return (r.ret, any, m)

/-- `case 'l'` -/
def list (turns : Nat) (m : Terminal σ) : Ran σ (Terminal σ) := do
  let (ret, any, m) ← listLoop lib turns false { m with back := lib.rewind m.back }
  if ret = hmstrErrNotFound then
    return if any then m else m.print (text "No hamsters matching criteria found\n")
  else
    let (failed, m) ← checkError ret "hmstr_directory()" m
    return if failed then m else m.print (text "OK\n")

/-- `case 's'` -/
def showState (m : Terminal σ) : Ran σ (Terminal σ) := do
  let (id, m) ← getnumberHelper (m.print (text "        ID: "))
  let (r, m) ← m.call lib (.howsdoing id)
  let (failed, m) ← checkError r.ret "hmstr_howsdoing()" m
  return if failed then m else m.print (stateLines r)

/-- `case 'f'` -/
def feed (m : Terminal σ) : Ran σ (Terminal σ) := do
  let (id, m) ← getnumberHelper (m.print (text "        ID: "))
  let (treats, m) ← getnumberHelper (m.print (text "        treats: "))
  let (r, m) ← m.call lib (.givetreats id (treats.setWidth 16))
  let (failed, m) ← checkError r.ret "hmstr_givetreats()" m
  return if failed then m
    else m.print (text "Done! " ++ printed r.ret ++ text " treats remaining in store\n")

/-- The letters n, b, l, s, f and q. -/
def dispatch (turns : Nat) (cmd : Option Byte) (m : Terminal σ) : Ran σ (Terminal σ) :=
  match cmd.map (·.toNat) with
  | some 110 => checkIn lib m
  | some 98 => collect lib m
  | some 108 => list lib turns m
  | some 115 => showState lib m
  | some 102 => feed lib m
  | some 113 => .ok (m.print (text "quit\n"))
  | _ => .ok (m.print (text "unknown command\n\n"))

/-- The body of the main loop. -/
def command (turns : Nat) (m : Terminal σ) : Ran σ (Terminal σ) := do
  let m := m.print cliCommands
  let (cmd, rest) := getchar m.stdin
  let m ← flushinput { m with stdin := rest, cmd := cmd }
  dispatch lib turns cmd m

/-- `cmd != EOF && cmd != 'q'` -/
def goesOn (m : Terminal σ) : Bool := m.cmd ≠ none && m.cmd ≠ some 113

/-- `do { … } while(cmd != EOF && cmd != 'q');` -/
def main (turns : Nat) (m : Terminal σ) : Option (Ran σ (Terminal σ)) :=
  doWhile goesOn (command lib turns) turns m

end Program

/-- The library's world, `status`, and when the clock will be read. -/
structure Standalone where
  world : World
  status : Int
  clock : Nat → Lib.Clock.Timestamp
  calls : Nat

def Standalone.call (s : Standalone) (c : Call Unit) : Option (Reply × Standalone) :=
  ((c.map fun _ => s.status).exec { s.world with now := s.clock s.calls }).map fun (r, w) =>
    match r.out with
    | .handle p => (⟨r.ret, .none⟩, ⟨w, p, s.clock, s.calls + 1⟩)
    | _ => (r, ⟨w, s.status, s.clock, s.calls + 1⟩)

/-- Linked with libhamster.a, which prints nothing. -/
def library : Backend Standalone where
  rewind s := { s with status := -1 }
  tells _ _ := []
  call := Standalone.call

end Hamster.Cli.Menu
