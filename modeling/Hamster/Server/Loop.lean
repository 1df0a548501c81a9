import Hamster.Server.Handlers

/-!
# The server's loops

`main` of hamster_server.c behind `listen`: the outer loop accepts a connection,
the inner one reads a header and a payload, calls the handler and sends what it
wrote. A step is one `accept` or one turn of the inner loop. No step is the
process aborted by the library.
-/
namespace Hamster.Server.Loop

open Lib.Bytes Lib.Clock Lib.Memory Lib.Posix Wire Messages Handlers Store.Entry Store.Library

/-- Where `main` is: in front of `accept`, or in the inner loop with `new_socket`,
which is `none` for the `-1` of an `accept` that failed. -/
inductive Phase
  | accepting
  | serving (newSocket : Option Nat)
  deriving DecidableEq

/-- The world and the variables of `main` that keep their values from one turn to
the next. `receiveHeader` is not among them: each turn sets all of it. -/
structure Process where
  world : World
  serverFd : Nat
  phase : Phase
  headerStream : Mem
  sendHeader : Header

/-- A connection comes in that will deliver `rx`, or the inner loop goes round at
a given time over given leftovers. -/
inductive Input
  | accept (rx : Rx)
  | turn (now : Timestamp) (junk : Scratch)

/-- What a step shows: the new socket, the end of a connection, or the library
call made, if any, and the bytes sent. -/
inductive Output
  | accepted (newSocket : Option Nat)
  | closed
  | served (call : Option (Call Int)) (sent : List Byte)
  deriving DecidableEq

/-- `read(new_socket, …, n)` -/
def readSocket (w : World) (newSocket : Option Nat) (n : Nat) : Option (List Byte) × World :=
  match newSocket with
  | none => (none, w)
  | some fd => w.read fd n

/-- `close(new_socket)` -/
def closeSocket (w : World) (newSocket : Option Nat) : World :=
  match newSocket with
  | none => w
  | some fd => w.close fd

/-- What the handlers are given. -/
structure Received where
  world : World
  headerStream : Mem
  receiveHeader : Header
  sendHeader : Header
  payloadStream : Mem

/-- `read(new_socket, headerStream, 8)` -/
def Process.readHeader (s : Process) (newSocket : Option Nat) (now : Timestamp) :
    Option (List Byte) × World :=
  readSocket { s.world with now := now } newSocket 8

/-- From the header's arrival to the payload's. Only the first result is looked
at, and only for being 0; bytes that did not come stay what they were. -/
def Process.receive (s : Process) (newSocket : Option Nat) (now : Timestamp) (junk : Scratch) :
    Option Received :=
  match s.readHeader newSocket now with
  | (some [], _) => none
  | (header, w) =>
    let headerStream := poke s.headerStream 0 (header.getD [])
    let (receiveHeader, sendHeader) := handleHeader headerStream s.sendHeader
    let (payload, w) := readSocket w newSocket receiveHeader.paySize.toNat
    some ⟨w, headerStream, receiveHeader, sendHeader, poke junk.payloadStream 0 (payload.getD [])⟩

namespace Received

/-- The library call the handler makes. -/
def call (m : Received) (junk : Scratch) : Option (Call Int) :=
  requestedCall m.receiveHeader.rpcID m.payloadStream junk

/-- The bytes sent, the header they were sent under and the world afterwards. -/
def respond (m : Received) (junk : Scratch) : Option (List Byte × Header × World) :=
  (handlePayload m.world m.payloadStream junk.replyBuffer m.sendHeader junk m.receiveHeader).map
    fun (retValue, replyBuffer, w) =>
      if retValue.toInt < 0 then
        let (errorBuffer, sendHeader) := constructErrorMsg junk.errorBuffer m.sendHeader retValue
        (peek errorBuffer 0 (sendHeader.paySize.toNat + 8), sendHeader, w)
      else (peek replyBuffer 0 (m.sendHeader.paySize.toNat + 8), m.sendHeader, w)

end Received

namespace Process

def turn (s : Process) (newSocket : Option Nat) (now : Timestamp) (junk : Scratch) :
    Option (Output × Process) :=
  match s.receive newSocket now junk with
  | none =>
    let w := closeSocket (s.readHeader newSocket now).2 newSocket
    some (.closed, { s with world := w, phase := .accepting })
  | some m => (m.respond junk).map fun (sent, sendHeader, w) =>
      (.served (m.call junk) sent,
        { s with world := w, headerStream := m.headerStream, sendHeader := sendHeader })

def step (s : Process) : Input → Option (Output × Process)
  | .accept rx =>
    match s.phase with
    | .accepting =>
      let (newSocket, w) := s.world.accept s.serverFd rx
      some (.accepted newSocket, { s with world := w, phase := .serving newSocket })
    | .serving _ => none
  | .turn now junk =>
    match s.phase with
    | .accepting => none
    | .serving newSocket => s.turn newSocket now junk

end Process

/-- An error message as replyWriter.c composes it. -/
def errorMessage (sendHeader : Header) (retValue : BitVec 32) : List Byte :=
  headerBytes { sendHeader with flag := 2, paySize := 4 } ++ beBytes 4 retValue.toNat

theorem constructErrorMsg_eq (errorBuffer : Mem) (sendHeader : Header) (retValue : BitVec 32) :
    constructErrorMsg errorBuffer sendHeader retValue =
      (poke errorBuffer 0 (errorMessage sendHeader retValue),
        { sendHeader with flag := 2, paySize := 4 }) := by
  simp only [constructErrorMsg, encodeFailure, encodeReturn_eq, errorMessage]

@[simp] theorem length_errorMessage (sendHeader : Header) (retValue : BitVec 32) :
    (errorMessage sendHeader retValue).length = 12 := by simp [errorMessage]

/-- What is sent for a result, and the header kept for the next turn. -/
def reaction (m : Received) (junk : Scratch) (r : Reply) : List Byte × Header :=
  if r.ret.toInt < 0 then
    (errorMessage m.sendHeader r.ret, { m.sendHeader with flag := 2, paySize := 4 })
  else
    (peek (poke junk.replyBuffer 0 (headerBytes m.sendHeader ++ marshalled r)) 0
      (m.sendHeader.paySize.toNat + 8), m.sendHeader)

theorem respond_eq (m : Received) (junk : Scratch) : m.respond junk =
    match m.call junk with
    | none => some (peek junk.replyBuffer 0 (m.sendHeader.paySize.toNat + 8), m.sendHeader, m.world)
    | some c => (c.exec m.world).map fun (r, w) =>
        ((reaction m junk r).1, (reaction m junk r).2, w) := by
  rw [Received.respond, handlePayload_eq, Received.call]
  cases requestedCall m.receiveHeader.rpcID m.payloadStream junk with
  | none => rfl
  | some c =>
    dsimp only
    cases c.exec m.world with
    | none => rfl
    | some x =>
      obtain ⟨r, w⟩ := x
      simp only [Option.map_some, reaction, constructErrorMsg_eq]
      by_cases hneg : r.ret.toInt < 0
      · have hsent : peek (poke junk.errorBuffer 0 (errorMessage m.sendHeader r.ret)) 0 12 =
            errorMessage m.sendHeader r.ret := by
          have h : peek (poke junk.errorBuffer 0 (errorMessage m.sendHeader r.ret)) 0
              (errorMessage m.sendHeader r.ret).length = _ := peek_poke junk.errorBuffer
          rwa [length_errorMessage] at h
        simp only [hneg, ↓reduceIte]
        exact congrArg (fun b => some (b, _, w)) hsent
      · simp only [hneg, ↓reduceIte, replied, Int.not_lt.mp hneg]

theorem turn_end {s : Process} {newSocket : Option Nat} {now : Timestamp} {junk : Scratch}
    (h : s.receive newSocket now junk = none) : s.turn newSocket now junk =
      some (.closed, { s with
        world := closeSocket (s.readHeader newSocket now).2 newSocket
        phase := .accepting }) := by
  simp only [Process.turn, h]

/-- Only the connection is read while a request comes in. -/
theorem receive_world {s : Process} {newSocket : Option Nat} {now : Timestamp} {junk : Scratch}
    {m : Received} (h : s.receive newSocket now junk = some m) :
    ∃ n, m.world = (readSocket (s.readHeader newSocket now).2 newSocket n).2 := by
  unfold Process.receive at h
  split at h
  · cases h
  · rename_i heq
    rw [heq]
    cases h
    exact ⟨_, rfl⟩

/-- A turn that serves a request makes the call it stands for and nothing else. -/
theorem turn_served {s t : Process} {newSocket : Option Nat} {now : Timestamp} {junk : Scratch}
    {m : Received} {out : Output} (h : s.receive newSocket now junk = some m)
    (ht : s.turn newSocket now junk = some (out, t)) :
    (∃ sent, out = .served (m.call junk) sent) ∧ t.phase = s.phase ∧ t.serverFd = s.serverFd ∧
      ((m.call junk = none ∧ t.world = m.world) ∨
        ∃ c r, m.call junk = some c ∧ c.exec m.world = some (r, t.world) ∧
          out = .served (some c) (reaction m junk r).1) := by
  simp only [Process.turn, h, respond_eq] at ht
  cases hc : m.call junk with
  | none =>
    rw [hc] at ht
    cases ht
    exact ⟨⟨_, rfl⟩, rfl, rfl, .inl ⟨rfl, rfl⟩⟩
  | some c =>
    rw [hc] at ht
    dsimp only at ht
    cases hex : c.exec m.world with
    | none =>
      rw [hex] at ht
      cases ht
    | some x =>
      obtain ⟨r, w⟩ := x
      rw [hex] at ht
      cases ht
      exact ⟨⟨_, rfl⟩, rfl, rfl, .inr ⟨c, r, rfl, hex, rfl⟩⟩

end Hamster.Server.Loop
