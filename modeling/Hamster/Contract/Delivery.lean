import Mathlib.Data.List.ReduceOption
import Hamster.Lib.Framing
import Hamster.Lib.Runs
import Hamster.Server.Loop
import Hamster.Server.Protocol
import Hamster.Store.Frame

/-!
# Messages and the reads that deliver them

The calls a connection makes are those of the messages its stream is cut into, as
long as every read returns all it was asked for and no request reads from the
connection itself. The loop does not look at what a read returned, so any other
delivery leaves it with bytes of different messages in one buffer.
-/
namespace Hamster.Contract.Delivery

open Lib.Bytes Lib.Clock Lib.Memory Lib.Posix Lib.Framing Lib.Runs Store.Entry Store.Library
  Store.Frame Server.Wire Server.Messages Server.Handlers Server.Protocol Server.Loop

/-- Payload-Length -/
def payloadLength (header : List Byte) : Nat := (word header 16 4 2).toNat

/-- The complete messages of a stream. -/
def messages (stream : List Byte) : List (List Byte × List Byte) := cut 8 payloadLength stream

/-- The call a message stands for. A payload too short for its arguments leaves
the rest to what the buffer held. -/
def meantCall (m : List Byte × List Byte) (junk : Scratch) : Option (Call Int) :=
  requestedCall (word m.1 16 6 2) (poke junk.payloadStream 0 m.2) junk

def meantCalls (ms : List (List Byte × List Byte)) (js : List Scratch) : List (Call Int) :=
  (List.zipWith meantCall ms js).reduceOption

def executedCall : Output → Option (Call Int)
  | .served call _ => call
  | .accepted _ | .closed => none

/-- The library calls of a run, in order. -/
def executed (tr : List (Event Process Input Output)) : List (Call Int) :=
  (outputs tr).filterMap executedCall

/-- The connection was closed, or a read on it failed. -/
def Over (sock : Nat) (tr : List (Event Process Input Output)) : Prop :=
  .closed ∈ outputs tr ∨ ∃ e ∈ tr, ∃ now junk, e.input = .turn now junk ∧
    (e.before.readHeader (some sock) now).1 = none

/-- The calls made are those of the stream's messages, each once and in order; all
of them have been made when the connection is over. -/
def Framed (sock : Nat) (stream : List Byte) (tr : List (Event Process Input Output)) : Prop :=
  ∃ js : List Scratch, js.length = (messages stream).length ∧
    executed tr <+: meantCalls (messages stream) js ∧
    (Over sock tr → executed tr = meantCalls (messages stream) js)

/-- A turn that finds the stream at its end, or reads a whole header and a whole
payload for a call that leaves the connection's descriptor alone: a listing that names
it fails before it is looked at. -/
def WholeReads (sock : Nat) (e : Event Process Input Output) : Prop :=
  match e.input with
  | .accept _ => False
  | .turn now junk =>
    (e.before.readHeader (some sock) now).1 = some [] ∨
      ∃ header payload, (e.before.readHeader (some sock) now).1 = some header ∧
        header.length = 8 ∧
        ((e.before.readHeader (some sock) now).2.read sock (payloadLength header)).1 =
          some payload ∧
        payload.length = payloadLength header ∧
        ∀ o n, meantCall (header, payload) junk = some (.directory sock o n) →
          (tooLongOpt o || tooLongOpt n) = true

theorem read_sock {w : World} {fd n : Nat} {rx : Rx} {bs : List Byte}
    (hd : w.fds.lookup fd = some (.sock rx)) (h : (w.read fd n).1 = some bs) :
    (rx.read n).1 = some bs ∧ (w.read fd n).2.fds.lookup fd = some (.sock (rx.read n).2) := by
  unfold Sys.read at h ⊢
  split at h
  · cases h
  · rename_i hok
    have hd' : w.tick.fds.lookup fd = some (.sock rx) := hd
    simp only [hd', if_neg hok] at h ⊢
    exact ⟨h, Finmap.lookup_insert _⟩

/-- Only the end of a stream is read as no byte. -/
theorem bytes_of_read_nil {rx : Rx} {n : Nat} (hn : n ≠ 0) (h : (rx.read n).1 = some []) :
    rx.bytes = [] := by
  cases hseg : rx.segments with
  | nil => rw [Rx.bytes, hseg]; rfl
  | cons seg rest =>
    rw [(Rx.read_cons hn hseg).1] at h
    have hne : seg ≠ [] := rx.nonempty seg (by rw [hseg]; exact List.mem_cons_self)
    rcases List.take_eq_nil_iff.mp (Option.some.inj h) with h0 | h0
    · exact absurd h0 hn
    · exact absurd h0 hne

section Turn
variable {s t : Process} {sock : Nat} {rx : Rx} {now : Timestamp} {junk : Scratch} {out : Output}

theorem receive_end (h : (s.readHeader (some sock) now).1 = some []) :
    s.receive (some sock) now junk = none := by
  unfold Process.receive
  cases hr : s.readHeader (some sock) now with
  | mk header w =>
    rw [hr] at h
    cases h
    rfl

theorem paySize_of_header (headerStream : Mem) {header : List Byte} (hlen : header.length = 8) :
    (decodeHeader (poke headerStream 0 header)).paySize.toNat = payloadLength header ∧
      (decodeHeader (poke headerStream 0 header)).rpcID = word header 16 6 2 := by
  have hp : peek (poke headerStream 0 header) 0 header.length = header := peek_poke headerStream
  exact ⟨congrArg BitVec.toNat (rpcDecodeUint16_of_payload hp (by omega)),
    rpcDecodeUint16_of_payload hp (by omega)⟩

/-- A message read whole is handed on as it stands in the stream. -/
theorem receive_message {header payload : List Byte}
    (hh : (s.readHeader (some sock) now).1 = some header) (hlen : header.length = 8)
    (hp : ((s.readHeader (some sock) now).2.read sock (payloadLength header)).1 = some payload)
    (junk : Scratch) : ∃ m, s.receive (some sock) now junk = some m ∧
      m.world = ((s.readHeader (some sock) now).2.read sock (payloadLength header)).2 ∧
      m.call junk = meantCall (header, payload) junk := by
  cases hr : s.readHeader (some sock) now with
  | mk got w =>
    rw [hr] at hh hp
    obtain rfl : got = some header := hh
    obtain ⟨hpay, hrpc⟩ := paySize_of_header s.headerStream hlen
    cases header with
    | nil => simp at hlen
    | cons b bs =>
      have hrec : s.receive (some sock) now junk = some
          ⟨(w.read sock (payloadLength (b :: bs))).2, poke s.headerStream 0 (b :: bs),
            decodeHeader (poke s.headerStream 0 (b :: bs)),
            (handleHeader (poke s.headerStream 0 (b :: bs)) s.sendHeader).2,
            poke junk.payloadStream 0 payload⟩ := by
        unfold Process.receive
        rw [hr]
        simp only [handleHeader, Option.getD_some, readSocket, hpay]
        cases hw : w.read sock (payloadLength (b :: bs)) with
        | mk got w' =>
          rw [hw] at hp
          rw [hp, Option.getD_some]
      refine ⟨_, hrec, rfl, ?_⟩
      rw [Received.call, meantCall, ← hrpc]

/-- Such a turn takes the message off the stream and makes its call, and the
connection is where it would be if nothing had been called. -/
theorem turn_message (hd : s.world.fds.lookup sock = some (.sock rx)) {header payload : List Byte}
    (hh : (s.readHeader (some sock) now).1 = some header) (hlen : header.length = 8)
    (hp : ((s.readHeader (some sock) now).2.read sock (payloadLength header)).1 = some payload)
    (hcall : ∀ o n, meantCall (header, payload) junk = some (.directory sock o n) →
      (tooLongOpt o || tooLongOpt n) = true)
    (ht : s.turn (some sock) now junk = some (out, t)) :
    ∃ rx', rx.bytes = header ++ (payload ++ rx'.bytes) ∧
      t.world.fds.lookup sock = some (.sock rx') ∧ t.phase = s.phase ∧
      executedCall out = meantCall (header, payload) junk ∧ out ≠ .closed := by
  obtain ⟨hh', hd'⟩ := read_sock (w := { s.world with now := now }) hd hh
  obtain ⟨hp', hd''⟩ := read_sock (w := (s.readHeader (some sock) now).2) hd' hp
  obtain ⟨m, hm, hworld, hmeant⟩ := receive_message hh hlen hp junk
  obtain ⟨⟨sent, hout⟩, hphase, -, hdone⟩ := turn_served hm ht
  refine ⟨((rx.read 8).2.read (payloadLength header)).2, ?_, ?_, hphase,
    by rw [hout, ← hmeant]; rfl, by rw [hout]; exact nofun⟩
  · rw [← Rx.read_bytes hh', ← Rx.read_bytes hp']
  · rw [← hworld] at hd''
    rcases hdone with ⟨-, he⟩ | ⟨c, r, hc, hex, -⟩
    · rw [he, hd'']
    · rw [hmeant] at hc
      by_cases hown : ∃ o n, c = .directory sock o n
      · obtain ⟨o, n, rfl⟩ := hown
        rw [exec_directory, directory_of_tooLong (hcall o n hc)] at hex
        have hsame : m.world = t.world := (Prod.mk.inj (Option.some.inj hex)).2
        rw [← hsame, hd'']
      · rw [exec_spares hex (Finmap.mem_of_lookup_eq_some hd'') fun o n he => hown ⟨o, n, he⟩, hd'']

end Turn

theorem meantCalls_cons (m : List Byte × List Byte) (ms : List (List Byte × List Byte))
    (j : Scratch) (js : List Scratch) :
    meantCalls (m :: ms) (j :: js) = (meantCall m j).toList ++ meantCalls ms js := by
  rw [meantCalls, List.zipWith_cons_cons]
  cases meantCall m j with
  | none => rw [List.reduceOption_cons_of_none]; rfl
  | some c => rw [List.reduceOption_cons_of_some]; rfl

theorem executed_cons (e : Event Process Input Output) (tr : List (Event Process Input Output)) :
    executed (e :: tr) = (executedCall e.output).toList ++ executed tr := by
  simp only [executed, outputs, List.map_cons, List.filterMap_cons]
  cases executedCall e.output <;> rfl

def blankScratch : Scratch := ⟨fun _ => 0, fun _ => 0, fun _ => 0, [], [], blankState, 0⟩

/-- No turn is taken in front of `accept`. -/
theorem run_ends {s t : Process} {sock : Nat} {tr : List (Event Process Input Output)}
    (hphase : s.phase = .accepting) (hr : Run Process.step s tr t)
    (hok : ∀ e ∈ tr, WholeReads sock e) : tr = [] := by
  cases hr with
  | nil => rfl
  | @cons s m t i out tr hstep hrun =>
    have hfirst := hok _ List.mem_cons_self
    cases i with
    | accept rx' => exact hfirst.elim
    | turn now junk =>
      rw [Process.step, hphase] at hstep
      cases hstep

/-- In every run of a connection whose reads are whole, the calls are those of the
stream's messages. -/
theorem framed_of_wholeReads {s t : Process} {sock : Nat} {rx : Rx}
    {tr : List (Event Process Input Output)} (hphase : s.phase = .serving (some sock))
    (hd : s.world.fds.lookup sock = some (.sock rx)) (hr : Run Process.step s tr t)
    (hok : ∀ e ∈ tr, WholeReads sock e) : Framed sock rx.bytes tr := by
  induction hr generalizing rx with
  | nil s =>
    refine ⟨List.replicate _ blankScratch, List.length_replicate, List.nil_prefix, ?_⟩
    rintro (h | ⟨e, he, -⟩)
    · cases h
    · cases he
  | @cons s m t i out tr hstep hrun ih =>
    have hfirst := hok _ List.mem_cons_self
    cases i with
    | accept rx' => exact hfirst.elim
    | turn now junk =>
      have hturn : s.turn (some sock) now junk = some (out, m) := by
        rw [Process.step, hphase] at hstep
        exact hstep
      rcases hfirst with hend | ⟨header, payload, hh, hlen, hp, hlp, hcall⟩
      · have hbytes : rx.bytes = [] :=
          bytes_of_read_nil (by decide) (read_sock (w := { s.world with now := now }) hd hend).1
        rw [turn_end (receive_end hend)] at hturn
        obtain ⟨rfl, rfl⟩ := Prod.mk.inj (Option.some.inj hturn)
        obtain rfl := run_ends rfl hrun fun e he => hok e (List.mem_cons_of_mem _ he)
        rw [hbytes]
        exact ⟨[], rfl, List.nil_prefix, fun _ => rfl⟩
      · obtain ⟨rx', hbytes, hd', hphase', hexec, hne⟩ :=
          turn_message hd hh hlen hp hcall hturn
        obtain ⟨js, hjs, hpre, hover⟩ := ih (hphase'.trans hphase) hd'
          fun e he => hok e (List.mem_cons_of_mem _ he)
        have hcut : messages rx.bytes = (header, payload) :: messages rx'.bytes := by
          rw [messages, hbytes, cut_cons (by decide) hlen hlp]
          rfl
        refine ⟨junk :: js, by rw [hcut, List.length_cons, List.length_cons, hjs], ?_, ?_⟩
        · rw [hcut, meantCalls_cons, executed_cons, hexec]
          exact (List.prefix_append_right_inj _).mpr hpre
        · intro h
          rw [hcut, meantCalls_cons, executed_cons, hexec, hover]
          rcases h with h | ⟨e, he, now', junk', hi, hfail⟩
          · exact .inl ((List.mem_cons.mp h).resolve_left hne.symm)
          · rcases List.mem_cons.mp he with rfl | he
            · cases hi
              rw [hh] at hfail
              cases hfail
            · exact .inr ⟨e, he, now', junk', hi, hfail⟩

/-- A server on a new connection, with nothing in its store. -/
def connected (rx : Rx) : Process where
  world :=
    { names := fun _ => none
      inodes := fun _ => []
      nextIno := 0
      fds := (∅ : FdTable).insert 0 (.sock rx)
      faults := []
      now := .epoch }
  serverFd := 1
  phase := .serving (some 0)
  headerStream _ := 0
  sendHeader := ⟨0, 0, 0, 0, 0⟩

/-- `hmstr_readentry(9)` -/
def readentryNine : List Byte × List Byte := ([0, 0, 0, 1, 0, 4, 0, 5], [0, 0, 0, 9])

def inTwo : Rx := ⟨[readentryNine.1, readentryNine.2], false, by decide⟩

/-- The same bytes, cut within the header. -/
def cutEarly : Rx := ⟨[[0, 0, 0, 1], [0, 4, 0, 5, 0, 0, 0, 9]], false, by decide⟩

def zeroTurn : Input := .turn .epoch blankScratch

theorem framed_in_two : ∃ out t, Run Process.step (connected inTwo)
      [⟨connected inTwo, zeroTurn, out⟩] t ∧
    Framed 0 inTwo.bytes [⟨connected inTwo, zeroTurn, out⟩] := by
  have hread : ((connected inTwo).readHeader (some 0) .epoch).1 =
      some readentryNine.1 ∧
      (((connected inTwo).readHeader (some 0) .epoch).2.read 0
        (payloadLength readentryNine.1)).1 = some readentryNine.2 := by decide +kernel
  obtain ⟨⟨out, t⟩, hstep⟩ := Option.isSome_iff_exists.mp
    (show ((connected inTwo).step zeroTurn).isSome = true by decide +kernel)
  refine ⟨out, t, .single hstep, ?_⟩
  refine framed_of_wholeReads rfl (Finmap.lookup_insert _) (.single hstep) fun e he => ?_
  obtain rfl := List.mem_singleton.mp he
  exact .inr ⟨readentryNine.1, readentryNine.2, hread.1, by decide, hread.2, by decide,
    fun _ _ hcall => nomatch hcall⟩

theorem cut_header_lost : ∃ tr t, Run Process.step (connected cutEarly) tr t ∧
    inputs tr = [zeroTurn, zeroTurn, zeroTurn] ∧ ¬ Framed 0 cutEarly.bytes tr := by
  have hplay : ((play Process.step (connected cutEarly) [zeroTurn, zeroTurn, zeroTurn]).map (·.1)) =
      some [.served none (List.replicate 8 0), .served none (List.replicate 8 0), .closed] := by
    decide +kernel
  obtain ⟨⟨os, t⟩, hp, hos⟩ := Option.map_eq_some_iff.mp hplay
  obtain ⟨tr, hr, hi, ho⟩ := Run.of_play hp
  rw [show os = _ from hos] at ho
  refine ⟨tr, t, hr, hi, ?_⟩
  rintro ⟨js, hlen, -, hover⟩
  have hmsgs : messages cutEarly.bytes = [readentryNine] := by decide +kernel
  have hnone : executed tr = [] := by rw [executed, ho]; rfl
  rw [hmsgs] at hlen hover
  obtain ⟨j, rfl⟩ := List.length_eq_one_iff.mp hlen
  have hcall : meantCalls [readentryNine] [j] =
      [.readentry (rpcDecodeInt32 (poke j.payloadStream 0 readentryNine.2) 0)] := rfl
  rw [hnone, hcall] at hover
  exact absurd (hover (.inl (by rw [ho]; simp))) nofun

end Hamster.Contract.Delivery
