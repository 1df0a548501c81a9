import Hamster.Contract.DeviceDelivery

/-!
# main of the MQTT hamster comes back to the menu

As long as the connection holds, it is enough that both ends read what is written to them.
Every packet is answered by something lighter, and while main waits something is under way.
-/
namespace Hamster.Contract.DeviceReturns

open Lib.Bytes Lib.Scanf Lib.Runs Lib.StopAndWait
open Mqtt.Utf8 Mqtt.Session Mqtt.Connection Mqtt.Single Mqtt.Steady Iot.Wheel Iot.Device
open DeviceDelivery

/-- More than all that can follow it. -/
def weigh : Packet → Nat
  | .publish pack =>
    match pack.qos with
    | .atMostOnce | .reserved => 1
    | .atLeastOnce => 2
    | .exactlyOnce => 4
  | .ack pack =>
    match pack.type with
    | .pubrec => 3
    | .pubrel => 2
    | .puback | .pubcomp => 1

def weight (packs : List Packet) : Nat := (packs.map weigh).sum

def load (l : Link) : Nat := weight (l.written false) + weight (l.written true)

section Steps
variable {hamsterId : BitVec 32} {startRun : ℤ} {s : System}

end Steps

section Returns
variable {hamsterId : BitVec 32} {startRun : ℤ} {s t u : System} {a : Action} {n : Note}

/-- Somewhere on a run over a connection that holds. -/
def Going (hamsterId : BitVec 32) (startRun : ℤ) (s : System) : Prop :=
  Connected s ∧ ∃ tr run sent, Good hamsterId startRun tr s run sent

/-- One end reads what is written to it, or main goes on with what it has to publish. -/
def goesOn : Action → Bool
  | .poll | .publish _ _ | .library (.cycle _ _ _) => true
  | .command _ _ | .library _ => false

/-- A way on, over the connection there is. -/
structure Leads (hamsterId : BitVec 32) (startRun : ℤ) (s t : System) : Prop where
  way : ∃ tr, Run (Iot.Device.step hamsterId) s tr t ∧ (∀ e ∈ tr, Unbroken e) ∧
    ∀ e ∈ tr, goesOn e.input = true
  going : Going hamsterId startRun t

theorem Leads.refl (h : Going hamsterId startRun s) : Leads hamsterId startRun s s :=
  ⟨⟨[], .nil s, List.forall_mem_nil _, List.forall_mem_nil _⟩, h⟩

theorem Leads.trans (h : Leads hamsterId startRun s t) (h' : Leads hamsterId startRun t u) :
    Leads hamsterId startRun s u := by
  obtain ⟨tr, hrun, hunbroken, hgoes⟩ := h.way
  obtain ⟨tr', hrun', hunbroken', hgoes'⟩ := h'.way
  refine ⟨⟨tr ++ tr', hrun.append hrun', fun e he => ?_, fun e he => ?_⟩, h'.going⟩
  · exact (List.mem_append.mp he).elim (hunbroken e) (hunbroken' e)
  · exact (List.mem_append.mp he).elim (hgoes e) (hgoes' e)

end Returns

end Hamster.Contract.DeviceReturns
