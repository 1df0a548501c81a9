import Hamster.Asylum.Refinement
import Hamster.Cli.Agreement

/-!
# The menu of the asylum

The stand-alone program is the menu linked with the library. Linked with the asylum
instead it prints the same for every input, stops for the same reason, and the database
is that of the guests.
-/
namespace Hamster.Contract.MenuRefinement

open Lib.Bytes Lib.Clock Lib.Posix Lib.Runs Store Store.Entry Store.Library Store.Scans Cli.Menu
  Cli.Agreement
open Asylum (Guest State Represents step_agree)

/-- The asylum, the number of the handle that is `status`, and when the clock will be
read. A listing takes a new handle. -/
structure House where
  state : State
  handle : Nat
  clock : Nat → Timestamp
  calls : Nat

namespace House

def rewind (b : House) : House := { b with handle := b.handle + 1 }

def call (b : House) (c : Call Unit) : Option (Reply × House) :=
  (b.state.step (b.clock b.calls, c.map fun _ => b.handle)).map fun (r, a) =>
    (r, { b with state := a, calls := b.calls + 1 })

end House

def asylum : Backend House := ⟨House.rewind, fun _ _ => [], House.call⟩

theorem asylum_call (b : House) (c : Call Unit) : asylum.call b c =
    (b.state.step (b.clock b.calls, c.map fun _ => b.handle)).map fun x =>
      (x.1, { b with state := x.2, calls := b.calls + 1 }) := rfl

/-- The handles of earlier listings keep what they were, those of later ones are new. -/
structure Keeps (s : Standalone) (b : House) : Prop where
  handles : ∃ p : Nat → Int, Represents ⟨s.world, p⟩ b.state ∧ p b.handle = s.status ∧
    ∀ v, b.handle < v → p v = -1
  clock : s.clock = b.clock
  calls : s.calls = b.calls

section Keeps
variable {s : Standalone} {b : House}

theorem keeps_rewind (h : Keeps s b) : Keeps (library.rewind s) (asylum.rewind b) := by
  obtain ⟨⟨p, hrep, -, hnew⟩, hclock, hcalls⟩ := h
  exact ⟨⟨p, hrep, hnew _ (Nat.lt_succ_self _), fun v hv => hnew v (Nat.lt_of_succ_lt hv)⟩, hclock,
    hcalls⟩

theorem map_map {η θ κ : Type} (c : Call η) (f : η → θ) (g : θ → κ) :
    (c.map f).map g = c.map fun x => g (f x) := by
  cases c <;> rfl

/-- What the program makes of a reply is what a session does with one variable. -/
theorem call_settled (s : Standalone) (b : House) (p : Nat → Int) (hp : p b.handle = s.status)
    {c : Call Unit} {r : Reply} {w : World}
    (hex : (c.map fun _ => s.status).exec { s.world with now := s.clock s.calls } = some (r, w)) :
    ∃ q, Session.settle ⟨s.world, p⟩ (c.map fun _ => b.handle) r w =
        ((match r.out with | .handle _ => ⟨r.ret, .none⟩ | _ => r),
          ⟨w, Function.update p b.handle q⟩) ∧
      (match r.out with | .handle q' => q = q' | _ => q = s.status) := by
  have hsame : Function.update p b.handle s.status = p := by rw [← hp, Function.update_eq_self]
  cases c with
  | directory u o n =>
    cases hex
    exact ⟨_, rfl, rfl⟩
  | new o n t =>
    cases hex
    exact ⟨s.status, by rw [hsame]; rfl, rfl⟩
  | lookup o n =>
    cases hex
    exact ⟨s.status, by rw [hsame]; rfl, rfl⟩
  | givetreats id t =>
    cases hex
    exact ⟨s.status, by rw [hsame]; rfl, rfl⟩
  | howsdoing id =>
    obtain ⟨x, -, he⟩ := Option.map_eq_some_iff.mp hex
    cases he
    exact ⟨s.status, by rw [hsame]; rfl, rfl⟩
  | readentry id =>
    obtain ⟨x, -, he⟩ := Option.map_eq_some_iff.mp hex
    cases he
    exact ⟨s.status, by rw [hsame]; rfl, rfl⟩
  | collect o =>
    obtain ⟨x, -, he⟩ := Option.map_eq_some_iff.mp hex
    cases he
    exact ⟨s.status, by rw [hsame]; rfl, rfl⟩

/-- Every call is answered by the asylum's. -/
theorem keeps_call (h : Keeps s b) (c : Call Unit) :
    Answers (fun _ => Keeps) (library.call s c) (asylum.call b c) := by
  obtain ⟨⟨p, hrep, hp, hnew⟩, hclock, hcalls⟩ := h
  have hag := step_agree (b.clock b.calls, c.map fun _ => b.handle) hrep
  have hwhere : Session.step ⟨s.world, p⟩ (b.clock b.calls, c.map fun _ => b.handle) =
      ((c.map fun _ => s.status).exec { s.world with now := s.clock s.calls }).map
        fun x => Session.settle ⟨s.world, p⟩ (c.map fun _ => b.handle) x.1 x.2 := by
    have hcall : (c.map fun _ => b.handle).map p = c.map fun _ => s.status := by
      rw [map_map, hp]
    rw [hclock, hcalls, ← hcall]
    rfl
  rw [hwhere] at hag
  show Answers _ (Standalone.call s c) (House.call b c)
  rw [Standalone.call, House.call]
  cases hex : (c.map fun _ => s.status).exec { s.world with now := s.clock s.calls } with
  | none =>
    rw [hex] at hag
    generalize b.state.step _ = y at hag
    cases hag
    exact .none
  | some x =>
    obtain ⟨r, w⟩ := x
    rw [hex] at hag
    obtain ⟨q, hsettle, hq⟩ := call_settled s b p hp hex
    rw [Option.map_some] at hag
    dsimp only at hag
    rw [hsettle] at hag
    obtain ⟨a, hstep, hrep'⟩ := hag.of_some
    rw [hstep, Option.map_some, Option.map_some]
    have hlater : ∀ v, b.handle < v → Function.update p b.handle q v = -1 := fun v hv => by
      rw [Function.update_of_ne (Nat.ne_of_gt hv), hnew v hv]
    have hkeeps (status : Int) (hs : q = status) :
        Keeps ⟨w, status, s.clock, s.calls + 1⟩ { b with state := a, calls := b.calls + 1 } :=
      ⟨⟨_, hrep', by rw [Function.update_self, hs], hlater⟩, hclock, by rw [hcalls]⟩
    obtain ⟨ret, out⟩ := r
    cases out with
    | handle q' => exact .some ⟨Sounds.refl _, hkeeps q' hq⟩
    | none | state | entry => exact .some ⟨Sounds.refl _, hkeeps s.status hq⟩

theorem simulates_asylum : Simulates library asylum Keeps Keeps where
  weaken h := h
  rewind := keeps_rewind
  call h _ := keeps_call h _
  entry h _ := keeps_call h _
  next h := by
    simp only [ite_self]
    exact keeps_call h _

/-- Neither prints anything. -/
theorem speaks_asylum : Speaks Eq library asylum where
  prints s h := congrArg (· ++ s) h
  tells _ _ _ h := congrArg (· ++ []) h

end Keeps

end Hamster.Contract.MenuRefinement
