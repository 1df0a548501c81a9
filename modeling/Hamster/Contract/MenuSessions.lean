import Hamster.Contract.Integrity
import Hamster.Contract.MenuEnds

/-!
# A session at the menu

The stand-alone program is started on a database that programs before it have left. For
every input it prints what the menu of the asylum prints, comes to an end, and leaves
the database of the guests who are then left.
-/
namespace Hamster.Contract.MenuSessions

open Lib.Bytes Lib.Clock Lib.Loops Lib.Posix Lib.Runs Store Store.Entry Store.Library Cli.Menu
  Cli.Agreement Contract.MenuRefinement Contract.MenuListing Contract.MenuEnds
open Asylum (Guest State Represents reachable_represents)
open Contract.Integrity (alice bert)

/-- The program has printed nothing and opened nothing, and `status` is -1. -/
def booted (w : World) (clock : Nat → Timestamp) (stdin : List Byte) : Terminal Standalone :=
  ⟨stdin, [], none, ⟨w, -1, clock, 0⟩⟩

/-- The asylum opens for a new visitor. -/
def opened (a : State) (clock : Nat → Timestamp) (stdin : List Byte) : Terminal House :=
  ⟨stdin, [], none, ⟨{ a with cursor := fun _ => .closed }, 0, clock, 0⟩⟩

/-- The clock is not set back: not while the program runs, and not behind the readings of
the calls before. -/
structure Onwards (tr : List (Event Session Input Reply)) (clock : Nat → Timestamp) : Prop where
  tick : ∀ n, clock n ≤ clock (n + 1)
  later : ∀ e ∈ tr, e.input.1 ≤ clock 0

/-- A guest came at the reading of some call. -/
theorem mem_effect {now : Timestamp} {c : Call Nat} {gs : List Guest} {x : Guest}
    (h : x ∈ Asylum.effect now c gs) :
    x.admitted = now ∨ ∃ g ∈ gs, x.admitted = g.admitted := by
  have hsame (h : x ∈ gs) : x.admitted = now ∨ ∃ g ∈ gs, x.admitted = g.admitted := .inr ⟨x, h, rfl⟩
  cases c with
  | new o n t =>
    rw [Asylum.effect] at h
    rcases Asylum.join_eq now o n t gs with he | ⟨ho, hn, he⟩
    · exact hsame (he ▸ h)
    · rcases List.mem_append.mp (he ▸ h) with h | h
      · exact hsame h
      · exact .inl (by rw [List.mem_singleton.mp h]; rfl)
  | givetreats id t =>
    rcases Asylum.State.mem_amendFirst h with h | ⟨g, hg, rfl⟩
    · exact hsame h
    · exact .inr ⟨g, hg, rfl⟩
  | howsdoing id =>
    rcases Asylum.State.mem_amendFirst h with h | ⟨g, hg, rfl⟩
    · exact hsame h
    · exact .inr ⟨g, hg, rfl⟩
  | collect o =>
    cases o with
    | none => exact hsame h
    | some o => exact hsame (List.mem_of_mem_filter h)
  | lookup o n | directory v o n | readentry id => exact hsame h

theorem admitted_of_run {b : State} {tr : List (Event State Input Reply)} {now : Timestamp}
    (h : Run State.step .start tr b) (hle : ∀ e ∈ tr, e.input.1 ≤ now) :
    ∀ g ∈ b.guests, g.admitted ≤ now := by
  have hstart : ∀ g ∈ State.start.guests, g.admitted ≤ now := fun g hg => absurd hg List.not_mem_nil
  refine h.invariant_of (fun a => ∀ g ∈ a.guests, g.admitted ≤ now) (fun e => e.input.1 ≤ now)
    ?_ ?_ hstart
  · rintro a ⟨i, c⟩ o b ha hi hstep g hg
    rw [State.step_guests hstep] at hg
    rcases mem_effect hg with he | ⟨g', hg', he⟩
    · rw [he]
      exact hi
    · rw [he]
      exact ha g' hg'
  · exact hle

section Results
variable {s t : Session} {tr : List (Event Session Input Reply)} {w : World}
  {clock : Nat → Timestamp} {stdin : List Byte}

theorem keeps_start {a : State} (h : Represents t a) (hw : Sys.OnlyReads t.world w)
    (stdin : List Byte) : Same Eq Keeps (booted w clock stdin) (opened a clock stdin) :=
  ⟨rfl, rfl, rfl, ⟨_, h.onlyReads hw, rfl, fun _ _ => rfl⟩, rfl, rfl⟩

/-- The asylum after the calls before, open for the program. -/
theorem start (hs : s.Fresh) (hrun : Runs s tr t) (hw : Sys.OnlyReads t.world w)
    (hclock : Onwards tr clock) (stdin : List Byte) :
    ∃ tr' a, Run State.step .start tr' a ∧ inputs tr' = inputs tr ∧
      Same Eq Keeps (booted w clock stdin) (opened a clock stdin) ∧
      Sound (opened a clock stdin).back := by
  obtain ⟨tr', a, hrun', hrep, hmatch⟩ := reachable_represents hs hrun
  have hinputs : inputs tr = inputs tr' := matches_inputs hmatch
  refine ⟨tr', a, hrun', hinputs.symm, keeps_start hrep hw stdin, hclock.tick, ?_, fun _ _ => rfl⟩
  show ∀ g ∈ a.guests, g.admitted ≤ clock 0
  refine admitted_of_run hrun' fun e he => ?_
  have hmem : e.input ∈ inputs tr := hinputs ▸ List.mem_map_of_mem he
  obtain ⟨e', he', heq⟩ := List.mem_map.mp hmem
  rw [← heq]
  exact hclock.later e' he'

/-- The two programs on one input, for turns enough. -/
theorem menu_refines (hs : s.Fresh) (hrun : Runs s tr t) (hw : Sys.OnlyReads t.world w)
    (hclock : Onwards tr clock) (stdin : List Byte) :
    ∃ tr' a, Run State.step .start tr' a ∧ inputs tr' = inputs tr ∧
      ∀ turns, a.guests.length + stdin.length < turns →
        ∃ r r', main library turns (booted w clock stdin) = some r ∧
          main asylum turns (opened a clock stdin) = some r' ∧
          Alike Eq Keeps (Same Eq Keeps) r r' ∧
          Post (fun m => Sound m.back ∧ m.cmd = some 113) Ended r' := by
  obtain ⟨tr', a, hrun', hinputs, hsame, hsound⟩ := start hs hrun hw hclock stdin
  refine ⟨tr', a, hrun', hinputs, fun turns hturns => ?_⟩
  obtain ⟨r', hr', hpost⟩ := main_post hsound hturns
  have halike := main_alike simulates_asylum speaks_asylum turns hsame
  rw [hr'] at halike
  generalize hr : main library turns (booted w clock stdin) = x at halike
  cases halike with
  | some h => exact ⟨_, r', rfl, hr', h, hpost⟩

/-- The world in which one hamster is registered. -/
def one : Session := Session.ofOne .epoch alice bert 5

def oneAdmitted : List (Event Session Input Reply) :=
  [Session.admission .epoch alice bert 5]

theorem onwards_one : Onwards oneAdmitted fun _ => .epoch where
  tick _ := Timestamp.le_refl _
  later e he := by
    rw [List.mem_singleton.mp he]
    exact Timestamp.le_refl _

/-- The hamster is listed and collected. -/
theorem menu_refines_one : ∃ tr' a, Run State.step .start tr' a ∧
    inputs tr' = inputs oneAdmitted ∧
      ∀ turns, a.guests.length + (text "l\nb\na\nq\n").length < turns →
        ∃ r r', main library turns (booted one.world (fun _ => .epoch) (text "l\nb\na\nq\n")) =
            some r ∧
          main asylum turns (opened a (fun _ => .epoch) (text "l\nb\na\nq\n")) = some r' ∧
          Alike Eq Keeps (Same Eq Keeps) r r' ∧
          Post (fun m => Sound m.back ∧ m.cmd = some 113) Ended r' :=
  menu_refines Session.fresh_initial (Session.runs_ofOne ..) (Sys.OnlyReads.refl _) onwards_one _

/-- What command l prints, whatever calls were made before. -/
theorem list_prints (hs : s.Fresh) (hrun : Runs s tr t) (hw : Sys.OnlyReads t.world w)
    (hclock : Onwards tr clock) (stdin : List Byte) :
    ∃ tr' a, Run State.step .start tr' a ∧ inputs tr' = inputs tr ∧
      ∀ turns, a.guests.length < turns →
        ∃ m, list library turns (booted w clock stdin) = .ok m ∧
          Same Eq Keeps m { opened a clock stdin with
            stdout := listing clock a.guests 0
            back := House.listed (opened a clock stdin).back } := by
  obtain ⟨tr', a, hrun', hinputs, hsame, hsound⟩ := start hs hrun hw hclock stdin
  refine ⟨tr', a, hrun', hinputs, fun turns hturns => ?_⟩
  have halike := list_alike simulates_asylum speaks_asylum turns hsame
  rw [list_rows rfl hsound.pastAll hturns] at halike
  cases hlist : list library turns (booted w clock stdin) with
  | error e =>
    rw [hlist] at halike
    exact halike.elim
  | ok m =>
    rw [hlist] at halike
    exact ⟨m, rfl, halike⟩

theorem list_prints_one : ∃ tr' a, Run State.step .start tr' a ∧
    inputs tr' = inputs oneAdmitted ∧
      ∀ turns, a.guests.length < turns →
        ∃ m, list library turns (booted one.world (fun _ => .epoch) []) = .ok m ∧
          Same Eq Keeps m { opened a (fun _ => .epoch) [] with
            stdout := listing (fun _ => .epoch) a.guests 0
            back := House.listed (opened a (fun _ => .epoch) []).back } :=
  list_prints Session.fresh_initial (Session.runs_ofOne ..) (Sys.OnlyReads.refl _) onwards_one []

end Results

end Hamster.Contract.MenuSessions
