import Hamster.Iot.Wheel

/-!
# The rounds on the wheel

The count is kept as long as an `int` holds it. Up to there the flag and the state agree,
whatever the order of the commands, and no interval is lost or counted twice.
-/
namespace Hamster.Contract.WheelRounds

open Iot.Wheel Lib.Scanf Lib.Runs

/-- At the top of the loop, whenever it is reached, and whenever rounds are published. -/
structure Accounts (startRun : ℤ) (tr : Log) : Prop where
  flag : ∀ before after h, tr = before ++ after → Run step (initial startRun) before h →
    (h.running = true ↔ h.state = .run)
  rounds : ∀ before after h, tr = before ++ after → Run step (initial startRun) before h →
    h.rounds = (timeline startRun (inputs before)).rounds
  published : ∀ before e after, tr = before ++ e :: after →
    Publishes e.output (timeline startRun (inputs (before ++ [e]))).rounds

variable {startRun : ℤ} {tr : Log} {h : Device}

theorem follows_before {before after : Log} (hclock : Ordered startRun (inputs (before ++ after)))
    (hrun : Run step (initial startRun) before h) :
    Follows h (timeline startRun (inputs before)) := by
  rw [inputs, List.map_append] at hclock
  exact follows_run hrun (follows_initial startRun) hclock.left

theorem accounts_of_run (hclock : Ordered startRun (inputs tr))
    (hrun : Run step (initial startRun) tr h) : Accounts startRun tr := by
  constructor
  · intro before after m htr hbefore
    subst htr
    have hf := follows_before hclock hbefore
    rw [hf.running, hf.state]
  · intro before after m htr hbefore
    subst htr
    exact (follows_before hclock hbefore).rounds
  · intro before e after htr
    subst htr
    obtain ⟨hbefore, m, hs, -⟩ := hrun.split_at
    have hf := follows_before hclock hbefore
    rw [inputs, List.map_append] at hclock
    obtain ⟨hnow, -⟩ := Ordered.tail (hclock.right (l := ⟨.run, startRun, []⟩))
    rw [inputs, List.map_append, timeline, List.foldl_append]
    exact (step_follows hf hnow hs).2

/-- Every command is carried out, and the count is right all along, exactly if the sum over the
complete intervals is an `int`. -/
theorem accounts_iff (startRun : ℤ) (is : List (Command × ℤ)) (hclock : Ordered startRun is) :
    (∃ tr h, Run step (initial startRun) tr h ∧ inputs tr = is ∧ Accounts startRun tr) ↔
      (timeline startRun is).rounds ≤ intMax := by
  constructor
  · intro ⟨tr, h, hrun, his, _⟩
    subst his
    have hf := follows_run hrun (follows_initial startRun) hclock
    have hbound := hf.bounded
    rw [hf.rounds] at hbound
    exact hbound
  · intro hmax
    have hfits : Fits (initial startRun) is := ⟨_, follows_initial startRun, hclock, hmax⟩
    obtain ⟨tr, h, hrun, his⟩ := hfits.run
    subst his
    exact ⟨tr, h, hrun, rfl, accounts_of_run hclock hrun⟩

/-- Two intervals; the second `r` comes while the hamster runs. -/
theorem accounts_of_two : ∃ tr h, Run step (initial 0) tr h ∧
    inputs tr = [(.room .b, 30), (.run, 60), (.sleep, 90), (.eat, 95), (.run, 100), (.mate, 250)] ∧
    Accounts 0 tr := by
  apply (accounts_iff 0 _ (by simp [Ordered])).mpr
  decide

/-- Some 163 years on the wheel. -/
theorem rounds_overflow : ¬ ∃ tr h, Run step (initial 0) tr h ∧
    inputs tr = [(.sleep, 5153960760)] ∧ Accounts 0 tr := by
  intro ⟨tr, h, hrun, his, _⟩
  cases hrun with
  | nil => simp [inputs] at his
  | cons hs _ =>
    obtain ⟨rfl, -⟩ := List.cons.inj his
    have hnone : step (initial 0) (.sleep, 5153960760) = none :=
      step_none (follows_initial 0) (by simp [timeline]) (by decide)
    simp [hnone] at hs

end Hamster.Contract.WheelRounds
