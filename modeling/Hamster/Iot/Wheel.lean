import Hamster.Lib.Runs
import Hamster.Lib.Scanf
import Mathlib.Data.Rat.Floor

/-!
# The MQTT hamster's wheel

The command loop of hamster_mqtt.c. A command comes with what `time` shows while it is carried
out, and `difftime` and the fractions are exact. What a command publishes is its output.
-/
namespace Hamster.Iot.Wheel

open Lib.Bytes Lib.Scanf Lib.Runs

inductive Room
  | a
  | b
  | c
  | d
  deriving DecidableEq

/-- `RUN`, `SLP`, `EAT` and `MAT` -/
inductive State
  | run
  | sleep
  | eat
  | mate
  deriving DecidableEq

/-- The characters of the menu, but for `q`, which ends the loop. -/
inductive Command
  | room (room : Room)
  | run
  | sleep
  | eat
  | mate
  | unknown
  deriving DecidableEq

/-- What is published, by topic. -/
inductive Message
  | position (room : Room)
  | state (state : State)
  | wheels (roundsString : List Byte)
  deriving DecidableEq

/-- The variables of `main` at the top of the loop. -/
structure Device where
  room : Room
  state : State
  running : Bool
  startRun : ℤ
  rounds : ℤ
  deriving DecidableEq

def intMax : ℤ := 2147483647

/-- A `double` as an `int`. The fraction is dropped, and there is no value for what is out of
range. -/
def toInt (x : ℚ) : Option ℤ :=
  let i := if 0 ≤ x then ⌊x⌋ else ⌈x⌉
  if -intMax - 1 ≤ i ∧ i ≤ intMax then some i else none

/-- What `s`, `e` and `m` do first when the hamster runs; `none` if the new value of `rounds` is
out of range. -/
def stop (h : Device) (endRun : ℤ) : Option (List Message × Device) :=
  let seconds := endRun - h.startRun
  (toInt (h.rounds + (seconds : ℚ) / 60 * 25)).map fun rounds =>
    ([.wheels (printInt rounds)], { h with running := false, rounds := rounds })

/-- The rest of these commands. -/
def enter (state : State) (sent : List Message) (h : Device) : List Message × Device :=
  (sent ++ [.state state], { h with state := state })

def step (h : Device) : Command × ℤ → Option (List Message × Device)
  | (.room room, _) => some ([.position room], { h with room := room })
  | (.run, now) =>
    let h := if !h.running then { h with running := true, startRun := now } else h
    some (enter .run [] h)
  | (.sleep, now) =>
    if h.running then (stop h now).map fun (sent, h) => enter .sleep sent h
    else some (enter .sleep [] h)
  | (.eat, now) =>
    if h.state = .run then (stop h now).map fun (sent, h) => enter .eat sent h
    else some (enter .eat [] h)
  | (.mate, now) =>
    if h.state = .run then (stop h now).map fun (sent, h) => enter .mate sent h
    else some (enter .mate [] h)
  | (.unknown, _) => some ([], h)

/-- The hamster when the loop begins. -/
def initial (startRun : ℤ) : Device := ⟨.a, .run, true, startRun, 0⟩

/-- The state after a command. -/
def nextState (state : State) : Command → State
  | .run => .run
  | .sleep => .sleep
  | .eat => .eat
  | .mate => .mate
  | .room _ => state
  | .unknown => state

/-- The state that is shown, the time since when it was running, and the intervals
in which it was that are complete. -/
structure Timeline where
  state : State
  since : ℤ
  complete : List (ℤ × ℤ)

/-- An interval begins when the state becomes `RUNNING` and is complete when it is left. -/
def observe (l : Timeline) (i : Command × ℤ) : Timeline :=
  let state := nextState l.state i.1
  if l.state = .run ∧ state ≠ .run then ⟨state, l.since, l.complete ++ [(l.since, i.2)]⟩
  else if l.state ≠ .run ∧ state = .run then ⟨state, i.2, l.complete⟩
  else ⟨state, l.since, l.complete⟩

def timeline (startRun : ℤ) (is : List (Command × ℤ)) : Timeline :=
  is.foldl observe ⟨.run, startRun, []⟩

/-- `25 * duration / 60`, rounded down, over the complete intervals. -/
def Timeline.rounds (l : Timeline) : ℤ :=
  (l.complete.map fun interval => 25 * (interval.2 - interval.1) / 60).sum

/-- The variables are what the timeline says. -/
structure Follows (h : Device) (l : Timeline) : Prop where
  state : h.state = l.state
  running : h.running = true ↔ l.state = .run
  startRun : l.state = .run → h.startRun = l.since
  rounds : h.rounds = l.rounds
  nonneg : 0 ≤ l.rounds
  bounded : h.rounds ≤ intMax

theorem follows_initial (startRun : ℤ) : Follows (initial startRun) (timeline startRun []) :=
  by
  constructor
  · rfl
  · simp [initial, timeline]
  · intro _
    rfl
  · rfl
  · exact le_refl 0
  · change (0 : ℤ) ≤ 2147483647
    decide

theorem toInt_rounds {rounds d : ℤ} (hrounds : 0 ≤ rounds) (hd : 0 ≤ d) :
    toInt (rounds + (d : ℚ) / 60 * 25) =
      if rounds + 25 * d / 60 ≤ intMax then some (rounds + 25 * d / 60) else none := by
  have hfrac : (d : ℚ) / 60 * 25 = ((25 * d : ℤ) : ℚ) / (60 : ℕ) := by
    push_cast
    ring
  have hpos : (0 : ℚ) ≤ rounds + (d : ℚ) / 60 * 25 := by positivity
  have hfloor : ⌊(rounds : ℚ) + (d : ℚ) / 60 * 25⌋ = rounds + 25 * d / 60 := by
    rw [Int.floor_intCast_add, hfrac, Rat.floor_intCast_div_natCast]
    rfl
  have hlow : -intMax - 1 ≤ rounds + 25 * d / 60 := by
    have hdiv : 0 ≤ 25 * d / 60 := by positivity
    rw [intMax]
    omega
  rw [toInt, if_pos hpos, hfloor]
  simp only [hlow, true_and]

theorem rounds_observe (l : Timeline) (i : Command × ℤ) :
    (observe l i).rounds =
      if l.state = .run ∧ nextState l.state i.1 ≠ .run
        then l.rounds + 25 * (i.2 - l.since) / 60 else l.rounds := by
  unfold observe
  dsimp only
  split
  · simp [Timeline.rounds]
  · split <;> rfl

theorem state_observe (l : Timeline) (i : Command × ℤ) :
    (observe l i).state = nextState l.state i.1 := by
  unfold observe
  dsimp only
  split
  · rfl
  · split <;> rfl

theorem since_observe (l : Timeline) (i : Command × ℤ) :
    (observe l i).since = if l.state ≠ .run ∧ nextState l.state i.1 = .run then i.2
      else l.since := by
  unfold observe
  dsimp only
  split
  · rename_i h
    rw [if_neg fun h' => h'.1 h.1]
  · split <;> rfl

theorem rounds_le_observe (l : Timeline) (i : Command × ℤ) (hnow : l.since ≤ i.2) :
    l.rounds ≤ (observe l i).rounds := by
  rw [rounds_observe]
  split
  · have hdiv : 0 ≤ 25 * (i.2 - l.since) / 60 := by
      apply Int.ediv_nonneg <;> omega
    omega
  · exact le_refl _

/-- Every count that is published is `rounds`. -/
def Publishes (out : List Message) (rounds : ℤ) : Prop :=
  ∀ s, .wheels s ∈ out → s = printInt rounds

section Step
variable {h : Device} {l : Timeline} {c : Command} {now : ℤ}

theorem stop_eq (hf : Follows h l) (hrun : l.state = .run) (hnow : l.since ≤ now) :
    stop h now =
      if (l.rounds + 25 * (now - l.since) / 60) ≤ intMax then
        some ([.wheels (printInt (l.rounds + 25 * (now - l.since) / 60))],
          { h with running := false, rounds := l.rounds + 25 * (now - l.since) / 60 })
      else none := by
  have hsub : 0 ≤ now - l.since := by omega
  rw [stop, hf.startRun hrun, hf.rounds, toInt_rounds hf.nonneg hsub]
  split <;> rfl

/-- All three commands that stop the hamster see that it runs, though they do not look at the
same variable. -/
theorem step_leave (hf : Follows h l) (hrun : l.state = .run)
    (hleave : nextState l.state c ≠ .run) :
    step h (c, now) = (stop h now).map fun (sent, h) => enter (nextState l.state c) sent h := by
  have hstate : h.state = .run := hf.state.trans hrun
  have hflag : h.running = true := hf.running.mpr hrun
  cases c with
  | room => exact absurd hrun hleave
  | run => exact absurd rfl hleave
  | sleep => exact if_pos hflag
  | eat => exact if_pos hstate
  | mate => exact if_pos hstate
  | unknown => exact absurd hrun hleave

theorem follows_observe {h' : Device} (hf : Follows h l)
    (hstay : ¬ (l.state = .run ∧ nextState l.state c ≠ .run))
    (hstate : h'.state = nextState l.state c)
    (hflag : h'.running = true ↔ nextState l.state c = .run)
    (hstart : nextState l.state c = .run →
      h'.startRun = if l.state = .run then h.startRun else now)
    (hrounds : h'.rounds = h.rounds) : Follows h' (observe l (c, now)) := by
  have hsame := rounds_observe l (c, now)
  rw [if_neg hstay] at hsame
  constructor
  · rw [hstate, state_observe]
  · rw [hflag, state_observe]
  · intro hrun
    rw [state_observe] at hrun
    rw [hstart hrun, since_observe]
    by_cases hbefore : l.state = .run
    · rw [if_pos hbefore, if_neg fun h => h.1 hbefore, hf.startRun hbefore]
    · rw [if_neg hbefore, if_pos ⟨hbefore, hrun⟩]
  · rw [hrounds, hsame, hf.rounds]
  · rw [hsame]
    exact hf.nonneg
  · rw [hrounds]
    exact hf.bounded

theorem follows_same (hf : Follows h l) (hsame : nextState l.state c = l.state) :
    Follows h (observe l (c, now)) := by
  have hstay : ¬ (l.state = .run ∧ nextState l.state c ≠ .run) :=
    fun hleave => hleave.2 (hsame.trans hleave.1)
  apply follows_observe hf hstay
  · rw [hsame, hf.state]
  · rw [hsame, hf.running]
  · intro hrun
    rw [if_pos (hsame.symm.trans hrun)]
  · rfl

/-- What `s`, `e` and `m` do when the hamster does not run. -/
theorem follows_idle (hf : Follows h l) (hidle : l.state ≠ .run)
    (hleave : nextState l.state c ≠ .run) :
    Follows { h with state := nextState l.state c } (observe l (c, now)) := by
  apply follows_observe hf (fun hstay => hidle hstay.1)
  · rfl
  · exact iff_of_false (fun hrun => hidle (hf.running.mp hrun)) hleave
  · exact fun hrun => absurd hrun hleave
  · rfl

/-- `r` starts an interval if none has begun. -/
theorem follows_start (hf : Follows h l) :
    Follows { (if !h.running then { h with running := true, startRun := now } else h) with
      state := .run } (observe l (.run, now)) := by
  apply follows_observe hf (fun hstay => hstay.2 rfl)
  · rfl
  · have hflag : (if !h.running then { h with running := true, startRun := now } else h).running
        = true := by
      cases hr : h.running
      · rfl
      · exact hr
    exact iff_of_true hflag rfl
  · intro _
    by_cases hrun : l.state = .run
    · have hflag := hf.running.mpr hrun
      simp [hflag, hrun]
    · have hflag : h.running = false := by
        rw [Bool.eq_false_iff]
        exact fun hr => hrun (hf.running.mp hr)
      simp [hflag, hrun]
  · cases hr : h.running <;> simp

theorem step_stay (hf : Follows h l) (hstay : ¬ (l.state = .run ∧ nextState l.state c ≠ .run)) :
    ∃ out h', step h (c, now) = some (out, h') ∧ Follows h' (observe l (c, now)) ∧
      ∀ s, .wheels s ∉ out := by
  have hidle : nextState l.state c ≠ .run → l.state ≠ .run := fun hne hrun => hstay ⟨hrun, hne⟩
  cases c with
  | room room =>
    obtain ⟨h₁, h₂, h₃, h₄, h₅, h₆⟩ := @follows_same h l (.room room) now hf rfl
    exact ⟨_, _, rfl, ⟨h₁, h₂, h₃, h₄, h₅, h₆⟩, by simp⟩
  | run => exact ⟨_, _, rfl, follows_start hf, by simp⟩
  | sleep =>
    have hleave : nextState l.state .sleep ≠ .run := by simp [nextState]
    have hrest : l.state ≠ .run := hidle hleave
    have hflag : ¬ h.running = true := fun hr => hrest (hf.running.mp hr)
    exact ⟨_, _, if_neg hflag, follows_idle (c := .sleep) hf hrest hleave, by simp⟩
  | eat =>
    have hleave : nextState l.state .eat ≠ .run := by simp [nextState]
    have hrest : l.state ≠ .run := hidle hleave
    have hstate : ¬ h.state = .run := fun hr => hrest (hf.state.symm.trans hr)
    exact ⟨_, _, if_neg hstate, follows_idle (c := .eat) hf hrest hleave, by simp⟩
  | mate =>
    have hleave : nextState l.state .mate ≠ .run := by simp [nextState]
    have hrest : l.state ≠ .run := hidle hleave
    have hstate : ¬ h.state = .run := fun hr => hrest (hf.state.symm.trans hr)
    exact ⟨_, _, if_neg hstate, follows_idle (c := .mate) hf hrest hleave, by simp⟩
  | unknown => exact ⟨_, _, rfl, follows_same hf rfl, by simp⟩

theorem step_some (hf : Follows h l) (hnow : l.since ≤ now)
    (hmax : (observe l (c, now)).rounds ≤ intMax) :
    ∃ out h', step h (c, now) = some (out, h') ∧ Follows h' (observe l (c, now)) ∧
      Publishes out (observe l (c, now)).rounds := by
  by_cases hleave : l.state = .run ∧ nextState l.state c ≠ .run
  · have hrounds := rounds_observe l (c, now)
    rw [if_pos hleave] at hrounds
    have hle : l.rounds ≤ (observe l (c, now)).rounds := rounds_le_observe l (c, now) hnow
    have hnonneg := hf.nonneg
    rw [step_leave hf hleave.1 hleave.2, stop_eq hf hleave.1 hnow, ← hrounds, if_pos hmax]
    refine ⟨_, _, rfl, ?_, ?_⟩
    · constructor
      · exact (state_observe l (c, now)).symm
      · rw [state_observe]
        exact iff_of_false (by simp) hleave.2
      · rw [state_observe]
        exact fun hrun => absurd hrun hleave.2
      · rfl
      · omega
      · exact hmax
    · intro s hs
      simpa using hs
  · obtain ⟨out, h', hs, hf', hout⟩ := @step_stay h l c now hf hleave
    exact ⟨out, h', hs, hf', fun s hs => absurd hs (hout s)⟩

theorem step_none (hf : Follows h l) (hnow : l.since ≤ now)
    (hmax : ¬ (observe l (c, now)).rounds ≤ intMax) : step h (c, now) = none := by
  rw [rounds_observe] at hmax
  by_cases hleave : l.state = .run ∧ nextState l.state c ≠ .run
  · rw [if_pos hleave] at hmax
    rw [step_leave hf hleave.1 hleave.2, stop_eq hf hleave.1 hnow, if_neg hmax]
    rfl
  · rw [if_neg hleave, ← hf.rounds] at hmax
    exact absurd hf.bounded hmax

end Step

/-- The clock does not go back. -/
def Ordered (since : ℤ) (is : List (Command × ℤ)) : Prop :=
  (since :: is.map Prod.snd).Pairwise (· ≤ ·)

theorem Ordered.tail {l : Timeline} {i : Command × ℤ} {is : List (Command × ℤ)}
    (h : Ordered l.since (i :: is)) : l.since ≤ i.2 ∧ Ordered (observe l i).since is := by
  obtain ⟨hsince, hrest⟩ := List.pairwise_cons.mp h
  refine ⟨hsince _ (by simp), ?_⟩
  rw [Ordered, since_observe]
  split
  · exact hrest
  · apply List.pairwise_cons.mpr
    exact ⟨fun t ht => hsince t (List.mem_cons_of_mem _ ht), (List.pairwise_cons.mp hrest).2⟩

theorem Ordered.left {since : ℤ} {is is' : List (Command × ℤ)} (h : Ordered since (is ++ is')) :
    Ordered since is := by
  rw [Ordered, List.map_append, ← List.cons_append] at h
  exact (List.pairwise_append.mp h).1

theorem Ordered.right {is is' : List (Command × ℤ)} {l : Timeline}
    (h : Ordered l.since (is ++ is')) : Ordered (is.foldl observe l).since is' := by
  induction is generalizing l with
  | nil => exact h
  | cons i is ih => exact ih h.tail.2

theorem rounds_le_foldl (is : List (Command × ℤ)) (l : Timeline) (h : Ordered l.since is) :
    l.rounds ≤ (is.foldl observe l).rounds := by
  induction is generalizing l with
  | nil => exact le_refl _
  | cons i is ih =>
    obtain ⟨hnow, hrest⟩ := h.tail
    exact (rounds_le_observe l i hnow).trans (ih _ hrest)

abbrev Log := List (Event Device (Command × ℤ) (List Message))

/-- A step that is made leads where the timeline does. -/
theorem step_follows {h h' : Device} {l : Timeline} {i : Command × ℤ} {out : List Message}
    (hf : Follows h l) (hnow : l.since ≤ i.2) (hs : step h i = some (out, h')) :
    Follows h' (observe l i) ∧ Publishes out (observe l i).rounds := by
  by_cases hmax : (observe l i).rounds ≤ intMax
  · obtain ⟨out', m, hs', hf', hout⟩ := step_some hf hnow hmax
    obtain ⟨rfl, rfl⟩ := Prod.mk.inj (Option.some.inj (hs'.symm.trans hs))
    exact ⟨hf', hout⟩
  · have hnone := step_none hf hnow hmax
    exact absurd (hs.symm.trans hnone) (by simp)

/-- A run leads where the timeline of its commands does. -/
theorem follows_run {h h' : Device} {l : Timeline} {tr : Log} (hrun : Run step h tr h')
    (hf : Follows h l) (hclock : Ordered l.since (inputs tr)) :
    Follows h' ((inputs tr).foldl observe l) := by
  induction hrun generalizing l with
  | nil => exact hf
  | @cons s m t i o tr hs _ ih =>
    obtain ⟨hnow, hrest⟩ := hclock.tail
    exact ih (step_follows hf hnow hs).1 hrest

/-- The commands still to come keep the count an `int`. -/
def Fits (h : Device) (is : List (Command × ℤ)) : Prop :=
  ∃ l, Follows h l ∧ Ordered l.since is ∧ (is.foldl observe l).rounds ≤ intMax

theorem Fits.next {h : Device} {i : Command × ℤ} {is : List (Command × ℤ)}
    (hfits : Fits h (i :: is)) : ∃ out h', step h i = some (out, h') ∧ Fits h' is := by
  obtain ⟨l, hf, hclock, hmax⟩ := hfits
  obtain ⟨hnow, hrest⟩ := hclock.tail
  have hle := rounds_le_foldl is (observe l i) hrest
  obtain ⟨out, h', hs, hf', -⟩ := step_some hf hnow (hle.trans hmax)
  exact ⟨out, h', hs, _, hf', hrest, hmax⟩

theorem Fits.run {h : Device} {is : List (Command × ℤ)} (hfits : Fits h is) :
    ∃ tr h', Run step h tr h' ∧ inputs tr = is := by
  obtain ⟨tr, h', hrun, his, -⟩ := Run.exists_of Fits (fun _ _ _ => Fits.next) is h hfits
  exact ⟨tr, h', hrun, his⟩

end Hamster.Iot.Wheel
