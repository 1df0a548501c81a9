import Mathlib.Data.List.Forall2
import Mathlib.Tactic.Common

/-!
# Runs of a step function

A machine that answers each input with an output or stops for good. A run is
the list of its events; each event keeps the state the input met, so that a
statement about a whole history can speak of what held at every step.
-/
namespace Hamster.Lib.Runs

structure Event (σ ι ω : Type) where
  before : σ
  input : ι
  output : ω

variable {σ τ ι ω : Type}

inductive Run (step : σ → ι → Option (ω × σ)) : σ → List (Event σ ι ω) → σ → Prop
  | nil (s : σ) : Run step s [] s
  | cons {s m t : σ} {i : ι} {o : ω} {tr : List (Event σ ι ω)} :
      step s i = some (o, m) → Run step m tr t → Run step s (⟨s, i, o⟩ :: tr) t

def inputs (tr : List (Event σ ι ω)) : List ι := tr.map (·.input)

def outputs (tr : List (Event σ ι ω)) : List ω := tr.map (·.output)

/-- The run on a list of inputs, computed. -/
def play (step : σ → ι → Option (ω × σ)) (s : σ) : List ι → Option (List ω × σ)
  | [] => some ([], s)
  | i :: is =>
    (step s i).bind fun (o, m) => (play step m is).map fun (os, t) => (o :: os, t)

/-- The run on a list of inputs, as far as the machine goes, and where it ends. -/
def trace (step : σ → ι → Option (ω × σ)) (s : σ) : List ι → List (Event σ ι ω) × σ
  | [] => ([], s)
  | i :: is =>
    match step s i with
    | none => ([], s)
    | some (o, m) => (⟨s, i, o⟩ :: (trace step m is).1, (trace step m is).2)

namespace Run

variable {step : σ → ι → Option (ω × σ)} {s m t : σ} {tr tr' : List (Event σ ι ω)}

theorem append (h : Run step s tr m) (h' : Run step m tr' t) : Run step s (tr ++ tr') t := by
  induction h with
  | nil => exact h'
  | cons hs _ ih => exact .cons hs (ih h')

theorem single {i : ι} {o : ω} (h : step s i = some (o, t)) : Run step s [⟨s, i, o⟩] t :=
  .cons h (.nil t)

theorem split (h : Run step s (tr ++ tr') t) : ∃ m, Run step s tr m ∧ Run step m tr' t := by
  induction tr generalizing s with
  | nil => exact ⟨s, .nil s, h⟩
  | cons e tr ih =>
    cases h with
    | cons hs h =>
      obtain ⟨m, h₁, h₂⟩ := ih h
      exact ⟨m, .cons hs h₁, h₂⟩

/-- A run through a given event, cut there. -/
theorem split_at {e : Event σ ι ω} (h : Run step s (tr ++ e :: tr') t) :
    Run step s tr e.before ∧ ∃ m, step e.before e.input = some (e.output, m) ∧
      Run step m tr' t := by
  obtain ⟨m, h₁, h₂⟩ := split h
  cases h₂ with
  | cons hs h₂ => exact ⟨h₁, _, hs, h₂⟩

theorem of_play {is : List ι} {os : List ω} (h : play step s is = some (os, t)) :
    ∃ tr, Run step s tr t ∧ inputs tr = is ∧ outputs tr = os := by
  induction is generalizing s os with
  | nil =>
    obtain ⟨rfl, rfl⟩ := Prod.mk.inj (Option.some.inj h)
    exact ⟨[], .nil s, rfl, rfl⟩
  | cons i is ih =>
    obtain ⟨⟨o, m⟩, hs, h⟩ := Option.bind_eq_some_iff.mp h
    obtain ⟨⟨os', t'⟩, hp, h⟩ := Option.map_eq_some_iff.mp h
    obtain ⟨rfl, rfl⟩ := Prod.mk.inj h
    obtain ⟨tr, hr, hi, ho⟩ := ih hp
    exact ⟨⟨s, i, o⟩ :: tr, .cons hs hr, by rw [← hi]; rfl, by rw [← ho]; rfl⟩

theorem of_trace (is : List ι) (s : σ) : Run step s (trace step s is).1 (trace step s is).2 := by
  induction is generalizing s with
  | nil => exact .nil s
  | cons i is ih =>
    rw [trace]
    split
    · exact .nil s
    · rename_i hs
      exact .cons hs (ih _)

/-- A machine that stops answers the first inputs. -/
theorem inputs_trace (is : List ι) (s : σ) : inputs (trace step s is).1 <+: is := by
  induction is generalizing s with
  | nil => exact List.prefix_rfl
  | cons i is ih =>
    rw [trace]
    split
    · exact List.nil_prefix
    · exact List.cons_prefix_cons.mpr ⟨rfl, ih _⟩

/-- The same, for runs all of whose events satisfy `ok`. -/
theorem invariant_of (P : σ → Prop) (ok : Event σ ι ω → Prop)
    (hstep : ∀ s i o t, P s → ok ⟨s, i, o⟩ → step s i = some (o, t) → P t)
    (h : Run step s tr t) (hok : ∀ e ∈ tr, ok e) (hs : P s) : P t := by
  induction h with
  | nil => exact hs
  | cons he _ ih =>
    exact ih (fun e hm => hok e (by simp [hm])) (hstep _ _ _ _ hs (hok _ (by simp)) he)

/-- What holds at the start and is kept by one more step holds of every history and the
state it leads to. -/
theorem extend {P : List (Event σ ι ω) → σ → Prop} (hs : P [] s)
    (hstep : ∀ tr m i o t, P tr m → step m i = some (o, t) → P (tr ++ [⟨m, i, o⟩]) t)
    (h : Run step s tr t) : P tr t := by
  suffices hP : ∀ past, P past s → P (past ++ tr) t from hP [] hs
  clear hs
  induction h with
  | nil =>
    intro past hpast
    rwa [List.append_nil]
  | cons he _ ih =>
    intro past hpast
    rw [List.append_cons]
    exact ih _ (hstep _ _ _ _ _ hpast he)

/-- No event can be an `A` as long as `P` holds, and only a `B` ends that. -/
theorem between {P : σ → Prop} {A B : Event σ ι ω → Prop} {e : Event σ ι ω}
    (hkeep : ∀ s i o t, P s → ¬ B ⟨s, i, o⟩ → step s i = some (o, t) → P t)
    (hblock : ∀ s i o t, P s → step s i = some (o, t) → ¬ A ⟨s, i, o⟩)
    (h : Run step s (tr ++ e :: tr') t) (hs : P s) (he : A e) : ∃ c ∈ tr, B c := by
  by_contra hno
  have hok : ∀ c ∈ tr, ¬ B c := fun c hc hB => hno ⟨c, hc, hB⟩
  obtain ⟨hrun, m, hstep, -⟩ := h.split_at
  exact hblock _ _ _ _ (hrun.invariant_of P (fun c => ¬ B c) hkeep hok hs) hstep he

/-- A machine that can answer as long as `P` holds of its state and the inputs
still to come answers them all. -/
theorem exists_of (P : σ → List ι → Prop)
    (hstep : ∀ s i is, P s (i :: is) → ∃ o t, step s i = some (o, t) ∧ P t is)
    (is : List ι) (s : σ) (h : P s is) : ∃ tr t, Run step s tr t ∧ inputs tr = is ∧ P t [] := by
  induction is generalizing s with
  | nil => exact ⟨[], s, .nil s, rfl, h⟩
  | cons i is ih =>
    obtain ⟨o, m, he, hm⟩ := hstep s i is h
    obtain ⟨tr, t, hr, hi, ht⟩ := ih m hm
    exact ⟨⟨s, i, o⟩ :: tr, t, .cons he hr, by rw [← hi]; rfl, ht⟩

end Run

section Simulation
variable {step : σ → ι → Option (ω × σ)} {step' : τ → ι → Option (ω × τ)} {R : σ → τ → Prop}

/-- Both machines stop, or both answer alike and stay related. -/
inductive Agree (R : σ → τ → Prop) : Option (ω × σ) → Option (ω × τ) → Prop
  | stop : Agree R none none
  | step {o : ω} {s : σ} {a : τ} : R s a → Agree R (some (o, s)) (some (o, a))

theorem Agree.of_some {o : ω} {s : σ} {x : Option (ω × τ)} (h : Agree R (some (o, s)) x) :
    ∃ a, x = some (o, a) ∧ R s a := by
  cases h with
  | step hr => exact ⟨_, rfl, hr⟩

theorem Agree.of_some' {o : ω} {a : τ} {x : Option (ω × σ)} (h : Agree R x (some (o, a))) :
    ∃ s, x = some (o, s) ∧ R s a := by
  cases h with
  | step hr => exact ⟨_, rfl, hr⟩

/-- Events of the two machines at the same place of related runs. -/
structure Event.Matches (R : σ → τ → Prop) (e : Event σ ι ω) (e' : Event τ ι ω) : Prop where
  before : R e.before e'.before
  input : e.input = e'.input
  output : e.output = e'.output

variable {s t : σ} {a : τ} {tr : List (Event σ ι ω)}

theorem Run.simulate (hstep : ∀ s a i, R s a → Agree R (step s i) (step' a i))
    (h : Run step s tr t) (ha : R s a) :
    ∃ tr' b, Run step' a tr' b ∧ R t b ∧ List.Forall₂ (Event.Matches R) tr tr' := by
  induction h generalizing a with
  | nil => exact ⟨[], a, .nil a, ha, .nil⟩
  | @cons s m t i o tr he _ ih =>
    have hag := hstep s a i ha
    rw [he] at hag
    obtain ⟨b, he', hb⟩ := hag.of_some
    obtain ⟨tr', c, hr, hc, hm⟩ := ih hb
    exact ⟨⟨a, i, o⟩ :: tr', c, .cons he' hr, hc, .cons ⟨ha, rfl, rfl⟩ hm⟩

theorem Agree.symm {x : Option (ω × σ)} {y : Option (ω × τ)} (h : Agree R x y) :
    Agree (fun a s => R s a) y x := by
  cases h with
  | stop => exact .stop
  | step hr => exact .step hr

theorem matches_outputs {R : σ → τ → Prop} {tr : List (Event σ ι ω)} {tr' : List (Event τ ι ω)}
    (h : List.Forall₂ (Event.Matches R) tr tr') : outputs tr = outputs tr' := by
  induction h with
  | nil => rfl
  | cons hm _ ih => rw [outputs, List.map_cons, hm.output]; exact congrArg _ ih

theorem matches_inputs {R : σ → τ → Prop} {tr : List (Event σ ι ω)} {tr' : List (Event τ ι ω)}
    (h : List.Forall₂ (Event.Matches R) tr tr') : inputs tr = inputs tr' := by
  induction h with
  | nil => rfl
  | cons hm _ ih => rw [inputs, List.map_cons, hm.input]; exact congrArg _ ih

end Simulation
end Hamster.Lib.Runs
