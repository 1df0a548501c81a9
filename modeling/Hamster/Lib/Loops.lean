import Mathlib.Tactic.Common

/-!
# Loops

`while` and `do … while` over a body that may throw, for so many turns: no result is a
loop that has not ended by then. The rules for both take an invariant, a measure and
what holds of an exception.
-/
namespace Hamster.Lib.Loops

section Definitions
variable {ε σ : Type} (cond : σ → Bool) (body : σ → Except ε σ)

def whileLoop : Nat → σ → Option (Except ε σ)
  | 0, s => if cond s then none else some (.ok s)
  | turns + 1, s =>
    if cond s then
      match body s with
      | .error e => some (.error e)
      | .ok s => whileLoop turns s
    else some (.ok s)

/-- The first turn is not counted. -/
def doWhile (turns : Nat) (s : σ) : Option (Except ε σ) :=
  match body s with
  | .error e => some (.error e)
  | .ok s => whileLoop cond body turns s

end Definitions

section Turns
variable {ε σ : Type} {cond : σ → Bool} {body : σ → Except ε σ} {s : σ} {turns : Nat}

theorem whileLoop_exit (h : cond s = false) : whileLoop cond body turns s = some (.ok s) := by
  cases turns with
  | zero => rw [whileLoop, h, if_neg Bool.false_ne_true]
  | succ turns => rw [whileLoop, h, if_neg Bool.false_ne_true]

theorem whileLoop_enter (h : cond s = true) :
    whileLoop cond body (turns + 1) s = doWhile cond body turns s := by
  rw [whileLoop, if_pos h, doWhile]

/-- A loop that ends leaves at once or goes round once more. -/
theorem whileLoop_cases {r : Except ε σ} (h : whileLoop cond body turns s = some r) :
    (cond s = false ∧ r = .ok s) ∨
      (cond s = true ∧ ∃ t, turns = t + 1 ∧ doWhile cond body t s = some r) := by
  cases hc : cond s with
  | false =>
    rw [whileLoop_exit hc] at h
    exact .inl ⟨rfl, (Option.some.inj h).symm⟩
  | true =>
    cases turns with
    | zero =>
      rw [whileLoop, if_pos hc] at h
      cases h
    | succ turns =>
      rw [whileLoop_enter hc] at h
      exact .inr ⟨rfl, turns, rfl, h⟩

/-- A loop that has ended takes no notice of further turns. -/
theorem whileLoop_mono {r : Except ε σ} (h : whileLoop cond body turns s = some r) {more : Nat}
    (hmore : turns ≤ more) : whileLoop cond body more s = some r := by
  induction turns generalizing s more with
  | zero =>
    rcases whileLoop_cases h with ⟨hc, rfl⟩ | ⟨-, t, ht, -⟩
    · exact whileLoop_exit hc
    · omega
  | succ turns ih =>
    rcases whileLoop_cases h with ⟨hc, rfl⟩ | ⟨hc, t, ht, hdo⟩
    · exact whileLoop_exit hc
    · obtain rfl : t = turns := by omega
      obtain ⟨more, rfl⟩ : ∃ k, more = k + 1 := ⟨more - 1, by omega⟩
      rw [whileLoop_enter hc]
      rw [doWhile] at hdo ⊢
      cases hb : body s with
      | error e => rwa [hb] at hdo
      | ok s' =>
        rw [hb] at hdo
        exact ih hdo (by omega)

theorem doWhile_mono {r : Except ε σ} (h : doWhile cond body turns s = some r) {more : Nat}
    (hmore : turns ≤ more) : doWhile cond body more s = some r := by
  rw [doWhile] at h ⊢
  cases hb : body s with
  | error e => rwa [hb] at h
  | ok s' =>
    rw [hb] at h
    exact whileLoop_mono h hmore

end Turns

section Rules
variable {ε σ : Type}

/-- `P` holds of what is returned, `E` of what is thrown. -/
def Post (P : σ → Prop) (E : ε → Prop) : Except ε σ → Prop
  | .ok s => P s
  | .error e => E e

theorem Post.returned {P : σ → Prop} {r : Except ε σ} (h : Post P (fun _ => False) r) :
    ∃ s, r = .ok s ∧ P s := by
  cases r with
  | error e => exact absurd h id
  | ok s => exact ⟨s, rfl, h⟩

theorem Post.imp {P Q : σ → Prop} {E : ε → Prop} {r : Except ε σ} (h : Post P E r)
    (hPQ : ∀ s, P s → Q s) : Post Q E r := by
  cases r with
  | error e => exact h
  | ok s => exact hPQ s h

theorem Post.bind {τ : Type} {P : σ → Prop} {Q : τ → Prop} {E : ε → Prop} {x : Except ε σ}
    {f : σ → Except ε τ} (h : Post P E x) (hf : ∀ s, P s → Post Q E (f s)) :
    Post Q E (x >>= f) := by
  cases x with
  | error e => exact h
  | ok s => exact hf s h

variable {cond : σ → Bool} {body : σ → Except ε σ} {P : σ → Prop} {E : ε → Prop} {μ : σ → Nat}

/-- Each turn keeps the invariant and lowers the measure, or throws. -/
theorem whileLoop_rule
    (hbody : ∀ s, P s → cond s = true → Post (fun s' => P s' ∧ μ s' < μ s) E (body s))
    {s : σ} (hs : P s) {turns : Nat} (hturns : μ s < turns) :
    ∃ r, whileLoop cond body turns s = some r ∧ Post (fun s' => P s' ∧ cond s' = false) E r := by
  induction turns generalizing s with
  | zero => omega
  | succ turns ih =>
    cases hc : cond s with
    | false => exact ⟨.ok s, whileLoop_exit hc, hs, hc⟩
    | true =>
      have hstep := hbody s hs hc
      rw [whileLoop_enter hc, doWhile]
      cases hb : body s with
      | error e =>
        rw [hb] at hstep
        exact ⟨.error e, rfl, hstep⟩
      | ok s' =>
        rw [hb] at hstep
        exact ih hstep.1 (by have hlt := hstep.2; omega)

/-- The first turn comes before the test, so it has an obligation of its own. -/
theorem doWhile_rule
    (hbody : ∀ s, P s → cond s = true → Post (fun s' => P s' ∧ μ s' < μ s) E (body s))
    {s : σ} {turns : Nat} (hfirst : Post (fun s' => P s' ∧ μ s' < turns) E (body s)) :
    ∃ r, doWhile cond body turns s = some r ∧ Post (fun s' => P s' ∧ cond s' = false) E r := by
  rw [doWhile]
  cases hb : body s with
  | error e =>
    rw [hb] at hfirst
    exact ⟨.error e, rfl, hfirst⟩
  | ok s' =>
    rw [hb] at hfirst
    exact whileLoop_rule hbody hfirst.1 hfirst.2

/-- Test and body matter only where the invariant leads. -/
theorem whileLoop_congr {cond' : σ → Bool} {body' : σ → Except ε σ}
    (hbody : ∀ s, P s → cond s = true → Post P (fun _ => True) (body s))
    (hcond : ∀ s, P s → cond' s = cond s) (hsame : ∀ s, P s → body' s = body s)
    (turns : Nat) {s : σ} (hs : P s) :
    whileLoop cond' body' turns s = whileLoop cond body turns s := by
  induction turns generalizing s with
  | zero => rw [whileLoop, whileLoop, hcond s hs]
  | succ turns ih =>
    rw [whileLoop, whileLoop, hcond s hs, hsame s hs]
    cases hc : cond s with
    | false => rfl
    | true =>
      have hstep := hbody s hs hc
      cases hb : body s with
      | error e => rfl
      | ok s' =>
        rw [hb] at hstep
        exact ih hstep

end Rules

section Views
variable {ε σ τ : Type} {cond : σ → Bool} {body : σ → Except ε σ} {cond' : τ → Bool}
  {body' : τ → Except ε τ} (view : σ → τ)

theorem whileLoop_view (hcond : ∀ s, cond' (view s) = cond s)
    (hbody : ∀ s, body' (view s) = (body s).map view) (turns : Nat) (s : σ) :
    whileLoop cond' body' turns (view s) =
      (whileLoop cond body turns s).map (Except.map view) := by
  induction turns generalizing s with
  | zero =>
    rw [whileLoop, whileLoop, hcond]
    split <;> rfl
  | succ turns ih =>
    rw [whileLoop, whileLoop, hcond, hbody]
    cases body s with
    | error e => split <;> rfl
    | ok s' =>
      dsimp only [Except.map]
      rw [ih]
      split <;> rfl

theorem doWhile_view (hcond : ∀ s, cond' (view s) = cond s)
    (hbody : ∀ s, body' (view s) = (body s).map view) (turns : Nat) (s : σ) :
    doWhile cond' body' turns (view s) = (doWhile cond body turns s).map (Except.map view) := by
  rw [doWhile, doWhile, hbody]
  cases body s with
  | error e => rfl
  | ok s' => exact whileLoop_view view hcond hbody turns s'

end Views

section Related
variable {ε ε' σ τ : Type}

/-- Both return, related by `R`, or both throw, related by `E`. -/
def Related (R : σ → τ → Prop) (E : ε → ε' → Prop) : Except ε σ → Except ε' τ → Prop
  | .ok s, .ok t => R s t
  | .error e, .error e' => E e e'
  | _, _ => False

variable {R : σ → τ → Prop} {E : ε → ε' → Prop} {cond : σ → Bool} {body : σ → Except ε σ}
  {cond' : τ → Bool} {body' : τ → Except ε' τ}

theorem whileLoop_related (hcond : ∀ s t, R s t → cond s = cond' t)
    (hbody : ∀ s t, R s t → Related R E (body s) (body' t)) (turns : Nat) {s : σ} {t : τ}
    (h : R s t) :
    Option.Rel (Related R E) (whileLoop cond body turns s) (whileLoop cond' body' turns t) := by
  induction turns generalizing s t with
  | zero =>
    rw [whileLoop, whileLoop, hcond s t h]
    split
    · exact .none
    · exact .some h
  | succ turns ih =>
    rw [whileLoop, whileLoop, hcond s t h]
    have hstep := hbody s t h
    split
    · cases hb : body s with
      | error e =>
        rw [hb] at hstep
        cases hb' : body' t with
        | error e' =>
          rw [hb'] at hstep
          exact .some hstep
        | ok t' =>
          rw [hb'] at hstep
          exact hstep.elim
      | ok s' =>
        rw [hb] at hstep
        cases hb' : body' t with
        | error e' =>
          rw [hb'] at hstep
          exact hstep.elim
        | ok t' =>
          rw [hb'] at hstep
          exact ih hstep
    · exact .some h

theorem doWhile_related (hcond : ∀ s t, R s t → cond s = cond' t)
    (hbody : ∀ s t, R s t → Related R E (body s) (body' t)) (turns : Nat) {s : σ} {t : τ}
    (h : R s t) :
    Option.Rel (Related R E) (doWhile cond body turns s) (doWhile cond' body' turns t) := by
  have hstep := hbody s t h
  rw [doWhile, doWhile]
  cases hb : body s with
  | error e =>
    rw [hb] at hstep
    cases hb' : body' t with
    | error e' =>
      rw [hb'] at hstep
      exact .some hstep
    | ok t' =>
      rw [hb'] at hstep
      exact hstep.elim
  | ok s' =>
    rw [hb] at hstep
    cases hb' : body' t with
    | error e' =>
      rw [hb'] at hstep
      exact hstep.elim
    | ok t' =>
      rw [hb'] at hstep
      exact whileLoop_related hcond hbody turns hstep

end Related

end Hamster.Lib.Loops
