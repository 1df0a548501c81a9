import Mathlib.Data.List.Basic
import Mathlib.Logic.Relation
import Mathlib.Tactic.Common

/-!
# Handing over exactly once

One message at a time goes from a sender to a receiver over two channels that keep the
order and may lose anything. The message is sent, and sent again, until the receiver says
it has stored it; then its release is sent, and sent again, until the receiver says it is
done. At the first release the receiver hands the message over.
-/
namespace Hamster.Lib.Handshake

section Order
variable {ε : Type} {a b x : ε} {l l' : List ε}

/-- Nothing but `a`. -/
def Only (a : ε) (l : List ε) : Prop := ∀ x ∈ l, x = a

/-- Some `a`, then some `b`. -/
def Then (a b : ε) (l : List ε) : Prop := ∃ l₁ l₂, l = l₁ ++ l₂ ∧ Only a l₁ ∧ Only b l₂

theorem Only.nil : Only a [] := fun _ h => nomatch h

theorem Only.snoc (h : Only a l) : Only a (l ++ [a]) := by
  intro x hx
  rcases List.mem_append.mp hx with hx | hx
  · exact h x hx
  · exact List.mem_singleton.mp hx

theorem Only.sublist (h : Only a l) (hl : l'.Sublist l) : Only a l' := fun x hx => h x (hl.subset hx)

theorem Only.tail (h : Only a (x :: l)) : x = a ∧ Only a l := List.forall_mem_cons.mp h

theorem Only.before (h : Only a l) : Then a b l := ⟨l, [], by rw [List.append_nil], h, .nil⟩

theorem Then.snoc (h : Then a b l) : Then a b (l ++ [b]) := by
  obtain ⟨l₁, l₂, rfl, h₁, h₂⟩ := h
  exact ⟨l₁, l₂ ++ [b], by rw [List.append_assoc], h₁, h₂.snoc⟩

theorem Then.sublist (h : Then a b l) (hl : l'.Sublist l) : Then a b l' := by
  obtain ⟨l₁, l₂, rfl, h₁, h₂⟩ := h
  obtain ⟨l₁', l₂', rfl, hl₁, hl₂⟩ := List.sublist_append_iff.mp hl
  exact ⟨l₁', l₂', rfl, h₁.sublist hl₁, h₂.sublist hl₂⟩

/-- Behind the first `b` there is no `a`. -/
theorem Then.tail (h : Then a b (x :: l)) : x = a ∧ Then a b l ∨ x = b ∧ Only b l := by
  obtain ⟨l₁, l₂, hl, h₁, h₂⟩ := h
  cases l₁ with
  | nil =>
    obtain rfl : x :: l = l₂ := hl
    exact .inr h₂.tail
  | cons y l₁ =>
    obtain ⟨rfl, rfl⟩ := List.cons.inj hl
    exact .inl ⟨h₁.tail.1, l₁, l₂, rfl, h₁.tail.2, h₂⟩

end Order

variable {α : Type}

inductive Forth (α : Type)
  | data (m : α)
  | release
  deriving DecidableEq

inductive Back
  | stored
  | done
  deriving DecidableEq

/-- What is offered, and whether it has been released; what the receiver holds; what is under
way; and what was ever offered and handed over. -/
structure Slot (α : Type) where
  offered : Option (α × Bool)
  held : Option α
  forth : List (Forth α)
  back : List Back
  sent : List α
  got : List α

/-- A release that finds nothing is not answered. -/
inductive Step : Slot α → Slot α → Prop
  | offer {held forth back sent got} (m : α) :
      Step ⟨none, held, forth, back, sent, got⟩
        ⟨some (m, false), held, forth ++ [.data m], back, sent ++ [m], got⟩
  | repeatData {m held forth back sent got} :
      Step ⟨some (m, false), held, forth, back, sent, got⟩
        ⟨some (m, false), held, forth ++ [.data m], back, sent, got⟩
  | repeatRelease {m held forth back sent got} :
      Step ⟨some (m, true), held, forth, back, sent, got⟩
        ⟨some (m, true), held, forth ++ [.release], back, sent, got⟩
  | lose {offered held forth back sent got forth' back'} : forth'.Sublist forth → back'.Sublist back →
      Step ⟨offered, held, forth, back, sent, got⟩ ⟨offered, held, forth', back', sent, got⟩
  | store {offered held m forth back sent got} :
      Step ⟨offered, held, .data m :: forth, back, sent, got⟩
        ⟨offered, some m, forth, back ++ [.stored], sent, got⟩
  | handOver {offered m forth back sent got} :
      Step ⟨offered, some m, .release :: forth, back, sent, got⟩
        ⟨offered, none, forth, back ++ [.done], sent, got ++ [m]⟩
  | stray {offered forth back sent got} :
      Step ⟨offered, none, .release :: forth, back, sent, got⟩
        ⟨offered, none, forth, back, sent, got⟩
  | release {m held forth back sent got} :
      Step ⟨some (m, false), held, forth, .stored :: back, sent, got⟩
        ⟨some (m, true), held, forth ++ [.release], back, sent, got⟩
  | finish {m held forth back sent got} :
      Step ⟨some (m, true), held, forth, .done :: back, sent, got⟩
        ⟨none, held, forth, back, sent, got⟩
  | lateStored {offered held forth back sent got} : (∀ m, offered ≠ some (m, false)) →
      Step ⟨offered, held, forth, .stored :: back, sent, got⟩
        ⟨offered, held, forth, back, sent, got⟩
  | lateDone {offered held forth back sent got} : (∀ m, offered ≠ some (m, true)) →
      Step ⟨offered, held, forth, .done :: back, sent, got⟩
        ⟨offered, held, forth, back, sent, got⟩

/-- What the receiver does with an item, if it is one: what it holds before and after, what it
writes, and what it hands over. A write may fail. -/
inductive Hears : Option (Forth α) → Option α → Option α → List Back → List α → Prop
  | other (held : Option α) : Hears none held held [] []
  | data (m : α) (held : Option α) {b : List Back} : b.Sublist [.stored] →
      Hears (some (.data m)) held (some m) b []
  | release (m : α) {b : List Back} : b.Sublist [.done] → Hears (some .release) (some m) none b [m]
  | stray : Hears (some .release) none none [] []

/-- What the sender does with an answer, if it is one. -/
inductive Learns : Option Back → Option (α × Bool) → Option (α × Bool) → List (Forth α) → Prop
  | other (offered : Option (α × Bool)) : Learns none offered offered []
  | stored (m : α) {f : List (Forth α)} : f.Sublist [.release] →
      Learns (some .stored) (some (m, false)) (some (m, true)) f
  | done (m : α) : Learns (some .done) (some (m, true)) none []
  | lateStored {offered : Option (α × Bool)} : (∀ m, offered ≠ some (m, false)) →
      Learns (some .stored) offered offered []
  | lateDone {offered : Option (α × Bool)} : (∀ m, offered ≠ some (m, true)) →
      Learns (some .done) offered offered []

/-- What a new message does, if there is one; whether or not it can be written. -/
inductive Offers : Option α → Option (α × Bool) → Option (α × Bool) → List (Forth α) → Prop
  | nothing (offered : Option (α × Bool)) : Offers none offered offered []
  | message (m : α) {f : List (Forth α)} : f.Sublist [.data m] →
      Offers (some m) none (some (m, false)) f

/-- What the sender may write again. -/
inductive Repeats : Option (α × Bool) → List (Forth α) → Prop
  | nothing (offered : Option (α × Bool)) : Repeats offered []
  | data (m : α) {f : List (Forth α)} : f.Sublist [.data m] → Repeats (some (m, false)) f
  | release (m : α) {f : List (Forth α)} : f.Sublist [.release] → Repeats (some (m, true)) f

section Ends
variable {offered : Option (α × Bool)} {held : Option α} {forth : List (Forth α)}
  {back : List Back} {sent got : List α}

open Relation (ReflTransGen)

theorem lose_forth {f f' : List (Forth α)} (h : f'.Sublist f) :
    Step ⟨offered, held, forth ++ f, back, sent, got⟩
      ⟨offered, held, forth ++ f', back, sent, got⟩ :=
  .lose ((List.Sublist.refl forth).append h) (List.Sublist.refl back)

theorem lose_back {b b' : List Back} (h : b'.Sublist b) :
    Step ⟨offered, held, forth, back ++ b, sent, got⟩
      ⟨offered, held, forth, back ++ b', sent, got⟩ :=
  .lose (List.Sublist.refl forth) ((List.Sublist.refl back).append h)

theorem Hears.steps {item : Option (Forth α)} {held' : Option α} {b : List Back} {g : List α}
    (h : Hears item held held' b g) :
    ReflTransGen Step ⟨offered, held, item.toList ++ forth, back, sent, got⟩
      ⟨offered, held', forth, back ++ b, sent, got ++ g⟩ := by
  cases h with
  | other =>
    rw [List.append_nil, List.append_nil]
    exact .refl
  | data m held hb =>
    rw [List.append_nil]
    exact .tail (.single .store) (lose_back hb)
  | release m hb => exact .tail (.single .handOver) (lose_back hb)
  | stray =>
    rw [List.append_nil, List.append_nil]
    exact .single .stray

theorem Learns.steps {answer : Option Back} {offered' : Option (α × Bool)} {f : List (Forth α)}
    (h : Learns answer offered offered' f) :
    ReflTransGen Step ⟨offered, held, forth, answer.toList ++ back, sent, got⟩
      ⟨offered', held, forth ++ f, back, sent, got⟩ := by
  cases h with
  | other =>
    rw [List.append_nil]
    exact .refl
  | stored m hf => exact .tail (.single .release) (lose_forth hf)
  | done m =>
    rw [List.append_nil]
    exact .single .finish
  | lateStored hlate =>
    rw [List.append_nil]
    exact .single (.lateStored hlate)
  | lateDone hlate =>
    rw [List.append_nil]
    exact .single (.lateDone hlate)

theorem Repeats.steps {f : List (Forth α)} (h : Repeats offered f) :
    ReflTransGen Step ⟨offered, held, forth, back, sent, got⟩
      ⟨offered, held, forth ++ f, back, sent, got⟩ := by
  cases h with
  | nothing => rw [List.append_nil]
  | data m hf => exact .tail (.single .repeatData) (lose_forth hf)
  | release m hf => exact .tail (.single .repeatRelease) (lose_forth hf)

theorem Offers.steps {item : Option α} {offered' : Option (α × Bool)} {f : List (Forth α)}
    (h : Offers item offered offered' f) :
    ReflTransGen Step ⟨offered, held, forth, back, sent, got⟩
      ⟨offered', held, forth ++ f, back, sent ++ item.toList, got⟩ := by
  cases h with
  | nothing =>
    rw [List.append_nil, Option.toList_none, List.append_nil]
  | message m hf => exact .tail (.single (.offer m)) (lose_forth hf)

end Ends

/-- Some `stored`, then at most one `done`. -/
def Answered (back : List Back) : Prop :=
  ∃ l d, back = l ++ d ∧ Only .stored l ∧ d.Sublist [.done]

section Answers
variable {back back' : List Back} {x : Back}

theorem Only.answered (h : Only .stored back) : Answered (back ++ [.done]) :=
  ⟨back, [.done], rfl, h, List.Sublist.refl _⟩

theorem Answered.sublist (h : Answered back) (hl : back'.Sublist back) : Answered back' := by
  obtain ⟨l, d, rfl, hl', hd⟩ := h
  obtain ⟨l', d', rfl, hsub, hsub'⟩ := List.sublist_append_iff.mp hl
  exact ⟨l', d', rfl, hl'.sublist hsub, hsub'.trans hd⟩

/-- Behind `done` there is nothing. -/
theorem Answered.tail (h : Answered (x :: back)) :
    x = .stored ∧ Answered back ∨ x = .done ∧ back = [] := by
  obtain ⟨l, d, hl, hstored, hd⟩ := h
  cases l with
  | nil =>
    obtain rfl : x :: back = d := hl
    cases hd with
    | cons _ hd => exact nomatch hd
    | cons_cons _ hd => exact .inr ⟨rfl, List.sublist_nil.mp hd⟩
  | cons y l =>
    obtain ⟨rfl, rfl⟩ := List.cons.inj hl
    exact .inl ⟨hstored.tail.1, l, d, rfl, hstored.tail.2, hd⟩

end Answers

/-- Nothing is said of a message before it is stored, and nothing is left to say of one that is
done with. -/
inductive Phase : Slot α → Prop
  | idle {forth got} : Only .release forth → Phase ⟨none, none, forth, [], got, got⟩
  | fresh {m forth got} : Then .release (.data m) forth →
      Phase ⟨some (m, false), none, forth, [], got ++ [m], got⟩
  | stored {m forth back got} : Only (.data m) forth → Only .stored back →
      Phase ⟨some (m, false), some m, forth, back, got ++ [m], got⟩
  | released {m forth back got} : Then (.data m) .release forth → Only .stored back →
      Phase ⟨some (m, true), some m, forth, back, got ++ [m], got⟩
  | handed {m forth back got} : Only .release forth → Answered back →
      Phase ⟨some (m, true), none, forth, back, got ++ [m], got ++ [m]⟩

theorem phase_empty : Phase (⟨none, none, [], [], [], []⟩ : Slot α) := .idle .nil

variable {s t : Slot α}

theorem Phase.step (h : Phase s) (hs : Step s t) : Phase t := by
  cases h with
  | idle hforth =>
    cases hs with
    | offer m => exact .fresh hforth.before.snoc
    | lose hf hb =>
      rw [List.sublist_nil.mp hb]
      exact .idle (hforth.sublist hf)
    | store => exact nomatch hforth.tail.1
    | stray => exact .idle hforth.tail.2
  | fresh hforth =>
    cases hs with
    | repeatData => exact .fresh hforth.snoc
    | lose hf hb =>
      rw [List.sublist_nil.mp hb]
      exact .fresh (hforth.sublist hf)
    | store =>
      rcases hforth.tail with ⟨hx, -⟩ | ⟨hx, hrest⟩
      · exact nomatch hx
      · cases hx
        exact .stored hrest Only.nil.snoc
    | stray =>
      rcases hforth.tail with ⟨-, hrest⟩ | ⟨hx, -⟩
      · exact .fresh hrest
      · exact nomatch hx
  | stored hforth hback =>
    cases hs with
    | repeatData => exact .stored hforth.snoc hback
    | lose hf hb => exact .stored (hforth.sublist hf) (hback.sublist hb)
    | store =>
      obtain ⟨hx, hrest⟩ := hforth.tail
      cases hx
      exact .stored hrest hback.snoc
    | handOver => exact nomatch hforth.tail.1
    | release => exact .released hforth.before.snoc hback.tail.2
    | lateStored h => exact absurd rfl (h _)
    | lateDone => exact nomatch hback.tail.1
  | released hforth hback =>
    cases hs with
    | repeatRelease => exact .released hforth.snoc hback
    | lose hf hb => exact .released (hforth.sublist hf) (hback.sublist hb)
    | store =>
      rcases hforth.tail with ⟨hx, hrest⟩ | ⟨hx, -⟩
      · cases hx
        exact .released hrest hback.snoc
      · exact nomatch hx
    | handOver =>
      rcases hforth.tail with ⟨hx, -⟩ | ⟨-, hrest⟩
      · exact nomatch hx
      · exact .handed hrest hback.answered
    | finish => exact nomatch hback.tail.1
    | lateStored => exact .released hforth hback.tail.2
    | lateDone => exact nomatch hback.tail.1
  | handed hforth hback =>
    cases hs with
    | repeatRelease => exact .handed hforth.snoc hback
    | lose hf hb => exact .handed (hforth.sublist hf) (hback.sublist hb)
    | store => exact nomatch hforth.tail.1
    | stray => exact .handed hforth.tail.2 hback
    | finish =>
      rcases hback.tail with ⟨hx, -⟩ | ⟨-, rfl⟩
      · exact nomatch hx
      · exact .idle hforth
    | lateStored =>
      rcases hback.tail with ⟨-, hrest⟩ | ⟨hx, -⟩
      · exact .handed hforth hrest
      · exact nomatch hx
    | lateDone h => exact absurd rfl (h _)

theorem Phase.steps (h : Phase s) (hs : Relation.ReflTransGen Step s t) : Phase t := by
  induction hs with
  | refl => exact h
  | tail _ hstep ih => exact ih.step hstep

/-- Everything that was offered has been handed over in order, but for the last, which may still
be on offer. -/
theorem Phase.accounts (h : Phase s) :
    s.sent = s.got ∨ ∃ m released, s.offered = some (m, released) ∧ s.sent = s.got ++ [m] := by
  cases h with
  | idle | handed => exact .inl rfl
  | fresh | stored | released => exact .inr ⟨_, _, rfl, rfl⟩

/-- Who hears that it is done has a message that was handed over. -/
theorem Phase.done (h : Phase s) (hback : .done ∈ s.back) :
    (∃ m ∈ s.got, s.offered = some (m, true)) ∧ s.sent = s.got := by
  cases h with
  | idle | fresh => exact nomatch hback
  | stored _ hstored | released _ hstored => exact nomatch hstored _ hback
  | @handed m _ _ got => exact ⟨⟨m, List.mem_append_right got (List.mem_singleton.mpr rfl), rfl⟩, rfl⟩

/-- The message was handed over, and nobody will say so. -/
structure Stuck (m : α) (s : Slot α) : Prop where
  offered : s.offered = some (m, true)
  held : s.held = none
  forth : Only .release s.forth
  back : Only .stored s.back

theorem only_stored {back : List Back} (hback : .done ∉ back) : Only .stored back := by
  intro x hx
  cases x with
  | stored => rfl
  | done => exact absurd hx hback

/-- The receiver is done, and its word is not under way. -/
theorem Phase.stuck {m : α} (h : Phase s) (hoffered : s.offered = some (m, true))
    (hheld : s.held = none) (hback : .done ∉ s.back) : Stuck m s ∧ m ∈ s.got := by
  cases h with
  | idle | fresh | stored => exact nomatch hoffered
  | released => exact nomatch hheld
  | @handed _ _ _ got hforth =>
    cases hoffered
    exact ⟨⟨rfl, rfl, hforth, only_stored hback⟩,
      List.mem_append_right got (List.mem_singleton.mpr rfl)⟩

theorem Stuck.step {m : α} (h : Stuck m s) (hs : Step s t) : Stuck m t := by
  obtain ⟨hoffered, hheld, hforth, hback⟩ := h
  cases hs with
  | offer | repeatData | release => exact nomatch hoffered
  | repeatRelease => exact ⟨hoffered, hheld, hforth.snoc, hback⟩
  | lose hf hb => exact ⟨hoffered, hheld, hforth.sublist hf, hback.sublist hb⟩
  | store => exact nomatch hforth.tail.1
  | handOver => exact nomatch hheld
  | stray => exact ⟨hoffered, rfl, hforth.tail.2, hback⟩
  | finish | lateDone => exact nomatch hback.tail.1
  | lateStored => exact ⟨hoffered, hheld, hforth, hback.tail.2⟩

theorem Stuck.steps {m : α} (h : Stuck m s) (hs : Relation.ReflTransGen Step s t) : Stuck m t := by
  induction hs with
  | refl => exact h
  | tail _ hstep ih => exact ih.step hstep

end Hamster.Lib.Handshake
