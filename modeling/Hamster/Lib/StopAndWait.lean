import Hamster.Lib.Handshake

/-!
# One message after the other

A sender that lets each message be confirmed before it sends the next, over two channels that
keep the order and lose nothing. Some messages need no confirmation, some are confirmed as
they come, and some are handed over in two rounds; whatever waits may be sent again at any
time. What was confirmed can still be under way, with its answers, when the next one is sent.
-/
namespace Hamster.Lib.StopAndWait

open Lib.Handshake (Only Then)

variable {α : Type}

/-! ## The exchange -/

inductive Quality
  | atMostOnce
  | atLeastOnce
  | exactlyOnce
  deriving DecidableEq

structure Post (α : Type) where
  quality : Quality
  message : α

inductive Forth (α : Type)
  | plain (m : α)
  | once (x : Nat) (m : α)
  | data (x : Nat) (m : α)
  | release (x : Nat)

inductive Back
  | acked (x : Nat)
  | stored (x : Nat)
  | done (x : Nat)

/-- What waits for an answer. -/
inductive Open (α : Type)
  | once (x : Nat) (m : α)
  | data (x : Nat) (m : α)
  | released (x : Nat) (m : α)

/-- What waits, the last number given out and the last one confirmed; what the receiver holds;
what is under way; and what was ever sent and handed over. -/
structure Line (α : Type) where
  waits : Option (Open α)
  last : Nat
  told : Nat
  held : Option (Nat × α)
  forth : List (Forth α)
  back : List Back
  sent : List (Post α)
  got : List (Post α)

inductive Step : Line α → Line α → Prop
  | plain {last told held forth back sent got} (m : α) :
      Step ⟨none, last, told, held, forth, back, sent, got⟩
        ⟨none, last, told, held, forth ++ [.plain m], back, sent ++ [⟨.atMostOnce, m⟩], got⟩
  | once {last told held forth back sent got} (x : Nat) (m : α) : x ≠ last → x ≠ 0 →
      Step ⟨none, last, told, held, forth, back, sent, got⟩
        ⟨some (.once x m), x, told, held, forth ++ [.once x m], back,
          sent ++ [⟨.atLeastOnce, m⟩], got⟩
  | data {last told held forth back sent got} (x : Nat) (m : α) : x ≠ last → x ≠ 0 →
      Step ⟨none, last, told, held, forth, back, sent, got⟩
        ⟨some (.data x m), x, told, held, forth ++ [.data x m], back,
          sent ++ [⟨.exactlyOnce, m⟩], got⟩
  | clear {last told held forth back sent got} :
      Step ⟨none, last, told, held, forth, back, sent, got⟩
        (⟨none, last, 0, held, forth, back, sent, got⟩ : Line α)
  | againOnce {x m last told held forth back sent got} :
      Step ⟨some (.once x m), last, told, held, forth, back, sent, got⟩
        ⟨some (.once x m), last, told, held, forth ++ [.once x m], back, sent, got⟩
  | againData {x m last told held forth back sent got} :
      Step ⟨some (.data x m), last, told, held, forth, back, sent, got⟩
        ⟨some (.data x m), last, told, held, forth ++ [.data x m], back, sent, got⟩
  | againRelease {x m last told held forth back sent got} :
      Step ⟨some (.released x m), last, told, held, forth, back, sent, got⟩
        ⟨some (.released x m), last, told, held, forth ++ [.release x], back, sent, got⟩
  | hearPlain {waits last told held m forth back sent got} :
      Step ⟨waits, last, told, held, .plain m :: forth, back, sent, got⟩
        ⟨waits, last, told, held, forth, back, sent, got ++ [⟨.atMostOnce, m⟩]⟩
  | hearOnce {waits last told held x m forth back sent got} :
      Step ⟨waits, last, told, held, .once x m :: forth, back, sent, got⟩
        ⟨waits, last, told, held, forth, back ++ [.acked x], sent, got ++ [⟨.atLeastOnce, m⟩]⟩
  | hearData {waits last told held x m forth back sent got} :
      Step ⟨waits, last, told, held, .data x m :: forth, back, sent, got⟩
        ⟨waits, last, told, some (x, m), forth, back ++ [.stored x], sent, got⟩
  | handOver {waits last told x m forth back sent got} :
      Step ⟨waits, last, told, some (x, m), .release x :: forth, back, sent, got⟩
        ⟨waits, last, told, none, forth, back ++ [.done x], sent, got ++ [⟨.exactlyOnce, m⟩]⟩
  | stray {waits last told held x forth back sent got} : (∀ m, held ≠ some (x, m)) →
      Step ⟨waits, last, told, held, .release x :: forth, back, sent, got⟩
        ⟨waits, last, told, held, forth, back, sent, got⟩
  | acked {x m last told held forth back sent got} :
      Step ⟨some (.once x m), last, told, held, forth, .acked x :: back, sent, got⟩
        ⟨none, last, x, held, forth, back, sent, got⟩
  | lateAcked {waits last told held x forth back sent got} : (∀ m, waits ≠ some (.once x m)) →
      Step ⟨waits, last, told, held, forth, .acked x :: back, sent, got⟩
        ⟨waits, last, x, held, forth, back, sent, got⟩
  | stored {x m last told held forth back sent got} :
      Step ⟨some (.data x m), last, told, held, forth, .stored x :: back, sent, got⟩
        ⟨some (.released x m), last, told, held, forth ++ [.release x], back, sent, got⟩
  | lateStored {waits last told held x forth back sent got} : (∀ m, waits ≠ some (.data x m)) →
      Step ⟨waits, last, told, held, forth, .stored x :: back, sent, got⟩
        ⟨waits, last, told, held, forth, back, sent, got⟩
  | done {x m last told held forth back sent got} :
      Step ⟨some (.released x m), last, told, held, forth, .done x :: back, sent, got⟩
        ⟨none, last, x, held, forth, back, sent, got⟩
  | lateDone {waits last told held x forth back sent got} : (∀ m, waits ≠ some (.released x m)) →
      Step ⟨waits, last, told, held, forth, .done x :: back, sent, got⟩
        ⟨waits, last, x, held, forth, back, sent, got⟩

/-! ## What the ends do -/

/-- What the receiver does with an item, if it is one: what it holds before and after, what it
writes, and what it hands over. -/
inductive Hears : Option (Forth α) → Option (Nat × α) → Option (Nat × α) → List Back →
    List (Post α) → Prop
  | other (held : Option (Nat × α)) : Hears none held held [] []
  | plain (m : α) (held : Option (Nat × α)) :
      Hears (some (.plain m)) held held [] [⟨.atMostOnce, m⟩]
  | once (x : Nat) (m : α) (held : Option (Nat × α)) :
      Hears (some (.once x m)) held held [.acked x] [⟨.atLeastOnce, m⟩]
  | data (x : Nat) (m : α) (held : Option (Nat × α)) :
      Hears (some (.data x m)) held (some (x, m)) [.stored x] []
  | handOver (x : Nat) (m : α) :
      Hears (some (.release x)) (some (x, m)) none [.done x] [⟨.exactlyOnce, m⟩]
  | stray (x : Nat) {held : Option (Nat × α)} : (∀ m, held ≠ some (x, m)) →
      Hears (some (.release x)) held held [] []

/-- What the sender does with an answer, if it is one: what waits before and after, the number
it is told of, and what it writes. -/
inductive Learns : Option Back → Option (Open α) → Option (Open α) → Option Nat →
    List (Forth α) → Prop
  | other (waits : Option (Open α)) : Learns none waits waits none []
  | acked (x : Nat) (m : α) : Learns (some (.acked x)) (some (.once x m)) none (some x) []
  | lateAcked (x : Nat) {waits : Option (Open α)} : (∀ m, waits ≠ some (.once x m)) →
      Learns (some (.acked x)) waits waits (some x) []
  | stored (x : Nat) (m : α) :
      Learns (some (.stored x)) (some (.data x m)) (some (.released x m)) none [.release x]
  | lateStored (x : Nat) {waits : Option (Open α)} : (∀ m, waits ≠ some (.data x m)) →
      Learns (some (.stored x)) waits waits none []
  | done (x : Nat) (m : α) : Learns (some (.done x)) (some (.released x m)) none (some x) []
  | lateDone (x : Nat) {waits : Option (Open α)} : (∀ m, waits ≠ some (.released x m)) →
      Learns (some (.done x)) waits waits (some x) []

/-- An answer opens nothing. -/
theorem Learns.idle {answer : Option Back} {waits' : Option (Open α)} {tell : Option Nat}
    {f : List (Forth α)} (h : Learns answer none waits' tell f) : waits' = none := by
  cases h with
  | other | lateAcked | lateStored | lateDone => rfl

/-- What the sender may write again. -/
inductive Repeats : Option (Open α) → List (Forth α) → Prop
  | nothing (waits : Option (Open α)) : Repeats waits []
  | once (x : Nat) (m : α) : Repeats (some (.once x m)) [.once x m]
  | data (x : Nat) (m : α) : Repeats (some (.data x m)) [.data x m]
  | release (x : Nat) (m : α) : Repeats (some (.released x m)) [.release x]

section Ends
variable {waits waits' : Option (Open α)} {last told : Nat} {held held' : Option (Nat × α)}
  {forth f : List (Forth α)} {back b : List Back} {sent got g : List (Post α)}

open Relation (ReflTransGen)

theorem Hears.steps {item : Option (Forth α)} (h : Hears item held held' b g) :
    ReflTransGen Step ⟨waits, last, told, held, item.toList ++ forth, back, sent, got⟩
      ⟨waits, last, told, held', forth, back ++ b, sent, got ++ g⟩ := by
  cases h with
  | other =>
    rw [List.append_nil, List.append_nil]
    exact .refl
  | plain m held =>
    rw [List.append_nil]
    exact .single .hearPlain
  | once x m held => exact .single .hearOnce
  | data x m held =>
    rw [List.append_nil]
    exact .single .hearData
  | handOver x m => exact .single .handOver
  | stray x h =>
    rw [List.append_nil, List.append_nil]
    exact .single (.stray h)

theorem Learns.steps {answer : Option Back} {tell : Option Nat}
    (h : Learns answer waits waits' tell f) :
    ReflTransGen Step ⟨waits, last, told, held, forth, answer.toList ++ back, sent, got⟩
      ⟨waits', last, tell.getD told, held, forth ++ f, back, sent, got⟩ := by
  cases h with
  | other =>
    rw [List.append_nil]
    exact .refl
  | acked x m =>
    rw [List.append_nil]
    exact .single .acked
  | lateAcked x h =>
    rw [List.append_nil]
    exact .single (.lateAcked h)
  | stored x m => exact .single .stored
  | lateStored x h =>
    rw [List.append_nil]
    exact .single (.lateStored h)
  | done x m =>
    rw [List.append_nil]
    exact .single .done
  | lateDone x h =>
    rw [List.append_nil]
    exact .single (.lateDone h)

theorem Repeats.steps (h : Repeats waits f) :
    ReflTransGen Step ⟨waits, last, told, held, forth, back, sent, got⟩
      ⟨waits, last, told, held, forth ++ f, back, sent, got⟩ := by
  cases h with
  | nothing => rw [List.append_nil]
  | once x m => exact .single .againOnce
  | data x m => exact .single .againData
  | release x m => exact .single .againRelease

end Ends

/-! ## What is handed over -/

/-- Everything in order, and again only what may come again, before the next. -/
inductive Echo : List (Post α) → List (Post α) → Prop
  | nil : Echo [] []
  | next {s g} (p : Post α) : Echo s g → Echo (s ++ [p]) (g ++ [p])
  | again {s g} (m : α) : Echo (s ++ [⟨.atLeastOnce, m⟩]) g →
      Echo (s ++ [⟨.atLeastOnce, m⟩]) (g ++ [⟨.atLeastOnce, m⟩])

def posts (ms : List α) : List (Post α) := ms.map fun m => ⟨.atMostOnce, m⟩

theorem posts_snoc (ms : List α) (m : α) : posts (ms ++ [m]) = posts ms ++ [⟨.atMostOnce, m⟩] :=
  List.map_append

/-- What is under way of the exchange before, which is confirmed. -/
def Stale (y : Nat) (sent : List (Post α)) (f : List (Forth α)) : Prop :=
  ∀ item ∈ f, item = .release y ∨ ∃ s m, sent = s ++ [⟨.atLeastOnce, m⟩] ∧ item = .once y m

/-- All that is under way is stale, or needs no answer. -/
def Early (y : Nat) (sent got : List (Post α)) (f : List (Forth α)) : Prop :=
  ∃ heard stale ms, sent = heard ++ posts ms ∧ Echo heard got ∧ f = stale ++ ms.map .plain ∧
    Stale y heard stale

section Early
variable {y : Nat} {s sent got : List (Post α)} {f : List (Forth α)} {item : Forth α} {m : α}

theorem Echo.early (h : Echo sent got) (hf : Stale y sent f) : Early y sent got f :=
  ⟨sent, f, [], by rw [posts, List.map_nil, List.append_nil], h, by rw [List.map_nil, List.append_nil], hf⟩

theorem stale_nil : Stale y sent [] := fun _ h => nomatch h

theorem stale_once (h : Only (.once y m) f) : Stale y (s ++ [⟨.atLeastOnce, m⟩]) f :=
  fun item hitem => .inr ⟨s, m, rfl, h item hitem⟩

theorem stale_release (h : Only (.release y) f) : Stale y sent f := fun item hitem => .inl (h item hitem)

theorem Early.plain (h : Early y sent got f) (m : α) :
    Early y (sent ++ [⟨.atMostOnce, m⟩]) got (f ++ [.plain m]) := by
  obtain ⟨heard, stale, ms, rfl, hecho, rfl, hstale⟩ := h
  refine ⟨heard, stale, ms ++ [m], ?_, hecho, ?_, hstale⟩
  · rw [posts_snoc, List.append_assoc]
  · rw [List.map_append, List.append_assoc]
    rfl

/-- Nothing is under way any more. -/
theorem Early.echo (h : Early y sent got []) : Echo sent got := by
  obtain ⟨heard, stale, ms, rfl, hecho, hf, -⟩ := h
  obtain ⟨-, hms⟩ := List.append_eq_nil_iff.mp hf.symm
  rw [List.map_eq_nil_iff.mp hms, posts, List.map_nil, List.append_nil]
  exact hecho

theorem Early.order (h : Early y sent got f) : ∃ s, s <+: sent ∧ Echo s got := by
  obtain ⟨heard, stale, ms, rfl, hecho, -, -⟩ := h
  exact ⟨heard, List.prefix_append _ _, hecho⟩

/-- What was confirmed was handed over. -/
theorem Early.settled {p : Post α} (h : Early y (s ++ [p]) got f) (hp : p.quality ≠ .atMostOnce) :
    Echo (s ++ [p]) got := by
  obtain ⟨heard, stale, ms, hsent, hecho, -⟩ := h
  rcases List.eq_nil_or_concat ms with rfl | ⟨ms, m, rfl⟩
  · rw [hsent, posts, List.map_nil, List.append_nil]
    exact hecho
  · rw [List.concat_eq_append, posts_snoc, ← List.append_assoc] at hsent
    have hlast := List.append_inj_right' hsent rfl
    cases hlast
    exact absurd rfl hp

theorem Early.hear (h : Early y sent got (item :: f)) :
    (∃ m, item = .plain m ∧ Early y sent (got ++ [⟨.atMostOnce, m⟩]) f) ∨
    (∃ m, item = .once y m ∧ Early y sent (got ++ [⟨.atLeastOnce, m⟩]) f) ∨
    item = .release y ∧ Early y sent got f := by
  obtain ⟨heard, stale, ms, rfl, hecho, hf, hstale⟩ := h
  cases stale with
  | nil =>
    cases ms with
    | nil => cases hf
    | cons m ms =>
      obtain ⟨rfl, rfl⟩ := List.cons.inj hf
      refine .inl ⟨m, rfl, heard ++ [⟨.atMostOnce, m⟩], [], ms, ?_, hecho.next _, rfl, stale_nil⟩
      rw [List.append_assoc]
      rfl
  | cons first stale =>
    obtain ⟨rfl, rfl⟩ := List.cons.inj hf
    have hrest : Stale y heard stale := fun item hitem => hstale item (List.mem_cons_of_mem _ hitem)
    rcases hstale item List.mem_cons_self with rfl | ⟨s, m, rfl, rfl⟩
    · exact .inr (.inr ⟨rfl, heard, stale, ms, rfl, hecho, rfl, hrest⟩)
    · exact .inr (.inl ⟨m, rfl, _, stale, ms, rfl, hecho.again m, rfl, hrest⟩)

end Early

/-- Something early, then a message for the first time. -/
def Before (y : Nat) (sent got : List (Post α)) (item : Forth α) (f : List (Forth α)) : Prop :=
  ∃ early fresh, f = early ++ fresh ∧ Early y sent got early ∧ Only item fresh ∧ fresh ≠ []

section Before
variable {y : Nat} {sent got : List (Post α)} {f : List (Forth α)} {item head : Forth α}

theorem Early.before (h : Early y sent got f) (item : Forth α) :
    Before y sent got item (f ++ [item]) :=
  ⟨f, [item], rfl, h, Only.nil.snoc, List.cons_ne_nil _ _⟩

theorem Before.snoc (h : Before y sent got item f) : Before y sent got item (f ++ [item]) := by
  obtain ⟨early, fresh, rfl, hearly, honly, -⟩ := h
  exact ⟨early, fresh ++ [item], by rw [List.append_assoc], hearly, honly.snoc, by simp⟩

theorem Before.ne_nil (h : Before y sent got item f) : f ≠ [] := by
  obtain ⟨early, fresh, rfl, -, -, hfresh⟩ := h
  simp [hfresh]

theorem Before.hear (h : Before y sent got item (head :: f)) :
    (∃ m, head = .plain m ∧ Before y sent (got ++ [⟨.atMostOnce, m⟩]) item f) ∨
    (∃ m, head = .once y m ∧ Before y sent (got ++ [⟨.atLeastOnce, m⟩]) item f) ∨
    (head = .release y ∧ Before y sent got item f) ∨
    head = item ∧ Only item f ∧ Echo sent got := by
  obtain ⟨early, fresh, hf, hearly, honly, hfresh⟩ := h
  cases early with
  | nil =>
    cases fresh with
    | nil => exact absurd rfl hfresh
    | cons first fresh =>
      obtain ⟨rfl, rfl⟩ := List.cons.inj hf
      exact .inr (.inr (.inr ⟨honly.tail.1, honly.tail.2, hearly.echo⟩))
  | cons first early =>
    obtain ⟨rfl, rfl⟩ := List.cons.inj hf
    rcases hearly.hear with ⟨m, rfl, hrest⟩ | ⟨m, rfl, hrest⟩ | ⟨rfl, hrest⟩
    · exact .inl ⟨m, rfl, early, fresh, rfl, hrest, honly, hfresh⟩
    · exact .inr (.inl ⟨m, rfl, early, fresh, rfl, hrest, honly, hfresh⟩)
    · exact .inr (.inr (.inl ⟨rfl, early, fresh, rfl, hrest, honly, hfresh⟩))

end Before

/-! ## How far it has got -/

/-- The sender's word for it is the last thing said. -/
def Finished (x : Nat) (back : List Back) : Prop := ∃ l, back = l ++ [.done x] ∧ Only (.stored x) l

theorem Finished.tail {x : Nat} {head : Back} {back : List Back} (h : Finished x (head :: back)) :
    head = .stored x ∧ Finished x back ∨ head = .done x ∧ back = [] := by
  obtain ⟨l, hl, honly⟩ := h
  cases l with
  | nil =>
    obtain ⟨rfl, rfl⟩ := List.cons.inj hl
    exact .inr ⟨rfl, rfl⟩
  | cons first l =>
    obtain ⟨rfl, rfl⟩ := List.cons.inj hl
    exact .inl ⟨honly.tail.1, l, rfl, honly.tail.2⟩

inductive Phase : Line α → Prop
  | idle {last told forth back sent got} : told = last ∨ told = 0 → Early last sent got forth →
      Only (.acked last) back → Phase ⟨none, last, told, none, forth, back, sent, got⟩
  | once {x m y told forth back s got} : y ≠ x → told ≠ x → Before y s got (.once x m) forth →
      Only (.acked y) back →
      Phase ⟨some (.once x m), x, told, none, forth, back, s ++ [⟨.atLeastOnce, m⟩], got⟩
  | heard {x m y told forth back s got} : y ≠ x → told ≠ x → Only (.once x m) forth →
      Then (.acked y) (.acked x) back → .acked x ∈ back → Echo (s ++ [⟨.atLeastOnce, m⟩]) got →
      Phase ⟨some (.once x m), x, told, none, forth, back, s ++ [⟨.atLeastOnce, m⟩], got⟩
  | data {x m y told forth back s got} : y ≠ x → told ≠ x → Before y s got (.data x m) forth →
      Only (.acked y) back →
      Phase ⟨some (.data x m), x, told, none, forth, back, s ++ [⟨.exactlyOnce, m⟩], got⟩
  | stored {x m y told forth back s got} : y ≠ x → told ≠ x → Only (.data x m) forth →
      Then (.acked y) (.stored x) back → .stored x ∈ back → Echo s got →
      Phase ⟨some (.data x m), x, told, some (x, m), forth, back, s ++ [⟨.exactlyOnce, m⟩], got⟩
  | released {x m told forth back s got} : told ≠ x → Then (.data x m) (.release x) forth →
      .release x ∈ forth → Only (.stored x) back → Echo s got →
      Phase ⟨some (.released x m), x, told, some (x, m), forth, back,
        s ++ [⟨.exactlyOnce, m⟩], got⟩
  | handed {x m told forth back s got} : told ≠ x → Only (.release x) forth → Finished x back →
      Echo (s ++ [⟨.exactlyOnce, m⟩]) got →
      Phase ⟨some (.released x m), x, told, none, forth, back, s ++ [⟨.exactlyOnce, m⟩], got⟩

section Steps
variable {l' : Line α} {x y last told : Nat} {m : α} {forth : List (Forth α)} {back : List Back}
  {s got sent : List (Post α)}

theorem idle_step (htold : told = last ∨ told = 0) (hearly : Early last sent got forth)
    (hback : Only (.acked last) back)
    (hs : Step ⟨none, last, told, none, forth, back, sent, got⟩ l') : Phase l' := by
  have hfresh {x : Nat} (hx : x ≠ last) (hzero : x ≠ 0) : told ≠ x := by
    rcases htold with rfl | rfl
    · exact Ne.symm hx
    · exact Ne.symm hzero
  cases hs with
  | plain m => exact .idle htold (hearly.plain m) hback
  | once x m hx hzero => exact .once (Ne.symm hx) (hfresh hx hzero) (hearly.before _) hback
  | data x m hx hzero => exact .data (Ne.symm hx) (hfresh hx hzero) (hearly.before _) hback
  | clear => exact .idle (.inr rfl) hearly hback
  | hearPlain =>
    rcases hearly.hear with ⟨m, hm, hrest⟩ | ⟨m, hm, -⟩ | ⟨hm, -⟩
    · cases hm
      exact .idle htold hrest hback
    · cases hm
    · cases hm
  | hearOnce =>
    rcases hearly.hear with ⟨m, hm, -⟩ | ⟨m, hm, hrest⟩ | ⟨hm, -⟩
    · cases hm
    · cases hm
      exact .idle htold hrest hback.snoc
    · cases hm
  | hearData =>
    rcases hearly.hear with ⟨m, hm, -⟩ | ⟨m, hm, -⟩ | ⟨hm, -⟩
    · cases hm
    · cases hm
    · cases hm
  | stray =>
    rcases hearly.hear with ⟨m, hm, -⟩ | ⟨m, hm, -⟩ | ⟨-, hrest⟩
    · cases hm
    · cases hm
    · exact .idle htold hrest hback
  | lateAcked =>
    obtain ⟨hx, hrest⟩ := hback.tail
    cases hx
    exact .idle (.inl rfl) hearly hrest
  | lateStored => exact nomatch hback.tail.1
  | lateDone => exact nomatch hback.tail.1

theorem once_step (hy : y ≠ x) (htold : told ≠ x) (hbefore : Before y s got (.once x m) forth)
    (hback : Only (.acked y) back)
    (hs : Step ⟨some (.once x m), x, told, none, forth, back, s ++ [⟨.atLeastOnce, m⟩], got⟩ l') :
    Phase l' := by
  cases hs with
  | againOnce => exact .once hy htold hbefore.snoc hback
  | hearPlain =>
    rcases hbefore.hear with ⟨m, hm, hrest⟩ | ⟨m, hm, -⟩ | ⟨hm, -⟩ | ⟨hm, -⟩
    · cases hm
      exact .once hy htold hrest hback
    · cases hm
    · cases hm
    · cases hm
  | hearOnce =>
    rcases hbefore.hear with ⟨m, hm, -⟩ | ⟨m, hm, hrest⟩ | ⟨hm, -⟩ | ⟨hm, hrest, hecho⟩
    · cases hm
    · cases hm
      exact .once hy htold hrest hback.snoc
    · cases hm
    · cases hm
      exact .heard hy htold hrest hback.before.snoc (by simp) (hecho.next _)
  | hearData =>
    rcases hbefore.hear with ⟨m, hm, -⟩ | ⟨m, hm, -⟩ | ⟨hm, -⟩ | ⟨hm, -⟩
    · cases hm
    · cases hm
    · cases hm
    · cases hm
  | stray =>
    rcases hbefore.hear with ⟨m, hm, -⟩ | ⟨m, hm, -⟩ | ⟨-, hrest⟩ | ⟨hm, -⟩
    · cases hm
    · cases hm
    · exact .once hy htold hrest hback
    · cases hm
  | acked => cases hback.tail.1; exact absurd rfl hy
  | lateAcked =>
    obtain ⟨hx, hrest⟩ := hback.tail
    cases hx
    exact .once hy hy hbefore hrest
  | lateStored => exact nomatch hback.tail.1
  | lateDone => exact nomatch hback.tail.1

theorem heard_step (hy : y ≠ x) (htold : told ≠ x) (hforth : Only (.once x m) forth)
    (hback : Then (.acked y) (.acked x) back) (hmem : .acked x ∈ back)
    (hecho : Echo (s ++ [⟨.atLeastOnce, m⟩]) got)
    (hs : Step ⟨some (.once x m), x, told, none, forth, back, s ++ [⟨.atLeastOnce, m⟩], got⟩ l') :
    Phase l' := by
  cases hs with
  | againOnce => exact .heard hy htold hforth.snoc hback hmem hecho
  | hearPlain => exact nomatch hforth.tail.1
  | hearOnce =>
    obtain ⟨hm, hrest⟩ := hforth.tail
    cases hm
    exact .heard hy htold hrest hback.snoc (List.mem_append_left _ hmem) (hecho.again m)
  | hearData => exact nomatch hforth.tail.1
  | stray => exact nomatch hforth.tail.1
  | acked =>
    rcases hback.tail with ⟨hx, -⟩ | ⟨-, hrest⟩
    · cases hx
      exact absurd rfl hy
    · exact .idle (.inl rfl) (hecho.early (stale_once hforth)) hrest
  | lateAcked h =>
    rcases hback.tail with ⟨hx, hrest⟩ | ⟨hx, -⟩
    · cases hx
      refine .heard hy hy hforth hrest ?_ hecho
      exact (List.mem_cons.mp hmem).resolve_left fun hxy => hy (Back.acked.inj hxy).symm
    · cases hx
      exact absurd rfl (h m)
  | lateStored =>
    rcases hback.tail with ⟨hx, -⟩ | ⟨hx, -⟩
    · cases hx
    · cases hx
  | lateDone =>
    rcases hback.tail with ⟨hx, -⟩ | ⟨hx, -⟩
    · cases hx
    · cases hx

theorem data_step (hy : y ≠ x) (htold : told ≠ x) (hbefore : Before y s got (.data x m) forth)
    (hback : Only (.acked y) back)
    (hs : Step ⟨some (.data x m), x, told, none, forth, back, s ++ [⟨.exactlyOnce, m⟩], got⟩ l') :
    Phase l' := by
  cases hs with
  | againData => exact .data hy htold hbefore.snoc hback
  | hearPlain =>
    rcases hbefore.hear with ⟨m, hm, hrest⟩ | ⟨m, hm, -⟩ | ⟨hm, -⟩ | ⟨hm, -⟩
    · cases hm
      exact .data hy htold hrest hback
    · cases hm
    · cases hm
    · cases hm
  | hearOnce =>
    rcases hbefore.hear with ⟨m, hm, -⟩ | ⟨m, hm, hrest⟩ | ⟨hm, -⟩ | ⟨hm, -⟩
    · cases hm
    · cases hm
      exact .data hy htold hrest hback.snoc
    · cases hm
    · cases hm
  | hearData =>
    rcases hbefore.hear with ⟨m, hm, -⟩ | ⟨m, hm, -⟩ | ⟨hm, -⟩ | ⟨hm, hrest, hecho⟩
    · cases hm
    · cases hm
    · cases hm
    · cases hm
      exact .stored hy htold hrest hback.before.snoc (by simp) hecho
  | stray =>
    rcases hbefore.hear with ⟨m, hm, -⟩ | ⟨m, hm, -⟩ | ⟨-, hrest⟩ | ⟨hm, -⟩
    · cases hm
    · cases hm
    · exact .data hy htold hrest hback
    · cases hm
  | lateAcked =>
    obtain ⟨hx, hrest⟩ := hback.tail
    cases hx
    exact .data hy hy hbefore hrest
  | stored => exact nomatch hback.tail.1
  | lateStored => exact nomatch hback.tail.1
  | lateDone => exact nomatch hback.tail.1

theorem stored_step (hy : y ≠ x) (htold : told ≠ x) (hforth : Only (.data x m) forth)
    (hback : Then (.acked y) (.stored x) back) (hmem : .stored x ∈ back) (hecho : Echo s got)
    (hs : Step ⟨some (.data x m), x, told, some (x, m), forth, back,
      s ++ [⟨.exactlyOnce, m⟩], got⟩ l') : Phase l' := by
  cases hs with
  | againData => exact .stored hy htold hforth.snoc hback hmem hecho
  | hearPlain => exact nomatch hforth.tail.1
  | hearOnce => exact nomatch hforth.tail.1
  | hearData =>
    obtain ⟨hm, hrest⟩ := hforth.tail
    cases hm
    exact .stored hy htold hrest hback.snoc (List.mem_append_left _ hmem) hecho
  | handOver => exact nomatch hforth.tail.1
  | stray => exact nomatch hforth.tail.1
  | lateAcked =>
    rcases hback.tail with ⟨hx, hrest⟩ | ⟨hx, -⟩
    · cases hx
      refine .stored hy hy hforth hrest ?_ hecho
      exact (List.mem_cons.mp hmem).resolve_left fun hxy => nomatch hxy
    · cases hx
  | stored =>
    rcases hback.tail with ⟨hx, -⟩ | ⟨-, hrest⟩
    · cases hx
    · exact .released htold hforth.before.snoc (by simp) hrest hecho
  | lateStored h =>
    rcases hback.tail with ⟨hx, -⟩ | ⟨hx, -⟩
    · cases hx
    · cases hx
      exact absurd rfl (h m)
  | lateDone =>
    rcases hback.tail with ⟨hx, -⟩ | ⟨hx, -⟩
    · cases hx
    · cases hx

theorem released_step (htold : told ≠ x) (hforth : Then (.data x m) (.release x) forth)
    (hmem : .release x ∈ forth) (hback : Only (.stored x) back) (hecho : Echo s got)
    (hs : Step ⟨some (.released x m), x, told, some (x, m), forth, back,
      s ++ [⟨.exactlyOnce, m⟩], got⟩ l') : Phase l' := by
  cases hs with
  | againRelease =>
    exact .released htold hforth.snoc (List.mem_append_left _ hmem) hback hecho
  | hearPlain =>
    rcases hforth.tail with ⟨hm, -⟩ | ⟨hm, -⟩
    · cases hm
    · cases hm
  | hearOnce =>
    rcases hforth.tail with ⟨hm, -⟩ | ⟨hm, -⟩
    · cases hm
    · cases hm
  | hearData =>
    rcases hforth.tail with ⟨hm, hrest⟩ | ⟨hm, -⟩
    · cases hm
      refine .released htold hrest ?_ hback.snoc hecho
      exact (List.mem_cons.mp hmem).resolve_left fun hm => nomatch hm
    · cases hm
  | handOver =>
    rcases hforth.tail with ⟨hm, -⟩ | ⟨-, hrest⟩
    · cases hm
    · exact .handed htold hrest ⟨back, rfl, hback⟩ (hecho.next _)
  | stray h =>
    rcases hforth.tail with ⟨hm, -⟩ | ⟨hm, -⟩
    · cases hm
    · cases hm
      exact absurd rfl (h m)
  | lateAcked => exact nomatch hback.tail.1
  | lateStored => exact .released htold hforth hmem hback.tail.2 hecho
  | done => exact nomatch hback.tail.1
  | lateDone => exact nomatch hback.tail.1

theorem handed_step (htold : told ≠ x) (hforth : Only (.release x) forth) (hback : Finished x back)
    (hecho : Echo (s ++ [⟨.exactlyOnce, m⟩]) got)
    (hs : Step ⟨some (.released x m), x, told, none, forth, back, s ++ [⟨.exactlyOnce, m⟩], got⟩ l') :
    Phase l' := by
  cases hs with
  | againRelease => exact .handed htold hforth.snoc hback hecho
  | hearPlain => exact nomatch hforth.tail.1
  | hearOnce => exact nomatch hforth.tail.1
  | hearData => exact nomatch hforth.tail.1
  | stray => exact .handed htold hforth.tail.2 hback hecho
  | lateAcked =>
    rcases hback.tail with ⟨hx, -⟩ | ⟨hx, -⟩
    · cases hx
    · cases hx
  | lateStored =>
    rcases hback.tail with ⟨-, hrest⟩ | ⟨hx, -⟩
    · exact .handed htold hforth hrest hecho
    · cases hx
  | done =>
    rcases hback.tail with ⟨hx, -⟩ | ⟨-, rfl⟩
    · cases hx
    · exact .idle (.inl rfl) (hecho.early (stale_release hforth)) Only.nil
  | lateDone h =>
    rcases hback.tail with ⟨hx, -⟩ | ⟨hx, -⟩
    · cases hx
    · cases hx
      exact absurd rfl (h m)

end Steps

section Phases
variable {l l' : Line α}

theorem Phase.step (h : Phase l) (hs : Step l l') : Phase l' := by
  cases h with
  | idle htold hearly hback => exact idle_step htold hearly hback hs
  | once hy htold hbefore hback => exact once_step hy htold hbefore hback hs
  | heard hy htold hforth hback hmem hecho => exact heard_step hy htold hforth hback hmem hecho hs
  | data hy htold hbefore hback => exact data_step hy htold hbefore hback hs
  | stored hy htold hforth hback hmem hecho =>
    exact stored_step hy htold hforth hback hmem hecho hs
  | released htold hforth hmem hback hecho => exact released_step htold hforth hmem hback hecho hs
  | handed htold hforth hback hecho => exact handed_step htold hforth hback hecho hs

theorem Phase.steps (h : Phase l) (hs : Relation.ReflTransGen Step l l') : Phase l' := by
  induction hs with
  | refl => exact h
  | tail _ hstep ih => exact ih.step hstep

/-- Who is told that the last number is confirmed waits for nothing. -/
theorem Phase.confirmed (h : Phase l) (htold : l.told = l.last) : l.waits = none := by
  cases h with
  | idle => rfl
  | once _ hne | heard _ hne | data _ hne | stored _ hne | released hne | handed hne =>
    exact absurd htold hne

/-- The answer that ends the wait, and any that comes later, is for the last number. -/
theorem Phase.learns (h : Phase l) {answer : Option Back} {rest : List Back}
    {waits' : Option (Open α)} {tell : Option Nat} {f : List (Forth α)}
    (hback : l.back = answer.toList ++ rest) (hlearns : Learns answer l.waits waits' tell f)
    (htold : l.waits = none → l.told = l.last) (hwaits : waits' = none) :
    tell.getD l.told = l.last := by
  have hlate {x : Nat} (hnone : l.waits = none) (hx : l.back = .acked x :: rest) : x = l.last := by
    cases h with
    | idle _ _ honly =>
      obtain rfl : _ = .acked x :: rest := hx
      exact Back.acked.inj honly.tail.1
    | once | heard | data | stored | released | handed => exact nomatch hnone
  cases h with
  | idle _ _ honly =>
    cases hlearns with
    | other => exact htold rfl
    | lateAcked => exact hlate rfl hback
    | lateStored => exact htold rfl
    | lateDone =>
      obtain rfl : _ = .done _ :: rest := hback
      exact nomatch honly.tail.1
  | once | heard =>
    cases hlearns with
    | acked => rfl
    | other | lateAcked | lateStored | lateDone => exact nomatch hwaits
  | data | stored =>
    cases hlearns with
    | stored | other | lateAcked | lateStored | lateDone => exact nomatch hwaits
  | released | handed =>
    cases hlearns with
    | done => rfl
    | other | lateAcked | lateStored | lateDone => exact nomatch hwaits

/-- Between two messages all that waited for an answer was handed over. -/
theorem Phase.settled (h : Phase l) {s : List (Post α)} {p : Post α} (hwaits : l.waits = none)
    (hsent : l.sent = s ++ [p]) (hp : p.quality ≠ .atMostOnce) : Echo l.sent l.got := by
  cases h with
  | idle _ hearly _ =>
    obtain rfl : _ = s ++ [p] := hsent
    exact hearly.settled hp
  | once | heard | data | stored | released | handed => exact nomatch hwaits

/-- At any time what was handed over is the first part of what was sent. -/
theorem Phase.order (h : Phase l) : ∃ s, s <+: l.sent ∧ Echo s l.got := by
  cases h with
  | idle _ hearly _ => exact hearly.order
  | once _ _ hbefore _ | data _ _ hbefore _ =>
    obtain ⟨early, fresh, -, hearly, -, -⟩ := hbefore
    obtain ⟨s, hs, hecho⟩ := hearly.order
    exact ⟨s, hs.trans (List.prefix_append _ _), hecho⟩
  | heard _ _ _ _ _ hecho | handed _ _ _ hecho => exact ⟨_, List.prefix_rfl, hecho⟩
  | stored _ _ _ _ _ hecho | released _ _ _ _ hecho => exact ⟨_, List.prefix_append _ _, hecho⟩

/-- What is stored is what is stored already, if anything is. -/
theorem Phase.holds (h : Phase l) {x y : Nat} {m m' : α} {f : List (Forth α)}
    (hforth : l.forth = .data x m :: f) (hheld : l.held = some (y, m')) : y = x := by
  cases h with
  | idle | once | heard | data | handed => exact nomatch hheld
  | stored _ _ honly _ _ _ =>
    cases hheld
    obtain rfl : _ = .data x m :: f := hforth
    exact (Forth.data.inj honly.tail.1).1.symm
  | released _ hthen _ _ _ =>
    cases hheld
    obtain rfl : _ = .data x m :: f := hforth
    rcases hthen.tail with ⟨hhead, -⟩ | ⟨hhead, -⟩
    · exact (Forth.data.inj hhead).1.symm
    · cases hhead

/-- What waits has something under way. -/
theorem Phase.busy (h : Phase l) (hwaits : l.waits ≠ none) : l.forth ≠ [] ∨ l.back ≠ [] := by
  cases h with
  | idle => exact absurd rfl hwaits
  | once _ _ hbefore _ | data _ _ hbefore _ => exact .inl hbefore.ne_nil
  | heard _ _ _ _ hmem _ | stored _ _ _ _ hmem _ => exact .inr (List.ne_nil_of_mem hmem)
  | released _ _ hmem _ _ => exact .inl (List.ne_nil_of_mem hmem)
  | handed _ _ hback _ =>
    obtain ⟨l, rfl, -⟩ := hback
    exact .inr (by simp)

end Phases

end Hamster.Lib.StopAndWait
