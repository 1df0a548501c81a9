import Hamster.Classifier.Train

/-!
# The vocabulary that is built

What the dictionary of a token holds at every point of the loop over the keys, and when
the loop comes to its end.
-/
namespace Hamster.Classifier.Vocabulary

open Lib.Contingency Lib.Dictionary Chi Train

section Score
variable {spamMails hamMails : List Mail} {token : Token}

/-- The chi-squared value of a token. -/
def chiOf (spamMails hamMails : List Mail) (token : Token) : Except Raised ℚ :=
  let h := occurences hamMails token
  let s := occurences spamMails token
  calculateChi h s (hamMails.length - h) (spamMails.length - s)

def pHamOf (hamMails : List Mail) (token : Token) : ℚ :=
  occurences hamMails token / hamMails.length

def pSpamOf (spamMails : List Mail) (token : Token) : ℚ :=
  occurences spamMails token / spamMails.length

section Entries
variable (spamMails hamMails : List Mail) (token : Token)

def countedEntry : Entry := counted (occurences hamMails token) (occurences spamMails token)

def rate (e : Entry) : Entry :=
  { e with pHam := some (pHamOf hamMails token), pSpam := some (pSpamOf spamMails token) }

def score (chi : ℚ) (e : Entry) : Entry := { rate spamMails hamMails token e with chi := some chi }

def ratedEntry : Entry := rate spamMails hamMails token (countedEntry spamMails hamMails token)

def scoredEntry (chi : ℚ) : Entry :=
  score spamMails hamMails token chi (countedEntry spamMails hamMails token)

/-- What the dictionary of a token can be. -/
inductive State : Entry → Prop
  | counted : State (countedEntry spamMails hamMails token)
  | rated : State (ratedEntry spamMails hamMails token)
  | scored {chi : ℚ} (h : chiOf spamMails hamMails token = .ok chi) :
      State (scoredEntry spamMails hamMails token chi)

end Entries

theorem State.counts {e : Entry} (h : State spamMails hamMails token e) :
    e.ham = occurences hamMails token ∧ e.spam = occurences spamMails token ∧
      e.total = some (occurences hamMails token + occurences spamMails token) := by
  have hham := ham_counted (occurences hamMails token) (occurences spamMails token)
  have hspam := spam_counted (occurences hamMails token) (occurences spamMails token)
  cases h with
  | counted => exact ⟨hham, hspam, rfl⟩
  | rated => exact ⟨hham, hspam, rfl⟩
  | scored => exact ⟨hham, hspam, rfl⟩

theorem State.values {e : Entry} (h : State spamMails hamMails token e) :
    (∀ p, e.pHam = some p → p = pHamOf hamMails token) ∧
      (∀ p, e.pSpam = some p → p = pSpamOf spamMails token) ∧
      ∀ c, e.chi = some c → chiOf spamMails hamMails token = .ok c := by
  cases h with
  | counted =>
    refine ⟨fun p hp => ?_, fun p hp => ?_, fun c hc => ?_⟩
    · cases hp
    · cases hp
    · cases hc
  | rated =>
    refine ⟨fun p hp => (Option.some.inj hp).symm, fun p hp => (Option.some.inj hp).symm,
      fun c hc => ?_⟩
    cases hc
  | scored h =>
    exact ⟨fun p hp => (Option.some.inj hp).symm, fun p hp => (Option.some.inj hp).symm,
      fun c hc => Option.some.inj hc ▸ h⟩

theorem div_ok (x : ℚ) {mails : List Mail} (h : mails ≠ []) :
    div x mails.length = .ok (x / mails.length) := by
  have hne : (mails.length : ℚ) ≠ 0 := Nat.cast_ne_zero.mpr (mt List.length_eq_zero_iff.mp h)
  exact if_neg hne

variable {vocabulary : Vocabulary}

/-- A round that finds a chi-squared value makes the last state of the token. -/
theorem scoreToken_ok (hham : hamMails ≠ []) (hspam : spamMails ≠ [])
    (he : vocabulary.get? token = some (countedEntry spamMails hamMails token)) {chi : ℚ}
    (hchi : chiOf spamMails hamMails token = .ok chi) :
    scoreToken spamMails hamMails vocabulary token =
      (vocabulary.update {} (score spamMails hamMails token chi) token, none) := by
  rw [chiOf] at hchi
  rw [scoreToken, he]
  simp only [Option.getD_some, countedEntry, ham_counted, spam_counted, div_ok _ hham,
    div_ok _ hspam, hchi, Dict.update_update]
  rfl

/-- Any other round leaves the probabilities, and ends the loop. -/
theorem scoreToken_error (hham : hamMails ≠ []) (hspam : spamMails ≠ [])
    (he : vocabulary.get? token = some (countedEntry spamMails hamMails token)) {raised : Raised}
    (hchi : chiOf spamMails hamMails token = .error raised) :
    scoreToken spamMails hamMails vocabulary token =
      (vocabulary.update {} (rate spamMails hamMails token) token, some raised) := by
  rw [chiOf] at hchi
  rw [scoreToken, he]
  simp only [Option.getD_some, countedEntry, ham_counted, spam_counted, div_ok _ hham,
    div_ok _ hspam, hchi, Dict.update_update]
  rfl

/-- A vocabulary between two rounds, when these tokens are left. -/
structure Between (spamMails hamMails : List Mail) (tokens : List Token) (vocabulary : Vocabulary) :
    Prop where
  left : ∀ t ∈ tokens, vocabulary.get? t = some (countedEntry spamMails hamMails t)
  states : ∀ t e, vocabulary.get? t = some e → State spamMails hamMails t e

/-- What the loop over the tokens makes of a vocabulary. -/
structure Scored (spamMails hamMails : List Mail) (tokens : List Token) (before : Vocabulary)
    (result : Vocabulary × Option Raised) : Prop where
  keys : result.1.keys = before.keys
  states : ∀ t e, result.1.get? t = some e → State spamMails hamMails t e
  other : ∀ t ∉ tokens, result.1.get? t = before.get? t
  raised : result.2 = none ↔ ∀ t ∈ tokens, ∃ chi, chiOf spamMails hamMails t = .ok chi
  scored : result.2 = none → ∀ t ∈ tokens, ∃ chi, chiOf spamMails hamMails t = .ok chi ∧
    result.1.get? t = some (scoredEntry spamMails hamMails t chi)

theorem keys_update (he : vocabulary.get? token = some (countedEntry spamMails hamMails token))
    (f : Entry → Entry) : (vocabulary.update {} f token).keys = vocabulary.keys :=
  Dict.keys_update_of_mem (Dict.mem_keys_iff.mpr ⟨_, he⟩)

theorem states_update (hv : ∀ t e, vocabulary.get? t = some e → State spamMails hamMails t e)
    (he : vocabulary.get? token = some (countedEntry spamMails hamMails token)) {f : Entry → Entry}
    (hf : State spamMails hamMails token (f (countedEntry spamMails hamMails token))) :
    ∀ t e, (vocabulary.update {} f token).get? t = some e → State spamMails hamMails t e := by
  intro t e hget
  by_cases ht : t = token
  · subst ht
    rw [Dict.get?_update_self, he, Option.getD_some] at hget
    exact Option.some.inj hget ▸ hf
  · rw [Dict.get?_update_of_ne ht] at hget
    exact hv t e hget

theorem scoreTokens_scored (hham : hamMails ≠ []) (hspam : spamMails ≠ []) {tokens : List Token}
    (hnodup : tokens.Nodup) (hv : Between spamMails hamMails tokens vocabulary) :
    Scored spamMails hamMails tokens vocabulary
      (scoreTokens spamMails hamMails tokens vocabulary) := by
  induction tokens generalizing vocabulary with
  | nil => exact ⟨rfl, hv.states, fun _ _ => rfl, by simp [scoreTokens], fun _ => by simp⟩
  | cons token tokens ih =>
    obtain ⟨htoken, hnodup⟩ := List.nodup_cons.mp hnodup
    have he := hv.left token List.mem_cons_self
    rw [scoreTokens]
    cases hchi : chiOf spamMails hamMails token with
    | error raised =>
      rw [scoreToken_error hham hspam he hchi]
      refine ⟨keys_update he _, states_update hv.states he .rated, fun t ht => ?_, ?_, ?_⟩
      · exact Dict.get?_update_of_ne fun h => ht (h ▸ List.mem_cons_self)
      · constructor
        · intro h
          cases h
        · intro h
          obtain ⟨chi, hok⟩ := h token List.mem_cons_self
          rw [hchi] at hok
          cases hok
      · intro h
        cases h
    | ok chi =>
      rw [scoreToken_ok hham hspam he hchi]
      have hne : ∀ t ∈ tokens, t ≠ token := fun t ht h => htoken (h ▸ ht)
      obtain ⟨hkeys, hstates, hother, hraised, hscored⟩ := ih hnodup
        ⟨fun t ht => (Dict.get?_update_of_ne (hne t ht)).trans
            (hv.left t (List.mem_cons_of_mem _ ht)),
          states_update (f := score spamMails hamMails token chi) hv.states he (.scored hchi)⟩
      refine ⟨hkeys.trans (keys_update he _), hstates, fun t ht => ?_, ?_, fun h t ht => ?_⟩
      · obtain ⟨ht₁, ht₂⟩ := not_or.mp (mt List.mem_cons.mpr ht)
        exact (hother t ht₂).trans (Dict.get?_update_of_ne ht₁)
      · rw [hraised, List.forall_mem_cons]
        exact (and_iff_right ⟨chi, hchi⟩).symm
      · rcases List.mem_cons.mp ht with rfl | ht
        · refine ⟨chi, hchi, ?_⟩
          rw [hother t htoken, Dict.get?_update_self, he]
          rfl
        · exact hscored h t ht

/-- The tokens the vocabulary has. -/
def Occurs (spamMails hamMails : List Mail) (token : Token) : Prop :=
  (∃ mail ∈ hamMails ++ spamMails, token ∈ mail) ∧ accepted token = true

theorem mem_keys_countTokens (order : SetOrder) :
    token ∈ (countTokens order spamMails hamMails).keys ↔ Occurs spamMails hamMails token := by
  rw [Dict.mem_keys_iff, get?_countTokens, Occurs]
  split
  · rename_i h
    exact ⟨fun _ => h, fun _ => ⟨_, rfl⟩⟩
  · rename_i h
    constructor
    · intro ⟨_, he⟩
      cases he
    · intro ht
      exact absurd ht h

theorem get?_of_mem_keys {order : SetOrder}
    (h : token ∈ (countTokens order spamMails hamMails).keys) :
    (countTokens order spamMails hamMails).get? token =
      some (countedEntry spamMails hamMails token) :=
  (get?_countTokens spamMails hamMails token order).trans
    (if_pos ((mem_keys_countTokens order).mp h))

theorem buildVocabulary_scored (order : SetOrder) (hham : hamMails ≠ []) (hspam : spamMails ≠ []) :
    Scored spamMails hamMails (countTokens order spamMails hamMails).keys
      (countTokens order spamMails hamMails) (buildVocabulary order spamMails hamMails) := by
  refine scoreTokens_scored hham hspam (countTokens order spamMails hamMails).nodup
    ⟨fun t ht => get?_of_mem_keys ht, fun t e he => ?_⟩
  rw [get?_of_mem_keys (Dict.mem_keys_iff.mpr ⟨e, he⟩)] at he
  exact Option.some.inj he ▸ .counted

end Score

end Hamster.Classifier.Vocabulary
