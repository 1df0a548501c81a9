import Hamster.Classifier.Vocabulary

/-!
# What training counts

The counts of the vocabulary are those of the mails, in whatever order the mails and the sets
come, and swapping spam and ham swaps them.
-/
namespace Hamster.Contract.Training

open Lib.Contingency Lib.Dictionary Classifier.Chi Classifier.Train Classifier.Vocabulary

/-- The dictionary of a token, as far as it is filled. -/
structure Exact (spamMails hamMails : List Mail) (token : Token) (e : Entry) : Prop where
  ham : e.ham = hamMails.countP (token ∈ ·)
  spam : e.spam = spamMails.countP (token ∈ ·)
  total : e.total = some (e.ham + e.spam)
  pHam : ∀ p, e.pHam = some p → p = e.ham / hamMails.length ∧ 0 ≤ p ∧ p ≤ 1
  pSpam : ∀ p, e.pSpam = some p → p = e.spam / spamMails.length ∧ 0 ≤ p ∧ p ≤ 1
  chi : ∀ c, e.chi = some c →
    calculateChi e.ham e.spam (hamMails.length - e.ham) (spamMails.length - e.spam) = .ok c

/-- Two dictionaries of a token have the same counts, and the same values where both have one. -/
structure Agree (e e' : Entry) : Prop where
  ham : e.ham = e'.ham
  spam : e.spam = e'.spam
  total : e.total = e'.total
  pHam : ∀ p p', e.pHam = some p → e'.pHam = some p' → p = p'
  pSpam : ∀ p p', e.pSpam = some p → e'.pSpam = some p' → p = p'
  chi : ∀ c c', e.chi = some c → e'.chi = some c' → c = c'

/-- The second vocabulary is the first one under `f`. -/
structure Corresponds (f : Entry → Entry) (r r' : Vocabulary × Option Raised) : Prop where
  keys : ∀ t, t ∈ r.1.keys ↔ t ∈ r'.1.keys
  entries : ∀ t e e', r.1.get? t = some e → r'.1.get? t = some e' → Agree (f e) e'
  raised : r.2 = none ↔ r'.2 = none
  equal : r.2 = none → ∀ t, (r.1.get? t).map f = r'.1.get? t

/-- The fields of ham and spam exchanged. -/
def swap (e : Entry) : Entry where
  hamOccurences := e.spamOccurences
  spamOccurences := e.hamOccurences
  total := e.total
  pHam := e.pSpam
  pSpam := e.pHam
  chi := e.chi

section Run
variable {spamMails hamMails spamMails' hamMails' : List Mail} {t : Token} {e e' : Entry}

theorem ratio_bounds {mails : List Mail} (t : Token) :
    0 ≤ (occurences mails t : ℚ) / mails.length ∧ (occurences mails t : ℚ) / mails.length ≤ 1 :=
  ⟨by positivity, div_le_one_of_le₀ (Nat.cast_le.mpr List.countP_le_length) (Nat.cast_nonneg _)⟩

theorem exact_of_state (h : State spamMails hamMails t e) : Exact spamMails hamMails t e := by
  obtain ⟨hham, hspam, htotal⟩ := h.counts
  have hp (p : ℚ) (mails : List Mail) (h : p = occurences mails t / mails.length) :
      p = (occurences mails t : ℚ) / mails.length ∧ 0 ≤ p ∧ p ≤ 1 := by
    rw [h]
    exact ⟨rfl, ratio_bounds t⟩
  obtain ⟨hpHam, hpSpam, hchi⟩ := h.values
  refine ⟨hham, hspam, ?_, fun p h => ?_, fun p h => ?_, fun c h => ?_⟩
  · rw [htotal, hham, hspam]
  · rw [hham]
    exact hp p hamMails (hpHam p h)
  · rw [hspam]
    exact hp p spamMails (hpSpam p h)
  · rw [hham, hspam]
    exact hchi c h

/-- The values of two exact dictionaries are the same. -/
theorem agree_of_exact (h : Exact spamMails hamMails t e) (h' : Exact spamMails hamMails t e') :
    Agree e e' := by
  have hham : e.ham = e'.ham := h.ham.trans h'.ham.symm
  have hspam : e.spam = e'.spam := h.spam.trans h'.spam.symm
  refine ⟨hham, hspam, ?_, fun p p' hp hp' => ?_, fun p p' hp hp' => ?_, fun c c' hc hc' => ?_⟩
  · rw [h.total, h'.total, hham, hspam]
  · rw [(h.pHam p hp).1, (h'.pHam p' hp').1, hham]
  · rw [(h.pSpam p hp).1, (h'.pSpam p' hp').1, hspam]
  · have hok := h.chi c hc
    rw [hham, hspam, h'.chi c' hc'] at hok
    exact (Except.ok.inj hok).symm

theorem exact_swap (h : Exact spamMails hamMails t e) : Exact hamMails spamMails t (swap e) where
  ham := h.spam
  spam := h.ham
  total := h.total.trans (congrArg some (add_comm _ _))
  pHam := h.pSpam
  pSpam := h.pHam
  chi c hc := (calculateChi_swapColumns _ _ _ _).trans (h.chi c hc)

/-- With the same counts and values, whatever the orders, one vocabulary is the other under `f`. -/
theorem corresponds_of {f : Entry → Entry} (hham : hamMails ≠ []) (hspam : spamMails ≠ [])
    (hham' : hamMails' ≠ []) (hspam' : spamMails' ≠ [])
    (hoccurs : ∀ t, Occurs spamMails hamMails t ↔ Occurs spamMails' hamMails' t)
    (hchi : ∀ t, chiOf spamMails hamMails t = chiOf spamMails' hamMails' t)
    (hscored : ∀ t c, f (scoredEntry spamMails hamMails t c) = scoredEntry spamMails' hamMails' t c)
    (hexact : ∀ t e, Exact spamMails hamMails t e → Exact spamMails' hamMails' t (f e))
    (order order' : SetOrder) :
    Corresponds f (buildVocabulary order spamMails hamMails)
      (buildVocabulary order' spamMails' hamMails') := by
  have h := buildVocabulary_scored order hham hspam
  have h' := buildVocabulary_scored order' hham' hspam'
  have hkeys : ∀ t, t ∈ (countTokens order spamMails hamMails).keys ↔
      t ∈ (countTokens order' spamMails' hamMails').keys := fun t => by
    rw [mem_keys_countTokens, mem_keys_countTokens, hoccurs]
  have hraised : (buildVocabulary order spamMails hamMails).2 = none ↔
      (buildVocabulary order' spamMails' hamMails').2 = none := by
    rw [h.raised, h'.raised]
    exact forall_congr' fun t => by rw [hkeys, hchi]
  refine ⟨fun t => by rw [h.keys, h'.keys, hkeys], fun t e e' he he' => ?_, hraised,
    fun hnone t => ?_⟩
  · exact agree_of_exact (hexact t e (exact_of_state (h.states t e he)))
      (exact_of_state (h'.states t e' he'))
  · by_cases ht : t ∈ (countTokens order spamMails hamMails).keys
    · obtain ⟨c, hc, he⟩ := h.scored hnone t ht
      obtain ⟨c', hc', he'⟩ := h'.scored (hraised.mp hnone) t ((hkeys t).mp ht)
      rw [hchi, hc'] at hc
      rw [he, he', Option.map_some, hscored, Except.ok.inj hc]
    · have ht' := mt (hkeys t).mpr ht
      rw [← h.keys] at ht
      rw [← h'.keys] at ht'
      rw [Dict.get?_of_notMem ht, Dict.get?_of_notMem ht']
      rfl

theorem corresponds_perm (hham : hamMails ≠ []) (hspam : spamMails ≠ [])
    (hpermHam : hamMails'.Perm hamMails) (hpermSpam : spamMails'.Perm spamMails)
    (order order' : SetOrder) :
    Corresponds id (buildVocabulary order spamMails hamMails)
      (buildVocabulary order' spamMails' hamMails') := by
  have hH : ∀ t, occurences hamMails' t = occurences hamMails t := fun t => hpermHam.countP_eq _
  have hS : ∀ t, occurences spamMails' t = occurences spamMails t := fun t => hpermSpam.countP_eq _
  have hH' := hpermHam.length_eq
  have hS' := hpermSpam.length_eq
  refine corresponds_of hham hspam (fun h => hham ?_) (fun h => hspam ?_) (fun t => ?_) (fun t => ?_)
    (fun t c => ?_) (fun t e h => ?_) order order'
  · rw [h] at hpermHam
    exact hpermHam.symm.eq_nil
  · rw [h] at hpermSpam
    exact hpermSpam.symm.eq_nil
  · simp only [Occurs, List.mem_append, hpermHam.mem_iff, hpermSpam.mem_iff]
  · simp only [chiOf, hH, hS, hH', hS']
  · simp only [id, scoredEntry, score, rate, countedEntry, pHamOf, pSpamOf, hH, hS, hH', hS']
  · obtain ⟨h₁, h₂, h₃, h₄, h₅, h₆⟩ := h
    have hH := hH t
    have hS := hS t
    rw [occurences, occurences] at hH hS
    rw [← hH'] at h₄ h₆
    rw [← hS'] at h₅ h₆
    exact ⟨h₁.trans hH.symm, h₂.trans hS.symm, h₃, h₄, h₅, h₆⟩

theorem swap_scoredEntry (t : Token) (c : ℚ) :
    swap (scoredEntry spamMails hamMails t c) = scoredEntry hamMails spamMails t c := by
  simp only [swap, scoredEntry, score, rate, countedEntry, counted, pHamOf, pSpamOf, add_comm]

theorem corresponds_swap (hham : hamMails ≠ []) (hspam : spamMails ≠ [])
    (order order' : SetOrder) :
    Corresponds swap (buildVocabulary order spamMails hamMails)
      (buildVocabulary order' hamMails spamMails) := by
  refine corresponds_of hham hspam hspam hham (fun t => ?_) (fun t => ?_) swap_scoredEntry
    (fun t e h => exact_swap h) order order'
  · simp only [Occurs, List.mem_append, or_comm]
  · exact calculateChi_swapColumns _ _ _ _

theorem occurences_append (t : Token) : occurences hamMails t + occurences spamMails t =
    (hamMails ++ spamMails).countP (t ∈ ·) := List.countP_append.symm

theorem exists_lacks_iff : (∃ mail ∈ hamMails ++ spamMails, t ∉ mail) ↔
    occurences hamMails t + occurences spamMails t < hamMails.length + spamMails.length := by
  have hall := List.countP_eq_length (p := fun mail => decide (t ∈ mail)) (l := hamMails ++ spamMails)
  have hle := List.countP_le_length (p := fun mail => decide (t ∈ mail)) (l := hamMails ++ spamMails)
  rw [occurences_append, ← List.length_append, lt_iff_le_and_ne, and_iff_right hle, Ne, hall]
  simp

/-- No row and no column is empty just when a mail lacks the token. -/
theorem full_iff (hham : hamMails ≠ []) (hspam : spamMails ≠ [])
    (ht : ∃ mail ∈ hamMails ++ spamMails, t ∈ mail) :
    (table (occurences hamMails t) (occurences spamMails t)
        (hamMails.length - occurences hamMails t) (spamMails.length - occurences spamMails t)).Full ↔
      ∃ mail ∈ hamMails ++ spamMails, t ∉ mail := by
  have hpos : 0 < occurences hamMails t + occurences spamMails t := by
    rw [occurences_append, List.countP_pos_iff]
    simpa using ht
  have hH := List.length_pos_iff.mpr hham
  have hS := List.length_pos_iff.mpr hspam
  have hhle : occurences hamMails t ≤ hamMails.length := List.countP_le_length
  have hsle : occurences spamMails t ≤ spamMails.length := List.countP_le_length
  rw [exists_lacks_iff]
  generalize occurences hamMails t = h at *
  generalize occurences spamMails t = s at *
  generalize hamMails.length = nh at *
  generalize spamMails.length = ns at *
  rw [full_table]
  omega

theorem chiOf_ok_iff (hham : hamMails ≠ []) (hspam : spamMails ≠ [])
    (ht : ∃ mail ∈ hamMails ++ spamMails, t ∈ mail) :
    (∃ chi, chiOf spamMails hamMails t = .ok chi) ↔
      ∃ mail ∈ hamMails ++ spamMails, t ∉ mail := by
  rw [← full_iff hham hspam ht]
  constructor
  · intro ⟨c, hc⟩
    by_contra hfull
    rw [chiOf, calculateChi_error hfull] at hc
    cases hc
  · intro hfull
    exact ⟨_, calculateChi_ok hfull⟩

/-- Training gets through unless some token it accepts is in every mail. -/
theorem raised_iff (order : SetOrder) (hham : hamMails ≠ []) (hspam : spamMails ≠ []) :
    (buildVocabulary order spamMails hamMails).2 = none ↔
      ∀ t, accepted t = true → ∃ mail ∈ hamMails ++ spamMails, t ∉ mail := by
  rw [(buildVocabulary_scored order hham hspam).raised]
  constructor
  · intro h t ht
    by_cases hoccurs : ∃ mail ∈ hamMails ++ spamMails, t ∈ mail
    · exact (chiOf_ok_iff hham hspam hoccurs).mp
        (h t ((mem_keys_countTokens order).mpr ⟨hoccurs, ht⟩))
    · obtain ⟨mail, mails, hcons⟩ := List.exists_cons_of_ne_nil hham
      have hmail : mail ∈ hamMails ++ spamMails := by simp [hcons]
      exact ⟨mail, hmail, fun ht => hoccurs ⟨mail, hmail, ht⟩⟩
  · intro h t ht
    obtain ⟨hoccurs, haccepted⟩ := (mem_keys_countTokens order).mp ht
    exact (chiOf_ok_iff hham hspam hoccurs).mpr (h t haccepted)

/-- For all mails that are not empty lists, and whatever the orders of the sets. -/
theorem training_exact (hham : hamMails ≠ []) (hspam : spamMails ≠ []) (order order' : SetOrder) :
    (∀ t, t ∈ (buildVocabulary order spamMails hamMails).1.keys ↔
        (∃ mail ∈ hamMails ++ spamMails, t ∈ mail) ∧ matchesLetters t = true ∧ t ≠ subject) ∧
      (∀ t e, (buildVocabulary order spamMails hamMails).1.get? t = some e →
        Exact spamMails hamMails t e) ∧
      ((buildVocabulary order spamMails hamMails).2 = none ↔
        ∀ t, matchesLetters t = true → t ≠ subject → ∃ mail ∈ hamMails ++ spamMails, t ∉ mail) ∧
      ((buildVocabulary order spamMails hamMails).2 = none →
        ∀ t e, (buildVocabulary order spamMails hamMails).1.get? t = some e →
          e.pHam.isSome ∧ e.pSpam.isSome ∧ e.chi.isSome) ∧
      (∀ spamMails' hamMails', spamMails'.Perm spamMails → hamMails'.Perm hamMails →
        Corresponds id (buildVocabulary order spamMails hamMails)
          (buildVocabulary order' spamMails' hamMails')) ∧
      Corresponds swap (buildVocabulary order spamMails hamMails)
        (buildVocabulary order' hamMails spamMails) := by
  have h := buildVocabulary_scored order hham hspam
  refine ⟨fun t => ?_, fun t e he => exact_of_state (h.states t e he), ?_, fun hnone t e he => ?_,
    fun _ _ hs hh => corresponds_perm hham hspam hh hs order order',
    corresponds_swap hham hspam order order'⟩
  · rw [h.keys, mem_keys_countTokens, Occurs, accepted, Bool.and_eq_true, decide_eq_true_iff]
  · rw [raised_iff order hham hspam]
    refine forall_congr' fun t => ?_
    rw [accepted, Bool.and_eq_true, decide_eq_true_iff, and_imp]
  · have ht : t ∈ (countTokens order spamMails hamMails).keys := by
      rw [← h.keys]
      exact Dict.mem_keys_iff.mpr ⟨e, he⟩
    obtain ⟨c, -, hscored⟩ := h.scored hnone t ht
    rw [hscored] at he
    rw [← Option.some.inj he]
    exact ⟨rfl, rfl, rfl⟩

end Run

/-- Sets are iterated as they were filled. -/
def inOrder : SetOrder := ⟨id, List.Perm.refl⟩

def hello : Token := ['h', 'i']
def offer : Token := ['f', 'r', 'e', 'e']

theorem training_of_two :
    (∀ t, t ∈ (buildVocabulary inOrder [[offer]] [[hello], [hello, offer]]).1.keys ↔
        (∃ mail ∈ [[hello], [hello, offer]] ++ [[offer]], t ∈ mail) ∧ matchesLetters t = true ∧
          t ≠ subject) ∧
      (∀ t e, (buildVocabulary inOrder [[offer]] [[hello], [hello, offer]]).1.get? t = some e →
        Exact [[offer]] [[hello], [hello, offer]] t e) ∧
      ((buildVocabulary inOrder [[offer]] [[hello], [hello, offer]]).2 = none ↔
        ∀ t, matchesLetters t = true → t ≠ subject →
          ∃ mail ∈ [[hello], [hello, offer]] ++ [[offer]], t ∉ mail) ∧
      ((buildVocabulary inOrder [[offer]] [[hello], [hello, offer]]).2 = none →
        ∀ t e, (buildVocabulary inOrder [[offer]] [[hello], [hello, offer]]).1.get? t = some e →
          e.pHam.isSome ∧ e.pSpam.isSome ∧ e.chi.isSome) ∧
      (∀ spamMails' hamMails', spamMails'.Perm [[offer]] →
        hamMails'.Perm [[hello], [hello, offer]] →
          Corresponds id (buildVocabulary inOrder [[offer]] [[hello], [hello, offer]])
            (buildVocabulary inOrder spamMails' hamMails')) ∧
      Corresponds swap (buildVocabulary inOrder [[offer]] [[hello], [hello, offer]])
        (buildVocabulary inOrder [[hello], [hello, offer]] [[offer]]) :=
  training_exact (List.cons_ne_nil _ _) (List.cons_ne_nil _ _) inOrder inOrder

end Hamster.Contract.Training
