import Hamster.Contract.Training

/-!
# When training writes its model

A token that is in every mail leaves a row of its table empty, and the report of the first
three hundred places needs as many tokens. In every other case the model is written.
-/
namespace Hamster.Contract.TrainingReach

open Lib.Dictionary Classifier.Chi Classifier.Train Classifier.Vocabulary

def Succeeds {α : Type} (x : Except Raised α) : Prop := ∃ a, x = .ok a

def raisedBy {α : Type} : Except Raised α → Option Raised
  | .error raised => some raised
  | .ok _ => none

theorem not_succeeds {α : Type} {x : Except Raised α} {raised : Raised}
    (h : raisedBy x = some raised) : ¬ Succeeds x := by
  intro ⟨a, ha⟩
  rw [ha] at h
  cases h

theorem bind_eq_ok {α β : Type} {x : Except Raised α} {f : α → Except Raised β} {b : β} :
    x >>= f = .ok b ↔ ∃ a, x = .ok a ∧ f a = .ok b := by
  cases x with
  | error raised =>
    constructor
    · intro h
      cases h
    · intro ⟨a, ha, _⟩
      cases ha
  | ok a =>
    constructor
    · intro h
      exact ⟨a, rfl, h⟩
    · intro ⟨a', ha, h⟩
      cases ha
      exact h

theorem succeeds_bind {α β : Type} {x : Except Raised α} {f : α → Except Raised β} :
    Succeeds (x >>= f) ↔ ∃ a, x = .ok a ∧ Succeeds (f a) := by
  constructor
  · intro ⟨b, hb⟩
    obtain ⟨a, ha, hf⟩ := bind_eq_ok.mp hb
    exact ⟨a, ha, b, hf⟩
  · intro ⟨a, ha, b, hf⟩
    exact ⟨b, bind_eq_ok.mpr ⟨a, ha, hf⟩⟩

theorem succeeds_mapM {α β : Type} (f : α → Except Raised β) (xs : List α) :
    Succeeds (xs.mapM f) ↔ ∀ x ∈ xs, Succeeds (f x) := by
  induction xs with
  | nil => exact ⟨fun _ => List.forall_mem_nil _, fun _ => ⟨[], rfl⟩⟩
  | cons x xs ih =>
    rw [List.mapM_cons, succeeds_bind, List.forall_mem_cons, ← ih]
    constructor
    · intro ⟨y, hy, h⟩
      obtain ⟨ys, hys, -⟩ := succeeds_bind.mp h
      exact ⟨⟨y, hy⟩, ys, hys⟩
    · intro ⟨⟨y, hy⟩, ys, hys⟩
      exact ⟨y, hy, succeeds_bind.mpr ⟨ys, hys, _, rfl⟩⟩

theorem succeeds_index (items : List Item) (i : ℕ) : Succeeds (index items i) ↔ i < items.length := by
  rw [index]
  cases hget : items[i]? with
  | none =>
    have hle := List.getElem?_eq_none_iff.mp hget
    constructor
    · intro ⟨_, h⟩
      cases h
    · intro h
      exact absurd hle (Nat.not_le.mpr h)
  | some item =>
    obtain ⟨hlt, -⟩ := List.getElem?_eq_some_iff.mp hget
    exact ⟨fun _ => hlt, fun _ => ⟨item, rfl⟩⟩

theorem succeeds_placements (items : List Item) (offset : ℕ) :
    Succeeds (placements items offset) ↔ offset + 100 ≤ items.length := by
  rw [placements, succeeds_mapM]
  simp only [List.mem_range, succeeds_index]
  constructor
  · intro h
    have hlast := h 99 (by decide)
    omega
  · intro h i hi
    omega

/-- The report needs three hundred tokens. -/
theorem succeeds_report (items : List Item) : Succeeds (report items) ↔ 300 ≤ items.length := by
  rw [report]
  constructor
  · intro h
    obtain ⟨_, -, h⟩ := succeeds_bind.mp h
    obtain ⟨_, -, h⟩ := succeeds_bind.mp h
    obtain ⟨_, h₃, -⟩ := succeeds_bind.mp h
    exact (succeeds_placements items 200).mp ⟨_, h₃⟩
  · intro h
    obtain ⟨first, h₁⟩ := (succeeds_placements items 0).mpr (by omega)
    obtain ⟨second, h₂⟩ := (succeeds_placements items 100).mpr (by omega)
    obtain ⟨third, h₃⟩ := (succeeds_placements items 200).mpr (by omega)
    obtain ⟨last, h₄⟩ := (succeeds_index items 299).mpr (by omega)
    refine succeeds_bind.mpr ⟨first, h₁, ?_⟩
    refine succeeds_bind.mpr ⟨second, h₂, ?_⟩
    refine succeeds_bind.mpr ⟨third, h₃, ?_⟩
    exact succeeds_bind.mpr ⟨last, h₄, _, rfl⟩

section Mails
variable {spamMails hamMails : List Mail} {t : Token}

/-- The accepted tokens that occur. -/
def vocabularyOf (spamMails hamMails : List Mail) : Finset Token :=
  ((hamMails ++ spamMails).flatten.filter accepted).toFinset

theorem mem_vocabularyOf : t ∈ vocabularyOf spamMails hamMails ↔ Occurs spamMails hamMails t := by
  rw [vocabularyOf, List.mem_toFinset, List.mem_filter, List.mem_flatten, Occurs]

theorem length_vocabulary (order : SetOrder) (hham : hamMails ≠ []) (hspam : spamMails ≠ []) :
    (buildVocabulary order spamMails hamMails).1.items.length =
      (vocabularyOf spamMails hamMails).card := by
  have h := buildVocabulary_scored order hham hspam
  have hset : (buildVocabulary order spamMails hamMails).1.keys.toFinset =
      vocabularyOf spamMails hamMails := by
    ext t
    rw [List.mem_toFinset, h.keys, mem_keys_countTokens, mem_vocabularyOf]
  have hnodup : (buildVocabulary order spamMails hamMails).1.keys.Nodup :=
    (buildVocabulary order spamMails hamMails).1.nodup
  rw [← hset, List.toFinset_card_of_nodup hnodup, Dict.keys, List.length_map]

theorem div_total (hham : hamMails ≠ []) (x : ℚ) :
    div x (spamMails.length + hamMails.length) = .ok (x / (spamMails.length + hamMails.length)) := by
  have hpos := List.length_pos_iff.mpr hham
  have hne : spamMails.length + hamMails.length ≠ 0 := by omega
  exact if_neg (by exact_mod_cast hne)

/-- What is written, when it is. -/
theorem train_ok (order : SetOrder) (hham : hamMails ≠ []) {m : ClassifierModel}
    {printed : List Item} (h : train order spamMails hamMails = .ok (m, printed)) :
    (buildVocabulary order spamMails hamMails).2 = none ∧
      m.vocabulary = (buildVocabulary order spamMails hamMails).1 ∧
      m.sorted = sortedVocabulary m.vocabulary.items ∧
      m.priorSpam = spamMails.length / (spamMails.length + hamMails.length) ∧
      m.priorHam = hamMails.length / (spamMails.length + hamMails.length) := by
  rw [train, div_total hham, div_total hham] at h
  obtain ⟨_, hspam, h⟩ := bind_eq_ok.mp h
  obtain ⟨_, hham, h⟩ := bind_eq_ok.mp h
  cases hspam
  cases hham
  cases hbuild : buildVocabulary order spamMails hamMails with
  | mk vocabulary raised =>
    rw [hbuild] at h
    cases raised with
    | some raised => cases h
    | none =>
      obtain ⟨printed', -, hm⟩ := bind_eq_ok.mp h
      cases hm
      exact ⟨rfl, rfl, rfl, rfl, rfl⟩

/-- For all mails that are not empty lists, the model is written just when no accepted token
is in every mail and there are three hundred of them. -/
theorem train_reaches_iff (order : SetOrder) (hham : hamMails ≠ []) (hspam : spamMails ≠ []) :
    Succeeds (train order spamMails hamMails) ↔
      (∀ t, accepted t = true → ∃ mail ∈ hamMails ++ spamMails, t ∉ mail) ∧
        300 ≤ (vocabularyOf spamMails hamMails).card := by
  have hlen := length_vocabulary order hham hspam
  have hraised : (buildVocabulary order spamMails hamMails).2 = none ↔
      ∀ t, accepted t = true → ∃ mail ∈ hamMails ++ spamMails, t ∉ mail :=
    Training.raised_iff order hham hspam
  rw [train, div_total hham, div_total hham, ← hraised, ← hlen]
  rcases buildVocabulary order spamMails hamMails with ⟨vocabulary, raised⟩
  cases raised with
  | some raised =>
    constructor
    · intro ⟨r, hr⟩
      cases hr
    · intro ⟨hnone, _⟩
      cases hnone
  | none =>
    have hsort : (sortedVocabulary vocabulary.items).length = vocabulary.items.length :=
      List.length_insertionSort _ _
    rw [← hsort, ← succeeds_report]
    constructor
    · intro h
      obtain ⟨_, -, h⟩ := succeeds_bind.mp h
      obtain ⟨_, -, h⟩ := succeeds_bind.mp h
      obtain ⟨printed, hreport, -⟩ := succeeds_bind.mp h
      exact ⟨rfl, printed, hreport⟩
    · intro ⟨_, printed, hreport⟩
      apply succeeds_bind.mpr ⟨_, rfl, ?_⟩
      apply succeeds_bind.mpr ⟨_, rfl, ?_⟩
      exact succeeds_bind.mpr ⟨printed, hreport, _, rfl⟩

end Mails

open Training (inOrder hello offer)

/-- A mail of 324 words of two letters. -/
def wordy : Mail :=
  (List.range 18).flatMap fun i => (List.range 18).map fun j =>
    [Char.ofNat (97 + i), Char.ofNat (97 + j)]

/-- The place of a word in it. -/
def place (t : Token) : ℕ := t.foldl (fun n c => 18 * n + (c.toNat - 97)) 0

theorem nodup_wordy : wordy.Nodup := by
  have hplaces : wordy.map place = List.range 324 := by decide +kernel
  exact .of_map place (hplaces ▸ List.nodup_range)

theorem train_wordy : Succeeds (train inOrder [[offer]] [wordy]) := by
  refine (train_reaches_iff inOrder (List.cons_ne_nil _ _) (List.cons_ne_nil _ _)).mpr
    ⟨fun t _ => ?_, ?_⟩
  · by_cases ht : t = offer
    · exact ⟨wordy, by simp, by rw [ht]; decide +kernel⟩
    · exact ⟨[offer], by simp, by simpa using ht⟩
  · have haccepted : ∀ t ∈ wordy, accepted t = true := by decide +kernel
    have hsub : wordy.toFinset ⊆ vocabularyOf [[offer]] [wordy] := fun t ht => by
      have hmem : t ∈ wordy := List.mem_toFinset.mp ht
      rw [vocabularyOf, List.mem_toFinset, List.mem_filter]
      exact ⟨List.mem_flatten.mpr ⟨wordy, by simp, hmem⟩, haccepted t hmem⟩
    have hlength : wordy.length = 324 := by decide +kernel
    have hcard := Finset.card_le_card hsub
    rw [List.toFinset_card_of_nodup nodup_wordy, hlength] at hcard
    exact (show 300 ≤ 324 by decide).trans hcard

/-- Two mails with a token each have no third place, and a token in both has no value. -/
theorem train_fails :
    raisedBy (train inOrder [[offer]] [[hello]]) = some .indexError ∧
      raisedBy (train inOrder [[offer]] [[offer]]) = some .zeroDivisionError ∧
      ¬ Succeeds (train inOrder [[offer]] [[hello]]) ∧
      ¬ Succeeds (train inOrder [[offer]] [[offer]]) := by
  have hindex : raisedBy (train inOrder [[offer]] [[hello]]) = some .indexError := by
    decide +kernel
  have hzero : raisedBy (train inOrder [[offer]] [[offer]]) = some .zeroDivisionError := by
    decide +kernel
  exact ⟨hindex, hzero, not_succeeds hindex, not_succeeds hzero⟩

end Hamster.Contract.TrainingReach
