import Hamster.Classifier.Apply
import Hamster.Contract.TrainingReach
import Hamster.Lib.LogSpace

/-!
# Classification by the product rule

Over the reals the sums that are carried from cutoff to cutoff compare as the products over the
tokens so far, in either loop.
-/
namespace Hamster.Contract.NaiveBayes

open Lib.Dictionary Lib.LogSpace Classifier.Chi Classifier.Train Classifier.Apply

abbrev Entries := List (Token × Rates ℝ)

section Rule
variable (model : Model ℝ) (mail : Mail)

/-- The probability of a token, which the vocabulary has. -/
def probability (field : Rates ℝ → Option ℝ) (token : Token) : ℝ :=
  ((model.vocabulary.get? token).bind field).getD 0

/-- The factor of a token that occurs in the mail, or does not. -/
noncomputable def factor (field : Rates ℝ → Option ℝ) (entry : Token × Rates ℝ) : ℝ :=
  if entry.1 ∈ mail then max (probability model field entry.1) epsilon
  else max (1 - probability model field entry.1) epsilon

def IsSpam (entries : Entries) : Prop :=
  model.priorHam * (entries.map (factor model mail Rates.pHam)).prod <
    model.priorSpam * (entries.map (factor model mail Rates.pSpam)).prod

noncomputable instance (entries : Entries) : Decidable (IsSpam model mail entries) :=
  inferInstanceAs (Decidable (_ < _))

/-- Positive priors, and probabilities for every token that is used. -/
structure Valid : Prop where
  priorHam : 0 < model.priorHam
  priorSpam : 0 < model.priorSpam
  rates : ∀ entry ∈ model.sorted, ∃ r p q, model.vocabulary.get? entry.1 = some r ∧
    r.pHam = some p ∧ r.pSpam = some q

end Rule

/-- The mails that are counted as right and as wrong, which are all. -/
structure Counts (right : Mail → Prop) [DecidablePred right] (mails : List Mail) (t : Tally) :
    Prop where
  correct : t.correct = mails.countP right
  incorrect : t.incorrect = mails.countP fun mail => ¬ right mail
  all : t.correct + t.incorrect = mails.length

section Sums
variable {model : Model ℝ} {mail : Mail} {entries rest : Entries}

theorem factor_pos (field : Rates ℝ → Option ℝ) (entry : Token × Rates ℝ) :
    0 < factor model mail field entry := by
  have heps : (0 : ℝ) < epsilon := by norm_num [epsilon]
  rw [factor]
  split
  · exact lt_max_of_lt_right heps
  · exact lt_max_of_lt_right heps

theorem mathLog2_ok {x : ℝ} (hx : 0 < x) : mathLog2 (Real.logb 2) x = .ok (Real.logb 2 x) :=
  if_pos hx

/-- The sums for these entries, priors included. -/
noncomputable def sums (model : Model ℝ) (mail : Mail) (entries : Entries) : ℝ × ℝ :=
  (Real.logb 2 model.priorHam +
      (entries.map fun entry => Real.logb 2 (factor model mail Rates.pHam entry)).sum,
    Real.logb 2 model.priorSpam +
      (entries.map fun entry => Real.logb 2 (factor model mail Rates.pSpam entry)).sum)

theorem priors_eq (h : Valid model) (mail : Mail) :
    priors (Real.logb 2) model = .ok (sums model mail []) := by
  rw [priors, mathLog2_ok h.priorHam, mathLog2_ok h.priorSpam]
  simp only [sums, List.map_nil, List.sum_nil, add_zero, zero_add]
  rfl

theorem lookup_ok {field : Rates ℝ → Option ℝ} {token : Token} {r : Rates ℝ} {p : ℝ}
    (hr : model.vocabulary.get? token = some r) (hp : field r = some p) :
    lookup model token field = .ok (probability model field token) := by
  rw [lookup, probability, hr, Option.bind_some, hp]
  rfl

/-- A round takes the logarithms of the two factors. -/
theorem addEntry_factors (h : Valid model) {entry : Token × Rates ℝ} (hentry : entry ∈ model.sorted)
    (p : ℝ × ℝ) : addEntry (Real.logb 2) model mail p entry = (do
      let ham ← mathLog2 (Real.logb 2) (factor model mail Rates.pHam entry)
      let spam ← mathLog2 (Real.logb 2) (factor model mail Rates.pSpam entry)
      return (p.1 + ham, p.2 + spam)) := by
  obtain ⟨r, x, y, hr, hx, hy⟩ := h.rates entry hentry
  rw [addEntry, lookup_ok hr hx, lookup_ok hr hy]
  by_cases hmem : entry.1 ∈ mail
  · simp only [factor, if_pos hmem]
    rfl
  · simp only [factor, if_neg hmem]
    rfl

theorem addEntry_eq (h : Valid model) {entry : Token × Rates ℝ} (hentry : entry ∈ model.sorted)
    (p : ℝ × ℝ) : addEntry (Real.logb 2) model mail p entry =
      .ok (p.1 + Real.logb 2 (factor model mail Rates.pHam entry),
        p.2 + Real.logb 2 (factor model mail Rates.pSpam entry)) := by
  rw [addEntry_factors h hentry, mathLog2_ok (factor_pos Rates.pHam entry),
    mathLog2_ok (factor_pos Rates.pSpam entry)]
  rfl

/-- The sums go on from those of the entries before. -/
theorem addEntries_eq (h : Valid model) (hrest : ∀ entry ∈ rest, entry ∈ model.sorted) :
    addEntries (Real.logb 2) model mail rest (sums model mail entries) =
      .ok (sums model mail (entries ++ rest)) := by
  induction rest generalizing entries with
  | nil => rw [List.append_nil]; rfl
  | cons entry rest ih =>
    have hnext : (sums model mail entries).1 + Real.logb 2 (factor model mail Rates.pHam entry) =
        (sums model mail (entries ++ [entry])).1 ∧
        (sums model mail entries).2 + Real.logb 2 (factor model mail Rates.pSpam entry) =
          (sums model mail (entries ++ [entry])).2 := by
      simp only [sums, List.map_append, List.sum_append, List.map_singleton, List.sum_singleton,
        add_assoc, and_self]
    have hstep : addEntries (Real.logb 2) model mail rest (sums model mail (entries ++ [entry])) =
        .ok (sums model mail (entries ++ [entry] ++ rest)) :=
      ih fun e he => hrest e (List.mem_cons_of_mem _ he)
    rw [List.append_assoc, List.singleton_append] at hstep
    rw [addEntries, List.foldlM_cons, addEntry_eq h (hrest entry List.mem_cons_self), hnext.1,
      hnext.2]
    exact hstep

/-- The sums compare as the products. -/
theorem sums_lt_iff (h : Valid model) :
    (sums model mail entries).1 < (sums model mail entries).2 ↔ IsSpam model mail entries :=
  sum_lt_iff one_lt_two h.priorHam h.priorSpam (fun entry _ => factor_pos Rates.pHam entry)
    (fun entry _ => factor_pos Rates.pSpam entry)

theorem take_append_slice {β : Type} (l : List β) {i j : ℕ} (hij : i ≤ j) :
    l.take i ++ slice l i j = l.take j := by
  have htake : (l.take j).take i = l.take i := by rw [List.take_take, Nat.min_eq_left hij]
  rw [slice, ← htake, List.take_append_drop]

theorem mem_of_mem_slice {β : Type} {l : List β} {i j : ℕ} {x : β} (h : x ∈ slice l i j) : x ∈ l :=
  List.mem_of_mem_take (List.mem_of_mem_drop h)

/-- The sums at the four cutoffs. -/
theorem cutoffs (h : Valid model) (mail : Mail) :
    addEntries (Real.logb 2) model mail (model.sorted.take 100) (sums model mail []) =
        .ok (sums model mail (model.sorted.take 100)) ∧
      addEntries (Real.logb 2) model mail (slice model.sorted 100 200)
        (sums model mail (model.sorted.take 100)) =
          .ok (sums model mail (model.sorted.take 200)) ∧
      addEntries (Real.logb 2) model mail (slice model.sorted 200 300)
        (sums model mail (model.sorted.take 200)) =
          .ok (sums model mail (model.sorted.take 300)) ∧
      addEntries (Real.logb 2) model mail (model.sorted.drop 300)
        (sums model mail (model.sorted.take 300)) = .ok (sums model mail model.sorted) := by
  refine ⟨addEntries_eq h fun _ => List.mem_of_mem_take, ?_, ?_, ?_⟩
  · rw [addEntries_eq h fun _ => mem_of_mem_slice, take_append_slice _ (by decide)]
  · rw [addEntries_eq h fun _ => mem_of_mem_slice, take_append_slice _ (by decide)]
  · rw [addEntries_eq h fun _ => List.mem_of_mem_drop, List.take_append_drop]

theorem ok_bind {β γ : Type} (b : β) (f : β → Except Raised γ) : (Except.ok b >>= f) = f b := rfl

/-- A mail of `hamMails` is counted by the product rule at every cutoff. -/
theorem applyHam_eq (h : Valid model) (r : Results) (mail : Mail) :
    applyHam (Real.logb 2) model r mail = .ok { r with
      total := r.total + 1
      totalHam := r.totalHam + 1
      ham100 := if ¬ IsSpam model mail (model.sorted.take 100) then r.ham100.addCorrect
        else r.ham100.addIncorrect
      ham200 := if ¬ IsSpam model mail (model.sorted.take 200) then r.ham200.addCorrect
        else r.ham200.addIncorrect
      ham300 := if ¬ IsSpam model mail (model.sorted.take 300) then r.ham300.addCorrect
        else r.ham300.addIncorrect
      hamTotal := if ¬ IsSpam model mail model.sorted then r.hamTotal.addCorrect
        else r.hamTotal.addIncorrect } := by
  obtain ⟨h₁, h₂, h₃, h₄⟩ := cutoffs h mail
  rw [applyHam, priors_eq h mail]
  simp only [ok_bind, h₁, h₂, h₃, h₄, sums_lt_iff h, ite_not]
  rfl

/-- A mail of `spamMails` is counted by the same rule. -/
theorem applySpam_eq (h : Valid model) (r : Results) (mail : Mail) :
    applySpam (Real.logb 2) model r mail = .ok { r with
      total := r.total + 1
      totalSpam := r.totalSpam + 1
      spam100 := if IsSpam model mail (model.sorted.take 100) then r.spam100.addCorrect
        else r.spam100.addIncorrect
      spam200 := if IsSpam model mail (model.sorted.take 200) then r.spam200.addCorrect
        else r.spam200.addIncorrect
      spam300 := if IsSpam model mail (model.sorted.take 300) then r.spam300.addCorrect
        else r.spam300.addIncorrect
      spamTotal := if IsSpam model mail model.sorted then r.spamTotal.addCorrect
        else r.spamTotal.addIncorrect } := by
  obtain ⟨h₁, h₂, h₃, h₄⟩ := cutoffs h mail
  rw [applySpam, priors_eq h mail]
  simp only [ok_bind, h₁, h₂, h₃, h₄, sums_lt_iff h]
  rfl

end Sums

section Runs
variable {model : Model ℝ} (mails : List Mail)

/-- The counters after so many mails that were right and wrong. -/
def Tally.add (t : Tally) (right : Mail → Prop) [DecidablePred right] (mails : List Mail) : Tally :=
  ⟨t.correct + mails.countP right, t.incorrect + mails.countP fun mail => ¬ right mail⟩

theorem add_cons (t : Tally) (right : Mail → Prop) [DecidablePred right] (mail : Mail) :
    Tally.add (if right mail then t.addCorrect else t.addIncorrect) right mails =
      Tally.add t right (mail :: mails) := by
  by_cases hr : right mail
  · rw [if_pos hr, Tally.add, Tally.add, List.countP_cons_of_pos (by simpa using hr),
      List.countP_cons_of_neg (by simpa using hr), Tally.addCorrect]
    dsimp only
    rw [Nat.add_assoc, Nat.add_comm 1]
  · rw [if_neg hr, Tally.add, Tally.add, List.countP_cons_of_neg (by simpa using hr),
      List.countP_cons_of_pos (by simpa using hr), Tally.addIncorrect]
    dsimp only
    rw [Nat.add_assoc t.incorrect, Nat.add_comm 1]

theorem counts_add (right : Mail → Prop) [DecidablePred right] :
    Counts right mails (Tally.add {} right mails) where
  correct := Nat.zero_add _
  incorrect := Nat.zero_add _
  all := by
    have hall := List.length_eq_countP_add_countP (p := fun mail => decide (right mail)) (l := mails)
    simp only [Tally.add, Nat.zero_add, hall, decide_not, Bool.decide_eq_true]

/-- The results behind the mails of `hamMails`. -/
noncomputable def afterHam (model : Model ℝ) (mails : List Mail) (r : Results) : Results :=
  { r with
    total := r.total + mails.length
    totalHam := r.totalHam + mails.length
    ham100 := Tally.add r.ham100 (fun mail => ¬ IsSpam model mail (model.sorted.take 100)) mails
    ham200 := Tally.add r.ham200 (fun mail => ¬ IsSpam model mail (model.sorted.take 200)) mails
    ham300 := Tally.add r.ham300 (fun mail => ¬ IsSpam model mail (model.sorted.take 300)) mails
    hamTotal := Tally.add r.hamTotal (fun mail => ¬ IsSpam model mail model.sorted) mails }

/-- The results behind the mails of `spamMails`. -/
noncomputable def afterSpam (model : Model ℝ) (mails : List Mail) (r : Results) : Results :=
  { r with
    total := r.total + mails.length
    totalSpam := r.totalSpam + mails.length
    spam100 := Tally.add r.spam100 (fun mail => IsSpam model mail (model.sorted.take 100)) mails
    spam200 := Tally.add r.spam200 (fun mail => IsSpam model mail (model.sorted.take 200)) mails
    spam300 := Tally.add r.spam300 (fun mail => IsSpam model mail (model.sorted.take 300)) mails
    spamTotal := Tally.add r.spamTotal (fun mail => IsSpam model mail model.sorted) mails }

theorem foldlM_applyHam (h : Valid model) (r : Results) :
    mails.foldlM (applyHam (Real.logb 2) model) r = .ok (afterHam model mails r) := by
  induction mails generalizing r with
  | nil => rfl
  | cons mail mails ih =>
    rw [List.foldlM_cons, applyHam_eq h, ok_bind, ih]
    simp only [afterHam, ← add_cons, List.length_cons, Nat.add_assoc, Nat.add_comm 1]

theorem foldlM_applySpam (h : Valid model) (r : Results) :
    mails.foldlM (applySpam (Real.logb 2) model) r = .ok (afterSpam model mails r) := by
  induction mails generalizing r with
  | nil => rfl
  | cons mail mails ih =>
    rw [List.foldlM_cons, applySpam_eq h, ok_bind, ih]
    simp only [afterSpam, ← add_cons, List.length_cons, Nat.add_assoc, Nat.add_comm 1]

end Runs

section Trained
variable {order : SetOrder} {spamMails hamMails : List Mail} {m : ClassifierModel}
  {printed : List Item}

/-- What training writes can be applied, so no mail raises an exception. -/
theorem valid_load (hham : hamMails ≠ []) (hspam : spamMails ≠ [])
    (h : train order spamMails hamMails = .ok (m, printed)) : Valid (load Rat.cast m) := by
  obtain ⟨hraised, hvocabulary, hsorted, hpriorSpam, hpriorHam⟩ :=
    TrainingReach.train_ok order hham h
  have hscored := Classifier.Vocabulary.buildVocabulary_scored order hham hspam
  have hH : (0 : ℚ) < hamMails.length := Nat.cast_pos.mpr (List.length_pos_iff.mpr hham)
  have hS : (0 : ℚ) < spamMails.length := Nat.cast_pos.mpr (List.length_pos_iff.mpr hspam)
  have hpos {x y : ℚ} (hx : 0 < x) (hy : 0 < y) : (0 : ℝ) < ((x / y : ℚ) : ℝ) :=
    Rat.cast_pos.mpr (div_pos hx hy)
  refine ⟨?_, ?_, fun entry hentry => ?_⟩
  · rw [load, hpriorHam]
    exact hpos hH (add_pos hS hH)
  · rw [load, hpriorSpam]
    exact hpos hS (add_pos hS hH)
  · obtain ⟨item, hitem, rfl⟩ := List.mem_map.mp hentry
    rw [hsorted, sortedVocabulary, List.mem_insertionSort, hvocabulary] at hitem
    have hkey : item.1 ∈ (countTokens order spamMails hamMails).keys := by
      rw [← hscored.keys]
      exact List.mem_map_of_mem hitem
    obtain ⟨chi, -, hget⟩ := hscored.scored hraised item.1 hkey
    refine ⟨⟨some (Classifier.Vocabulary.pHamOf hamMails item.1 : ℚ),
      some (Classifier.Vocabulary.pSpamOf spamMails item.1 : ℚ)⟩, _, _, ?_, rfl, rfl⟩
    rw [load, Dict.get?_map, hvocabulary, hget]
    rfl

end Trained

/-- For every model and all mails, both loops count by the product rule at every cutoff. What
training writes is such a model. -/
theorem counts_by_product_rule {model : Model ℝ} (h : Valid model) (spamMails hamMails : List Mail) :
    (∃ r, apply (Real.logb 2) model spamMails hamMails = .ok r ∧
      Counts (fun mail => ¬ IsSpam model mail (model.sorted.take 100)) hamMails r.ham100 ∧
      Counts (fun mail => ¬ IsSpam model mail (model.sorted.take 200)) hamMails r.ham200 ∧
      Counts (fun mail => ¬ IsSpam model mail (model.sorted.take 300)) hamMails r.ham300 ∧
      Counts (fun mail => ¬ IsSpam model mail model.sorted) hamMails r.hamTotal ∧
      Counts (fun mail => IsSpam model mail (model.sorted.take 100)) spamMails r.spam100 ∧
      Counts (fun mail => IsSpam model mail (model.sorted.take 200)) spamMails r.spam200 ∧
      Counts (fun mail => IsSpam model mail (model.sorted.take 300)) spamMails r.spam300 ∧
      Counts (fun mail => IsSpam model mail model.sorted) spamMails r.spamTotal) ∧
    ∀ order spamMails hamMails m printed, hamMails ≠ [] → spamMails ≠ [] →
      train order spamMails hamMails = .ok (m, printed) → Valid (load Rat.cast m) := by
  refine ⟨⟨afterSpam model spamMails (afterHam model hamMails {}), ?_, counts_add _ _,
    counts_add _ _, counts_add _ _, counts_add _ _, counts_add _ _, counts_add _ _,
    counts_add _ _, counts_add _ _⟩, ?_⟩
  · rw [apply, foldlM_applyHam hamMails h, ok_bind, foldlM_applySpam spamMails h]
  · intro order spamMails hamMails m printed hham hspam htrain
    exact valid_load hham hspam htrain

open Training (hello offer)

/-- One token, which only spam has. -/
noncomputable def sample : Model ℝ where
  priorHam := 1 / 2
  priorSpam := 1 / 2
  vocabulary := Dict.empty.update ⟨none, none⟩ (fun _ => ⟨some 0, some 1⟩) offer
  sorted := [(offer, ⟨some 0, some 1⟩)]

theorem valid_sample : Valid sample where
  priorHam := by norm_num [sample]
  priorSpam := by norm_num [sample]
  rates := by
    intro entry hentry
    obtain rfl := List.mem_singleton.mp hentry
    exact ⟨_, _, _, Dict.get?_update_self, rfl, rfl⟩

theorem counts_sample :
    ∃ r, apply (Real.logb 2) sample [[offer]] [[hello], []] = .ok r ∧
      Counts (fun mail => ¬ IsSpam sample mail (sample.sorted.take 100)) [[hello], []] r.ham100 ∧
      Counts (fun mail => ¬ IsSpam sample mail (sample.sorted.take 200)) [[hello], []] r.ham200 ∧
      Counts (fun mail => ¬ IsSpam sample mail (sample.sorted.take 300)) [[hello], []] r.ham300 ∧
      Counts (fun mail => ¬ IsSpam sample mail sample.sorted) [[hello], []] r.hamTotal ∧
      Counts (fun mail => IsSpam sample mail (sample.sorted.take 100)) [[offer]] r.spam100 ∧
      Counts (fun mail => IsSpam sample mail (sample.sorted.take 200)) [[offer]] r.spam200 ∧
      Counts (fun mail => IsSpam sample mail (sample.sorted.take 300)) [[offer]] r.spam300 ∧
      Counts (fun mail => IsSpam sample mail sample.sorted) [[offer]] r.spamTotal :=
  (counts_by_product_rule valid_sample [[offer]] [[hello], []]).1

end Hamster.Contract.NaiveBayes
