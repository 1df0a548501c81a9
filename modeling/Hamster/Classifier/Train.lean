import Hamster.Lib.Dictionary
import Hamster.Classifier.Chi
import Mathlib.Data.List.Sort

/-!
# Training

`train` up to the point where the model is written. A set is a list of its elements, and is
iterated in an order of its own. A key that is missing from a token's dictionary is `none`.
-/
namespace Hamster.Classifier.Train

open Lib.Dictionary Chi

abbrev Token := List Char

/-- The tokens of a mail, which is a set: only membership counts. -/
abbrev Mail := List Token

instance (token : Token) (mail : Mail) : Decidable (token ∈ mail) :=
  List.instDecidableMemOfLawfulBEq token mail

def isLetter (c : Char) : Bool := 'a' ≤ c && c ≤ 'z'

/-- `re.search("^[a-z]*$", token)`: `$` also matches in front of a last line feed. -/
def matchesLetters (token : Token) : Bool :=
  let rest := token.dropWhile isLetter
  rest = [] || rest = ['\n']

def subject : Token := ['s', 'u', 'b', 'j', 'e', 'c', 't']

def accepted (token : Token) : Bool := matchesLetters token && token ≠ subject

/-- The order in which a set is iterated. -/
structure SetOrder where
  iterate : List Token → List Token
  perm : ∀ s, (iterate s).Perm s

/-- `bagOfWords.add(token)` -/
def add (bag : List Token) (token : Token) : List Token :=
  if token ∈ bag then bag else bag ++ [token]

def addMails (bag : List Token) (mails : List Mail) : List Token :=
  mails.foldl (fun bag mail => mail.foldl add bag) bag

def bagOfWords (spamMails hamMails : List Mail) : List Token := addMails (addMails [] hamMails) spamMails

/-- The dictionary of a token. -/
structure Entry where
  hamOccurences : Option ℕ := none
  spamOccurences : Option ℕ := none
  total : Option ℕ := none
  pHam : Option ℚ := none
  pSpam : Option ℚ := none
  chi : Option ℚ := none
  deriving DecidableEq

namespace Entry

/-- `.get("ham_occurences", 0)` -/
def ham (e : Entry) : ℕ := e.hamOccurences.getD 0

def spam (e : Entry) : ℕ := e.spamOccurences.getD 0

def addHam (e : Entry) : Entry := { e with hamOccurences := some (e.ham + 1) }

def addSpam (e : Entry) : Entry := { e with spamOccurences := some (e.spam + 1) }

def setTotal (e : Entry) : Entry := { e with total := some (e.ham + e.spam) }

end Entry

abbrev Vocabulary := Dict Token Entry

/-- The round of the loop over `bagOfWords` for one token. -/
def countToken (spamMails hamMails : List Mail) (vocabulary : Vocabulary) (token : Token) :
    Vocabulary :=
  if accepted token then
    let vocabulary := hamMails.foldl (fun vocabulary mail =>
      if token ∈ mail then vocabulary.update {} Entry.addHam token else vocabulary) vocabulary
    let vocabulary := spamMails.foldl (fun vocabulary mail =>
      if token ∈ mail then vocabulary.update {} Entry.addSpam token else vocabulary) vocabulary
    vocabulary.update {} Entry.setTotal token
  else vocabulary

def countTokens (order : SetOrder) (spamMails hamMails : List Mail) : Vocabulary :=
  (order.iterate (bagOfWords spamMails hamMails)).foldl (countToken spamMails hamMails) .empty

/-- The round of the loop over the keys for one token, with the exception that ends it. -/
def scoreToken (spamMails hamMails : List Mail) (vocabulary : Vocabulary) (token : Token) :
    Vocabulary × Option Raised :=
  let e := (vocabulary.get? token).getD {}
  match div e.ham hamMails.length with
  | .error raised => (vocabulary, some raised)
  | .ok pHam =>
    let vocabulary := vocabulary.update {} ({ · with pHam := some pHam }) token
    match div e.spam spamMails.length with
    | .error raised => (vocabulary, some raised)
    | .ok pSpam =>
      let vocabulary := vocabulary.update {} ({ · with pSpam := some pSpam }) token
      match calculateChi e.ham e.spam (hamMails.length - e.ham) (spamMails.length - e.spam) with
      | .error raised => (vocabulary, some raised)
      | .ok chi => (vocabulary.update {} ({ · with chi := some chi }) token, none)

def scoreTokens (spamMails hamMails : List Mail) : List Token → Vocabulary →
    Vocabulary × Option Raised
  | [], vocabulary => (vocabulary, none)
  | token :: tokens, vocabulary =>
    match scoreToken spamMails hamMails vocabulary token with
    | (vocabulary, some raised) => (vocabulary, some raised)
    | (vocabulary, none) => scoreTokens spamMails hamMails tokens vocabulary

/-- The vocabulary, as far as it comes. -/
def buildVocabulary (order : SetOrder) (spamMails hamMails : List Mail) :
    Vocabulary × Option Raised :=
  let vocabulary := countTokens order spamMails hamMails
  scoreTokens spamMails hamMails vocabulary.keys vocabulary

abbrev Item := Token × Entry

/-- `sorted(…, key=lambda x: x[1]['chi'], reverse=True)` keeps the order of equal values. -/
def sortedVocabulary (items : List Item) : List Item :=
  items.insertionSort fun x y => y.2.chi.getD 0 ≤ x.2.chi.getD 0

def index (items : List Item) (i : ℕ) : Except Raised Item :=
  match items[i]? with
  | some item => .ok item
  | none => .error .indexError

/-- A loop over a hundred places, with what it prints. -/
def placements (items : List Item) (offset : ℕ) : Except Raised (List Item) :=
  (List.range 100).mapM fun i => index items (i + offset)

def report (items : List Item) : Except Raised (List Item) := do
  let first ← placements items 0
  let second ← placements items 100
  let third ← placements items 200
  let last ← index items 299
  return first ++ second ++ third ++ [last]

structure ClassifierModel where
  spamCount : ℕ
  hamCount : ℕ
  priorSpam : ℚ
  priorHam : ℚ
  vocabulary : Vocabulary
  first100 : List Item
  first200 : List Item
  first300 : List Item
  sorted : List Item

/-- What is written to `classifier.pkl`, and what is printed before. -/
def train (order : SetOrder) (spamMails hamMails : List Mail) :
    Except Raised (ClassifierModel × List Item) := do
  let spamCount := spamMails.length
  let hamCount := hamMails.length
  let priorSpam ← div spamCount (spamCount + hamCount)
  let priorHam ← div hamCount (spamCount + hamCount)
  match buildVocabulary order spamMails hamMails with
  | (_, some raised) => .error raised
  | (vocabulary, none) =>
    let sorted := sortedVocabulary vocabulary.items
    let printed ← report sorted
    return (⟨spamCount, hamCount, priorSpam, priorHam, vocabulary, sorted.take 100,
      sorted.take 200, sorted.take 300, sorted⟩, printed)

section Bag
variable {bag : List Token} {token t : Token}

theorem mem_add : t ∈ add bag token ↔ t ∈ bag ∨ t = token := by
  rw [add]
  split
  · rename_i h
    exact ⟨.inl, fun ht => ht.elim id fun he => he ▸ h⟩
  · rw [List.mem_append, List.mem_singleton]

theorem nodup_add (h : bag.Nodup) (token : Token) : (add bag token).Nodup := by
  rw [add]
  split
  · exact h
  · rename_i hmem
    rw [← List.concat_eq_append]
    exact h.concat hmem

theorem mem_foldl_add (mail : Mail) : t ∈ mail.foldl add bag ↔ t ∈ bag ∨ t ∈ mail := by
  induction mail generalizing bag with
  | nil => simp
  | cons token mail ih => rw [List.foldl_cons, ih, mem_add, List.mem_cons, or_assoc]

theorem nodup_foldl_add (h : bag.Nodup) (mail : Mail) : (mail.foldl add bag).Nodup := by
  induction mail generalizing bag with
  | nil => exact h
  | cons token mail ih => exact ih (nodup_add h token)

theorem mem_addMails (mails : List Mail) :
    t ∈ addMails bag mails ↔ t ∈ bag ∨ ∃ mail ∈ mails, t ∈ mail := by
  induction mails generalizing bag with
  | nil => simp [addMails]
  | cons mail mails ih =>
    have hrest : t ∈ addMails (mail.foldl add bag) mails ↔ _ := ih
    rw [addMails] at hrest ⊢
    rw [List.foldl_cons, hrest, mem_foldl_add, List.exists_mem_cons_iff, or_assoc]

theorem nodup_addMails (h : bag.Nodup) (mails : List Mail) : (addMails bag mails).Nodup := by
  induction mails generalizing bag with
  | nil => exact h
  | cons mail mails ih => exact ih (nodup_foldl_add h mail)

theorem mem_bagOfWords (spamMails hamMails : List Mail) :
    t ∈ bagOfWords spamMails hamMails ↔ ∃ mail ∈ hamMails ++ spamMails, t ∈ mail := by
  rw [bagOfWords, mem_addMails, mem_addMails]
  simp [or_and_right, exists_or]

theorem nodup_bagOfWords (spamMails hamMails : List Mail) :
    (bagOfWords spamMails hamMails).Nodup :=
  nodup_addMails (nodup_addMails List.nodup_nil hamMails) spamMails

end Bag

/-- The number of mails with this token. -/
def occurences (mails : List Mail) (token : Token) : ℕ := mails.countP (token ∈ ·)

/-- The dictionary of a token that is counted. -/
def counted (h s : ℕ) : Entry where
  hamOccurences := if h = 0 then none else some h
  spamOccurences := if s = 0 then none else some s
  total := some (h + s)

theorem ham_counted (h s : ℕ) : (counted h s).ham = h := by
  cases h <;> rfl

theorem spam_counted (h s : ℕ) : (counted h s).spam = s := by
  cases s <;> rfl

section Counting
variable (spamMails hamMails : List Mail) (token : Token)

theorem iterate_addHam (h : ℕ) :
    Entry.addHam^[h] {} = { hamOccurences := if h = 0 then none else some h } := by
  induction h with
  | zero => rfl
  | succ h ih =>
    rw [Function.iterate_succ_apply', ih]
    cases h <;> rfl

theorem iterate_addSpam (s : ℕ) (hamOccurences : Option ℕ) :
    Entry.addSpam^[s] { hamOccurences := hamOccurences } =
      { hamOccurences := hamOccurences, spamOccurences := if s = 0 then none else some s } := by
  induction s with
  | zero => rfl
  | succ s ih =>
    rw [Function.iterate_succ_apply', ih]
    cases s <;> rfl

theorem counted_eq (h s : ℕ) :
    ((Entry.setTotal ∘ Entry.addSpam^[s]) ∘ Entry.addHam^[h]) {} = counted h s := by
  rw [Function.comp_apply, Function.comp_apply, iterate_addHam, iterate_addSpam]
  cases h <;> cases s <;> rfl

theorem countToken_eq (vocabulary : Vocabulary) : countToken spamMails hamMails vocabulary token =
    if accepted token then vocabulary.update {} ((Entry.setTotal ∘
      Entry.addSpam^[occurences spamMails token]) ∘ Entry.addHam^[occurences hamMails token]) token
    else vocabulary := by
  rw [countToken]
  split
  · exact (Dict.update_foldl (token ∈ ·) spamMails).trans
      (Dict.update_foldl (token ∈ ·) hamMails)
  · rfl

/-- The counts are those of the mails with the token, whatever the order. -/
theorem get?_countTokens (order : SetOrder) : (countTokens order spamMails hamMails).get? token =
    if (∃ mail ∈ hamMails ++ spamMails, token ∈ mail) ∧ accepted token then
      some (counted (occurences hamMails token) (occurences spamMails token)) else none := by
  have hperm := order.perm (bagOfWords spamMails hamMails)
  have hnodup := hperm.nodup_iff.mpr (nodup_bagOfWords spamMails hamMails)
  have hround : countToken spamMails hamMails = fun vocabulary token =>
      if accepted token = true then vocabulary.update {} ((Entry.setTotal ∘
        Entry.addSpam^[occurences spamMails token]) ∘
        Entry.addHam^[occurences hamMails token]) token else vocabulary := by
    funext vocabulary token
    exact countToken_eq spamMails hamMails token vocabulary
  rw [countTokens, hround, Dict.get?_foldl_update (accepted · = true) _ hnodup]
  simp only [hperm.mem_iff, mem_bagOfWords, Dict.get?_empty, Option.getD_none, counted_eq]

end Counting

end Hamster.Classifier.Train
