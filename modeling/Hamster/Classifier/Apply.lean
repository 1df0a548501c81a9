import Hamster.Classifier.Train

/-!
# Classifying mails

`apply` over any ordered field, with `math.log2` as a parameter. A mail is the set of its
tokens; its name is not used.
-/
namespace Hamster.Classifier.Apply

open Lib.Dictionary Chi Train

/-- What `apply` reads of the dictionary of a token. -/
structure Rates (α : Type) where
  pHam : Option α
  pSpam : Option α
  deriving DecidableEq

structure Model (α : Type) where
  priorHam : α
  priorSpam : α
  vocabulary : Dict Token (Rates α)
  sorted : List (Token × Rates α)

/-- The model that `train` has written. -/
def load {α : Type} (cast : ℚ → α) (m : ClassifierModel) : Model α where
  priorHam := cast m.priorHam
  priorSpam := cast m.priorSpam
  vocabulary := m.vocabulary.map fun e => ⟨e.pHam.map cast, e.pSpam.map cast⟩
  sorted := m.sorted.map fun item => (item.1, ⟨item.2.pHam.map cast, item.2.pSpam.map cast⟩)

/-- A pair of counters, such as `correctHam100` and `incorrectHam100`. -/
structure Tally where
  correct : ℕ := 0
  incorrect : ℕ := 0
  deriving DecidableEq

structure Results where
  total : ℕ := 0
  totalSpam : ℕ := 0
  totalHam : ℕ := 0
  ham100 : Tally := {}
  ham200 : Tally := {}
  ham300 : Tally := {}
  hamTotal : Tally := {}
  spam100 : Tally := {}
  spam200 : Tally := {}
  spam300 : Tally := {}
  spamTotal : Tally := {}
  deriving DecidableEq

def Tally.addCorrect (t : Tally) : Tally := { t with correct := t.correct + 1 }

def Tally.addIncorrect (t : Tally) : Tally := { t with incorrect := t.incorrect + 1 }

section Apply
variable {α : Type} [Field α] [LinearOrder α] (log2 : α → α) (model : Model α)

def epsilon : α := 1 / 10000

/-- `math.log2(x)` -/
def mathLog2 (x : α) : Except Raised α := if 0 < x then .ok (log2 x) else .error .valueError

/-- `self.model["vocabulary"][token][…]` -/
def lookup (token : Token) (field : Rates α → Option α) : Except Raised α :=
  match (model.vocabulary.get? token).bind field with
  | some p => .ok p
  | none => .error .keyError

/-- `sorted[i:j]` -/
def slice {β : Type} (l : List β) (i j : ℕ) : List β := (l.take j).drop i

/-- The round for one entry; the sums are `p_ham` and `p_spam`. -/
def addEntry (mail : Mail) (p : α × α) (entry : Token × Rates α) : Except Raised (α × α) := do
  let token := entry.1
  if token ∈ mail then
    let ham ← lookup model token Rates.pHam
    let ham ← mathLog2 log2 (max ham epsilon)
    let spam ← lookup model token Rates.pSpam
    let spam ← mathLog2 log2 (max spam epsilon)
    return (p.1 + ham, p.2 + spam)
  else
    let ham ← lookup model token Rates.pHam
    let ham ← mathLog2 log2 (max (1 - ham) epsilon)
    let spam ← lookup model token Rates.pSpam
    let spam ← mathLog2 log2 (max (1 - spam) epsilon)
    return (p.1 + ham, p.2 + spam)

def addEntries (mail : Mail) (entries : List (Token × Rates α)) (p : α × α) :
    Except Raised (α × α) := entries.foldlM (addEntry log2 model mail) p

/-- `p_ham` and `p_spam` behind the priors. -/
def priors : Except Raised (α × α) := do
  let ham ← mathLog2 log2 model.priorHam
  let spam ← mathLog2 log2 model.priorSpam
  return (0 + ham, 0 + spam)

/-- The round for a mail of `hamMails`. -/
def applyHam (r : Results) (mail : Mail) : Except Raised Results := do
  let r := { r with total := r.total + 1, totalHam := r.totalHam + 1 }
  let p ← priors log2 model
  let p ← addEntries log2 model mail (model.sorted.take 100) p
  let r := { r with ham100 :=
    if p.1 < p.2 then r.ham100.addIncorrect else r.ham100.addCorrect }
  let p ← addEntries log2 model mail (slice model.sorted 100 200) p
  let r := { r with ham200 :=
    if p.1 < p.2 then r.ham200.addIncorrect else r.ham200.addCorrect }
  let p ← addEntries log2 model mail (slice model.sorted 200 300) p
  let r := { r with ham300 :=
    if p.1 < p.2 then r.ham300.addIncorrect else r.ham300.addCorrect }
  let p ← addEntries log2 model mail (model.sorted.drop 300) p
  let r := { r with hamTotal :=
    if p.1 < p.2 then r.hamTotal.addIncorrect else r.hamTotal.addCorrect }
  return r

/-- The round for a mail of `spamMails`. -/
def applySpam (r : Results) (mail : Mail) : Except Raised Results := do
  let r := { r with total := r.total + 1, totalSpam := r.totalSpam + 1 }
  let p ← priors log2 model
  let p ← addEntries log2 model mail (model.sorted.take 100) p
  let r := { r with spam100 :=
    if p.1 < p.2 then r.spam100.addCorrect else r.spam100.addIncorrect }
  let p ← addEntries log2 model mail (slice model.sorted 100 200) p
  let r := { r with spam200 :=
    if p.1 < p.2 then r.spam200.addCorrect else r.spam200.addIncorrect }
  let p ← addEntries log2 model mail (slice model.sorted 200 300) p
  let r := { r with spam300 :=
    if p.1 < p.2 then r.spam300.addCorrect else r.spam300.addIncorrect }
  let p ← addEntries log2 model mail (model.sorted.drop 300) p
  let r := { r with spamTotal :=
    if p.1 < p.2 then r.spamTotal.addCorrect else r.spamTotal.addIncorrect }
  return r

/-- The results that are printed. -/
def apply (spamMails hamMails : List Mail) : Except Raised Results := do
  let r ← hamMails.foldlM (applyHam log2 model) {}
  spamMails.foldlM (applySpam log2 model) r

end Apply

end Hamster.Classifier.Apply
