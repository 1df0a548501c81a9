import Hamster.Contract.Ledger
import Hamster.Server.Handlers
import Hamster.Store.Outcomes

/-!
# The final bill

What an owner owes is read off the history with unbounded numbers. A collection
returns just that as long as each price fits its sixteen bits and each stay and
the total fit an `int`; otherwise the difference never makes up for itself.
-/
namespace Hamster.Contract.Billing

open Lib.Bytes Lib.Clock Lib.Memory Lib.Posix Lib.Runs Store Store.Entry Store.Library Store.Scans
  Store.CollectScan Store.Amounts Store.Outcomes Asylum Server.Messages Server.Handlers
open Ledger (fedBy askedBy)
open Integrity (alice bert)
open Timestamp (epoch)

/-- What is known of a hamster's expenses. -/
structure Account where
  stock : Nat
  fed : Nat
  asked : Nat

/-- Admission, inquiries, and the treats beyond the stock. -/
def Account.due (x : Account) : Nat := 17 + x.asked + 2 * (x.fed - x.stock)

/-- The treats `(o, n)` brings along if the call admits it. -/
def admittedBy (o n : CString) (e : Event Session Input Reply) : Option Nat :=
  match e.input.2 with
  | .new o' n' treats =>
      if o' = o ∧ n' = n ∧ 0 ≤ e.output.ret.toInt then some treats.toNat else none
  | _ => none

/-- An admission opens the account; feedings and inquiries are added. -/
def Account.after (o n : CString) (x : Account) (e : Event Session Input Reply) : Account :=
  match admittedBy o n e with
  | some treats => ⟨treats, 0, 0⟩
  | none => { x with fed := x.fed + fedBy o n e, asked := x.asked + askedBy o n e }

def account (o n : CString) (tr : List (Event Session Input Reply)) : Account :=
  tr.foldl (Account.after o n) ⟨0, 0, 0⟩

/-- Wheel revolutions since the admission, whatever their number. -/
def exactRounds (now : Timestamp) (h : Hamsterdesc) : Nat :=
  (((now.micros : Int) - (h.admissionTime.tvSec.toInt * 1000000 + h.admissionTime.tvUsec.toInt)) /
    1000000).toNat * hmstrRpm / 60

def exactCharge (tr : List (Event Session Input Reply)) (now : Timestamp) (h : Hamsterdesc) : Nat :=
  (account h.ownerStr h.nameStr tr).due + 5 * exactRounds now h / 1000

def exactBill (tr : List (Event Session Input Reply)) (now : Timestamp) (o : CString)
    (hs : List Hamsterdesc) : Nat :=
  ((owned o hs).map (exactCharge tr now)).sum

/-- The collection returns the amount, and the server sends it in a reply. -/
def Bills (w : World) (o : CString) (amount : Nat) : Prop :=
  ∃ ret w', hmstrCollect w (some o) = some (ret, w') ∧ ret.toInt = amount ∧ 0 ≤ ret.toInt ∧
    ∀ payloadStream sendBuffer sendHeader junk, nameArg payloadStream 0 junk.behindOwner = o →
      handleCollect w payloadStream sendBuffer sendHeader junk =
        some (ret, poke sendBuffer 0 (headerBytes sendHeader ++ beBytes 4 ret.toNat), w')

/-- The clock is not behind an admission, each price without its stay fits the
field, and each stay and the total fit an `int`. -/
structure Payable (tr : List (Event Session Input Reply)) (now : Timestamp) (o : CString)
    (hs : List Hamsterdesc) : Prop where
  inOrder : ∀ h ∈ owned o hs, ¬ Premature now h
  price : ∀ h ∈ owned o hs, (account h.ownerStr h.nameStr tr).due ≤ 32767
  stay : ∀ h ∈ owned o hs, 5 * exactRounds now h < 2 ^ 31
  total : exactBill tr now o hs < 2 ^ 31

section Accounts
variable {s t : Session} {a b : State}

/-- The account a guest carries. -/
def accountOf (g : Guest) : Account := ⟨g.stock.toNat, g.fed, g.asked⟩

/-- Who was not admitted just now was there before. -/
theorem member_before {e : Event Session Input Reply} {g : Guest}
    (hstep : a.step e.input = some (e.output, b)) (hg : g ∈ b.guests)
    (hno : admittedBy g.owner.text g.name.text e = none) : ∃ x ∈ a.guests, x.key = g.key := by
  obtain ⟨s, ⟨now, c⟩, r⟩ := e
  have hguests := State.step_guests hstep
  rw [hguests] at hg
  have hamend (id : BitVec 32) (f : Guest → Guest) (hf : ∀ x, (f x).key = x.key)
      (hm : g ∈ amendFirst id f a.guests) : ∃ x ∈ a.guests, x.key = g.key := by
    rcases State.mem_amendFirst hm with hg | ⟨x, hx, rfl⟩
    · exact ⟨g, hg, rfl⟩
    · exact ⟨x, hx, (hf x).symm⟩
  cases c with
  | new o n t =>
    rw [← hguests] at hg
    have hnew : a.new now o n t = (r, b) := Option.some.inj hstep
    have hspec := State.new_spec a now o n t
    rw [hnew] at hspec
    rcases hspec with ⟨ho, hn, hret, hgs⟩ | ⟨-, hgs⟩
    · rw [hgs] at hg
      rcases List.mem_append.mp hg with hg | hg
      · exact ⟨g, hg, rfl⟩
      · obtain rfl := List.mem_singleton.mp hg
        have hpos : 0 ≤ r.ret.toInt := hret ▸ makeHash_nonneg o n
        simp [admittedBy, Guest.arrival, hpos] at hno
    · exact ⟨g, hgs ▸ hg, rfl⟩
  | givetreats id t => exact hamend id (·.feed t) (fun _ => rfl) hg
  | howsdoing id => exact hamend id Guest.ask (fun _ => rfl) hg
  | collect o =>
    cases o with
    | none => exact ⟨g, hg, rfl⟩
    | some o => exact ⟨g, List.mem_of_mem_filter hg, rfl⟩
  | lookup o n => exact ⟨g, hg, rfl⟩
  | directory v o n => exact ⟨g, hg, rfl⟩
  | readentry id => exact ⟨g, hg, rfl⟩

theorem named_self (g : Guest) : g.named g.owner.text g.name.text = true :=
  Guest.named_iff.mpr ⟨rfl, rfl⟩

/-- One call leaves every guest with the account that counts it. -/
theorem step_accounts {e : Event Session Input Reply} (hs : Represents e.before a)
    (hstep : a.step e.input = some (e.output, b)) {A : CString → CString → Account}
    (hA : ∀ g ∈ a.guests, A g.owner.text g.name.text = accountOf g) :
    ∀ g ∈ b.guests, (A g.owner.text g.name.text).after g.owner.text g.name.text e =
      accountOf g := by
  intro g hg
  cases had : admittedBy g.owner.text g.name.text e with
  | some treats =>
    simp only [Account.after, had]
    obtain ⟨s, ⟨now, c⟩, r⟩ := e
    unfold admittedBy at had
    split at had
    · rename_i o n t hc
      cases hc
      split at had
      · rename_i hcond
        obtain ⟨rfl, rfl, hpos⟩ := hcond
        obtain ⟨-, ho, hn, hmem⟩ := Integrity.new_guest hstep hpos
        have hsame := eq_of_named hg hmem (named_self g) (named_self _)
        rw [hsame, ← Option.some.inj had]
        rfl
      · cases had
    · cases had
  | none =>
    obtain ⟨x, hx, hkey⟩ := member_before hstep hg had
    have hnamed : x.named g.owner.text g.name.text = true := by
      rw [Guest.named_iff]
      exact ⟨congrArg Name.text (Prod.mk.inj hkey).1, congrArg Name.text (Prod.mk.inj hkey).2⟩
    have hc : e.input.2 ≠ .collect (some g.owner.text) := by
      intro hc
      rw [State.step_guests (show a.step (e.input.1, e.input.2) = some (e.output, b) from hstep),
        hc] at hg
      simpa using List.of_mem_filter hg
    have hmem := Ledger.step_account hs hstep hx hnamed hc
    have hsame := eq_of_named hg hmem (named_self g) hnamed
    have hold := hA x hx
    rw [(Guest.named_iff.mp hnamed).1, (Guest.named_iff.mp hnamed).2] at hold
    simp only [Account.after, had, hold]
    exact (congrArg accountOf hsame).symm

theorem run_accounts {tr : List (Event Session Input Reply)} (h : Runs s tr t) :
    ∀ {a : State} {A : CString → CString → Account}, Represents s a →
      (∀ g ∈ a.guests, A g.owner.text g.name.text = accountOf g) →
      ∃ b, play State.step a (inputs tr) = some (outputs tr, b) ∧ Represents t b ∧
        ∀ g ∈ b.guests, tr.foldl (Account.after g.owner.text g.name.text)
          (A g.owner.text g.name.text) = accountOf g := by
  induction h with
  | nil s => exact fun ha hA => ⟨_, rfl, ha, hA⟩
  | @cons s m t i r tr hstep _ ih =>
    intro a A ha hA
    have hag := step_agree i ha
    rw [hstep] at hag
    obtain ⟨b, hb, hrep⟩ := hag.of_some
    obtain ⟨d, hplay, hd, hacc⟩ := ih (A := fun o n => (A o n).after o n ⟨s, i, r⟩) hrep
      (step_accounts (e := ⟨s, i, r⟩) ha hb hA)
    refine ⟨d, ?_, hd, hacc⟩
    simp only [inputs, outputs, List.map_cons, play] at hplay ⊢
    rw [hb, Option.bind_some, hplay]
    rfl

/-- Every guest carries the account of its history. -/
theorem reachable_accounts {tr : List (Event Session Input Reply)} (hs : s.Fresh)
    (h : Runs s tr t) : ∃ b, play State.step .start (inputs tr) = some (outputs tr, b) ∧
      Represents t b ∧ ∀ g ∈ b.guests, account g.owner.text g.name.text tr = accountOf g :=
  run_accounts h (A := fun _ _ => ⟨0, 0, 0⟩) (represents_start hs) fun _ hg =>
    absurd hg List.not_mem_nil

end Accounts

section Gaps

theorem price_gap (d : Nat) : 0 ≤ (d : Int) - (BitVec.ofNat 16 d).toInt ∧
    (d : Int) - (BitVec.ofNat 16 d).toInt ≤ 2 * d ∧
    ((d : Int) - (BitVec.ofNat 16 d).toInt = 0 ↔ d ≤ 32767) := by
  rw [BitVec.toInt_ofNat', Int.bmod_def]
  omega

variable {g : Guest} {now : Timestamp}

theorem toInt_ofNat_of_small {x : Nat} (h : x < 2 ^ 63) : (BitVec.ofNat 64 x).toInt = x := by
  rw [BitVec.toInt_ofNat', Int.bmod_def]
  omega

theorem exactRounds_entry (h : g.admitted ≤ now) :
    exactRounds now g.entry = g.admitted.secondsUntil now * 25 / 60 := by
  have hsec : g.entry.admissionTime.tvSec.toInt = g.admitted.sec :=
    toInt_ofNat_of_small g.admitted.sec_lt
  have husec : g.entry.admissionTime.tvUsec.toInt = g.admitted.usec :=
    toInt_ofNat_of_small (g.admitted.usec_lt.trans (by decide))
  have hdiff : (now.micros : Int) - (g.admitted.sec * 1000000 + g.admitted.usec) =
      ((now.micros - g.admitted.micros : Nat) : Int) := by
    rw [Timestamp.le_def] at h
    rw [Nat.cast_sub h, Timestamp.micros, Timestamp.micros]
    push_cast
    ring
  rw [exactRounds, hsec, husec, hdiff, Timestamp.secondsUntil, hmstrRpm]
  generalize now.micros - g.admitted.micros = x
  omega

/-- The library finds the rounds modulo `2 ^ 32`, if they were not too many for the
product in 64 bits. -/
theorem getRounds_of_small (h : g.admitted ≤ now)
    (hsmall : g.admitted.secondsUntil now * 25 < 2 ^ 63) :
    getRounds now g.entry.admissionTime = some (BitVec.ofNat 32 (exactRounds now g.entry)) := by
  rw [Guest.entry_admissionTime, getRounds_of_seconds (timersub_sec_of_le h) hsmall,
    exactRounds_entry h]

/-- What the stay is short of its exact amount. -/
theorem stay_gap (h : g.admitted ≤ now) :
    let exact := 5 * exactRounds now g.entry / 1000
    let found := stay ((getRounds now g.entry.admissionTime).getD 0)
    0 ≤ (exact : Int) - found ∧ (exact : Int) - found ≤ 2 * exact ∧
      ((exact : Int) - found = 0 ↔ 5 * exactRounds now g.entry < 2 ^ 31) := by
  intro exact found
  by_cases hsmall : g.admitted.secondsUntil now * 25 < 2 ^ 63
  · have hfound : found = stay (BitVec.ofNat 32 (exactRounds now g.entry)) := by
      simp only [found, getRounds_of_small h hsmall, Option.getD_some]
    rw [hfound]
    exact stay_ofNat _
  · have hrange := stay_range ((getRounds now g.entry.admissionTime).getD 0)
    have hmany := exactRounds_entry h
    simp only [exact, found]
    omega

/-- What an entry adds to the sum is short of its exact charge. -/
theorem charge_gap (h : g.admitted ≤ now) :
    let exact := g.due + 5 * exactRounds now g.entry / 1000
    0 ≤ (exact : Int) - amount now g.entry ∧ (exact : Int) - amount now g.entry ≤ 2 * exact ∧
      ((exact : Int) - amount now g.entry = 0 ↔
        g.due ≤ 32767 ∧ 5 * exactRounds now g.entry < 2 ^ 31) := by
  intro exact
  have hprice := price_gap g.due
  have hstay := stay_gap h
  simp only [exact, amount, Guest.entry_price]
  push_cast at *
  omega

end Gaps

section Sum
variable {now : Timestamp}

/-- The shortfalls add up and never make up for each other. -/
theorem sum_gap {gs : List Guest} (h : ∀ g ∈ gs, g.admitted ≤ now) :
    let exact := (gs.map fun g => g.due + 5 * exactRounds now g.entry / 1000).sum
    let found := (gs.map fun g => amount now g.entry).sum
    0 ≤ (exact : Int) - found ∧ (exact : Int) - found ≤ 2 * exact ∧
      ((exact : Int) - found = 0 ↔
        ∀ g ∈ gs, g.due ≤ 32767 ∧ 5 * exactRounds now g.entry < 2 ^ 31) := by
  induction gs with
  | nil => simp
  | cons g gs ih =>
    have hfirst := charge_gap (h g List.mem_cons_self)
    have hrest := ih fun x hx => h x (List.mem_cons_of_mem g hx)
    simp only [List.map_cons, List.sum_cons, List.forall_mem_cons] at hfirst hrest ⊢
    rw [← hfirst.2.2, ← hrest.2.2]
    push_cast at *
    omega

/-- A word holds a sum it is not too short for, and no other. -/
theorem bmod_eq_iff {exact : Nat} {found : Int} (h : 0 ≤ (exact : Int) - found)
    (h' : (exact : Int) - found ≤ 2 * exact) :
    found.bmod (2 ^ 32) = exact ↔ exact < 2 ^ 31 ∧ (exact : Int) - found = 0 := by
  rw [Int.bmod_def]
  omega

end Sum

theorem premature_entry (now : Timestamp) (g : Guest) :
    Premature now g.entry ↔ ¬ g.admitted ≤ now := timersub_sec_neg_iff g.admitted now

/-- The reply follows from the result. -/
theorem bills_iff (w : World) (o : CString) (amount : Nat) : Bills w o amount ↔
    ((Call.collect (some o)).exec w).map (·.1.ret.toInt) = some (amount : Int) := by
  rw [exec_collect, Option.map_map]
  constructor
  · rintro ⟨ret, w', hcol, hamount, -⟩
    rw [hcol]
    exact congrArg some hamount
  · intro h
    obtain ⟨⟨ret, w'⟩, hcol, hamount⟩ := Option.map_eq_some_iff.mp h
    have hpos : 0 ≤ ret.toInt := by
      rw [show ret.toInt = amount from hamount]
      exact Int.natCast_nonneg _
    refine ⟨ret, w', hcol, hamount, hpos, ?_⟩
    intro payloadStream sendBuffer sendHeader junk hname
    simp only [handleCollect, executeCollect, hname, hcol, Option.map_some, answer, hpos, ↓reduceIte,
      encodeReplyCollect, encodeReturn_eq]

/-- What a collection that finds something returns, as a number. -/
theorem collect_toInt {w : World} (hw : Settled w) {o : CString} (hl : tooLong o = false)
    (howns : owned o (storeEntries w) ≠ []) :
    ((Call.collect (some o)).exec w).map (·.1.ret.toInt) =
      (charges w.now o (storeEntries w)).map fun _ =>
        (owed w.now o (storeEntries w)).bmod (2 ^ 32) := by
  have hret := congrArg (Option.map BitVec.toInt) (collect_ret hw hl)
  rw [Option.map_map] at hret
  refine Eq.trans hret ?_
  cases hn : w.names .datafile with
  | none => exact absurd (by rw [storeEntries_absent hn]; rfl) howns
  | some ino =>
    dsimp only
    cases hc : charges w.now o (storeEntries w) with
    | none => rfl
    | some cs =>
      simp only [Option.map_some, if_neg howns]
      rw [sum_charges hc, BitVec.toInt_ofInt]

/-- An owner with a guest has a name that is short enough. -/
theorem tooLong_of_ownedBy {o : CString} {gs : List Guest} (h : ownedBy o gs ≠ []) :
    tooLong o = false := by
  obtain ⟨g, hg⟩ := List.exists_mem_of_ne_nil _ h
  have ho : g.owner.text = o := by simpa using List.of_mem_filter hg
  rw [tooLong_eq_false_iff, ← ho]
  exact g.owner.short

/-- The history's bill in terms of the guests it leaves. -/
theorem exactBill_guests {tr : List (Event Session Input Reply)} {gs : List Guest}
    (hacc : ∀ g ∈ gs, account g.owner.text g.name.text tr = accountOf g) (now : Timestamp)
    (o : CString) : exactBill tr now o (gs.map Guest.entry) =
      ((ownedBy o gs).map fun g => g.due + 5 * exactRounds now g.entry / 1000).sum := by
  rw [exactBill, owned_entry, List.map_map]
  refine congrArg List.sum (List.map_congr_left fun g hg => ?_)
  rw [Function.comp_apply, exactCharge, Guest.ownerStr_entry, Guest.nameStr_entry,
    hacc g (List.mem_of_mem_filter hg)]
  rfl

theorem payable_guests {tr : List (Event Session Input Reply)} {gs : List Guest}
    (hacc : ∀ g ∈ gs, account g.owner.text g.name.text tr = accountOf g) (now : Timestamp)
    (o : CString) : Payable tr now o (gs.map Guest.entry) ↔
      (∀ g ∈ ownedBy o gs, g.admitted ≤ now) ∧
      (∀ g ∈ ownedBy o gs, g.due ≤ 32767 ∧ 5 * exactRounds now g.entry < 2 ^ 31) ∧
      exactBill tr now o (gs.map Guest.entry) < 2 ^ 31 := by
  have hdue : ∀ g ∈ ownedBy o gs, (account g.entry.ownerStr g.entry.nameStr tr).due = g.due := by
    intro g hg
    rw [Guest.ownerStr_entry, Guest.nameStr_entry, hacc g (List.mem_of_mem_filter hg)]
    rfl
  constructor
  · intro h
    have hmem : ∀ g ∈ ownedBy o gs, g.entry ∈ owned o (gs.map Guest.entry) := fun g hg => by
      rw [owned_entry]
      exact List.mem_map_of_mem hg
    refine ⟨fun g hg => ?_, fun g hg => ⟨?_, h.stay _ (hmem g hg)⟩, h.total⟩
    · exact not_not.mp ((premature_entry now g).not.mp (h.inOrder _ (hmem g hg)))
    · rw [← hdue g hg]
      exact h.price _ (hmem g hg)
  · rintro ⟨horder, hfits, htotal⟩
    have hall {P : Hamsterdesc → Prop} (hP : ∀ g ∈ ownedBy o gs, P g.entry) :
        ∀ h ∈ owned o (gs.map Guest.entry), P h := by
      rw [owned_entry]
      exact List.forall_mem_map.mpr hP
    exact ⟨hall fun g hg => (premature_entry now g).not.mpr (not_not.mpr (horder g hg)),
      hall fun g hg => (hdue g hg).trans_le (hfits g hg).1,
      hall fun g hg => (hfits g hg).2, htotal⟩

/-- After any history and for every owner who has a hamster: the collection
returns what the history demands, and the server says so, exactly if it is
payable. -/
theorem bill_exact_iff {s t : Session} {tr : List (Event Session Input Reply)} (hs : s.Fresh)
    (hr : Runs s tr t) (now : Timestamp) (o : CString)
    (howns : owned o (storeEntries t.world) ≠ []) :
    Bills (t.clockAt now) o (exactBill tr now o (storeEntries t.world)) ↔
      Payable tr now o (storeEntries t.world) := by
  obtain ⟨b, -, hb, hacc⟩ := reachable_accounts hs hr
  have hw : Settled (t.clockAt now) := settled_of_represents (hb.clockAt now)
  have hsame : storeEntries (t.clockAt now) = b.guests.map Guest.entry :=
    storeEntries_of_represents (s := ⟨t.clockAt now, t.handle⟩) (hb.clockAt now)
  have hstore : storeEntries t.world = b.guests.map Guest.entry := storeEntries_of_represents hb
  rw [hstore] at howns ⊢
  have hguests : ownedBy o b.guests ≠ [] := by
    rw [owned_entry] at howns
    exact fun h => howns (by rw [h]; rfl)
  have hcol := collect_toInt hw (tooLong_of_ownedBy hguests) (by rw [hsame]; exact howns)
  have hnow : (t.clockAt now).now = now := rfl
  rw [hsame, hnow] at hcol
  rw [bills_iff, hcol, payable_guests hacc]
  by_cases horder : ∀ g ∈ ownedBy o b.guests, g.admitted ≤ now
  · obtain ⟨cs, hcs⟩ := State.mapM_bill_isSome horder
    rw [charges_entry, hcs, Option.map_some, Option.some.injEq, and_iff_right horder]
    have hsum := sum_gap horder
    rw [← exactBill_guests hacc] at hsum
    have howed : owed now o (b.guests.map Guest.entry) =
        ((ownedBy o b.guests).map fun g => amount now g.entry).sum := by
      rw [owed, owned_entry, List.map_map]
      rfl
    rw [howed, bmod_eq_iff hsum.1 hsum.2.1, hsum.2.2, and_comm]
  · refine iff_of_false (fun h => ?_) fun h => horder h.1
    obtain ⟨_, hcs, -⟩ := Option.map_eq_some_iff.mp h
    refine horder fun g hg => ?_
    by_contra hlate
    have hnone : charges now o (b.guests.map Guest.entry) = none := by
      refine charges_eq_none_iff.mpr ⟨g.entry, ?_, (premature_entry now g).mpr hlate⟩
      rw [owned_entry]
      exact List.mem_map_of_mem hg
    rw [hnone] at hcs
    cases hcs

/-- `treats` are asked for at once on behalf of a hamster that brought `stock`. -/
def feast (stock treats : BitVec 16) : List Input :=
  [(epoch, .new alice bert stock), (epoch, .givetreats (makeHash alice bert) treats)]

/-- What the guest has become. -/
def feasted (stock treats : BitVec 16) : Guest :=
  ⟨⟨alice, by decide⟩, ⟨bert, by decide⟩, epoch, stock, treats.toNat, 0⟩

/-- Two treats beyond the stock come to 21. -/
theorem bill_of_seven_treats : ∃ tr t, Runs .initial tr t ∧ inputs tr = feast 5 7 ∧
    Bills (t.clockAt epoch) alice 21 := by
  have hplay : (play State.step .start (feast 5 7)).map (fun x => (x.1, x.2.guests)) =
      some ([⟨makeHash alice bert, .none⟩, ⟨0, .none⟩], [feasted 5 7]) := by decide +kernel
  obtain ⟨tr, t, a, hr, hi, -, ha, hg⟩ := run_of_guests Session.fresh_initial hplay
  have hstore : storeEntries t.world = [(feasted 5 7).entry] := by
    rw [storeEntries_of_represents ha, hg]
    rfl
  obtain ⟨b, hb, -, hacc⟩ := reachable_accounts Session.fresh_initial hr
  rw [hi] at hb
  rw [hb] at hplay
  have hguests : b.guests = [feasted 5 7] := (Prod.mk.inj (Option.some.inj hplay)).2
  rw [hguests] at hacc
  have hexact : exactBill tr epoch alice (storeEntries t.world) = 21 := by
    rw [hstore]
    exact (exactBill_guests hacc epoch alice).trans (by decide +kernel)
  have hpay : Payable tr epoch alice (storeEntries t.world) := by
    rw [hstore]
    refine (payable_guests hacc epoch alice).mpr ⟨by decide +kernel, by decide +kernel, ?_⟩
    rw [exactBill_guests hacc]
    decide +kernel
  have hbill := (bill_exact_iff Session.fresh_initial hr epoch alice
    (by rw [hstore]; decide +kernel)).mpr hpay
  rw [hexact] at hbill
  exact ⟨tr, t, hr, hi, hbill⟩

/-- The price of 32769 is stored as `-32767`, and the collection that has deleted the
hamster returns that. -/
theorem bill_below_zero : ∃ tr t, Runs .initial tr t ∧ inputs tr = feast 0 16376 ∧
    ((Call.collect (some alice)).exec (t.clockAt epoch)).map (·.1.ret.toInt) = some (-32767) ∧
    ¬ Bills (t.clockAt epoch) alice (exactBill tr epoch alice (storeEntries t.world)) := by
  have hplay : (play State.step .start (feast 0 16376)).map (fun x => (x.1, x.2.guests)) =
      some ([⟨makeHash alice bert, .none⟩, ⟨0, .none⟩], [feasted 0 16376]) := by decide +kernel
  obtain ⟨tr, t, a, hr, hi, -, ha, hg⟩ := run_of_guests Session.fresh_initial hplay
  have hstore : storeEntries (t.clockAt epoch) = [(feasted 0 16376).entry] := by
    rw [storeEntries_of_represents (s := ⟨t.clockAt epoch, t.handle⟩) (ha.clockAt epoch), hg]
    rfl
  have hcol := collect_toInt (settled_of_represents (ha.clockAt epoch)) (o := alice) (by decide)
    (by rw [hstore]; decide +kernel)
  have hcharges : charges epoch alice [(feasted 0 16376).entry] = some [-32767] := by decide +kernel
  have hret : ((Call.collect (some alice)).exec (t.clockAt epoch)).map (·.1.ret.toInt) =
      some (-32767) := by
    refine hcol.trans ?_
    rw [hstore, show (t.clockAt epoch).now = epoch from rfl, hcharges]
    decide +kernel
  refine ⟨tr, t, hr, hi, hret, fun hbill => ?_⟩
  have h := (bills_iff ..).mp hbill
  rw [hret] at h
  have hneg : (-32767 : Int) = _ := Option.some.inj h
  omega

end Hamster.Contract.Billing
