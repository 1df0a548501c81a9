import Hamster.Contract.Integrity

/-!
# Accounts in closed form

However feedings and inquiries are split and ordered, and whatever happens in
between, an entry's stock and price depend on their totals only. The totals are
read off the history: a call counts for an entry when its id resolved to it.
-/
namespace Hamster.Contract.Ledger

open Lib.Bytes Lib.Clock Lib.Posix Lib.Runs Store Store.Entry Store.Library Store.Scans Asylum
open Integrity (alice bert)
open Timestamp (epoch)

def Present (o n : CString) (s : Session) : Prop :=
  ∃ h ∈ storeEntries s.world, byName o n h = true

/-- The first entry in file order with that uid is the one of `(o, n)`. -/
def resolves (w : World) (id : BitVec 32) (o n : CString) : Bool :=
  ((storeEntries w).find? (byId id)).any (byName o n)

/-- The treats one call asked for on behalf of `(o, n)`. -/
def fedBy (o n : CString) (e : Event Session Input Reply) : Nat :=
  match e.input.2 with
  | .givetreats id treats => if resolves e.before.world id o n then treats.toNat else 0
  | _ => 0

def askedBy (o n : CString) (e : Event Session Input Reply) : Nat :=
  match e.input.2 with
  | .howsdoing id => if resolves e.before.world id o n then 1 else 0
  | _ => 0

def feedings (o n : CString) (tr : List (Event Session Input Reply)) : Nat :=
  (tr.map (fedBy o n)).sum

def inquiries (o n : CString) (tr : List (Event Session Input Reply)) : Nat :=
  (tr.map (askedBy o n)).sum

section Step
variable {s t : Session} {a b : State} {o n : CString}

theorem resolves_of_represents (h : Represents s a) (id : BitVec 32) :
    resolves s.world id o n = (a.guests.find? (·.has id)).any (·.named o n) := by
  rw [resolves, storeEntries_of_represents h, find_entry (byId_entry id), Option.any_map]
  congr 1
  exact funext (byName_entry o n)

theorem present_iff (h : Represents s a) :
    Present o n s ↔ ∃ g ∈ a.guests, g.named o n = true := by
  simp only [Present, storeEntries_of_represents h, List.mem_map]
  constructor
  · rintro ⟨_, ⟨g, hg, rfl⟩, hn⟩
    exact ⟨g, hg, by rwa [byName_entry] at hn⟩
  · rintro ⟨g, hg, hn⟩
    exact ⟨_, ⟨g, hg, rfl⟩, by rwa [byName_entry]⟩

/-- The guest changes when the id resolves to it, and is kept otherwise. -/
theorem amended_guest {g : Guest} (hg : g ∈ a.guests) (hn : g.named o n = true)
    (id : BitVec 32) (f : Guest → Guest) :
    (if (a.guests.find? (·.has id)).any (·.named o n) then f g else g) ∈
      amendFirst id f a.guests := by
  cases hf : a.guests.find? (·.has id) with
  | none => rw [amendFirst_of_find hf]; simpa using hg
  | some x =>
    have hx := List.mem_of_find?_eq_some hf
    obtain ⟨pre, post, he, -, ham⟩ := amendFirst_split hf f
    rw [ham, Option.any_some]
    cases hxn : x.named o n with
    | true =>
      rw [eq_of_named hg hx hn hxn]
      simp
    | false =>
      have hne : g ≠ x := fun h => by rw [h, hxn] at hn; cases hn
      rw [he] at hg
      rcases List.mem_append.mp hg with hg | hg
      · exact List.mem_append_left _ hg
      · rcases List.mem_cons.mp hg with rfl | hg
        · exact absurd rfl hne
        · exact List.mem_append_right _ (List.mem_cons_of_mem _ hg)

/-- The account a guest carries after a call that leaves it registered. -/
theorem step_account {g : Guest} {e : Event Session Input Reply} (hs : Represents e.before a)
    (hstep : a.step e.input = some (e.output, b)) (hg : g ∈ a.guests) (hn : g.named o n = true)
    (hc : e.input.2 ≠ .collect (some o)) :
    { g with fed := g.fed + fedBy o n e, asked := g.asked + askedBy o n e } ∈ b.guests := by
  obtain ⟨s, ⟨now, c⟩, r⟩ := e
  have hguests := State.step_guests hstep
  have howner : g.owner.text = o := (Guest.named_iff.mp hn).1
  rw [hguests]
  cases c with
  | givetreats id treats =>
    have hmem := amended_guest hg hn id (·.feed treats)
    simp only [fedBy, askedBy, resolves_of_represents hs, Nat.add_zero]
    rw [effect]
    split
    · rename_i hres
      rwa [if_pos hres] at hmem
    · rename_i hres
      rwa [if_neg hres] at hmem
  | howsdoing id =>
    have hmem := amended_guest hg hn id Guest.ask
    simp only [fedBy, askedBy, resolves_of_represents hs, Nat.add_zero]
    rw [effect]
    split
    · rename_i hres
      rwa [if_pos hres] at hmem
    · rename_i hres
      rwa [if_neg hres] at hmem
  | new o' n' t =>
    rw [effect]
    rcases join_eq now o' n' t a.guests with he | ⟨_, _, he⟩
    · rw [he]
      exact hg
    · rw [he]
      exact List.mem_append_left _ hg
  | collect o' =>
    cases o' with
    | none => exact hg
    | some o' =>
      refine List.mem_filter.mpr ⟨hg, ?_⟩
      have hne : g.owner.text ≠ o' := fun he => hc (by rw [← he, howner])
      simpa using hne
  | lookup o' n' => exact hg
  | directory v o' n' => exact hg
  | readentry id => exact hg

end Step

/-- What is known at every event and at the end is known at the start. -/
theorem at_start {P : Session → Prop} {s t : Session} {tr : List (Event Session Input Reply)}
    (h : Runs s tr t) (hev : ∀ e ∈ tr, P e.before) (ht : P t) : P s := by
  cases h with
  | nil => exact ht
  | cons _ _ => exact hev _ List.mem_cons_self

theorem not_present_of_collect {a b : State} {now : Timestamp} {o n : CString} {r : Reply}
    {t : Session} (h : a.step (now, .collect (some o)) = some (r, b)) (ht : Represents t b) :
    ¬ Present o n t := by
  rw [present_iff ht, State.step_guests h]
  rintro ⟨g, hg, hn⟩
  simpa [(Guest.named_iff.mp hn).1] using List.of_mem_filter hg

theorem run_account {o n : CString} {s t : Session} {tr : List (Event Session Input Reply)}
    (h : Runs s tr t) (hev : ∀ e ∈ tr, Present o n e.before) (ht : Present o n t) :
    ∀ {a : State} {g : Guest}, Represents s a → g ∈ a.guests → g.named o n = true →
      ∃ b, Represents t b ∧
        { g with fed := g.fed + feedings o n tr, asked := g.asked + inquiries o n tr } ∈
          b.guests := by
  induction h with
  | nil s => exact fun ha hg _ => ⟨_, ha, by simpa [feedings, inquiries] using hg⟩
  | @cons s m t i r tr hstep hrest ih =>
    intro a g ha hg hn
    have hev' : ∀ e ∈ tr, Present o n e.before := fun e he => hev e (by simp [he])
    have hag := step_agree i ha
    rw [hstep] at hag
    obtain ⟨b, hb, hrep⟩ := hag.of_some
    have hc : i.2 ≠ .collect (some o) := by
      intro hc
      rw [show i = (i.1, .collect (some o)) by rw [← hc]] at hb
      exact not_present_of_collect hb hrep (at_start hrest hev' ht)
    have hacc := step_account (e := ⟨s, i, r⟩) ha hb hg hn hc
    obtain ⟨d, hd, hmem⟩ := ih hev' ht hrep hacc hn
    refine ⟨d, hd, ?_⟩
    simpa [feedings, inquiries, Nat.add_assoc] using hmem

/-- The account of every entry still there, from the treats it came with and the
calls its id resolved to since. -/
theorem account_ledger {s t : Session} (hs : s.Fresh)
    {before after : List (Event Session Input Reply)} {e : Event Session Input Reply}
    (hrun : Runs s (before ++ e :: after) t)
    {o n : CString} {stock : BitVec 16} (hnew : e.input.2 = .new o n stock)
    (hok : 0 ≤ e.output.ret.toInt)
    (hstill : ∀ x ∈ after, Present o n x.before) (hpresent : Present o n t) :
    ∀ h ∈ storeEntries t.world, byName o n h = true →
      h.treatsLeft.toNat = stock.toNat - feedings o n after ∧
      h.price = BitVec.ofNat 16
        (17 + inquiries o n after + 2 * (feedings o n after - stock.toNat)) := by
  obtain ⟨hpre, m, hstep, hrest⟩ := hrun.split_at
  obtain ⟨_, a, -, ha, -⟩ := reachable_represents hs hpre
  have hag := step_agree e.input ha
  rw [hstep] at hag
  obtain ⟨b, hb, hrep⟩ := hag.of_some
  rw [show e.input = (e.input.1, .new o n stock) by rw [← hnew]] at hb
  obtain ⟨-, ho, hn, hg⟩ := Integrity.new_guest hb hok
  have hgn : (Guest.arrival e.input.1 ⟨o, ho⟩ ⟨n, hn⟩ stock).named o n = true := by
    simp [Guest.named, Guest.arrival]
  obtain ⟨d, hd, hmem⟩ := run_account hrest hstill hpresent hrep hg hgn
  intro h hh hname
  rw [storeEntries_of_represents hd] at hh
  obtain ⟨g', hg', rfl⟩ := List.mem_map.mp hh
  rw [byName_entry] at hname
  have hsame := eq_of_named hg' hmem hname hgn
  subst hsame
  constructor
  · rw [Guest.toNat_treatsLeft, Guest.left]
    simp [Guest.arrival]
  · rw [Guest.entry_price, Guest.due]
    simp [Guest.arrival]

/-- Five treats brought, seven asked for. -/
theorem account_ledger_seven : ∃ s before e after t, Session.Fresh s ∧
    Runs s (before ++ e :: after) t ∧ feedings alice bert after = 7 ∧
    ∃ h ∈ storeEntries t.world, byName alice bert h = true ∧
      h.treatsLeft.toNat = 5 - 7 ∧ h.price = BitVec.ofNat 16 (17 + 0 + 2 * (7 - 5)) := by
  let guest : Guest := .arrival epoch ⟨alice, by decide⟩ ⟨bert, by decide⟩ 5
  have hplay : (play State.step .start [(epoch, .new alice bert 5)]).map
      (fun x => (x.1, x.2.guests)) = some ([⟨guest.uid, .none⟩], [guest]) := by decide +kernel
  obtain ⟨tr, m, a, hr, hi, ho, ha, hg⟩ := run_of_guests Session.fresh_initial hplay
  obtain ⟨e, rfl⟩ : ∃ e, tr = [e] := List.length_eq_one_iff.mp (by
    simpa [inputs] using congrArg List.length hi)
  have hin : e.input = (epoch, .new alice bert 5) := List.singleton_inj.mp hi
  have hout : e.output = ⟨guest.uid, .none⟩ := List.singleton_inj.mp ho
  have hmem : guest ∈ a.guests := by rw [hg]; exact List.mem_singleton.mpr rfl
  have hfound : a.guests.find? (·.has guest.uid) = some guest := by rw [hg]; decide +kernel
  have hnamed : guest.named alice bert = true := by decide +kernel
  let r := a.givetreats guest.uid 7
  have hb : a.step (epoch, .givetreats guest.uid 7) = some (r.1, r.2) := rfl
  have hag := step_agree (epoch, .givetreats guest.uid 7) ha
  rw [hb] at hag
  obtain ⟨t, hstep, ht⟩ := hag.of_some'
  have hres : resolves m.world guest.uid alice bert = true := by
    rw [resolves_of_represents ha, hfound, Option.any_some, hnamed]
  let x : Event Session Input Reply := ⟨m, (epoch, .givetreats guest.uid 7), r.1⟩
  have hfed : feedings alice bert [x] = 7 := by
    simp [feedings, fedBy, x, hres]
  have hasked : inquiries alice bert [x] = 0 := by
    simp [inquiries, askedBy, x]
  have hbefore : Present alice bert m :=
    (present_iff ha).mpr ⟨guest, hmem, hnamed⟩
  have hafter : Present alice bert t :=
    (present_iff ht).mpr ⟨_, step_account (e := x) ha hb hmem hnamed nofun, hnamed⟩
  have hrun : Runs .initial ([] ++ e :: [x]) t := hr.append (.single hstep)
  have hledger := account_ledger Session.fresh_initial hrun (by rw [hin])
    (by rw [hout]; decide +kernel) (by simpa using hbefore) hafter
  obtain ⟨h, hh, hname⟩ := hafter
  have haccount := hledger h hh hname
  rw [hfed, hasked] at haccount
  exact ⟨_, [], e, [x], t, Session.fresh_initial, hrun, hfed, h, hh, hname, haccount⟩

end Hamster.Contract.Ledger
