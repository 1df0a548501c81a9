import Hamster.Asylum.Refinement
import Hamster.Asylum.Steps
import Hamster.Store.Amounts

/-!
# The database stays well formed

From a fresh start the database is, after every call, a whole number of entries
with distinct keys and matching ids, and an id handed out at admission is what
lookups return until the owner collects. `HMSTR_ERR_CORRUPT` is returned all the
same when a bill happens to come to that number, and in no other case.
-/
namespace Hamster.Contract.Integrity

open Lib.Bytes Lib.Clock Lib.Posix Lib.Runs Store Store.Entry Store.Library Store.CollectScan
  Store.Amounts Asylum

/-- A field that holds a short name, padded with zeros. -/
def HoldsName (f : NameField) : Prop := ∃ s : CString, s.strlen ≤ 31 ∧ f.val = s.pad 32

structure WellFormed (h : Hamsterdesc) : Prop where
  owner : HoldsName h.owner
  name : HoldsName h.name
  uid : h.uid = makeHash h.ownerStr h.nameStr
  uid_range : 0 ≤ h.uid.toInt ∧ h.uid.toInt ≤ 2 ^ 31 - 1

structure Intact (w : World) : Prop where
  intermediate : w.content .intermediateFile = none
  whole : ∀ c ∈ w.content .datafile, sizeofHamsterdesc ∣ c.length
  distinct : ∀ c ∈ w.content .datafile,
    ((entries c).map fun h => (h.ownerStr, h.nameStr)).Nodup
  wellFormed : ∀ c ∈ w.content .datafile, ∀ h ∈ entries c, WellFormed h

/-- An id handed out at admission is what lookups return until the owner collects. -/
def LookupsStable (tr : List (Event Session Input Reply)) : Prop :=
  ∀ pre mid post e f o n treats, tr = pre ++ e :: (mid ++ f :: post) →
    e.input.2 = .new o n treats → 0 ≤ e.output.ret.toInt →
    (∀ x ∈ mid, x.input.2 ≠ .collect (some o)) →
    f.input.2 = .lookup (some o) (some n) → f.output.ret = e.output.ret

structure Sound (s : Session) (tr : List (Event Session Input Reply)) : Prop where
  intact : ∀ tr₁ tr₂ t, tr = tr₁ ++ tr₂ → Runs s tr₁ t → Intact t.world
  lookups : LookupsStable tr
  never_corrupt : ∀ e ∈ tr, e.output.ret ≠ hmstrErrCorrupt

/-- A collection whose owner's prices and stays add up, in 32 bits, to the
number that also means a corrupt database. -/
def BillMeansCorrupt (e : Event Session Input Reply) : Prop :=
  ∃ o c, e.input.2 = .collect (some o) ∧ e.before.world.content .datafile = some c ∧
    (owed e.input.1 o (entries c)).bmod (2 ^ 32) = -101

theorem holdsName (s : Name) : HoldsName (nameField s.text) :=
  ⟨s.text, s.short, Guest.val_nameField s.short⟩

theorem wellFormed_entry (g : Guest) : WellFormed g.entry where
  owner := holdsName g.owner
  name := holdsName g.name
  uid := by rw [Guest.entry_uid, Guest.uid, Guest.ownerStr_entry, Guest.nameStr_entry]
  uid_range := by
    have h := (g.uid).toInt_lt
    exact ⟨makeHash_nonneg _ _, by rw [Guest.entry_uid]; omega⟩

theorem intact_of_represents {s : Session} {a : State} (h : Represents s a) : Intact s.world := by
  have hcont := content_of_represents h
  have himage : ∀ c ∈ s.world.content .datafile, c = image (a.guests.map Guest.entry) := by
    intro c hc
    rw [hcont] at hc
    obtain ⟨_, -, rfl⟩ := Option.map_eq_some_iff.mp hc
    rfl
  constructor
  · rw [Sys.content, h.intermediate]
    rfl
  · intro c hc
    rw [himage c hc, length_image]
    exact Dvd.intro _ rfl
  · intro c hc
    have hkeys : (a.guests.map fun g => (g.owner.text, g.name.text)) =
        (a.guests.map Guest.key).map fun k => (k.1.text, k.2.text) := by
      rw [List.map_map]; rfl
    have hnodup : (a.guests.map Guest.key).Nodup := (a.register.getD .empty).distinct
    rw [himage c hc, entries_image, List.map_map]
    simp only [Function.comp_def, Guest.ownerStr_entry, Guest.nameStr_entry]
    rw [hkeys]
    exact hnodup.map fun k k' hk => Prod.ext (Name.ext (Prod.mk.inj hk).1)
      (Name.ext (Prod.mk.inj hk).2)
  · intro c hc x hx
    rw [himage c hc, entries_image] at hx
    obtain ⟨g, -, rfl⟩ := List.mem_map.mp hx
    exact wellFormed_entry g

theorem intact_of_run {s t : Session} {tr : List (Event Session Input Reply)} (hs : s.Fresh)
    (h : Runs s tr t) : Intact t.world := by
  obtain ⟨_, b, -, hb, -⟩ := reachable_represents hs h
  exact intact_of_represents hb

theorem run_exists {s : Session} (hs : s.Fresh) {is : List Input}
    (hc : Clocked s.world.now is) : ∃ tr t, Runs s tr t ∧ inputs tr = is := by
  let P : Session → List Input → Prop := fun s is =>
    ∃ a now, Represents s a ∧ State.InOrder now a ∧ Clocked now is
  have hstep : ∀ s i is, P s (i :: is) → ∃ r t, Session.step s i = some (r, t) ∧ P t is := by
    rintro s ⟨t, c⟩ is ⟨a, now, hr, hord, hle, hclk⟩
    have hord' := hord.mono hle
    obtain ⟨r, b, hb⟩ := State.step_returns hord' c
    have hag := step_agree (t, c) hr
    rw [hb] at hag
    obtain ⟨m, hm, hrep⟩ := hag.of_some'
    exact ⟨r, m, hm, b, t, hrep, State.step_inOrder hord' hb, hclk⟩
  obtain ⟨tr, t, hr, hi, -⟩ := Run.exists_of P hstep is s
    ⟨.start, s.world.now, represents_start hs, fun _ hg => (List.not_mem_nil hg).elim, hc⟩
  exact ⟨tr, t, hr, hi⟩

/-- A successful admission puts a guest at the end and answers with its id. -/
theorem new_guest {a b : State} {now : Timestamp} {o n : CString} {treats : BitVec 16}
    {r : Reply} (h : a.step (now, .new o n treats) = some (r, b)) (hr : 0 ≤ r.ret.toInt) :
    r.ret = makeHash o n ∧ ∃ ho hn, Guest.arrival now ⟨o, ho⟩ ⟨n, hn⟩ treats ∈ b.guests := by
  have hnew : a.new now o n treats = (r, b) := Option.some.inj h
  have hspec := State.new_spec a now o n treats
  rw [hnew] at hspec
  rcases hspec with ⟨ho, hn, hret, hgs⟩ | ⟨hneg, -⟩
  · exact ⟨hret, ho, hn, by rw [hgs]; exact List.mem_append_right _ List.mem_cons_self⟩
  · exact absurd hr (Int.not_le.mpr hneg)

theorem lookup_registered {a : State} {o n : CString} (ho : o.strlen ≤ 31) (hn : n.strlen ≤ 31)
    (h : ((⟨o, ho⟩, ⟨n, hn⟩) : Name × Name) ∈ a.guests.map Guest.key) :
    (a.lookup (some o) (some n)).ret = makeHash o n := by
  obtain ⟨g, hg⟩ := Option.isSome_iff_exists.mp ((mem_keys_iff ho hn a.guests).mp h)
  rw [← Guest.uid_of_named (List.find?_some hg)]
  simp only [State.lookup, tooLong_or_iff.mpr ⟨ho, hn⟩, hg, Option.elim, Bool.false_eq_true,
    ↓reduceIte]

theorem lookups_of_run {s t : Session} {tr : List (Event Session Input Reply)} (hs : s.Fresh)
    (h : Runs s tr t) : LookupsStable tr := by
  intro pre mid post e f o n treats htr he hret hmid hf
  subst htr
  obtain ⟨hpre, m, hstep, hrest⟩ := h.split_at
  obtain ⟨hrun, m', hlook, -⟩ := hrest.split_at
  obtain ⟨_, a, -, ha, -⟩ := reachable_represents hs hpre
  have hag := step_agree e.input ha
  rw [hstep] at hag
  obtain ⟨b, hb, hrep⟩ := hag.of_some
  rw [show e.input = (e.input.1, .new o n treats) by rw [← he]] at hb
  obtain ⟨hid, ho, hn, hmem⟩ := new_guest hb hret
  -- the pair stays registered while nobody collects for its owner
  have hinv := hrun.invariant_of
    (fun s => ∃ a, Represents s a ∧
      ((⟨o, ho⟩, ⟨n, hn⟩) : Name × Name) ∈ a.guests.map Guest.key)
    (fun x => x.input.2 ≠ .collect (some o)) ?_ hmid
    ⟨b, hrep, List.mem_map.mpr ⟨_, hmem, rfl⟩⟩
  · obtain ⟨d, hd, hmem'⟩ := hinv
    have hag' := step_agree f.input hd
    rw [hlook, show f.input = (f.input.1, .lookup (some o) (some n)) by rw [← hf]] at hag'
    obtain ⟨_, hlk, -⟩ := hag'.of_some
    have hout := (Prod.mk.inj (Option.some.inj hlk)).1
    rw [hid, ← lookup_registered ho hn hmem', ← hout]
  · rintro x ⟨now, c⟩ r y ⟨d, hd, hk⟩ hok hxy
    have hag' := step_agree (now, c) hd
    rw [hxy] at hag'
    obtain ⟨d', hd', hrep'⟩ := hag'.of_some
    refine ⟨d', hrep', ?_⟩
    rw [State.step_guests hd']
    exact State.effect_keeps hk hok

/-- A count, an id, or an error that does not mean corruption. -/
def Ordinary (x : BitVec 32) : Prop :=
  0 ≤ x.toInt ∨ x = hmstrErrNameTooLong ∨ x = hmstrErrExists ∨ x = hmstrErrNotFound ∨
    x = hmstrErrStore

instance (x : BitVec 32) : Decidable (Ordinary x) :=
  inferInstanceAs (Decidable (_ ∨ _ ∨ _ ∨ _ ∨ _))

theorem Ordinary.ne_corrupt {x : BitVec 32} (h : Ordinary x) : x ≠ hmstrErrCorrupt := by
  intro he
  subst he
  revert h
  decide

theorem ordinary_uid (g : Guest) : Ordinary g.uid := .inl (makeHash_nonneg _ _)

theorem ordinary_left (g : Guest) : Ordinary (BitVec.ofNat 32 g.left) := by
  refine .inl ?_
  have h := g.left_lt
  rw [BitVec.toInt_eq_toNat_of_lt (by rw [BitVec.toNat_ofNat]; omega)]
  exact Int.natCast_nonneg _

theorem ordinary_nameTooLong : Ordinary hmstrErrNameTooLong := .inr (.inl rfl)
theorem ordinary_exists : Ordinary hmstrErrExists := .inr (.inr (.inl rfl))
theorem ordinary_notFound : Ordinary hmstrErrNotFound := .inr (.inr (.inr (.inl rfl)))

section Replies
variable (a : State) (now : Timestamp) (id : BitVec 32)

theorem new_ordinary (o n : CString) (t : BitVec 16) : Ordinary (a.new now o n t).1.ret := by
  unfold State.new
  split
  · dsimp only
    split
    · exact ordinary_uid _
    · exact ordinary_exists
  · exact ordinary_nameTooLong

theorem lookup_ordinary (o n : Option CString) : Ordinary (a.lookup o n).ret := by
  unfold State.lookup
  split
  · split
    · decide
    · cases a.guests.find? _ with
      | none => decide
      | some g => exact ordinary_uid g
  · decide

theorem directory_ordinary (v : Nat) (o n : Option CString) :
    Ordinary (a.directory v o n).1.ret := by
  unfold State.directory
  split
  · exact ordinary_nameTooLong
  · split
    · exact ordinary_notFound
    · exact ordinary_uid _

theorem givetreats_ordinary (t : BitVec 16) : Ordinary (a.givetreats id t).1.ret := by
  unfold State.givetreats
  split
  · exact ordinary_notFound
  · exact ordinary_left _

variable {a now id} {b : State} {r : Reply}

theorem howsdoing_ordinary (h : a.howsdoing now id = some (r, b)) : Ordinary r.ret := by
  unfold State.howsdoing at h
  split at h
  · obtain ⟨rfl, -⟩ := Prod.mk.inj (Option.some.inj h)
    exact ordinary_notFound
  · obtain ⟨_, -, h⟩ := Option.map_eq_some_iff.mp h
    obtain ⟨rfl, -⟩ := Prod.mk.inj h
    exact .inl (show 0 ≤ (0 : BitVec 32).toInt by decide)

theorem readentry_ordinary (h : a.readentry now id = some r) : Ordinary r.ret := by
  unfold State.readentry at h
  split at h
  · rw [← Option.some.inj h]
    exact ordinary_notFound
  · obtain ⟨_, -, rfl⟩ := Option.map_eq_some_iff.mp h
    exact ordinary_left _

theorem owed_of_ownedBy_nil {gs : List Guest} {o : CString} (now : Timestamp)
    (h : ownedBy o gs = []) : owed now o (gs.map Guest.entry) = 0 :=
  owed_of_owned_nil (by rw [owned_entry, h]; rfl)

theorem sum_bills {o : CString} {amounts : List (BitVec 32)} (h : a.bills now o = some amounts) :
    amounts.sum = BitVec.ofInt 32 (owed now o (a.guests.map Guest.entry)) :=
  sum_charges (by rw [charges_entry]; exact h)

/-- A collection answers with the bill, or has nobody to bill. -/
theorem collect_reply {o : CString} (h : a.collect now (some o) = some (r, b)) :
    (ownedBy o a.guests ≠ [] ∧
        r.ret = BitVec.ofInt 32 (owed now o (a.guests.map Guest.entry))) ∨
      (ownedBy o a.guests = [] ∧ Ordinary r.ret) := by
  simp only [State.collect] at h
  split at h
  · rename_i hl
    obtain ⟨rfl, -⟩ := Prod.mk.inj (Option.some.inj h)
    exact .inr ⟨ownedBy_of_tooLong hl _, ordinary_nameTooLong⟩
  · split at h
    · rename_i hreg
      obtain ⟨rfl, -⟩ := Prod.mk.inj (Option.some.inj h)
      exact .inr ⟨by rw [State.guests, hreg]; rfl, .inr (.inr (.inr (.inr rfl)))⟩
    · obtain ⟨amounts, ham, h⟩ := Option.map_eq_some_iff.mp h
      obtain ⟨rfl, -⟩ := Prod.mk.inj h
      by_cases hnil : ownedBy o a.guests = []
      · exact .inr ⟨hnil, by simp only [hnil, List.isEmpty_nil, ↓reduceIte]; exact ordinary_notFound⟩
      · exact .inl ⟨hnil, by
          simp only [List.isEmpty_iff, hnil, ↓reduceIte]
          exact sum_bills ham⟩

end Replies

theorem reply_corrupt_iff {a b : State} {now : Timestamp} {c : Call Nat} {r : Reply}
    (h : a.step (now, c) = some (r, b)) : r.ret = hmstrErrCorrupt ↔
      ∃ o, c = .collect (some o) ∧
        (owed now o (a.guests.map Guest.entry)).bmod (2 ^ 32) = -101 := by
  have hother : (∀ o, c ≠ .collect (some o)) → Ordinary r.ret → (r.ret = hmstrErrCorrupt ↔
      ∃ o, c = .collect (some o) ∧
        (owed now o (a.guests.map Guest.entry)).bmod (2 ^ 32) = -101) :=
    fun hc hr => ⟨fun he => absurd he hr.ne_corrupt, fun ⟨o, he, _⟩ => absurd he (hc o)⟩
  have hfst {x : Reply × State} (hx : some x = some (r, b)) : r = x.1 :=
    (congrArg Prod.fst (Option.some.inj hx)).symm
  cases c with
  | new o n t => exact hother (fun _ => nofun) (hfst h ▸ new_ordinary a now o n t)
  | lookup o n => exact hother (fun _ => nofun) (hfst h ▸ lookup_ordinary a o n)
  | directory v o n => exact hother (fun _ => nofun) (hfst h ▸ directory_ordinary a v o n)
  | givetreats id t => exact hother (fun _ => nofun) (hfst h ▸ givetreats_ordinary a id t)
  | howsdoing id => exact hother (fun _ => nofun) (howsdoing_ordinary h)
  | readentry id =>
    obtain ⟨x, hx, h⟩ := Option.map_eq_some_iff.mp h
    obtain ⟨rfl, -⟩ := Prod.mk.inj h
    exact hother (fun _ => nofun) (readentry_ordinary hx)
  | collect o =>
    cases o with
    | none => exact hother (fun _ => nofun) (hfst h ▸ ordinary_notFound)
    | some o =>
      have hcall : (∃ o', Call.collect (η := Nat) (some o) = .collect (some o') ∧
          (owed now o' (a.guests.map Guest.entry)).bmod (2 ^ 32) = -101) ↔
          (owed now o (a.guests.map Guest.entry)).bmod (2 ^ 32) = -101 := by
        constructor
        · intro hbill
          obtain ⟨o', he, hb⟩ := hbill
          cases he
          exact hb
        · exact fun hb => ⟨o, rfl, hb⟩
      rw [hcall]
      rcases collect_reply h with ⟨-, hret⟩ | ⟨hnil, hret⟩
      · rw [hret, ofInt_eq_iff]
        rfl
      · rw [owed_of_ownedBy_nil now hnil]
        exact ⟨fun he => absurd he hret.ne_corrupt, fun he => absurd he (by decide)⟩

theorem corrupt_iff_of_run {s t : Session} {tr : List (Event Session Input Reply)} (hs : s.Fresh)
    (h : Runs s tr t) {e : Event Session Input Reply} (he : e ∈ tr) :
    e.output.ret = hmstrErrCorrupt ↔ BillMeansCorrupt e := by
  obtain ⟨pre, post, rfl⟩ := List.append_of_mem he
  obtain ⟨hpre, m, hstep, -⟩ := h.split_at
  obtain ⟨_, a, -, ha, -⟩ := reachable_represents hs hpre
  have hag := step_agree e.input ha
  rw [hstep] at hag
  obtain ⟨b, hb, -⟩ := hag.of_some
  rw [reply_corrupt_iff (show a.step (e.input.1, e.input.2) = some (e.output, b) from hb)]
  constructor
  · intro hbill
    obtain ⟨o, hc, hbill⟩ := hbill
    refine ⟨o, image (a.guests.map Guest.entry), hc, ?_, by rwa [entries_image]⟩
    rw [content_of_represents ha]
    cases hreg : a.register with
    | some r => rfl
    | none =>
      rw [owed_of_ownedBy_nil _ (by rw [(ha.absent hreg).2]; rfl)] at hbill
      exact absurd hbill (by decide)
  · intro hbill
    obtain ⟨o, c, hc, hcont, hbill⟩ := hbill
    rw [content_of_represents ha] at hcont
    obtain ⟨_, -, rfl⟩ := Option.map_eq_some_iff.mp hcont
    exact ⟨o, hc, by rwa [entries_image] at hbill⟩

/-- Every run from a fresh start with a clock that never goes back goes through;
it is sound exactly when no bill on its way reads as a corrupt database. -/
theorem store_integrity {s : Session} (hs : s.Fresh) {is : List Input}
    (hc : Clocked s.world.now is) :
    ∃ tr t, Runs s tr t ∧ inputs tr = is ∧ (Sound s tr ↔ ∀ e ∈ tr, ¬ BillMeansCorrupt e) := by
  obtain ⟨tr, t, hr, hi⟩ := run_exists hs hc
  refine ⟨tr, t, hr, hi, ?_, ?_⟩
  · intro hsound e he hbill
    exact hsound.never_corrupt e he ((corrupt_iff_of_run hs hr he).mpr hbill)
  · intro hno
    exact ⟨fun _ _ _ _ hpre => intact_of_run hs hpre, lookups_of_run hs hr,
      fun e he hret => hno e he ((corrupt_iff_of_run hs hr he).mp hret)⟩

def alice : CString := ⟨[97], by decide⟩
def bert : CString := ⟨[98], by decide⟩

theorem hour_lt (n : Nat) : 3600 * (n % 24) < 2 ^ 63 := by omega

/-- An hour of the first day. -/
def hour (n : Nat) : Timestamp := ⟨3600 * (n % 24), 0, hour_lt n, Timestamp.epoch.usec_lt⟩

/-- Two hamsters are brought, and the first is given more than it has. -/
def arriving : List Input :=
  [(.epoch, .new alice bert 5), (hour 1, .new bert alice 3),
    (hour 2, .givetreats (makeHash alice bert) 9)]

def twoGuests : Session := (trace Session.step Session.initial arriving).2

theorem runs_twoGuests : Runs Session.initial (trace Session.step Session.initial arriving).1 twoGuests :=
  Run.of_trace arriving Session.initial

/-- They are looked up, and one of them is collected. -/
def departing : List Input :=
  arriving ++ [(hour 3, .lookup (some bert) (some alice)), (hour 4, .collect (some alice))]

theorem store_integrity_first : ∃ tr t, Runs .initial tr t ∧ inputs tr = departing ∧
    (Sound .initial tr ↔ ∀ e ∈ tr, ¬ BillMeansCorrupt e) :=
  store_integrity Session.fresh_initial (by decide)

/-- 32709 treats beyond the stock take the price to 65435, which is `-101` in
sixteen bits. -/
def corruptBill : List Input :=
  [(.epoch, .new alice bert 0),
    (.epoch, .givetreats (makeHash alice bert) 32709),
    (.epoch, .collect (some alice))]

theorem corrupt_without_damage : Clocked Session.initial.world.now corruptBill ∧
    ∃ tr t, Runs .initial tr t ∧ inputs tr = corruptBill ∧ ¬ Sound .initial tr := by
  refine ⟨by decide, ?_⟩
  have hplay : (play State.step .start corruptBill).map (fun x => (x.1, x.2.guests)) =
      some ([⟨makeHash alice bert, .none⟩, ⟨0, .none⟩, ⟨hmstrErrCorrupt, .none⟩], []) := by
    decide +kernel
  obtain ⟨tr, t, -, hr, hi, ho, -, -⟩ := run_of_guests Session.fresh_initial hplay
  refine ⟨tr, t, hr, hi, fun hsound => ?_⟩
  have hmem : (⟨hmstrErrCorrupt, .none⟩ : Reply) ∈ outputs tr := by rw [ho]; simp
  obtain ⟨e, he, hret⟩ := List.mem_map.mp hmem
  exact hsound.never_corrupt e he (by rw [hret])

end Hamster.Contract.Integrity
