import Hamster.Contract.Integrity

/-!
# What an enumeration delivers

A caller keeps calling `hmstr_directory` with one filter while anything else may
happen in between. What it has received so far, followed by what its handle has
still to visit, is always the guests present at the first call and those
admitted since, as long as no collection replaced the file.
-/
namespace Hamster.Contract.Enumeration

open Lib.Bytes Lib.Clock Lib.Posix Lib.Runs Store Store.Entry Store.Library Asylum
open Integrity (alice bert hour twoGuests runs_twoGuests)
open Timestamp (epoch)
open Store.Amounts (makeHash_nonneg)

/-- The results of the calls on handle `v`. -/
def received (v : Nat) (tr : List (Event Session Input Reply)) : List (BitVec 32) :=
  tr.filterMap fun e =>
    match e.input.2 with
    | .directory v' _ _ => if v' = v then some e.output.ret else none
    | _ => none

/-- The id of a matching entry this call appended. -/
def appendedBy (o n : Option CString) (e : Event Session Input Reply) : List (BitVec 32) :=
  match e.input.2 with
  | .new o' n' _ =>
    if 0 ≤ e.output.ret.toInt && o.all (fun s => o' = s) && n.all (fun s => n' = s) then
      [e.output.ret]
    else []
  | _ => []

/-- `hmstr_collect` replaces the file whether or not it finds the owner; only a
null or overlong name is turned away before. -/
def replaces (e : Event Session Input Reply) : Bool :=
  match e.input.2 with
  | .collect (some o) => !tooLong o
  | _ => false

/-- The matching entries appended before the file is replaced. -/
def appended (o n : Option CString) : List (Event Session Input Reply) → List (BitVec 32)
  | [] => []
  | e :: tr => if replaces e then [] else appendedBy o n e ++ appended o n tr

/-! ## What is still to visit -/

/-- The ids a handle has still to deliver. -/
def pending (a : State) (c : Cursor) (o n : Option CString) : List (BitVec 32) :=
  ((a.toVisit c).filter (Guest.passes o n)).map Guest.uid

section Keys
variable {o n : Option CString}

theorem matching_uids (o n : Option CString) (gs : List Guest) :
    (gs.filter (Guest.passes o n)).map Guest.uid =
      ((gs.map Guest.key).filter fun k => o.all (fun s => k.1.text = s) &&
        n.all (fun s => k.2.text = s)).map fun k => makeHash k.1.text k.2.text := by
  rw [List.filter_map, List.map_map]
  rfl

/-- Only the names decide what is delivered. -/
theorem pending_of_keys {a b : State} {c : Cursor}
    (h : b.guests.map Guest.key = a.guests.map Guest.key) : pending b c o n = pending a c o n := by
  cases c with
  | closed => rw [pending, pending, matching_uids, matching_uids, State.toVisit, h]; rfl
  | live pos =>
    rw [pending, pending, matching_uids, matching_uids, State.toVisit, State.toVisit, List.map_drop,
      List.map_drop, h]
  | detached rest => rfl

end Keys

section Step
variable {a b : State} {now : Timestamp} {c : Call Nat} {r : Reply} {v : Nat}
  {o n : Option CString}

/-- Only a collection and a call on the handle itself move a cursor. -/
theorem step_cursor (h : a.step (now, c) = some (r, b)) (hc : ∀ o n, c ≠ .directory v o n) :
    b.cursor v = a.cursor v ∨
      (∃ o, c = .collect (some o) ∧ tooLong o = false ∧ b.cursor v = a.detach (a.cursor v)) := by
  cases c with
  | new o' n' t =>
    left
    rw [← show (a.new now o' n' t).2 = b from congrArg Prod.snd (Option.some.inj h), State.new]
    split
    · dsimp only
      split <;> rfl
    · rfl
  | lookup o' n' =>
    rw [← show a = b from congrArg Prod.snd (Option.some.inj h)]
    exact .inl rfl
  | readentry id =>
    obtain ⟨_, -, h⟩ := Option.map_eq_some_iff.mp h
    rw [← show a = b from congrArg Prod.snd h]
    exact .inl rfl
  | directory v' o' n' =>
    left
    have hv : v ≠ v' := fun he => hc o' n' (by rw [he])
    rw [← show (a.directory v' o' n').2 = b from congrArg Prod.snd (Option.some.inj h),
      State.directory]
    split
    · rfl
    · split <;> exact Function.update_of_ne hv _ _
  | givetreats id t =>
    left
    rw [← show (a.givetreats id t).2 = b from congrArg Prod.snd (Option.some.inj h)]
    rcases State.givetreats_cases a id t with ⟨-, hsame⟩ | hamend
    · rw [hsame]
    · rw [hamend]
      rfl
  | howsdoing id =>
    rcases State.howsdoing_cases h with ⟨-, rfl⟩ | rfl
    · exact .inl rfl
    · exact .inl rfl
  | collect o' =>
    rcases State.collect_cases h with ⟨rfl, -⟩ | ⟨o', reg, rfl, hl, -, rfl⟩
    · exact .inl rfl
    · exact .inr ⟨o', rfl, hl, rfl⟩

theorem collect_cursor {o' : CString} {reg : Register}
    (h : a.collect now (some o') = some (r, b)) (hl : tooLong o' = false)
    (hreg : a.register = some reg) : b.cursor v = a.detach (a.cursor v) := by
  rcases State.collect_cases h with ⟨-, hwhy⟩ | ⟨o'', reg', -, -, -, rfl⟩
  · rcases hwhy with ho | ⟨o'', ho, hl'⟩ | hnone
    · cases ho
    · cases ho
      exact absurd (hl.symm.trans hl') Bool.false_ne_true
    · exact absurd (hreg.symm.trans hnone) nofun
  · rfl

theorem toVisit_suffix (a : State) (c : Cursor) (hc : ∀ rest, c ≠ .detached rest) :
    a.toVisit c <:+ a.guests := by
  cases c with
  | closed => exact List.suffix_rfl
  | live pos => exact List.drop_suffix ..
  | detached rest => exact absurd rfl (hc rest)

/-- The cursor set in front of what is left leads there. -/
theorem toVisit_moveTo {post : List Guest} {c : Cursor} (h : post <:+ a.toVisit c) :
    (a.setCursor v (a.moveTo post c)).toVisit (a.moveTo post c) = post := by
  cases c with
  | detached rest => rfl
  | closed =>
    have hs := h.trans (toVisit_suffix a .closed nofun)
    exact (List.suffix_iff_eq_drop.mp hs).symm
  | live pos =>
    have hs := h.trans (toVisit_suffix a (.live pos) nofun)
    exact (List.suffix_iff_eq_drop.mp hs).symm

/-- A call on the handle delivers the first id it had still to deliver, or ends. -/
theorem directory_delivers (hl : (tooLongOpt o || tooLongOpt n) = false) :
    ((a.directory v o n).1.ret = hmstrErrNotFound ∧ pending a (a.cursor v) o n = [] ∧
        (a.directory v o n).2.cursor v = .closed) ∨
      (0 ≤ (a.directory v o n).1.ret.toInt ∧
        ∃ post, (a.directory v o n).2.cursor v = a.moveTo post (a.cursor v) ∧
          pending a (a.cursor v) o n = (a.directory v o n).1.ret ::
            pending (a.directory v o n).2 (a.moveTo post (a.cursor v)) o n) := by
  rw [State.directory_eq a v hl]
  rcases visit_cases (Guest.passes o n) (a.toVisit (a.cursor v)) with
    ⟨hd, hno⟩ | ⟨pre, g, post, he, hpre, hg, hd⟩
  · left
    rw [hd]
    refine ⟨rfl, ?_, Function.update_self ..⟩
    rw [pending, List.filter_eq_nil_iff.mpr fun x hx => by simp [hno x hx]]
    rfl
  · right
    rw [hd]
    refine ⟨makeHash_nonneg _ _, post, Function.update_self .., ?_⟩
    have hsuf : post <:+ a.toVisit (a.cursor v) := by
      rw [he]
      exact ⟨pre ++ [g], by simp⟩
    rw [pending, pending, toVisit_moveTo hsuf, he, List.filter_append,
      List.filter_eq_nil_iff.mpr fun x hx => by simp [hpre x hx], List.nil_append,
      List.filter_cons_of_pos hg, List.map_cons]

variable {e : Event Session Input Reply}

theorem appendedBy_of_not_new (h : ∀ o' n' t, e.input.2 ≠ .new o' n' t) :
    appendedBy o n e = [] := by
  unfold appendedBy
  split
  · rename_i o' n' t he
    exact absurd he (h o' n' t)
  · rfl

theorem keys_of_not_new (h : a.step e.input = some (e.output, b))
    (hn : ∀ o' n' t, e.input.2 ≠ .new o' n' t) (hr : replaces e = false) :
    b.guests.map Guest.key = a.guests.map Guest.key := by
  obtain ⟨s, ⟨now, c⟩, r⟩ := e
  rw [State.step_guests h]
  cases c with
  | new o' n' t => exact absurd rfl (hn o' n' t)
  | givetreats id t => exact amendFirst_keys (Guest.feed_key · t) _
  | howsdoing id => exact amendFirst_keys Guest.ask_key _
  | collect o' =>
    cases o' with
    | none => rfl
    | some o' =>
      have hl : tooLong o' = true := by simpa [replaces] using hr
      rw [effect, filter_of_ownedBy_nil (ownedBy_of_tooLong hl _)]
  | lookup o' n' => rfl
  | directory v' o' n' => rfl
  | readentry id => rfl

/-- What admission does to a live handle. -/
theorem pending_new {pos : Nat} {o' n' : CString} {t : BitVec 16}
    (h : a.step e.input = some (e.output, b)) (hin : e.input.2 = .new o' n' t)
    (hpos : pos ≤ a.guests.length) :
    pending b (.live pos) o n = pending a (.live pos) o n ++ appendedBy o n e := by
  obtain ⟨s, ⟨now, c⟩, r⟩ := e
  subst hin
  have hnew : a.new now o' n' t = (r, b) := Option.some.inj h
  have hspec := State.new_spec a now o' n' t
  rw [hnew] at hspec
  simp only [pending, State.toVisit, appendedBy]
  rcases hspec with ⟨ho, hn, hret, hgs⟩ | ⟨hneg, hgs⟩
  · have hnonneg : decide (0 ≤ r.ret.toInt) = true := by
      rw [hret]
      exact decide_eq_true (makeHash_nonneg o' n')
    rw [hgs, List.drop_append_of_le_length hpos, List.filter_append, List.map_append, hnonneg,
      Bool.true_and, List.filter_singleton, hret]
    change _ ++ List.map Guest.uid (bif (o.all fun s => o' = s) && n.all fun s => n' = s then
      [Guest.arrival now ⟨o', ho⟩ ⟨n', hn⟩ t] else []) = _
    cases (o.all fun s => o' = s) && n.all fun s => n' = s <;> rfl
  · have hno : decide (0 ≤ r.ret.toInt) = false := decide_eq_false (Int.not_le.mpr hneg)
    rw [hgs, hno]
    simp

/-- Any other call while the handle reads the database. -/
theorem step_live {pos : Nat} (hs : Represents e.before a)
    (h : a.step e.input = some (e.output, b)) (hc : ∀ o n, e.input.2 ≠ .directory v o n)
    (hv : a.cursor v = .live pos) :
    (replaces e = true ∧ ∃ rest, b.cursor v = .detached rest ∧
        pending b (.detached rest) o n = pending a (.live pos) o n) ∨
      (replaces e = false ∧ b.cursor v = .live pos ∧
        pending b (.live pos) o n = pending a (.live pos) o n ++ appendedBy o n e) := by
  have hcur := step_cursor (show a.step (e.input.1, e.input.2) = some (e.output, b) from h) hc
  cases hrep : replaces e with
  | true =>
    left
    obtain ⟨o', hin, hl⟩ : ∃ o', e.input.2 = .collect (some o') ∧ tooLong o' = false := by
      unfold replaces at hrep
      split at hrep
      · rename_i o' hin
        exact ⟨o', hin, by simpa using hrep⟩
      · cases hrep
    have hstand := hs.stands v
    rw [hv] at hstand
    obtain ⟨reg, hreg⟩ : ∃ reg, a.register = some reg := by
      cases hreg : a.register with
      | none =>
        generalize e.before.handle v = q at hstand
        cases hstand with
        | live hn =>
          rw [(hs.absent hreg).1] at hn
          cases hn
      | some reg => exact ⟨reg, rfl⟩
    rw [show e.input = (e.input.1, .collect (some o')) by rw [← hin]] at h
    have hdet := collect_cursor (v := v) h hl hreg
    rw [hv] at hdet
    exact ⟨rfl, _, hdet, rfl⟩
  | false =>
    right
    have hsame : b.cursor v = .live pos := by
      rcases hcur with hcur | ⟨o', hin, hl, -⟩
      · rw [hcur, hv]
      · simp [replaces, hin, hl] at hrep
    refine ⟨rfl, hsame, ?_⟩
    have hpos : pos ≤ a.guests.length := by
      have hstand := hs.stands v
      rw [hv] at hstand
      generalize e.before.handle v = q at hstand
      cases hstand with
      | live _ _ hp => exact hp
    by_cases hnew : ∃ o' n' t, e.input.2 = .new o' n' t
    · obtain ⟨o', n', t, hin⟩ := hnew
      exact pending_new h hin hpos
    · have hn : ∀ o' n' t, e.input.2 ≠ .new o' n' t := fun o' n' t he => hnew ⟨o', n', t, he⟩
      rw [appendedBy_of_not_new hn, List.append_nil]
      exact pending_of_keys (keys_of_not_new h hn hrep)

/-- A detached handle is not touched any more. -/
theorem step_detached {rest : List Guest} (h : a.step e.input = some (e.output, b))
    (hc : ∀ o n, e.input.2 ≠ .directory v o n) (hv : a.cursor v = .detached rest) :
    b.cursor v = .detached rest := by
  rcases step_cursor (show a.step (e.input.1, e.input.2) = some (e.output, b) from h) hc with
    hcur | ⟨o', -, -, hcur⟩
  · rw [hcur, hv]
  · rw [hcur, hv]
    rfl

end Step
/-! ## A whole enumeration -/

section Enumeration
variable {v : Nat} {o n : Option CString} {t : Session} {e : Event Session Input Reply}

/-- What a handle at `c` is going to deliver over the events `tr`. -/
def expected (a : State) (c : Cursor) (o n : Option CString)
    (tr : List (Event Session Input Reply)) : List (BitVec 32) :=
  match c with
  | .detached rest => pending a (.detached rest) o n
  | c => pending a c o n ++ appended o n tr

/-- The handle of a closed cursor is `-1`. -/
theorem handle_of_closed {s : Session} {a : State} (h : Represents s a)
    (hv : a.cursor v = .closed) : s.handle v = -1 := by
  have hs := h.stands v
  rw [hv] at hs
  generalize s.handle v = q at hs
  cases hs
  rfl

theorem closed_of_handle {s : Session} {a : State} (h : Represents s a)
    (hv : s.handle v = -1) : a.cursor v = .closed := by
  have hs := h.stands v
  rw [hv] at hs
  generalize hq : (-1 : Int) = q at hs
  generalize a.cursor v = c at hs
  cases hs with
  | closed => rfl
  | live => omega
  | detached => omega

theorem step_directory {s m : Session} {a : State} {i : Input} {r : Reply}
    (hs : Represents s a) (h : s.step i = some (r, m)) (hin : i.2 = .directory v o n) :
    r = (a.directory v o n).1 ∧ Represents m (a.directory v o n).2 := by
  have hag := step_agree i hs
  rw [h, show i = (i.1, .directory v o n) by rw [← hin]] at hag
  obtain ⟨b, hb, hrep⟩ := hag.of_some
  have hpair := Option.some.inj hb
  have hb' : (a.directory v o n).2 = b := congrArg Prod.snd hpair
  exact ⟨(congrArg Prod.fst hpair).symm, hb' ▸ hrep⟩

theorem received_cons_of_eq {x : Event Session Input Reply} (hx : x.input.2 = .directory v o n)
    (tr : List (Event Session Input Reply)) :
    received v (x :: tr) = x.output.ret :: received v tr := by
  simp [received, hx]

theorem received_cons_of_ne {x : Event Session Input Reply}
    (hx : ∀ o' n', x.input.2 ≠ .directory v o' n') (tr : List (Event Session Input Reply)) :
    received v (x :: tr) = received v tr := by
  have hnone : (match x.input.2 with
      | .directory v' _ _ => if v' = v then some x.output.ret else none
      | _ => none) = none := by
    split
    · rename_i v' o' n' hin
      rw [if_neg fun he => hx o' n' (by rw [hin, he])]
    · rfl
  rw [received, List.filterMap_cons, hnone]
  rfl

theorem appended_cons_of_directory {x : Event Session Input Reply} {o' n' : Option CString}
    (hx : x.input.2 = .directory v o' n') (tr : List (Event Session Input Reply)) :
    appended o n (x :: tr) = appended o n tr := by
  simp [appended, replaces, appendedBy, hx]

theorem expected_directory {a b : State} {c : Cursor} {post : List Guest} {id : BitVec 32}
    {x : Event Session Input Reply} {tr : List (Event Session Input Reply)}
    {o' n' : Option CString} (hx : x.input.2 = .directory v o' n')
    (hpend : pending a c o n = id :: pending b (a.moveTo post c) o n) :
    expected a c o n (x :: tr) = id :: expected b (a.moveTo post c) o n tr := by
  cases c with
  | closed =>
    simp only [expected, State.moveTo, appended_cons_of_directory hx] at hpend ⊢
    rw [hpend, List.cons_append]
  | live pos =>
    simp only [expected, State.moveTo, appended_cons_of_directory hx] at hpend ⊢
    rw [hpend, List.cons_append]
  | detached rest => exact hpend

theorem expected_other {a b : State} {x : Event Session Input Reply}
    {tr : List (Event Session Input Reply)} (ha : Represents x.before a)
    (h : a.step x.input = some (x.output, b)) (hne : ∀ o n, x.input.2 ≠ .directory v o n)
    (hopen : a.cursor v ≠ .closed) :
    b.cursor v ≠ .closed ∧
      expected a (a.cursor v) o n (x :: tr) = expected b (b.cursor v) o n tr := by
  cases hc : a.cursor v with
  | closed => exact absurd hc hopen
  | live pos =>
    rcases step_live (o := o) (n := n) ha h hne hc with
      ⟨hrep, rest, hcur, hpend⟩ | ⟨hrep, hcur, hpend⟩
    · rw [hcur]
      exact ⟨nofun, by simp only [expected, appended, hrep, ↓reduceIte, List.append_nil, hpend]⟩
    · rw [hcur]
      refine ⟨nofun, ?_⟩
      simp only [expected, appended, hrep, Bool.false_eq_true, ↓reduceIte, hpend,
        List.append_assoc]
  | detached rest =>
    rw [step_detached h hne hc]
    exact ⟨nofun, rfl⟩

/-- The invariant of an enumeration: received and still to come are what is
expected. Each event either takes the head off or leaves the rest as it was. -/
theorem run_delivers (hl : (tooLongOpt o || tooLongOpt n) = false)
    (hlast : e.input.2 = .directory v o n) (hneg : e.output.ret.toInt < 0)
    {tr : List (Event Session Input Reply)} {s : Session} {a : State}
    (hrun : Runs s (tr ++ [e]) t) (ha : Represents s a)
    (hopen : a.cursor v = .closed → ∀ x ∈ (tr ++ [e]).head?, x.input.2 = .directory v o n)
    (hgo : ∀ x ∈ tr, ∀ o' n', x.input.2 = .directory v o' n' →
      o' = o ∧ n' = n ∧ 0 ≤ x.output.ret.toInt) :
    received v tr = expected a (a.cursor v) o n tr ∧ e.output.ret = hmstrErrNotFound ∧
      t.handle v = -1 := by
  induction tr generalizing s a with
  | nil =>
    cases hrun with
    | cons hstep hrest =>
      cases hrest
      obtain ⟨hr, hrep⟩ := step_directory ha hstep hlast
      dsimp only at hr hneg
      rcases directory_delivers (a := a) (v := v) hl with ⟨hret, hnil, hclosed⟩ | ⟨hnonneg, -⟩
      · refine ⟨?_, by rw [hr, hret], handle_of_closed hrep hclosed⟩
        unfold expected
        split
        · rename_i rest hcur
          rw [hcur] at hnil
          rw [hnil]
          rfl
        · rw [hnil]
          rfl
      · rw [hr] at hneg
        omega
  | cons x tr ih =>
    cases hrun with
    | @cons _ m _ i r _ hstep hrest =>
      have hgo' : ∀ y ∈ tr, ∀ o' n', y.input.2 = .directory v o' n' →
          o' = o ∧ n' = n ∧ 0 ≤ y.output.ret.toInt := fun y hy => hgo y (by simp [hy])
      by_cases hdir : ∃ o' n', i.2 = .directory v o' n'
      · obtain ⟨o', n', hin⟩ := hdir
        obtain ⟨ho, hn, hret⟩ := hgo _ List.mem_cons_self o' n' hin
        rw [ho, hn] at hin
        obtain ⟨hr, hrep⟩ := step_directory ha hstep hin
        rw [received_cons_of_eq hin]
        rcases directory_delivers (a := a) (v := v) hl with ⟨hnf, -, -⟩ | ⟨-, post, hcur, hpend⟩
        · dsimp only at hret
          rw [hr, hnf] at hret
          exact absurd hret (by decide)
        · have hnext : (a.directory v o n).2.cursor v ≠ .closed := by
            rw [hcur]
            cases a.cursor v <;> nofun
          obtain ⟨hrec, hend⟩ := ih hrest hrep (fun hc => absurd hc hnext) hgo'
          exact ⟨by rw [hrec, hcur, expected_directory hin hpend, hr], hend⟩
      · have hne : ∀ o' n', i.2 ≠ .directory v o' n' := fun o' n' he => hdir ⟨o', n', he⟩
        rw [received_cons_of_ne hne]
        have hclosed : a.cursor v ≠ .closed := fun hc => hne o n (hopen hc ⟨s, i, r⟩ rfl)
        have hag := step_agree i ha
        rw [hstep] at hag
        obtain ⟨b, hb, hrep⟩ := hag.of_some
        obtain ⟨hnext, hexp⟩ := expected_other (x := ⟨s, i, r⟩) (o := o) (n := n) ha hb hne hclosed
        obtain ⟨hrec, hend⟩ := ih hrest hrep (fun hc => absurd hc hnext) hgo'
        exact ⟨by rw [hrec, hexp], hend⟩

/-- One enumeration, from a call with handle `-1` to the first negative result:
`tr ++ [e]` is all that happens from the first to the last of its calls. -/
theorem enumeration_complete {s m : Session} (hs : s.Fresh)
    {past tr : List (Event Session Input Reply)} (hreach : Runs s past m)
    (ho : tooLongOpt o = false) (hn : tooLongOpt n = false) (hstart : m.handle v = -1)
    (hrun : Runs m (tr ++ [e]) t)
    (hfirst : ∀ x ∈ (tr ++ [e]).head?, x.input.2 = .directory v o n)
    (hgo : ∀ x ∈ tr, ∀ o' n', x.input.2 = .directory v o' n' →
      o' = o ∧ n' = n ∧ 0 ≤ x.output.ret.toInt)
    (hlast : e.input.2 = .directory v o n) (hneg : e.output.ret.toInt < 0) :
    received v tr = ((storeEntries m.world).filter (passesFilter o n)).map (·.uid) ++
        appended o n tr ∧
      e.output.ret = hmstrErrNotFound ∧ t.handle v = -1 := by
  obtain ⟨_, a, -, ha, -⟩ := reachable_represents hs hreach
  have hl : (tooLongOpt o || tooLongOpt n) = false := by rw [ho, hn]; rfl
  obtain ⟨hrec, hend⟩ := run_delivers hl hlast hneg hrun ha (fun _ => hfirst) hgo
  refine ⟨?_, hend⟩
  have hpresent : ((storeEntries m.world).filter (passesFilter o n)).map (·.uid) =
      pending a .closed o n := by
    rw [storeEntries_of_represents ha, List.filter_map, List.map_map, pending, State.toVisit]
    have hpass : passesFilter o n ∘ Guest.entry = Guest.passes o n :=
      funext (passesFilter_entry o n)
    rw [hpass]
    rfl
  rw [hrec, closed_of_handle ha hstart, hpresent]
  rfl

end Enumeration

/-- A third hamster comes and another is fed between the calls of a listing. -/
def visits : List Input :=
  [(hour 3, .directory 0 none none), (hour 4, .new alice alice 1), (hour 5, .directory 0 none none),
    (hour 5, .givetreats (makeHash bert alice) 2), (hour 6, .directory 0 none none)]

def visited : Session := (trace Session.step twoGuests visits).2

theorem enumeration_of_three : ∃ r t, Runs twoGuests
      ((trace Session.step twoGuests visits).1 ++ [⟨visited, (hour 7, .directory 0 none none), r⟩]) t ∧
    received 0 (trace Session.step twoGuests visits).1 =
      ((storeEntries twoGuests.world).filter (passesFilter none none)).map (·.uid) ++
        appended none none (trace Session.step twoGuests visits).1 ∧
    r.ret = hmstrErrNotFound ∧ t.handle 0 = -1 := by
  have hrun : Runs twoGuests (trace Session.step twoGuests visits).1 visited :=
    Run.of_trace visits twoGuests
  have hlast : (visited.step (hour 7, .directory 0 none none)).map (·.1.ret) =
      some hmstrErrNotFound := by decide +kernel
  obtain ⟨⟨r, t⟩, hstep, hret⟩ := Option.map_eq_some_iff.mp hlast
  have hend : r.ret = hmstrErrNotFound := hret
  refine ⟨r, t, hrun.append (.single hstep), ?_⟩
  refine enumeration_complete Session.fresh_initial runs_twoGuests rfl rfl (by decide +kernel)
    (hrun.append (.single hstep)) ?_ ?_ rfl (by rw [hend]; decide)
  · intro x hx
    have hhead : (trace Session.step twoGuests visits).1.head?.map (·.input.2) =
        some (.directory 0 none none) := by decide +kernel
    obtain ⟨y, hy, hin⟩ := Option.map_eq_some_iff.mp hhead
    rw [List.head?_append, hy] at hx
    cases hx
    exact hin
  · have hall : ∀ x ∈ (trace Session.step twoGuests visits).1,
        (x.input.2 = .directory 0 none none ∧ 0 ≤ x.output.ret.toInt) ∨
          (match x.input.2 with | .directory .. => false | _ => true) = true := by decide +kernel
    intro x hx o' n' hin
    rcases hall x hx with ⟨hdir, hpos⟩ | hno
    · rw [hdir] at hin
      cases hin
      exact ⟨rfl, rfl, hpos⟩
    · rw [hin] at hno
      cases hno

example : received 0 (trace Session.step twoGuests visits).1 =
    [makeHash alice bert, makeHash bert alice, makeHash alice alice] := by decide +kernel

end Hamster.Contract.Enumeration
