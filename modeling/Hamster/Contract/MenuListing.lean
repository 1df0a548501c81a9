import Hamster.Asylum.Steps
import Hamster.Contract.Enumeration
import Hamster.Contract.MenuRefinement
import Hamster.Store.Amounts

/-!
# What the menu lists

Command l prints a heading and a row for every guest, in the order they came. A row has
the names and the account of the first guest with that id, so it is the guest's own
where ids are told apart.
-/
namespace Hamster.Contract.MenuListing

open Lib.Bytes Lib.Clock Lib.RecordFile Store.Entry Store.Library Cli.Menu Contract.MenuRefinement
open Asylum (Guest State Cursor)
open Contract.Enumeration (toVisit_moveTo)

/-- The first guest with the id of `g`. -/
def resolved (gs : List Guest) (g : Guest) : Guest := (gs.find? (·.has g.uid)).getD g

/-- The row for a guest at a reading of the clock. -/
def guestRow (now : Timestamp) (gs : List Guest) (g : Guest) : List Byte :=
  row g.uid (resolved gs g).owner.text (resolved gs g).name.text
    ((((resolved gs g).bill now).getD 0).setWidth 16) (BitVec.ofNat 32 (resolved gs g).left)

/-- The rows for guests visited one after the other; two calls are made for each. -/
def rows (clock : Nat → Timestamp) (gs : List Guest) : Nat → List Guest → List Byte
  | _, [] => []
  | calls, g :: rest => guestRow (clock (calls + 1)) gs g ++ rows clock gs (calls + 2) rest

def listing (clock : Nat → Timestamp) (gs : List Guest) (calls : Nat) : List Byte :=
  if gs = [] then text "No hamsters matching criteria found\n"
  else heading ++ rows clock gs calls gs

section Turn
variable {b : House} {a : State} {v : Nat} {c : Cursor} {clock : Nat → Timestamp} {calls : Nat}
  {g : Guest} {rest : List Guest}

theorem dropWhile_all (gs : List Guest) :
    gs.dropWhile (fun g => !g.passes none none) = gs := by
  cases gs with
  | nil => rfl
  | cons g gs => exact List.dropWhile_cons_of_neg (by simp [Guest.passes])

theorem next_end (h : a.toVisit c = []) :
    asylum.call ⟨a.setCursor v c, v, clock, calls⟩ (.directory () none none) =
      some (⟨hmstrErrNotFound, .none⟩, ⟨a.setCursor v .closed, v, clock, calls + 1⟩) := by
  have hcursor : (a.setCursor v c).cursor v = c := Function.update_self ..
  have hstep : (a.setCursor v c).directory v none none =
      (⟨hmstrErrNotFound, .none⟩, a.setCursor v .closed) := by
    rw [State.directory_eq _ _ rfl, hcursor, dropWhile_all, show (a.setCursor v c).toVisit c = []
      from h, State.setCursor_setCursor]
  have hexec : (a.setCursor v c).step (clock calls, .directory v none none) =
      some ((a.setCursor v c).directory v none none) := rfl
  rw [asylum_call]
  exact congrArg (Option.map _) (hexec.trans (congrArg some hstep))

theorem next_guest (h : a.toVisit c = g :: rest) :
    asylum.call ⟨a.setCursor v c, v, clock, calls⟩ (.directory () none none) =
      some (⟨g.uid, .none⟩, ⟨a.setCursor v (a.moveTo rest c), v, clock, calls + 1⟩) := by
  have hcursor : (a.setCursor v c).cursor v = c := Function.update_self ..
  have hstep : (a.setCursor v c).directory v none none =
      (⟨g.uid, .none⟩, a.setCursor v (a.moveTo rest c)) := by
    rw [State.directory_eq _ _ rfl, hcursor, dropWhile_all, show (a.setCursor v c).toVisit c =
      g :: rest from h, State.setCursor_setCursor]
    rfl
  have hexec : (a.setCursor v c).step (clock calls, .directory v none none) =
      some ((a.setCursor v c).directory v none none) := rfl
  rw [asylum_call]
  exact congrArg (Option.map _) (hexec.trans (congrArg some hstep))

/-- The entry of a guest that was listed is found, and its price is no surprise. -/
theorem entry_resolved (hg : g ∈ b.state.guests)
    (hin : ∀ g ∈ b.state.guests, g.admitted ≤ b.clock b.calls) :
    asylum.call b (.readentry g.uid) =
      some (⟨BitVec.ofNat 32 (resolved b.state.guests g).left,
        .entry ((resolved b.state.guests g).owner.text.pad 32)
          ((resolved b.state.guests g).name.text.pad 32)
          ((((resolved b.state.guests g).bill (b.clock b.calls)).getD 0).setWidth 16)⟩,
        { b with calls := b.calls + 1 }) := by
  obtain ⟨x, hx⟩ : ∃ x, b.state.guests.find? (·.has g.uid) = some x := by
    rw [← Option.isSome_iff_exists, List.find?_isSome]
    exact ⟨g, hg, by simp [Guest.has]⟩
  obtain ⟨amount, hbill⟩ := State.InOrder.bill (a := b.state) hin (List.mem_of_find?_eq_some hx)
  have hread : b.state.readentry (b.clock b.calls) g.uid =
      some ⟨BitVec.ofNat 32 x.left,
        .entry (x.owner.text.pad 32) (x.name.text.pad 32) (amount.setWidth 16)⟩ := by
    rw [State.readentry, hx]
    dsimp only
    rw [hbill]
    rfl
  have hresolved : resolved b.state.guests g = x := by rw [resolved, hx]; rfl
  rw [hresolved, hbill]
  have hexec : b.state.step (b.clock b.calls, .readentry g.uid) =
      (b.state.readentry (b.clock b.calls) g.uid).map fun r => (r, b.state) := rfl
  rw [hread] at hexec
  rw [asylum_call]
  exact congrArg (Option.map _) hexec

theorem rowOf_resolved (now : Timestamp) (gs : List Guest) (g : Guest) :
    rowOf g.uid ⟨BitVec.ofNat 32 (resolved gs g).left,
      .entry ((resolved gs g).owner.text.pad 32) ((resolved gs g).name.text.pad 32)
        ((((resolved gs g).bill now).getD 0).setWidth 16)⟩ = guestRow now gs g := by
  have ho := (resolved gs g).owner.short
  have hn := (resolved gs g).name.short
  rw [rowOf, cstr_pad_self (by omega), cstr_pad_self (by omega)]
  rfl

theorem left_nonneg (g : Guest) : 0 ≤ (BitVec.ofNat 32 g.left).toInt := by
  have hlt := g.left_lt
  rw [BitVec.toInt_eq_toNat_of_lt (by rw [BitVec.toNat_ofNat]; omega)]
  exact Int.natCast_nonneg _

theorem checkError_nonneg {σ : Type} {rc : BitVec 32} (h : 0 ≤ rc.toInt) (funcname : String)
    (m : Terminal σ) : checkError rc funcname m = .ok (false, m) := by
  have hcat : isCatastrophic rc = false := by
    rw [isCatastrophic, decide_eq_false]
    have hstore : hmstrErrStore.toInt = -100 := by decide
    omega
  rw [checkError, hcat, if_neg Bool.false_ne_true, if_neg (Int.not_lt.mpr h)]

end Turn

section Turns
variable {σ : Type} {lib : Backend σ} {m : Terminal σ} {r entry : Reply} {s s' : σ} {turns : Nat}
  {any : Bool}

/-- A function that prints nothing. -/
theorem call_some {c : Call Unit} (hquiet : lib.tells m.back c = [])
    (h : lib.call m.back c = some (r, s)) : m.call lib c = .ok (r, { m with back := s }) := by
  rw [Terminal.call, h]
  dsimp only [Terminal.print]
  rw [hquiet, List.append_nil]

theorem listLoop_end (hquiet : ∀ s c, lib.tells s c = [])
    (h : lib.call m.back (.directory () none none) = some (r, s))
    (hr : r.ret.toInt < 0) :
    listLoop lib (turns + 1) any m = .ok (r.ret, any, { m with back := s }) := by
  rw [listLoop, call_some (hquiet _ _) h]
  show (if 0 ≤ r.ret.toInt then _ else _) = _
  rw [if_neg (Int.not_le.mpr hr)]
  rfl

theorem listLoop_hit (hquiet : ∀ s c, lib.tells s c = [])
    (h : lib.call m.back (.directory () none none) = some (r, s))
    (hr : 0 ≤ r.ret.toInt) (hentry : lib.call s (.readentry r.ret) = some (entry, s'))
    (he : 0 ≤ entry.ret.toInt) :
    listLoop lib (turns + 1) any m = listLoop lib turns true
      { m with
        stdout := m.stdout ++ (if any then [] else heading) ++ rowOf r.ret entry
        back := s' } := by
  have hhead : (if any then { m with back := s } else { m with back := s }.print heading) =
      { m with stdout := m.stdout ++ (if any then [] else heading), back := s } := by
    cases any with
    | true =>
      rw [if_pos rfl, if_pos rfl, List.append_nil]
    | false => rfl
  rw [listLoop, call_some (hquiet _ _) h]
  show (if 0 ≤ r.ret.toInt then _ else _) = _
  rw [if_pos hr]
  dsimp only
  rw [hhead, call_some (hquiet _ _) (m := { m with
    stdout := m.stdout ++ (if any then [] else heading), back := s }) hentry]
  show (checkError entry.ret "hmstr_readentry()" _ >>= _) = _
  rw [checkError_nonneg he]
  rfl

theorem list_of_loop {m' : Terminal σ}
    (h : listLoop lib turns false { m with back := lib.rewind m.back } =
      .ok (hmstrErrNotFound, any, m')) :
    list lib turns m =
      .ok (if any then m' else m'.print (text "No hamsters matching criteria found\n")) := by
  rw [list, h]
  simp only [bind, Except.bind, ↓reduceIte]
  rfl

end Turns

section Loop
variable {a : State} {v : Nat} {clock : Nat → Timestamp}

/-- Nobody came after the readings from `calls` on. -/
def Past (clock : Nat → Timestamp) (calls : Nat) (a : State) : Prop :=
  ∀ n, calls ≤ n → ∀ g ∈ a.guests, g.admitted ≤ clock n

/-- One turn of the loop prints one row; the turns are those of the guests to visit. -/
theorem listLoop_rows {rest : List Guest} {c : Cursor} {calls turns : Nat} (any : Bool)
    (m : Terminal House) (hvisit : a.toVisit c = rest) (hsub : rest ⊆ a.guests)
    (hpast : Past clock calls a) (hturns : rest.length < turns)
    (hback : m.back = ⟨a.setCursor v c, v, clock, calls⟩) :
    listLoop asylum turns any m = .ok (hmstrErrNotFound, any || !rest.isEmpty,
      { m with
        stdout := m.stdout ++ ((if any || rest.isEmpty then [] else heading) ++
          rows clock a.guests calls rest)
        back := ⟨a.setCursor v .closed, v, clock, calls + 2 * rest.length + 1⟩ }) := by
  induction rest generalizing c calls turns any m with
  | nil =>
    obtain ⟨turns, rfl⟩ : ∃ t, turns = t + 1 := ⟨turns - 1, by omega⟩
    have hnext : asylum.call m.back (.directory () none none) = _ := hback ▸ next_end hvisit
    rw [listLoop_end (fun _ _ => rfl) hnext (by decide)]
    simp [rows]
  | cons g rest ih =>
    obtain ⟨turns, rfl⟩ : ∃ t, turns = t + 1 := ⟨turns - 1, by omega⟩
    have hnext : asylum.call m.back (.directory () none none) = _ := hback ▸ next_guest hvisit
    have hentry := entry_resolved
      (b := ⟨a.setCursor v (a.moveTo rest c), v, clock, calls + 1⟩) (g := g)
      (hsub List.mem_cons_self) (hpast _ (Nat.le_succ _))
    have hmoved : a.toVisit (a.moveTo rest c) = rest :=
      toVisit_moveTo (v := v) (by rw [hvisit]; exact List.suffix_cons g rest)
    rw [listLoop_hit (fun _ _ => rfl) hnext (Store.Amounts.makeHash_nonneg _ _) hentry (left_nonneg _)]
    have hprinted := rowOf_resolved (clock (calls + 1)) a.guests g
    dsimp only at hentry ⊢
    refine (ih true _ hmoved (fun x hx => hsub (List.mem_cons_of_mem _ hx))
      (fun n hn => hpast n (by omega)) (by rw [List.length_cons] at hturns; omega) rfl).trans ?_
    rw [show (a.setCursor v (a.moveTo rest c)).guests = a.guests from rfl, hprinted]
    have hcalls : calls + 1 + 1 + 2 * rest.length + 1 = calls + 2 * (g :: rest).length + 1 := by
      rw [List.length_cons]
      omega
    rw [hcalls]
    simp [rows, List.append_assoc]

/-- The house after a listing: a handle more was used, and the clock was read. -/
def House.listed (b : House) : House :=
  { b with handle := b.handle + 1, calls := b.calls + 2 * b.state.guests.length + 1 }

theorem list_rows {m : Terminal House} {turns : Nat}
    (hnew : m.back.state.cursor (m.back.handle + 1) = .closed)
    (hpast : Past m.back.clock m.back.calls m.back.state)
    (hturns : m.back.state.guests.length < turns) :
    list asylum turns m = .ok { m with
      stdout := m.stdout ++ listing m.back.clock m.back.state.guests m.back.calls
      back := House.listed m.back } := by
  have hsame : m.back.state.setCursor (m.back.handle + 1) .closed = m.back.state := by
    rw [State.setCursor, ← hnew, Function.update_eq_self]
  have hback : (asylum.rewind m.back : House) = ⟨m.back.state.setCursor (m.back.handle + 1) .closed,
      m.back.handle + 1, m.back.clock, m.back.calls⟩ := by
    rw [hsame]
    rfl
  have hvisit : m.back.state.toVisit .closed = m.back.state.guests := rfl
  have hloop := listLoop_rows false { m with back := asylum.rewind m.back } hvisit
    (List.Subset.refl m.back.state.guests) hpast hturns hback
  rw [hsame] at hloop
  rw [list_of_loop hloop, listing]
  cases hg : m.back.state.guests with
  | nil => simp [rows, House.listed, hg, Terminal.print]
  | cons g rest => simp [House.listed, hg]

end Loop

end Hamster.Contract.MenuListing
