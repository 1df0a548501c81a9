import Hamster.Contract.Dispatch
import Hamster.Contract.Integrity
import Hamster.SunRpc.Client

/-!
# SunRPC in place of the library

What a program gets from the stubs of hamster_client.c and what it would get from the
library itself, on the same store at the same time. The two agree but for `hmstr_lookup`,
which sends the owner's name as the hamster's and an owner it never set.
-/
namespace Hamster.Contract.Transparency

open Lib.Bytes Lib.Clock Lib.Posix Lib.Runs Store Store.Entry Store.Library Store.Scans
  Store.Outcomes Asylum SunRpc
open SunRpc.Client (StubCall clntCall emptyIfNull strncpy xdrArgs xdrNameString xdrResult)
open Contract.Dispatch (PaddedName entry_padded)
open Contract.Integrity (alice bert)
open Server.Handlers (howsdoing_state readentry_price)

/-- The caller sees the same: the return value, the handle as an `int32_t`, and on success
the other values, names as strings. -/
def SameReply (direct remote : Reply) : Prop :=
  remote.ret = direct.ret ∧
    match direct.out, remote.out with
    | .none, .none => True
    | .handle p, .handle p' => p' = (BitVec.ofInt 32 p).toInt
    | .state st, .state st' => 0 ≤ direct.ret.toInt → st' = st
    | .entry owner name price, .entry owner' name' price' => 0 ≤ direct.ret.toInt →
      cstr owner' = cstr owner ∧ cstr name' = cstr name ∧ price' = price
    | _, _ => False

/-- Neither returns, or both return the same and leave the same files and descriptors. -/
def SameOutcome : Option (Reply × World) → Option (Reply × Service) → Prop
  | none, none => True
  | some (r, w), some (r', s') => SameReply r r' ∧ s'.world = w
  | _, _ => False

def Transparent (s : Service) (now : Timestamp) (junk : Option CString) (call : StubCall) : Prop :=
  SameOutcome (call.direct.exec { s.world with now := now }) (call.remote s now junk)

def names : StubCall → List (Option CString)
  | .new o n _ | .lookup o n => [some o, some n]
  | .directory _ o n => [o, n]
  | .collect o => [some o]
  | .howsdoing _ | .readentry _ | .givetreats .. => []

/-- Names are not empty and have at most 31 characters. -/
def Admissible (call : StubCall) : Prop := ∀ s, some s ∈ names call → s.chars ≠ [] ∧ s.strlen ≤ 31

/-- The uid under which a hamster is stored. -/
def storedUid (w : World) (o n : CString) : Option (BitVec 32) :=
  ((storeEntries w).find? (byName o n)).map (·.uid)

/-- A lookup depends on what the stack held: a name under which the owner is registered as
a hamster exactly like the hamster under its owner's. -/
def LuckyStack (w : World) (junk : Option CString) : StubCall → Prop
  | .lookup o n => ∃ g, junk = some g ∧ g.strlen ≤ 31 ∧ storedUid w g o = storedUid w o n
  | _ => True

section Calls
variable {s : Service} {now : Timestamp} {junk : Option CString} {call : StubCall}

theorem xdrNameString_of_le {x : CString} (h : x.strlen ≤ 31) : xdrNameString x = true :=
  decide_eq_true (by omega)

theorem clntCall_of_xdr {argp : Args} (h : xdrArgs argp = true) :
    clntCall s now argp = (s.request now argp).filter fun x => xdrResult x.1 := by
  rw [clntCall, if_pos h]

theorem clntCall_some {argp : Args} {result : Result} {t : Service} (hx : xdrArgs argp = true)
    (hreq : s.request now argp = some (result, t)) (hr : xdrResult result = true) :
    clntCall s now argp = some (result, t) := by
  rw [clntCall_of_xdr hx, hreq, Option.filter_some, if_pos hr]

theorem new_transparent {o n : CString} {t : BitVec 16} (hc : Admissible (.new o n t)) :
    Transparent s now junk (.new o n t) := by
  have hx : xdrArgs (.new o n t) = true := by
    rw [xdrArgs, xdrNameString_of_le (hc o (by simp [names])).2,
      xdrNameString_of_le (hc n (by simp [names])).2]
    rfl
  show SameOutcome _ (Client.hmstrNew (clntCall s now) o n t)
  rw [Client.hmstrNew, clntCall_of_xdr hx]
  exact ⟨⟨rfl, trivial⟩, rfl⟩

theorem nullIfEmpty_emptyIfNull {x : Option CString} (h : ∀ y, some y = x → y.chars ≠ []) :
    nullIfEmpty (emptyIfNull x) = x := by
  cases x with
  | none => rfl
  | some x => exact if_neg (h x rfl)

theorem xdr_emptyIfNull {x : Option CString} (h : ∀ y, some y = x → y.strlen ≤ 31) :
    xdrNameString (emptyIfNull x) = true := by
  cases x with
  | none => rfl
  | some x => exact xdrNameString_of_le (h x rfl)

theorem directory_transparent {p : BitVec 32} {o n : Option CString}
    (hc : Admissible (.directory p o n)) : Transparent s now junk (.directory p o n) := by
  have ho : ∀ y, some y = o → y.chars ≠ [] ∧ y.strlen ≤ 31 := fun y hy => hc y (by simp [names, hy])
  have hn : ∀ y, some y = n → y.chars ≠ [] ∧ y.strlen ≤ 31 := fun y hy => hc y (by simp [names, hy])
  have hx : xdrArgs (.directory p (emptyIfNull o) (emptyIfNull n)) = true := by
    rw [xdrArgs, xdr_emptyIfNull fun y hy => (ho y hy).2, xdr_emptyIfNull fun y hy => (hn y hy).2]
    rfl
  have hreq (owner hamster : CString) : s.request now (.directory p owner hamster) =
      some ((hmstDirectoryRpc1Svc { s.world with now := now } p owner hamster).1,
        { s with world := (hmstDirectoryRpc1Svc { s.world with now := now } p owner hamster).2 }) :=
    rfl
  show SameOutcome _ (Client.hmstrDirectory (clntCall s now) p o n)
  rw [Client.hmstrDirectory, clntCall_of_xdr hx, hreq, hmstDirectoryRpc1Svc,
    nullIfEmpty_emptyIfNull fun y hy => (ho y hy).1, nullIfEmpty_emptyIfNull fun y hy => (hn y hy).1]
  exact ⟨⟨rfl, rfl⟩, rfl⟩

theorem howsdoing_transparent {id : BitVec 32} : Transparent s now junk (.howsdoing id) := by
  have hreq : s.request now (.howsdoing id) =
      (hmstrHowsdoingRpc1Svc { s.world with now := now } s.statics id).map
        fun x => (x.1, ⟨x.2.2, x.2.1⟩) := rfl
  show SameOutcome ((Call.howsdoing id).exec _) (Client.hmstrHowsdoing (clntCall s now) id)
  rw [Client.hmstrHowsdoing, clntCall_of_xdr rfl, hreq, hmstrHowsdoingRpc1Svc, exec_howsdoing]
  rcases howsdoing_state { s.world with now := now } id with ⟨w', he⟩ | ⟨x, he⟩
  · rw [he, he]
    exact ⟨⟨rfl, fun hpos => absurd hpos notFound_neg⟩, rfl⟩
  · rw [he, he]
    cases x with
    | none => trivial
    | some x => exact ⟨⟨rfl, fun _ => rfl⟩, rfl⟩

theorem givetreats_transparent {id : BitVec 32} {t : BitVec 16} :
    Transparent s now junk (.givetreats id t) := by
  show SameOutcome _ (Client.hmstrGivetreats (clntCall s now) id t)
  rw [Client.hmstrGivetreats, clntCall_of_xdr rfl]
  exact ⟨⟨rfl, trivial⟩, rfl⟩

theorem collect_transparent {o : CString} (hc : Admissible (.collect o)) :
    Transparent s now junk (.collect o) := by
  have hl : o.strlen ≤ 31 := (hc o (by simp [names])).2
  have hx : xdrArgs (.collect o) = true := xdrNameString_of_le hl
  have hreq : s.request now (.collect o) =
      (hmstrCollectRpc1Svc { s.world with now := now } o).map
        fun x => (x.1, { s with world := x.2 }) := rfl
  show SameOutcome ((Call.collect (some o)).exec _) (Client.hmstrCollect (clntCall s now) o)
  rw [Client.hmstrCollect, if_pos (by omega), clntCall_of_xdr hx, hreq, hmstrCollectRpc1Svc,
    exec_collect]
  cases hmstrCollect { s.world with now := now } (some o) with
  | none => trivial
  | some x => exact ⟨⟨rfl, trivial⟩, rfl⟩

theorem strlen_of_padded {bs : List Byte} (h : PaddedName bs) : (cstr bs).strlen ≤ 31 := by
  obtain ⟨x, hx, rfl⟩ := h
  rw [cstr_pad_self (by omega)]
  exact hx

/-- `strncpy` pads a name with zeros. -/
theorem cstr_strncpy {x : CString} (h : x.strlen ≤ 31) : cstr (strncpy x) = x := by
  rw [strncpy, List.take_of_length_le (CString.length_pad (by omega)).le, cstr_pad_self (by omega)]

theorem readentry_transparent {p : Nat → Int} {a : State}
    (ha : Represents ⟨{ s.world with now := now }, p⟩ a) {id : BitVec 32} :
    Transparent s now junk (.readentry id) := by
  have hzero : List.replicate 32 (0 : Byte) = blankName := rfl
  have hreq : s.request now (.readentry id) =
      (hmstrReadentry { s.world with now := now } id blankName blankName s.statics.price).map
        fun x => (.readentry x.1 x.2.1 x.2.2.1 x.2.2.2.1,
          ⟨x.2.2.2.2, { s.statics with price := x.2.2.2.1 }⟩) := by
    rw [← hzero]
    exact Option.map_map ..
  have hexec := exec_readentry { s.world with now := now } id
  show SameOutcome ((Call.readentry id).exec _) (Client.hmstrReadentry (clntCall s now) id)
  rw [Client.hmstrReadentry]
  rcases readentry_price { s.world with now := now } id blankName blankName with ⟨w', he⟩ | ⟨x, he⟩
  · rw [he] at hexec hreq
    rw [hexec, clntCall_some rfl hreq rfl]
    exact ⟨⟨rfl, fun hpos => absurd hpos notFound_neg⟩, rfl⟩
  · rw [he] at hexec hreq
    cases x with
    | none =>
      rw [hexec, clntCall_of_xdr rfl, hreq]
      trivial
    | some x =>
      obtain ⟨ret, owner, name, price, w'⟩ := x
      obtain ⟨howner, hname⟩ := entry_padded ha hexec rfl
      have hxdr : xdrResult (.readentry ret owner name price) = true := by
        rw [xdrResult, xdrNameString_of_le (strlen_of_padded howner),
          xdrNameString_of_le (strlen_of_padded hname)]
        rfl
      rw [hexec, clntCall_some rfl hreq hxdr]
      exact ⟨⟨rfl, fun _ => ⟨cstr_strncpy (strlen_of_padded howner),
        cstr_strncpy (strlen_of_padded hname), rfl⟩⟩, rfl⟩

theorem tooLong_pair {o n : CString} (ho : o.strlen ≤ 31) (hn : n.strlen ≤ 31) :
    (tooLong o || tooLong n) = false :=
  Bool.or_eq_false_iff.mpr ⟨decide_eq_false (Nat.not_lt.mpr ho), decide_eq_false (Nat.not_lt.mpr hn)⟩

/-- A stored uid is no error, so different answers tell different entries. -/
theorem elim_inj {w : World} (hw : Settled w) {x y : Option Hamsterdesc}
    (hx : ∀ h ∈ x, h ∈ storeEntries w) (hy : ∀ h ∈ y, h ∈ storeEntries w) :
    x.elim hmstrErrNotFound (·.uid) = y.elim hmstrErrNotFound (·.uid) ↔
      x.map (·.uid) = y.map (·.uid) := by
  have hne : ∀ h ∈ storeEntries w, h.uid ≠ hmstrErrNotFound := by
    intro h hmem he
    have hpos := hw.ids h hmem
    rw [he] at hpos
    exact notFound_neg hpos
  cases x with
  | none =>
    cases y with
    | none => exact iff_of_true rfl rfl
    | some y => exact iff_of_false (fun he => hne y (hy y rfl) he.symm) nofun
  | some x =>
    cases y with
    | none => exact iff_of_false (hne x (hx x rfl)) nofun
    | some y => exact (Option.some_inj (a := x.uid) (b := y.uid)).symm

theorem lookup_transparent_iff (hw : Settled { s.world with now := now }) {o n : CString}
    (hc : Admissible (.lookup o n)) :
    Transparent s now junk (.lookup o n) ↔ LuckyStack s.world junk (.lookup o n) := by
  have ho : o.strlen ≤ 31 := (hc o (by simp [names])).2
  have hn : n.strlen ≤ 31 := (hc n (by simp [names])).2
  have hdirect := exec_lookup { s.world with now := now } (some o) (some n)
  rw [lookup_ret hw (tooLong_pair ho hn)] at hdirect
  rw [Transparent, StubCall.direct, hdirect]
  cases junk with
  | none => exact iff_of_false id fun ⟨g, hg, _⟩ => nomatch hg
  | some g =>
    have hlucky : LuckyStack s.world (some g) (.lookup o n) ↔
        g.strlen ≤ 31 ∧ storedUid s.world g o = storedUid s.world o n :=
      ⟨fun ⟨_, hg, h⟩ => Option.some.inj hg ▸ h, fun h => ⟨g, rfl, h⟩⟩
    rw [hlucky]
    show SameOutcome _ (Client.hmstrLookup (clntCall s now) (some g) o n) ↔ _
    rw [Client.hmstrLookup]
    have hreq : s.request now (.lookup g o) =
        some (.lookup (hmstrLookup { s.world with now := now } (some g) (some o)).1,
          { s with world := (hmstrLookup { s.world with now := now } (some g) (some o)).2 }) := rfl
    by_cases hg : g.strlen ≤ 31
    · have hx : xdrArgs (.lookup g o) = true := by
        rw [xdrArgs, xdrNameString_of_le hg, xdrNameString_of_le ho]
        rfl
      rw [clntCall_some hx hreq rfl, lookup_ret hw (tooLong_pair hg ho), and_iff_right hg]
      refine Iff.trans ?_ (elim_inj hw (fun h hh => List.mem_of_find?_eq_some hh)
        fun h hh => List.mem_of_find?_eq_some hh)
      exact ⟨fun h => h.1.1, fun h => ⟨⟨h, trivial⟩, rfl⟩⟩
    · refine iff_of_false (fun hsame => ?_) fun h => hg h.1
      -- XDR refuses the name, or the library does
      by_cases hx : xdrArgs (.lookup g o) = true
      · have hlong : (tooLong g || tooLong o) = true := by
          rw [tooLong, decide_eq_true (Nat.not_le.mp hg)]
          rfl
        have href : hmstrLookup { s.world with now := now } (some g) (some o) =
            (hmstrErrNameTooLong, { s.world with now := now }) := by
          simp only [hmstrLookup, hlong, ↓reduceIte]
        rw [clntCall_some hx hreq rfl, href] at hsame
        have hret : hmstrErrNameTooLong =
            ((storeEntries { s.world with now := now }).find? (byName o n)).elim hmstrErrNotFound
              (·.uid) := hsame.1.1
        cases hf : (storeEntries { s.world with now := now }).find? (byName o n) with
        | none =>
          rw [hf] at hret
          exact absurd (show hmstrErrNameTooLong = hmstrErrNotFound from hret) (by decide)
        | some h =>
          rw [hf] at hret
          have hpos := hw.ids h (List.mem_of_find?_eq_some hf)
          exact nameTooLong_neg (hret ▸ hpos)
      · rw [clntCall, if_neg hx] at hsame
        exact hsame

theorem transparent_iff_lucky {p : Nat → Int} {a : State}
    (ha : Represents ⟨{ s.world with now := now }, p⟩ a) (hc : Admissible call) :
    Transparent s now junk call ↔ LuckyStack s.world junk call := by
  cases call with
  | new o n t => exact iff_of_true (new_transparent hc) trivial
  | lookup o n => exact lookup_transparent_iff (settled_of_represents ha) hc
  | directory fdptr o n => exact iff_of_true (directory_transparent hc) trivial
  | howsdoing id => exact iff_of_true howsdoing_transparent trivial
  | readentry id => exact iff_of_true (readentry_transparent ha) trivial
  | givetreats id t => exact iff_of_true givetreats_transparent trivial
  | collect o => exact iff_of_true (collect_transparent hc) trivial

end Calls

/-- Whatever the static variables of the service hold. -/
theorem stubs_transparent_iff {s t : Session} (hs : s.Fresh)
    {tr : List (Event Session Store.Input Reply)} (h : Runs s tr t) (statics : Statics)
    (now : Timestamp) (junk : Option CString) {call : StubCall} (hc : Admissible call) :
    Transparent ⟨t.world, statics⟩ now junk call ↔ LuckyStack t.world junk call := by
  obtain ⟨_, a, -, ha, -⟩ := reachable_represents hs h
  exact transparent_iff_lucky (s := ⟨t.world, statics⟩) (ha.clockAt now) hc

/-- The stack still holds the owner's name, and the hamster has the same. -/
theorem namesake_transparent :
    Transparent ⟨(Session.ofOne .epoch alice alice 3).world, ⟨blankState, 0⟩⟩ .epoch (some alice)
      (.lookup alice alice) := by
  have hc : Admissible (.lookup alice alice) := by
    intro x hx
    obtain rfl : x = alice := by simpa [names] using hx
    decide
  exact (stubs_transparent_iff Session.fresh_initial (Session.runs_ofOne ..) ⟨blankState, 0⟩ .epoch
    (some alice) hc).mpr ⟨alice, rfl, by decide, rfl⟩

/-- Once "a" has brought "b", no stack content makes the lookup of "b" find it. -/
theorem lookup_never_found : ∃ tr t, Runs .initial tr t ∧ Admissible (.lookup alice bert) ∧
    ∀ statics now junk, ¬ Transparent ⟨t.world, statics⟩ now junk (.lookup alice bert) := by
  have hc : Admissible (.lookup alice bert) := by
    intro x hx
    rcases (by simpa [names] using hx : x = alice ∨ x = bert) with rfl | rfl
    · decide
    · decide
  refine ⟨_, _, Session.runs_ofOne .epoch alice bert 0, hc, ?_⟩
  intro statics now junk htrans
  obtain ⟨_, a, -, ha, -⟩ :=
    reachable_represents Session.fresh_initial (Session.runs_ofOne .epoch alice bert 0)
  obtain ⟨g, -, -, huid⟩ := (transparent_iff_lucky
    (s := ⟨(Session.ofOne .epoch alice bert 0).world, statics⟩) (ha.clockAt now) hc).mp htrans
  have hstore : storeEntries (Session.ofOne .epoch alice bert 0).world =
      [newEntry .epoch alice bert 0] :=
    Session.storeEntries_ofOne (by decide)
  have hname : (newEntry .epoch alice bert 0).nameStr ≠ alice := by decide +kernel
  have hnone : storedUid (Session.ofOne .epoch alice bert 0).world g alice = none := by
    rw [storedUid, hstore, List.find?_singleton, byName, decide_eq_false hname, Bool.and_false]
    rfl
  have hsome : storedUid (Session.ofOne .epoch alice bert 0).world alice bert =
      some (makeHash alice bert) := by
    rw [storedUid, hstore]
    decide +kernel
  change storedUid (Session.ofOne .epoch alice bert 0).world g alice = _ at huid
  rw [hnone, hsome] at huid
  cases huid

end Hamster.Contract.Transparency
