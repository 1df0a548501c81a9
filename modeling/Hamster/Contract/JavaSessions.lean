import Hamster.Contract.Sites
import Hamster.Store.Amounts
import Hamster.Store.Frame

/-!
# Sessions of Java clients are sessions of the asylum

As long as nobody goes on with a handle that has thrown, every call of every client comes
to what the asylum makes of it, and the database is that of the guests.
-/
namespace Hamster.Contract.JavaSessions

open Lib.Bytes Lib.Clock Lib.Posix Lib.Runs Store Store.Entry Store.Frame Store.Library Store.Scans
  Server.Messages Client.Stubs Client.Exchange Contract.Arguments Contract.RoundTrip
  Contract.Results Contract.Sites
open Asylum (Guest State Represents StandsAt step_agree)
open Contract.Pairing (signExtend_setWidth_iff)
open Contract.RemoteDirectory (assign toInt_ofInt_handle tooLong_filters)

section Handles
variable {w : World} {p : Int} {o n : Option CString}

/-- A handle that was given or opened has a number an `int` holds. -/
theorem directory_bounds (hr : w.Reliable) (hp : -1 ≤ p ∧ p < 2 ^ 31) (hlt : w.lowestFree < 2 ^ 31) :
    -1 ≤ (hmstrDirectory w p o n).2.1 ∧ (hmstrDirectory w p o n).2.1 < 2 ^ 31 := by
  cases hl : tooLongOpt o || tooLongOpt n with
  | true =>
    rw [directory_of_tooLong hl]
    exact hp
  | false =>
    cases hfd : directoryFd w p with
    | mk fd v =>
      cases fd with
      | none =>
        have he : (hmstrDirectory w p o n).2.1 = -1 := by
          simp only [hmstrDirectory, hl, hfd, Bool.false_eq_true, ↓reduceIte]
        rw [he]
        decide
      | some fd =>
        have hsmall : (fd : Int) < 2 ^ 31 := by
          rcases Int.lt_or_le p 0 with hneg | hpos
          · rw [directoryFd, if_pos hneg] at hfd
            cases hn : w.names .datafile with
            | none =>
              rw [Sys.openFile_missing hr hn _ (by decide)] at hfd
              cases hfd
            | some ino =>
              rw [Sys.openFile_existing hr hn] at hfd
              cases hfd
              omega
          · rw [directoryFd_of_nonneg hpos] at hfd
            obtain ⟨h, -⟩ := Prod.mk.inj hfd
            obtain rfl := Option.some.inj h
            omega
        rcases directory_of_fd hl hfd with ⟨bs, v', -, he⟩ | ⟨last, v', -, he⟩
        · rw [he]
          exact ⟨by dsimp only; omega, hsmall⟩
        · rw [he]
          exact ⟨le_rfl, show (-1 : Int) < 2 ^ 31 by decide⟩

/-- The handles the callers may still use; the others have thrown. -/
def inUse (fdptr : Nat → BitVec 32) (dead : List Nat) (v : Nat) : Int :=
  if v ∈ dead then -1 else (fdptr v).toInt

/-- How the site stands for a state of the asylum. -/
structure Stands (s : Site) (dead : List Nat) (a : State) : Prop where
  represents : Represents ⟨s.world, inUse s.fdptr dead⟩ a
  legible : ∀ g ∈ a.guests, Legible g
  bounds : ∀ v, -1 ≤ (s.fdptr v).toInt

theorem sends_withHandle {call : StubCall} (p : BitVec 32) (h : Sends call) :
    Sends (withHandle p call) := by
  cases call <;> exact h

theorem checked_withHandle {call : StubCall} (p : BitVec 32) (h : Checked call) :
    Checked (withHandle p call) := by
  cases call <;> exact h

/-- The library gets the handle that stands for the caller's. -/
theorem wireCall_withHandle {fdptr : Nat → BitVec 32} {dead : List Nat} {i : Request}
    (h : lists i.call = true → i.handle ∉ dead) :
    i.asked.2.map (inUse fdptr dead) = wireCall (withHandle (fdptr i.handle) i.call) := by
  obtain ⟨client, now, surroundings, handle, call⟩ := i
  cases call with
  | directory p o n =>
    have halive : inUse fdptr dead handle = (fdptr handle).toInt := if_neg (h rfl)
    show Call.directory (inUse fdptr dead handle) _ _ = _
    rw [halive]
    rfl
  | new | lookup | howsdoing | readentry | givetreats | collect => rfl

theorem heard_handle (ret : BitVec 32) (q : Int) :
    (heard ⟨ret, .handle q⟩).map shown = heard ⟨ret, .none⟩ := by
  unfold heard
  by_cases hr : 0 ≤ ret.toInt
  · rw [if_pos hr, if_pos hr]
    rfl
  · rw [if_neg hr, if_neg hr]
    cases exceptionOf ret <;> rfl

theorem threw_heard (r : Reply) : threw (heard r) = decide (r.ret.toInt < 0) := by
  unfold heard
  by_cases hr : 0 ≤ r.ret.toInt
  · rw [if_pos hr, decide_eq_false (Int.not_lt.mpr hr)]
    rfl
  · rw [if_neg hr, decide_eq_true (Int.not_le.mp hr)]
    cases exceptionOf r.ret <;> rfl

theorem inUse_cons (fdptr : Nat → BitVec 32) (dead : List Nat) (v : Nat) :
    inUse fdptr (v :: dead) = Function.update (inUse fdptr dead) v (-1) := by
  funext v'
  by_cases hv : v' = v
  · subst hv
    rw [Function.update_self, inUse, if_pos List.mem_cons_self]
  · rw [Function.update_of_ne hv]
    simp only [inUse, List.mem_cons, hv, false_or]

theorem inUse_update {fdptr : Nat → BitVec 32} {dead : List Nat} {v : Nat} (h : v ∉ dead)
    (p : BitVec 32) : inUse (Function.update fdptr v p) dead =
      Function.update (inUse fdptr dead) v p.toInt := by
  funext v'
  by_cases hv : v' = v
  · subst hv
    rw [Function.update_self, inUse, if_neg h, Function.update_self]
  · rw [Function.update_of_ne hv, inUse, Function.update_of_ne hv]
    rfl

end Handles

section Step
variable {s t : Site} {dead : List Nat} {a : State} {i : Request} {out : Outcome}

/-- The handles that are lost with an outcome. -/
def lost (i : Request) (out : Outcome) : List Nat :=
  if lists i.call = true ∧ threw out = true then [i.handle] else []

/-- A call without a handle. -/
theorem plain_stands (hst : Stands s dead a) (hl : lists i.call = false) {r : Reply} {b : State}
    {w' : World} {h : Header} {c : Connection}
    (hrep : Represents ⟨w', inUse s.fdptr dead⟩ b) (hg : ∀ g ∈ b.guests, Legible g)
    (hf : 0 ≤ r.ret.toInt → Fits i.call r.out) :
    (heard r).map shown = heard r ∧ Stands ⟨w', h, Function.update s.connection i.client c,
      Function.update s.fdptr i.handle (assign (s.fdptr i.handle) (heard r))⟩
      (lost i (heard r) ++ dead) b := by
  have hshape : ∀ ret p, heard r ≠ .ok (.handle ret p) := by
    intro ret p he
    unfold heard at he
    by_cases hr : 0 ≤ r.ret.toInt
    · rw [if_pos hr] at he
      have hfit := hf hr
      obtain ⟨ret', out⟩ := r
      cases out with
      | handle q =>
        cases hcall : i.call <;> simp [hcall, lists, Fits] at hl hfit
      | none | state | entry => cases he
    · rw [if_neg hr] at he
      cases hx : exceptionOf r.ret <;> rw [hx] at he <;> cases he
  have hsame : assign (s.fdptr i.handle) (heard r) = s.fdptr i.handle := by
    unfold assign
    split
    · rename_i ret p he
      exact absurd he (hshape ret p)
    · rfl
  have hlost : lost i (heard r) = [] := if_neg fun hx => by rw [hl] at hx; cases hx.1
  refine ⟨?_, ?_⟩
  · cases hx : heard r with
    | error e => rfl
    | ok res =>
      cases res with
      | handle ret p => exact absurd hx (hshape ret p)
      | value | state | entry => rfl
  · rw [hsame, Function.update_eq_self, hlost]
    exact ⟨hrep, hg, hst.bounds⟩

/-- A failed listing of the asylum closes the cursor. -/
theorem closed_of_directory {v : Nat} {o n : Option CString}
    (hl : (tooLongOpt o || tooLongOpt n) = false) (hr : (a.directory v o n).1.ret.toInt < 0) :
    (a.directory v o n).2.cursor v = .closed := by
  rw [State.directory, hl] at hr ⊢
  cases hd : (a.toVisit (a.cursor v)).dropWhile (fun g => !g.passes o n) with
  | nil => exact Function.update_self ..
  | cons g rest =>
    rw [hd] at hr
    exact absurd hr (Int.not_lt.mpr (Amounts.makeHash_nonneg _ _))

/-- A call that lists. -/
theorem listing_stands (hst : Stands s dead a) (halive : i.handle ∉ dead) {ret : BitVec 32}
    {q : Int} {b : State} {w' : World} {h : Header} {c : Connection}
    (hrep : Represents ⟨w', Function.update (inUse s.fdptr dead) i.handle q⟩ b)
    (hg : ∀ g ∈ b.guests, Legible g) (hq : -1 ≤ q ∧ q < 2 ^ 31) (hl : lists i.call = true)
    (hclosed : ret.toInt < 0 → q = -1) :
    Stands ⟨w', h, Function.update s.connection i.client c,
      Function.update s.fdptr i.handle (assign (s.fdptr i.handle) (heard ⟨ret, .handle q⟩))⟩
      (lost i (heard ⟨ret, .handle q⟩) ++ dead) b := by
  by_cases hr : 0 ≤ ret.toInt
  · have hheard : heard ⟨ret, .handle q⟩ = .ok (.handle ret (BitVec.ofInt 32 q)) := if_pos hr
    have hlost : lost i (heard ⟨ret, .handle q⟩) = [] := by
      rw [hheard]
      exact if_neg fun hx => nomatch hx.2
    rw [hlost, hheard]
    refine ⟨?_, hg, fun v => ?_⟩
    · have he : inUse (Function.update s.fdptr _ _) dead = _ :=
        inUse_update halive (BitVec.ofInt 32 q)
      rw [toInt_ofInt_handle hq] at he
      exact he ▸ hrep
    · show -1 ≤ (Function.update s.fdptr i.handle (BitVec.ofInt 32 q) v).toInt
      by_cases hv : v = i.handle
      · rw [hv, Function.update_self, toInt_ofInt_handle hq]
        exact hq.1
      · rw [Function.update_of_ne hv]
        exact hst.bounds v
  · obtain ⟨e, he⟩ : ∃ e, heard ⟨ret, .handle q⟩ = .error e := by
      unfold heard
      rw [if_neg hr]
      cases exceptionOf ret with
      | none => exact ⟨_, rfl⟩
      | some x => exact ⟨_, rfl⟩
    have hlost : lost i (heard ⟨ret, .handle q⟩) = [i.handle] := by
      rw [he]
      exact if_pos ⟨hl, rfl⟩
    rw [hlost, he]
    refine ⟨?_, hg, fun v => ?_⟩
    · rw [hclosed (Int.not_le.mp hr)] at hrep
      have hsame : Function.update s.fdptr i.handle (assign (s.fdptr i.handle) (.error e)) =
          s.fdptr := Function.update_eq_self ..
      rw [hsame, List.singleton_append, inUse_cons]
      exact hrep
    · show -1 ≤ (Function.update s.fdptr i.handle (s.fdptr i.handle) v).toInt
      rw [Function.update_eq_self]
      exact hst.bounds v

theorem settle_of_plain (hl : lists i.call = false) (x : Session) (r : Reply) (w : World) :
    x.settle i.asked.2 r w = (r, ⟨w, x.handle⟩) := by
  obtain ⟨client, now, surroundings, handle, call⟩ := i
  cases call with
  | directory => cases hl
  | new | lookup | howsdoing | readentry | givetreats | collect => rfl

theorem withHandle_of_plain {call : StubCall} (hl : lists call = false) (p : BitVec 32) :
    withHandle p call = call := by
  cases call with
  | directory => cases hl
  | new | lookup | howsdoing | readentry | givetreats | collect => rfl

/-- A call comes to what the asylum makes of it. -/
theorem step_stands (hst : Stands s dead a) (hs : Sends i.call) (hc : Checked i.call)
    (ht : Tidy i.call) (halive : lists i.call = true → i.handle ∉ dead)
    (hroom : s.world.lowestFree < 2 ^ 31) (ha : AcceptsOwn (s.connection i.client))
    (h : s.step i = some (out, t)) :
    ∃ r b, a.step i.asked = some (r, b) ∧ out = heard r ∧ Stands t (lost i out ++ dead) b ∧
      t.connection = Function.update s.connection i.client (advanced (s.connection i.client)) := by
  obtain ⟨x, hx, he⟩ := Option.map_eq_some_iff.mp h
  obtain ⟨r, w', stale', hex, hheard⟩ :=
    roundTrip_heard (sends_withHandle _ hs) (checked_withHandle _ hc) ha hx
  have hag := step_agree i.asked hst.represents
  have hsession : Session.step ⟨s.world, inUse s.fdptr dead⟩ i.asked =
      some (Session.settle ⟨s.world, inUse s.fdptr dead⟩ i.asked.2 r w') := by
    rw [Session.step, show i.asked.2.map (inUse s.fdptr dead) = _ from wireCall_withHandle halive]
    show (Call.exec { s.world with now := i.now } _).map _ = _
    rw [hex]
    rfl
  rw [hsession] at hag
  have hlegible {r' : Reply} {b : State} (hstep : a.step i.asked = some (r', b)) :
      ∀ g ∈ b.guests, Legible g := by
    intro g hmem
    rw [State.step_guests hstep] at hmem
    exact legible_effect ht hst.legible g hmem
  cases hl : lists i.call with
  | false =>
    rw [settle_of_plain hl] at hag
    obtain ⟨b, hstep, hrep⟩ := hag.of_some
    rw [withHandle_of_plain hl] at hex hheard
    have hf : 0 ≤ r.ret.toInt → Fits i.call r.out ∧ Clean r.out :=
      fits_of_exec hl hst.legible hex hstep
    rw [hheard hf] at he
    cases he
    obtain ⟨hshown, hstands⟩ := plain_stands hst hl hrep (hlegible hstep) fun hr => (hf hr).1
    rw [hshown]
    exact ⟨r, b, hstep, rfl, hstands, rfl⟩
  | true =>
    obtain ⟨client, now, surroundings, v, call⟩ := i
    cases call with
    | new | lookup | howsdoing | readentry | givetreats | collect => cases hl
    | directory p o n =>
      have hlong : (tooLongOpt (wireFilter o) || tooLongOpt (wireFilter n)) = false :=
        tooLong_filters hs
      obtain ⟨ret, q, w₁, hdir⟩ : ∃ ret q w₁, hmstrDirectory { s.world with now := now }
          (s.fdptr v).toInt (wireFilter o) (wireFilter n) = (ret, q, w₁) := ⟨_, _, _, rfl⟩
      change (Call.directory (s.fdptr v).toInt (wireFilter o) (wireFilter n)).exec _ = _ at hex
      rw [exec_directory] at hex
      dsimp only at hex
      rw [hdir] at hex
      cases hex
      have hsettle : Session.settle ⟨s.world, inUse s.fdptr dead⟩
          (Request.asked ⟨client, now, surroundings, v, .directory p o n⟩).2 ⟨ret, .handle q⟩ w₁ =
          (⟨ret, .none⟩, ⟨w₁, Function.update (inUse s.fdptr dead) v q⟩) := rfl
      rw [hsettle] at hag
      obtain ⟨b, hstep, hrep⟩ := hag.of_some
      have hq : -1 ≤ q ∧ q < 2 ^ 31 := by
        have hbounds := directory_bounds (o := wireFilter o) (n := wireFilter n)
          (hst.represents.clockAt now).reliable ⟨hst.bounds v, BitVec.toInt_lt⟩ hroom
        rw [Session.clockAt] at hbounds
        dsimp only at hbounds
        rwa [hdir] at hbounds
      have hf : 0 ≤ ret.toInt → Fits (.directory (s.fdptr v) o n) (.handle q) ∧ Clean (.handle q) :=
        fun _ => ⟨toInt_ofInt_handle hq, trivial⟩
      rw [hheard hf] at he
      cases he
      have hanswer : a.directory v (wireFilter o) (wireFilter n) = (⟨ret, .none⟩, b) :=
        Option.some.inj hstep
      have hclosed : ret.toInt < 0 → q = -1 := by
        intro hr
        have hcursor : b.cursor v = .closed := by
          have h := closed_of_directory (a := a) (v := v) hlong (by rw [hanswer]; exact hr)
          rwa [hanswer] at h
        have hstands := hrep.stands v
        change StandsAt w₁ b (Function.update (inUse s.fdptr dead) v q v) _ at hstands
        rw [Function.update_self, hcursor] at hstands
        cases hstands
        rfl
      rw [heard_handle]
      have hsame : lost ⟨client, now, surroundings, v, .directory p o n⟩ (heard ⟨ret, .none⟩) =
          lost ⟨client, now, surroundings, v, .directory p o n⟩ (heard ⟨ret, .handle q⟩) := by
        rw [lost, lost, threw_heard, threw_heard]
      rw [hsame]
      exact ⟨_, b, hstep, rfl, listing_stands hst (halive rfl) hrep (hlegible hstep) hq rfl hclosed,
        rfl⟩

end Step

section History
variable {s t : Site} {tr : History}

/-- The handles that have thrown, the last first. -/
def lostIn (tr : History) : List Nat := tr.reverse.flatMap fun e => lost e.input e.output

theorem lostIn_append (tr : History) (e : Event Site Request Outcome) :
    lostIn (tr ++ [e]) = lost e.input e.output ++ lostIn tr := by
  simp [lostIn]

/-- A careful caller's handle is not among the lost ones. -/
theorem alive_of_careful {e : Event Site Request Outcome} (h : Careful (tr ++ [e]))
    (hl : lists e.input.call = true) : e.input.handle ∉ lostIn tr := by
  intro hmem
  obtain ⟨e', he', hlost⟩ := List.mem_flatMap.mp hmem
  rw [List.mem_reverse] at he'
  unfold lost at hlost
  split at hlost
  · rename_i hthrew
    have hne := (List.pairwise_append.mp h).2.2 e' he' e (List.mem_singleton_self e)
    exact hne hthrew.1 hthrew.2 hl (List.mem_singleton.mp hlost).symm
  · cases hlost

/-- Each request takes the next number. -/
def Counted (s m : Site) (tr : History) : Prop :=
  ∀ k, m.connection k =
    { s.connection k with requestCounter := BitVec.ofNat 32 (tr.countP (·.input.client = k)) }

theorem counted_append {m t : Site} {i : Request} {out : Outcome} (h : Counted s m tr)
    (ht : t.connection = Function.update m.connection i.client (advanced (m.connection i.client))) :
    Counted s t (tr ++ [⟨m, i, out⟩]) := by
  intro k
  rw [ht, List.countP_append, List.countP_singleton]
  by_cases hk : i.client = k
  · subst hk
    rw [Function.update_self, advanced, h i.client]
    simp only [decide_true, ↓reduceIte, BitVec.ofNat_add]
    rfl
  · have hne : ¬ k = i.client := fun he => hk he.symm
    rw [Function.update_of_ne hne, h k]
    simp only [hk, decide_false, Bool.false_eq_true, ↓reduceIte, Nat.add_zero]

theorem acceptsOwn_of_counted {m : Site} (hc : Counted s m tr) (k : Nat)
    (hlt : tr.countP (·.input.client = k) < 2 ^ 15) : AcceptsOwn (m.connection k) := by
  refine .inr ?_
  rw [hc k]
  refine (signExtend_setWidth_iff _).mpr (.inl ?_)
  omega

/-- How a run of the site stands for one of the asylum. -/
def Follows (s : Site) (tr : History) (m : Site) : Prop :=
  ∃ tr' b, Run State.step .start tr' b ∧ inputs tr' = (inputs tr).map Request.asked ∧
    outputs tr = (outputs tr').map heard ∧ Stands m (lostIn tr) b ∧ Counted s m tr

theorem follows_start (hs : s.Fresh) : Follows s [] s := by
  refine ⟨[], .start, .nil _, rfl, rfl, ⟨?_, List.forall_mem_nil _, fun v => ?_⟩, fun k => ?_⟩
  · have hhandles : inUse s.fdptr (lostIn []) = fun _ => -1 :=
      funext fun v => congrArg BitVec.toInt (hs.handles v)
    rw [hhandles]
    exact Asylum.represents_start hs.server
  · rw [hs.handles v]
    decide
  · obtain ⟨testing, h⟩ := hs.connections k
    rw [h]
    rfl

theorem follows_step {m t : Site} {i : Request} {out : Outcome} (h : Follows s tr m)
    (ho : Orderly (tr ++ [⟨m, i, out⟩])) (hstep : m.step i = some (out, t)) :
    Follows s (tr ++ [⟨m, i, out⟩]) t := by
  obtain ⟨tr', a, hrun, hin, hout, hst, hc⟩ := h
  have hlast : ⟨m, i, out⟩ ∈ tr ++ [⟨m, i, out⟩] := List.mem_append_right _ (List.mem_singleton_self _)
  have hcount : tr.countP (·.input.client = i.client) < 2 ^ 15 := by
    have hfew := ho.few i.client
    rw [List.countP_append, List.countP_singleton, if_pos (decide_eq_true rfl)] at hfew
    exact hfew
  obtain ⟨r, b, hb, rfl, hst', hconn⟩ := step_stands hst (ho.sends _ hlast) (ho.checked _ hlast)
    (ho.tidy _ hlast) (alive_of_careful ho.careful) (ho.room _ hlast)
    (acceptsOwn_of_counted hc _ hcount) hstep
  refine ⟨tr' ++ [⟨a, i.asked, r⟩], b, hrun.append (.single hb), ?_, ?_, ?_, ?_⟩
  · rw [inputs, List.map_append, ← inputs, hin]
    simp [inputs]
  · rw [outputs, List.map_append, ← outputs, hout]
    simp [outputs]
  · rw [lostIn_append]
    exact hst'
  · exact counted_append hc hconn

/-- Sessions of Java clients, seen by their callers, are sessions of the asylum. -/
theorem sessions_refine (hs : s.Fresh) (h : Run Site.step s tr t) (ho : Orderly tr) :
    ∃ tr' b, Run State.step .start tr' b ∧ inputs tr' = (inputs tr).map Request.asked ∧
      outputs tr = (outputs tr').map heard ∧
      storeEntries t.world = b.guests.map Guest.entry := by
  have hfollows : Orderly tr → Follows s tr t := by
    refine Run.extend (P := fun tr m => Orderly tr → Follows s tr m) (fun _ => follows_start hs) ?_ h
    intro tr m i out t hm hstep ho
    exact follows_step (hm ho.of_append) ho hstep
  obtain ⟨tr', b, hrun, hin, hout, hst, -⟩ := hfollows ho
  exact ⟨tr', b, hrun, hin, hout, Asylum.storeEntries_of_represents hst.represents⟩

def empty : Site := ⟨Session.initial.world, ⟨0, 0, 0, 0, 0⟩, fun _ => .opened false, fun _ => -1⟩

theorem fresh_empty : empty.Fresh :=
  ⟨Session.fresh_initial, fun _ => ⟨false, rfl⟩, fun _ => rfl⟩

/-- One client brings a hamster, another lists them with a handle of its own until it throws. -/
def visit : List Request :=
  [⟨0, .epoch, .plain, 0, .new (some [97]) (some [98]) (some 5)⟩,
    ⟨1, .epoch, .plain, 7, .directory 0 none none⟩,
    ⟨1, .epoch, .plain, 7, .directory 0 none none⟩]

def visited : History × Site := trace Site.step empty visit

theorem inputs_visited : inputs visited.1 = visit := by
  have hlength : (inputs visited.1).length = visit.length := by decide +kernel
  exact (Run.inputs_trace visit empty).eq_of_length hlength

theorem orderly_visited : Orderly visited.1 := by
  have hinput : ∀ e ∈ visited.1, e.input ∈ visit := fun e he =>
    inputs_visited ▸ List.mem_map_of_mem he
  have hchecked : ∀ i ∈ visit, Checked i.call ∧ Tidy i.call := by decide +kernel
  refine ⟨fun e he => ?_, fun e he => (hchecked _ (hinput e he)).1,
    fun e he => (hchecked _ (hinput e he)).2, ?_, ?_, fun k => ?_⟩
  · have hmem := hinput e he
    simp only [visit, List.mem_cons, List.not_mem_nil, or_false] at hmem
    rcases hmem with h | h | h
    · rw [h]
      exact ⟨rfl, rfl, rfl⟩
    · rw [h]
      exact ⟨rfl, rfl⟩
    · rw [h]
      exact ⟨rfl, rfl⟩
  · unfold Careful
    decide +kernel
  · decide +kernel
  · exact List.countP_le_length.trans (by decide +kernel)

theorem sessions_refine_visit : ∃ tr' b, Run State.step .start tr' b ∧
    inputs tr' = (inputs visited.1).map Request.asked ∧
      outputs visited.1 = (outputs tr').map heard ∧
      storeEntries visited.2.world = b.guests.map Guest.entry :=
  sessions_refine fresh_empty (Run.of_trace visit empty) orderly_visited

end History

end Hamster.Contract.JavaSessions
