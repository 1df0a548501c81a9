import Hamster.Lib.Runs
import Mathlib.Logic.Function.Basic

/-!
# Calls over datagrams

Any number of clients and one server. A datagram under way may be lost, copied, and
overtaken by others. A client has at most one call pending; it sends its request as often
as it likes, and takes the first reply that bears the number of this call. The server runs
its routine for every copy of a request that reaches it.
-/
namespace Hamster.Lib.Datagrams

open Lib.Runs

/-- Names a call: whose it is, and how many calls of this client came before. -/
structure Xid (κ : Type) where
  client : κ
  seq : Nat
  deriving DecidableEq

structure Net (κ σ ι ω : Type) where
  server : σ
  /-- How many calls of a client are over. -/
  made : κ → Nat
  pending : κ → Option ι
  requests : List (Xid κ × ι)
  replies : List (Xid κ × ω)

/-- What may happen to a datagram under way. -/
inductive Hazard (β : Type)
  | lose (d : β)
  | copy (d : β)

/-- `env` is what the routine reads besides its request; `background` is what happens at the
server between two requests. -/
inductive Move (κ ι ω ε μ : Type)
  | call (c : κ) (i : ι)
  | resend (c : κ)
  | giveUp (c : κ)
  | serve (env : ε) (d : Xid κ × ι)
  | accept (d : Xid κ × ω)
  | request (h : Hazard (Xid κ × ι))
  | reply (h : Hazard (Xid κ × ω))
  | background (m : μ)

inductive Note (κ ι ω : Type)
  | began (x : Xid κ) (i : ι)
  | executed (x : Xid κ) (i : ι) (o : ω)
  | returned (x : Xid κ) (o : ω)
  | quiet
  deriving DecidableEq

variable {κ σ ι ω ε μ : Type}

namespace Net

def start (s : σ) : Net κ σ ι ω := ⟨s, fun _ => 0, fun _ => none, [], []⟩

/-- The number of the call a client has pending, or makes next. -/
def xid (net : Net κ σ ι ω) (c : κ) : Xid κ := ⟨c, net.made c⟩

/-- The pending call is over, answered or not. -/
def finish [DecidableEq κ] (net : Net κ σ ι ω) (c : κ) : Net κ σ ι ω :=
  { net with
    made := Function.update net.made c (net.made c + 1)
    pending := Function.update net.pending c none }

section Finish
variable [DecidableEq κ] (net : Net κ σ ι ω) {c c' : κ}

@[simp] theorem finish_made_self : (net.finish c).made c = net.made c + 1 :=
  Function.update_self ..

@[simp] theorem finish_pending_self : (net.finish c).pending c = none :=
  Function.update_self ..

theorem finish_made_of_ne (h : c' ≠ c) : (net.finish c).made c' = net.made c' :=
  Function.update_of_ne h _ _

theorem finish_xid_of_ne (h : c' ≠ c) : (net.finish c).xid c' = net.xid c' :=
  congrArg (Xid.mk c') (net.finish_made_of_ne h)

theorem finish_pending_of_ne (h : c' ≠ c) : (net.finish c).pending c' = net.pending c' :=
  Function.update_of_ne h _ _

end Finish
end Net

def Hazard.act {β : Type} [DecidableEq β] (ds : List β) : Hazard β → Option (List β)
  | .lose d => if d ∈ ds then some (ds.erase d) else none
  | .copy d => if d ∈ ds then some (d :: ds) else none

section Step
variable [DecidableEq κ] [DecidableEq ι] [DecidableEq ω]
variable (routine : σ → ε → ι → Option (ω × σ)) (background : σ → μ → σ)

def step (net : Net κ σ ι ω) : Move κ ι ω ε μ → Option (Note κ ι ω × Net κ σ ι ω)
  | .call c i =>
    if net.pending c = none then
      some (.began (net.xid c) i, { net with
        pending := Function.update net.pending c (some i)
        requests := (net.xid c, i) :: net.requests })
    else none
  | .resend c => (net.pending c).map fun i =>
      (.quiet, { net with requests := (net.xid c, i) :: net.requests })
  | .giveUp c => (net.pending c).map fun _ => (.quiet, net.finish c)
  | .serve env d =>
    if d ∈ net.requests then
      (routine net.server env d.2).map fun (o, s) => (.executed d.1 d.2 o, { net with
        server := s
        requests := net.requests.erase d
        replies := (d.1, o) :: net.replies })
    else none
  | .accept d =>
    if d ∈ net.replies then
      -- a reply to a call that is over is dropped
      if d.1 = net.xid d.1.client ∧ (net.pending d.1.client).isSome then
        some (.returned d.1 d.2, { net.finish d.1.client with replies := net.replies.erase d })
      else some (.quiet, { net with replies := net.replies.erase d })
    else none
  | .request h => (h.act net.requests).map fun ds => (.quiet, { net with requests := ds })
  | .reply h => (h.act net.replies).map fun ds => (.quiet, { net with replies := ds })
  | .background m => some (.quiet, { net with server := background net.server m })

end Step

/-! ## The server -/

section Server
variable [DecidableEq κ] [DecidableEq ι] [DecidableEq ω]
variable {routine : σ → ε → ι → Option (ω × σ)} {background : σ → μ → σ}
variable {net net' : Net κ σ ι ω} {m : Move κ ι ω ε μ} {note : Note κ ι ω}

/-- The server is idle, or it executes one request. -/
theorem step_server (h : step routine background net m = some (note, net')) :
    ((∀ x i o, note ≠ .executed x i o) ∧
      (net'.server = net.server ∨ ∃ b, net'.server = background net.server b)) ∨
    ∃ env x i o, note = .executed x i o ∧ routine net.server env i = some (o, net'.server) := by
  cases m with
  | call c i =>
    rw [step] at h
    split at h
    · cases h
      exact .inl ⟨nofun, .inl rfl⟩
    · cases h
  | resend c =>
    obtain ⟨i, -, h⟩ := Option.map_eq_some_iff.mp h
    cases h
    exact .inl ⟨nofun, .inl rfl⟩
  | giveUp c =>
    obtain ⟨i, -, h⟩ := Option.map_eq_some_iff.mp h
    cases h
    exact .inl ⟨nofun, .inl rfl⟩
  | serve env d =>
    rw [step] at h
    split at h
    · obtain ⟨⟨o, s⟩, hs, h⟩ := Option.map_eq_some_iff.mp h
      cases h
      exact .inr ⟨env, d.1, d.2, o, rfl, hs⟩
    · cases h
  | accept d =>
    rw [step] at h
    split at h
    · split at h
      · cases h
        exact .inl ⟨nofun, .inl rfl⟩
      · cases h
        exact .inl ⟨nofun, .inl rfl⟩
    · cases h
  | request hz =>
    obtain ⟨ds, -, h⟩ := Option.map_eq_some_iff.mp h
    cases h
    exact .inl ⟨nofun, .inl rfl⟩
  | reply hz =>
    obtain ⟨ds, -, h⟩ := Option.map_eq_some_iff.mp h
    cases h
    exact .inl ⟨nofun, .inl rfl⟩
  | background b =>
    cases h
    exact .inl ⟨nofun, .inr ⟨b, rfl⟩⟩

end Server

/-! ## Where datagrams come from -/

/-- Every request under way was sent for a call, every reply was made by executing one. -/
structure Accounted (notes : List (Note κ ι ω)) (net : Net κ σ ι ω) : Prop where
  requests : ∀ d ∈ net.requests, .began d.1 d.2 ∈ notes
  pending : ∀ c i, net.pending c = some i → .began (net.xid c) i ∈ notes
  replies : ∀ d ∈ net.replies, ∃ i, .executed d.1 i d.2 ∈ notes
  executed : ∀ x i o, .executed x i o ∈ notes → .began x i ∈ notes
  returned : ∀ x o, .returned x o ∈ notes → ∃ i, .executed x i o ∈ notes
  /-- A call that began is over or pending. -/
  numbers : ∀ x i, .began x i ∈ notes →
    x.seq < net.made x.client ∨ (x = net.xid x.client ∧ net.pending x.client = some i)
  unique : ∀ x i j, .began x i ∈ notes → .began x j ∈ notes → i = j

theorem accounted_start (s : σ) : Accounted [] (Net.start s : Net κ σ ι ω) :=
  ⟨nofun, nofun, nofun, nofun, nofun, nofun, nofun⟩

namespace Accounted
variable {net net' : Net κ σ ι ω} {notes : List (Note κ ι ω)}

/-- Nothing is under way but what was, requests of pending calls and replies to executed
ones. -/
theorem traffic (h : Accounted notes net)
    (hreq : ∀ d ∈ net'.requests, d ∈ net.requests ∨
      (d.1 = net.xid d.1.client ∧ net.pending d.1.client = some d.2))
    (hrep : ∀ d ∈ net'.replies, d ∈ net.replies ∨ ∃ i, .executed d.1 i d.2 ∈ notes)
    (hmade : net'.made = net.made)
    (hpend : net'.pending = net.pending) : Accounted notes net' := by
  have hxid : net'.xid = net.xid := by
    funext c
    rw [Net.xid, Net.xid, hmade]
  refine ⟨?_, ?_, ?_, h.executed, h.returned, ?_, h.unique⟩
  · intro d hd
    rcases hreq d hd with hd | ⟨hx, hp⟩
    · exact h.requests d hd
    · rw [hx]
      exact h.pending _ _ hp
  · rw [hpend, hxid]
    exact h.pending
  · intro d hd
    rcases hrep d hd with hd | hexec
    · exact h.replies d hd
    · exact hexec
  · rw [hmade, hxid, hpend]
    exact h.numbers

theorem finish [DecidableEq κ] (h : Accounted notes net) (c : κ) :
    Accounted notes (net.finish c) := by
  refine ⟨h.requests, ?_, h.replies, h.executed, h.returned, ?_, h.unique⟩
  · intro c' i hp
    by_cases hc : c' = c
    · subst hc
      rw [Net.finish_pending_self] at hp
      cases hp
    · rw [net.finish_pending_of_ne hc] at hp
      rw [net.finish_xid_of_ne hc]
      exact h.pending c' i hp
  · intro x i hb
    by_cases hc : x.client = c
    · left
      rw [hc, Net.finish_made_self, ← hc]
      rcases h.numbers x i hb with hlt | ⟨hx, -⟩
      · exact Nat.lt_succ_of_lt hlt
      · rw [hx]
        exact Nat.lt_succ_self _
    · rw [net.finish_made_of_ne hc, net.finish_xid_of_ne hc, net.finish_pending_of_ne hc]
      exact h.numbers x i hb

/-- A note that can be accounted for, but not of a new call. -/
theorem append (h : Accounted notes net) {n : Note κ ι ω} (hb : ∀ x i, n ≠ .began x i)
    (he : ∀ x i o, n = .executed x i o → .began x i ∈ notes)
    (hr : ∀ x o, n = .returned x o → ∃ i, .executed x i o ∈ notes) :
    Accounted (notes ++ [n]) net := by
  have hold : ∀ {x i}, .began x i ∈ notes ++ [n] → .began x i ∈ notes := by
    intro x i hm
    rcases List.mem_append.mp hm with hm | hm
    · exact hm
    · exact absurd (List.mem_singleton.mp hm).symm (hb x i)
  constructor
  · exact fun d hd => List.mem_append_left _ (h.requests d hd)
  · exact fun c i hp => List.mem_append_left _ (h.pending c i hp)
  · exact fun d hd => (h.replies d hd).imp fun _ hi => List.mem_append_left _ hi
  · intro x i o hm
    rcases List.mem_append.mp hm with hm | hm
    · exact List.mem_append_left _ (h.executed x i o hm)
    · exact List.mem_append_left _ (he x i o (List.mem_singleton.mp hm).symm)
  · intro x o hm
    rcases List.mem_append.mp hm with hm | hm
    · exact (h.returned x o hm).imp fun _ hi => List.mem_append_left _ hi
    · exact (hr x o (List.mem_singleton.mp hm).symm).imp fun _ hi => List.mem_append_left _ hi
  · exact fun x i hm => h.numbers x i (hold hm)
  · exact fun x i j hi hj => h.unique x i j (hold hi) (hold hj)

theorem quiet (h : Accounted notes net) : Accounted (notes ++ [.quiet]) net :=
  h.append (n := .quiet) nofun nofun nofun

theorem returns (h : Accounted notes net) {d : Xid κ × ω} (hd : d ∈ net.replies) :
    Accounted (notes ++ [.returned d.1 d.2]) net := by
  refine h.append (n := .returned d.1 d.2) nofun nofun ?_
  intro x o he
  cases he
  exact h.replies d hd

theorem executes (h : Accounted notes net) {d : Xid κ × ι} (hd : d ∈ net.requests) (s : σ)
    (o : ω) : Accounted (notes ++ [.executed d.1 d.2 o])
      { net with server := s, replies := (d.1, o) :: net.replies } := by
  have hnoted : Accounted (notes ++ [.executed d.1 d.2 o]) net := by
    refine h.append (n := .executed d.1 d.2 o) nofun ?_ nofun
    intro x i o' he
    cases he
    exact h.requests d hd
  apply traffic hnoted
  · exact fun _ hd => .inl hd
  · intro d' hd'
    rcases List.mem_cons.mp hd' with rfl | hd'
    · exact .inr ⟨d.2, List.mem_append_right _ (List.mem_singleton.mpr rfl)⟩
    · exact .inl hd'
  · rfl
  · rfl

/-- A client without a pending call makes one; its number is new. -/
theorem begins [DecidableEq κ] (h : Accounted notes net) {c : κ} (hc : net.pending c = none)
    (i : ι) : Accounted (notes ++ [.began (net.xid c) i]) { net with
      pending := Function.update net.pending c (some i)
      requests := (net.xid c, i) :: net.requests } := by
  have hnew : ∀ j, .began (net.xid c) j ∉ notes := by
    intro j hj
    rcases h.numbers _ _ hj with hlt | ⟨-, hp⟩
    · exact Nat.lt_irrefl _ hlt
    · rw [show net.pending (net.xid c).client = net.pending c from rfl, hc] at hp
      cases hp
  have hlast : .began (net.xid c) i ∈ notes ++ [.began (net.xid c) i] :=
    List.mem_append_right _ (List.mem_singleton.mpr rfl)
  constructor
  · intro d hd
    rcases List.mem_cons.mp hd with rfl | hd
    · exact hlast
    · exact List.mem_append_left _ (h.requests d hd)
  · intro c' j hp
    by_cases hcc : c' = c
    · subst hcc
      have he : Function.update net.pending c' (some i) c' = some j := hp
      rw [Function.update_self] at he
      cases he
      exact hlast
    · have he : net.pending c' = some j := (Function.update_of_ne hcc _ _).symm.trans hp
      exact List.mem_append_left _ (h.pending c' j he)
  · exact fun d hd => (h.replies d hd).imp fun _ hi => List.mem_append_left _ hi
  · intro x j o he
    have he : .executed x j o ∈ notes := by simpa using he
    exact List.mem_append_left _ (h.executed x j o he)
  · intro x o hr
    have hr : .returned x o ∈ notes := by simpa using hr
    exact (h.returned x o hr).imp fun _ hi => List.mem_append_left _ hi
  · intro x j hb
    have hb : .began x j ∈ notes ∨ (x = net.xid c ∧ j = i) := by simpa using hb
    rcases hb with hb | ⟨rfl, rfl⟩
    · rcases h.numbers x j hb with hlt | ⟨hx, hp⟩
      · exact .inl hlt
      · refine .inr ⟨hx, ?_⟩
        have hne : x.client ≠ c := by
          intro he
          rw [he, hc] at hp
          cases hp
        exact (Function.update_of_ne hne _ _).trans hp
    · exact .inr ⟨rfl, Function.update_self ..⟩
  · intro x j k hj hk
    have hj : .began x j ∈ notes ∨ (x = net.xid c ∧ j = i) := by simpa using hj
    have hk : .began x k ∈ notes ∨ (x = net.xid c ∧ k = i) := by simpa using hk
    rcases hj with hj | ⟨hx, rfl⟩
    · rcases hk with hk | ⟨rfl, -⟩
      · exact h.unique x j k hj hk
      · exact absurd hj (hnew _)
    · subst hx
      rcases hk with hk | ⟨-, rfl⟩
      · exact absurd hk (hnew _)
      · rfl

end Accounted

theorem Hazard.mem_of_act {β : Type} [DecidableEq β] {ds ds' : List β} {h : Hazard β}
    (he : h.act ds = some ds') {d : β} (hd : d ∈ ds') : d ∈ ds := by
  cases h with
  | lose x =>
    rw [act] at he
    split at he
    · cases he
      exact List.mem_of_mem_erase hd
    · cases he
  | copy x =>
    rw [act] at he
    split at he
    · rename_i hx
      cases he
      rcases List.mem_cons.mp hd with rfl | hd
      · exact hx
      · exact hd
    · cases he

section Runs
variable [DecidableEq κ] [DecidableEq ι] [DecidableEq ω]
variable {routine : σ → ε → ι → Option (ω × σ)} {background : σ → μ → σ}
variable {net net' : Net κ σ ι ω} {notes : List (Note κ ι ω)} {m : Move κ ι ω ε μ}

theorem accounted_step {note : Note κ ι ω} (h : Accounted notes net)
    (hs : step routine background net m = some (note, net')) :
    Accounted (notes ++ [note]) net' := by
  cases m with
  | call c i =>
    rw [step] at hs
    split at hs
    · rename_i hc
      cases hs
      exact h.begins hc i
    · cases hs
  | resend c =>
    obtain ⟨i, hi, hs⟩ := Option.map_eq_some_iff.mp hs
    cases hs
    refine .quiet (h.traffic ?_ (fun _ hd => .inl hd) rfl rfl)
    intro d hd
    rcases List.mem_cons.mp hd with rfl | hd
    · exact .inr ⟨rfl, hi⟩
    · exact .inl hd
  | giveUp c =>
    obtain ⟨i, -, hs⟩ := Option.map_eq_some_iff.mp hs
    cases hs
    exact (h.finish c).quiet
  | serve env d =>
    rw [step] at hs
    split at hs
    · rename_i hd
      obtain ⟨⟨o, s⟩, -, hs⟩ := Option.map_eq_some_iff.mp hs
      cases hs
      exact (h.executes hd s o).traffic (fun _ hd => .inl (List.mem_of_mem_erase hd))
        (fun _ hd => .inl hd) rfl rfl
    · cases hs
  | accept d =>
    rw [step] at hs
    split at hs
    · rename_i hd
      split at hs
      · cases hs
        refine ((h.returns hd).finish d.1.client).traffic (fun _ hd => .inl hd) ?_ rfl rfl
        exact fun _ hd' => .inl (List.mem_of_mem_erase hd')
      · cases hs
        refine .quiet (h.traffic (fun _ hd => .inl hd) ?_ rfl rfl)
        exact fun _ hd' => .inl (List.mem_of_mem_erase hd')
    · cases hs
  | request hz =>
    obtain ⟨ds, hds, hs⟩ := Option.map_eq_some_iff.mp hs
    cases hs
    exact .quiet (h.traffic (fun _ hd => .inl (Hazard.mem_of_act hds hd)) (fun _ hd => .inl hd)
      rfl rfl)
  | reply hz =>
    obtain ⟨ds, hds, hs⟩ := Option.map_eq_some_iff.mp hs
    cases hs
    exact .quiet (h.traffic (fun _ hd => .inl hd) (fun _ hd => .inl (Hazard.mem_of_act hds hd))
      rfl rfl)
  | background b =>
    cases hs
    exact .quiet (h.traffic (fun _ hd => .inl hd) (fun _ hd => .inl hd) rfl rfl)

theorem accounted_run {s : σ} {tr : List (Event (Net κ σ ι ω) (Move κ ι ω ε μ) (Note κ ι ω))}
    (h : Run (step routine background) (.start s) tr net) : Accounted (outputs tr) net := by
  refine Run.extend (P := fun tr net => Accounted (outputs tr) net) (accounted_start s) ?_ h
  intro tr m i o t hP hs
  rw [outputs, List.map_append]
  exact accounted_step hP hs

section History
variable {s : σ} {l l' : List (Event (Net κ σ ι ω) (Move κ ι ω ε μ) (Note κ ι ω))}
  {e : Event (Net κ σ ι ω) (Move κ ι ω ε μ) (Note κ ι ω)} {x : Xid κ} {i : ι} {o : ω}

/-- What is executed was called before. -/
theorem began_of_executed (h : Run (step routine background) (.start s) (l ++ e :: l') net)
    (he : e.output = .executed x i o) : .began x i ∈ outputs l := by
  obtain ⟨hrun, m, hstep, -⟩ := h.split_at
  have hnext := accounted_step (accounted_run hrun) hstep
  rw [he] at hnext
  have hbegan := hnext.executed x i o (List.mem_append_right _ (List.mem_singleton.mpr rfl))
  simpa using hbegan

/-- What is returned is the result of an execution before. -/
theorem executed_of_returned (h : Run (step routine background) (.start s) (l ++ e :: l') net)
    (he : e.output = .returned x o) :
    ∃ i, .executed x i o ∈ outputs l ∧ .began x i ∈ outputs l := by
  obtain ⟨hrun, m, hstep, -⟩ := h.split_at
  have hnext := accounted_step (accounted_run hrun) hstep
  rw [he] at hnext
  obtain ⟨i, hi⟩ := hnext.returned x o (List.mem_append_right _ (List.mem_singleton.mpr rfl))
  have hi : .executed x i o ∈ outputs l := by simpa using hi
  exact ⟨i, hi, (accounted_run hrun).executed x i o hi⟩

end History

/-- A call, its execution and its reply: nothing is lost, and nothing comes between. -/
theorem exchange {c : κ} (hc : net.pending c = none) {env : ε} {i : ι} {o : ω} {s : σ}
    (h : routine net.server env i = some (o, s)) :
    ∃ (tr : List (Event (Net κ σ ι ω) (Move κ ι ω ε μ) (Note κ ι ω))) (net' : Net κ σ ι ω),
      Run (step routine background) net tr net' ∧ net'.server = s ∧ outputs tr =
        [.began (net.xid c) i, .executed (net.xid c) i o, .returned (net.xid c) o] := by
  let asked : Net κ σ ι ω := { net with
    pending := Function.update net.pending c (some i)
    requests := (net.xid c, i) :: net.requests }
  let served : Net κ σ ι ω := { asked with
    server := s
    requests := asked.requests.erase (net.xid c, i)
    replies := (net.xid c, o) :: net.replies }
  have hcall : step routine background net (.call c i) = some (.began (net.xid c) i, asked) :=
    if_pos hc
  have hserve : step routine background asked (.serve env (net.xid c, i)) =
      some (.executed (net.xid c) i o, served) := by
    have hin : (net.xid c, i) ∈ asked.requests := List.mem_cons_self
    rw [step, if_pos hin, show routine asked.server env i = _ from h]
    rfl
  have haccept : step routine background served (.accept (net.xid c, o)) =
      some (.returned (net.xid c) o, { served.finish c with
        replies := served.replies.erase (net.xid c, o) }) := by
    have hin : (net.xid c, o) ∈ served.replies := List.mem_cons_self
    have hown : served.pending c = some i := Function.update_self ..
    have hpending : (served.pending (net.xid c).client).isSome := by
      rw [show served.pending (net.xid c).client = some i from hown]
      rfl
    rw [step, if_pos hin, if_pos ⟨rfl, hpending⟩]
    rfl
  exact ⟨_, _, .cons hcall (.cons hserve (.single haccept)), rfl, rfl⟩

end Runs
end Hamster.Lib.Datagrams
