import Hamster.Lib.Runs
import Hamster.Server.Loop
import Hamster.Store.Frame
import Hamster.SunRpc.Service

/-!
# Which descriptors remote directory calls touch

A directory request carries a descriptor of the server, and `hmstr_directory` uses
whatever number it is given. The servers touch only what directory calls have
opened exactly as long as no client names another open descriptor.
-/
namespace Hamster.Contract.Descriptors

open Lib.Bytes Lib.Clock Lib.Memory Lib.Posix Lib.Runs Store.Entry Store.Library Store.Frame
  Server.Handlers

/-- A directory call a server is about to make. -/
structure Ask where
  world : World
  fdptr : Int
  ownerName : Option CString
  hamsterName : Option CString

namespace Ask

/-- The result, the handle and the world after the call. -/
def done (a : Ask) : BitVec 32 × Int × World :=
  hmstrDirectory a.world a.fdptr a.ownerName a.hamsterName

/-- The call has read from the descriptor or closed it: reading moves it, and it
is not there any more once closed. -/
def Disturbs (a : Ask) (fd : Nat) : Prop :=
  a.done.2.2.fds.lookup fd ≠ a.world.fds.lookup fd

/-- The descriptors opened by directory calls and not closed since, after this one. -/
def handles (a : Ask) (held : Finset Nat) : Finset Nat :=
  if a.fdptr < 0 then if a.done.2.1 < 0 then held else insert a.done.2.1.toNat held
  else if a.done.2.1 < 0 then held.erase a.fdptr.toNat else held

/-- The request names no open descriptor but one of those held, or fails before it
is looked at. -/
def Vetted (a : Ask) (held : Finset Nat) : Prop :=
  a.fdptr < 0 ∨ a.fdptr.toNat ∉ a.world.fds ∨ a.fdptr.toNat ∈ held ∨
    (tooLongOpt a.ownerName || tooLongOpt a.hamsterName) = true

instance (a : Ask) (held : Finset Nat) : Decidable (a.Vetted held) :=
  inferInstanceAs (Decidable (_ ∨ _ ∨ _ ∨ _))

def ofCall (w : World) : Call Int → Option Ask
  | .directory p o n => some ⟨w, p, o, n⟩
  | _ => none

end Ask

/-- What a step of a server shows of this: the world it began in, the directory
call made in it, whether the client is told of an error, and the descriptor the
server has closed itself. -/
structure Moment where
  world : World
  ask : Option Ask
  refused : Bool
  closed : Option Nat

namespace Moment

def handles (m : Moment) (held : Finset Nat) : Finset Nat :=
  match m.ask with
  | some a => a.handles held
  | none => m.closed.elim held held.erase

/-- Only held descriptors, which are files, are disturbed, or one opened for the
call; naming any other is answered with an error and changes no descriptor. -/
structure Safe (m : Moment) (held : Finset Nat) : Prop where
  files : ∀ fd ∈ held, Sys.IsFile m.world fd
  touched : ∀ a, m.ask = some a → ∀ fd, a.Disturbs fd →
    fd ∈ held ∨ (a.fdptr < 0 ∧ fd ∉ a.world.fds)
  foreign : ∀ a, m.ask = some a → 0 ≤ a.fdptr → a.fdptr.toNat ∉ held →
    m.refused = true ∧ a.done.2.2.fds = a.world.fds

def Vetted (m : Moment) (held : Finset Nat) : Prop := ∀ a, m.ask = some a → a.Vetted held

instance (m : Moment) (held : Finset Nat) : Decidable (m.Vetted held) :=
  decidable_of_iff (∀ a ∈ m.ask, a.Vetted held) Iff.rfl

end Moment

/-- At every moment of a history, given the descriptors held there. -/
def Always (P : Moment → Finset Nat → Prop) : Finset Nat → List Moment → Prop
  | _, [] => True
  | held, m :: ms => P m held ∧ Always P (m.handles held) ms

instance Always.decidable : (held : Finset Nat) → (ms : List Moment) →
    Decidable (Always Moment.Vetted held ms)
  | _, [] => inferInstanceAs (Decidable True)
  | held, m :: ms =>
    have := Always.decidable (m.handles held) ms
    inferInstanceAs (Decidable (_ ∧ _))

section Call
variable {a : Ask} {held : Finset Nat}

theorem disturbs_vetted (hv : a.Vetted held) {fd : Nat} (hd : a.Disturbs fd) :
    fd ∈ held ∨ (a.fdptr < 0 ∧ fd ∉ a.world.fds) := by
  rcases directory_onlyFd a.world a.fdptr a.ownerName a.hamsterName with ⟨hp, honly⟩ | ⟨hp, hspares⟩
  · have hfd : fd = a.fdptr.toNat := by
      by_contra hne
      exact hd (honly fd hne)
    subst hfd
    rcases hv with hneg | hout | hheld | hlong
    · omega
    · exact absurd (by rw [Ask.done, (directory_of_notMem hp hout).2]) hd
    · exact .inl hheld
    · exact absurd (by rw [Ask.done, directory_of_tooLong hlong]) hd
  · exact .inr ⟨hp, fun hmem => hd (hspares fd hmem)⟩

/-- A number that is not held but vetted is refused without effect. -/
theorem refused_of_vetted (hv : a.Vetted held) (hp : 0 ≤ a.fdptr) (hfd : a.fdptr.toNat ∉ held) :
    a.done.1.toInt < 0 ∧ a.done.2.2.fds = a.world.fds := by
  rcases hv with hneg | hout | hheld | hlong
  · omega
  · exact directory_of_notMem hp hout
  · exact absurd hheld hfd
  · rw [Ask.done, directory_of_tooLong hlong]
    exact ⟨show hmstrErrNameTooLong.toInt < 0 by decide, rfl⟩

theorem vetted_of_untouched (h : ∀ fd, a.Disturbs fd → fd ∈ held ∨ (a.fdptr < 0 ∧ fd ∉ a.world.fds)) :
    a.Vetted held := by
  rcases Int.lt_or_le a.fdptr 0 with hp | hp
  · exact .inl hp
  · by_cases hmem : a.fdptr.toNat ∈ a.world.fds
    · cases hl : tooLongOpt a.ownerName || tooLongOpt a.hamsterName with
      | true => exact .inr (.inr (.inr hl))
      | false =>
        rcases h _ (directory_of_mem hl hp hmem) with hheld | ⟨hneg, -⟩
        · exact .inr (.inr (.inl hheld))
        · omega
    · exact .inr (.inl hmem)

/-- After any call the held descriptors are files if they were before. -/
theorem isFile_handles (hf : ∀ fd ∈ held, Sys.IsFile a.world fd) :
    ∀ fd ∈ a.handles held, Sys.IsFile a.done.2.2 fd := by
  rcases directory_onlyFd a.world a.fdptr a.ownerName a.hamsterName with ⟨hp, honly⟩ | ⟨hp, hspares⟩
  · rw [Ask.handles, if_neg (Int.not_lt.mpr hp)]
    split
    · intro fd hfd
      obtain ⟨hne, hheld⟩ := Finset.mem_erase.mp hfd
      exact (hf fd hheld).congr (honly fd hne)
    · rename_i hq
      intro fd hfd
      by_cases he : fd = a.fdptr.toNat
      · subst he
        obtain ⟨hfile, hsame⟩ := directory_handle (Int.not_lt.mp hq) fun _ => hf _ hfd
        rw [hsame hp] at hfile
        exact hfile
      · exact (hf fd hfd).congr (honly fd he)
  · have hold : ∀ fd ∈ held, Sys.IsFile a.done.2.2 fd := fun fd hfd =>
      (hf fd hfd).congr (hspares fd (hf fd hfd).mem)
    rw [Ask.handles, if_pos hp]
    split
    · exact hold
    · rename_i hq
      intro fd hfd
      rcases Finset.mem_insert.mp hfd with rfl | hfd
      · exact (directory_handle (Int.not_lt.mp hq) fun h => absurd h (Int.not_le.mpr hp)).1
      · exact hold fd hfd

end Call

/-- The descriptors held after a library call. -/
def handlesOf (w : World) (held : Finset Nat) (c : Call Int) : Finset Nat :=
  (Ask.ofCall w c).elim held (·.handles held)

/-- A library call whose handle, if it has one, is vetted leaves files in the held
descriptors and spares the others. -/
theorem exec_handles {w w' : World} {held : Finset Nat} {c : Call Int} {r : Reply}
    (hf : ∀ fd ∈ held, Sys.IsFile w fd) (hex : c.exec w = some (r, w'))
    (hv : ∀ a, Ask.ofCall w c = some a → a.Vetted held) :
    (∀ fd ∈ handlesOf w held c, Sys.IsFile w' fd) ∧
      ∀ fd ∈ w.fds, fd ∉ held → w'.fds.lookup fd = w.fds.lookup fd := by
  have hother (hc : ∀ p o n, c ≠ .directory p o n) :
      ∀ fd ∈ w.fds, w'.fds.lookup fd = w.fds.lookup fd :=
    fun fd hfd => exec_spares hex hfd fun o n => hc fd o n
  cases c with
  | directory p o n =>
    have hw : (Ask.mk w p o n).done.2.2 = w' := congrArg Prod.snd (Option.some.inj hex)
    rw [← hw]
    refine ⟨isFile_handles hf, fun fd hmem hfd => ?_⟩
    by_contra hd
    rcases disturbs_vetted (hv _ rfl) hd with h | ⟨-, h⟩
    · exact hfd h
    · exact h hmem
  | new | lookup | howsdoing | readentry | givetreats | collect =>
    have hsame := hother fun _ _ _ => nofun
    exact ⟨fun fd hfd => (hf fd hfd).congr (hsame fd (hf fd hfd).mem), fun fd hmem _ => hsame fd hmem⟩

/-! ## One moment, and a history -/

section History
variable {m : Moment} {held : Finset Nat}

theorem vetted_of_safe (h : m.Safe held) : m.Vetted held :=
  fun a ha => vetted_of_untouched (h.touched a ha)

theorem safe_of_vetted (hf : ∀ fd ∈ held, Sys.IsFile m.world fd)
    (hr : ∀ a, m.ask = some a → a.done.1.toInt < 0 → m.refused = true) (hv : m.Vetted held) :
    m.Safe held where
  files := hf
  touched a ha _ hd := disturbs_vetted (hv a ha) hd
  foreign a ha hp hfd :=
    let ⟨hneg, hsame⟩ := refused_of_vetted (hv a ha) hp hfd
    ⟨hr a ha hneg, hsame⟩

theorem Always.mono {P Q : Moment → Finset Nat → Prop} (h : ∀ m held, P m held → Q m held) :
    ∀ {ms : List Moment} {held : Finset Nat}, Always P held ms → Always Q held ms
  | [], _, _ => trivial
  | _ :: _, _, ⟨hm, hms⟩ => ⟨h _ _ hm, hms.mono h⟩

/-- A server that tells its clients of errors and keeps what makes the held
descriptors files is safe as long as the requests are vetted. -/
theorem always_safe {σ ι ω : Type} {step : σ → ι → Option (ω × σ)}
    {moment : Event σ ι ω → Moment} (Inv : σ → Finset Nat → Prop)
    (hfiles : ∀ s i o t held, Inv s held → step s i = some (o, t) →
      ∀ fd ∈ held, Sys.IsFile (moment ⟨s, i, o⟩).world fd)
    (hrefused : ∀ s i o t, step s i = some (o, t) → ∀ a, (moment ⟨s, i, o⟩).ask = some a →
      a.done.1.toInt < 0 → (moment ⟨s, i, o⟩).refused = true)
    (hkeep : ∀ s i o t held, Inv s held → step s i = some (o, t) →
      (moment ⟨s, i, o⟩).Vetted held → Inv t ((moment ⟨s, i, o⟩).handles held))
    {s t : σ} {tr : List (Event σ ι ω)} (h : Run step s tr t) : ∀ {held : Finset Nat},
      Inv s held → Always Moment.Vetted held (tr.map moment) →
      Always Moment.Safe held (tr.map moment) := by
  induction h with
  | nil => exact fun _ _ => trivial
  | cons hs _ ih =>
    intro held hi ⟨hv, hvs⟩
    exact ⟨safe_of_vetted (hfiles _ _ _ _ _ hi hs) (hrefused _ _ _ _ hs) hv,
      ih (hkeep _ _ _ _ _ hi hs hv) hvs⟩

end History

/-! ## The server over TCP -/

section Tcp
open Server.Messages Server.Loop

def askOf (e : Event Process Input Output) : Option Ask :=
  match e.before.phase, e.input with
  | .serving newSocket, .turn now junk =>
    (e.before.receive newSocket now junk).bind fun m => (m.call junk).bind (Ask.ofCall m.world)
  | _, _ => none

/-- The message sent has its error bit set. -/
def refuses : Output → Bool
  | .served _ sent => (sent[1]?.getD 0).getLsbD 1
  | _ => false

def ends : Phase → Output → Option Nat
  | .serving newSocket, .closed => newSocket
  | _, _ => none

def moment (e : Event Process Input Output) : Moment where
  world := e.before.world
  ask := askOf e
  refused := refuses e.output
  closed := ends e.before.phase e.output

/-- The held descriptors are files, and the one served is a connection. -/
structure Kept (s : Process) (held : Finset Nat) : Prop where
  files : ∀ fd ∈ held, Sys.IsFile s.world fd
  sock : ∀ fd, s.phase = .serving (some fd) → Sys.IsSock s.world fd

theorem Kept.ne {s : Process} {held : Finset Nat} (h : Kept s held) {sock fd : Nat}
    (hphase : s.phase = .serving (some sock)) (hfd : fd ∈ held) : fd ≠ sock := by
  rintro rfl
  exact (h.sock fd hphase).not_isFile (h.files fd hfd)

theorem refuses_reaction {m : Received} {junk : Scratch} {r : Reply} (h : r.ret.toInt < 0)
    (c : Option (Call Int)) : refuses (.served c (reaction m junk r).1) = true := by
  have hflag : (errorMessage m.sendHeader r.ret)[1]? = some 2 := by
    simp only [errorMessage, headerBytes, List.append_assoc, List.singleton_append]
    rfl
  rw [reaction, if_pos h, refuses, hflag]
  decide

/-- Reading on a connection spares the other descriptors and leaves it one. -/
theorem readSocket_fds (w : World) (newSocket : Option Nat) (n : Nat) :
    (∀ fd, newSocket ≠ some fd → (readSocket w newSocket n).2.fds.lookup fd = w.fds.lookup fd) ∧
      ∀ fd, newSocket = some fd → Sys.IsSock w fd → Sys.IsSock (readSocket w newSocket n).2 fd := by
  cases newSocket with
  | none => exact ⟨fun _ _ => rfl, nofun⟩
  | some sock =>
    refine ⟨fun fd hne => Sys.read_onlyFd w sock n fd fun he => hne (he ▸ rfl), ?_⟩
    rintro fd ⟨⟩ hs
    exact hs.read n

variable {s t : Process} {held : Finset Nat} {out : Output}

theorem kept_accept {rx : Rx} (h : Kept s held) (ht : s.step (.accept rx) = some (out, t)) :
    Kept t ((moment ⟨s, .accept rx, out⟩).handles held) := by
  simp only [Process.step] at ht
  split at ht
  · rename_i hphase
    obtain ⟨hspares, hsock⟩ := s.world.accept_fds s.serverFd rx
    cases ht
    have hask : (moment ⟨s, .accept rx, .accepted (s.world.accept s.serverFd rx).1⟩).handles held =
        held := by
      simp only [Moment.handles, moment, askOf, hphase, ends, Option.elim]
    rw [hask]
    refine ⟨fun fd hfd => (h.files fd hfd).congr (hspares fd (h.files fd hfd).mem), ?_⟩
    intro fd he
    exact hsock fd (Phase.serving.inj he)
  · cases ht

/-- What a turn has done to descriptors before the library is called. -/
theorem kept_receive {newSocket : Option Nat} {now : Timestamp} {junk : Scratch} {m : Received}
    (h : Kept s held) (hphase : s.phase = .serving newSocket)
    (hm : s.receive newSocket now junk = some m) :
    (∀ fd ∈ held, Sys.IsFile m.world fd) ∧ ∀ fd, newSocket = some fd → Sys.IsSock m.world fd := by
  obtain ⟨n, hn⟩ := receive_world hm
  obtain ⟨hother, hsock⟩ := readSocket_fds { s.world with now := now } newSocket 8
  obtain ⟨hother', hsock'⟩ := readSocket_fds (s.readHeader newSocket now).2 newSocket n
  rw [hn]
  refine ⟨fun fd hfd => ?_, fun fd he => ?_⟩
  · have hne : newSocket ≠ some fd := fun he => h.ne (hphase.trans (he ▸ rfl)) hfd rfl
    exact ((h.files fd hfd).congr (hother fd hne)).congr (hother' fd hne)
  · exact hsock' fd he (hsock fd he (h.sock fd (hphase.trans (he ▸ rfl))))

theorem kept_end {newSocket : Option Nat} {now : Timestamp} {junk : Scratch}
    (h : Kept s held) (hphase : s.phase = .serving newSocket)
    (hm : s.receive newSocket now junk = none)
    (ht : s.turn newSocket now junk = some (out, t)) :
    Kept t ((moment ⟨s, .turn now junk, out⟩).handles held) := by
  rw [turn_end hm] at ht
  cases ht
  have hclosed : (moment ⟨s, .turn now junk, .closed⟩).handles held =
      newSocket.elim held held.erase := by
    simp only [Moment.handles, moment, askOf, hphase, ends, hm, Option.bind_none]
  rw [hclosed]
  refine ⟨fun fd hfd => ?_, nofun⟩
  cases newSocket with
  | none => exact h.files fd hfd
  | some sock =>
    obtain ⟨hne, hheld⟩ := Finset.mem_erase.mp hfd
    have hother := (readSocket_fds { s.world with now := now } (some sock) 8).1 fd
      fun he => hne (Option.some.inj he).symm
    exact ((h.files fd hheld).congr hother).congr (Sys.close_onlyFd _ sock fd hne)

theorem kept_served {newSocket : Option Nat} {now : Timestamp} {junk : Scratch} {m : Received}
    (h : Kept s held) (hphase : s.phase = .serving newSocket)
    (hm : s.receive newSocket now junk = some m)
    (ht : s.turn newSocket now junk = some (out, t))
    (hv : (moment ⟨s, .turn now junk, out⟩).Vetted held) :
    Kept t ((moment ⟨s, .turn now junk, out⟩).handles held) := by
  obtain ⟨⟨sent, hout⟩, hphase', -, hdone⟩ := turn_served hm ht
  obtain ⟨hfiles, hsock⟩ := kept_receive h hphase hm
  have hask : (moment ⟨s, .turn now junk, out⟩).ask = (m.call junk).bind (Ask.ofCall m.world) := by
    simp only [moment, askOf, hphase, hm, Option.bind_some]
  have hclosed : (moment ⟨s, .turn now junk, out⟩).closed = none := by
    simp only [moment, hphase, hout, ends]
  have hserving : ∀ fd, t.phase = .serving (some fd) → newSocket = some fd := fun fd he =>
    Phase.serving.inj (hphase.symm.trans (hphase'.symm.trans he))
  rcases hdone with ⟨hnone, hw⟩ | ⟨c, r, hc, hex, -⟩
  · rw [hnone] at hask
    rw [Moment.handles, hask, hclosed]
    exact ⟨fun fd hfd => hw ▸ hfiles fd hfd, fun fd he => hw ▸ hsock fd (hserving fd he)⟩
  · rw [hc] at hask
    have hhandles : (moment ⟨s, .turn now junk, out⟩).handles held = handlesOf m.world held c := by
      rw [Moment.handles, hask, hclosed, handlesOf, Option.bind_some]
      cases Ask.ofCall m.world c <;> rfl
    obtain ⟨hf, hspares⟩ := exec_handles hfiles hex fun a ha => hv a (hask.trans ha)
    rw [hhandles]
    refine ⟨hf, fun fd he => ?_⟩
    have hs := hsock fd (hserving fd he)
    exact hs.congr (hspares fd hs.mem fun hfd => hs.not_isFile (hfiles fd hfd))

theorem kept_step {i : Input} (h : Kept s held) (ht : s.step i = some (out, t))
    (hv : (moment ⟨s, i, out⟩).Vetted held) : Kept t ((moment ⟨s, i, out⟩).handles held) := by
  cases i with
  | accept rx => exact kept_accept h ht
  | turn now junk =>
    cases hphase : s.phase with
    | accepting => simp only [Process.step, hphase] at ht; cases ht
    | serving newSocket =>
      simp only [Process.step, hphase] at ht
      cases hm : s.receive newSocket now junk with
      | none => exact kept_end h hphase hm ht
      | some m => exact kept_served h hphase hm ht hv

theorem refused_step {i : Input} (ht : s.step i = some (out, t)) {a : Ask}
    (ha : (moment ⟨s, i, out⟩).ask = some a) (hneg : a.done.1.toInt < 0) :
    (moment ⟨s, i, out⟩).refused = true := by
  simp only [moment, askOf] at ha
  split at ha
  · rename_i newSocket now junk hphase
    obtain ⟨m, hm, ha⟩ := Option.bind_eq_some_iff.mp ha
    obtain ⟨c, hc, ha⟩ := Option.bind_eq_some_iff.mp ha
    simp only [Process.step, hphase] at ht
    obtain ⟨-, -, -, ⟨hnone, -⟩ | ⟨c', r, hc', hex, hout⟩⟩ := turn_served hm ht
    · rw [hnone] at hc
      cases hc
    · rw [hc] at hc'
      cases hc'
      simp only [moment, hout]
      refine refuses_reaction ?_ _
      unfold Ask.ofCall at ha
      split at ha
      · cases ha
        have hr : (Ask.mk m.world _ _ _).done.1 = r.ret :=
          congrArg (fun x => x.1.ret) (Option.some.inj hex)
        rw [← hr]
        exact hneg
      · cases ha
  · cases ha

end Tcp

/-! ## The server behind ONC RPC -/

section Onc
open SunRpc

def refusesResult : Option Result → Bool
  | some (.directory id _) => id.toInt < 0
  | _ => false

def askOfRequest (s : Service) : SunRpc.Input → Option Ask
  | .request now argp => Ask.ofCall { s.world with now := now } argp.call
  | .transport _ => none

def serviceMoment (e : Event Service SunRpc.Input (Option Result)) : Moment where
  world := e.before.world
  ask := askOfRequest e.before e.input
  refused := refusesResult e.output
  closed := none

variable {s t : Service} {held : Finset Nat} {out : Option Result} {i : SunRpc.Input}

theorem service_step (h : ∀ fd ∈ held, Sys.IsFile s.world fd) (ht : s.step i = some (out, t))
    (hv : (serviceMoment ⟨s, i, out⟩).Vetted held) :
    ∀ fd ∈ (serviceMoment ⟨s, i, out⟩).handles held, Sys.IsFile t.world fd := by
  cases i with
  | transport move =>
    cases ht
    exact fun fd hfd => (h fd hfd).congr (move.spares _ fd (h fd hfd))
  | request now argp =>
    obtain ⟨⟨result, t'⟩, hreq, he⟩ := Option.map_eq_some_iff.mp ht
    cases he
    obtain ⟨r, hex⟩ := request_world hreq
    have hhandles : (serviceMoment ⟨s, .request now argp, some result⟩).handles held =
        handlesOf { s.world with now := now } held argp.call := by
      simp only [Moment.handles, serviceMoment, askOfRequest, handlesOf]
      cases Ask.ofCall { s.world with now := now } argp.call <;> rfl
    rw [hhandles]
    exact (exec_handles (w := { s.world with now := now }) h hex hv).1

theorem service_refused (ht : s.step i = some (out, t)) {a : Ask}
    (ha : (serviceMoment ⟨s, i, out⟩).ask = some a) (hneg : a.done.1.toInt < 0) :
    (serviceMoment ⟨s, i, out⟩).refused = true := by
  cases i with
  | transport move => cases ha
  | request now argp =>
    cases argp with
    | directory fdptr owner hamster =>
      cases ha
      cases ht
      exact decide_eq_true hneg
    | _ => cases ha

end Onc

/-- The histories of the two servers, from the start on, with any clients. -/
inductive History : List Moment → Prop
  | tcp {s t : Server.Loop.Process} {tr : List (Event _ Server.Loop.Input Server.Loop.Output)} :
      s.phase = .accepting → Run Server.Loop.Process.step s tr t → History (tr.map moment)
  | onc {s t : SunRpc.Service} {tr : List (Event _ SunRpc.Input (Option SunRpc.Result))} :
      Run SunRpc.Service.step s tr t → History (tr.map serviceMoment)

/-- Whatever fails in the file system, directory calls touch what they may exactly
as long as every request is vetted. -/
theorem descriptors_safe_iff {ms : List Moment} (h : History ms) :
    Always Moment.Safe ∅ ms ↔ Always Moment.Vetted ∅ ms := by
  refine ⟨Always.mono fun _ _ => vetted_of_safe, ?_⟩
  have hnone (w : World) : ∀ fd ∈ (∅ : Finset Nat), Sys.IsFile w fd := fun fd hfd =>
    absurd hfd (Finset.notMem_empty fd)
  cases h with
  | @tcp s t tr hphase hr =>
    refine always_safe Kept (fun _ _ _ _ _ h _ => h.files)
      (fun _ _ _ _ ht _ ha hneg => refused_step ht ha hneg)
      (fun _ _ _ _ _ h ht hv => kept_step h ht hv) hr ⟨hnone s.world, fun fd he => ?_⟩
    rw [hphase] at he
    cases he
  | @onc s t tr hr =>
    exact always_safe (fun s held => ∀ fd ∈ held, Sys.IsFile s.world fd)
      (fun _ _ _ _ _ h _ => h) (fun _ _ _ _ ht _ ha hneg => service_refused ht ha hneg)
      (fun _ _ _ _ _ h ht hv => service_step h ht hv) hr (hnone s.world)

/-! ## Two clients -/

section Clients
open Server.Messages Server.Loop

/-- A server listening on descriptor 3, with one entry in its database. -/
def listening : Process where
  world :=
    { names := fun name => if name = .datafile then some 0 else none
      inodes := fun _ => List.replicate 96 0
      nextIno := 1
      fds := (∅ : FdTable).insert 3 .listener
      faults := []
      now := .epoch }
  serverFd := 3
  phase := .accepting
  headerStream _ := 0
  sendHeader := ⟨0, 0, 0, 0, 0⟩

/-- A directory request without filters. -/
def askDirectory (fdptr : BitVec 32) : List (List Byte) :=
  [[182, 0, 0, 1, 0, 68, 0, 3], beBytes 4 fdptr.toNat ++ List.replicate 64 0]

def blank : Scratch := ⟨fun _ => 0, fun _ => 0, fun _ => 0, [], [], blankState, 0⟩

def aTurn : Input := .turn .epoch blank

/-- Goes through the database with the handle it is given. -/
def browser : Rx := ⟨askDirectory (-1) ++ askDirectory 1, false, by decide⟩

/-- Names the listening socket. -/
def intruder : Rx := ⟨askDirectory 3, false, by decide⟩

theorem browser_safe : Always Moment.Safe ∅
    ((trace Process.step listening [.accept browser, aTurn, aTurn, aTurn]).1.map moment) :=
  (descriptors_safe_iff (.tcp rfl (Run.of_trace _ _))).mpr (by decide +kernel)

/-- The server answers that the database is damaged, and does not listen any more. -/
theorem intruder_unsafe :
    ¬ Always Moment.Safe ∅
      ((trace Process.step listening [.accept intruder, aTurn]).1.map moment) ∧
    (trace Process.step listening [.accept intruder, aTurn]).2.world.fds.lookup 3 = none :=
  ⟨fun h => absurd (h.mono fun _ _ => vetted_of_safe) (by decide +kernel), by decide +kernel⟩

end Clients

end Hamster.Contract.Descriptors
