import Hamster.Lib.RecordFile

/-!
# Calls that may fail

What each call leaves behind when any call may fail. One that fails uses up its
entry in the schedule and changes nothing else; one that succeeds moves or opens
one descriptor, writes one file, or binds one name.
-/
namespace Hamster.Lib.Unreliable

open Bytes Posix RecordFile

variable {N : Type} {s s' s'' : Sys N} {fd ino off : Nat} {w : Bool}

/-- No name and no file has changed, none was created, and it is the same time. -/
structure Quiet (s s' : Sys N) : Prop extends Sys.SameFiles s s' where
  nextIno : s'.nextIno = s.nextIno
  now : s'.now = s.now

/-- The same, but for the content of one file. -/
structure Touches (ino : Nat) (s s' : Sys N) : Prop where
  names : s'.names = s.names
  others : ∀ i, i ≠ ino → s'.inodes i = s.inodes i
  nextIno : s'.nextIno = s.nextIno
  now : s'.now = s.now

/-- The same, but for a new name of a new, empty file. -/
structure Creates [DecidableEq N] (name : N) (s s' : Sys N) : Prop where
  missing : s.names name = none
  names : s'.names = Function.update s.names name (some s.nextIno)
  inodes : s'.inodes = Function.update s.inodes s.nextIno []
  nextIno : s'.nextIno = s.nextIno + 1
  now : s'.now = s.now

theorem Quiet.refl (s : Sys N) : Quiet s s := ⟨.refl s, rfl, rfl⟩

theorem Quiet.trans (h : Quiet s s') (h' : Quiet s' s'') : Quiet s s'' :=
  ⟨h.toSameFiles.trans h'.toSameFiles, h'.nextIno.trans h.nextIno, h'.now.trans h.now⟩

theorem Quiet.close (h : Quiet s s') (fd : Nat) : Quiet s (s'.close fd) :=
  ⟨⟨h.names, h.inodes⟩, h.nextIno, h.now⟩

theorem Quiet.touches (h : Quiet s s') (ino : Nat) : Touches ino s s' :=
  ⟨h.names, fun _ _ => by rw [h.inodes], h.nextIno, h.now⟩

theorem Touches.trans (h : Touches ino s s') (h' : Touches ino s' s'') : Touches ino s s'' :=
  ⟨h'.names.trans h.names, fun i hi => (h'.others i hi).trans (h.others i hi),
    h'.nextIno.trans h.nextIno, h'.now.trans h.now⟩

theorem Touches.close (h : Touches ino s s') (fd : Nat) : Touches ino s (s'.close fd) :=
  ⟨h.names, h.others, h.nextIno, h.now⟩

theorem quiet_tick (s : Sys N) : Quiet s s.tick := ⟨⟨rfl, rfl⟩, rfl, rfl⟩

theorem quiet_setDesc (s : Sys N) (fd : Nat) (d : Desc) : Quiet s (s.tick.setDesc fd d) :=
  ⟨⟨rfl, rfl⟩, rfl, rfl⟩

section Descriptors
variable (hd : s.fds.lookup fd = some (.file ino off w))
include hd

theorem read_cases (n : Nat) : ∃ s', Quiet s s' ∧ (s.read fd n = (none, s') ∨
    s.read fd n = (some (((s.inodes ino).drop off).take n), s') ∧
      s'.fds.lookup fd = some (.file ino (off + (((s.inodes ino).drop off).take n).length) w)) := by
  have hd' : s.tick.fds.lookup fd = some (.file ino off w) := hd
  unfold Sys.read
  split
  · exact ⟨s.tick, quiet_tick s, .inl rfl⟩
  · simp only [hd']
    exact ⟨_, quiet_setDesc s fd _, .inr ⟨rfl, Finmap.lookup_insert _⟩⟩

theorem lseekCur_cases {k : Nat} (hoff : k ≤ off) : ∃ s', Quiet s s' ∧
    (s.lseekCur fd (-(k : Int)) = (none, s') ∨ s.lseekCur fd (-(k : Int)) = (some (off - k), s') ∧
      s'.fds.lookup fd = some (.file ino (off - k) w)) := by
  have hd' : s.tick.fds.lookup fd = some (.file ino off w) := hd
  have hneg : ¬ (off : Int) + -(k : Int) < 0 := by omega
  have hback : ((off : Int) + -(k : Int)).toNat = off - k := by omega
  unfold Sys.lseekCur
  split
  · exact ⟨s.tick, quiet_tick s, .inl rfl⟩
  · simp only [hd', hneg, hback, ↓reduceIte]
    exact ⟨_, quiet_setDesc s fd _, .inr ⟨rfl, Finmap.lookup_insert _⟩⟩

omit hd in
theorem write_cases (hd : s.fds.lookup fd = some (.file ino off true)) (bs : List Byte) :
    ∃ s', Touches ino s s' ∧
      (s.write fd bs = (none, s') ∧ s'.inodes ino = s.inodes ino ∨
      s.write fd bs = (some bs.length, s') ∧
        s'.inodes ino = Sys.overwrite (s.inodes ino) off bs ∧
        s'.fds.lookup fd = some (.file ino (off + bs.length) true)) := by
  have hd' : s.tick.fds.lookup fd = some (.file ino off true) := hd
  unfold Sys.write
  split
  · exact ⟨s.tick, (quiet_tick s).touches ino, .inl ⟨rfl, rfl⟩⟩
  · simp only [hd']
    refine ⟨(s.tick.setInode ino (Sys.overwrite (s.inodes ino) off bs)).setDesc fd
      (.file ino (off + bs.length) true), ⟨rfl, fun i hi => Function.update_of_ne hi _ _, rfl, rfl⟩,
      .inr ⟨rfl, Function.update_self .., Finmap.lookup_insert _⟩⟩

end Descriptors

section Names
variable [DecidableEq N] {name : N} {mode : OpenMode}

/-- A file just opened is read from its start. -/
theorem openFile_cases {x : Option Nat} (h : s.openFile name mode = (x, s')) :
    x = none ∧ Quiet s s' ∨ ∃ fd ino, x = some fd ∧ s'.names name = some ino ∧
      s'.fds.lookup fd = some (.file ino 0 mode.writable) ∧
      (Quiet s s' ∨ mode = .rdwrCreat ∧ Creates name s s') := by
  unfold Sys.openFile at h
  split at h
  · cases h
    exact .inl ⟨rfl, quiet_tick s⟩
  · dsimp only at h
    split at h
    · rename_i ino hn
      cases h
      exact .inr ⟨_, ino, rfl, hn, Finmap.lookup_insert _, .inl (quiet_setDesc s _ _)⟩
    · rename_i hn
      cases h
      refine .inr ⟨_, s.nextIno, rfl, Function.update_self .., Finmap.lookup_insert _,
        .inr ⟨rfl, hn, rfl, rfl, rfl, rfl⟩⟩
    · cases h
      exact .inl ⟨rfl, quiet_tick s⟩

theorem openFile_none (h : s.openFile name mode = (none, s')) : Quiet s s' := by
  rcases openFile_cases h with ⟨-, hquiet⟩ | ⟨fd, ino, hfd, -⟩
  · exact hquiet
  · cases hfd

theorem openFile_some {fd : Nat} (h : s.openFile name mode = (some fd, s')) :
    ∃ ino, s'.names name = some ino ∧ s'.fds.lookup fd = some (.file ino 0 mode.writable) ∧
      (Quiet s s' ∨ mode = .rdwrCreat ∧ Creates name s s') := by
  rcases openFile_cases h with ⟨hfd, -⟩ | ⟨fd', ino, hfd, hrest⟩
  · cases hfd
  · cases hfd
    exact ⟨ino, hrest⟩

theorem rename_cases {old new : N} {ok : Bool} (hne : s.names old ≠ none → s.names new ≠ s.names old)
    (h : s.rename old new = (ok, s')) : ok = false ∧ Quiet s s' ∨ ∃ ino, ok = true ∧
      s.names old = some ino ∧ s'.inodes = s.inodes ∧ s'.nextIno = s.nextIno ∧ s'.now = s.now ∧
      s'.names = Function.update (Function.update s.names new (some ino)) old none := by
  unfold Sys.rename at h
  split at h
  · cases h
    exact .inl ⟨rfl, quiet_tick s⟩
  · dsimp only at h
    split at h
    · cases h
      exact .inl ⟨rfl, quiet_tick s⟩
    · rename_i ino hold
      have hold' : s.names old = some ino := hold
      have hnew : ¬ s.tick.names new = some ino := by
        rw [hold'] at hne
        exact hne nofun
      rw [if_neg hnew] at h
      cases h
      exact .inr ⟨ino, rfl, hold', rfl, rfl, rfl, rfl⟩

theorem rename_false {old new : N} (hne : s.names old ≠ none → s.names new ≠ s.names old)
    (h : s.rename old new = (false, s')) : Quiet s s' := by
  rcases rename_cases hne h with ⟨-, hquiet⟩ | ⟨ino, hok, -⟩
  · exact hquiet
  · cases hok

theorem rename_true {old new : N} (hne : s.names old ≠ none → s.names new ≠ s.names old)
    (h : s.rename old new = (true, s')) : ∃ ino, s.names old = some ino ∧
      s'.inodes = s.inodes ∧ s'.nextIno = s.nextIno ∧ s'.now = s.now ∧
      s'.names = Function.update (Function.update s.names new (some ino)) old none := by
  rcases rename_cases hne h with ⟨hok, -⟩ | ⟨ino, -, hrest⟩
  · cases hok
  · exact ⟨ino, hrest⟩

theorem unlink_cases {ok : Bool} (h : s.unlink name = (ok, s')) :
    ok = false ∧ Quiet s s' ∨ ok = true ∧ s'.inodes = s.inodes ∧ s'.nextIno = s.nextIno ∧
      s'.names = Function.update s.names name none := by
  unfold Sys.unlink at h
  split at h
  · cases h
    exact .inl ⟨rfl, quiet_tick s⟩
  · dsimp only at h
    split at h
    · cases h
      exact .inl ⟨rfl, quiet_tick s⟩
    · cases h
      exact .inr ⟨rfl, rfl, rfl, rfl⟩

theorem unlink_false (h : s.unlink name = (false, s')) : Quiet s s' := by
  rcases unlink_cases h with ⟨-, hquiet⟩ | ⟨hok, -⟩
  · exact hquiet
  · cases hok

theorem unlink_true (h : s.unlink name = (true, s')) : s'.inodes = s.inodes ∧
    s'.nextIno = s.nextIno ∧ s'.names = Function.update s.names name none := by
  rcases unlink_cases h with ⟨hok, -⟩ | ⟨-, hrest⟩
  · cases hok
  · exact hrest

end Names

/-- A scan of complete records ends at a read that fails, behind the first record
that passes the test, or behind the last record. -/
inductive Ends (size : Nat) (test : List Byte → Bool) (fd ino off : Nat) (w : Bool)
    (cs : List (List Byte)) (s' : Sys N) : ScanEnd → Prop
  | failed : Ends size test fd ino off w cs s' (.stop none)
  | found {pre post : List (List Byte)} {c : List Byte} (hsplit : cs = pre ++ c :: post)
      (hpre : ∀ x ∈ pre, test x = false) (hc : test c = true)
      (hat : s'.fds.lookup fd = some (.file ino (off + size * (pre.length + 1)) w)) :
      Ends size test fd ino off w cs s' (.hit c)
  | exhausted (hno : ∀ x ∈ cs, test x = false)
      (hat : s'.fds.lookup fd = some (.file ino (off + size * cs.length) w)) :
      Ends size test fd ino off w cs s' (.stop (some []))

theorem Ends.cons {size : Nat} {test : List Byte → Bool} {cs : List (List Byte)} {c : List Byte}
    {e : ScanEnd} (hc : test c = false) (h : Ends size test fd ino (off + size) w cs s' e) :
    Ends size test fd ino off w (c :: cs) s' e := by
  have hoff (k : Nat) : off + size + size * k = off + size * (k + 1) := by ring
  cases h with
  | failed => exact .failed
  | @found pre post x hsplit hpre hhit hat =>
    rw [hoff, ← List.length_cons (a := c)] at hat
    have hsplit' : c :: cs = (c :: pre) ++ x :: post := by rw [hsplit, List.cons_append]
    refine .found hsplit' (fun x hx => ?_) hhit hat
    rcases List.mem_cons.mp hx with rfl | hx
    · exact hc
    · exact hpre x hx
  | exhausted hno hat =>
    rw [hoff] at hat
    refine .exhausted (fun x hx => ?_) hat
    rcases List.mem_cons.mp hx with rfl | hx
    · exact hc
    · exact hno x hx

theorem scanLoop_ends {size : Nat} (hsize : 0 < size) (test : List Byte → Bool) (fuel : Nat)
    {cs : List (List Byte)} (hd : s.fds.lookup fd = some (.file ino off w))
    (hcont : (s.inodes ino).drop off = cs.flatten) (hlen : ∀ c ∈ cs, c.length = size) :
    Quiet s (scanLoop size test fuel s fd).2 ∧
      Ends size test fd ino off w cs (scanLoop size test fuel s fd).2
        (scanLoop size test fuel s fd).1 := by
  induction fuel generalizing s off cs with
  | zero => exact ⟨.refl s, .failed⟩
  | succ fuel ih =>
    obtain ⟨s', hquiet, hfail | ⟨hread, hat⟩⟩ := read_cases hd size
    · rw [scanLoop, hfail]
      exact ⟨hquiet, .failed⟩
    · rw [hcont] at hread hat
      rw [scanLoop, hread]
      cases cs with
      | nil =>
        rw [List.flatten_nil, List.take_nil] at hat ⊢
        dsimp only
        rw [if_neg (by simpa using hsize.ne)]
        exact ⟨hquiet, .exhausted (List.forall_mem_nil _) hat⟩
      | cons c cs =>
        have hc : c.length = size := hlen c (by simp)
        have htake : (c :: cs).flatten.take size = c := by
          rw [List.flatten_cons, ← hc, List.take_left]
        rw [htake, hc] at hat
        rw [htake]
        dsimp only
        rw [if_pos hc]
        split
        · rename_i hhit
          exact ⟨hquiet, .found (List.nil_append _).symm (List.forall_mem_nil _) hhit
            (by simpa using hat)⟩
        · rename_i hmiss
          have hnext : (s'.inodes ino).drop (off + size) = cs.flatten := by
            rw [hquiet.inodes, ← List.drop_drop, hcont, List.flatten_cons, List.drop_left' hc]
          obtain ⟨hquiet', hends⟩ := ih hat hnext fun x hx => hlen x (by simp [hx])
          exact ⟨hquiet.trans hquiet', hends.cons (by simpa using hmiss)⟩

end Hamster.Lib.Unreliable
