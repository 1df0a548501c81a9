import Hamster.Contract.MenuListing

/-!
# How the menu ends

With a clock that is not set back, no call fails to return and every loop comes to its
end. Besides `q` and the end of the input only one thing ends the program: a collection
whose result is negative and not one of the three errors that are told.
-/
namespace Hamster.Contract.MenuEnds

open Lib.Bytes Lib.Clock Lib.Loops Lib.Scanf Lib.Stdin Store.Entry Store.Library Cli.Menu
  Cli.Agreement Contract.MenuRefinement Contract.MenuListing
open Asylum (Guest State Cursor effect)
open Store.Amounts (makeHash_nonneg owed)

/-! ## Reading -/

section Reading
variable {σ : Type} {E : Stop × Terminal σ → Prop}

/-- `strlen` is 0 of what was read: nothing, or a line that begins with NUL. -/
def Blank (line : List Byte) : Prop := line = [] ∨ line.head? = some 0

theorem blank_of_chars {line : List Byte} (h : (cstr line).chars = []) : Blank line := by
  cases line with
  | nil => exact .inl rfl
  | cons b bs =>
    have hfirst := List.takeWhile_eq_nil_iff.mp h (Nat.zero_lt_succ _)
    right
    simpa using hfirst

/-- The two ways to stop while reading. -/
structure Reads (E : Stop × Terminal σ → Prop) : Prop where
  hung : ∀ m, m.stdin = [] → E (.hung, m)
  undefined : ∀ bs m line, fgets (hmstrMaxName - 1) bs = (line, m.stdin) → Blank line →
    E (.undefined, m)

/-- The backend is left alone, and no more is to be read than before. -/
structure Shorter (m m' : Terminal σ) : Prop where
  back : m'.back = m.back
  stdin : m'.stdin.length ≤ m.stdin.length
  cmd : m'.cmd = m.cmd

theorem length_skipLine {bs rest : List Byte} (h : skipLine bs = some rest) :
    rest.length < bs.length := by
  induction bs with
  | nil => cases h
  | cons b bs ih =>
    rw [skipLine] at h
    split at h
    · cases h
      exact Nat.lt_succ_self _
    · exact (ih h).trans (Nat.lt_succ_self _)

theorem flushinput_post (hE : Reads E) (m : Terminal σ) :
    Post (fun m' => Shorter m m' ∧ m'.stdin.length < m.stdin.length) E (flushinput m) := by
  rw [flushinput]
  cases h : skipLine m.stdin with
  | none => exact hE.hung _ rfl
  | some rest => exact ⟨⟨rfl, (length_skipLine h).le, rfl⟩, length_skipLine h⟩

theorem getnameHelper_post (hE : Reads E) (m : Terminal σ) :
    Post (fun x => TypedName x.1 ∧ Shorter m x.2) E (getnameHelper m) := by
  rw [getnameHelper]
  dsimp only
  split
  · rename_i hempty
    exact hE.undefined m.stdin _ _ rfl (blank_of_chars hempty)
  · refine ⟨typedName_dropNewline _, rfl, ?_, rfl⟩
    have hsplit := congrArg List.length (fgets_append (hmstrMaxName - 1) m.stdin)
    rw [List.length_append] at hsplit
    show (fgets (hmstrMaxName - 1) m.stdin).2.length ≤ m.stdin.length
    omega

/-- Each failed attempt costs a line, so the turns are enough. -/
theorem getnumberLoop_post (hE : Reads E) (turns : Nat) {m : Terminal σ}
    (h : m.stdin.length < turns) :
    Post (fun x => Shorter m x.2) E (getnumberLoop turns m) := by
  induction turns generalizing m with
  | zero => omega
  | succ turns ih =>
    have hscan := length_scanfInt m.stdin
    rw [getnumberLoop]
    cases hx : scanfInt m.stdin with
    | mk num rest =>
      rw [hx] at hscan
      cases num with
      | some num => exact ⟨rfl, hscan, rfl⟩
      | none =>
        refine (flushinput_post hE _).bind fun m' hm' => ?_
        have hlt : m'.stdin.length < rest.length := hm'.2
        dsimp only at hscan
        refine (ih (m := m') (by omega)).imp fun x hx => ?_
        exact ⟨hx.back.trans hm'.1.back, hx.stdin.trans (by omega), hx.cmd.trans hm'.1.cmd⟩

theorem getnumberHelper_post (hE : Reads E) (m : Terminal σ) :
    Post (fun x => Shorter m x.2) E (getnumberHelper m) := by
  refine (getnumberLoop_post hE (m.stdin.length + 1) (Nat.lt_succ_self _)).bind fun x hx => ?_
  refine (flushinput_post hE x.2).bind fun m' hm' => ?_
  exact ⟨hm'.1.back.trans hx.back, hm'.2.le.trans hx.stdin, hm'.1.cmd.trans hx.cmd⟩

end Reading

/-- Results that `check_error` has a sentence for, or none to say. -/
def Told (x : BitVec 32) : Prop :=
  0 ≤ x.toInt ∨ x = hmstrErrNameTooLong ∨ x = hmstrErrExists ∨ x = hmstrErrNotFound

section Told
variable {a b : State} {now : Timestamp} {r : Reply}

theorem new_told (a : State) (now : Timestamp) (o n : CString) (t : BitVec 16) :
    Told (a.new now o n t).1.ret := by
  unfold State.new
  split
  · dsimp only
    split
    · exact .inl (makeHash_nonneg _ _)
    · exact .inr (.inr (.inl rfl))
  · exact .inr (.inl rfl)

theorem givetreats_told (a : State) (id : BitVec 32) (t : BitVec 16) :
    Told (a.givetreats id t).1.ret := by
  unfold State.givetreats
  split
  · exact .inr (.inr (.inr rfl))
  · exact .inl (left_nonneg _)

theorem howsdoing_told {id : BitVec 32} (h : a.howsdoing now id = some (r, b)) : Told r.ret := by
  unfold State.howsdoing at h
  split at h
  · obtain ⟨rfl, -⟩ := Prod.mk.inj (Option.some.inj h)
    exact .inr (.inr (.inr rfl))
  · obtain ⟨_, -, h⟩ := Option.map_eq_some_iff.mp h
    obtain ⟨rfl, -⟩ := Prod.mk.inj h
    exact .inl (show 0 ≤ (0 : BitVec 32).toInt by decide)

end Told

/-- The bill for an owner as an `int`. -/
def total (b : House) (o : CString) : Int :=
  (owed (b.clock b.calls) o (b.state.guests.map Guest.entry)).bmod (2 ^ 32)

/-- The house in which the last call was a collection for `o`, before that call. -/
def CollectedIn (b : House) (o : CString) (m : Terminal House) : Prop :=
  TypedName o ∧ ∃ r, asylum.call b (.collect (some o)) = some (r, m.back)

/-- The ways to stop. A collection in a house that never had a guest is a storage error. -/
inductive Ended : Stop × Terminal House → Prop
  | hung (m : Terminal House) : m.stdin = [] → Ended (.hung, m)
  | undefined (bs : List Byte) (m : Terminal House) (line : List Byte) :
      fgets (hmstrMaxName - 1) bs = (line, m.stdin) → Blank line → Ended (.undefined, m)
  | unopened {b : House} {o : CString} {m : Terminal House} : CollectedIn b o m →
      b.state.register = none → Ended (.failure, m)
  | catastrophic {b : House} {o : CString} {m : Terminal House} : CollectedIn b o m →
      total b o ≤ -100 → Ended (.failure, m)
  | unexpected {b : House} {o : CString} {m : Terminal House} : CollectedIn b o m →
      -100 < total b o → total b o < -3 → Ended (.aborted, m)

theorem reads_ended : Reads Ended := ⟨.hung, .undefined⟩

/-- What the main loop keeps. -/
structure Sound (b : House) : Prop where
  tick : ∀ n, b.clock n ≤ b.clock (n + 1)
  past : ∀ g ∈ b.state.guests, g.admitted ≤ b.clock b.calls
  fresh : ∀ v, b.handle < v → b.state.cursor v = .closed

section Sound
variable {b b' : House} {c : Call Unit} {r : Reply}

theorem clock_mono {clock : Nat → Timestamp} (h : ∀ n, clock n ≤ clock (n + 1)) {i j : Nat}
    (hij : i ≤ j) : clock i ≤ clock j := by
  induction hij with
  | refl => exact Timestamp.le_refl _
  | step _ ih => exact Timestamp.le_trans ih (h _)

theorem Sound.pastAll (h : Sound b) : Past b.clock b.calls b.state :=
  fun _ hn g hg => Timestamp.le_trans (h.past g hg) (clock_mono h.tick hn)

theorem sound_listed (h : Sound b) : Sound (House.listed b) where
  tick := h.tick
  past := h.pastAll _ (Nat.le_add_right_of_le (Nat.le_add_right ..))
  fresh v hv := h.fresh v (Nat.lt_of_succ_lt hv)

theorem length_effect (now : Timestamp) (c : Call Nat) (gs : List Guest) :
    (effect now c gs).length ≤ gs.length + 1 := by
  have hmap {gs' : List Guest} (he : gs'.map Guest.key = gs.map Guest.key) :
      gs'.length ≤ gs.length + 1 := by
    have hlen := congrArg List.length he
    rw [List.length_map, List.length_map] at hlen
    omega
  cases c with
  | new o n t =>
    rcases Asylum.join_eq now o n t gs with he | ⟨ho, hn, he⟩
    · rw [effect, he]
      exact Nat.le_succ _
    · rw [effect, he, List.length_append, List.length_singleton]
  | givetreats id t => exact hmap (Asylum.amendFirst_keys (Guest.feed_key · t) gs)
  | howsdoing id => exact hmap (Asylum.amendFirst_keys Guest.ask_key gs)
  | collect o =>
    cases o with
    | none => exact Nat.le_succ _
    | some o => exact (List.length_filter_le ..).trans (Nat.le_succ _)
  | lookup o n | directory v o n | readentry id => exact Nat.le_succ _

theorem cursor_closed {a a' : State} {now : Timestamp} {c : Call Nat} {v : Nat}
    (hd : ∀ u o n, c ≠ .directory u o n) (h : a.step (now, c) = some (r, a'))
    (hv : a.cursor v = .closed) : a'.cursor v = .closed := by
  cases c with
  | directory u o n => exact absurd rfl (hd u o n)
  | new o n t =>
    have he : (a.new now o n t).2 = a' := congrArg Prod.snd (Option.some.inj h)
    rw [← he]
    unfold State.new
    split
    · dsimp only
      split <;> exact hv
    · exact hv
  | lookup o n =>
    cases h
    exact hv
  | givetreats id t =>
    have he : (a.givetreats id t).2 = a' := congrArg Prod.snd (Option.some.inj h)
    rw [← he]
    unfold State.givetreats
    split <;> exact hv
  | howsdoing id =>
    rcases State.howsdoing_cases h with ⟨-, rfl⟩ | rfl
    · exact hv
    · exact hv
  | readentry id =>
    obtain ⟨_, -, he⟩ := Option.map_eq_some_iff.mp h
    cases he
    exact hv
  | collect o =>
    rcases State.collect_cases h with ⟨rfl, -⟩ | ⟨o', reg, -, -, -, rfl⟩
    · exact hv
    · show a.detach (a.cursor v) = .closed
      rw [hv]
      rfl

/-- A call that does not list returns, and keeps what the loop keeps. -/
theorem sound_call (h : Sound b) (hc : ∀ u o n, c ≠ .directory u o n) :
    ∃ r b', asylum.call b c = some (r, b') ∧
      b.state.step (b.clock b.calls, c.map fun _ => b.handle) = some (r, b'.state) ∧ Sound b' ∧
      b'.state.guests.length ≤ b.state.guests.length + 1 := by
  obtain ⟨r, a, hstep⟩ := State.step_returns (a := b.state) h.past (c.map fun _ => b.handle)
  refine ⟨r, { b with state := a, calls := b.calls + 1 }, by rw [asylum_call, hstep]; rfl, hstep,
    ⟨h.tick, ?_, ?_⟩, ?_⟩
  · intro g hg
    have hle := State.step_inOrder h.past hstep g hg
    exact Timestamp.le_trans hle (h.tick _)
  · intro v hv
    refine cursor_closed (fun u o n he => ?_) hstep (h.fresh v hv)
    cases c with
    | directory u' o' n' => exact hc u' o' n' rfl
    | new | lookup | howsdoing | readentry | givetreats | collect => cases he
  · show a.guests.length ≤ _
    rw [State.step_guests hstep]
    exact length_effect _ _ _

end Sound

/-! ## Commands -/

section Commands
variable {m : Terminal House}

/-- Where a command leads: fewer bytes, and no more guests than bytes were read. -/
structure Onward (m m' : Terminal House) : Prop where
  sound : Sound m'.back
  stdin : m'.stdin.length ≤ m.stdin.length
  guests : m'.back.state.guests.length ≤ m.back.state.guests.length + 1
  cmd : m'.cmd = m.cmd

theorem checkError_told {rc : BitVec 32} (h : Told rc) (funcname : String) (m : Terminal House) :
    ∃ failed s, checkError rc funcname m = .ok (failed, m.print s) := by
  rcases h with hpos | rfl | rfl | rfl
  · refine ⟨false, [], ?_⟩
    rw [checkError_nonneg hpos, Terminal.print, List.append_nil]
  · exact ⟨true, _, rfl⟩
  · exact ⟨true, _, rfl⟩
  · exact ⟨true, _, rfl⟩

theorem report_post {m' : Terminal House} {rc : BitVec 32} (ho : Onward m m') (h : Told rc)
    (funcname : String) (s : List Byte) :
    Post (Onward m) Ended
      (do let (failed, m) ← checkError rc funcname m'; return if failed then m else m.print s) := by
  obtain ⟨failed, s', he⟩ := checkError_told h funcname m'
  rw [he]
  cases failed with
  | true => exact ⟨ho.sound, ho.stdin, ho.guests, ho.cmd⟩
  | false => exact ⟨ho.sound, ho.stdin, ho.guests, ho.cmd⟩

/-- A call with a result that is told, at the end of a command. -/
theorem finish_post {m' : Terminal House} {c : Call Unit} {funcname : String}
    {s : Reply → List Byte} (h : Sound m.back) (hm : Shorter m m')
    (hc : ∀ u o n, c ≠ .directory u o n)
    (htold : ∀ r a, m.back.state.step (m.back.clock m.back.calls, c.map fun _ => m.back.handle) =
      some (r, a) → Told r.ret) :
    Post (Onward m) Ended (do
      let (r, m) ← m'.call asylum c
      let (failed, m) ← checkError r.ret funcname m
      return if failed then m else m.print (s r)) := by
  obtain ⟨hback, hlen, hcmd⟩ := hm
  obtain ⟨r, b', hcall, hstep, hsound, hguests⟩ := sound_call h hc
  rw [call_some rfl (m := m') (by rw [hback]; exact hcall)]
  have honward : Onward m { m' with back := b' } := ⟨hsound, hlen, hguests, hcmd⟩
  exact report_post honward (htold r _ hstep) funcname (s r)

theorem Shorter.trans {σ : Type} {m₁ m₂ m₃ : Terminal σ} (h : Shorter m₁ m₂) (h' : Shorter m₂ m₃) :
    Shorter m₁ m₃ := ⟨h'.back.trans h.back, h'.stdin.trans h.stdin, h'.cmd.trans h.cmd⟩

theorem shorter_print {σ : Type} (m : Terminal σ) (s : List Byte) : Shorter m (m.print s) :=
  ⟨rfl, le_rfl, rfl⟩

theorem checkIn_post (h : Sound m.back) : Post (Onward m) Ended (checkIn asylum m) := by
  refine (getnameHelper_post reads_ended _).bind ?_
  intro (owner, m₁) ⟨_, h₁⟩
  replace h₁ : Shorter m m₁ := (shorter_print m _).trans h₁
  refine (getnameHelper_post reads_ended _).bind ?_
  intro (name, m₂) ⟨_, h₂⟩
  replace h₂ : Shorter m m₂ := (h₁.trans (shorter_print m₁ _)).trans h₂
  refine (getnumberHelper_post reads_ended _).bind ?_
  intro (treats, m₃) h₃
  replace h₃ : Shorter m m₃ := (h₂.trans (shorter_print m₂ _)).trans h₃
  refine finish_post (c := .new owner name (treats.setWidth 16)) (s := fun _ => text "OK\n") h h₃
    nofun fun r a hstep => ?_
  have hret : (m.back.state.new (m.back.clock m.back.calls) owner name (treats.setWidth 16)).1 = r :=
    congrArg Prod.fst (Option.some.inj hstep)
  rw [← hret]
  exact new_told ..

theorem showState_post (h : Sound m.back) : Post (Onward m) Ended (showState asylum m) := by
  refine (getnumberHelper_post reads_ended _).bind ?_
  intro (id, m₁) h₁
  replace h₁ : Shorter m m₁ := (shorter_print m _).trans h₁
  exact finish_post (c := .howsdoing id) h h₁ nofun fun r a hstep => howsdoing_told hstep

theorem feed_post (h : Sound m.back) : Post (Onward m) Ended (feed asylum m) := by
  refine (getnumberHelper_post reads_ended _).bind ?_
  intro (id, m₁) h₁
  replace h₁ : Shorter m m₁ := (shorter_print m _).trans h₁
  refine (getnumberHelper_post reads_ended _).bind ?_
  intro (treats, m₂) h₂
  replace h₂ : Shorter m m₂ := (h₁.trans (shorter_print m₁ _)).trans h₂
  refine finish_post (c := .givetreats id (treats.setWidth 16))
    (s := fun r => text "Done! " ++ printed r.ret ++ text " treats remaining in store\n") h h₂ nofun
    fun r a hstep => ?_
  have hret : (m.back.state.givetreats id (treats.setWidth 16)).1 = r :=
    congrArg Prod.fst (Option.some.inj hstep)
  rw [← hret]
  exact givetreats_told ..

/-- A collection is told, or the house was never opened, or the result is the bill. -/
theorem collect_total {b : House} {o : CString} {r : Reply} {a : State}
    (h : b.state.collect (b.clock b.calls) (some o) = some (r, a)) :
    Told r.ret ∨ (b.state.register = none ∧ r.ret = hmstrErrStore) ∨ r.ret.toInt = total b o := by
  simp only [State.collect] at h
  split at h
  · cases h
    exact .inl (.inr (.inl rfl))
  · split at h
    · rename_i hreg
      cases h
      exact .inr (.inl ⟨hreg, rfl⟩)
    · obtain ⟨amounts, ham, h⟩ := Option.map_eq_some_iff.mp h
      cases h
      by_cases hnil : Asylum.ownedBy o b.state.guests = []
      · refine .inl (.inr (.inr (.inr ?_)))
        simp [hnil]
      · refine .inr (.inr ?_)
        simp only [List.isEmpty_iff, hnil, ↓reduceIte]
        rw [Integrity.sum_bills ham, BitVec.toInt_ofInt]
        rfl

theorem checkError_catastrophic {σ : Type} {rc : BitVec 32} (h : rc.toInt ≤ -100)
    (funcname : String) (m : Terminal σ) : checkError rc funcname m = .error (.failure, m) := by
  rw [checkError, if_pos]
  exact decide_eq_true (show rc.toInt ≤ hmstrErrStore.toInt from h)

theorem checkError_unexpected {σ : Type} {rc : BitVec 32} (hlow : rc.toInt < -3)
    (hhigh : -100 < rc.toInt) (funcname : String) (m : Terminal σ) :
    checkError rc funcname m = .error (.aborted, m) := by
  have hcode (x : BitVec 32) (hx : -3 ≤ x.toInt) : rc ≠ x := fun he => by
    rw [he] at hlow
    omega
  have hcat : ¬isCatastrophic rc = true := by
    rw [isCatastrophic, decide_eq_true_eq]
    exact not_le.mpr (show hmstrErrStore.toInt < rc.toInt from hhigh)
  rw [checkError, if_neg hcat, if_pos (by omega), if_neg (hcode _ (by decide)),
    if_neg (hcode _ (by decide)), if_neg (hcode _ (by decide))]

theorem told_of_ge {rc : BitVec 32} (h : -3 ≤ rc.toInt) : Told rc := by
  rcases Int.lt_or_le rc.toInt 0 with hneg | hpos
  · have hcode (x : BitVec 32) (hx : rc.toInt = x.toInt) : rc = x := BitVec.eq_of_toInt_eq hx
    have hthree : rc.toInt = -1 ∨ rc.toInt = -2 ∨ rc.toInt = -3 := by omega
    rcases hthree with h1 | h2 | h3
    · exact .inr (.inl (hcode _ h1))
    · exact .inr (.inr (.inl (hcode _ h2)))
    · exact .inr (.inr (.inr (hcode _ h3)))
  · exact .inl hpos

theorem collect_post (h : Sound m.back) : Post (Onward m) Ended (collect asylum m) := by
  refine (getnameHelper_post reads_ended _).bind ?_
  intro (owner, m₁) ⟨howner, h₁⟩
  replace h₁ : Shorter m m₁ := (shorter_print m _).trans h₁
  obtain ⟨r, b', hcall, hstep, hsound, hguests⟩ := sound_call (c := .collect (some owner)) h nofun
  have honward : Onward m { m₁ with back := b' } := ⟨hsound, h₁.stdin, hguests, h₁.cmd⟩
  have hin : CollectedIn m.back owner { m₁ with back := b' } := ⟨howner, r, hcall⟩
  dsimp only
  rw [call_some rfl (m := m₁) (by rw [show m₁.back = m.back from h₁.back]; exact hcall)]
  rcases collect_total hstep with htold | ⟨hreg, hret⟩ | hret
  · exact report_post honward htold _ _
  · show Post _ _ (checkError r.ret _ _ >>= _)
    rw [checkError_catastrophic (by rw [hret]; decide)]
    exact .unopened hin hreg
  · by_cases hcat : r.ret.toInt ≤ -100
    · show Post _ _ (checkError r.ret _ _ >>= _)
      rw [checkError_catastrophic hcat]
      exact .catastrophic hin (hret ▸ hcat)
    by_cases hlow : r.ret.toInt < -3
    · show Post _ _ (checkError r.ret _ _ >>= _)
      rw [checkError_unexpected hlow (not_le.mp hcat)]
      exact .unexpected hin (hret ▸ not_le.mp hcat) (hret ▸ hlow)
    · exact report_post honward (told_of_ge (not_lt.mp hlow)) _ _

variable {turns : Nat}

theorem list_post (h : Sound m.back) (hturns : m.back.state.guests.length < turns) :
    Post (Onward m) Ended (list asylum turns m) := by
  rw [list_rows (h.fresh _ (Nat.lt_succ_self _)) h.pastAll hturns]
  exact ⟨sound_listed h, le_rfl, Nat.le_succ _, rfl⟩

theorem dispatch_post (h : Sound m.back) (hturns : m.back.state.guests.length < turns)
    (cmd : Option Byte) : Post (Onward m) Ended (dispatch asylum turns cmd m) := by
  unfold dispatch
  split
  · exact checkIn_post h
  · exact collect_post h
  · exact list_post h hturns
  · exact showState_post h
  · exact feed_post h
  · exact ⟨h, le_rfl, Nat.le_succ _, rfl⟩
  · exact ⟨h, le_rfl, Nat.le_succ _, rfl⟩

/-- Where a command leads: it costs a byte at least. -/
structure Nearer (m m' : Terminal House) : Prop where
  sound : Sound m'.back
  stdin : m'.stdin.length < m.stdin.length
  guests : m'.back.state.guests.length ≤ m.back.state.guests.length + 1
  cmd : m'.cmd ≠ none

/-- A command that is the end of the input is not answered. -/
theorem command_post (h : Sound m.back) (hturns : m.back.state.guests.length < turns) :
    Post (Nearer m) Ended (command asylum turns m) := by
  rw [command]
  cases hin : (m.print cliCommands).stdin with
  | nil => exact .hung _ rfl
  | cons b bs =>
    refine (flushinput_post reads_ended _).bind ?_
    intro m₁ ⟨h₁, _⟩
    have hsound : Sound m₁.back := h₁.back ▸ h
    have hlen : m₁.stdin.length < m.stdin.length :=
      h₁.stdin.trans_lt (by rw [show m.stdin = b :: bs from hin]; exact Nat.lt_succ_self _)
    have hroom : m₁.back.state.guests.length < turns := by rw [h₁.back]; exact hturns
    refine (dispatch_post hsound hroom _).imp fun m₂ h₂ => ?_
    refine ⟨h₂.sound, h₂.stdin.trans_lt hlen, ?_, ?_⟩
    · rw [show m.back = m₁.back from h₁.back.symm]
      exact h₂.guests
    · rw [h₂.cmd, h₁.cmd]
      exact nofun

/-- Every input brings the program to its end, by the command `q` or in one of the ways
`Ended`. -/
theorem main_post (h : Sound m.back)
    (hturns : m.back.state.guests.length + m.stdin.length < turns) :
    ∃ r, main asylum turns m = some r ∧
      Post (fun m' => Sound m'.back ∧ m'.cmd = some 113) Ended r := by
  let room (m : Terminal House) : Prop :=
    Sound m.back ∧ m.back.state.guests.length + m.stdin.length < turns
  have hbody (m : Terminal House) (hm : room m) :
      Post (fun m' => (room m' ∧ m'.cmd ≠ none) ∧ m'.stdin.length < m.stdin.length) Ended
        (command asylum turns m) := by
    obtain ⟨hsound, hroom⟩ := hm
    refine (command_post hsound (by omega)).imp fun m' hm' => ?_
    have hlen := hm'.stdin
    have hguests := hm'.guests
    exact ⟨⟨⟨hm'.sound, by omega⟩, hm'.cmd⟩, hlen⟩
  have hfirst := (hbody m ⟨h, hturns⟩).imp fun m' hm' =>
    (⟨hm'.1, by omega⟩ : (room m' ∧ m'.cmd ≠ none) ∧ m'.stdin.length < turns)
  obtain ⟨r, hr, hpost⟩ := doWhile_rule (fun m (hm : room m ∧ m.cmd ≠ none) _ => hbody m hm.1) hfirst
  refine ⟨r, hr, hpost.imp fun m' ⟨⟨⟨hsound, _⟩, hcmd⟩, hstop⟩ => ⟨hsound, ?_⟩⟩
  simpa [goesOn, hcmd] using hstop

end Commands

end Hamster.Contract.MenuEnds
