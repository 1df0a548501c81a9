import Hamster.Cli.Menu

/-!
# One program, two things it is linked with

The menu does the same over two backends that answer alike: step by step, and so from
the first command to its end.
-/
namespace Hamster.Cli.Agreement

open Lib.Bytes Lib.Loops Lib.Scanf Lib.Stdin Store.Entry Store.Library Menu

/-- A name that comes out of `getname_helper`. -/
structure TypedName (s : CString) : Prop where
  length : s.strlen ≤ 30
  newline : newline ∉ s.chars

/-- A call the menu can make while it does not list. -/
def Typed : Call Unit → Prop
  | .new owner name _ => TypedName owner ∧ TypedName name
  | .collect owner => ∃ o, owner = some o ∧ TypedName o
  | .howsdoing _ | .givetreats .. => True
  | .lookup .. | .directory .. | .readentry _ => False

theorem strlen_cstr (bs : List Byte) : (cstr bs).strlen ≤ bs.length :=
  (List.takeWhile_prefix _).length_le

/-- What the front of a line avoids, the front of its beginning does. -/
theorem notMem_dropLast_front {x : Byte} {front line : List Byte} (h : front <+: line)
    (hx : x ∉ line.dropLast) : x ∉ front.dropLast := by
  obtain ⟨back, rfl⟩ := h
  cases back with
  | nil => rwa [List.append_nil] at hx
  | cons b back =>
    rw [List.dropLast_append_of_ne_nil (List.cons_ne_nil b back)] at hx
    exact fun hmem => hx (List.mem_append_left _ (List.mem_of_mem_dropLast hmem))

theorem typedName_dropNewline (bs : List Byte) : TypedName (dropNewline (cstr (fgets 30 bs).1)) := by
  have hlen : (cstr (fgets 30 bs).1).strlen ≤ 30 := (strlen_cstr _).trans (length_fgets 30 bs)
  have hfront : newline ∉ (cstr (fgets 30 bs).1).chars.dropLast :=
    notMem_dropLast_front (List.takeWhile_prefix _) (newline_notMem_dropLast 30 bs)
  unfold dropNewline
  split
  · refine ⟨?_, hfront⟩
    show (cstr (fgets 30 bs).1).chars.dropLast.length ≤ 30
    rw [List.length_dropLast]
    exact (Nat.sub_le _ _).trans hlen
  · rename_i hlast
    refine ⟨hlen, fun hmem => hfront ?_⟩
    exact List.mem_dropLast_of_mem_of_ne_getLast? hmem (Ne.symm hlast)

/-- Two replies that are printed alike, as far as they are printed. -/
structure Sounds (r r' : Reply) : Prop where
  ret : r.ret = r'.ret
  row : 0 ≤ r.ret.toInt → ∀ id, rowOf id r = rowOf id r'
  state : 0 ≤ r.ret.toInt → stateLines r = stateLines r'

theorem Sounds.refl (r : Reply) : Sounds r r := ⟨rfl, fun _ _ => rfl, fun _ => rfl⟩

theorem Sounds.symm {r r' : Reply} (h : Sounds r r') : Sounds r' r where
  ret := h.ret.symm
  row hr id := (h.row (h.ret ▸ hr) id).symm
  state hr := (h.state (h.ret ▸ hr)).symm

theorem Sounds.trans {r₁ r₂ r₃ : Reply} (h : Sounds r₁ r₂) (h' : Sounds r₂ r₃) : Sounds r₁ r₃ where
  ret := h.ret.trans h'.ret
  row hr id := (h.row hr id).trans (h'.row (h.ret ▸ hr) id)
  state hr := (h.state hr).trans (h'.state (h.ret ▸ hr))

section Agreement
variable {σ τ : Type}

/-- The two terminals have read the same, and `O` relates what they have printed: nothing a
user sees tells them apart if that is equality. -/
structure Same (O : List Byte → List Byte → Prop) (R : σ → τ → Prop) (m : Terminal σ)
    (m' : Terminal τ) : Prop where
  stdin : m.stdin = m'.stdin
  stdout : O m.stdout m'.stdout
  cmd : m.cmd = m'.cmd
  back : R m.back m'.back

/-- Both go on, and `P` relates what they have come to, or both stop for one reason. -/
def Alike (O : List Byte → List Byte → Prop) (L : σ → τ → Prop) {α β : Type} (P : α → β → Prop) :
    Ran σ α → Ran τ β → Prop :=
  Related P fun (stop, m) (stop', m') => stop = stop' ∧ Same O L m m'

/-- The same value at terminals that are the same. -/
def Pair (O : List Byte → List Byte → Prop) (R : σ → τ → Prop) {α : Type} (x : α × Terminal σ)
    (y : α × Terminal τ) : Prop :=
  x.1 = y.1 ∧ Same O R x.2 y.2

/-- Both return, with replies that sound the same, or neither does. -/
abbrev Answers (P : Reply → σ → τ → Prop) : Option (Reply × σ) → Option (Reply × τ) → Prop :=
  Option.Rel fun x y => Sounds x.1 y.1 ∧ P x.1 x.2 y.2

/-- Two backends are related by `L` while hamsters are listed, and by `R` in between. -/
structure Simulates (lib : Backend σ) (lib' : Backend τ) (R L : σ → τ → Prop) : Prop where
  weaken : ∀ {s b}, R s b → L s b
  rewind : ∀ {s b}, R s b → L (lib.rewind s) (lib'.rewind b)
  call : ∀ {s b c}, R s b → Typed c → Answers (fun _ => R) (lib.call s c) (lib'.call b c)
  entry : ∀ {s b}, L s b → ∀ id,
    Answers (fun _ => L) (lib.call s (.readentry id)) (lib'.call b (.readentry id))
  next : ∀ {s b}, L s b → Answers (fun r => if 0 ≤ r.ret.toInt then L else R)
    (lib.call s (.directory () none none)) (lib'.call b (.directory () none none))

/-- The program may print the same on both sides. -/
def Prints (O : List Byte → List Byte → Prop) : Prop :=
  ∀ {out out' : List Byte} (s : List Byte), O out out' → O (out ++ s) (out' ++ s)

/-- So may the functions of the two backends print what they print. -/
structure Speaks (O : List Byte → List Byte → Prop) (lib : Backend σ) (lib' : Backend τ) : Prop where
  prints : Prints O
  tells : ∀ {out out'} s b c, O out out' → O (out ++ lib.tells s c) (out' ++ lib'.tells b c)

variable {O : List Byte → List Byte → Prop} {R L : σ → τ → Prop} {α β γ δ : Type}

theorem Alike.bind {P : α → β → Prop} {Q : γ → δ → Prop} {x : Ran σ α} {y : Ran τ β}
    {f : α → Ran σ γ} {g : β → Ran τ δ} (h : Alike O L P x y)
    (hf : ∀ a b, P a b → Alike O L Q (f a) (g b)) : Alike O L Q (x >>= f) (y >>= g) := by
  cases x with
  | error e =>
    cases y with
    | error e' => exact h
    | ok b => exact h.elim
  | ok a =>
    cases y with
    | error e' => exact h.elim
    | ok b => exact hf a b h

variable {m : Terminal σ} {m' : Terminal τ}

theorem Same.print (h : Same O R m m') (hO : Prints O) (s : List Byte) :
    Same O R (m.print s) (m'.print s) where
  stdin := h.stdin
  stdout := hO s h.stdout
  cmd := h.cmd
  back := h.back

theorem Same.withStdin (h : Same O R m m') (bs : List Byte) :
    Same O R { m with stdin := bs } { m' with stdin := bs } :=
  ⟨rfl, h.stdout, h.cmd, h.back⟩

theorem Same.imp (h : Same O R m m') (hRL : ∀ {s b}, R s b → L s b) : Same O L m m' :=
  ⟨h.stdin, h.stdout, h.cmd, hRL h.back⟩

theorem Same.printUnless (h : Same O R m m') (hO : Prints O) {quiet : Bool} {s s' : List Byte}
    (hs : quiet = false → s = s') :
    Same O R (if quiet then m else m.print s) (if quiet then m' else m'.print s') := by
  cases quiet with
  | true => exact h
  | false =>
    rw [hs rfl]
    exact h.print hO s'

section Reading
variable (hO : Prints O) (hw : ∀ {s b}, R s b → L s b)
include hw

theorem flushinput_alike (h : Same O R m m') : Alike O L (Same O R) (flushinput m) (flushinput m') := by
  rw [flushinput, flushinput, h.stdin]
  cases skipLine m'.stdin with
  | none => exact ⟨rfl, (h.withStdin _).imp hw⟩
  | some rest => exact h.withStdin _

theorem getnameHelper_alike (h : Same O R m m') :
    Alike O L (fun x y => TypedName x.1 ∧ Pair O R x y) (getnameHelper m) (getnameHelper m') := by
  rw [getnameHelper, getnameHelper, h.stdin]
  dsimp only
  split
  · exact ⟨rfl, (h.withStdin _).imp hw⟩
  · exact ⟨typedName_dropNewline _, rfl, h.withStdin _⟩

include hO

theorem getnumberLoop_alike (turns : Nat) {m : Terminal σ} {m' : Terminal τ} (h : Same O R m m') :
    Alike O L (Pair O R) (getnumberLoop turns m) (getnumberLoop turns m') := by
  induction turns generalizing m m' with
  | zero => exact ⟨rfl, h.imp hw⟩
  | succ turns ih =>
    rw [getnumberLoop, getnumberLoop, h.stdin]
    cases scanfInt m'.stdin with
    | mk num rest =>
      cases num with
      | some num => exact ⟨rfl, h.withStdin rest⟩
      | none =>
        exact (flushinput_alike hw ((h.withStdin rest).print hO notANumber)).bind fun _ _ h => ih h

theorem getnumberHelper_alike (h : Same O R m m') :
    Alike O L (Pair O R) (getnumberHelper m) (getnumberHelper m') := by
  rw [getnumberHelper, getnumberHelper, h.stdin]
  refine (getnumberLoop_alike hO hw _ h).bind ?_
  intro (num, m) (num', m') ⟨hnum, h⟩
  refine (flushinput_alike hw h).bind fun _ _ h => ?_
  exact ⟨hnum, h⟩

theorem checkError_alike (h : Same O R m m') (rc : BitVec 32) (funcname : String) :
    Alike O L (fun x y => (x.1 = false → 0 ≤ rc.toInt) ∧ Pair O R x y) (checkError rc funcname m)
      (checkError rc funcname m') := by
  unfold checkError
  split
  · exact ⟨rfl, h.imp hw⟩
  · split
    · split
      · exact ⟨nofun, rfl, h.print hO _⟩
      · split
        · exact ⟨nofun, rfl, h.print hO _⟩
        · split
          · exact ⟨nofun, rfl, h.print hO _⟩
          · exact ⟨rfl, h.imp hw⟩
    · rename_i hneg
      exact ⟨fun _ => Int.not_lt.mp hneg, rfl, h⟩

/-- How a command ends: a complaint, or what it has to say. -/
theorem report_alike (h : Same O R m m') (rc : BitVec 32) (funcname : String) {s s' : List Byte}
    (hs : 0 ≤ rc.toInt → s = s') :
    Alike O L (Same O R)
      (do let (failed, m) ← checkError rc funcname m; return if failed then m else m.print s)
      (do let (failed, m) ← checkError rc funcname m'; return if failed then m else m.print s') := by
  refine (checkError_alike hO hw h rc funcname).bind ?_
  intro (failed, m) (failed', m') ⟨hpos, hfailed, h⟩
  obtain rfl : failed = failed' := hfailed
  exact h.printUnless hO fun hf => hs (hpos hf)

end Reading

theorem call_alike {lib : Backend σ} {lib' : Backend τ} {P : Reply → σ → τ → Prop} {c : Call Unit}
    (hsay : Speaks O lib lib') (hans : Answers P (lib.call m.back c) (lib'.call m'.back c))
    (h : Same O L m m') :
    Alike O L (fun x y => Sounds x.1 y.1 ∧ Same O (P x.1) x.2 y.2) (m.call lib c) (m'.call lib' c) := by
  rw [Terminal.call, Terminal.call]
  generalize lib.call m.back c = x at hans
  generalize lib'.call m'.back c = y at hans
  cases hans with
  | none => exact ⟨rfl, h.stdin, hsay.tells _ _ c h.stdout, h.cmd, h.back⟩
  | some hr => exact ⟨hr.1, h.stdin, hsay.tells _ _ c h.stdout, h.cmd, hr.2⟩

section Commands
variable {lib : Backend σ} {lib' : Backend τ} (hlib : Simulates lib lib' R L)
  (hsay : Speaks O lib lib')
include hlib hsay

theorem checkIn_alike (h : Same O R m m') :
    Alike O L (Same O R) (checkIn lib m) (checkIn lib' m') := by
  refine (getnameHelper_alike hlib.weaken (h.print hsay.prints _)).bind ?_
  intro (owner, m) (owner', m') ⟨howner, ho, h⟩
  obtain rfl : owner = owner' := ho
  refine (getnameHelper_alike hlib.weaken (h.print hsay.prints _)).bind ?_
  intro (name, m) (name', m') ⟨hname, hn, h⟩
  obtain rfl : name = name' := hn
  refine (getnumberHelper_alike hsay.prints hlib.weaken (h.print hsay.prints _)).bind ?_
  intro (treats, m) (treats', m') ⟨ht, h⟩
  obtain rfl : treats = treats' := ht
  have hcall := hlib.call h.back (show Typed (.new owner name (treats.setWidth 16)) from
    ⟨howner, hname⟩)
  refine (call_alike hsay hcall (h.imp hlib.weaken)).bind ?_
  intro (r, m) (r', m') ⟨hr, h⟩
  dsimp only
  rw [show r.ret = r'.ret from hr.ret]
  exact report_alike hsay.prints hlib.weaken h r'.ret _ fun _ => rfl

theorem collect_alike (h : Same O R m m') :
    Alike O L (Same O R) (collect lib m) (collect lib' m') := by
  refine (getnameHelper_alike hlib.weaken (h.print hsay.prints _)).bind ?_
  intro (owner, m) (owner', m') ⟨howner, ho, h⟩
  obtain rfl : owner = owner' := ho
  have hcall := hlib.call h.back (show Typed (.collect (some owner)) from ⟨owner, rfl, howner⟩)
  refine (call_alike hsay hcall (h.imp hlib.weaken)).bind ?_
  intro (r, m) (r', m') ⟨hr, h⟩
  dsimp only
  rw [show r.ret = r'.ret from hr.ret]
  exact report_alike hsay.prints hlib.weaken h r'.ret _ fun _ => rfl

theorem listLoop_alike (turns : Nat) (any : Bool) {m : Terminal σ} {m' : Terminal τ}
    (h : Same O L m m') :
    Alike O L (fun x y => x.1 = y.1 ∧ Pair O R x.2 y.2) (listLoop lib turns any m)
      (listLoop lib' turns any m') := by
  induction turns generalizing any m m' with
  | zero => exact ⟨rfl, h⟩
  | succ turns ih =>
    refine (call_alike hsay (hlib.next h.back) h).bind ?_
    intro (r, m) (r', m') ⟨hr, h⟩
    dsimp only at h ⊢
    rw [← show r.ret = r'.ret from hr.ret]
    by_cases hpos : 0 ≤ r.ret.toInt
    · rw [if_pos hpos] at h
      rw [if_pos hpos, if_pos hpos]
      have hhead : Same O L (if any then _ else _) (if any then _ else _) :=
        h.printUnless hsay.prints fun _ => (rfl : heading = heading)
      refine (call_alike hsay (hlib.entry hhead.back r.ret) hhead).bind ?_
      intro (entry, m) (entry', m') ⟨hentry, h⟩
      dsimp only
      rw [← show entry.ret = entry'.ret from hentry.ret]
      refine (checkError_alike hsay.prints (fun h => h) h entry.ret _).bind ?_
      intro (failed, m) (failed', m') ⟨hfine, hfailed, h⟩
      obtain rfl : failed = failed' := hfailed
      exact ih true (h.printUnless hsay.prints fun hf => hentry.row (hfine hf) _)
    · rw [if_neg hpos] at h
      rw [if_neg hpos, if_neg hpos]
      exact ⟨rfl, rfl, h⟩

theorem list_alike (turns : Nat) (h : Same O R m m') :
    Alike O L (Same O R) (list lib turns m) (list lib' turns m') := by
  have hback : Same O L { m with back := lib.rewind m.back } { m' with back := lib'.rewind m'.back } :=
    ⟨h.stdin, h.stdout, h.cmd, hlib.rewind h.back⟩
  refine (listLoop_alike hlib hsay turns false hback).bind ?_
  intro (ret, any, m) (ret', any', m') ⟨hret, hany, h⟩
  obtain rfl : ret = ret' := hret
  obtain rfl : any = any' := hany
  dsimp only
  split
  · exact h.printUnless hsay.prints fun _ => rfl
  · exact report_alike hsay.prints hlib.weaken h ret _ fun _ => rfl

theorem showState_alike (h : Same O R m m') :
    Alike O L (Same O R) (showState lib m) (showState lib' m') := by
  refine (getnumberHelper_alike hsay.prints hlib.weaken (h.print hsay.prints _)).bind ?_
  intro (id, m) (id', m') ⟨hid, h⟩
  obtain rfl : id = id' := hid
  have hcall := hlib.call h.back (show Typed (.howsdoing id) from trivial)
  refine (call_alike hsay hcall (h.imp hlib.weaken)).bind ?_
  intro (r, m) (r', m') ⟨hr, h⟩
  dsimp only
  rw [← show r.ret = r'.ret from hr.ret]
  exact report_alike hsay.prints hlib.weaken h r.ret _ hr.state

theorem feed_alike (h : Same O R m m') : Alike O L (Same O R) (feed lib m) (feed lib' m') := by
  refine (getnumberHelper_alike hsay.prints hlib.weaken (h.print hsay.prints _)).bind ?_
  intro (id, m) (id', m') ⟨hid, h⟩
  obtain rfl : id = id' := hid
  refine (getnumberHelper_alike hsay.prints hlib.weaken (h.print hsay.prints _)).bind ?_
  intro (treats, m) (treats', m') ⟨ht, h⟩
  obtain rfl : treats = treats' := ht
  have hcall := hlib.call h.back (show Typed (.givetreats id (treats.setWidth 16)) from trivial)
  refine (call_alike hsay hcall (h.imp hlib.weaken)).bind ?_
  intro (r, m) (r', m') ⟨hr, h⟩
  dsimp only
  rw [show r.ret = r'.ret from hr.ret]
  exact report_alike hsay.prints hlib.weaken h r'.ret _ fun _ => rfl

theorem dispatch_alike (turns : Nat) (cmd : Option Byte) (h : Same O R m m') :
    Alike O L (Same O R) (dispatch lib turns cmd m) (dispatch lib' turns cmd m') := by
  unfold dispatch
  split
  · exact checkIn_alike hlib hsay h
  · exact collect_alike hlib hsay h
  · exact list_alike hlib hsay turns h
  · exact showState_alike hlib hsay h
  · exact feed_alike hlib hsay h
  · exact h.print hsay.prints _
  · exact h.print hsay.prints _

theorem command_alike (turns : Nat) (h : Same O R m m') :
    Alike O L (Same O R) (command lib turns m) (command lib' turns m') := by
  have hread : Same O R
      { m.print cliCommands with stdin := (getchar m.stdin).2, cmd := (getchar m.stdin).1 }
      { m'.print cliCommands with stdin := (getchar m'.stdin).2, cmd := (getchar m'.stdin).1 } := by
    rw [h.stdin]
    exact ⟨rfl, (h.print hsay.prints cliCommands).stdout, rfl, h.back⟩
  refine (flushinput_alike hlib.weaken hread).bind fun _ _ h' => ?_
  rw [show (m.print cliCommands).stdin = (m'.print cliCommands).stdin from h.stdin]
  exact dispatch_alike hlib hsay turns _ h'

/-- The two programs, for the same number of turns. -/
theorem main_alike (turns : Nat) (h : Same O R m m') :
    Option.Rel (Alike O L (Same O R)) (main lib turns m) (main lib' turns m') :=
  doWhile_related (fun _ _ h => by rw [goesOn, goesOn, h.cmd])
    (fun _ _ h => command_alike hlib hsay turns h) turns h

end Commands

section Meeting
variable {υ : Type} {lib : Backend σ} {lib' : Backend τ} {spec : Backend υ}
  {R₁ L₁ : σ → υ → Prop} {R₂ L₂ : τ → υ → Prop}

/-- Both stand for one and the same. -/
def Meet (R₁ : σ → υ → Prop) (R₂ : τ → υ → Prop) (s : σ) (b : τ) : Prop :=
  ∃ a, R₁ s a ∧ R₂ b a

theorem Answers.meet {P : Reply → σ → υ → Prop} {Q : Reply → τ → υ → Prop}
    {S : Reply → σ → τ → Prop} {x : Option (Reply × σ)} {y : Option (Reply × τ)}
    {z : Option (Reply × υ)} (hx : Answers P x z) (hy : Answers Q y z)
    (hS : ∀ r r' s b a, r.ret = r'.ret → P r s a → Q r' b a → S r s b) : Answers S x y := by
  cases hx with
  | none =>
    cases hy with
    | none => exact .none
  | some hr =>
    cases hy with
    | some hr' =>
      have hsounds := hr.1.trans hr'.1.symm
      exact .some ⟨hsounds, hS _ _ _ _ _ hsounds.ret hr.2 hr'.2⟩

/-- Two backends that are answered by a third answer each other. -/
theorem Simulates.meet (h : Simulates lib spec R₁ L₁) (h' : Simulates lib' spec R₂ L₂) :
    Simulates lib lib' (Meet R₁ R₂) (Meet L₁ L₂) where
  weaken := fun ⟨a, hs, hb⟩ => ⟨a, h.weaken hs, h'.weaken hb⟩
  rewind := fun ⟨a, hs, hb⟩ => ⟨_, h.rewind hs, h'.rewind hb⟩
  call := fun ⟨_, hs, hb⟩ hc =>
    (h.call hs hc).meet (h'.call hb hc) fun _ _ _ _ a _ hs hb => ⟨a, hs, hb⟩
  entry := fun ⟨_, hs, hb⟩ id =>
    (h.entry hs id).meet (h'.entry hb id) fun _ _ _ _ a _ hs hb => ⟨a, hs, hb⟩
  next := fun ⟨_, hs, hb⟩ => by
    refine (h.next hs).meet (h'.next hb) fun r r' s b a hret hs hb => ?_
    rw [← hret] at hb
    split
    · rename_i hpos
      rw [if_pos hpos] at hs hb
      exact ⟨a, hs, hb⟩
    · rename_i hneg
      rw [if_neg hneg] at hs hb
      exact ⟨a, hs, hb⟩

end Meeting

end Agreement

end Hamster.Cli.Agreement
