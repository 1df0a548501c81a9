import Hamster.Cli.Agreement

/-!
# Orders

What a user means, typed in as the menu wants it, is what the menu carries out: a script
is read back order by order, whatever the program is linked with.
-/
namespace Hamster.Cli.Orders

open Lib.Bytes Lib.Loops Lib.Scanf Lib.Stdin Store.Entry Store.Library Menu

/-- A name that goes on a line. A longer one would leave its end to the next question. -/
structure Line where
  text : CString
  short : text.strlen ≤ 29
  unbroken : newline ∉ text.chars

inductive Order
  | checkIn (owner name : Line) (treats : BitVec 32)
  | collect (owner : Line)
  | list
  | showState (id : BitVec 32)
  | feed (id treats : BitVec 32)

def Line.typed (l : Line) : List Byte := l.text.chars ++ [newline]

def typedInt (x : BitVec 32) : List Byte := printed x ++ [newline]

namespace Order

def letter : Order → Byte
  | checkIn .. => 110
  | collect _ => 98
  | list => 108
  | showState _ => 115
  | feed .. => 102

def arguments : Order → List Byte
  | checkIn owner name treats => owner.typed ++ name.typed ++ typedInt treats
  | collect owner => owner.typed
  | list => []
  | showState id => typedInt id
  | feed id treats => typedInt id ++ typedInt treats

def typed (o : Order) : List Byte := o.letter :: newline :: o.arguments

end Order

/-- The orders one after the other, and an end. -/
def script : List Order → List Byte
  | [] => text "q\n"
  | o :: os => o.typed ++ script os

section Orders
variable {σ : Type} (lib : Backend σ) (turns : Nat)

namespace Order

/-- What is asked for before the call is made. -/
def prompts : Order → List Byte
  | checkIn .. => text "checking in new hamster:\n        owner: " ++
      text "        hamster name: " ++ text "        treats: "
  | collect _ => text "collecting hamsters:\n        owner: "
  | list => []
  | showState _ => text "        ID: "
  | feed .. => text "        ID: " ++ text "        treats: "

/-- The call, and what is printed when it returns. -/
def carryOut : Order → Terminal σ → Ran σ (Terminal σ)
  | checkIn owner name treats, m => do
    let (r, m) ← m.call lib (.new owner.text name.text (treats.setWidth 16))
    let (failed, m) ← checkError r.ret "hmstr_new()" m
    return if failed then m else m.print (text "OK\n")
  | collect owner, m => do
    let (r, m) ← m.call lib (.collect (some owner.text))
    let (failed, m) ← checkError r.ret "hmstr_collect()" m
    return if failed then m else m.print (text "return code: " ++ printed r.ret ++ text "\n")
  | list, m => Menu.list lib turns m
  | showState id, m => do
    let (r, m) ← m.call lib (.howsdoing id)
    let (failed, m) ← checkError r.ret "hmstr_howsdoing()" m
    return if failed then m else m.print (stateLines r)
  | feed id treats, m => do
    let (r, m) ← m.call lib (.givetreats id (treats.setWidth 16))
    let (failed, m) ← checkError r.ret "hmstr_givetreats()" m
    return if failed then m
      else m.print (text "Done! " ++ printed r.ret ++ text " treats remaining in store\n")

end Order

/-- The orders of a script, which is followed by `rest`. -/
def perform (rest : List Byte) : List Order → Terminal σ → Ran σ (Terminal σ)
  | [], m => .ok ({ m with stdin := rest, cmd := some 113 }.print (cliCommands ++ text "quit\n"))
  | o :: os, m => do
    let m ← o.carryOut lib turns
      ({ m with stdin := script os ++ rest, cmd := some o.letter }.print (cliCommands ++ o.prompts))
    perform rest os m

section Reading
variable {m : Terminal σ} {rest : List Byte}

theorem getnameHelper_typed (l : Line) (rest : List Byte) (h : m.stdin = l.typed ++ rest) :
    getnameHelper m = .ok (l.text, { m with stdin := rest }) := by
  have hread : fgets (hmstrMaxName - 1) (l.typed ++ rest) =
      (l.text.chars ++ [newline], rest) := by
    rw [Line.typed, List.append_assoc]
    exact fgets_line (Nat.lt_succ_of_le l.short) l.unbroken
  have hchars : (cstr (l.text.chars ++ [newline])).chars = l.text.chars ++ [newline] := by
    refine List.takeWhile_eq_self_iff.mpr fun b hb => ?_
    rcases List.mem_append.mp hb with hb | hb
    · have hne : b ≠ 0 := fun he => l.text.no_nul (he ▸ hb)
      simpa using hne
    · rw [List.mem_singleton.mp hb]
      decide
  have hname : dropNewline (cstr (l.text.chars ++ [newline])) = l.text := by
    have hlast : (cstr (l.text.chars ++ [newline])).chars.getLast? = some newline := by
      rw [hchars, List.getLast?_concat]
    rw [dropNewline, if_pos hlast]
    refine CString.ext ?_
    show (cstr (l.text.chars ++ [newline])).chars.dropLast = l.text.chars
    rw [hchars, List.dropLast_concat]
  have hne : (cstr (l.text.chars ++ [newline])).chars ≠ [] := by
    rw [hchars]
    exact List.append_ne_nil_of_right_ne_nil _ (List.cons_ne_nil _ _)
  rw [getnameHelper, h, hread]
  dsimp only
  rw [if_neg hne, hname]

theorem getnumberHelper_typed (x : BitVec 32) (rest : List Byte) (h : m.stdin = typedInt x ++ rest) :
    getnumberHelper m = .ok (x, { m with stdin := rest }) := by
  have hread : scanfInt (typedInt x ++ rest) = (some x, newline :: rest) := by
    rw [typedInt, List.append_assoc]
    exact scanfInt_printInt x fun b hb => by
      rw [← Option.mem_some.mp hb]
      decide
  rw [getnumberHelper, getnumberLoop, h, hread]
  rfl

/-- An order that was typed in is carried out. -/
theorem command_typed (o : Order) :
    command lib turns { m with stdin := o.typed ++ rest } =
      o.carryOut lib turns
        ({ m with stdin := rest, cmd := some o.letter }.print (cliCommands ++ o.prompts)) := by
  have hstart : command lib turns { m with stdin := o.typed ++ rest } =
      dispatch lib turns (some o.letter)
        ({ m with stdin := o.arguments ++ rest, cmd := some o.letter }.print cliCommands) := rfl
  rw [hstart]
  cases o with
  | checkIn owner name treats =>
    show checkIn lib _ = _
    rw [checkIn, getnameHelper_typed owner (name.typed ++ (typedInt treats ++ rest))
      (by simp [Terminal.print, Order.arguments])]
    show getnameHelper _ >>= _ = _
    rw [getnameHelper_typed name (typedInt treats ++ rest) rfl]
    show getnumberHelper _ >>= _ = _
    rw [getnumberHelper_typed treats rest rfl]
    simp only [Terminal.print, Order.prompts, List.append_assoc]
    rfl
  | collect owner =>
    show collect lib _ = _
    rw [collect, getnameHelper_typed owner rest rfl]
    simp only [Terminal.print, Order.prompts, List.append_assoc]
    rfl
  | list =>
    simp only [Order.prompts, List.append_nil]
    rfl
  | showState id =>
    show showState lib _ = _
    rw [showState, getnumberHelper_typed id rest rfl]
    simp only [Terminal.print, Order.prompts, List.append_assoc]
    rfl
  | feed id treats =>
    show Menu.feed lib _ = _
    rw [Menu.feed, getnumberHelper_typed id (typedInt treats ++ rest)
      (by simp [Terminal.print, Order.arguments])]
    show getnumberHelper _ >>= _ = _
    rw [getnumberHelper_typed treats rest rfl]
    simp only [Terminal.print, Order.prompts, List.append_assoc]
    rfl

end Reading

section Script
variable {m : Terminal σ} {rest : List Byte}

/-- An order that is carried out reads nothing. -/
def Quiet (m m' : Terminal σ) : Prop := m'.stdin = m.stdin ∧ m'.cmd = m.cmd

theorem call_quiet (m : Terminal σ) (c : Call Unit) :
    Post (fun x => Quiet m x.2) (fun _ => True) (m.call lib c) := by
  unfold Terminal.call
  split
  · trivial
  · exact ⟨rfl, rfl⟩

theorem checkError_quiet (rc : BitVec 32) (funcname : String) (m : Terminal σ) :
    Post (fun x => Quiet m x.2) (fun _ => True) (checkError rc funcname m) := by
  unfold checkError
  repeat' split
  all_goals trivial

theorem Quiet.trans {m₁ m₂ m₃ : Terminal σ} (h : Quiet m₁ m₂) (h' : Quiet m₂ m₃) : Quiet m₁ m₃ :=
  ⟨h'.1.trans h.1, h'.2.trans h.2⟩

theorem Quiet.unless {m' : Terminal σ} (h : Quiet m m') (b : Bool) (s : List Byte) :
    Quiet m (if b then m' else m'.print s) := by
  cases b with
  | true => exact h
  | false => exact h

/-- A call, its check and what is printed. -/
theorem finish_quiet (c : Call Unit) (funcname : String) (s : Reply → List Byte) (m : Terminal σ) :
    Post (Quiet m) (fun _ => True) (do
      let (r, m) ← m.call lib c
      let (failed, m) ← checkError r.ret funcname m
      return if failed then m else m.print (s r)) := by
  refine (call_quiet lib m c).bind fun x hx => ?_
  refine (checkError_quiet x.1.ret funcname x.2).bind fun y hy => ?_
  exact (hx.trans hy).unless y.1 (s x.1)

theorem listLoop_quiet (n : Nat) (any : Bool) (m : Terminal σ) :
    Post (fun x => Quiet m x.2.2) (fun _ => True) (listLoop lib n any m) := by
  induction n generalizing any m with
  | zero => trivial
  | succ n ih =>
    rw [listLoop]
    refine (call_quiet lib m _).bind fun x hx => ?_
    dsimp only
    split
    · refine (call_quiet lib _ _).bind fun y hy => ?_
      refine (checkError_quiet y.1.ret _ y.2).bind fun z hz => ?_
      have hlater := (hx.trans ((Quiet.unless ⟨rfl, rfl⟩ any heading).trans hy)).trans hz
      exact (ih true _).imp fun x' hx' => (hlater.unless z.1 _).trans hx'
    · exact hx

theorem carryOut_quiet (o : Order) (m : Terminal σ) :
    Post (Quiet m) (fun _ => True) (o.carryOut lib turns m) := by
  cases o with
  | checkIn owner name treats => exact finish_quiet lib _ _ (fun _ => text "OK\n") m
  | collect owner =>
    exact finish_quiet lib _ _
      (fun r => text "return code: " ++ printed r.ret ++ text "\n") m
  | list =>
    refine (listLoop_quiet lib turns false _).bind fun x hx => ?_
    dsimp only
    split
    · exact hx.unless x.2.1 _
    · refine (checkError_quiet x.1 _ x.2.2).bind fun y hy => ?_
      exact (hx.trans hy).unless y.1 _
  | showState id => exact finish_quiet lib _ _ _ m
  | feed id treats =>
    exact finish_quiet lib _ _
      (fun r => text "Done! " ++ printed r.ret ++ text " treats remaining in store\n") m

theorem goesOn_letter {o : Order} (h : m.cmd = some o.letter) : goesOn m = true := by
  rw [goesOn, h]
  cases o <;> rfl

theorem command_quit (hin : m.stdin = script [] ++ rest) :
    command lib turns m = perform lib turns rest [] m := by
  have hsame : { m with stdin := 113 :: newline :: rest } = m :=
    congrArg (fun bs => { m with stdin := bs }) hin.symm
  rw [← hsame]
  show Except.ok (({ m with stdin := rest, cmd := some 113 }.print cliCommands).print _) = _
  simp only [perform, Terminal.print, List.append_assoc]

/-- A script is carried out to its end, and no byte behind it is touched. -/
theorem main_script {os : List Order} (hturns : os.length ≤ turns)
    (hin : m.stdin = script os ++ rest) :
    main lib turns m = some (perform lib turns rest os m) := by
  have hloop (n : Nat) (hn : os.length ≤ n) :
      doWhile goesOn (command lib turns) n m =
        some (perform lib turns rest os m) := by
    clear hturns
    induction os generalizing n m with
    | nil =>
      rw [doWhile, command_quit lib turns hin]
      exact whileLoop_exit rfl
    | cons o os ih =>
      obtain ⟨n, rfl⟩ : ∃ k, n = k + 1 := ⟨n - 1, by rw [List.length_cons] at hn; omega⟩
      have hcommand := @command_typed σ lib turns m (script os ++ rest) o
      have hsame : { m with stdin := o.typed ++ (script os ++ rest) } = m := by
        rw [← List.append_assoc]
        exact congrArg (fun bs => { m with stdin := bs }) hin.symm
      rw [hsame] at hcommand
      rw [doWhile, hcommand, perform]
      have hquiet := carryOut_quiet lib turns o
        ({ m with stdin := script os ++ rest, cmd := some o.letter }.print (cliCommands ++ o.prompts))
      generalize o.carryOut lib turns _ = x at hquiet
      cases x with
      | error e => rfl
      | ok m' =>
        obtain ⟨hstdin, hcmd⟩ := hquiet
        show whileLoop goesOn _ _ _ = _
        rw [whileLoop_enter (goesOn_letter hcmd)]
        exact ih hstdin n (by rw [List.length_cons] at hn; omega)
  exact hloop turns hturns

end Script

/-- A hamster is brought with fewer treats than none, and listed. -/
def visit : List Order :=
  [.checkIn ⟨⟨[111], by decide⟩, by decide, by decide⟩ ⟨⟨[104], by decide⟩, by decide, by decide⟩
    (BitVec.ofInt 32 (-3)), .list]

/-- More was typed in than the menu needs. -/
def atStart : Terminal Standalone :=
  ⟨script visit ++ text "rest", [], none,
    ⟨⟨fun _ => none, fun _ => [], 0, ∅, [], .epoch⟩, -1, fun _ => .epoch, 0⟩⟩

theorem main_script_visit :
    main library 2 atStart = some (perform library 2 (text "rest") visit atStart) :=
  main_script library 2 (by decide) rfl

example : script visit = text "n\no\nh\n-3\nl\nq\n" := by decide +kernel

end Orders

end Hamster.Cli.Orders
