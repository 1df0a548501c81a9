import Hamster.Lib.Format
import Hamster.Rest.Split

/-!
# The reading helpers of the REST client

The helpers that only ask: `hrest_helper_howsdoing`, `hrest_helper_queryHamster` and the two
that print lists. They share one `sscanf` for the record of a hamster, whose result they
do not look at.
-/
namespace Hamster.Rest.Lookups

open Lib.Bytes Lib.Scanf Lib.Format Store.Entry Rest.Helpers

/-- The formats these helpers put into `url`. -/
inductive Target
  | ownerQuery (owner : CString)
  | ownersHamsters (ownerID : BitVec 32)
  | owner (ownerID : BitVec 32)
  | allHamsters
  | hamsterQuery (hamsterName : CString)
  | hamster (id : BitVec 32)
  deriving DecidableEq

def Target.path : Target → List Byte
  | .ownerQuery o => (Endpoint.ownerQuery o).path
  | .ownersHamsters id => (Endpoint.hamsters id).path
  | .owner id => (Endpoint.owner id).path
  | .allHamsters => ascii "/hamsters"
  | .hamsterQuery n => ascii "/hamsters?hamsterName=" ++ n.chars
  | .hamster id => ascii "/hamsters/" ++ printInt id.toInt

section Fetch
variable {σ : Type} (L : Link σ)

/-- The text fits into `url`, which has 1024 characters. -/
def InUrl (target : Target) : Prop := (L.defaultURL ++ target.path).length < 1024

instance (target : Target) : Decidable (InUrl L target) := inferInstanceAs (Decidable (_ < _))

/-- `sprintf` and `curlsForTheGirls(GET)`: the buffer and the server after them. There is no
result when `url` is too short. -/
def fetch (server : σ) (target : Target) : Option (List Byte × σ) :=
  if InUrl L target then
    if L.curl then
      match L.perform server .get (L.defaultURL ++ target.path) with
      | (none, server) => some ([], server)
      | (some pieces, server) => some (pieces.foldl writeMemoryCallback [], server)
    else some ([], server)
  else none

/-- It is the transfer that the other helpers make. -/
theorem curls_fetch (c : Client σ) (url : Endpoint) {target : Target}
    (h : url.path = target.path) (hurl : InUrl L target) : fetch L c.server target =
      some ((curlsForTheGirls L c .get url).2.memory, (curlsForTheGirls L c .get url).2.server) := by
  unfold curlsForTheGirls fetch
  rw [if_pos hurl, h]
  split
  · rcases L.perform c.server .get (L.defaultURL ++ target.path) with ⟨_ | pieces, server⟩
    · rfl
    · rfl
  · rfl

/-- A transfer that succeeds. -/
theorem fetch_ok {server server' : σ} {target : Target} {pieces : List (List Byte)}
    (hc : L.curl = true) (hurl : InUrl L target)
    (h : L.perform server .get (L.defaultURL ++ target.path) = (some pieces, server')) :
    fetch L server target = some (pieces.flatten, server') := by
  rw [fetch, if_pos hurl, if_pos hc, h]
  simp only [foldl_writeMemoryCallback, List.nil_append]

/-- Numbers fit. `defaultURL` has 512 characters. -/
theorem inUrl_hamster (hshort : L.defaultURL.length < 512) (id : BitVec 32) :
    InUrl L (.hamster id) := by
  have hid := length_printInt id
  have hpath : (Target.hamster id).path.length = 10 + (printInt id.toInt).length :=
    List.length_append
  rw [InUrl, List.length_append, hpath]
  omega

end Fetch

/-- The variables the record is read into. -/
structure Record where
  hamsterName : List Byte
  hamsterID : BitVec 32
  ownerID : BitVec 32
  treats : BitVec 32
  rounds : BitVec 32
  cost : BitVec 32
  deriving DecidableEq

def recordFormat : List Byte :=
  ascii "name:%s\nID:%i\nownerID:%i\ntreats:%i\nrounds:%i\ncost:%i\n"

/-- A variable keeps its value when there is none for it. -/
def intArg (values : List Value) (k : Nat) (x : BitVec 32) : BitVec 32 :=
  ((values[k]?.bind Value.int?).map storeInt).getD x

/-- The `sscanf` of a record; `none` if the name is longer than its array. -/
def scanRecord (r : Record) (mem : List Byte) : Option Record :=
  let values := sscanfValues recordFormat mem
  let name := (values[0]?.bind Value.string?).getD r.hamsterName
  if hmstrMaxName < name.length then none
  else some ⟨name, intArg values 1 r.hamsterID, intArg values 2 r.ownerID, intArg values 3 r.treats,
    intArg values 4 r.rounds, intArg values 5 r.cost⟩

/-! The values the uninitialised variables hold are arguments. A result is `none` where an
assertion of `str_split` fails or a text runs over its array. -/

section Helpers
variable {σ : Type} (L : Link σ)

def hrestHelperHowsdoing (server : σ) (id : BitVec 32) (state : HmstrState) (r : Record) :
    Option (BitVec 32 × HmstrState × σ) := do
  let (memory, server) ← fetch L server (.hamster id)
  if memory.length = 0 then return (hmstrErrNotFound, state, server)
  else
    let r ← scanRecord r memory
    return (hrestRetOk, ⟨r.treats.setWidth 16, r.rounds, r.cost.setWidth 16⟩, server)

/-- The loop of `hrest_helper_queryHamster` over the ids. -/
def searchHamsters (ownerID : BitVec 32) : List (List Byte) → σ → Record → BitVec 32 →
    Option (BitVec 32 × σ)
  | [], server, _, hamsterID => some (hamsterID, server)
  | line :: lines, server, r, hamsterID => do
    let r := { r with hamsterID := sscanf [] line r.hamsterID }
    let (memory, server) ← fetch L server (.hamster r.hamsterID)
    let r ← scanRecord r memory
    if r.ownerID = ownerID then return (r.hamsterID, server)
    else searchHamsters ownerID lines server r hamsterID

/-- The return value and `*hamster_id`. -/
def hrestHelperQueryHamster (server : σ) (owner hamsterName : CString) (hamsterID : BitVec 32)
    (ownerID : BitVec 32) (r : Record) : Option (BitVec 32 × BitVec 32 × σ) := do
  let (memory, server) ← fetch L server (.ownerQuery owner)
  if memory.length = 0 then return (hmstrErrNotFound, hamsterID, server)
  else
    let ownerID := sscanf [] memory ownerID
    let (memory, server) ← fetch L server (.hamsterQuery hamsterName)
    if memory.length = 0 then return (hmstrErrNotFound, hamsterID, server)
    else
      let hamsterIDs ← strSplit (cstr memory).chars
      let (hamsterID, server) ← searchHamsters L ownerID hamsterIDs server r hamsterID
      return (hrestRetOk, hamsterID, server)

/-- A line of `hrest_helper_print_hamster`. -/
structure Printed where
  id : BitVec 32
  owner : List Byte
  hamsterName : List Byte
  price : BitVec 16
  treats : BitVec 16
  deriving DecidableEq

def hrestHelperPrintHamster (r : Record) (owner : List Byte) : Printed :=
  ⟨r.hamsterID, owner, r.hamsterName, r.cost.setWidth 16, r.treats.setWidth 16⟩

/-- The loop of `hrest_helper_print_owners_hamsters`. -/
def printOwned (owner : CString) : List (List Byte) → σ → Record → List Printed →
    Option (List Printed × σ)
  | [], server, _, printed => some (printed, server)
  | line :: lines, server, r, printed => do
    let r := { r with hamsterID := sscanf [] line r.hamsterID }
    let (memory, server) ← fetch L server (.hamster r.hamsterID)
    let r ← scanRecord r memory
    printOwned owner lines server r (printed ++ [hrestHelperPrintHamster r owner.chars])

/-- The return value and what is printed. The list of ids is not looked at before it is split. -/
def hrestHelperPrintOwnersHamsters (server : σ) (owner : CString) (ownerID : BitVec 32)
    (r : Record) : Option (BitVec 32 × List Printed × σ) := do
  let (memory, server) ← fetch L server (.ownerQuery owner)
  if memory.length = 0 then return (hmstrErrNotFound, [], server)
  else
    let ownerID := sscanf [] memory ownerID
    let (memory, server) ← fetch L server (.ownersHamsters ownerID)
    let hamsterIDs ← strSplit (cstr memory).chars
    let (printed, server) ← printOwned L owner hamsterIDs server r []
    return (hrestRetOk, printed, server)

def ownerFormat : List Byte := ascii "name:%s\nid:%i"

/-- The loop of `hrest_helper_print_all_hamsters`; it ends early when an owner is missing. -/
def printAll : List (List Byte) → σ → Record → List Byte → List Printed →
    Option (BitVec 32 × List Printed × σ)
  | [], server, _, _, printed => some (hrestRetOk, printed, server)
  | line :: lines, server, r, ownerName, printed => do
    let r := { r with hamsterID := sscanf [] line r.hamsterID }
    let (memory, server) ← fetch L server (.hamster r.hamsterID)
    let r ← scanRecord r memory
    let (memory, server) ← fetch L server (.owner r.ownerID)
    if memory.length = 0 then return (hrestRetNotImplemented, printed, server)
    else
      let values := sscanfValues ownerFormat memory
      let ownerName := (values[0]?.bind Value.string?).getD ownerName
      if hmstrMaxName < ownerName.length then none
      else
        let r := { r with ownerID := intArg values 1 r.ownerID }
        printAll lines server r ownerName (printed ++ [hrestHelperPrintHamster r ownerName])

def hrestHelperPrintAllHamsters (server : σ) (r : Record) (ownerName : List Byte) :
    Option (BitVec 32 × List Printed × σ) := do
  let (memory, server) ← fetch L server .allHamsters
  if memory.length = 0 then return (hmstrErrNotFound, [], server)
  else
    let hamsterIDs ← strSplit (cstr memory).chars
    printAll L hamsterIDs server r ownerName []

/-! A turn of each list, whose hamster is read. -/

/-- What a turn of `hrest_helper_print_all_hamsters` does when it has read the record. -/
def askOwner (lines : List (List Byte)) (server : σ) (r : Record)
    (ownerName : List Byte) (printed : List Printed) :
    Option (BitVec 32 × List Printed × σ) := do
  let (memory, server) ← fetch L server (.owner r.ownerID)
  if memory.length = 0 then return (hrestRetNotImplemented, printed, server)
  else
    let values := sscanfValues ownerFormat memory
    let ownerName := (values[0]?.bind Value.string?).getD ownerName
    if hmstrMaxName < ownerName.length then none
    else
      let r := { r with ownerID := intArg values 1 r.ownerID }
      printAll L lines server r ownerName (printed ++ [hrestHelperPrintHamster r ownerName])

section Turns
variable {server server' : σ} {line memory : List Byte} {id : BitVec 32} {r r' : Record}

theorem printOwned_turn (hline : sscanf [] line r'.hamsterID = id)
    (hfetch : fetch L server (.hamster id) = some (memory, server'))
    (hscan : ∀ r', scanRecord r' memory = some r) (lines : List (List Byte))
    (printed : List Printed) (owner : CString) :
    printOwned L owner (line :: lines) server r' printed =
      printOwned L owner lines server' r (printed ++ [hrestHelperPrintHamster r owner.chars]) := by
  rw [printOwned]
  dsimp only
  rw [hline, hfetch, Option.bind_eq_bind, Option.bind_some]
  dsimp only
  rw [hscan]
  rfl

theorem printAll_turn (hline : sscanf [] line r'.hamsterID = id)
    (hfetch : fetch L server (.hamster id) = some (memory, server'))
    (hscan : ∀ r', scanRecord r' memory = some r) (lines : List (List Byte))
    (printed : List Printed) (ownerName : List Byte) :
    printAll L (line :: lines) server r' ownerName printed =
      askOwner L lines server' r ownerName printed := by
  rw [printAll]
  dsimp only
  rw [hline, hfetch, Option.bind_eq_bind, Option.bind_some]
  dsimp only
  rw [hscan]
  rfl

end Turns
end Helpers

section Text

/-- The text the server has for a hamster, behind the name. -/
def recordTail (r : Record) : List Byte :=
  newline :: (ascii "ID:" ++ (printInt r.hamsterID.toInt ++
    newline :: (ascii "ownerID:" ++ (printInt r.ownerID.toInt ++
    newline :: (ascii "treats:" ++ (printInt r.treats.toInt ++
    newline :: (ascii "rounds:" ++ (printInt r.rounds.toInt ++
    newline :: (ascii "cost:" ++ (printInt r.cost.toInt ++ [newline]))))))))))

def recordText (r : Record) : List Byte := ascii "name:" ++ (r.hamsterName ++ recordTail r)

/-- A line of the format that ends in a number. -/
def lineDirectives (literal : List Byte) (ds : List Directive) : List Directive :=
  .space :: (literal.map .char ++ .int :: ds)

theorem directives_recordFormat : directives recordFormat =
    (ascii "name:").map Directive.char ++ Directive.string ::
      lineDirectives (ascii "ID:") (lineDirectives (ascii "ownerID:")
        (lineDirectives (ascii "treats:") (lineDirectives (ascii "rounds:")
          (lineDirectives (ascii "cost:") [.space])))) := by
  decide +kernel

variable {ds : List Directive} {literal rest : List Byte} {r r' : Record}

theorem lineEnds_newline (rest : List Byte) : LineEnds (newline :: rest) :=
  fun _ hb => (Option.some.inj hb).symm

/-- A line with a number, behind the end of the line before. -/
theorem scan_field (hne : literal ≠ []) (hl : literal.any isSpace = false) (i : Int) :
    scan (lineDirectives literal ds) (newline :: (literal ++ (printInt i ++ newline :: rest))) =
      .int i :: scan ds (newline :: rest) := by
  have hhead : ∀ b ∈ (literal ++ (printInt i ++ newline :: rest)).head?, isSpace b = false := by
    rw [List.head?_append_of_ne_nil _ hne]
    intro b hb
    exact Bool.eq_false_iff.mpr (List.any_eq_false.mp hl b (List.mem_of_head? hb))
  have hline : scan (lineDirectives literal ds) ([newline] ++ _) = _ :=
    scan_space (by decide) hhead
  rw [scan_literal, scan_int i (lineEnds_newline rest)] at hline
  exact hline

theorem zero_notMem_recordTail (r : Record) : (0 : Byte) ∉ recordTail r := by
  have hint (i : Int) : (0 : Byte) ∉ printInt i := fun h => (ne_of_mem_printInt h).1 rfl
  have hfield {literal rest : List Byte} {i : Int} (hl : (0 : Byte) ∉ literal)
      (hrest : (0 : Byte) ∉ rest) : (0 : Byte) ∉ newline :: (literal ++ (printInt i ++ rest)) := by
    rw [List.mem_cons, List.mem_append, List.mem_append]
    exact not_or.mpr ⟨by decide, not_or.mpr ⟨hl, not_or.mpr ⟨hint i, hrest⟩⟩⟩
  exact hfield (by decide) (hfield (by decide) (hfield (by decide) (hfield (by decide)
    (hfield (by decide) (by decide)))))

theorem cstr_recordText (hz : (0 : Byte) ∉ r.hamsterName) :
    (cstr (recordText r)).chars = recordText r := by
  have htext : (0 : Byte) ∉ ascii "name:" := by decide
  apply chars_cstr
  rw [recordText, List.mem_append, List.mem_append]
  exact not_or.mpr ⟨htext, not_or.mpr ⟨hz, zero_notMem_recordTail r⟩⟩

theorem sscanf_recordText (hne : r.hamsterName ≠ []) (hs : ∀ b ∈ r.hamsterName, isSpace b = false)
    (hz : (0 : Byte) ∉ r.hamsterName) : sscanfValues recordFormat (recordText r) =
      [.string r.hamsterName, .int r.hamsterID.toInt, .int r.ownerID.toInt, .int r.treats.toInt,
        .int r.rounds.toInt, .int r.cost.toInt] := by
  have hname : ∀ b ∈ (recordTail r).head?, isSpace b = true := by
    intro b hb
    obtain rfl := Option.some.inj hb
    rfl
  rw [sscanfValues, cstr_recordText hz, directives_recordFormat, recordText, scan_literal,
    scan_string hne hs hname, recordTail, scan_field (by decide) rfl, scan_field (by decide) rfl,
    scan_field (by decide) rfl, scan_field (by decide) rfl, scan_field (by decide) rfl]
  rfl

theorem recordText_ne_nil (r : Record) : recordText r ≠ [] := by
  simp [recordText, recordTail]

/-- What is read into the name has no white space in it: `ID:` at least is there to be read. -/
theorem name_of_scanRecord (hz : (0 : Byte) ∉ r.hamsterName) {r' s : Record}
    (h : scanRecord r' (recordText r) = some s) : ∀ b ∈ s.hamsterName, isSpace b = false := by
  obtain ⟨ds, hds⟩ : ∃ ds, directives recordFormat =
      (ascii "name:").map Directive.char ++ Directive.string :: ds := ⟨_, directives_recordFormat⟩
  rw [scanRecord, sscanfValues, cstr_recordText hz, hds, recordText, scan_literal] at h
  rcases scan_string_cases ds (r.hamsterName ++ recordTail r) with
    ⟨hspaces, -⟩ | ⟨token, rest, hword, hscan⟩
  · have hI : (73 : Byte) ∈ r.hamsterName ++ recordTail r :=
      List.mem_append_right _ (List.mem_cons_of_mem _ List.mem_cons_self)
    exact absurd (hspaces 73 hI) (by decide)
  · rw [hscan] at h
    obtain ⟨-, hs⟩ := Option.ite_none_left_eq_some.mp h
    obtain rfl := Option.some.inj hs
    exact hword

/-- A record whose name is one word is read back, whatever the variables hold. -/
theorem scanRecord_recordText (hne : r.hamsterName ≠ [])
    (hs : ∀ b ∈ r.hamsterName, isSpace b = false) (hz : (0 : Byte) ∉ r.hamsterName) (r' : Record) :
    scanRecord r' (recordText r) =
      if hmstrMaxName < r.hamsterName.length then none else some r := by
  rw [scanRecord, sscanf_recordText hne hs hz]
  simp only [intArg, Value.int?, Value.string?, List.getElem?_cons_zero, List.getElem?_cons_succ,
    Option.bind_some, Option.map_some, Option.getD_some, storeInt_toInt]

end Text

end Hamster.Rest.Lookups
