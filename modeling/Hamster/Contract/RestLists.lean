import Hamster.Contract.RestSearch

/-!
# The lists of the REST client

The server answers every request from one database. What the two helpers print is what it has,
in its order. An owner without hamsters ends the process, and a hamster without an owner ends
the list.
-/
namespace Hamster.Contract.RestLists

open Lib.Bytes Lib.Scanf Lib.Format Lib.Strtok Store.Entry Rest.Helpers Rest.Lookups Rest.Split
open RestCollect (NumberLine numberLine_ne_nil sscanf_numberLine)
open RestSearch (Database Word Answers OwnerLine idLines fetch_answers idLines_lines length_idLines
  zero_notMem_idLines)

/-- The name behind a number. -/
def ownerName (db : Database) (id : BitVec 32) : Option CString :=
  (db.owners.find? (·.2 = id)).map Prod.fst

/-- The hamsters behind an owner's number. -/
def ownedBy (db : Database) (id : BitVec 32) : List Record :=
  db.hamsters.filter fun r => r.ownerID = id

/-- The text the server has for an owner, if there is one. -/
def ownerText : Option CString → BitVec 32 → List Byte
  | none, _ => []
  | some owner, id =>
    ascii "name:" ++ (owner.chars ++ newline :: (ascii "id:" ++ (printInt id.toInt ++ [newline])))

/-- In the states where `Holds` does, the answers that the two lists need are taken from the
database. `defaultURL` has 512 characters. -/
structure Serves {σ : Type} (L : Link σ) (db : Database) (Holds : σ → Prop) (owner : CString) :
    Prop where
  curl : L.curl = true
  short : L.defaultURL.length < 512
  number : ∀ {s}, Holds s → Answers L Holds s (.ownerQuery owner) (OwnerLine (db.ownerID owner))
  owned : ∀ {s}, Holds s → ∀ id, db.ownerID owner = some id →
    Answers L Holds s (.ownersHamsters id) (HasLines (idLines (ownedBy db id)))
  all : ∀ {s}, Holds s → Answers L Holds s .allHamsters (HasLines (idLines db.hamsters))
  hamster : ∀ {s}, Holds s → ∀ r ∈ db.hamsters,
    Answers L Holds s (.hamster r.hamsterID) (· = recordText r)
  keeper : ∀ {s}, Holds s → ∀ r ∈ db.hamsters,
    Answers L Holds s (.owner r.ownerID) (· = ownerText (ownerName db r.ownerID) r.ownerID)

/-- The names fit into their arrays, and those of the owners are words. -/
structure Printable (db : Database) : Prop where
  hamsters : ∀ r ∈ db.hamsters, r.hamsterName.length ≤ hmstrMaxName
  owners : ∀ o ∈ db.owners, Word o.1.chars ∧ o.1.chars.length ≤ hmstrMaxName

/-- What `hrest_helper_print_owners_hamsters` returns and prints. -/
def ownersList (db : Database) (owner : CString) : Option (BitVec 32 × List Printed) :=
  match db.ownerID owner with
  | none => some (hmstrErrNotFound, [])
  | some id =>
    if ownedBy db id = [] then none
    else some (hrestRetOk, (ownedBy db id).map (hrestHelperPrintHamster · owner.chars))

/-- The hamsters up to the first without an owner. -/
def listed (db : Database) : List Record → BitVec 32 × List Printed
  | [] => (hrestRetOk, [])
  | r :: rs =>
    match ownerName db r.ownerID with
    | none => (hrestRetNotImplemented, [])
    | some o => ((listed db rs).1, hrestHelperPrintHamster r o.chars :: (listed db rs).2)

/-- What `hrest_helper_print_all_hamsters` returns and prints. -/
def allList (db : Database) : BitVec 32 × List Printed :=
  if db.hamsters = [] then (hmstrErrNotFound, []) else listed db db.hamsters

section Texts
variable {σ : Type} (L : Link σ)

theorem inUrl_number (hshort : L.defaultURL.length < 512) (id : BitVec 32) :
    InUrl L (.ownersHamsters id) ∧ InUrl L (.owner id) := by
  have hid := length_printInt id
  have hhamsters : (Target.ownersHamsters id).path.length = 8 + (printInt id.toInt).length + 9 := by
    simp only [Target.path, Endpoint.path, List.length_append]
    rfl
  have howner : (Target.owner id).path.length = 8 + (printInt id.toInt).length :=
    List.length_append
  rw [InUrl, InUrl, List.length_append, List.length_append, hhamsters, howner]
  omega

theorem inUrl_allHamsters (hshort : L.defaultURL.length < 512) : InUrl L .allHamsters := by
  have hpath : Target.allHamsters.path.length = 9 := rfl
  rw [InUrl, List.length_append, hpath]
  omega

theorem inUrl_owner (hshort : L.defaultURL.length < 512) {owner : CString}
    (howner : owner.chars.length < hmstrMaxName) : InUrl L (.ownerQuery owner) := by
  have hpath : (Target.ownerQuery owner).path.length = 18 + owner.chars.length :=
    List.length_append
  have hmax : hmstrMaxName < 400 := by decide
  rw [InUrl, List.length_append, hpath]
  omega

theorem directives_ownerFormat : directives ownerFormat =
    (ascii "name:").map Directive.char ++ Directive.string :: lineDirectives (ascii "id:") [] := by
  decide +kernel

/-- An owner is read back. -/
theorem sscanf_ownerText {owner : CString} (h : Word owner.chars) (id : BitVec 32) :
    sscanfValues ownerFormat (ownerText (some owner) id) =
      [.string owner.chars, .int id.toInt] := by
  have hz : (0 : Byte) ∉ ownerText (some owner) id := by
    have hint : (0 : Byte) ∉ printInt id.toInt := fun hmem => (ne_of_mem_printInt hmem).1 rfl
    have htail : (0 : Byte) ∉ ascii "id:" ++ (printInt id.toInt ++ [newline]) := by
      rw [List.mem_append, List.mem_append]
      exact not_or.mpr ⟨by decide, not_or.mpr ⟨hint, by decide⟩⟩
    rw [ownerText, List.mem_append, List.mem_append, List.mem_cons]
    exact not_or.mpr ⟨by decide, not_or.mpr ⟨h.string, not_or.mpr ⟨by decide, htail⟩⟩⟩
  have hname : ∀ b ∈ (newline :: (ascii "id:" ++ (printInt id.toInt ++ [newline]))).head?,
      isSpace b = true := by
    intro b hb
    obtain rfl := Option.some.inj hb
    rfl
  rw [sscanfValues, chars_cstr hz, directives_ownerFormat, ownerText, scan_literal,
    scan_string h.nonempty h.noSpace hname, scan_field (by decide) rfl]
  rfl

end Texts

section Run
variable {σ : Type} {L : Link σ} {db : Database} {Holds : σ → Prop} {server : σ}
  {owner : CString} {rs : List Record} {body : List Byte}

/-- A hamster is asked for and read. -/
theorem read_record (h : Serves L db Holds owner) (hp : Printable db) (hholds : Holds server)
    {r : Record} (hr : r ∈ db.hamsters) :
    ∃ memory server', fetch L server (.hamster r.hamsterID) = some (memory, server') ∧
      (∀ r', scanRecord r' memory = some r) ∧ Holds server' := by
  obtain ⟨memory, server', hfetch, hbody, hholds'⟩ :=
    fetch_answers h.curl (inUrl_hamster L h.short r.hamsterID) (h.hamster hholds r hr)
  refine ⟨memory, server', hfetch, fun r' => ?_, hholds'⟩
  have hword := db.words r hr
  rw [hbody, scanRecord_recordText hword.nonempty hword.noSpace hword.string,
    if_neg (Nat.not_lt.mpr (hp.hamsters r hr))]

theorem word_of_ownerName (hp : Printable db) {id : BitVec 32} {o : CString}
    (ho : ownerName db id = some o) : Word o.chars ∧ o.chars.length ≤ hmstrMaxName := by
  obtain ⟨x, hx, rfl⟩ := Option.map_eq_some_iff.mp ho
  exact hp.owners x (List.mem_of_find?_eq_some hx)

theorem printOwned_run (h : Serves L db Holds owner) (hp : Printable db) (hholds : Holds server)
    (hrs : ∀ r ∈ rs, r ∈ db.hamsters) (r' : Record) (printed : List Printed) :
    ∃ server', printOwned L owner (idLines rs) server r' printed =
      some (printed ++ rs.map (hrestHelperPrintHamster · owner.chars), server') := by
  induction rs generalizing server r' printed with
  | nil => exact ⟨server, by rw [List.map_nil, List.append_nil]; rfl⟩
  | cons r rs ih =>
    obtain ⟨memory, server', hfetch, hscan, hholds'⟩ :=
      read_record h hp hholds (hrs r List.mem_cons_self)
    have hstep : printOwned L owner (idLines (r :: rs)) server r' printed =
        printOwned L owner (idLines rs) server' r
          (printed ++ [hrestHelperPrintHamster r owner.chars]) :=
      printOwned_turn L (sscanf_printed ..) hfetch hscan _ printed owner
    obtain ⟨server'', hrest⟩ := ih hholds' (fun r hr => hrs r (List.mem_cons_of_mem _ hr)) r _
    refine ⟨server'', ?_⟩
    rw [hstep, hrest, List.map_cons, List.append_assoc, List.singleton_append]

theorem printAll_run (h : Serves L db Holds owner) (hp : Printable db) (hholds : Holds server)
    (hrs : ∀ r ∈ rs, r ∈ db.hamsters) (r' : Record) (name : List Byte) (printed : List Printed) :
    ∃ server', printAll L (idLines rs) server r' name printed =
      some ((listed db rs).1, printed ++ (listed db rs).2, server') := by
  induction rs generalizing server r' name printed with
  | nil => exact ⟨server, by rw [listed, List.append_nil]; rfl⟩
  | cons r rs ih =>
    have hr := hrs r List.mem_cons_self
    obtain ⟨memory, server₁, hfetch, hscan, hholds₁⟩ := read_record h hp hholds hr
    obtain ⟨body, server₂, howner, hbody, hholds₂⟩ :=
      fetch_answers h.curl (inUrl_number L h.short r.ownerID).2 (h.keeper hholds₁ r hr)
    have hstep : printAll L (idLines (r :: rs)) server r' name printed =
        askOwner L (idLines rs) server₁ r name printed :=
      printAll_turn L (sscanf_printed ..) hfetch hscan _ printed name
    rw [hstep, askOwner, howner, Option.bind_eq_bind, Option.bind_some]
    dsimp only
    rw [listed, hbody]
    cases ho : ownerName db r.ownerID with
    | none => exact ⟨server₂, by rw [List.append_nil]; rfl⟩
    | some o =>
      obtain ⟨hword, hfits⟩ := word_of_ownerName hp ho
      have hne : ¬ (ownerText (some o) r.ownerID).length = 0 := by simp [ownerText]
      obtain ⟨server₃, hrest⟩ := ih hholds₂ (fun r hr => hrs r (List.mem_cons_of_mem _ hr))
        r o.chars (printed ++ [hrestHelperPrintHamster r o.chars])
      refine ⟨server₃, ?_⟩
      rw [if_neg hne, sscanf_ownerText hword]
      simp only [intArg, Value.int?, Value.string?, List.getElem?_cons_zero,
        List.getElem?_cons_succ, Option.bind_some, Option.map_some, Option.getD_some,
        storeInt_toInt]
      rw [if_neg (Nat.not_lt.mpr hfits)]
      rw [List.append_assoc, List.singleton_append] at hrest
      exact hrest

theorem owners_run (h : Serves L db Holds owner) (hp : Printable db) (hholds : Holds server)
    (howner : owner.chars.length < hmstrMaxName) (ownerID : BitVec 32) (r' : Record) :
    (hrestHelperPrintOwnersHamsters L server owner ownerID r').map (fun x => (x.1, x.2.1)) =
      ownersList db owner := by
  obtain ⟨body₁, server₁, hfetch₁, hnumber, hholds₁⟩ :=
    fetch_answers h.curl (inUrl_owner L h.short howner) (h.number hholds)
  rw [hrestHelperPrintOwnersHamsters, ownersList, hfetch₁, Option.bind_eq_bind, Option.bind_some]
  dsimp only
  cases hid : db.ownerID owner with
  | none =>
    rw [hid] at hnumber
    obtain rfl : body₁ = [] := hnumber
    rfl
  | some id =>
    rw [hid] at hnumber
    obtain ⟨body₂, server₂, hfetch₂, howned, hholds₂⟩ :=
      fetch_answers h.curl (inUrl_number L h.short id).1 (h.owned hholds₁ id hid)
    rw [if_neg (numberLine_ne_nil hnumber), sscanf_numberLine hnumber List.not_mem_nil,
      storeInt_toInt, hfetch₂, Option.bind_some]
    dsimp only
    rw [chars_cstr (zero_notMem_idLines howned)]
    by_cases hnone : ownedBy db id = []
    · have hempty : body₂ = [] :=
        List.length_eq_zero_iff.mp ((length_idLines howned).mpr hnone)
      rw [hempty, if_pos hnone]
      rfl
    · have hlines : idLines (ownedBy db id) ≠ [] := mt List.map_eq_nil_iff.mp hnone
      have hmem : ∀ r ∈ ownedBy db id, r ∈ db.hamsters := fun r hr => List.mem_of_mem_filter hr
      obtain ⟨server₃, hprint⟩ := printOwned_run h hp hholds₂ hmem r' []
      rw [strSplit_lines howned hlines (idLines_lines _), Option.bind_eq_bind, Option.bind_some,
        hprint, if_neg hnone]
      rfl

theorem all_run (h : Serves L db Holds owner) (hp : Printable db) (hholds : Holds server)
    (r' : Record) (name : List Byte) :
    (hrestHelperPrintAllHamsters L server r' name).map (fun x => (x.1, x.2.1)) =
      some (allList db) := by
  obtain ⟨body, server₁, hfetch, hall, hholds₁⟩ :=
    fetch_answers h.curl (inUrl_allHamsters L h.short) (h.all hholds)
  rw [hrestHelperPrintAllHamsters, allList, hfetch, Option.bind_eq_bind, Option.bind_some]
  dsimp only
  by_cases hnone : db.hamsters = []
  · rw [if_pos ((length_idLines hall).mpr hnone), if_pos hnone]
    rfl
  · have hlines : idLines db.hamsters ≠ [] := mt List.map_eq_nil_iff.mp hnone
    have hmem : ∀ r ∈ db.hamsters, r ∈ db.hamsters := fun r hr => hr
    obtain ⟨server₂, hprint⟩ := printAll_run h hp hholds₁ hmem r' name []
    rw [if_neg (mt (length_idLines hall).mp hnone), if_neg hnone,
      chars_cstr (zero_notMem_idLines hall), strSplit_lines hall hlines (idLines_lines _),
      Option.bind_eq_bind, Option.bind_some, hprint]
    rfl

/-- Both lists, from whatever the variables hold. -/
theorem lists_exact (h : Serves L db Holds owner) (hp : Printable db) (hholds : Holds server)
    (howner : owner.chars.length < hmstrMaxName) (ownerID : BitVec 32) (r' : Record)
    (name : List Byte) :
    (hrestHelperPrintOwnersHamsters L server owner ownerID r').map (fun x => (x.1, x.2.1)) =
        ownersList db owner ∧
      (hrestHelperPrintAllHamsters L server r' name).map (fun x => (x.1, x.2.1)) =
        some (allList db) :=
  ⟨owners_run h hp hholds howner ownerID r', all_run h hp hholds r' name⟩

end Run

section Guesthouse
open Integrity (alice bert)

theorem word_of_all {name : List Byte}
    (h : name ≠ [] ∧ name.all (!isSpace ·) = true ∧ (0 : Byte) ∉ name) : Word name where
  nonempty := h.1
  noSpace b hb := Bool.not_eq_true' _ ▸ List.all_eq_true.mp h.2.1 b hb
  string := h.2.2

/-- Two owners, and three hamsters. The last has no owner. -/
def guesthouse : Database where
  owners := [(alice, 7), (bert, 8)]
  hamsters := [⟨ascii "rex", 3, 8, 12, 250, 19⟩, ⟨ascii "kim", 4, 7, 0, 0, 17⟩,
    ⟨ascii "lou", 5, 9, 1, 2, 3⟩]
  words := List.forall_mem_cons.mpr ⟨word_of_all (by decide), List.forall_mem_cons.mpr
    ⟨word_of_all (by decide), List.forall_mem_singleton.mpr (word_of_all (by decide))⟩⟩

/-- What is asked for in the lists of this house, and the answer to it. -/
def answers : List (Target × List Byte) :=
  [(.ownerQuery bert, ascii "8"), (.ownersHamsters 8, ascii "3\n"), (.allHamsters, ascii "3\n4\n5"),
    (.hamster 3, recordText ⟨ascii "rex", 3, 8, 12, 250, 19⟩),
    (.hamster 4, recordText ⟨ascii "kim", 4, 7, 0, 0, 17⟩),
    (.hamster 5, recordText ⟨ascii "lou", 5, 9, 1, 2, 3⟩),
    (.owner 8, ownerText (some bert) 8), (.owner 7, ownerText (some alice) 7)]

def reply (path : List Byte) : List Byte :=
  ((answers.find? (·.1.path = path)).map Prod.snd).getD []

def reception : Link Unit where
  curl := true
  defaultURL := []
  perform _ _ url := (some [reply url], ())

theorem answers_reception {target : Target} {answer : List Byte → Prop}
    (h : answer (reply target.path)) : Answers reception (fun _ => True) () target answer :=
  ⟨_, _, rfl, by rw [List.flatten_singleton]; exact h, trivial⟩

theorem serves_reception : Serves reception guesthouse (fun _ => True) bert where
  curl := rfl
  short := by decide
  number _ := answers_reception ⟨[], lineEnds_nil, by decide +kernel⟩
  owned _ id hid := by
    have hbert : guesthouse.ownerID bert = some 8 := by decide +kernel
    obtain rfl := Option.some.inj (hbert.symm.trans hid)
    exact answers_reception (.inl (by decide +kernel))
  all _ := answers_reception (.inr (by decide +kernel))
  hamster _ r hr := by
    have hall : ∀ r ∈ guesthouse.hamsters, reply (Target.hamster r.hamsterID).path =
        recordText r := by decide +kernel
    exact answers_reception (hall r hr)
  keeper _ r hr := by
    have hall : ∀ r ∈ guesthouse.hamsters, reply (Target.owner r.ownerID).path =
        ownerText (ownerName guesthouse r.ownerID) r.ownerID := by decide +kernel
    exact answers_reception (hall r hr)

theorem printable_guesthouse : Printable guesthouse where
  hamsters := by decide +kernel
  owners := List.forall_mem_cons.mpr ⟨⟨word_of_all (by decide), by decide⟩,
    List.forall_mem_singleton.mpr ⟨word_of_all (by decide), by decide⟩⟩

/-- The list of all hamsters ends at the one without an owner. -/
theorem lists_of_guesthouse :
    (hrestHelperPrintOwnersHamsters reception () bert 0 ⟨[], 0, 0, 0, 0, 0⟩).map
        (fun x => (x.1, x.2.1)) =
        some (hrestRetOk, [⟨3, bert.chars, ascii "rex", 19, 12⟩]) ∧
      (hrestHelperPrintAllHamsters reception () ⟨[], 0, 0, 0, 0, 0⟩ []).map
        (fun x => (x.1, x.2.1)) =
        some (hrestRetNotImplemented, [⟨3, bert.chars, ascii "rex", 19, 12⟩,
          ⟨4, alice.chars, ascii "kim", 17, 0⟩]) := by
  have howners : ownersList guesthouse bert =
      some (hrestRetOk, [⟨3, bert.chars, ascii "rex", 19, 12⟩]) := by decide +kernel
  have hall : allList guesthouse = (hrestRetNotImplemented,
      [⟨3, bert.chars, ascii "rex", 19, 12⟩, ⟨4, alice.chars, ascii "kim", 17, 0⟩]) := by
    decide +kernel
  rw [← howners, ← hall]
  exact lists_exact serves_reception printable_guesthouse trivial (by decide) 0 _ []

end Guesthouse

end Hamster.Contract.RestLists
