import Hamster.Contract.RestCollect
import Hamster.Rest.Lookups

/-!
# What a search over REST finds

The server answers every request from one database. The search is right where it has
something to find, and where there is nothing to look at. When it looks at hamsters which
all belong to others, it ends like a search that found one.
-/
namespace Hamster.Contract.RestSearch

open Lib.Bytes Lib.Scanf Lib.Strtok Store.Entry Rest.Helpers Rest.Lookups Rest.Split
open RestCollect (NumberLine numberLine_ne_nil sscanf_numberLine)

/-- A name of one word, which the record of a hamster needs to be read. -/
structure Word (name : List Byte) : Prop where
  nonempty : name ≠ []
  noSpace : ∀ b ∈ name, isSpace b = false
  string : (0 : Byte) ∉ name

/-- The owners with their numbers, and the records of the hamsters. -/
structure Database where
  owners : List (CString × BitVec 32)
  hamsters : List Record
  words : ∀ r ∈ hamsters, Word r.hamsterName

namespace Database
variable (db : Database) (owner hamsterName : CString)

/-- The number of an owner. -/
def ownerID : Option (BitVec 32) := (db.owners.find? (·.1 = owner)).map Prod.snd

/-- The hamsters of this name. -/
def named : List Record := db.hamsters.filter fun r => r.hamsterName = hamsterName.chars

/-- Those of them that belong to this owner. -/
def owned : List Record :=
  (db.named hamsterName).filter fun r => db.ownerID owner = some r.ownerID

end Database

section Server
variable {σ : Type}

/-- The request succeeds with such an answer, and what holds before holds after it. -/
def Answers (L : Link σ) (Holds : σ → Prop) (server : σ) (target : Target)
    (answer : List Byte → Prop) : Prop :=
  ∃ pieces server', L.perform server .get (L.defaultURL ++ target.path) = (some pieces, server') ∧
    answer pieces.flatten ∧ Holds server'

/-- The answer to the question for an owner: the number, or nothing. -/
def OwnerLine : Option (BitVec 32) → List Byte → Prop
  | none, body => body = []
  | some ownerID, body => NumberLine [] ownerID.toInt body

def idLines (rs : List Record) : List (List Byte) := rs.map fun r => printInt r.hamsterID.toInt

/-- In the states where `Holds` does, all answers are taken from the database. `defaultURL` has
512 characters. -/
structure Serves (L : Link σ) (db : Database) (Holds : σ → Prop) : Prop where
  curl : L.curl = true
  short : L.defaultURL.length < 512
  owner : ∀ {s}, Holds s → ∀ owner,
    Answers L Holds s (.ownerQuery owner) (OwnerLine (db.ownerID owner))
  named : ∀ {s}, Holds s → ∀ hamsterName,
    Answers L Holds s (.hamsterQuery hamsterName) (HasLines (idLines (db.named hamsterName)))
  hamster : ∀ {s}, Holds s → ∀ r ∈ db.hamsters,
    Answers L Holds s (.hamster r.hamsterID) (· = recordText r)

end Server

/-- `HREST_RET_OK` with the number of such a hamster, or `HMSTR_ERR_NOTFOUND` with the variable
as it was. -/
structure Exact (db : Database) (owner hamsterName : CString) (before ret after : BitVec 32) :
    Prop where
  ok : ret = hrestRetOk ↔ db.owned owner hamsterName ≠ []
  found : ret = hrestRetOk → ∃ r ∈ db.owned owner hamsterName, after = r.hamsterID
  missing : db.owned owner hamsterName = [] → ret = hmstrErrNotFound ∧ after = before

section Claim
variable {σ : Type} (L : Link σ) (db : Database) (owner hamsterName : CString)

/-- What the search returns. -/
def outcome (hamsterID : BitVec 32) : Option (BitVec 32 × BitVec 32) :=
  if InUrl L (.ownerQuery owner) then
    match db.ownerID owner with
    | none => some (hmstrErrNotFound, hamsterID)
    | some _ =>
      if InUrl L (.hamsterQuery hamsterName) then
        if db.named hamsterName = [] then some (hmstrErrNotFound, hamsterID)
        else if hmstrMaxName < hamsterName.chars.length then none
        else some (hrestRetOk,
          ((db.owned owner hamsterName).head?.map Record.hamsterID).getD hamsterID)
      else none
  else none

/-- The texts fit into `url`, and there is nothing to look at, or a hamster to find whose name
fits into its array. -/
def Searchable : Prop :=
  InUrl L (.ownerQuery owner) ∧ (db.ownerID owner = none ∨
    InUrl L (.hamsterQuery hamsterName) ∧ (db.named hamsterName = [] ∨
      db.owned owner hamsterName ≠ [] ∧ hamsterName.chars.length ≤ hmstrMaxName))

end Claim

section Run
variable {σ : Type} {L : Link σ} {db : Database} {Holds : σ → Prop} {server : σ}
  {owner hamsterName : CString} {rs : List Record} {body : List Byte}

theorem fetch_answers {target : Target} {answer : List Byte → Prop} (hc : L.curl = true)
    (hurl : InUrl L target) (h : Answers L Holds server target answer) :
    ∃ body server', fetch L server target = some (body, server') ∧ answer body ∧
      Holds server' := by
  obtain ⟨pieces, server', hperform, hanswer, hholds⟩ := h
  exact ⟨pieces.flatten, server', fetch_ok L hc hurl hperform, hanswer, hholds⟩

theorem idLines_eq (rs : List Record) :
    idLines rs = numbers (rs.map fun r => r.hamsterID.toInt) := by
  rw [numbers, List.map_map]
  rfl

theorem idLines_lines (rs : List Record) : ∀ line ∈ idLines rs, line ≠ [] ∧ newline ∉ line := by
  rw [idLines_eq]
  exact numbers_lines _

theorem zero_notMem_idLines (h : HasLines (idLines rs) body) : (0 : Byte) ∉ body := by
  rw [idLines_eq] at h
  exact zero_notMem_numbers h

theorem length_idLines (h : HasLines (idLines rs) body) : body.length = 0 ↔ rs = [] :=
  (length_lines h (idLines_lines rs)).trans List.map_eq_nil_iff

theorem scanRecord_named {r : Record} (hr : r ∈ db.named hamsterName) (r' : Record) :
    scanRecord r' (recordText r) =
      if hmstrMaxName < hamsterName.chars.length then none else some r := by
  obtain ⟨hmem, hname⟩ := List.mem_filter.mp hr
  have hword := db.words r hmem
  rw [scanRecord_recordText hword.nonempty hword.noSpace hword.string, of_decide_eq_true hname]

/-- A hamster is asked for and read. -/
theorem fetch_named (h : Serves L db Holds) (hholds : Holds server) {r : Record}
    (hr : r ∈ db.named hamsterName) :
    ∃ server', fetch L server (.hamster r.hamsterID) = some (recordText r, server') ∧
      Holds server' := by
  obtain ⟨body, server', hfetch, hbody, hholds'⟩ :=
    fetch_answers h.curl (inUrl_hamster L h.short r.hamsterID)
      (h.hamster hholds r (List.mem_of_mem_filter hr))
  exact ⟨server', hbody ▸ hfetch, hholds'⟩

/-- The loop stops at the first hamster of the owner. -/
theorem searchHamsters_run (h : Serves L db Holds) (hholds : Holds server)
    (hrs : ∀ r ∈ rs, r ∈ db.named hamsterName)
    (hfits : hamsterName.chars.length ≤ hmstrMaxName) (ownerID : BitVec 32) (r' : Record)
    (hamsterID : BitVec 32) :
    ∃ server', searchHamsters L ownerID (idLines rs) server r' hamsterID =
      some (((rs.find? (·.ownerID = ownerID)).map Record.hamsterID).getD hamsterID, server') := by
  induction rs generalizing server r' with
  | nil => exact ⟨server, rfl⟩
  | cons r rs ih =>
    have hr := hrs r List.mem_cons_self
    obtain ⟨server', hfetch, hholds'⟩ := fetch_named h hholds hr
    have hstep : searchHamsters L ownerID (idLines (r :: rs)) server r' hamsterID =
        if r.ownerID = ownerID then some (r.hamsterID, server')
        else searchHamsters L ownerID (idLines rs) server' r hamsterID := by
      rw [idLines, List.map_cons, searchHamsters]
      dsimp only
      rw [sscanf_printed, hfetch, Option.bind_eq_bind, Option.bind_some]
      dsimp only
      rw [scanRecord_named hr, if_neg (Nat.not_lt.mpr hfits)]
      rfl
    rw [hstep]
    by_cases hown : r.ownerID = ownerID
    · rw [if_pos hown, List.find?_cons_of_pos (by simpa using hown)]
      exact ⟨server', rfl⟩
    · rw [if_neg hown, List.find?_cons_of_neg (by simpa using hown)]
      exact ih hholds' (fun r hr => hrs r (List.mem_cons_of_mem _ hr)) r

/-- A name that is too long ends it at the first hamster. -/
theorem searchHamsters_overrun (h : Serves L db Holds) (hholds : Holds server) {r : Record}
    (hr : r ∈ db.named hamsterName) (hlong : hmstrMaxName < hamsterName.chars.length)
    (ownerID : BitVec 32) (r' : Record) (hamsterID : BitVec 32) :
    searchHamsters L ownerID (idLines (r :: rs)) server r' hamsterID = none := by
  obtain ⟨server', hfetch, -⟩ := fetch_named h hholds hr
  rw [idLines, List.map_cons, searchHamsters]
  dsimp only
  rw [sscanf_printed, hfetch, Option.bind_eq_bind, Option.bind_some]
  dsimp only
  rw [scanRecord_named hr, if_pos hlong]
  rfl

/-- The first hamster of the owner among those of the name. -/
theorem find_owned {ownerID : BitVec 32} (howner : db.ownerID owner = some ownerID) :
    (db.named hamsterName).find? (·.ownerID = ownerID) = (db.owned owner hamsterName).head? := by
  rw [Database.owned, List.head?_filter, howner]
  simp only [Option.some.injEq, eq_comm]

/-- The loop over the hamsters of the name, if there are any. -/
theorem search_named (h : Serves L db Holds) (hholds : Holds server)
    (hsome : db.named hamsterName ≠ []) {id : BitVec 32} (hid : db.ownerID owner = some id)
    (hamsterID : BitVec 32) (r' : Record) :
    (searchHamsters L id (idLines (db.named hamsterName)) server r' hamsterID).map Prod.fst =
      if hmstrMaxName < hamsterName.chars.length then none
      else some (((db.owned owner hamsterName).head?.map Record.hamsterID).getD hamsterID) := by
  by_cases hlong : hmstrMaxName < hamsterName.chars.length
  · obtain ⟨r, rs, hrs⟩ := List.exists_cons_of_ne_nil hsome
    have hr : r ∈ db.named hamsterName := hrs ▸ List.mem_cons_self
    rw [if_pos hlong, hrs, searchHamsters_overrun h hholds hr hlong]
    rfl
  · obtain ⟨server', hsearch⟩ := searchHamsters_run h hholds (fun r hr => hr)
      (Nat.not_lt.mp hlong) id r' hamsterID
    rw [if_neg hlong, hsearch, find_owned hid]
    rfl

theorem query_run (h : Serves L db Holds) (hholds : Holds server) (hamsterID ownerID : BitVec 32)
    (r' : Record) :
    (hrestHelperQueryHamster L server owner hamsterName hamsterID ownerID r').map
        (fun result => (result.1, result.2.1)) = outcome L db owner hamsterName hamsterID := by
  rw [hrestHelperQueryHamster, outcome]
  by_cases hurl₁ : InUrl L (.ownerQuery owner)
  · obtain ⟨pieces, server₁, hperform, howner, hholds₁⟩ := h.owner hholds owner
    -- the first request is the one that the other helpers begin with
    have hcurls := curls_fetch L ⟨server, [], []⟩ (.ownerQuery owner) rfl hurl₁
    rw [curls_ok h.curl hperform] at hcurls
    have hfetch₁ : fetch L server (.ownerQuery owner) = some (pieces.flatten, server₁) := hcurls
    generalize pieces.flatten = body₁ at howner hfetch₁
    rw [hfetch₁, Option.bind_eq_bind, Option.bind_some, if_pos hurl₁]
    dsimp only
    cases hid : db.ownerID owner with
    | none =>
      rw [hid] at howner
      obtain rfl : body₁ = [] := howner
      rfl
    | some id =>
      rw [hid] at howner
      rw [if_neg (numberLine_ne_nil howner), sscanf_numberLine howner List.not_mem_nil,
        storeInt_toInt]
      dsimp only
      by_cases hurl₂ : InUrl L (.hamsterQuery hamsterName)
      · obtain ⟨body₂, server₂, hfetch₂, hnamed, hholds₂⟩ :=
          fetch_answers h.curl hurl₂ (h.named hholds₁ hamsterName)
        rw [hfetch₂, Option.bind_some, if_pos hurl₂]
        dsimp only
        by_cases hnone : db.named hamsterName = []
        · rw [if_pos ((length_idLines hnamed).mpr hnone), if_pos hnone]
          rfl
        · have hlines : idLines (db.named hamsterName) ≠ [] := mt List.map_eq_nil_iff.mp hnone
          have hsearch := search_named h hholds₂ hnone hid hamsterID r'
          rw [if_neg (mt (length_idLines hnamed).mp hnone), if_neg hnone,
            chars_cstr (zero_notMem_idLines hnamed), strSplit_lines hnamed hlines (idLines_lines _)]
          have hreturn : ∀ found : Option (BitVec 32 × σ),
              (found.bind fun x => some (hrestRetOk, x.1, x.2)).map
                  (fun result => (result.1, result.2.1)) =
                (found.map Prod.fst).map (Prod.mk hrestRetOk) := by
            intro found
            cases found <;> rfl
          refine (hreturn _).trans ?_
          rw [hsearch]
          split <;> rfl
      · rw [fetch, if_neg hurl₂, if_neg hurl₂]
        rfl
  · rw [fetch, if_neg hurl₁, if_neg hurl₁]
    rfl

theorem owned_of_unknown (hid : db.ownerID owner = none) : db.owned owner hamsterName = [] := by
  rw [Database.owned, hid]
  exact List.filter_eq_nil_iff.mpr fun _ _ => by simp

theorem owned_of_unnamed (hnone : db.named hamsterName = []) :
    db.owned owner hamsterName = [] := by
  rw [Database.owned, hnone]
  rfl

theorem exact_missing (hnone : db.owned owner hamsterName = []) (hamsterID : BitVec 32) :
    Exact db owner hamsterName hamsterID hmstrErrNotFound hamsterID where
  ok := ⟨fun h => absurd h (by decide), fun h => absurd hnone h⟩
  found h := absurd h (by decide)
  missing _ := ⟨rfl, rfl⟩

theorem exact_found (howned : db.owned owner hamsterName ≠ []) (hamsterID : BitVec 32) :
    Exact db owner hamsterName hamsterID hrestRetOk
      (((db.owned owner hamsterName).head?.map Record.hamsterID).getD hamsterID) := by
  obtain ⟨r, rs, hrs⟩ := List.exists_cons_of_ne_nil howned
  refine ⟨⟨fun _ => howned, fun _ => rfl⟩, fun _ => ⟨r, ?_, ?_⟩, fun h => absurd h howned⟩
  · exact hrs ▸ List.mem_cons_self
  · rw [hrs]
    rfl

theorem outcome_exact_iff (hamsterID : BitVec 32) :
    (∃ result, outcome L db owner hamsterName hamsterID = some result ∧
        Exact db owner hamsterName hamsterID result.1 result.2) ↔
      Searchable L db owner hamsterName := by
  rw [outcome, Searchable]
  by_cases hurl₁ : InUrl L (.ownerQuery owner)
  · rw [if_pos hurl₁, and_iff_right hurl₁]
    cases hid : db.ownerID owner with
    | none => exact iff_of_true ⟨_, rfl, exact_missing (owned_of_unknown hid) hamsterID⟩ (.inl rfl)
    | some id =>
      dsimp only
      rw [or_iff_right (by simp)]
      by_cases hurl₂ : InUrl L (.hamsterQuery hamsterName)
      · rw [if_pos hurl₂, and_iff_right hurl₂]
        by_cases hnone : db.named hamsterName = []
        · rw [if_pos hnone]
          exact iff_of_true ⟨_, rfl, exact_missing (owned_of_unnamed hnone) hamsterID⟩ (.inl hnone)
        · rw [if_neg hnone, or_iff_right hnone]
          by_cases hlong : hmstrMaxName < hamsterName.chars.length
          · rw [if_pos hlong]
            exact iff_of_false (by simp) fun h => absurd h.2 (Nat.not_le.mpr hlong)
          · rw [if_neg hlong]
            constructor
            · intro ⟨result, hresult, hexact⟩
              obtain rfl := Option.some.inj hresult
              exact ⟨hexact.ok.mp rfl, Nat.not_lt.mp hlong⟩
            · intro ⟨howned, _⟩
              exact ⟨_, rfl, exact_found howned hamsterID⟩
      · rw [if_neg hurl₂]
        exact iff_of_false (by simp) fun h => hurl₂ h.1
  · rw [if_neg hurl₁]
    exact iff_of_false (by simp) fun h => hurl₁ h.1

/-- For every database, owner and name the search is exact just when there is nothing to look at
or a hamster to find. -/
theorem search_exact_iff (h : Serves L db Holds) (hholds : Holds server)
    (hamsterID ownerID : BitVec 32) (r' : Record) :
    (∃ result, hrestHelperQueryHamster L server owner hamsterName hamsterID ownerID r' =
          some result ∧ Exact db owner hamsterName hamsterID result.1 result.2.1) ↔
      Searchable L db owner hamsterName := by
  rw [← outcome_exact_iff hamsterID, ← query_run h hholds hamsterID ownerID r']
  simp only [Option.map_eq_some_iff, exists_exists_and_eq_and]

end Run

section Directory
open Integrity (alice bert)

theorem append_ne_append {front front' : List Byte} (h : ¬ (front <+: front' ∨ front' <+: front))
    (rest rest' : List Byte) : front ++ rest ≠ front' ++ rest' := fun he =>
  h (List.prefix_or_prefix_of_prefix (List.prefix_append front rest)
    (he ▸ List.prefix_append front' rest'))

/-- The answer to a path. -/
def reply (db : Database) (path : List Byte) : List Byte :=
  match db.owners.find? fun o => path = (Target.ownerQuery o.1).path with
  | some o => printInt o.2.toInt
  | none =>
    match db.hamsters.find? fun r => path = (Target.hamster r.hamsterID).path with
    | some r => recordText r
    | none => unlines newline (idLines (db.hamsters.filter fun r =>
        path = ascii "/hamsters?hamsterName=" ++ r.hamsterName))

def directory (db : Database) : Link Unit where
  curl := true
  defaultURL := []
  perform _ _ url := (some [reply db url], ())

section Replies
variable {db : Database}

theorem owner_path_ne_hamster (owner : CString) (id : BitVec 32) :
    (Target.ownerQuery owner).path ≠ (Target.hamster id).path :=
  append_ne_append (by decide +kernel) _ _

theorem named_path_ne_owner (hamsterName owner : CString) :
    (Target.hamsterQuery hamsterName).path ≠ (Target.ownerQuery owner).path :=
  append_ne_append (by decide +kernel) _ _

theorem named_path_ne_hamster (hamsterName : CString) (id : BitVec 32) :
    (Target.hamsterQuery hamsterName).path ≠ (Target.hamster id).path :=
  append_ne_append (by decide +kernel) _ _

theorem find_owner_none {path : List Byte} (h : ∀ owner, path ≠ (Target.ownerQuery owner).path) :
    db.owners.find? (fun o => path = (Target.ownerQuery o.1).path) = none :=
  List.find?_eq_none.mpr fun o _ ho => h o.1 (of_decide_eq_true ho)

theorem find_hamster_none {path : List Byte} (h : ∀ id, path ≠ (Target.hamster id).path) :
    db.hamsters.find? (fun r => path = (Target.hamster r.hamsterID).path) = none :=
  List.find?_eq_none.mpr fun r _ hr => h r.hamsterID (of_decide_eq_true hr)

theorem reply_owner (db : Database) (owner : CString) :
    OwnerLine (db.ownerID owner) (reply db (Target.ownerQuery owner).path) := by
  have hsame (o : CString × BitVec 32) :
      decide ((Target.ownerQuery owner).path = (Target.ownerQuery o.1).path) =
        decide (o.1 = owner) := by
    refine decide_eq_decide.mpr ⟨fun h => ?_, fun h => by rw [h]⟩
    exact CString.ext (List.append_cancel_left h).symm
  have hnamed : db.hamsters.filter (fun r => (Target.ownerQuery owner).path =
      ascii "/hamsters?hamsterName=" ++ r.hamsterName) = [] :=
    List.filter_eq_nil_iff.mpr fun r _ hr =>
      append_ne_append (by decide +kernel) _ _ (of_decide_eq_true hr)
  rw [Database.ownerID, reply]
  simp only [hsame]
  cases db.owners.find? (fun o => decide (o.1 = owner)) with
  | some o => exact ⟨[], lineEnds_nil, (List.append_nil _).symm⟩
  | none =>
    simp only [find_hamster_none (owner_path_ne_hamster owner), hnamed]
    rfl

theorem reply_hamster (hids : (db.hamsters.map Record.hamsterID).Nodup) {r : Record}
    (hr : r ∈ db.hamsters) : reply db (Target.hamster r.hamsterID).path = recordText r := by
  rw [reply, find_owner_none fun owner => (owner_path_ne_hamster owner r.hamsterID).symm]
  dsimp only
  cases hfind : db.hamsters.find? (fun x =>
      (Target.hamster r.hamsterID).path = (Target.hamster x.hamsterID).path) with
  | none => exact absurd (decide_eq_true rfl) (List.find?_eq_none.mp hfind r hr)
  | some x =>
    have hpath : (Target.hamster r.hamsterID).path = (Target.hamster x.hamsterID).path := by
      simpa using List.find?_some hfind
    have hid : r.hamsterID = x.hamsterID := BitVec.eq_of_toInt_eq
      (RestCollect.printInt_injective (List.append_cancel_left hpath))
    rw [List.inj_on_of_nodup_map hids hr (List.mem_of_find?_eq_some hfind) hid]

theorem reply_named (db : Database) (hamsterName : CString) :
    HasLines (idLines (db.named hamsterName)) (reply db (Target.hamsterQuery hamsterName).path) := by
  have hsame (r : Record) : decide ((Target.hamsterQuery hamsterName).path =
      ascii "/hamsters?hamsterName=" ++ r.hamsterName) =
        decide (r.hamsterName = hamsterName.chars) := by
    refine decide_eq_decide.mpr ⟨fun h => (List.append_cancel_left h).symm, fun h => ?_⟩
    rw [h]
    rfl
  left
  rw [reply, find_owner_none (named_path_ne_owner hamsterName)]
  dsimp only
  rw [find_hamster_none (named_path_ne_hamster hamsterName)]
  simp only [hsame]
  rfl

/-- It serves every database in which numbers are given once. -/
theorem serves_directory (hids : (db.hamsters.map Record.hamsterID).Nodup) :
    Serves (directory db) db fun _ => True where
  curl := rfl
  short := by simp [directory]
  owner _ owner :=
    ⟨_, _, rfl, by rw [List.flatten_singleton]; exact reply_owner db owner, trivial⟩
  named _ hamsterName :=
    ⟨_, _, rfl, by rw [List.flatten_singleton]; exact reply_named db hamsterName, trivial⟩
  hamster _ r hr :=
    ⟨_, _, rfl, by rw [List.flatten_singleton]; exact reply_hamster hids hr, trivial⟩

end Replies

/-- Two owners, and one hamster, which is bert's. -/
def household : Database where
  owners := [(alice, 7), (bert, 8)]
  hamsters := [⟨ascii "rex", 3, 8, 12, 250, 19⟩]
  words := by
    intro r hr
    obtain rfl := List.mem_singleton.mp hr
    exact ⟨by decide, by decide, by decide⟩

def rex : CString := cstr (ascii "rex")

theorem search_finds_rex :
    (∃ result, hrestHelperQueryHamster (directory household) () bert rex 0 0 ⟨[], 0, 0, 0, 0, 0⟩ =
          some result ∧ Exact household bert rex 0 result.1 result.2.1) ↔
      Searchable (directory household) household bert rex :=
  search_exact_iff (serves_directory (by decide)) trivial 0 0 ⟨[], 0, 0, 0, 0, 0⟩

/-- Another owner's hamster ends the search with success and without a number. -/
theorem search_misses_rex :
    Serves (directory household) household (fun _ => True) ∧ household.owned alice rex = [] ∧
      (hrestHelperQueryHamster (directory household) () alice rex 0 0 ⟨[], 0, 0, 0, 0, 0⟩).map
        (fun result => (result.1, result.2.1)) = some (hrestRetOk, 0) ∧
      ¬ ∃ result, hrestHelperQueryHamster (directory household) () alice rex 0 0
          ⟨[], 0, 0, 0, 0, 0⟩ = some result ∧ Exact household alice rex 0 result.1 result.2.1 := by
  have hnone : household.owned alice rex = [] := by decide +kernel
  have hrun : (hrestHelperQueryHamster (directory household) () alice rex 0 0
      ⟨[], 0, 0, 0, 0, 0⟩).map (fun result => (result.1, result.2.1)) = some (hrestRetOk, 0) := by
    decide +kernel
  refine ⟨serves_directory (by decide), hnone, hrun, ?_⟩
  intro ⟨result, hresult, hexact⟩
  rw [hresult] at hrun
  have hret : result.1 = hrestRetOk := congrArg Prod.fst (Option.some.inj hrun)
  exact hexact.ok.mp hret hnone

end Directory

end Hamster.Contract.RestSearch
