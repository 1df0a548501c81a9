import Hamster.Lib.Query
import Hamster.Contract.RestCollect
import Hamster.Rest.Lookups

/-!
# Names in the URLs

The names are put into the queries as they are. A query is read as it was meant where no
name has a character in it that means something there.
-/
namespace Hamster.Contract.RestUrls

open Lib.Bytes Lib.Scanf Lib.Strtok Lib.Query Store.Entry Rest.Helpers Rest.Lookups
open Integrity (alice)

/-- The requests with a query that `hrest_helper_new`, `hrest_helper_collect` and
`hrest_helper_queryHamster` make. -/
inductive Request
  | ownerQuery (owner : CString)
  | ownerCreation (owner : CString)
  | hamsterQuery (hamsterName owner : CString)
  | hamsterCreation (ownerID : BitVec 32) (hamsterName : CString) (treats : BitVec 16)
  | hamsterSearch (hamsterName : CString)

namespace Request

/-- What follows `defaultURL`. -/
def path : Request → List Byte
  | ownerQuery o => (Endpoint.ownerQuery o).path
  | ownerCreation o => (Endpoint.ownerCreation o).path
  | hamsterQuery n o => (Endpoint.hamsterQuery n o).path
  | hamsterCreation id n treats => (Endpoint.hamsterCreation id n treats).path
  | hamsterSearch n => (Target.hamsterQuery n).path

/-- The keys and values that are meant. -/
def intended : Request → List (List Byte × List Byte)
  | ownerQuery o => [(ascii "ownerName", o.chars)]
  | ownerCreation o => [(ascii "name", o.chars)]
  | hamsterQuery n o => [(ascii "hamsterName", n.chars), (ascii "ownerName", o.chars)]
  | hamsterCreation _ n treats =>
      [(ascii "name", n.chars), (ascii "treats", printInt treats.toNat)]
  | hamsterSearch n => [(ascii "hamsterName", n.chars)]

def names : Request → List CString
  | ownerQuery o => [o]
  | ownerCreation o => [o]
  | hamsterQuery n o => [n, o]
  | hamsterCreation _ n _ => [n]
  | hamsterSearch n => [n]

def curlType : Request → CurlType
  | ownerCreation _ => .post
  | hamsterCreation _ _ _ => .post
  | _ => .get

/-- Requests of one format. -/
def Alike : Request → Request → Prop
  | ownerQuery _, ownerQuery _ => True
  | ownerCreation _, ownerCreation _ => True
  | hamsterQuery _ _, hamsterQuery _ _ => True
  | hamsterCreation _ _ _, hamsterCreation _ _ _ => True
  | hamsterSearch _, hamsterSearch _ => True
  | _, _ => False

end Request

/-- The query is read as it was meant, and no other arguments make the same request. -/
structure Faithful (q : Request) : Prop where
  decoded : pairs (queryOf q.path) = q.intended
  distinct : ∀ q', q.Alike q' → q'.path = q.path → q' = q

/-- A name that `getname_helper` takes. -/
def MenuName (name : CString) : Prop :=
  0 < name.chars.length ∧ name.chars.length < hmstrMaxName ∧ newline ∉ name.chars

instance (name : CString) : Decidable (MenuName name) := inferInstanceAs (Decidable (_ ∧ _ ∧ _))

section New
variable {σ : Type} {L : Link σ} {c : Client σ} {owner hamsterName : CString} {P : Transfer → Prop}

/-- Such a request, with the names of the call. -/
def OfCall (owner hamsterName : CString) (t : Transfer) : Prop :=
  ∃ q : Request, q.names ⊆ [owner, hamsterName] ∧ t.curlType = q.curlType ∧
    t.endpoint.path = q.path

theorem curls_sent (h : ∀ t ∈ c.sent, P t) {curlType : CurlType} {url : Endpoint}
    (hurl : ∀ answer, P ⟨curlType, url, answer⟩) :
    ∀ t ∈ (curlsForTheGirls L c curlType url).2.sent, P t := by
  by_cases hc : L.curl = true
  · obtain ⟨server, answer, hmade⟩ := curls_made hc c curlType url
    intro t ht
    rw [hmade] at ht
    rcases List.mem_append.mp ht with ht | ht
    · exact h t ht
    · rw [List.mem_singleton.mp ht]
      exact hurl answer
  · rw [curls_of_no_handle (Bool.not_eq_true _ ▸ hc)]
    exact h

theorem ofCall_ownerQuery (answer : Option (List Byte)) :
    OfCall owner hamsterName ⟨.get, .ownerQuery owner, answer⟩ :=
  ⟨.ownerQuery owner, by simp [Request.names], rfl, rfl⟩

theorem ofCall_ownerCreation (answer : Option (List Byte)) :
    OfCall owner hamsterName ⟨.post, .ownerCreation owner, answer⟩ :=
  ⟨.ownerCreation owner, by simp [Request.names], rfl, rfl⟩

theorem ofCall_hamsterQuery (answer : Option (List Byte)) :
    OfCall owner hamsterName ⟨.get, .hamsterQuery hamsterName owner, answer⟩ :=
  ⟨.hamsterQuery hamsterName owner, by simp [Request.names], rfl, rfl⟩

theorem ofCall_hamsterCreation (ownerID : BitVec 32) (treats : BitVec 16)
    (answer : Option (List Byte)) :
    OfCall owner hamsterName ⟨.post, .hamsterCreation ownerID hamsterName treats, answer⟩ :=
  ⟨.hamsterCreation ownerID hamsterName treats, by simp [Request.names], rfl, rfl⟩

theorem postHamster_requests (h : ∀ t ∈ c.sent, OfCall owner hamsterName t)
    (treats : BitVec 16) (ownerID hamsterID : BitVec 32) :
    ∀ t ∈ (postHamster L c owner hamsterName treats ownerID hamsterID).2.2.sent,
      OfCall owner hamsterName t := by
  have hasked := curls_sent (L := L) h ofCall_hamsterQuery
  rw [postHamster]
  dsimp only
  split
  · exact hasked
  · exact curls_sent (curls_sent hasked (ofCall_hamsterCreation ownerID treats))
      ofCall_hamsterQuery

/-- Every request of the call is one of these, with the names of the call. -/
theorem new_requests (server : σ) (memory : List Byte) (treats : BitVec 16)
    (ownerID hamsterID : BitVec 32) :
    ∀ t ∈ (hrestHelperNew L ⟨server, memory, []⟩ owner hamsterName treats ownerID
      hamsterID).2.2.sent, OfCall owner hamsterName t := by
  have hasked : ∀ t ∈ (curlsForTheGirls L ⟨server, memory, []⟩ .get (.ownerQuery owner)).2.sent,
      OfCall owner hamsterName t := curls_sent (List.forall_mem_nil _) ofCall_ownerQuery
  rw [hrestHelperNew]
  dsimp only
  apply postHamster_requests
  split
  · exact curls_sent (curls_sent hasked ofCall_ownerCreation) ofCall_ownerQuery
  · exact hasked

end New

theorem plain_printInt (i : Int) : Plain (printInt i) := by
  have hnot {b : Byte} (hb : b ≠ 45) (hdigit : ¬ IsDigit b) : b ∉ printInt i :=
    fun hmem => (isText_printInt hmem).elim hb hdigit
  have hlow {b : Byte} (hb : b.toNat < 48) : ¬ IsDigit b := fun h => Nat.not_le.mpr hb h.1
  exact ⟨hnot (by decide) (hlow (by decide)), hnot (by decide) (hlow (by decide)),
    hnot (by decide) (hlow (by decide)),
    not_escaped_of_notMem (hnot (by decide) (hlow (by decide)))⟩

/-- A key without any of the characters that mean something. -/
theorem key_of_letters {key : List Byte}
    (h : key.all (fun b => decide (97 ≤ b.toNat ∨ b.toNat = 78)) = true) : Key key := by
  have hnot {b : Byte} (hb : b.toNat < 78) : b ∉ key := by
    intro hmem
    have hletter : 97 ≤ b.toNat ∨ b.toNat = 78 := of_decide_eq_true (List.all_eq_true.mp h b hmem)
    omega
  exact ⟨⟨hnot (by decide), hnot (by decide), hnot (by decide),
    not_escaped_of_notMem (hnot (by decide))⟩, hnot (by decide)⟩

theorem key_ownerName : Key (ascii "ownerName") := key_of_letters rfl
theorem key_hamsterName : Key (ascii "hamsterName") := key_of_letters rfl
theorem key_name : Key (ascii "name") := key_of_letters rfl
theorem key_treats : Key (ascii "treats") := key_of_letters rfl

theorem queryOf_path (front query : List Byte) (h : questionMark ∉ front ∧ hash ∉ front) :
    queryOf (front ++ questionMark :: query) = cut query := queryOf_append h.1 h.2 query

theorem path_hamsterQuery (n o : CString) :
    (Request.hamsterQuery n o).path = ascii "/hamsters" ++ questionMark :: (ascii "hamsterName" ++
      equals :: (n.chars ++ ampersand :: (ascii "ownerName" ++ equals :: o.chars))) := by
  simp only [Request.path, Endpoint.path, List.append_assoc]
  rfl

theorem path_hamsterCreation (id : BitVec 32) (n : CString) (treats : BitVec 16) :
    (Request.hamsterCreation id n treats).path =
      ascii "/owners/" ++ (printInt id.toInt ++ ascii "/hamsters") ++ questionMark :: (ascii "name" ++
        equals :: (n.chars ++ ampersand :: (ascii "treats" ++ equals :: printInt treats.toNat))) := by
  simp only [Request.path, Endpoint.path, List.append_assoc]
  rfl

theorem notMem_owner_path {b : Byte} (h : b ∉ ascii "/owners/" ∧ b ∉ ascii "/hamsters")
    (hb : b ≠ 45 ∧ (b.toNat < 48 ∨ 57 < b.toNat)) (i : Int) :
    b ∉ ascii "/owners/" ++ (printInt i ++ ascii "/hamsters") := by
  have hid : b ∉ printInt i := by
    intro hmem
    rcases isText_printInt hmem with he | hdigit
    · exact hb.1 he
    · exact hb.2.elim (Nat.not_lt.mpr hdigit.1) (Nat.not_lt.mpr hdigit.2)
  rw [List.mem_append, List.mem_append]
  exact not_or.mpr ⟨h.1, not_or.mpr ⟨hid, h.2⟩⟩

/-- The query is read as it was meant just when the names are plain. -/
theorem decoded_iff (q : Request) :
    pairs (queryOf q.path) = q.intended ↔ ∀ n ∈ q.names, Plain n.chars := by
  cases q with
  | ownerQuery o =>
    have hquery : queryOf (Request.ownerQuery o).path =
        cut (ascii "ownerName" ++ equals :: o.chars) := queryOf_path (ascii "/owners") _ (by decide)
    rw [hquery, Request.intended, one_field_iff key_ownerName, Request.names,
      List.forall_mem_singleton]
  | ownerCreation o =>
    have hquery : queryOf (Request.ownerCreation o).path =
        cut (ascii "name" ++ equals :: o.chars) := queryOf_path (ascii "/owners") _ (by decide)
    rw [hquery, Request.intended, one_field_iff key_name, Request.names, List.forall_mem_singleton]
  | hamsterQuery n o =>
    rw [path_hamsterQuery, queryOf_path _ _ (by decide), Request.intended,
      two_fields_iff key_hamsterName key_ownerName, Request.names, List.forall_mem_cons,
      List.forall_mem_singleton]
  | hamsterCreation id n treats =>
    have hfront := And.intro
      (notMem_owner_path (b := questionMark) (by decide) (by decide) id.toInt)
      (notMem_owner_path (b := hash) (by decide) (by decide) id.toInt)
    rw [path_hamsterCreation, queryOf_path _ _ hfront, Request.intended,
      two_fields_iff key_name key_treats, Request.names, List.forall_mem_singleton,
      and_iff_left (plain_printInt _)]
  | hamsterSearch n =>
    have hquery : queryOf (Request.hamsterSearch n).path =
        cut (ascii "hamsterName" ++ equals :: n.chars) :=
      queryOf_path (ascii "/hamsters") _ (by decide)
    rw [hquery, Request.intended, one_field_iff key_hamsterName, Request.names,
      List.forall_mem_singleton]

/-- Of two requests with the same path and plain names in one, both have the same names. -/
theorem path_injective {q q' : Request} (hq : ∀ n ∈ q.names, Plain n.chars) (ha : q.Alike q')
    (he : q'.path = q.path) : q' = q := by
  cases q with
  | ownerQuery o =>
    cases q' with
    | ownerQuery o' => rw [CString.ext (List.append_cancel_left he)]
    | _ => exact False.elim ha
  | ownerCreation o =>
    cases q' with
    | ownerCreation o' => rw [CString.ext (List.append_cancel_left he)]
    | _ => exact False.elim ha
  | hamsterQuery n o =>
    cases q' with
    | hamsterQuery n' o' =>
      obtain ⟨hn, ho⟩ := List.forall_mem_cons.mp hq
      rw [path_hamsterQuery, path_hamsterQuery] at he
      have htail := List.append_cancel_left (List.cons.inj (List.append_cancel_left he)).2
      have hfields := (List.cons.inj htail).2
      have hrest := notMem_field key_ownerName (List.forall_mem_singleton.mp ho).noAmpersand
      obtain ⟨hname, -, howner⟩ := (List.append_cons_inj_of_notMem hn.noAmpersand hrest).mp hfields.symm
      have howner := (List.cons.inj (List.append_cancel_left howner)).2
      rw [CString.ext hname, CString.ext howner]
    | _ => exact False.elim ha
  | hamsterCreation id n treats =>
    cases q' with
    | hamsterCreation id' n' treats' =>
      have hn := List.forall_mem_singleton.mp hq
      rw [path_hamsterCreation, path_hamsterCreation] at he
      obtain ⟨hfront, hquery⟩ := append_delim_inj
        (notMem_owner_path (by decide) (by decide) id'.toInt)
        (notMem_owner_path (by decide) (by decide) id.toInt) he
      have hid : id' = id := BitVec.eq_of_toInt_eq (RestCollect.printInt_injective
        (List.append_cancel_right (List.append_cancel_left hfront)))
      have hfields := (List.cons.inj (List.append_cancel_left hquery)).2
      have hrest := notMem_field key_treats (plain_printInt treats.toNat).noAmpersand
      obtain ⟨hname, -, htreats⟩ :=
        (List.append_cons_inj_of_notMem hn.noAmpersand hrest).mp hfields.symm
      have htreats := RestCollect.printInt_injective
        (List.cons.inj (List.append_cancel_left htreats)).2
      rw [hid, CString.ext hname, BitVec.eq_of_toNat_eq (Int.ofNat.inj htreats)]
    | _ => exact False.elim ha
  | hamsterSearch n =>
    cases q' with
    | hamsterSearch n' => rw [CString.ext (List.append_cancel_left he)]
    | _ => exact False.elim ha

/-- For all names, ids and treats a request carries its names faithfully just when none of
them has a character that means something in a query. `hrest_helper_new` makes no other
requests, and puts the names of the call into them. -/
theorem carries_names_iff (q : Request) :
    (Faithful q ↔ ∀ n ∈ q.names, Plain n.chars) ∧
      ∀ {σ : Type} (L : Link σ) (server : σ) (memory : List Byte) (owner hamsterName : CString)
        (treats : BitVec 16) (ownerID hamsterID : BitVec 32),
        ∀ t ∈ (hrestHelperNew L ⟨server, memory, []⟩ owner hamsterName treats ownerID
          hamsterID).2.2.sent, OfCall owner hamsterName t := by
  refine ⟨?_, fun _ server memory _ _ => new_requests server memory⟩
  constructor
  · intro h
    exact (decoded_iff q).mp h.decoded
  · intro hq
    exact ⟨(decoded_iff q).mpr hq, fun q' ha he => path_injective hq ha he⟩

/-- A name that brings the next field with it. -/
def crafted : CString := cstr (ascii "a&ownerName=b")

/-- The menu takes the name, and the query asks for another owner's hamster. -/
theorem crafted_redirects :
    MenuName alice ∧ MenuName crafted ∧
      pairs (queryOf (Request.hamsterQuery crafted alice).path) =
        [(ascii "hamsterName", ascii "a"), (ascii "ownerName", ascii "b"),
          (ascii "ownerName", ascii "a")] ∧
      (Request.hamsterQuery alice (cstr (ascii "b&ownerName=a"))).path =
        (Request.hamsterQuery crafted alice).path ∧
      ¬ Faithful (Request.hamsterQuery crafted alice) := by
  refine ⟨by decide, by decide +kernel, by decide +kernel, by decide +kernel, fun h => ?_⟩
  exact absurd h.decoded (by decide +kernel)

end Hamster.Contract.RestUrls
