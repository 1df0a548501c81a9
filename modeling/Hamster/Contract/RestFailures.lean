import Hamster.Contract.Integrity
import Hamster.Rest.Helpers

/-!
# Transfers that fail

The helpers of the REST client look at the buffer only: a transfer that failed leaves
it empty like an answer without content. So a failed request for the owner's hamsters
costs the owner, and a failed search for a name is taken for its absence.
-/
namespace Hamster.Contract.RestFailures

open Lib.Bytes Lib.Scanf Store.Entry Rest.Helpers

/-- Every transfer of a kind comes after one that it depends on. -/
def Guarded (p : Transfer → Prop) (q : Transfer → Transfer → Prop) (sent : List Transfer) : Prop :=
  ∀ pre t post, sent = pre ++ t :: post → p t → ∃ u ∈ pre, q t u

def AllSucceed (sent : List Transfer) : Prop := ∀ t ∈ sent, t.answer ≠ none

def DeletesOwner (t : Transfer) : Prop := t.curlType = .delete ∧ ∃ id, t.endpoint = .owner id

/-- The second transfer reported that the owner has no hamsters. -/
def ReportsNone (t u : Transfer) : Prop :=
  ∃ id, t.endpoint = .owner id ∧ u = ⟨.get, .hamsters id, some []⟩

/-- The second transfer completed the check whether what the first one posts exists. -/
def Checks (owner hamsterName : CString) (t u : Transfer) : Prop :=
  ∃ body, t.endpoint = .ownerCreation owner ∧ u = ⟨.get, .ownerQuery owner, some body⟩ ∨
    (∃ id treats, t.endpoint = .hamsterCreation id hamsterName treats) ∧
      u = ⟨.get, .hamsterQuery hamsterName owner, some body⟩

/-- The owner is deleted only after a completed request has reported that no hamsters
are left, and success means that all transfers succeeded. -/
structure CollectTrusts (sent : List Transfer) (ret : BitVec 32) : Prop where
  deletion : Guarded DeletesOwner ReportsNone sent
  ok : ret = hrestRetOk → AllSucceed sent

/-- Whatever is posted, the request that asks whether it exists has completed before, and
success means that all transfers succeeded. -/
structure NewTrusts (owner hamsterName : CString) (sent : List Transfer) (ret : BitVec 32) :
    Prop where
  posts : Guarded (·.curlType = .post) (Checks owner hamsterName) sent
  ok : ret = hrestRetOk → AllSucceed sent

/-- No request for the hamsters of an owner fails, and no deletion of one. -/
def CollectSpared (sent : List Transfer) : Prop :=
  ∀ t ∈ sent, ∀ id, t.endpoint = .hamsters id ∨ t.endpoint = .owner id → t.answer ≠ none

/-- Neither existence check fails, and if there is no such hamster no transfer does. -/
structure NewSpared (owner hamsterName : CString) (sent : List Transfer) : Prop where
  ownerCheck : ∀ t, sent.find? (fun t => t.endpoint = .ownerQuery owner) = some t →
    t.answer ≠ none
  hamsterCheck : ∀ t, sent.find? (fun t => t.endpoint = .hamsterQuery hamsterName owner) = some t →
    t.answer ≠ none ∧ (t.answer = some [] → AllSucceed sent)

/-! ## Lists of transfers -/

section Sent
variable {p : Transfer → Prop} {q : Transfer → Transfer → Prop} {sent : List Transfer}
  {t : Transfer}

theorem guarded_nil : Guarded p q [] := fun _ _ _ h => by simp at h

theorem guarded_snoc :
    Guarded p q (sent ++ [t]) ↔ Guarded p q sent ∧ (p t → ∃ u ∈ sent, q t u) := by
  constructor
  · intro h
    exact ⟨fun pre u post he hu => h pre u (post ++ [t]) (by rw [he]; simp) hu,
      fun ht => h sent t [] rfl ht⟩
  · intro hsnoc pre u post he hu
    obtain ⟨h, ht⟩ := hsnoc
    rcases List.eq_nil_or_concat' post with rfl | ⟨mid, last, rfl⟩
    · obtain ⟨rfl, hlast⟩ := List.append_inj' he rfl
      cases hlast
      exact ht hu
    · have he' : sent ++ [t] = (pre ++ u :: mid) ++ [last] := by
        rw [he, List.append_assoc, List.cons_append]
      obtain ⟨hsent, -⟩ := List.append_inj' he' rfl
      exact h pre u mid hsent hu

theorem allSucceed_snoc : AllSucceed (sent ++ [t]) ↔ AllSucceed sent ∧ t.answer ≠ none :=
  List.forall_mem_append.trans (and_congr Iff.rfl List.forall_mem_singleton)

theorem collectSpared_snoc : CollectSpared (sent ++ [t]) ↔ CollectSpared sent ∧
    ∀ id, t.endpoint = .hamsters id ∨ t.endpoint = .owner id → t.answer ≠ none :=
  List.forall_mem_append.trans (and_congr Iff.rfl List.forall_mem_singleton)

/-- What an empty buffer means. -/
theorem length_getD_eq_zero {answer : Option (List Byte)} :
    (answer.getD []).length = 0 ↔ answer = none ∨ answer = some [] := by
  cases answer <;> simp

theorem ne_none_of_length {answer : Option (List Byte)} (h : ¬ (answer.getD []).length = 0) :
    answer ≠ none := fun hnone => h (length_getD_eq_zero.mpr (.inl hnone))

end Sent

/-! ## Collecting -/

section Collect
variable {σ : Type} {L : Link σ}

/-- The requests of the loop are about single hamsters, and it goes on only after an
answer. -/
theorem deleteHamsters_sent (hc : L.curl = true) (ownerID : BitVec 32)
    (lines : List (List Byte)) (c : Client σ) (hamsterID cost : BitVec 32) (price : BitVec 16) :
    ∃ more, (deleteHamsters L ownerID lines c hamsterID cost price).2.2.sent = c.sent ++ more ∧
      (∀ t ∈ more, ∀ id, t.endpoint ≠ .owner id ∧ t.endpoint ≠ .hamsters id) ∧
      ((deleteHamsters L ownerID lines c hamsterID cost price).1 = true → AllSucceed more) := by
  induction lines generalizing c hamsterID cost price with
  | nil => exact ⟨[], (List.append_nil _).symm, nofun, fun _ => nofun⟩
  | cons line lines ih =>
    obtain ⟨server, answer, hmade⟩ := curls_made hc c .delete
      (.hamster ownerID (sscanf [] line hamsterID))
    rw [deleteHamsters]
    dsimp only
    rw [hmade]
    split
    · refine ⟨[_], rfl, ?_, nofun⟩
      intro t ht
      rw [List.mem_singleton.mp ht]
      exact fun _ => ⟨nofun, nofun⟩
    · rename_i hanswer
      obtain ⟨more, hsent, hkind, hall⟩ := ih ⟨server, answer.getD [], _⟩ _
        (sscanf (ascii "costs:") (answer.getD []) cost) _
      refine ⟨_ :: more, by rw [hsent, List.append_assoc]; rfl, ?_, fun hdone => ?_⟩
      · intro t ht
        rcases List.mem_cons.mp ht with rfl | ht
        · exact fun _ => ⟨nofun, nofun⟩
        · exact hkind t ht
      · intro t ht
        rcases List.mem_cons.mp ht with rfl | ht
        · exact ne_none_of_length hanswer
        · exact hall hdone t ht

theorem guarded_of_no_deletion {sent : List Transfer}
    (hquiet : ∀ t ∈ sent, ∀ id, t.endpoint ≠ .owner id) :
    Guarded DeletesOwner ReportsNone sent := by
  intro pre t post he hid
  obtain ⟨-, id, hid⟩ := hid
  exact absurd hid (hquiet t (by simp [he]) id)

/-- The last steps of a collection, once it takes the list for empty. -/
theorem deletion_trusts {sent : List Transfer} {id : BitVec 32}
    {answer deleted : Option (List Byte)} (hsent : AllSucceed sent)
    (hquiet : ∀ t ∈ sent, ∀ id, t.endpoint ≠ .owner id)
    (hempty : answer = none ∨ answer = some []) :
    CollectTrusts (sent ++ [⟨.get, .hamsters id, answer⟩] ++ [⟨.delete, .owner id, deleted⟩])
        hrestRetOk ↔
      CollectSpared (sent ++ [⟨.get, .hamsters id, answer⟩] ++
        [⟨.delete, .owner id, deleted⟩]) := by
  have hspared : CollectSpared sent := fun t ht _ _ => hsent t ht
  rw [collectSpared_snoc, collectSpared_snoc]
  constructor
  · intro hnew
    obtain ⟨-, hok⟩ := hnew
    have hall := hok rfl
    rw [allSucceed_snoc, allSucceed_snoc] at hall
    exact ⟨⟨hspared, fun _ _ => hall.1.2⟩, fun _ _ => hall.2⟩
  · intro hspared
    obtain ⟨⟨-, hanswer⟩, hdeleted⟩ := hspared
    have hsome : answer = some [] := hempty.resolve_left (hanswer id (.inl rfl))
    have hgone : deleted ≠ none := hdeleted id (.inr rfl)
    refine ⟨?_, fun _ => ?_⟩
    · rw [guarded_snoc, guarded_snoc]
      exact ⟨⟨guarded_of_no_deletion hquiet, fun hdel => nomatch hdel.1⟩, fun _ =>
        ⟨_, List.mem_append_right _ (List.mem_singleton_self _), id, rfl, by rw [hsome]⟩⟩
    · rw [allSucceed_snoc, allSucceed_snoc]
      exact ⟨⟨hsent, hanswer id (.inl rfl)⟩, hgone⟩

/-- A collection that reports an error has not deleted the owner. -/
theorem refusal_trusts {sent : List Transfer} {ret : BitVec 32} (hret : ret ≠ hrestRetOk)
    (hquiet : ∀ t ∈ sent, ∀ id, t.endpoint ≠ .owner id)
    (hlists : ∀ t ∈ sent, ∀ id, t.endpoint = .hamsters id → t.answer ≠ none) :
    CollectTrusts sent ret ↔ CollectSpared sent := by
  refine iff_of_true ⟨guarded_of_no_deletion hquiet, fun h => absurd h hret⟩ ?_
  intro t ht id hdeletes
  rcases hdeletes with hid | hid
  · exact hlists t ht id hid
  · exact absurd hid (hquiet t ht id)

theorem deleteAll_trusts (hc : L.curl = true) {c : Client σ} (hsent : AllSucceed c.sent)
    (hquiet : ∀ t ∈ c.sent, ∀ id, t.endpoint ≠ .owner id) (id : BitVec 32)
    (lines : List (List Byte)) (hamsterID : BitVec 32) :
    CollectTrusts (deleteAll L id lines c hamsterID).2.2.sent
        (deleteAll L id lines c hamsterID).1 ↔
      CollectSpared (deleteAll L id lines c hamsterID).2.2.sent := by
  have hfailed : hrestRetNotImplemented ≠ hrestRetOk := by decide
  obtain ⟨more, hmore, hkind, hall⟩ := deleteHamsters_sent hc id lines c hamsterID 0 0
  have hquiet' : ∀ t ∈ c.sent ++ more, ∀ id, t.endpoint ≠ .owner id :=
    List.forall_mem_append.mpr ⟨hquiet, fun t ht id => (hkind t ht id).1⟩
  have hlists : ∀ t ∈ c.sent ++ more, ∀ id, t.endpoint = .hamsters id → t.answer ≠ none :=
    List.forall_mem_append.mpr ⟨fun t ht _ _ => hsent t ht,
      fun t ht id he => absurd he (hkind t ht id).2⟩
  unfold deleteAll
  cases hloop : deleteHamsters L id lines c hamsterID 0 0 with
  | mk finished rest =>
    obtain ⟨price, c'⟩ := rest
    rw [hloop] at hmore hall
    cases finished with
    | false =>
      have hsame : c'.sent = c.sent ++ more := hmore
      dsimp only
      rw [hsame]
      exact refusal_trusts hfailed hquiet' hlists
    | true =>
      have hsucceed : AllSucceed c'.sent := by
        rw [show c'.sent = c.sent ++ more from hmore]
        exact List.forall_mem_append.mpr ⟨hsent, hall rfl⟩
      rw [← show c'.sent = c.sent ++ more from hmore] at hquiet'
      obtain ⟨server, listed, hlist⟩ := curls_made hc c' .get (.hamsters id)
      dsimp only
      rw [hlist]
      split
      · rename_i hempty
        obtain ⟨server', deleted, hdelete⟩ := curls_made hc ⟨server, listed.getD [],
          c'.sent ++ [⟨.get, .hamsters id, listed⟩]⟩ .delete (.owner id)
        rw [hdelete]
        exact deletion_trusts hsucceed hquiet' (length_getD_eq_zero.mp hempty)
      · rename_i hleft
        refine refusal_trusts hfailed (fun t ht => ?_) fun t ht _ _ => ?_
        · rcases List.mem_append.mp ht with ht | ht
          · exact hquiet' t ht
          · rw [List.mem_singleton.mp ht]
            exact nofun
        · exact allSucceed_snoc.mpr ⟨hsucceed, ne_none_of_length hleft⟩ t ht

theorem collect_trusts_iff {server : σ} {memory : List Byte} {owner : CString}
    {ownerID hamsterID : BitVec 32} {r : BitVec 32 × BitVec 16 × Client σ}
    (h : hrestHelperCollect L ⟨server, memory, []⟩ owner ownerID hamsterID = some r) :
    CollectTrusts r.2.2.sent r.1 ↔ CollectSpared r.2.2.sent := by
  have hnotFound : hmstrErrNotFound ≠ hrestRetOk := by decide
  unfold hrestHelperCollect at h
  cases hc : L.curl with
  | false =>
    simp only [curls_of_no_handle hc, List.length_nil, ↓reduceIte] at h
    cases h
    exact refusal_trusts hnotFound nofun nofun
  | true =>
    obtain ⟨s₁, found, h₁⟩ := curls_made hc ⟨server, memory, []⟩ .get (.ownerQuery owner)
    dsimp only at h
    rw [h₁] at h
    split at h
    · cases h
      exact refusal_trusts hnotFound (by simp) (by simp)
    · rename_i hfound
      have hsucceed : AllSucceed ([] ++ [⟨.get, .ownerQuery owner, found⟩]) :=
        allSucceed_snoc.mpr ⟨nofun, ne_none_of_length hfound⟩
      generalize sscanf [] (found.getD []) ownerID = id at h
      obtain ⟨s₂, listed, h₂⟩ := curls_made hc ⟨s₁, found.getD [],
        [] ++ [⟨.get, .ownerQuery owner, found⟩]⟩ .get (.hamsters id)
      rw [h₂] at h
      split at h
      · rename_i hlisted
        obtain ⟨s₃, deleted, h₃⟩ := curls_made hc ⟨s₂, listed.getD [], _⟩ .delete (.owner id)
        rw [h₃] at h
        cases h
        exact deletion_trusts hsucceed (by simp) (length_getD_eq_zero.mp hlisted)
      · rename_i hlisted
        split at h
        · cases h
        · cases h
          apply deleteAll_trusts hc
          · exact allSucceed_snoc.mpr ⟨hsucceed, ne_none_of_length hlisted⟩
          · simp

/-- An assertion fails only after the two lists that were asked for have come. -/
theorem collect_aborted {server : σ} {memory : List Byte} {owner : CString}
    {ownerID hamsterID : BitVec 32}
    (h : hrestHelperCollect L ⟨server, memory, []⟩ owner ownerID hamsterID = none) :
    ∃ id found listed, (curlsForTheGirls L (curlsForTheGirls L ⟨server, memory, []⟩ .get
        (.ownerQuery owner)).2 .get (.hamsters id)).2.sent =
      [⟨.get, .ownerQuery owner, some found⟩, ⟨.get, .hamsters id, some listed⟩] := by
  unfold hrestHelperCollect at h
  cases hc : L.curl with
  | false =>
    simp only [curls_of_no_handle hc, List.length_nil, ↓reduceIte] at h
    cases h
  | true =>
    obtain ⟨s₁, found, h₁⟩ := curls_made hc ⟨server, memory, []⟩ .get (.ownerQuery owner)
    dsimp only at h
    rw [h₁] at h ⊢
    split at h
    · cases h
    · rename_i hfound
      generalize sscanf [] (found.getD []) ownerID = id at h
      obtain ⟨s₂, listed, h₂⟩ := curls_made hc ⟨s₁, found.getD [],
        [] ++ [⟨.get, .ownerQuery owner, found⟩]⟩ .get (.hamsters id)
      rw [h₂] at h
      split at h
      · cases h
      · rename_i hlisted
        obtain ⟨foundBody, rfl⟩ := Option.ne_none_iff_exists'.mp (ne_none_of_length hfound)
        obtain ⟨listedBody, rfl⟩ := Option.ne_none_iff_exists'.mp (ne_none_of_length hlisted)
        exact ⟨id, foundBody, listedBody, by rw [h₂]; rfl⟩

end Collect

/-! ## Checking in -/

section New
variable {σ : Type} {L : Link σ} {owner hamsterName : CString}

/-- The requests that see to the owner, the first of which had this answer. -/
structure OwnerPhase (owner hamsterName : CString) (sent : List Transfer)
    (checked : Option (List Byte)) : Prop where
  first : sent.find? (fun t => t.endpoint = .ownerQuery owner) =
    some ⟨.get, .ownerQuery owner, checked⟩
  posts : Guarded (·.curlType = .post) (Checks owner hamsterName) sent ↔ checked ≠ none
  others : ∀ t ∈ sent, t.endpoint = .ownerQuery owner ∨ t.endpoint = .ownerCreation owner

theorem ownerPhase_found {checked : Option (List Byte)} (h : checked ≠ none) :
    OwnerPhase owner hamsterName ([] ++ [⟨.get, .ownerQuery owner, checked⟩]) checked := by
  refine ⟨by simp, iff_of_true ?_ h, by simp⟩
  rw [guarded_snoc]
  exact ⟨guarded_nil, nofun⟩

theorem ownerPhase_created (checked created confirmed : Option (List Byte)) :
    OwnerPhase owner hamsterName ([] ++ [⟨.get, .ownerQuery owner, checked⟩] ++
      [⟨.post, .ownerCreation owner, created⟩] ++ [⟨.get, .ownerQuery owner, confirmed⟩])
      checked := by
  refine ⟨by simp, ?_, by simp⟩
  rw [guarded_snoc, guarded_snoc, guarded_snoc]
  constructor
  · intro htrusts
    obtain ⟨⟨-, hpost⟩, -⟩ := htrusts
    obtain ⟨u, hu, body, ⟨-, hbody⟩ | ⟨⟨_, _, hno⟩, -⟩⟩ := hpost rfl
    · have hchecked : (⟨.get, .ownerQuery owner, checked⟩ : Transfer) =
          ⟨.get, .ownerQuery owner, some body⟩ := by
        rw [← hbody]
        exact (List.mem_singleton.mp hu).symm
      cases hchecked
      exact nofun
    · cases hno
  · intro h
    obtain ⟨body, rfl⟩ := Option.ne_none_iff_exists'.mp h
    exact ⟨⟨⟨guarded_nil, nofun⟩, fun _ => ⟨_, by simp, body, .inl ⟨rfl, rfl⟩⟩⟩, nofun⟩

section Phase
variable {sent : List Transfer} {checked asked posted confirmed : Option (List Byte)}
  (h : OwnerPhase owner hamsterName sent checked)
include h

theorem OwnerPhase.no_hamster (e : Endpoint) (he : e ≠ .ownerQuery owner)
    (he' : e ≠ .ownerCreation owner) : ∀ t ∈ sent, t.endpoint ≠ e := by
  intro t ht he
  subst he
  rcases h.others t ht with hq | hq
  · exact he hq
  · exact he' hq

/-- The first question about the hamster is the check. -/
theorem OwnerPhase.check (more : List Transfer) :
    (sent ++ ⟨.get, .hamsterQuery hamsterName owner, asked⟩ :: more).find?
        (fun t => t.endpoint = .hamsterQuery hamsterName owner) =
      some ⟨.get, .hamsterQuery hamsterName owner, asked⟩ := by
  have hnone : sent.find? (fun t => t.endpoint = .hamsterQuery hamsterName owner) = none := by
    rw [List.find?_eq_none]
    intro t ht
    simpa using h.no_hamster (.hamsterQuery hamsterName owner) nofun nofun t ht
  rw [List.find?_append, hnone, List.find?_cons_of_pos (by simp)]
  rfl

theorem OwnerPhase.first_append (more : List Transfer) :
    (sent ++ more).find? (fun t => t.endpoint = .ownerQuery owner) =
      some ⟨.get, .ownerQuery owner, checked⟩ := by
  rw [List.find?_append, h.first]
  rfl

/-- The hamster is there. -/
theorem OwnerPhase.exists_trusts (hasked : ¬ (asked.getD []).length = 0) :
    NewTrusts owner hamsterName
        (sent ++ [⟨.get, .hamsterQuery hamsterName owner, asked⟩]) hmstrErrExists ↔
      NewSpared owner hamsterName
        (sent ++ [⟨.get, .hamsterQuery hamsterName owner, asked⟩]) := by
  have hret : hmstrErrExists ≠ hrestRetOk := by decide
  constructor
  · intro hnew
    obtain ⟨hposts, -⟩ := hnew
    refine ⟨fun t ht => ?_, fun t ht => ?_⟩
    · rw [h.first_append] at ht
      cases ht
      exact h.posts.mp (guarded_snoc.mp hposts).1
    · rw [h.check []] at ht
      cases ht
      refine ⟨ne_none_of_length hasked, fun hnil => ?_⟩
      exact absurd (length_getD_eq_zero.mpr (.inr hnil)) hasked
  · intro hspared
    obtain ⟨hfirst, -⟩ := hspared
    refine ⟨?_, fun he => absurd he hret⟩
    exact guarded_snoc.mpr ⟨h.posts.mpr (hfirst _ (h.first_append _)), nofun⟩

/-- The hamster is posted. -/
theorem OwnerPhase.created_trusts {id : BitVec 32} {treats : BitVec 16}
    (hasked : asked = none ∨ asked = some []) :
    NewTrusts owner hamsterName (sent ++ [⟨.get, .hamsterQuery hamsterName owner, asked⟩] ++
        [⟨.post, .hamsterCreation id hamsterName treats, posted⟩] ++
        [⟨.get, .hamsterQuery hamsterName owner, confirmed⟩]) hrestRetOk ↔
      NewSpared owner hamsterName (sent ++ [⟨.get, .hamsterQuery hamsterName owner, asked⟩] ++
        [⟨.post, .hamsterCreation id hamsterName treats, posted⟩] ++
        [⟨.get, .hamsterQuery hamsterName owner, confirmed⟩]) := by
  constructor
  · intro hnew
    obtain ⟨-, hok⟩ := hnew
    have hall := hok rfl
    refine ⟨fun t ht => ?_, fun t ht => ?_⟩
    · exact hall t (List.mem_of_find?_eq_some ht)
    · exact ⟨hall t (List.mem_of_find?_eq_some ht), fun _ => hall⟩
  · intro hspared
    obtain ⟨hfirst, hchecked⟩ := hspared
    have hcheck := hchecked _ (by
      rw [List.append_assoc, List.append_assoc]
      exact h.check _)
    have hsome : asked = some [] := hasked.resolve_left hcheck.1
    have howner := hfirst _ (by
      rw [List.append_assoc, List.append_assoc]
      exact h.first_append _)
    refine ⟨?_, fun _ => hcheck.2 hsome⟩
    rw [guarded_snoc, guarded_snoc, guarded_snoc]
    refine ⟨⟨⟨h.posts.mpr howner, nofun⟩, fun _ => ?_⟩, nofun⟩
    exact ⟨_, List.mem_append_right _ (List.mem_singleton_self _), [],
      .inr ⟨⟨id, treats, rfl⟩, by rw [hsome]⟩⟩

end Phase

theorem postHamster_trusts (hc : L.curl = true) {c : Client σ} {checked : Option (List Byte)}
    (h : OwnerPhase owner hamsterName c.sent checked) (treats : BitVec 16)
    (ownerID hamsterID : BitVec 32) :
    let r := postHamster L c owner hamsterName treats ownerID hamsterID
    NewTrusts owner hamsterName r.2.2.sent r.1 ↔ NewSpared owner hamsterName r.2.2.sent := by
  dsimp only
  unfold postHamster
  obtain ⟨s₁, asked, h₁⟩ := curls_made hc c .get (.hamsterQuery hamsterName owner)
  dsimp only
  rw [h₁]
  split
  · rename_i hasked
    exact h.exists_trusts hasked
  · rename_i hasked
    obtain ⟨s₂, posted, h₂⟩ := curls_made hc ⟨s₁, asked.getD [], _⟩ .post
      (.hamsterCreation ownerID hamsterName treats)
    rw [h₂]
    obtain ⟨s₃, confirmed, h₃⟩ := curls_made hc ⟨s₂, posted.getD [], _⟩ .get
      (.hamsterQuery hamsterName owner)
    rw [h₃]
    exact h.created_trusts (length_getD_eq_zero.mp (not_not.mp hasked))

theorem new_trusts_iff (L : Link σ) (server : σ) (memory : List Byte) (owner hamsterName : CString)
    (treats : BitVec 16) (ownerID hamsterID : BitVec 32) :
    let r := hrestHelperNew L ⟨server, memory, []⟩ owner hamsterName treats ownerID hamsterID
    NewTrusts owner hamsterName r.2.2.sent r.1 ↔ NewSpared owner hamsterName r.2.2.sent := by
  dsimp only
  unfold hrestHelperNew
  cases hc : L.curl with
  | false =>
    simp only [postHamster, curls_of_no_handle hc, List.length_nil, ↓reduceIte, ne_eq,
      not_true_eq_false]
    exact iff_of_true ⟨guarded_nil, fun _ => nofun⟩ ⟨nofun, nofun⟩
  | true =>
    obtain ⟨s₁, checked, h₁⟩ := curls_made hc ⟨server, memory, []⟩ .get (.ownerQuery owner)
    dsimp only
    rw [h₁]
    split
    · obtain ⟨s₂, created, h₂⟩ := curls_made hc ⟨s₁, checked.getD [], _⟩ .post
        (.ownerCreation owner)
      rw [h₂]
      obtain ⟨s₃, confirmed, h₃⟩ := curls_made hc ⟨s₂, created.getD [], _⟩ .get
        (.ownerQuery owner)
      rw [h₃]
      exact postHamster_trusts hc (ownerPhase_created checked created confirmed) ..
    · rename_i hfound
      exact postHamster_trusts hc (ownerPhase_found (ne_none_of_length hfound)) ..

end New

/-! ## Both helpers -/

/-- For every server and every pattern of failures the helpers trust their transfers
rightly just when those that decide do not fail. A collection that an assertion ends has
only asked, and was answered. -/
theorem transfers_trusted_iff {σ : Type} (L : Link σ) (server : σ) (memory : List Byte)
    (owner hamsterName : CString) (treats : BitVec 16) (ownerID hamsterID : BitVec 32) :
    (∀ r, hrestHelperNew L ⟨server, memory, []⟩ owner hamsterName treats ownerID hamsterID = r →
        (NewTrusts owner hamsterName r.2.2.sent r.1 ↔ NewSpared owner hamsterName r.2.2.sent)) ∧
      (∀ r, hrestHelperCollect L ⟨server, memory, []⟩ owner ownerID hamsterID = some r →
        (CollectTrusts r.2.2.sent r.1 ↔ CollectSpared r.2.2.sent)) ∧
      (hrestHelperCollect L ⟨server, memory, []⟩ owner ownerID hamsterID = none →
        ∃ id found listed, (curlsForTheGirls L (curlsForTheGirls L ⟨server, memory, []⟩ .get
            (.ownerQuery owner)).2 .get (.hamsters id)).2.sent =
          [⟨.get, .ownerQuery owner, some found⟩, ⟨.get, .hamsters id, some listed⟩]) := by
  refine ⟨?_, fun r h => collect_trusts_iff h, collect_aborted⟩
  intro r hr
  subst hr
  exact new_trusts_iff L server memory owner hamsterName treats ownerID hamsterID

open Integrity (alice bert)

/-- A server that gives the answers of a list, and none when the list runs out. -/
def scripted : Link (List (Option (List (List Byte)))) where
  curl := true
  defaultURL := ascii "http://localhost:8080/HamsterREST/rest"
  perform answers _ _ := (answers.headD none, answers.tail)

/-- An owner, a new hamster and its number; an owner without hamsters; an owner with a list
of one empty line. -/
theorem transfers_trusted_first :
    (∃ r, hrestHelperNew scripted ⟨[some [ascii "7"], some [], some [ascii "ok"],
          some [ascii "12"]], [], []⟩ alice bert 3 0 0 = r ∧
        (NewTrusts alice bert r.2.2.sent r.1 ↔ NewSpared alice bert r.2.2.sent)) ∧
      (∃ r, hrestHelperCollect scripted ⟨[some [ascii "7"], some [], some []], [], []⟩ alice 0 0 =
          some r ∧ (CollectTrusts r.2.2.sent r.1 ↔ CollectSpared r.2.2.sent)) ∧
      ∃ id found listed, (curlsForTheGirls scripted (curlsForTheGirls scripted
          ⟨[some [ascii "7"], some [ascii "\n"]], [], []⟩ .get (.ownerQuery alice)).2 .get
            (.hamsters id)).2.sent =
        [⟨.get, .ownerQuery alice, some found⟩, ⟨.get, .hamsters id, some listed⟩] := by
  obtain ⟨r, hr⟩ := Option.isSome_iff_exists.mp (show (hrestHelperCollect scripted
    ⟨[some [ascii "7"], some [], some []], [], []⟩ alice 0 0).isSome = true by decide +kernel)
  refine ⟨⟨_, rfl, ?_⟩, ⟨r, hr, ?_⟩, ?_⟩
  · exact (transfers_trusted_iff scripted _ [] alice bert 3 0 0).1 _ rfl
  · exact (transfers_trusted_iff scripted _ [] alice bert 0 0 0).2.1 _ hr
  · exact (transfers_trusted_iff scripted _ [] alice bert 0 0 0).2.2
      (Option.isNone_iff_eq_none.mp (by decide +kernel))

/-- When the request for the hamsters fails the owner is deleted, and when the check for
the hamster fails it is posted. -/
theorem failures_taken_for_answers :
    (∃ r, hrestHelperCollect scripted ⟨[some [ascii "7"], none, some []], [], []⟩ alice 0 0 =
        some r ∧ ¬ CollectTrusts r.2.2.sent r.1) ∧
      ∃ r, hrestHelperNew scripted ⟨[some [ascii "7"], none, some [], some [ascii "12"]], [], []⟩
        alice bert 3 0 0 = r ∧ ¬ NewTrusts alice bert r.2.2.sent r.1 := by
  obtain ⟨r, hr⟩ := Option.isSome_iff_exists.mp (show (hrestHelperCollect scripted
    ⟨[some [ascii "7"], none, some []], [], []⟩ alice 0 0).isSome = true by decide +kernel)
  have hmap : (hrestHelperCollect scripted ⟨[some [ascii "7"], none, some []], [], []⟩ alice 0
      0).map (fun x => x.2.2.sent) = some [⟨.get, .ownerQuery alice, some (ascii "7")⟩,
        ⟨.get, .hamsters 7, none⟩, ⟨.delete, .owner 7, some []⟩] := by decide +kernel
  rw [hr] at hmap
  have hsent : r.2.2.sent = _ := Option.some.inj hmap
  refine ⟨⟨r, hr, fun htrusts => ?_⟩, _, rfl, fun htrusts => ?_⟩
  · have hspared := (collect_trusts_iff hr).mp htrusts
    rw [hsent] at hspared
    exact hspared ⟨.get, .hamsters 7, none⟩ (by simp) 7 (.inl rfl) rfl
  · have hspared := (new_trusts_iff scripted _ [] alice bert 3 0 0).mp htrusts
    exact (hspared.hamsterCheck ⟨.get, .hamsterQuery bert alice, none⟩ (by decide +kernel)).1 rfl

end Hamster.Contract.RestFailures
