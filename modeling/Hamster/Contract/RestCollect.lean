import Hamster.Contract.Integrity
import Hamster.Rest.Split
import Mathlib.Algebra.Order.BigOperators.Group.List

/-!
# What a collection over REST bills

The server keeps a list of hamsters and answers as the helpers expect. Every hamster is
deleted, and its costs are added to a total of sixteen bits.
-/
namespace Hamster.Contract.RestCollect

open Lib.Bytes Lib.Scanf Lib.Strtok Store.Entry Rest.Helpers
open Rest.Split (HasLines strSplit_lines length_lines numbers numbers_lines zero_notMem_numbers)

/-- A line with a number, after a literal. -/
def NumberLine (literal : List Byte) (i : Int) (body : List Byte) : Prop :=
  ∃ rest, LineEnds rest ∧ body = literal ++ printInt i ++ rest

def numberLines (ids : List (BitVec 32)) : List Byte :=
  ids.flatMap fun id => printInt id.toInt ++ [newline]

/-- One number per line. The last line may lack its end. -/
def Listing (ids : List (BitVec 32)) (body : List Byte) : Prop :=
  body = numberLines ids ∨ body ++ [newline] = numberLines ids

/-- The request succeeds with such an answer, and leaves such a state. -/
def Answers {σ : Type} (L : Link σ) (s : σ) (curlType : CurlType) (url : Endpoint)
    (answer : List Byte → Prop) (post : σ → Prop) : Prop :=
  ∃ pieces server, L.perform s curlType (L.defaultURL ++ url.path) = (some pieces, server) ∧
    answer pieces.flatten ∧ post server

/-- A server with this owner. `Holds s hs` says that in the state `s` the owner's hamsters
are `hs`, each with its costs. -/
structure Serves {σ : Type} (L : Link σ) (owner : CString) (ownerID : BitVec 32)
    (Holds : σ → List (BitVec 32 × Nat) → Prop) : Prop where
  curl : L.curl = true
  distinct : ∀ {s hs}, Holds s hs → (hs.map Prod.fst).Nodup
  found : ∀ {s hs}, Holds s hs →
    Answers L s .get (.ownerQuery owner) (NumberLine [] ownerID.toInt) (Holds · hs)
  listed : ∀ {s hs}, Holds s hs →
    Answers L s .get (.hamsters ownerID) (Listing (hs.map Prod.fst)) (Holds · hs)
  deleted : ∀ {s hs h}, Holds s hs → h ∈ hs →
    Answers L s .delete (.hamster ownerID h.1) (NumberLine (ascii "costs:") h.2)
      (Holds · (hs.filter (·.1 ≠ h.1)))
  gone : ∀ {s}, Holds s [] →
    Answers L s .delete (.owner ownerID) (fun _ => True) (fun _ => True)

def deletions (sent : List Transfer) : List Endpoint :=
  (sent.filter (·.curlType = .delete)).map (·.endpoint)

def total (hs : List (BitVec 32 × Nat)) : Nat := (hs.map Prod.snd).sum

/-- One deletion for each hamster and then one for the owner, and the exact sum. -/
structure BillsExactly (ownerID : BitVec 32) (hs : List (BitVec 32 × Nat)) (ret : BitVec 32)
    (price : BitVec 16) (sent : List Transfer) : Prop where
  ok : ret = hrestRetOk
  price : price.toInt = total hs
  deletions : deletions sent = hs.map (fun h => .hamster ownerID h.1) ++ [.owner ownerID]

theorem deletions_get (sent : List Transfer) (url : Endpoint) (answer : Option (List Byte)) :
    deletions (sent ++ [⟨.get, url, answer⟩]) = deletions sent := by
  simp [deletions]

theorem deletions_delete (sent : List Transfer) (url : Endpoint) (answer : Option (List Byte)) :
    deletions (sent ++ [⟨.delete, url, answer⟩]) = deletions sent ++ [url] := by
  simp [deletions]

section Lines
variable {ids : List (BitVec 32)} {i : Int} {body : List Byte}

theorem listing_iff : Listing ids body ↔ HasLines (numbers (ids.map BitVec.toInt)) body := by
  have hlines : numberLines ids = unlines newline (numbers (ids.map BitVec.toInt)) := by
    simp [numberLines, unlines, numbers, List.flatMap_map]
  rw [Listing, hlines]
  rfl

/-- The assertions hold for a listing, with and without the last end of line. -/
theorem strSplit_listing (h : Listing ids body) (hne : ids ≠ []) :
    strSplit body = some (ids.map fun id => printInt id.toInt) := by
  have hlines : numbers (ids.map BitVec.toInt) ≠ [] := by simpa [numbers] using hne
  rw [strSplit_lines (listing_iff.mp h) hlines (numbers_lines _), numbers, List.map_map]
  rfl

theorem zero_notMem_listing (h : Listing ids body) : (0 : Byte) ∉ body :=
  zero_notMem_numbers (listing_iff.mp h)

/-- The buffer is empty just when there are no hamsters. -/
theorem length_listing (h : Listing ids body) : body.length = 0 ↔ ids = [] := by
  rw [length_lines (listing_iff.mp h) (numbers_lines _), numbers, List.map_eq_nil_iff,
    List.map_eq_nil_iff]

theorem numberLine_ne_nil {literal : List Byte} (h : NumberLine literal i body) :
    ¬ body.length = 0 := by
  obtain ⟨rest, -, rfl⟩ := h
  simp [printInt_ne_nil]

theorem sscanf_numberLine {literal : List Byte} (h : NumberLine literal i body)
    (hl : (0 : Byte) ∉ literal) (x : BitVec 32) : sscanf literal body x = storeInt i := by
  obtain ⟨rest, hrest, rfl⟩ := h
  exact sscanf_printInt hl i hrest x

end Lines

section Bill
variable {σ : Type} {L : Link σ} {owner : CString} {ownerID : BitVec 32}
  {Holds : σ → List (BitVec 32 × Nat) → Prop} {hs : List (BitVec 32 × Nat)}

/-- The steps of `*price += cost` are additions of sixteen bits. -/
theorem price_step (price : BitVec 16) {n : Nat} (hn : n < 2 ^ 63) :
    (price.signExtend 32 + storeInt n).setWidth 16 = price + BitVec.ofNat 16 n := by
  have hstore : storeInt n = BitVec.ofNat 32 n := by
    rw [storeInt, min_eq_left (by omega), max_eq_right (by omega), BitVec.ofInt_natCast]
  rw [hstore, BitVec.setWidth_add _ _ (by decide), BitVec.setWidth_ofNat_of_le (by decide)]
  congr 1
  ext i hi
  have hi' : i < 32 := by omega
  simp [BitVec.getElem_signExtend, hi, hi']

theorem curls_answers {c : Client σ} {curlType : CurlType} {url : Endpoint}
    {answer : List Byte → Prop} {post : σ → Prop} (hc : L.curl = true)
    (h : Answers L c.server curlType url answer post) :
    ∃ server body, (curlsForTheGirls L c curlType url).2 =
      ⟨server, body, c.sent ++ [⟨curlType, url, some body⟩]⟩ ∧ answer body ∧ post server := by
  obtain ⟨pieces, server, hperform, hanswer, hpost⟩ := h
  exact ⟨server, pieces.flatten, curls_ok hc hperform, hanswer, hpost⟩

theorem filter_tail {h : BitVec 32 × Nat} (hnodup : ((h :: hs).map Prod.fst).Nodup) :
    (h :: hs).filter (·.1 ≠ h.1) = hs := by
  rw [List.filter_cons_of_neg (by simp), List.filter_eq_self]
  intro x hx
  have hne : x.1 ≠ h.1 := fun he => (List.nodup_cons.mp hnodup).1 (he ▸ List.mem_map_of_mem hx)
  simpa using hne

/-- The loop deletes every hamster that is listed and adds its costs. -/
theorem deleteHamsters_run (h : Serves L owner ownerID Holds) {c : Client σ}
    (hholds : Holds c.server hs) (hamsterID cost : BitVec 32) (price : BitVec 16) :
    ∃ c' price', deleteHamsters L ownerID (hs.map fun h => printInt h.1.toInt) c hamsterID cost
        price = (true, price', c') ∧ Holds c'.server [] ∧
      deletions c'.sent = deletions c.sent ++ hs.map (fun h => .hamster ownerID h.1) ∧
      ((∀ x ∈ hs, x.2 < 2 ^ 63) → price' = price + BitVec.ofNat 16 (total hs)) := by
  induction hs generalizing c hamsterID cost price with
  | nil => exact ⟨c, price, rfl, hholds, (List.append_nil _).symm, fun _ => by simp [total]⟩
  | cons x xs ih =>
    obtain ⟨server, body, hmade, hcosts, hleft⟩ :=
      curls_answers h.curl (h.deleted hholds List.mem_cons_self)
    rw [filter_tail (h.distinct hholds)] at hleft
    obtain ⟨c', price', hloop, hdone, hsent, hprice⟩ := ih (c := ⟨server, body, _⟩) hleft x.1
      (storeInt x.2) ((price.signExtend 32 + storeInt x.2).setWidth 16)
    refine ⟨c', price', ?_, hdone, ?_, fun hsmall => ?_⟩
    · rw [List.map_cons, deleteHamsters]
      dsimp only
      rw [sscanf_printed, hmade, if_neg (numberLine_ne_nil hcosts)]
      dsimp only
      rw [sscanf_numberLine hcosts (by decide)]
      exact hloop
    · rw [hsent, deletions_delete, List.append_assoc]
      rfl
    · rw [hprice fun y hy => hsmall y (List.mem_cons_of_mem _ hy),
        price_step price (hsmall x List.mem_cons_self), BitVec.add_assoc, ← BitVec.ofNat_add]
      rfl

/-- From the loop on. The last look at the list finds it empty. -/
theorem deleteAll_run (h : Serves L owner ownerID Holds) {c : Client σ} (hholds : Holds c.server hs)
    (hamsterID : BitVec 32) :
    ∃ price c', deleteAll L ownerID (hs.map fun h => printInt h.1.toInt) c hamsterID =
        (hrestRetOk, price, c') ∧
      deletions c'.sent =
        deletions c.sent ++ (hs.map (fun h => .hamster ownerID h.1) ++ [.owner ownerID]) ∧
      ((∀ x ∈ hs, x.2 < 2 ^ 63) → price = BitVec.ofNat 16 (total hs)) := by
  obtain ⟨c₁, price, hloop, hnone, hsent, hprice⟩ := deleteHamsters_run h hholds hamsterID 0 0
  obtain ⟨s₂, body₂, h₂, hempty, hs₂⟩ := curls_answers h.curl (h.listed hnone)
  obtain ⟨s₃, body₃, h₃, -, -⟩ := curls_answers (c := ⟨s₂, body₂,
    c₁.sent ++ [⟨.get, .hamsters ownerID, some body₂⟩]⟩) h.curl (h.gone hs₂)
  refine ⟨price, ⟨s₃, body₃, c₁.sent ++ [⟨.get, .hamsters ownerID, some body₂⟩] ++
    [⟨.delete, .owner ownerID, some body₃⟩]⟩, ?_, ?_, fun hsmall => ?_⟩
  · rw [deleteAll, hloop]
    dsimp only
    rw [h₂, if_pos ((length_listing hempty).mpr rfl), h₃]
  · rw [deletions_delete, deletions_get, hsent, List.append_assoc]
  · rw [hprice hsmall]
    exact BitVec.zero_add _

/-- All hamsters are deleted, then the owner, and the total is that of sixteen bits. -/
theorem collect_run (h : Serves L owner ownerID Holds) {server : σ} (hholds : Holds server hs)
    (memory : List Byte) (junk hamsterID : BitVec 32) :
    ∃ price c, hrestHelperCollect L ⟨server, memory, []⟩ owner junk hamsterID =
        some (hrestRetOk, price, c) ∧
      deletions c.sent = hs.map (fun h => .hamster ownerID h.1) ++ [.owner ownerID] ∧
      ((∀ x ∈ hs, x.2 < 2 ^ 63) → price = BitVec.ofNat 16 (total hs)) := by
  obtain ⟨s₁, body₁, h₁, hfound, hs₁⟩ := curls_answers (c := ⟨server, memory, []⟩) h.curl
    (h.found hholds)
  obtain ⟨s₂, body₂, h₂, hlisted, hs₂⟩ := curls_answers (c := ⟨s₁, body₁, [] ++
    [⟨.get, .ownerQuery owner, some body₁⟩]⟩) h.curl (h.listed hs₁)
  have hid : sscanf [] body₁ junk = ownerID := by
    rw [sscanf_numberLine hfound (by simp), storeInt_toInt]
  unfold hrestHelperCollect
  dsimp only
  rw [h₁, if_neg (numberLine_ne_nil hfound)]
  dsimp only
  rw [hid, h₂]
  split
  · rename_i hempty
    have hnone : hs = [] := List.map_eq_nil_iff.mp ((length_listing hlisted).mp hempty)
    subst hnone
    obtain ⟨s₃, body₃, h₃, -, -⟩ := curls_answers (c := ⟨s₂, body₂, _⟩) h.curl (h.gone hs₂)
    rw [h₃]
    exact ⟨0, _, rfl, rfl, fun _ => rfl⟩
  · rename_i hsome
    have hne : hs.map Prod.fst ≠ [] := mt (length_listing hlisted).mpr hsome
    have hchars := chars_cstr (zero_notMem_listing hlisted)
    dsimp only
    rw [hchars, strSplit_listing hlisted hne, List.map_map]
    obtain ⟨price, c, hrun, hsent, hprice⟩ := deleteAll_run h (c := ⟨s₂, body₂,
      [⟨.get, .ownerQuery owner, some body₁⟩, ⟨.get, .hamsters ownerID, some body₂⟩]⟩)
      hs₂ hamsterID
    exact ⟨price, c, congrArg some hrun, hsent, hprice⟩

/-- For every server that answers as expected and every owner, the bill is right just
when the sum of the costs fits. -/
theorem collect_bills_iff (h : Serves L owner ownerID Holds) {server : σ}
    (hholds : Holds server hs) (memory : List Byte) (junk hamsterID : BitVec 32) :
    (∃ r, hrestHelperCollect L ⟨server, memory, []⟩ owner junk hamsterID = some r ∧
        BillsExactly ownerID hs r.1 r.2.1 r.2.2.sent) ↔ total hs ≤ 32767 := by
  obtain ⟨price, c, hrun, hsent, hprice⟩ := collect_run h hholds memory junk hamsterID
  constructor
  · intro hbilled
    obtain ⟨r, -, -, hexact, -⟩ := hbilled
    have hlt := BitVec.toInt_lt (x := r.2.1)
    omega
  · intro hfits
    refine ⟨_, hrun, rfl, ?_, hsent⟩
    have hsmall : ∀ x ∈ hs, x.2 < 2 ^ 63 := by
      intro x hmem
      have hle := List.le_sum_of_mem (List.mem_map_of_mem (f := Prod.snd) hmem)
      rw [total] at hfits
      omega
    rw [hprice hsmall, BitVec.toInt_ofNat']
    exact Int.bmod_eq_of_le (by omega) (by omega)

end Bill

section Register
open Integrity (alice)

def registerURL : List Byte := ascii "http://localhost:8080/HamsterREST/rest"

/-- The hamsters of one owner, number 7. -/
def register : Link (List (BitVec 32 × Nat)) where
  curl := true
  defaultURL := registerURL
  perform hs curlType url :=
    match curlType with
    | .get =>
      if url = registerURL ++ (Endpoint.ownerQuery alice).path then (some [printInt 7], hs)
      else if url = registerURL ++ (Endpoint.hamsters 7).path then
        (some (hs.map fun h => printInt h.1.toInt ++ [newline]), hs)
      else (some [], hs)
    | .delete =>
      match hs.find? fun h => url = registerURL ++ (Endpoint.hamster 7 h.1).path with
      | some h => (some [ascii "costs:", printInt h.2], hs.filter (·.1 ≠ h.1))
      | none => (some [], hs)
    | _ => (some [], hs)

def Registered (s hs : List (BitVec 32 × Nat)) : Prop := s = hs ∧ (hs.map Prod.fst).Nodup

theorem printInt_injective {i j : Int} (h : printInt i = printInt j) : i = j := by
  have hi := scanInt_printInt i lineEnds_nil
  rw [h, scanInt_printInt j lineEnds_nil] at hi
  exact (Option.some.inj hi).symm

theorem hamster_path_injective {ownerID a b : BitVec 32}
    (h : (Endpoint.hamster ownerID a).path = (Endpoint.hamster ownerID b).path) : a = b :=
  BitVec.eq_of_toInt_eq (printInt_injective (List.append_cancel_left h))

theorem find_hamster {hs : List (BitVec 32 × Nat)} {h : BitVec 32 × Nat}
    (hnodup : (hs.map Prod.fst).Nodup) (hmem : h ∈ hs) :
    (hs.find? fun x => registerURL ++ (Endpoint.hamster 7 h.1).path =
      registerURL ++ (Endpoint.hamster 7 x.1).path) = some h := by
  cases hfind : hs.find? fun x => registerURL ++ (Endpoint.hamster 7 h.1).path =
      registerURL ++ (Endpoint.hamster 7 x.1).path with
  | none =>
    have hno := List.find?_eq_none.mp hfind h hmem
    exact absurd (decide_eq_true rfl) hno
  | some x =>
    have hpath : registerURL ++ (Endpoint.hamster 7 h.1).path =
        registerURL ++ (Endpoint.hamster 7 x.1).path := by simpa using List.find?_some hfind
    have hid := hamster_path_injective (List.append_cancel_left hpath)
    have hx := List.inj_on_of_nodup_map hnodup hmem (List.mem_of_find?_eq_some hfind) hid
    rw [hx]

theorem serves_register : Serves register alice 7 Registered where
  curl := rfl
  distinct h := h.2
  found := by
    intro s hs hreg
    obtain ⟨rfl, hnodup⟩ := hreg
    exact ⟨_, _, rfl, ⟨[], nofun, rfl⟩, rfl, hnodup⟩
  listed := by
    intro s hs hreg
    obtain ⟨rfl, hnodup⟩ := hreg
    have hother : registerURL ++ (Endpoint.hamsters 7).path ≠
        registerURL ++ (Endpoint.ownerQuery alice).path := by decide +kernel
    refine ⟨s.map fun h => printInt h.1.toInt ++ [newline], s, ?_, ?_, rfl, hnodup⟩
    · simp only [register, if_neg hother, ↓reduceIte]
    · left
      rw [numberLines, List.flatMap_map, List.flatMap_def]
  deleted := by
    intro s hs h hreg hmem
    obtain ⟨rfl, hnodup⟩ := hreg
    refine ⟨[ascii "costs:", printInt h.2], s.filter (·.1 ≠ h.1), ?_, ⟨[], nofun, ?_⟩, rfl, ?_⟩
    · simp only [register, find_hamster hnodup hmem]
    · simp
    · exact hnodup.sublist (List.filter_sublist.map _)
  gone := by
    intro s hreg
    obtain ⟨rfl, -⟩ := hreg
    exact ⟨_, _, rfl, trivial, trivial⟩

/-- Two hamsters whose costs fit together. -/
theorem collect_bills_two :
    (∃ r, hrestHelperCollect register ⟨[(1, 32767), (2, 0)], [], []⟩ alice 0 0 = some r ∧
        BillsExactly 7 [(1, 32767), (2, 0)] r.1 r.2.1 r.2.2.sent) ↔
      total [(1, 32767), (2, 0)] ≤ 32767 :=
  collect_bills_iff serves_register ⟨rfl, by decide⟩ [] 0 0

/-- The cheapest bill that does not fit comes out negative. -/
theorem bill_wraps :
    Serves register alice 7 Registered ∧ Registered [(1, 32767), (2, 1)] [(1, 32767), (2, 1)] ∧
      (hrestHelperCollect register ⟨[(1, 32767), (2, 1)], [], []⟩ alice 0 0).map
        (fun r => (r.1, r.2.1.toInt)) = some (hrestRetOk, -32768) ∧
      ¬ ∃ r, hrestHelperCollect register ⟨[(1, 32767), (2, 1)], [], []⟩ alice 0 0 = some r ∧
        BillsExactly 7 [(1, 32767), (2, 1)] r.1 r.2.1 r.2.2.sent := by
  refine ⟨serves_register, ⟨rfl, by decide⟩, by decide +kernel, ?_⟩
  intro hbilled
  obtain ⟨r, -, -, hexact, -⟩ := hbilled
  have hlt := BitVec.toInt_lt (x := r.2.1)
  have htotal : total [(1, 32767), (2, 1)] = 32768 := rfl
  omega

end Register

end Hamster.Contract.RestCollect
