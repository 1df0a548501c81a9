import Hamster.Lib.Scanf
import Hamster.Store.Entry

/-!
# The helpers of the REST client

`hrest_helper_new` and `hrest_helper_collect` as hamster_client.c has them, over a link
to a server of any kind. A transfer hands its answer over piece by piece, or fails and
leaves the buffer empty. Memory is never short, and the URLs fit their buffer.
-/
namespace Hamster.Rest.Helpers

open Lib.Bytes Lib.Scanf Store.Entry

def hrestRetOk : BitVec 32 := 0
def hrestRetNotImplemented : BitVec 32 := BitVec.ofInt 32 (-150)

/-- `POST`, `GET`, `DELETE` and `PUT` -/
inductive CurlType
  | post
  | get
  | delete
  | put
  deriving DecidableEq

/-- The formats the helpers put into `url`, with their arguments. -/
inductive Endpoint
  | ownerQuery (owner : CString)
  | ownerCreation (owner : CString)
  | hamsterQuery (hamsterName owner : CString)
  | hamsterCreation (ownerID : BitVec 32) (hamsterName : CString) (treats : BitVec 16)
  | hamsters (ownerID : BitVec 32)
  | hamster (ownerID hamsterID : BitVec 32)
  | owner (ownerID : BitVec 32)
  deriving DecidableEq

/-- What follows `defaultURL` in `url`. -/
def Endpoint.path : Endpoint → List Byte
  | .ownerQuery o => ascii "/owners?ownerName=" ++ o.chars
  | .ownerCreation o => ascii "/owners?name=" ++ o.chars
  | .hamsterQuery n o =>
      ascii "/hamsters?hamsterName=" ++ n.chars ++ ascii "&ownerName=" ++ o.chars
  | .hamsterCreation id n treats =>
      ascii "/owners/" ++ printInt id.toInt ++ ascii "/hamsters?name=" ++ n.chars ++
        ascii "&treats=" ++ printInt treats.toNat
  | .hamsters id => ascii "/owners/" ++ printInt id.toInt ++ ascii "/hamsters"
  | .hamster id hamsterID =>
      ascii "/owners/" ++ printInt id.toInt ++ ascii "/hamsters/" ++ printInt hamsterID.toInt
  | .owner id => ascii "/owners/" ++ printInt id.toInt

/-- Where the requests go: whether there is a `curl` handle, the start of every URL,
and what becomes of a request. `none` is a `curl_easy_perform` that does not return
`CURLE_OK`; whether the server has seen the request is left open. -/
structure Link (σ : Type) where
  curl : Bool
  defaultURL : List Byte
  perform : σ → CurlType → List Byte → Option (List (List Byte)) × σ

/-- A transfer that was made, with the answer unless it failed. -/
structure Transfer where
  curlType : CurlType
  endpoint : Endpoint
  answer : Option (List Byte)
  deriving DecidableEq

/-- The server, the `size` bytes in `mem.memory`, and, for the statements only, the
transfers made so far. -/
structure Client (σ : Type) where
  server : σ
  memory : List Byte
  sent : List Transfer

/-- `WriteMemoryCallback` -/
def writeMemoryCallback (memory contents : List Byte) : List Byte := memory ++ contents

section Helpers
variable {σ : Type} (L : Link σ)

def curlsForTheGirls (c : Client σ) (curlType : CurlType) (url : Endpoint) :
    BitVec 32 × Client σ :=
  if L.curl then
    match L.perform c.server curlType (L.defaultURL ++ url.path) with
    | (none, server) => (BitVec.ofInt 32 (-2), ⟨server, [], c.sent ++ [⟨curlType, url, none⟩]⟩)
    | (some pieces, server) =>
      let memory := pieces.foldl writeMemoryCallback []
      (0, ⟨server, memory, c.sent ++ [⟨curlType, url, some memory⟩]⟩)
  else (BitVec.ofInt 32 (-3), { c with memory := [] })

/-- The hamster's part: it is posted unless it is there, and its number is asked for. -/
def postHamster (c : Client σ) (owner hamsterName : CString) (treats : BitVec 16)
    (ownerID hamsterID : BitVec 32) : BitVec 32 × BitVec 32 × Client σ :=
  let c := (curlsForTheGirls L c .get (.hamsterQuery hamsterName owner)).2
  if c.memory.length ≠ 0 then (hmstrErrExists, hamsterID, c)
  else
    let c := (curlsForTheGirls L c .post (.hamsterCreation ownerID hamsterName treats)).2
    let c := (curlsForTheGirls L c .get (.hamsterQuery hamsterName owner)).2
    (hrestRetOk, sscanf [] c.memory hamsterID, c)

/-- `ownerID` is what the uninitialised variable holds, `hamsterID` what the caller's
variable holds; it comes back as it is afterwards. No result of a transfer is used. -/
def hrestHelperNew (c : Client σ) (owner hamsterName : CString) (treats : BitVec 16)
    (ownerID hamsterID : BitVec 32) : BitVec 32 × BitVec 32 × Client σ :=
  let c := (curlsForTheGirls L c .get (.ownerQuery owner)).2
  let c :=
    if c.memory.length = 0 then
      let c := (curlsForTheGirls L c .post (.ownerCreation owner)).2
      (curlsForTheGirls L c .get (.ownerQuery owner)).2
    else c
  let ownerID := sscanf [] c.memory ownerID
  postHamster L c owner hamsterName treats ownerID hamsterID

/-- `strtok(a_str, "\n")`, called until it returns null. -/
def tokens (chars : List Byte) : List (List Byte) :=
  (chars.splitOn newline).filter fun token => token ≠ []

/-- `str_split`, `none` if an assertion on the number of tokens fails. That number is the
number of delimiters, and one more unless the last character is one: a null
`last_comma` is below every address. -/
def strSplit (chars : List Byte) : Option (List (List Byte)) :=
  let count := chars.count newline + if chars.getLast? = some newline then 0 else 1
  if (tokens chars).length = count then some (tokens chars) else none

/-- The loop over the hamsters. It ends early, with `false`, when an answer is empty. -/
def deleteHamsters (ownerID : BitVec 32) : List (List Byte) → Client σ → BitVec 32 → BitVec 32 →
    BitVec 16 → Bool × BitVec 16 × Client σ
  | [], c, _, _, price => (true, price, c)
  | line :: lines, c, hamsterID, cost, price =>
    let hamsterID := sscanf [] line hamsterID
    let c := (curlsForTheGirls L c .delete (.hamster ownerID hamsterID)).2
    if c.memory.length = 0 then (false, price, c)
    else
      let cost := sscanf (ascii "costs:") c.memory cost
      deleteHamsters ownerID lines c hamsterID cost ((price.signExtend 32 + cost).setWidth 16)

/-- From the loop on: the hamsters, a last look at the list, the owner. -/
def deleteAll (ownerID : BitVec 32) (hamsterIDs : List (List Byte)) (c : Client σ)
    (hamsterID : BitVec 32) : BitVec 32 × BitVec 16 × Client σ :=
  match deleteHamsters L ownerID hamsterIDs c hamsterID 0 0 with
  | (false, price, c) => (hrestRetNotImplemented, price, c)
  | (true, price, c) =>
    let c := (curlsForTheGirls L c .get (.hamsters ownerID)).2
    if c.memory.length = 0 then
      let c := (curlsForTheGirls L c .delete (.owner ownerID)).2
      (hrestRetOk, price, c)
    else (hrestRetNotImplemented, price, c)

/-- The return value, `*price` and the client; `none` if `str_split` aborts. `ownerID` and
`hamsterID` are what the uninitialised variables hold. -/
def hrestHelperCollect (c : Client σ) (owner : CString) (ownerID hamsterID : BitVec 32) :
    Option (BitVec 32 × BitVec 16 × Client σ) :=
  let c := (curlsForTheGirls L c .get (.ownerQuery owner)).2
  if c.memory.length = 0 then some (hmstrErrNotFound, 0, c)
  else
    let ownerID := sscanf [] c.memory ownerID
    let c := (curlsForTheGirls L c .get (.hamsters ownerID)).2
    if c.memory.length = 0 then
      let c := (curlsForTheGirls L c .delete (.owner ownerID)).2
      some (hrestRetOk, 0, c)
    else
      match strSplit (cstr c.memory).chars with
      | none => none
      | some hamsterIDs => some (deleteAll L ownerID hamsterIDs c hamsterID)

variable {L} {c : Client σ} {curlType : CurlType} {url : Endpoint}

/-- A transfer is added to those made, and its answer is what the buffer holds. -/
theorem curls_made (hc : L.curl = true) (c : Client σ) (curlType : CurlType) (url : Endpoint) :
    ∃ server answer, (curlsForTheGirls L c curlType url).2 =
      ⟨server, answer.getD [], c.sent ++ [⟨curlType, url, answer⟩]⟩ := by
  rw [curlsForTheGirls, if_pos hc]
  cases L.perform c.server curlType (L.defaultURL ++ url.path) with
  | mk answer server =>
    cases answer with
    | none => exact ⟨server, none, rfl⟩
    | some pieces => exact ⟨server, some _, rfl⟩

theorem curls_of_no_handle (hc : L.curl = false) :
    (curlsForTheGirls L c curlType url).2 = { c with memory := [] } := by
  rw [curlsForTheGirls, if_neg (by rw [hc]; decide)]

theorem foldl_writeMemoryCallback (pieces : List (List Byte)) (memory : List Byte) :
    pieces.foldl writeMemoryCallback memory = memory ++ pieces.flatten := by
  induction pieces generalizing memory with
  | nil => exact (List.append_nil memory).symm
  | cons piece pieces ih =>
    rw [List.foldl_cons, ih, writeMemoryCallback, List.flatten_cons, List.append_assoc]

/-- A transfer that succeeds. -/
theorem curls_ok (hc : L.curl = true) {pieces : List (List Byte)} {server : σ}
    (h : L.perform c.server curlType (L.defaultURL ++ url.path) = (some pieces, server)) :
    (curlsForTheGirls L c curlType url).2 =
      ⟨server, pieces.flatten, c.sent ++ [⟨curlType, url, some pieces.flatten⟩]⟩ := by
  rw [curlsForTheGirls, if_pos hc, h]
  simp only [foldl_writeMemoryCallback, List.nil_append]

end Helpers

end Hamster.Rest.Helpers
