import Hamster.Lib.Strtok
import Hamster.Rest.Helpers

/-!
# `str_split` and its array

The function as it stands: the delimiters are counted, an array of that size is
allocated and filled from `strtok`. `Rest.Helpers` has the outcome only.
-/
namespace Hamster.Rest.Split

open Lib.Bytes Lib.Scanf Lib.Strtok Rest.Helpers

/-- What a slot of the array holds. -/
inductive Slot
  | unset
  | string (token : List Byte)
  | null
  deriving DecidableEq

/-- How a call ends: an assertion fails, a write goes behind the array, or the array is
returned. -/
inductive Splitting
  | aborted
  | outside
  | returned (result : List Slot)
  deriving DecidableEq

/-- The counting loop, with `count` and `last_comma` as the offset of the last delimiter. -/
def countLoop : List Byte → Nat → Nat → Option Nat → Nat × Option Nat
  | [], _, count, lastComma => (count, lastComma)
  | b :: bs, tmp, count, lastComma =>
    if b = newline then countLoop bs (tmp + 1) (count + 1) (some tmp)
    else countLoop bs (tmp + 1) count lastComma

/-- `last_comma < a_str + strlen(a_str) - 1`. A null pointer is below every other. -/
def isBelowEnd (lastComma : Option Nat) (strlen : Nat) : Bool :=
  match lastComma with
  | none => true
  | some offset => offset + 1 < strlen

/-- `*(result + idx) = slot`, and what is done after it. -/
def store (result : List Slot) (idx : Nat) (slot : Slot) (next : List Slot → Splitting) :
    Splitting :=
  if idx < result.length then next (result.set idx slot) else .outside

/-- The filling loop on the tokens that `strtok` returns, and what follows it. -/
def fillLoop (count : Nat) : List (List Byte) → Nat → List Slot → Splitting
  | [], idx, result =>
    if idx = count - 1 then store result idx .null .returned else .aborted
  | token :: tokens, idx, result =>
    if idx < count then
      store result idx (.string token) fun result => fillLoop count tokens (idx + 1) result
    else .aborted

/-- `str_split`; `malloc` succeeds. -/
def strSplit (chars : List Byte) : Splitting :=
  let (count, lastComma) := countLoop chars 0 0 none
  let count := count + if isBelowEnd lastComma chars.length then 1 else 0
  let count := count + 1
  fillLoop count (strtoks newline (chars.length + 1) chars) 0 (List.replicate count .unset)

/-- The array after `idx` tokens. -/
def filled (tokens : List (List Byte)) (count : Nat) : List Slot :=
  tokens.map .string ++ List.replicate (count - tokens.length) .unset

theorem filled_set (tokens : List (List Byte)) {count : Nat} (h : tokens.length < count)
    (slot : Slot) : (filled tokens count).set tokens.length slot =
      tokens.map .string ++ slot :: List.replicate (count - (tokens.length + 1)) .unset := by
  obtain ⟨k, hk⟩ : ∃ k, count - tokens.length = k + 1 := ⟨count - tokens.length - 1, by omega⟩
  have hk' : count - (tokens.length + 1) = k := by omega
  rw [filled, hk, hk', List.replicate_succ, List.set_append_right _ _ (by simp)]
  simp

theorem length_filled (tokens : List (List Byte)) {count : Nat} (h : tokens.length ≤ count) :
    (filled tokens count).length = count := by
  simp only [filled, List.length_append, List.length_map, List.length_replicate]
  omega

/-- The loop never writes outside, and the assertions hold just when the two counts agree. -/
theorem fillLoop_eq {count : Nat} (tokens done : List (List Byte)) (hc : done.length ≤ count)
    (hpos : 0 < count) :
    fillLoop count tokens done.length (filled done count) =
      if done.length + tokens.length + 1 = count then
        .returned ((done ++ tokens).map .string ++ [.null]) else .aborted := by
  induction tokens generalizing done with
  | nil =>
    rw [fillLoop, List.length_nil, Nat.add_zero, List.append_nil]
    by_cases he : done.length + 1 = count
    · have hlt : done.length < count := by omega
      rw [if_pos (by omega), if_pos he, store, length_filled _ hc, if_pos hlt, filled_set _ hlt,
        he, Nat.sub_self]
      rfl
    · rw [if_neg (by omega), if_neg he]
  | cons token tokens ih =>
    rw [fillLoop, List.length_cons]
    by_cases hlt : done.length < count
    · have hdone : (done ++ [token]).length = done.length + 1 := by simp
      have hfill := ih (done ++ [token]) (by omega)
      have harray : filled (done ++ [token]) count = done.map .string ++
          Slot.string token :: List.replicate (count - (done.length + 1)) .unset := by
        rw [filled, hdone]
        simp
      rw [hdone, harray, List.append_assoc, List.singleton_append, Nat.add_right_comm] at hfill
      rw [if_pos hlt, store, length_filled _ hc, if_pos hlt, filled_set _ hlt, hfill]
      simp only [Nat.add_right_comm, Nat.add_assoc, Nat.add_comm 1]
    · rw [if_neg hlt, if_neg (by omega)]

theorem countLoop_eq (chars : List Byte) (tmp count : Nat) (lastComma : Option Nat) :
    (countLoop chars tmp count lastComma).1 = count + chars.count newline := by
  induction chars generalizing tmp count lastComma with
  | nil => rfl
  | cons b bs ih =>
    rw [countLoop]
    split
    · rename_i hb
      rw [ih, hb, List.count_cons_self]
      omega
    · rename_i hb
      rw [ih, List.count_cons_of_ne hb]

theorem countLoop_snoc (chars : List Byte) (b : Byte) (tmp count : Nat) (lastComma : Option Nat) :
    (countLoop (chars ++ [b]) tmp count lastComma).2 =
      if b = newline then some (tmp + chars.length)
      else (countLoop chars tmp count lastComma).2 := by
  induction chars generalizing tmp count lastComma with
  | nil =>
    rw [List.nil_append, countLoop, countLoop]
    split <;> rfl
  | cons c chars ih =>
    rw [List.cons_append, countLoop, countLoop, List.length_cons]
    split
    · rw [ih, Nat.add_right_comm tmp, Nat.add_assoc tmp]
    · rw [ih, Nat.add_right_comm tmp, Nat.add_assoc tmp]

/-- `last_comma` points into the string. -/
theorem lastComma_lt {chars : List Byte} {offset : Nat}
    (h : (countLoop chars 0 0 none).2 = some offset) : offset < chars.length := by
  induction chars using List.reverseRecOn with
  | nil => cases h
  | append_singleton chars b ih =>
    rw [countLoop_snoc] at h
    rw [List.length_append, List.length_singleton]
    split at h
    · cases h
      omega
    · have hlt := ih h
      omega

/-- The last delimiter is in front of the last character, unless that is one itself. -/
theorem isBelowEnd_eq (chars : List Byte) :
    isBelowEnd (countLoop chars 0 0 none).2 chars.length =
      !decide (chars.getLast? = some newline) := by
  rcases List.eq_nil_or_concat' chars with rfl | ⟨init, b, rfl⟩
  · rfl
  · rw [countLoop_snoc, List.getLast?_concat, List.length_append, List.length_singleton]
    by_cases hb : b = newline
    · rw [if_pos hb, hb]
      simp [isBelowEnd]
    · rw [if_neg hb, decide_eq_false (by simpa using hb)]
      cases hlast : (countLoop init 0 0 none).2 with
      | none => rfl
      | some offset =>
        have hlt := lastComma_lt hlast
        exact decide_eq_true (Nat.succ_lt_succ hlt)

/-- The array holds the tokens, or an assertion fails. -/
theorem strSplit_eq (chars : List Byte) : strSplit chars =
    match Rest.Helpers.strSplit chars with
    | none => .aborted
    | some tokens => .returned (tokens.map .string ++ [.null]) := by
  have hcount : chars.count newline + (if isBelowEnd (countLoop chars 0 0 none).2 chars.length then
      1 else 0) = chars.count newline + if chars.getLast? = some newline then 0 else 1 := by
    rw [isBelowEnd_eq]
    by_cases hlast : chars.getLast? = some newline
    · rw [decide_eq_true hlast, if_pos hlast]
      rfl
    · rw [decide_eq_false hlast, if_neg hlast]
      rfl
  have hfill := fillLoop_eq (tokens chars) [] (Nat.zero_le _) (Nat.succ_pos
    (chars.count newline + if chars.getLast? = some newline then 0 else 1))
  rw [filled, List.map_nil, List.nil_append, List.length_nil, Nat.sub_zero, Nat.zero_add,
    List.nil_append] at hfill
  unfold strSplit
  dsimp only
  rw [countLoop_eq, Nat.zero_add, hcount, strtoks_eq (Nat.lt_succ_self _)]
  refine hfill.trans ?_
  rw [Rest.Helpers.strSplit]
  by_cases heq : (tokens chars).length =
      chars.count newline + if chars.getLast? = some newline then 0 else 1
  · rw [if_pos (congrArg (· + 1) heq), if_pos heq]
  · rw [if_neg fun h => heq (Nat.succ.inj h), if_neg heq]

/-- Where the assertions hold there is a token. -/
theorem strSplit_eq_some {chars : List Byte} {tokens : List (List Byte)}
    (h : Rest.Helpers.strSplit chars = some tokens) :
    tokens ≠ [] ∧ tokens = Rest.Helpers.tokens chars := by
  rw [Rest.Helpers.strSplit] at h
  obtain ⟨hcount, htokens⟩ := Option.ite_none_right_eq_some.mp h
  obtain rfl := Option.some.inj htokens
  refine ⟨fun hnil => ?_, rfl⟩
  rw [hnil, List.length_nil] at hcount
  split at hcount
  · rename_i hlast
    have hpos := List.count_pos_iff.mpr (List.mem_of_getLast? hlast)
    omega
  · omega

section Lines
variable {lines : List (List Byte)} {body : List Byte}

/-- The text has these lines. The last one may lack its end. -/
def HasLines (lines : List (List Byte)) (body : List Byte) : Prop :=
  body = unlines newline lines ∨ body ++ [newline] = unlines newline lines

theorem HasLines.snoc {init : List (List Byte)} {line : List Byte}
    (h : HasLines (init ++ [line]) body) :
    body = unlines newline init ++ line ++ [newline] ∨ body = unlines newline init ++ line := by
  rw [HasLines, unlines_snoc] at h
  exact h.imp_right List.append_cancel_right

theorem HasLines.mem {b : Byte} (h : HasLines lines body) (hb : b ∈ body) :
    b = newline ∨ ∃ line ∈ lines, b ∈ line := by
  have hmem : b ∈ unlines newline lines := by
    rcases h with rfl | h
    · exact hb
    · rw [← h]
      exact List.mem_append_left _ hb
  obtain ⟨line, hline, hb⟩ := List.mem_flatMap.mp hmem
  rcases List.mem_append.mp hb with hb | hb
  · exact .inr ⟨line, hline, hb⟩
  · exact .inl (List.mem_singleton.mp hb)

/-- The two counts agree on lines that are not empty, with and without the last end. -/
theorem strSplit_lines (h : HasLines lines body) (hne : lines ≠ [])
    (hlines : ∀ line ∈ lines, line ≠ [] ∧ newline ∉ line) :
    Rest.Helpers.strSplit body = some lines := by
  obtain ⟨init, last, rfl⟩ := (List.eq_nil_or_concat' lines).resolve_left hne
  obtain ⟨hlast, hnl⟩ := hlines last (by simp)
  have hinit : ∀ line ∈ init, line ≠ [] ∧ newline ∉ line :=
    fun line hl => hlines line (List.mem_append_left _ hl)
  have hcount : (unlines newline init ++ last).count newline = init.length := by
    rw [List.count_append, count_unlines fun line hl => (hinit line hl).2,
      List.count_eq_zero_of_not_mem hnl, Nat.add_zero]
  suffices hboth : tokens body = init ++ [last] ∧
      body.count newline + (if body.getLast? = some newline then 0 else 1) = init.length + 1 by
    rw [Rest.Helpers.strSplit, hboth.1, hboth.2, if_pos (by simp)]
  rcases h.snoc with rfl | rfl
  · constructor
    · rw [List.append_assoc]
      exact (pieces_unlines hinit _).trans (congrArg _ (pieces_token hlast hnl []))
    · rw [List.count_append, hcount, List.getLast?_concat, if_pos rfl]
      rfl
  · constructor
    · exact (pieces_unlines hinit _).trans (congrArg _ (pieces_of_notMem hlast hnl))
    · have hend : (unlines newline init ++ last).getLast? ≠ some newline := by
        rw [List.getLast?_append_of_ne_nil _ hlast]
        exact fun he => hnl (List.mem_of_getLast? he)
      rw [hcount, if_neg hend]

/-- There is nothing in front of the first line. -/
theorem length_lines (h : HasLines lines body)
    (hlines : ∀ line ∈ lines, line ≠ [] ∧ newline ∉ line) : body.length = 0 ↔ lines = [] := by
  constructor
  · intro hbody
    obtain rfl := List.length_eq_zero_iff.mp hbody
    by_contra hne
    have hsplit := strSplit_lines h hne hlines
    have habort : Rest.Helpers.strSplit [] = none := by decide
    rw [habort] at hsplit
    cases hsplit
  · intro hnone
    subst hnone
    rcases h with rfl | h
    · rfl
    · exact absurd (List.append_eq_nil_iff.mp h).2 (List.cons_ne_nil _ _)

/-- A number on each line. -/
def numbers (is : List Int) : List (List Byte) := is.map printInt

variable {is : List Int}

theorem numbers_lines (is : List Int) : ∀ line ∈ numbers is, line ≠ [] ∧ newline ∉ line := by
  intro line hline
  obtain ⟨i, -, rfl⟩ := List.mem_map.mp hline
  exact ⟨printInt_ne_nil i, fun h => (ne_of_mem_printInt h).2 rfl⟩

theorem zero_notMem_numbers (h : HasLines (numbers is) body) : (0 : Byte) ∉ body := by
  intro hzero
  rcases h.mem hzero with hnl | ⟨line, hline, hz⟩
  · exact absurd hnl (by decide)
  · obtain ⟨i, -, rfl⟩ := List.mem_map.mp hline
    exact (ne_of_mem_printInt hz).1 rfl

end Lines

end Hamster.Rest.Split
