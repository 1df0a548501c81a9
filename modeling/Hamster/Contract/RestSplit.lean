import Hamster.Rest.Split

/-!
# The lists of ids that `str_split` takes

For a text of lines the two ways of counting agree, so the assertions hold and the array is
filled to its end. A text without a line is counted as one token and ends the process.
-/
namespace Hamster.Contract.RestSplit

open Lib.Bytes Lib.Scanf Lib.Strtok Rest.Split

/-- The array of these lines. -/
def arrayOf (lines : List (List Byte)) : List Slot := lines.map .string ++ [.null]

theorem arrayOf_injective {lines lines' : List (List Byte)} (h : arrayOf lines = arrayOf lines') :
    lines = lines' := by
  have hmap := List.append_cancel_right h
  exact List.map_injective_iff.mpr (fun _ _ he => Slot.string.inj he) hmap

/-- For every text of non-empty lines the array is right just when there is a line and
none has a zero in it. -/
theorem splits_iff {lines : List (List Byte)} {body : List Byte}
    (hlines : ∀ line ∈ lines, line ≠ [] ∧ newline ∉ line) (h : HasLines lines body) :
    strSplit (cstr body).chars = .returned (arrayOf lines) ↔
      lines ≠ [] ∧ ∀ line ∈ lines, (0 : Byte) ∉ line := by
  rw [strSplit_eq]
  constructor
  · intro hsplit
    cases htokens : Rest.Helpers.strSplit (cstr body).chars with
    | none =>
      rw [htokens] at hsplit
      cases hsplit
    | some tokens =>
      rw [htokens] at hsplit
      obtain rfl : tokens = lines := arrayOf_injective (Splitting.returned.inj hsplit)
      obtain ⟨hne, rfl⟩ := strSplit_eq_some htokens
      exact ⟨hne, fun line hline hzero =>
        (cstr body).no_nul (subset_of_mem_pieces hline hzero)⟩
  · intro ⟨hne, hnul⟩
    have hbody : (0 : Byte) ∉ body := by
      intro hzero
      rcases h.mem hzero with hz | ⟨line, hline, hz⟩
      · exact absurd hz (by decide)
      · exact hnul line hline hz
    rw [chars_cstr hbody, strSplit_lines h hne hlines]
    rfl

/-- Two ids, the second without an end of line. -/
theorem splits_two :
    strSplit (cstr (ascii "7\n12")).chars = .returned (arrayOf [ascii "7", ascii "12"]) ↔
      [ascii "7", ascii "12"] ≠ [] ∧ ∀ line ∈ [ascii "7", ascii "12"], (0 : Byte) ∉ line :=
  splits_iff (by decide) (.inr (by decide))

/-- An empty text has no lines, and ends the process. -/
theorem empty_aborts :
    (∀ line ∈ ([] : List (List Byte)), line ≠ [] ∧ newline ∉ line) ∧ HasLines [] [] ∧
      strSplit (cstr []).chars = .aborted ∧
      ¬ strSplit (cstr []).chars = .returned (arrayOf []) :=
  ⟨List.forall_mem_nil _, .inl rfl, by decide, by decide⟩

end Hamster.Contract.RestSplit
