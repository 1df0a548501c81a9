import Hamster.Lib.Bytes

/-!
# Tokens of a string

`strtok` with one delimiter: leading delimiters are skipped, the token ends in front of
the next one, and the search goes on behind it. Called until it returns null it finds
the pieces between the delimiters that are not empty.
-/
namespace Hamster.Lib.Strtok

variable {α : Type}

/-- The lines, each with its end. -/
def unlines (delim : α) (lines : List (List α)) : List α := lines.flatMap (· ++ [delim])

theorem unlines_snoc (delim : α) (lines : List (List α)) (line : List α) :
    unlines delim (lines ++ [line]) = unlines delim lines ++ line ++ [delim] := by
  simp [unlines]

theorem subset_intercalate {parts : List (List α)} {sep part : List α} (h : part ∈ parts) :
    part ⊆ sep.intercalate parts := by
  induction parts with
  | nil => cases h
  | cons first parts ih =>
    rcases List.mem_cons.mp h with rfl | h
    · cases parts with
      | nil =>
        rw [List.intercalate_singleton]
        exact List.Subset.refl _
      | cons =>
        rw [List.intercalate_cons_cons, List.append_assoc]
        exact List.subset_append_left _ _
    · rw [List.intercalate_cons_of_ne_nil (List.ne_nil_of_mem h)]
      exact List.Subset.trans (ih h) (List.subset_append_right _ _)

variable [DecidableEq α] (delim : α)

/-- One call: the token, and what the next call searches. -/
def strtok (s : List α) : Option (List α × List α) :=
  let s := s.dropWhile (· = delim)
  if s = [] then none
  else some (s.takeWhile (· ≠ delim), (s.dropWhile (· ≠ delim)).tail)

/-- The calls on one string, one after the other. -/
def strtoks : Nat → List α → List (List α)
  | 0, _ => []
  | fuel + 1, s =>
    match strtok delim s with
    | none => []
    | some (token, rest) => token :: strtoks fuel rest

/-- The pieces that are not empty. -/
def pieces (s : List α) : List (List α) := (s.splitOn delim).filter fun piece => piece ≠ []

variable {delim} {s token rest : List α}

@[simp] theorem pieces_nil : pieces delim [] = [] := rfl

theorem pieces_cons_delim (s : List α) : pieces delim (delim :: s) = pieces delim s := by
  have hsplit : (delim :: s).splitOn delim = [] :: s.splitOn delim :=
    List.splitOn_append_cons_self_of_not_mem List.not_mem_nil s
  rw [pieces, hsplit, List.filter_cons_of_neg (by simp)]
  rfl

/-- The first piece ends at the first delimiter. -/
theorem pieces_token (hne : token ≠ []) (hd : delim ∉ token) (rest : List α) :
    pieces delim (token ++ delim :: rest) = token :: pieces delim rest := by
  rw [pieces, List.splitOn_append_cons_self_of_not_mem hd,
    List.filter_cons_of_pos (by simpa using hne)]
  rfl

/-- A text is cut at its first delimiter in one way. -/
theorem append_delim_inj {front front' rest' : List α} (h : delim ∉ front) (h' : delim ∉ front')
    (he : front ++ delim :: rest = front' ++ delim :: rest') : front = front' ∧ rest = rest' := by
  have hsplit := congrArg (List.splitOn delim) he
  rw [List.splitOn_append_cons_self_of_not_mem h, List.splitOn_append_cons_self_of_not_mem h']
    at hsplit
  obtain rfl := (List.cons.inj hsplit).1
  exact ⟨rfl, (List.cons.inj (List.append_cancel_left he)).2⟩

theorem pieces_of_notMem (hne : token ≠ []) (hd : delim ∉ token) : pieces delim token = [token] := by
  rw [pieces, List.splitOn_eq_singleton hd, List.filter_cons_of_pos (by simpa using hne)]
  rfl

theorem pieces_dropWhile (s : List α) : pieces delim (s.dropWhile (· = delim)) = pieces delim s := by
  induction s with
  | nil => rfl
  | cons a s ih =>
    by_cases ha : a = delim
    · subst ha
      rw [List.dropWhile_cons_of_pos (by simp), ih, pieces_cons_delim]
    · rw [List.dropWhile_cons_of_neg (by simpa using ha)]

theorem pieces_takeWhile (hne : s.takeWhile (· ≠ delim) ≠ []) :
    pieces delim s =
      s.takeWhile (· ≠ delim) :: pieces delim (s.dropWhile (· ≠ delim)).tail := by
  have hcut := List.takeWhile_append_dropWhile (p := (· ≠ delim)) (l := s)
  have hd : delim ∉ s.takeWhile (· ≠ delim) := fun hmem => by
    simpa using List.mem_takeWhile_imp hmem
  generalize s.takeWhile (· ≠ delim) = token at hcut hne hd ⊢
  cases hrest : s.dropWhile (· ≠ delim) with
  | nil =>
    rw [hrest, List.append_nil] at hcut
    rw [← hcut, pieces_of_notMem hne hd]
    rfl
  | cons b rest =>
    have hb := List.head?_dropWhile_not (· ≠ delim) s
    rw [hrest] at hb hcut
    obtain rfl : b = delim := by simpa using hb
    rw [← hcut, pieces_token hne hd]
    rfl

/-- What `strtok` returns, in terms of the pieces. -/
theorem strtok_pieces (delim : α) (s : List α) :
    strtok delim s = none ∧ pieces delim s = [] ∨
      ∃ token rest, strtok delim s = some (token, rest) ∧
        pieces delim s = token :: pieces delim rest ∧ rest.length < s.length := by
  rw [← pieces_dropWhile]
  have hle : (s.dropWhile (· = delim)).length ≤ s.length := (List.dropWhile_suffix _).length_le
  have hhead := List.head?_dropWhile_not (· = delim) s
  unfold strtok
  generalize s.dropWhile (· = delim) = t at hle hhead ⊢
  cases t with
  | nil => exact .inl ⟨rfl, rfl⟩
  | cons a t =>
    have ha : a ≠ delim := by simpa using hhead
    have hne : (a :: t).takeWhile (· ≠ delim) ≠ [] := by
      rw [List.takeWhile_cons_of_pos (by simpa using ha)]
      exact List.cons_ne_nil _ _
    have hlt : ((a :: t).dropWhile (· ≠ delim)).tail.length < (a :: t).length := by
      have hdrop := (List.dropWhile_suffix (l := a :: t) (· ≠ delim)).length_le
      rw [List.length_tail]
      rw [List.length_cons] at hdrop ⊢
      omega
    exact .inr ⟨_, _, if_neg (List.cons_ne_nil a t), pieces_takeWhile hne, hlt.trans_le hle⟩

theorem strtoks_eq {fuel : Nat} (h : s.length < fuel) : strtoks delim fuel s = pieces delim s := by
  induction fuel generalizing s with
  | zero => exact absurd h (Nat.not_lt_zero _)
  | succ fuel ih =>
    rcases strtok_pieces delim s with ⟨hnone, hpieces⟩ | ⟨token, rest, hsome, hpieces, hlt⟩
    · rw [strtoks, hnone, hpieces]
    · rw [strtoks, hsome, hpieces]
      exact congrArg _ (ih (by omega))

/-- The bytes of a piece are bytes of the string. -/
theorem subset_of_mem_pieces (h : token ∈ pieces delim s) : token ⊆ s := by
  have hsub : token ⊆ [delim].intercalate (s.splitOn delim) :=
    subset_intercalate (List.mem_filter.mp h).1
  rwa [List.intercalate_splitOn] at hsub

section Lines
variable {lines : List (List α)}

theorem pieces_unlines (h : ∀ line ∈ lines, line ≠ [] ∧ delim ∉ line) (rest : List α) :
    pieces delim (unlines delim lines ++ rest) = lines ++ pieces delim rest := by
  induction lines with
  | nil => rfl
  | cons line lines ih =>
    obtain ⟨hne, hd⟩ := h line List.mem_cons_self
    have hcons : unlines delim (line :: lines) ++ rest =
        line ++ delim :: (unlines delim lines ++ rest) := by simp [unlines]
    rw [hcons, pieces_token hne hd, ih fun l hl => h l (List.mem_cons_of_mem _ hl)]
    rfl

theorem count_unlines (h : ∀ line ∈ lines, delim ∉ line) :
    (unlines delim lines).count delim = lines.length := by
  induction lines with
  | nil => rfl
  | cons line lines ih =>
    rw [unlines, List.flatMap_cons, List.count_append, List.count_append,
      List.count_eq_zero_of_not_mem (h line List.mem_cons_self), Nat.zero_add,
      List.count_singleton_self, List.length_cons, Nat.add_comm]
    exact congrArg (· + 1) (ih fun l hl => h l (List.mem_cons_of_mem _ hl))

end Lines

end Hamster.Lib.Strtok
