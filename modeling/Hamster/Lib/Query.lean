import Hamster.Lib.Scanf
import Hamster.Lib.Strtok

/-!
# The query of a URL

The query stands between the first `?` and the `#`, and is made of pairs `key=value` with a
`&` between them. In keys and values `+` stands for a blank and `%XX` for the byte `XX`.
-/
namespace Hamster.Lib.Query

open Bytes Scanf Strtok

def percent : Byte := 37
def plus : Byte := 43
def equals : Byte := 61
def ampersand : Byte := 38
def hash : Byte := 35
def questionMark : Byte := 63

def isHex (b : Byte) : Bool := digitVal b < 16

def unplus (b : Byte) : Byte := if b = plus then 32 else b

def decode : List Byte → List Byte
  | [] => []
  | [a] => [unplus a]
  | [a, b] => [unplus a, unplus b]
  | a :: b :: c :: rest =>
    if a = percent ∧ isHex b ∧ isHex c then
      BitVec.ofNat 8 (16 * digitVal b + digitVal c) :: decode rest
    else unplus a :: decode (b :: c :: rest)

/-- The text in front of the first `=`, and the text behind it. -/
def pair (piece : List Byte) : List Byte × List Byte :=
  (decode (piece.takeWhile (· ≠ equals)), decode (piece.dropWhile (· ≠ equals)).tail)

def pairs (query : List Byte) : List (List Byte × List Byte) := (pieces ampersand query).map pair

/-- The part of a URL in front of the `#`. -/
def cut (url : List Byte) : List Byte := url.takeWhile (· ≠ hash)

def queryOf (url : List Byte) : List Byte := ((cut url).dropWhile (· ≠ questionMark)).tail

/-- There is a `%XX` in the text. -/
def Escaped (text : List Byte) : Prop :=
  ∃ b c, isHex b = true ∧ isHex c = true ∧ [percent, b, c] <:+: text

structure Plain (text : List Byte) : Prop where
  noAmpersand : ampersand ∉ text
  noHash : hash ∉ text
  noPlus : plus ∉ text
  noEscape : ¬ Escaped text

section Decode
variable {text : List Byte}

theorem length_decode_le (text : List Byte) : (decode text).length ≤ text.length := by
  induction text using decode.induct with
  | case1 => exact Nat.le_refl _
  | case2 a => exact Nat.le_refl _
  | case3 a b => exact Nat.le_refl _
  | case4 a b c rest hhex ih =>
    rw [decode, if_pos hhex]
    simp only [List.length_cons]
    omega
  | case5 a b c rest hhex ih =>
    rw [decode, if_neg hhex]
    exact Nat.succ_le_succ ih

/-- An escape sits at the front or further on. -/
theorem escaped_cons {a b c : Byte} {rest : List Byte} :
    Escaped (a :: b :: c :: rest) ↔
      (a = percent ∧ isHex b ∧ isHex c) ∨ Escaped (b :: c :: rest) := by
  constructor
  · intro ⟨x, y, hx, hy, hin⟩
    rcases List.infix_cons_iff.mp hin with hpre | hin
    · simp only [List.cons_prefix_cons] at hpre
      obtain ⟨rfl, rfl, rfl, -⟩ := hpre
      exact .inl ⟨rfl, hx, hy⟩
    · exact .inr ⟨x, y, hx, hy, hin⟩
  · intro h
    rcases h with ⟨rfl, hb, hc⟩ | ⟨x, y, hx, hy, hin⟩
    · exact ⟨b, c, hb, hc, (List.prefix_append [percent, b, c] rest).isInfix⟩
    · exact ⟨x, y, hx, hy, List.infix_cons hin⟩

theorem not_escaped_of_notMem (h : percent ∉ text) : ¬ Escaped text := by
  intro ⟨_, _, _, _, hin⟩
  exact h (hin.subset List.mem_cons_self)

theorem not_escaped_of_length (h : text.length < 3) : ¬ Escaped text := by
  intro ⟨_, _, _, _, hin⟩
  exact absurd hin.length_le (Nat.not_le.mpr h)

theorem decode_of_not_escaped (h : ¬ Escaped text) : decode text = text.map unplus := by
  induction text using decode.induct with
  | case1 => rfl
  | case2 a => rfl
  | case3 a b => rfl
  | case4 a b c rest hhex ih => exact absurd (escaped_cons.mpr (.inl hhex)) h
  | case5 a b c rest hhex ih =>
    rw [decode, if_neg hhex, ih fun he => h (escaped_cons.mpr (.inr he))]
    rfl

theorem length_decode_lt (h : Escaped text) : (decode text).length < text.length := by
  induction text using decode.induct with
  | case1 => exact absurd h (not_escaped_of_length (by decide))
  | case2 a => exact absurd h (not_escaped_of_length (by simp))
  | case3 a b => exact absurd h (not_escaped_of_length (by simp))
  | case4 a b c rest hhex ih =>
    have hle := length_decode_le rest
    rw [decode, if_pos hhex]
    simp only [List.length_cons]
    omega
  | case5 a b c rest hhex ih =>
    rw [decode, if_neg hhex]
    exact Nat.succ_lt_succ (ih ((escaped_cons.mp h).resolve_left hhex))

theorem map_unplus_eq : text.map unplus = text ↔ plus ∉ text := by
  constructor
  · intro hmap hplus
    have hmem : plus ∈ text.map unplus := hmap.symm ▸ hplus
    obtain ⟨b, -, hb⟩ := List.mem_map.mp hmem
    rw [unplus] at hb
    split at hb
    · exact absurd hb (by decide)
    · rename_i hne
      exact hne hb
  · intro hplus
    have hsame : ∀ b ∈ text, unplus b = id b :=
      fun b hb => if_neg fun he : b = plus => hplus (he ▸ hb)
    exact (List.map_congr_left hsame).trans (List.map_id text)

/-- What decodes to itself. -/
theorem decode_eq_self : decode text = text ↔ plus ∉ text ∧ ¬ Escaped text := by
  constructor
  · intro heq
    have hnot : ¬ Escaped text := fun h => by
      have hlt := length_decode_lt h
      rw [heq] at hlt
      exact Nat.lt_irrefl _ hlt
    rw [decode_of_not_escaped hnot] at heq
    exact ⟨map_unplus_eq.mp heq, hnot⟩
  · intro ⟨hplus, hnot⟩
    rw [decode_of_not_escaped hnot, map_unplus_eq.mpr hplus]

theorem Plain.decode_eq (h : Plain text) : decode text = text :=
  decode_eq_self.mpr ⟨h.noPlus, h.noEscape⟩

end Decode

section Fields
variable {key value rest : List Byte}

/-- A key as the formats write them. -/
structure Key (key : List Byte) : Prop extends Plain key where
  noEquals : equals ∉ key

theorem pair_eq (hk : Key key) (value : List Byte) :
    pair (key ++ equals :: value) = (key, decode value) := by
  have hall : ∀ b ∈ key, decide (b ≠ equals) = true :=
    fun b hb => decide_eq_true fun he => hk.noEquals (he ▸ hb)
  rw [pair, List.takeWhile_append_of_pos hall, List.dropWhile_append_of_pos hall,
    List.takeWhile_cons_of_neg (by simp), List.dropWhile_cons_of_neg (by simp), List.append_nil,
    hk.decode_eq]
  rfl

theorem cut_append (h : hash ∉ value) (rest : List Byte) : cut (value ++ rest) = value ++ cut rest :=
  List.takeWhile_append_of_pos fun b hb => decide_eq_true fun he : b = hash => h (he ▸ hb)

theorem queryOf_append {front : List Byte} (hq : questionMark ∉ front) (hh : hash ∉ front)
    (query : List Byte) : queryOf (front ++ questionMark :: query) = cut query := by
  have hall : ∀ b ∈ front, decide (b ≠ questionMark) = true :=
    fun b hb => decide_eq_true fun he : b = questionMark => hq (he ▸ hb)
  have hcut : cut (questionMark :: query) = questionMark :: cut query :=
    List.takeWhile_cons_of_pos (by decide)
  rw [queryOf, cut_append hh, hcut, List.dropWhile_append_of_pos hall,
    List.dropWhile_cons_of_neg (by simp)]
  rfl

theorem cut_field (hk : Key key) (text : List Byte) :
    cut (key ++ equals :: text) = key ++ equals :: cut text := by
  rw [cut_append hk.noHash]
  rfl

/-- A value ends at the first `&` or `#`. -/
def untilStop (text : List Byte) : List Byte := text.takeWhile fun b => b ≠ ampersand ∧ b ≠ hash

theorem notMem_field (hk : Key key) (hv : ampersand ∉ value) :
    ampersand ∉ key ++ equals :: value := by
  rw [List.mem_append, List.mem_cons]
  exact not_or.mpr ⟨hk.noAmpersand, not_or.mpr ⟨by decide, hv⟩⟩

theorem pairs_cut_head (hk : Key key) (text : List Byte) :
    ∃ more, pairs (cut (key ++ equals :: text)) = (key, decode (untilStop text)) :: more := by
  have hall : ∀ b ∈ key, decide (b ≠ ampersand) = true :=
    fun b hb => decide_eq_true fun he : b = ampersand => hk.noAmpersand (he ▸ hb)
  have hfirst : (key ++ equals :: cut text).takeWhile (· ≠ ampersand) =
      key ++ equals :: untilStop text := by
    rw [List.takeWhile_append_of_pos hall, List.takeWhile_cons_of_pos (by decide), cut,
      List.takeWhile_takeWhile]
    simp only [untilStop, decide_eq_true_eq]
  have hne : (key ++ equals :: cut text).takeWhile (· ≠ ampersand) ≠ [] := by
    rw [hfirst]
    simp
  rw [cut_field hk, pairs, pieces_takeWhile hne, hfirst, List.map_cons, pair_eq hk]
  exact ⟨_, rfl⟩

/-- A plain value in front of a `&`. -/
theorem pairs_cut_cons (hk : Key key) (hv : Plain value) (rest : List Byte) :
    pairs (cut (key ++ equals :: (value ++ ampersand :: rest))) =
      (key, value) :: pairs (cut rest) := by
  have hcut : cut (ampersand :: rest) = ampersand :: cut rest :=
    List.takeWhile_cons_of_pos (by decide)
  have hsplit : key ++ equals :: (value ++ ampersand :: cut rest) =
      (key ++ equals :: value) ++ ampersand :: cut rest := by simp
  rw [cut_field hk, cut_append hv.noHash, hcut, hsplit, pairs,
    pieces_token (by simp) (notMem_field hk hv.noAmpersand), List.map_cons, pair_eq hk,
    hv.decode_eq]
  rfl

theorem pairs_cut_last (hk : Key key) (hv : Plain value) :
    pairs (cut (key ++ equals :: value)) = [(key, value)] := by
  have hcut : cut value = value := by
    have happend := cut_append hv.noHash []
    rwa [List.append_nil, show cut [] = [] from rfl, List.append_nil] at happend
  rw [cut_field hk, hcut, pairs, pieces_of_notMem (by simp) (notMem_field hk hv.noAmpersand),
    List.map_singleton, pair_eq hk, hv.decode_eq]

/-- A value that is read back stands for itself. -/
theorem plain_of_untilStop (hrest : ∀ b ∈ rest.head?, b = ampersand)
    (h : decode (untilStop (value ++ rest)) = value) : Plain value := by
  rw [untilStop, List.takeWhile_append] at h
  split at h
  · rename_i hlen
    have hwhole := (List.takeWhile_prefix _).eq_of_length hlen
    have hall : ∀ b ∈ value, b ≠ ampersand ∧ b ≠ hash := by
      intro b hb
      rw [← hwhole] at hb
      simpa using List.mem_takeWhile_imp hb
    have hstop : rest.takeWhile (fun b => decide (b ≠ ampersand ∧ b ≠ hash)) = [] := by
      cases rest with
      | nil => rfl
      | cons b rest => exact List.takeWhile_cons_of_neg (by simp [hrest b rfl])
    rw [hstop, List.append_nil] at h
    obtain ⟨hplus, hescape⟩ := decode_eq_self.mp h
    exact ⟨fun hmem => (hall _ hmem).1 rfl, fun hmem => (hall _ hmem).2 rfl, hplus, hescape⟩
  · rename_i hlen
    have hle := (List.takeWhile_prefix (l := value)
      (fun b => decide (b ≠ ampersand ∧ b ≠ hash))).length_le
    have hdecode := length_decode_le
      (value.takeWhile fun b => decide (b ≠ ampersand ∧ b ≠ hash))
    rw [h] at hdecode
    exact absurd (le_antisymm hle hdecode) hlen

theorem one_field_iff (hk : Key key) :
    pairs (cut (key ++ equals :: value)) = [(key, value)] ↔ Plain value := by
  constructor
  · intro h
    obtain ⟨more, hmore⟩ := pairs_cut_head hk value
    rw [hmore] at h
    have hvalue : decode (untilStop (value ++ [])) = value := by
      rw [List.append_nil]
      exact congrArg Prod.snd (List.cons.inj h).1
    have hrest : ∀ b ∈ ([] : List Byte).head?, b = ampersand := fun _ hb => by cases hb
    exact plain_of_untilStop hrest hvalue
  · intro hv
    exact pairs_cut_last hk hv

theorem two_fields_iff {key' value' : List Byte} (hk : Key key) (hk' : Key key') :
    pairs (cut (key ++ equals :: (value ++ ampersand :: (key' ++ equals :: value')))) =
        [(key, value), (key', value')] ↔ Plain value ∧ Plain value' := by
  constructor
  · intro h
    obtain ⟨more, hmore⟩ := pairs_cut_head hk (value ++ ampersand :: (key' ++ equals :: value'))
    have hrest : ∀ b ∈ (ampersand :: (key' ++ equals :: value')).head?, b = ampersand :=
      fun _ hb => (Option.some.inj hb).symm
    have hv : Plain value := by
      rw [hmore] at h
      exact plain_of_untilStop hrest (congrArg Prod.snd (List.cons.inj h).1)
    rw [pairs_cut_cons hk hv] at h
    exact ⟨hv, (one_field_iff hk').mp (List.cons.inj h).2⟩
  · intro ⟨hv, hv'⟩
    rw [pairs_cut_cons hk hv, pairs_cut_last hk' hv']

end Fields

end Hamster.Lib.Query
