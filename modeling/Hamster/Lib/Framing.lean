import Mathlib.Tactic.Common

/-!
# Cutting a stream into messages

A message is a header of fixed size and a body whose length the header gives. A
stream is cut from the front; a last message that is not complete is dropped.
-/
namespace Hamster.Lib.Framing

variable {α : Type} (size : Nat) (bodyLength : List α → Nat)

def cutFuel : Nat → List α → List (List α × List α)
  | 0, _ => []
  | fuel + 1, stream =>
    let header := stream.take size
    let behind := stream.drop size
    if size ≤ stream.length ∧ bodyLength header ≤ behind.length then
      (header, behind.take (bodyLength header)) ::
        cutFuel fuel (behind.drop (bodyLength header))
    else []

/-- The complete messages of a stream. Each takes at least a byte, so the length
of the stream is fuel enough. -/
def cut (stream : List α) : List (List α × List α) :=
  cutFuel size bodyLength stream.length stream

variable {size bodyLength} {header body rest stream : List α} {fuel : Nat}

theorem cutFuel_cons (hh : header.length = size) (hb : body.length = bodyLength header) :
    cutFuel size bodyLength (fuel + 1) (header ++ (body ++ rest)) =
      (header, body) :: cutFuel size bodyLength fuel rest := by
  have htake : (header ++ (body ++ rest)).take size = header := List.take_left' hh
  have hdrop : (header ++ (body ++ rest)).drop size = body ++ rest := List.drop_left' hh
  have hfits : size ≤ (header ++ (body ++ rest)).length ∧
      bodyLength header ≤ (body ++ rest).length := by
    simp only [List.length_append]
    omega
  rw [cutFuel]
  simp only [htake, hdrop, hfits, and_self, ↓reduceIte]
  rw [List.take_left' hb, List.drop_left' hb]

theorem cutFuel_nil (hs : 0 < size) (fuel : Nat) :
    cutFuel size bodyLength fuel [] = [] := by
  cases fuel with
  | zero => rfl
  | succ fuel =>
    have hnot : ¬ size ≤ ([] : List α).length := by
      rw [List.length_nil]
      omega
    rw [cutFuel, if_neg fun h => hnot h.1]

/-- Fuel beyond the number of bytes changes nothing. -/
theorem cutFuel_congr (hs : 0 < size) : ∀ {a b : Nat} {stream : List α}, stream.length ≤ a →
    stream.length ≤ b → cutFuel size bodyLength a stream = cutFuel size bodyLength b stream
  | 0, b, stream, ha, _ => by
    rw [List.length_eq_zero_iff.mp (Nat.le_zero.mp ha), cutFuel_nil hs, cutFuel_nil hs]
  | a + 1, 0, stream, _, hb => by
    rw [List.length_eq_zero_iff.mp (Nat.le_zero.mp hb), cutFuel_nil hs, cutFuel_nil hs]
  | a + 1, b + 1, stream, ha, hb => by
    rw [cutFuel, cutFuel]
    split
    · have hrest : ((stream.drop size).drop (bodyLength (stream.take size))).length <
          stream.length := by
        simp only [List.length_drop]
        omega
      rw [cutFuel_congr hs (Nat.le_of_lt_succ (Nat.lt_of_lt_of_le hrest ha))
        (Nat.le_of_lt_succ (Nat.lt_of_lt_of_le hrest hb))]
    · rfl

theorem cut_cons (hs : 0 < size) (hh : header.length = size)
    (hb : body.length = bodyLength header) :
    cut size bodyLength (header ++ (body ++ rest)) = (header, body) :: cut size bodyLength rest := by
  obtain ⟨k, hk⟩ : ∃ k, (header ++ (body ++ rest)).length = k + 1 :=
    ⟨size - 1 + body.length + rest.length, by simp only [List.length_append]; omega⟩
  have hrest : rest.length ≤ k := by
    simp only [List.length_append] at hk
    omega
  rw [cut, hk, cutFuel_cons hh hb, cutFuel_congr hs hrest (Nat.le_refl _), cut]

end Hamster.Lib.Framing
