import Hamster.Rest.Lookups

/-!
# The record of a hamster, read back

A name of one word comes back with everything behind it. A `%s` stops at the first white
space in a name, and what it leaves keeps the variables behind it from being assigned.
-/
namespace Hamster.Contract.RestRecords

open Lib.Bytes Lib.Scanf Store.Entry Rest.Helpers Rest.Lookups

/-- The names a record may have. -/
structure Named (r : Record) : Prop where
  nonempty : r.hamsterName ≠ []
  fits : r.hamsterName.length ≤ hmstrMaxName
  line : newline ∉ r.hamsterName
  string : (0 : Byte) ∉ r.hamsterName

/-- What `howsdoing` reports of a record. -/
def stateOf (r : Record) : HmstrState := ⟨r.treats.setWidth 16, r.rounds, r.cost.setWidth 16⟩

section Reading
variable {σ : Type} {L : Link σ} {server server' : σ} {id : BitVec 32} {r : Record}
  {pieces : List (List Byte)}

/-- The transfer succeeds with the text of the record. `defaultURL` has 512 characters. -/
structure Reports (L : Link σ) (server : σ) (id : BitVec 32) (pieces : List (List Byte))
    (server' : σ) (r : Record) : Prop where
  curl : L.curl = true
  short : L.defaultURL.length < 512
  performed : L.perform server .get (L.defaultURL ++ (Target.hamster id).path) =
    (some pieces, server')
  text : pieces.flatten = recordText r

theorem fetch_reports (h : Reports L server id pieces server' r) :
    fetch L server (.hamster id) = some (recordText r, server') := by
  rw [fetch_ok L h.curl (inUrl_hamster L h.short id) h.performed, h.text]

theorem howsdoing_reports (h : Reports L server id pieces server' r) (state : HmstrState)
    (r' : Record) : hrestHelperHowsdoing L server id state r' =
      (scanRecord r' (recordText r)).map fun s => (hrestRetOk, stateOf s, server') := by
  have htext : ¬ (recordText r).length = 0 := mt List.length_eq_zero_iff.mp (recordText_ne_nil r)
  rw [hrestHelperHowsdoing, fetch_reports h, Option.bind_eq_bind, Option.bind_some]
  dsimp only
  rw [if_neg htext, Option.map_eq_bind]
  rfl

/-- For every record and whatever the variables hold before, all six are assigned to what was
printed, and reported so and listed so, just when the name has no white space in it. -/
theorem reads_back_iff (hr : Named r) (h : Reports L server id pieces server' r)
    (state : HmstrState) (r' : Record) :
    (scanRecord r' (recordText r) = some r ∧
        hrestHelperHowsdoing L server id state r' = some (hrestRetOk, stateOf r, server') ∧
        ∀ line lines printed, sscanf [] line r'.hamsterID = id →
          (∀ owner, printOwned L owner (line :: lines) server r' printed =
            printOwned L owner lines server' r
              (printed ++ [hrestHelperPrintHamster r owner.chars])) ∧
          ∀ ownerName, printAll L (line :: lines) server r' ownerName printed =
            askOwner L lines server' r ownerName printed) ↔
      ∀ b ∈ r.hamsterName, isSpace b = false := by
  constructor
  · intro ⟨hscan, _, _⟩
    exact name_of_scanRecord hr.string hscan
  · intro hs
    have hscan (r' : Record) : scanRecord r' (recordText r) = some r := by
      rw [scanRecord_recordText hr.nonempty hs hr.string, if_neg (Nat.not_lt.mpr hr.fits)]
    refine ⟨hscan r', ?_, fun line lines printed hline => ⟨?_, ?_⟩⟩
    · rw [howsdoing_reports h, hscan]
      rfl
    · exact printOwned_turn L hline (fetch_reports h) hscan lines printed
    · exact printAll_turn L hline (fetch_reports h) hscan lines printed

end Reading

/-- A server with this record under every number. -/
def single (r : Record) : Link Unit where
  curl := true
  defaultURL := []
  perform _ _ _ := (some [recordText r], ())

theorem reports_single (r : Record) (id : BitVec 32) :
    Reports (single r) () id [recordText r] () r :=
  ⟨rfl, by simp [single], rfl, List.flatten_singleton⟩

def goldie (hamsterName : List Byte) : Record := ⟨hamsterName, 3, 7, 12, 250, 19⟩

theorem named_goldie : Named (goldie (ascii "goldie")) :=
  ⟨by decide, by decide, by decide, by decide⟩

theorem reads_back_goldie :
    (scanRecord (goldie []) (recordText (goldie (ascii "goldie"))) =
          some (goldie (ascii "goldie")) ∧
        hrestHelperHowsdoing (single (goldie (ascii "goldie"))) () 3 ⟨0, 0, 0⟩ (goldie []) =
          some (hrestRetOk, stateOf (goldie (ascii "goldie")), ()) ∧
        ∀ line lines printed, sscanf [] line (goldie []).hamsterID = 3 →
          (∀ owner, printOwned (single (goldie (ascii "goldie"))) owner (line :: lines) () (goldie [])
              printed = printOwned (single (goldie (ascii "goldie"))) owner lines ()
                (goldie (ascii "goldie"))
                (printed ++ [hrestHelperPrintHamster (goldie (ascii "goldie")) owner.chars])) ∧
          ∀ ownerName, printAll (single (goldie (ascii "goldie"))) (line :: lines) () (goldie [])
              ownerName printed = askOwner (single (goldie (ascii "goldie"))) lines ()
                (goldie (ascii "goldie")) ownerName printed) ↔
      ∀ b ∈ (goldie (ascii "goldie")).hamsterName, isSpace b = false :=
  reads_back_iff named_goldie (reports_single _ 3) ⟨0, 0, 0⟩ (goldie [])

/-- With a blank in the name the numbers are what the variables held. -/
theorem blank_stops_reading :
    Named (goldie (ascii "my pet")) ∧
      scanRecord ⟨[], 0, 0, 0, 0, 0⟩ (recordText (goldie (ascii "my pet"))) =
        some ⟨ascii "my", 0, 0, 0, 0, 0⟩ ∧
      hrestHelperHowsdoing (single (goldie (ascii "my pet"))) () 3 ⟨0, 0, 0⟩ ⟨[], 0, 0, 0, 0, 0⟩ =
        some (hrestRetOk, ⟨0, 0, 0⟩, ()) ∧
      stateOf (goldie (ascii "my pet")) = ⟨12, 250, 19⟩ :=
  ⟨⟨by decide, by decide, by decide, by decide⟩, by decide +kernel, by decide +kernel,
    by decide +kernel⟩

end Hamster.Contract.RestRecords
