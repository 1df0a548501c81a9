import Hamster.Contract.Integrity
import Hamster.Store.Alike
import Hamster.SunRpc.Client

/-!
# What a SunRPC server keeps between requests

Two service processes with other requests behind them, the same database and the same
request at the same time. Their results are the same but for `hmst_directory_rpc`, whose
handle names a descriptor of the process. Nothing is said here about the state that comes
with a failed `hmstr_howsdoing`, nor about the price of a failed `hmstr_readentry`.
-/
namespace Hamster.Contract.Leftovers

open Lib.Bytes Lib.Clock Lib.Posix Lib.RecordFile Lib.Runs Store Store.Entry Store.Library Store.Scans
  Store.Outcomes Store.Alike SunRpc
open Server.Handlers (howsdoing_state readentry_price)
open SunRpc.Client (emptyIfNull)
open Contract.Integrity (alice)

/-- A result without the state and the price of a failed call. -/
def spoken : Result → Result
  | .howsdoing retVal state => .howsdoing retVal (if 0 ≤ retVal.toInt then state else blankState)
  | .readentry treats owner name price =>
    .readentry treats owner name (if 0 ≤ treats.toInt then price else 0)
  | result => result

/-- The result of the next request, as far as it is spoken of; none if an assertion fails. -/
def answer (s : Service) (now : Timestamp) (argp : Args) : Option Result :=
  (s.request now argp).map fun x => spoken x.1

section Answers
variable {s s' : Service} {now : Timestamp} {id : BitVec 32}

/-- What the static variable held is not spoken of. -/
theorem howsdoing_spoken (w : World) (id : BitVec 32) (st : HmstrState) :
    (hmstrHowsdoing w id st).map (fun x => spoken (.howsdoing x.1 x.2.1)) =
      (hmstrHowsdoing w id blankState).map fun x => spoken (.howsdoing x.1 x.2.1) := by
  rcases howsdoing_state w id with ⟨w', he⟩ | ⟨x, he⟩
  · rw [he, he, Option.map_some, Option.map_some, spoken, spoken, if_neg notFound_neg,
      if_neg notFound_neg]
  · rw [he, he]

theorem readentry_spoken (w : World) (id : BitVec 32) (price : BitVec 16) :
    (hmstrReadentry w id blankName blankName price).map
        (fun x => spoken (.readentry x.1 x.2.1 x.2.2.1 x.2.2.2.1)) =
      (hmstrReadentry w id blankName blankName 0).map
        fun x => spoken (.readentry x.1 x.2.1 x.2.2.1 x.2.2.2.1) := by
  rcases readentry_price w id blankName blankName with ⟨w', he⟩ | ⟨x, he⟩
  · rw [he, he, Option.map_some, Option.map_some, spoken, spoken, if_neg notFound_neg,
      if_neg notFound_neg]
  · rw [he, he]

theorem answer_howsdoing (s : Service) (now : Timestamp) (id : BitVec 32) :
    answer s now (.howsdoing id) = (hmstrHowsdoing { s.world with now := now } id blankState).map
      fun x => spoken (.howsdoing x.1 x.2.1) := by
  rw [← howsdoing_spoken _ _ s.statics.state]
  exact (Option.map_map ..).trans (Option.map_map ..)

theorem answer_readentry (s : Service) (now : Timestamp) (id : BitVec 32) :
    answer s now (.readentry id) =
      (hmstrReadentry { s.world with now := now } id blankName blankName 0).map
        fun x => spoken (.readentry x.1 x.2.1 x.2.2.1 x.2.2.2.1) := by
  rw [← readentry_spoken _ _ s.statics.price]
  exact (Option.map_map ..).trans (Option.map_map ..)

theorem answer_collect (s : Service) (now : Timestamp) (owner : CString) :
    answer s now (.collect owner) =
      (hmstrCollect { s.world with now := now } (some owner)).map fun x => .collect x.1 :=
  (Option.map_map ..).trans (Option.map_map ..)

theorem answer_directory (h : SameStore { s.world with now := now } { s'.world with now := now })
    {p : BitVec 32} {o n : CString}
    (hh : SameHandle { s.world with now := now } { s'.world with now := now }
      (Args.directory p o n).call) :
    answer s now (.directory p o n) = answer s' now (.directory p o n) := by
  obtain ⟨hret, hp⟩ := directory_alike h hh
  show some (spoken (.directory (hmstrDirectory _ _ _ _).1 (.ofInt 32 (hmstrDirectory _ _ _ _).2.1))) =
    some (spoken (.directory (hmstrDirectory _ _ _ _).1 (.ofInt 32 (hmstrDirectory _ _ _ _).2.1)))
  rw [hret, hp]

end Answers

/-- Whatever requests the processes have behind them. -/
theorem answers_alike {s s' : Service} (h : SameStore s.world s'.world) (now : Timestamp)
    (argp : Args) (hh : SameHandle s.world s'.world argp.call) :
    answer s now argp = answer s' now argp := by
  have hnow : SameStore { s.world with now := now } { s'.world with now := now } :=
    ⟨h.reliable, ⟨⟨h.apart.1.old, h.apart.1.apart⟩, ⟨h.apart.2.old, h.apart.2.apart⟩⟩, h.content⟩
  cases argp with
  | new owner hamster treats =>
    exact congrArg (fun x => some (Result.new x)) (new_alike hnow owner hamster treats)
  | lookup owner hamster =>
    exact congrArg (fun x => some (Result.lookup x)) (lookup_alike hnow (some owner) (some hamster))
  | givetreats id treats =>
    exact congrArg (fun x => some (Result.givetreats x)) (givetreats_alike hnow id treats)
  | directory fdptr owner hamster => exact answer_directory hnow hh
  | howsdoing id =>
    have hsame := congrArg (Option.map fun x => spoken (.howsdoing x.1 x.2))
      (howsdoing_alike hnow rfl id blankState)
    rw [Option.map_map, Option.map_map] at hsame
    rw [answer_howsdoing, answer_howsdoing]
    exact hsame
  | readentry id =>
    have hsame := congrArg (Option.map fun x => spoken (.readentry x.1 x.2.1 x.2.2.1 x.2.2.2))
      (readentry_alike hnow rfl id blankName blankName 0)
    rw [Option.map_map, Option.map_map] at hsame
    rw [answer_readentry, answer_readentry]
    exact hsame
  | collect owner =>
    have hsame := congrArg (Option.map fun x => Result.collect x)
      (collect_alike hnow rfl (some owner))
    rw [Option.map_map, Option.map_map] at hsame
    rw [answer_collect, answer_collect]
    exact hsame

/-- Reachable databases with the same content will do. -/
theorem sameStore_of_runs {s s' t t' : Session} (hs : s.Fresh) (hs' : s'.Fresh)
    {tr tr' : List (Event Session Store.Input Reply)} (h : Runs s tr t) (h' : Runs s' tr' t')
    (hc : t.world.content .datafile = t'.world.content .datafile) : SameStore t.world t'.world := by
  obtain ⟨_, a, -, ha, -⟩ := Asylum.reachable_represents hs h
  obtain ⟨_, a', -, ha', -⟩ := Asylum.reachable_represents hs' h'
  have hw := Asylum.settled_of_represents ha
  have hw' := Asylum.settled_of_represents ha'
  exact ⟨⟨hw.reliable, hw'.reliable⟩, ⟨hw.apart, hw'.apart⟩, hc⟩

/-- A directory request without a filter. -/
def listing (fdptr : BitVec 32) : Args :=
  .directory fdptr (emptyIfNull none) (emptyIfNull none)

/-- A service on the database of one hamster. -/
def kennel (statics : Statics) : Service := ⟨(Session.ofOne .epoch alice alice 0).world, statics⟩

theorem sameStore_kennel (statics statics' : Statics) :
    SameStore (kennel statics).world (kennel statics').world :=
  sameStore_of_runs Session.fresh_initial Session.fresh_initial (Session.runs_ofOne ..)
    (Session.runs_ofOne ..) rfl

/-- One process has told the state of a hamster before, the other has not. -/
theorem inquiry_alike :
    answer (kennel ⟨⟨5, 2, 17⟩, 0⟩) .epoch (.howsdoing (makeHash alice alice)) =
      answer (kennel ⟨blankState, 0⟩) .epoch (.howsdoing (makeHash alice alice)) :=
  answers_alike (sameStore_kennel ..) .epoch (.howsdoing (makeHash alice alice)) trivial

section Kennel
variable {w : World} {h : Hamsterdesc}

/-- The only entry is delivered, and the descriptor has moved behind it. -/
theorem directory_first (hr : w.Reliable) (hn : w.names .datafile = some 0)
    (hc : w.inodes 0 = h.toBytes) : hmstrDirectory w (-1) none none =
      (h.uid, (w.lowestFree : Int), w.setDesc w.lowestFree (.file 0 96 false)) := by
  have hopens := directory_opens (o := none) (n := none) hr hn (show (-1 : Int) < 0 by decide) rfl
  have hcont : ((w.setDesc w.lowestFree (.file 0 0 false)).inodes 0).drop 0 =
      image ([] ++ h :: []) ++ [] := by
    rw [Sys.setDesc_inodes, hc, List.drop_zero]
    simp
  have hrest : (w.setDesc w.lowestFree (.file 0 0 false)).Reliable := hr
  rw [hopens, directory_hit hrest (lookup_setDesc ..) rfl hcont nofun rfl, Sys.setDesc_setDesc]
  rfl

/-- There is nothing behind it. -/
theorem directory_last {fd : Nat} (hr : w.Reliable) (hc : w.inodes 0 = h.toBytes) :
    (hmstrDirectory (w.setDesc fd (.file 0 96 false)) fd none none).1 = hmstrErrNotFound := by
  have hcont : ((w.setDesc fd (.file 0 96 false)).inodes 0).drop 96 = image [] ++ [] := by
    rw [Sys.setDesc_inodes, hc, ← h.length_toBytes, List.drop_length]
    rfl
  have hrest : (w.setDesc fd (.file 0 96 false)).Reliable := hr
  rw [directory_end hrest (lookup_setDesc ..) rfl hcont (by decide) nofun, if_pos rfl]

theorem request_directory (hnow : w.now = .epoch) (statics : Statics) (p : BitVec 32) :
    Service.request ⟨w, statics⟩ .epoch (listing p) =
      some (.directory (hmstrDirectory w p.toInt none none).1
          (.ofInt 32 (hmstrDirectory w p.toInt none none).2.1),
        ⟨(hmstrDirectory w p.toInt none none).2.2, statics⟩) := by
  rw [← hnow]
  rfl

/-- A handle that one process has given out means nothing to another. -/
theorem handle_unknown (hr : w.Reliable) (hn : w.names .datafile = some 0)
    (hc : w.inodes 0 = h.toBytes) (hlow : w.lowestFree = 0) (hnow : w.now = .epoch)
    (statics : Statics) :
    Service.request ⟨w, statics⟩ .epoch (listing (-1)) =
        some (.directory h.uid 0, ⟨w.setDesc 0 (.file 0 96 false), statics⟩) ∧
      (Service.request ⟨w, statics⟩ .epoch (listing 0)).map Prod.fst ≠
        (Service.request ⟨w.setDesc 0 (.file 0 96 false), statics⟩ .epoch (listing 0)).map
          Prod.fst := by
  have hfree : 0 ∉ w.fds := by
    rw [← hlow]
    exact w.lowestFree_notMem
  have hfirst := directory_first hr hn hc
  rw [hlow] at hfirst
  have hclosed : hmstrDirectory w (0 : BitVec 32).toInt none none =
      (hmstrErrCorrupt, -1, w.close 0) := directory_closed hr hfree rfl
  have hlast : (hmstrDirectory (w.setDesc 0 (.file 0 96 false)) (0 : BitVec 32).toInt none none).1 =
      hmstrErrNotFound := directory_last hr hc
  constructor
  · rw [request_directory hnow, show (-1 : BitVec 32).toInt = -1 from rfl, hfirst]
    rfl
  · rw [request_directory hnow, request_directory (w := w.setDesc 0 _) hnow, hclosed]
    intro he
    have hret := (Result.directory.inj (Option.some.inj he)).1
    rw [hlast] at hret
    exact absurd (show hmstrErrCorrupt = hmstrErrNotFound from hret) (by decide)

end Kennel

/-- The second process has a descriptor open for a client of its own. -/
theorem directory_differs : ∃ (s t : Service) (r : Result),
    s.request .epoch (listing (-1)) = some (r, t) ∧ SameStore s.world t.world ∧
      (s.request .epoch (listing 0)).map Prod.fst ≠
        (t.request .epoch (listing 0)).map Prod.fst := by
  have hsame := sameStore_kennel ⟨blankState, 0⟩ ⟨blankState, 0⟩
  have hworld : (kennel ⟨blankState, 0⟩).world = _ := Session.ofOne_world (by decide)
  have hlow : (kennel ⟨blankState, 0⟩).world.lowestFree = 0 := Session.lowestFree_ofOne (by decide)
  have hc : (kennel ⟨blankState, 0⟩).world.inodes 0 = (newEntry .epoch alice alice 0).toBytes := by
    rw [hworld, Sys.setInode_inodes, Function.update_self]
  obtain ⟨hopened, hdiffers⟩ := handle_unknown hsame.reliable.1 (by rw [hworld]; rfl) hc hlow
    (by rw [hworld]; rfl) ⟨blankState, 0⟩
  exact ⟨_, _, _, hopened, ⟨hsame.reliable, ⟨hsame.apart.1, ⟨hsame.apart.1.old, hsame.apart.1.apart⟩⟩,
    rfl⟩, hdiffers⟩

end Hamster.Contract.Leftovers
