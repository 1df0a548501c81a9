import Hamster.Contract.Failure
import Hamster.Contract.Integrity
import Hamster.Store.Faults

/-!
# No hamster vanishes unbilled

While calls to the file system may fail, an entry is in the database or in the file
`hmstr_collect` renamed it to until a collection returns a total that includes it.
There is one way to lose it: a collection that is interrupted leaves entries in the
renamed file only, and the next one whose `rename` succeeds puts the database in its
place.
-/
namespace Hamster.Contract.Backup

open Lib.Bytes Lib.Clock Lib.Posix Lib.Runs Store Store.Entry Store.Library Store.CollectScan
  Store.Amounts Store.Fields Store.Faults

/-- Neither file exists and no handle has been used. Calls may fail in any way. -/
structure Empty (s : Session) : Prop where
  datafile : s.world.names .datafile = none
  intermediateFile : s.world.names .intermediateFile = none
  handles : ∀ v, s.handle v = -1

/-- Owner, name and time of admission of a record. -/
abbrev Key := NameField × NameField × Timeval

/-- One of the two files has a record of that key. -/
def Present (w : World) (k : Key) : Prop :=
  ∃ f, k ∈ (entriesOf w f).map ident

/-- The event is a successful `hmstr_new` that writes a record of that key. -/
def Admits (e : Event Session Input Reply) (k : Key) : Prop :=
  ∃ o n t, e.input.2 = .new o n t ∧ 0 ≤ e.output.ret.toInt ∧ k = ident (newEntry e.input.1 o n t)

/-- The event is an `hmstr_collect` that takes a record of that key out of the database
and returns the total of all it takes out. -/
def Bills (e : Event Session Input Reply) (k : Key) : Prop :=
  ∃ o m, e.input.2 = .collect (some o) ∧ e.before.step e.input = some (e.output, m) ∧
    k ∈ (owned o (entriesOf e.before.world .datafile)).map ident ∧
    entriesOf m.world .datafile = others o (entriesOf e.before.world .datafile) ∧
    m.world.names .intermediateFile = none ∧
    e.output.ret = BitVec.ofInt 32 (owed e.input.1 o (entriesOf e.before.world .datafile))

/-- Every record written is still there, or has been billed since. -/
def Accounted (tr : List (Event Session Input Reply)) (t : Session) : Prop :=
  ∀ pre e post k, tr = pre ++ e :: post → Admits e k →
    Present t.world k ∨ ∃ c ∈ post, Bills c k

/-- That is so after each call. -/
def NoneVanishes (s : Session) (tr : List (Event Session Input Reply)) : Prop :=
  ∀ tr₁ tr₂ t, tr = tr₁ ++ tr₂ → Runs s tr₁ t → Accounted tr₁ t

/-- A collection renames the database over a file that has a record the database does
not have. -/
def Overwrites (e : Event Session Input Reply) : Prop :=
  ∃ o, e.input.2 = .collect (some o) ∧ Renames e.before.world o ∧
    ∃ h ∈ entriesOf e.before.world .intermediateFile,
      ident h ∉ (entriesOf e.before.world .datafile).map ident

section Step
variable {s t : Session} {i : Input} {r : Reply} {k : Key}

theorem Empty.sound (h : Empty s) : Sound s.world := by
  have hnone (f : StoreFile) : s.world.names f = none := by
    cases f
    · exact h.datafile
    · exact h.intermediateFile
  constructor
  · intro f ino hf
    rw [hnone f] at hf
    cases hf
  · intro f f' ino hf
    rw [hnone f] at hf
    cases hf
  · intro f ino hf
    rw [hnone f] at hf
    cases hf

theorem Empty.not_present (h : Empty s) (k : Key) : ¬ Present s.world k := by
  rintro ⟨f, hf⟩
  cases f
  · rw [entriesOf_absent h.datafile] at hf
    cases hf
  · rw [entriesOf_absent h.intermediateFile] at hf
    cases hf

theorem step_effect (hs : Sound s.world) (h : s.step i = some (r, t)) :
    Sound t.world ∧ Effect (s.clockAt i.1) (i.2.map s.handle) r.ret t.world := by
  obtain ⟨⟨r', w'⟩, hexec, hsettle⟩ := Option.map_eq_some_iff.mp h
  have hsound : Sound (s.clockAt i.1) := ⟨hs.old, hs.apart, hs.whole⟩
  have heffect := exec_effect hsound hexec
  have hkept := s.settle_spec i.2 r' w'
  rw [show s.settle i.2 r' w' = (r, t) from hsettle] at hkept
  rwa [hkept.1, hkept.2]

theorem map_eq_new {c : Call Nat} {f : Nat → Int} {o n : CString} {t : BitVec 16}
    (h : c.map f = .new o n t) : c = .new o n t := by
  cases c <;> cases h
  rfl

theorem map_eq_collect {c : Call Nat} {f : Nat → Int} {o : Option CString}
    (h : c.map f = .collect o) : c = .collect o := by
  cases c <;> cases h
  rfl

theorem owned_or_others {hs : List Hamsterdesc} (o : CString) (hk : k ∈ hs.map ident) :
    k ∈ (owned o hs).map ident ∨ k ∈ (others o hs).map ident := by
  obtain ⟨h, hmem, rfl⟩ := List.mem_map.mp hk
  by_cases ho : h.ownerStr = o
  · exact .inl (List.mem_map_of_mem (List.mem_filter.mpr ⟨hmem, by simpa using ho⟩))
  · exact .inr (List.mem_map_of_mem (List.mem_filter.mpr ⟨hmem, by simpa using ho⟩))

/-- The key says whose record it is. -/
theorem not_owned_and_others {hs : List Hamsterdesc} {o : CString} (hl : tooLong o = false)
    (hk : k ∈ (owned o hs).map ident) (hk' : k ∈ (others o hs).map ident) : False := by
  obtain ⟨h, hmem, rfl⟩ := List.mem_map.mp hk
  obtain ⟨h', hmem', he⟩ := List.mem_map.mp hk'
  have howner : h.ownerStr = o := by simpa using (List.mem_filter.mp hmem).2
  have hother : h'.ownerStr ≠ o := by simpa using (List.mem_filter.mp hmem').2
  exact hother ((ownerStr_congr hl (congrArg (·.1) he)).mpr howner)

theorem mem_of_owned {hs : List Hamsterdesc} {o : CString} (hk : k ∈ (owned o hs).map ident) :
    k ∈ hs.map ident := by
  obtain ⟨h, hmem, rfl⟩ := List.mem_map.mp hk
  exact List.mem_map_of_mem (List.mem_of_mem_filter hmem)

theorem mem_of_others {hs : List Hamsterdesc} {o : CString} (hk : k ∈ (others o hs).map ident) :
    k ∈ hs.map ident := by
  obtain ⟨h, hmem, rfl⟩ := List.mem_map.mp hk
  exact List.mem_map_of_mem (List.mem_of_mem_filter hmem)

/-- A record stays, or is billed, unless the call overwrites it. -/
theorem present_step (hs : Sound s.world) (h : s.step i = some (r, t))
    (hover : ¬ Overwrites ⟨s, i, r⟩) (hk : Present s.world k) :
    Present t.world k ∨ Bills ⟨s, i, r⟩ k := by
  obtain ⟨now, c⟩ := i
  have heffect := (step_effect hs h).2
  have hdatabase {o : CString} (hc : c.map s.handle = .collect (some o))
      (hren : Renames s.world o) : k ∈ (entriesOf s.world .datafile).map ident := by
    obtain ⟨f, hf⟩ := hk
    cases f with
    | datafile => exact hf
    | intermediateFile =>
      by_contra hno
      obtain ⟨x, hx, rfl⟩ := List.mem_map.mp hf
      exact hover ⟨o, map_eq_collect hc, hren, x, hx, hno⟩
  generalize hc : c.map s.handle = c' at heffect hdatabase
  cases heffect with
  | unchanged hdata hold hnew hcollect =>
    obtain ⟨f, hf⟩ := hk
    cases f with
    | datafile => exact .inl ⟨.datafile, by rw [hdata]; exact hf⟩
    | intermediateFile => exact .inl ⟨.intermediateFile, by rw [hold]; exact hf⟩
  | admitted hdata hold hret =>
    obtain ⟨f, hf⟩ := hk
    cases f with
    | datafile =>
      refine .inl ⟨.datafile, ?_⟩
      rw [hdata, List.map_append]
      exact List.mem_append_left _ hf
    | intermediateFile => exact .inl ⟨.intermediateFile, by rw [hold]; exact hf⟩
  | @collected o _ _ hren hdata hold hret =>
    rcases owned_or_others o (hdatabase rfl hren) with howned | hother
    · have hne : owned o (entriesOf s.world .datafile) ≠ [] := by
        intro he
        rw [he] at howned
        cases howned
      exact .inr ⟨o, t, map_eq_collect hc, h, howned, hdata, hold, hret hne⟩
    · exact .inl ⟨.datafile, by rw [hdata]; exact hother⟩
  | interrupted hren hdata hold hleft =>
    exact .inl ⟨.intermediateFile, by rw [hold]; exact hdatabase rfl hren⟩

/-- A record that a successful admission writes is there after it. -/
theorem present_of_admits (hs : Sound s.world) (h : s.step i = some (r, t))
    (hk : Admits ⟨s, i, r⟩ k) : Present t.world k := by
  obtain ⟨now, c⟩ := i
  obtain ⟨o, n, treats, hc, hpos, rfl⟩ := hk
  have heffect := (step_effect hs h).2
  dsimp only at hc heffect
  subst hc
  rw [Call.map] at heffect
  cases heffect with
  | unchanged hdata hold hnew hcollect => exact absurd hpos (Int.not_le.mpr (hnew o n treats rfl))
  | admitted hdata hold hret =>
    refine ⟨.datafile, ?_⟩
    rw [hdata, List.map_append]
    exact List.mem_append_right _ (List.mem_singleton_self _)

/-- A collection that bills a record has emptied the file it renamed. -/
theorem collected_of_bills (hs : Sound s.world) (h : s.step i = some (r, t))
    (hb : Bills ⟨s, i, r⟩ k) : ∃ o, tooLong o = false ∧
      k ∈ (owned o (entriesOf s.world .datafile)).map ident ∧
      entriesOf t.world .datafile = others o (entriesOf s.world .datafile) ∧
      t.world.names .intermediateFile = none := by
  obtain ⟨now, c⟩ := i
  obtain ⟨o, m, hc, hstep, howned, hdata, hold, -⟩ := hb
  obtain rfl : t = m := congrArg Prod.snd (Option.some.inj (h.symm.trans hstep))
  have heffect := (step_effect hs h).2
  dsimp only at hc heffect
  subst hc
  rw [Call.map] at heffect
  refine ⟨o, ?_, howned, hdata, hold⟩
  cases heffect with
  | unchanged hsame hold' hnew hcollect =>
    -- as many records as before, and one of them gone
    have hlen := congrArg List.length hsame
    rw [List.length_map, List.length_map, hdata] at hlen
    have hne : owned o (entriesOf s.world .datafile) ≠ [] := by
      intro he
      rw [he] at howned
      cases howned
    exact absurd hlen (Failure.length_others_lt hne).ne
  | collected hren => exact hren.1
  | interrupted hren => exact hren.1

/-- A record that is there has just been admitted, or was there before and has not
been billed. -/
theorem present_before (hs : Sound s.world) (h : s.step i = some (r, t))
    (hk : Present t.world k) :
    Admits ⟨s, i, r⟩ k ∨ (Present s.world k ∧ ¬ Bills ⟨s, i, r⟩ k) := by
  have hunbilled : ¬ Bills ⟨s, i, r⟩ k := by
    intro hb
    obtain ⟨o, hl, howned, hdata, hold⟩ := collected_of_bills hs h hb
    obtain ⟨f, hf⟩ := hk
    cases f with
    | datafile =>
      rw [hdata] at hf
      exact not_owned_and_others hl howned hf
    | intermediateFile =>
      rw [entriesOf_absent hold] at hf
      cases hf
  obtain ⟨now, c⟩ := i
  have heffect := (step_effect hs h).2
  generalize hc : c.map s.handle = c' at heffect
  obtain ⟨f, hf⟩ := hk
  cases heffect with
  | unchanged hdata hold hnew hcollect =>
    refine .inr ⟨?_, hunbilled⟩
    cases f with
    | datafile => exact ⟨.datafile, by rw [hdata] at hf; exact hf⟩
    | intermediateFile => exact ⟨.intermediateFile, by rw [hold] at hf; exact hf⟩
  | @admitted o n treats _ _ hdata hold hret =>
    cases f with
    | datafile =>
      rw [hdata, List.map_append] at hf
      rcases List.mem_append.mp hf with hf | hf
      · exact .inr ⟨⟨.datafile, hf⟩, hunbilled⟩
      · exact .inl ⟨o, n, treats, map_eq_new hc, hret, List.mem_singleton.mp hf⟩
    | intermediateFile =>
      rw [hold] at hf
      exact .inr ⟨⟨.intermediateFile, hf⟩, hunbilled⟩
  | collected hren hdata hold hret =>
    refine .inr ⟨⟨.datafile, ?_⟩, hunbilled⟩
    cases f with
    | datafile =>
      rw [hdata] at hf
      exact mem_of_others hf
    | intermediateFile =>
      rw [entriesOf_absent hold] at hf
      cases hf
  | interrupted hren hdata hold hleft =>
    refine .inr ⟨⟨.datafile, ?_⟩, hunbilled⟩
    cases f with
    | datafile => exact List.map_subset _ hdata hf
    | intermediateFile =>
      rw [hold] at hf
      exact hf

/-- An overwritten record is gone and not billed. -/
theorem lost_of_overwrites (hs : Sound s.world) (h : s.step i = some (r, t))
    (hover : Overwrites ⟨s, i, r⟩) :
    ∃ k, Present s.world k ∧ ¬ Present t.world k ∧ ¬ Bills ⟨s, i, r⟩ k := by
  obtain ⟨now, c⟩ := i
  obtain ⟨o, hc, hren, x, hx, hno⟩ := hover
  have heffect := (step_effect hs h).2
  have hbills : ¬ Bills ⟨s, (now, c), r⟩ (ident x) := by
    intro hb
    obtain ⟨_, -, howned, -⟩ := collected_of_bills hs h hb
    exact hno (mem_of_owned howned)
  refine ⟨ident x, ⟨.intermediateFile, List.mem_map_of_mem hx⟩, ?_, hbills⟩
  dsimp only at hc heffect
  subst hc
  rw [Call.map] at heffect
  rintro ⟨f, hf⟩
  cases heffect with
  | unchanged hdata hold hnew hcollect => exact hcollect o rfl hren
  | collected _ hdata hold hret =>
    cases f with
    | datafile =>
      rw [hdata] at hf
      exact hno (mem_of_others hf)
    | intermediateFile =>
      rw [entriesOf_absent hold] at hf
      cases hf
  | interrupted _ hdata hold hleft =>
    cases f with
    | datafile => exact hno (List.map_subset _ hdata hf)
    | intermediateFile =>
      rw [hold] at hf
      exact hno hf

end Step

section Runs
variable {s t : Session} {tr : List (Event Session Input Reply)}

/-- Every record that is there was admitted, and has not been billed since. -/
def Traced (tr : List (Event Session Input Reply)) (t : Session) : Prop :=
  ∀ k, Present t.world k → ∃ pre e post, tr = pre ++ e :: post ∧ Admits e k ∧
    ∀ c ∈ post, ¬ Bills c k

theorem traced_of_runs (hs : Empty s) (h : Runs s tr t) : Sound t.world ∧ Traced tr t := by
  refine h.extend (P := fun tr t => Sound t.world ∧ Traced tr t)
    ⟨hs.sound, fun k hk => absurd hk (hs.not_present k)⟩ ?_
  rintro tr m i r t ⟨hm, htraced⟩ hstep
  refine ⟨(step_effect hm hstep).1, fun k hk => ?_⟩
  rcases present_before hm hstep hk with hadmits | ⟨hpresent, hbills⟩
  · exact ⟨tr, _, [], rfl, hadmits, nofun⟩
  · obtain ⟨pre, e, post, rfl, he, hpost⟩ := htraced k hpresent
    refine ⟨pre, e, post ++ [⟨m, i, r⟩], by simp, he, fun c hc => ?_⟩
    rcases List.mem_append.mp hc with hc | hc
    · exact hpost c hc
    · rw [List.mem_singleton.mp hc]
      exact hbills

theorem accounted_step {m : Session} {i : Input} {r : Reply} (hm : Sound m.world)
    (hacc : Accounted tr m) (hstep : m.step i = some (r, t)) (hover : ¬ Overwrites ⟨m, i, r⟩) :
    Accounted (tr ++ [⟨m, i, r⟩]) t := by
  intro pre e post k hsplit hadmits
  rcases List.eq_nil_or_concat' post with rfl | ⟨mid, last, rfl⟩
  · obtain ⟨-, he⟩ := List.append_inj' hsplit rfl
    cases he
    exact .inl (present_of_admits hm hstep hadmits)
  · have hsplit' : tr ++ [⟨m, i, r⟩] = (pre ++ e :: mid) ++ [last] := by
      rw [hsplit, List.append_assoc, List.cons_append]
    obtain ⟨htr, hlast⟩ := List.append_inj' hsplit' rfl
    cases hlast
    rcases hacc pre e mid k htr hadmits with hpresent | ⟨c, hc, hbills⟩
    · rcases present_step hm hstep hover hpresent with hstill | hbills
      · exact .inl hstill
      · exact .inr ⟨_, by simp, hbills⟩
    · exact .inr ⟨c, by simp [hc], hbills⟩

theorem accounted_of_runs (hs : Empty s) (h : Runs s tr t) :
    Sound t.world ∧ ((∀ e ∈ tr, ¬ Overwrites e) → Accounted tr t) := by
  refine h.extend
    (P := fun tr t => Sound t.world ∧ ((∀ e ∈ tr, ¬ Overwrites e) → Accounted tr t))
    ⟨hs.sound, fun _ pre e post k hsplit => by simp at hsplit⟩ ?_
  rintro tr m i r t ⟨hm, hacc⟩ hstep
  refine ⟨(step_effect hm hstep).1, fun hover => ?_⟩
  exact accounted_step hm (hacc fun e he => hover e (by simp [he])) hstep (hover _ (by simp))

/-- Where nothing vanishes nothing was overwritten. -/
theorem not_overwrites_of_noneVanishes (hs : Empty s) (h : Runs s tr t)
    (hnone : NoneVanishes s tr) : ∀ e ∈ tr, ¬ Overwrites e := by
  intro e he hover
  obtain ⟨pre, post, rfl⟩ := List.append_of_mem he
  obtain ⟨hrun, m, hstep, -⟩ := h.split_at
  obtain ⟨hsound, htraced⟩ := traced_of_runs hs hrun
  obtain ⟨k, hbefore, hgone, hunbilled⟩ := lost_of_overwrites hsound hstep hover
  obtain ⟨pre₁, a, post₁, rfl, hadmits, hpost⟩ := htraced k hbefore
  have hprefix : pre₁ ++ a :: post₁ ++ e :: post = (pre₁ ++ a :: post₁ ++ [e]) ++ post := by simp
  have hacc := hnone _ _ _ hprefix (hrun.append (.single hstep))
  rcases hacc pre₁ a (post₁ ++ [e]) k (by simp) hadmits with hstill | ⟨c, hc, hbills⟩
  · exact hgone hstill
  · rcases List.mem_append.mp hc with hc | hc
    · exact hpost c hc hbills
    · rw [List.mem_singleton.mp hc] at hbills
      exact hunbilled hbills

/-- In every run from the empty store no record vanishes unbilled, just when no
collection overwrites one. -/
theorem noneVanishes_iff (hs : Empty s) (h : Runs s tr t) :
    NoneVanishes s tr ↔ ∀ e ∈ tr, ¬ Overwrites e := by
  refine ⟨not_overwrites_of_noneVanishes hs h, fun hover tr₁ tr₂ m hsplit hrun => ?_⟩
  refine (accounted_of_runs hs hrun).2 fun e he => hover e ?_
  rw [hsplit]
  exact List.mem_append_left _ he

end Runs

open Integrity (alice bert hour arriving)

/-- One of two hamsters is collected, and comes back. -/
def returning : List Input :=
  arriving ++ [(hour 3, .collect (some alice)), (hour 4, .new alice bert 1)]

theorem noneVanishes_first :
    NoneVanishes Session.initial (trace Session.step Session.initial returning).1 := by
  refine (noneVanishes_iff ⟨rfl, rfl, fun _ => rfl⟩ (Run.of_trace returning Session.initial)).mpr ?_
  have hclear : ∀ e ∈ (trace Session.step Session.initial returning).1,
      entriesOf e.before.world .intermediateFile = [] := by decide +kernel
  rintro e he ⟨o, -, -, h, hh, -⟩
  rw [hclear e he] at hh
  cases hh

/-- The empty store, where the fifth call to the file system is going to fail. -/
def unlucky : Session :=
  { Session.initial with
    world := { Session.initial.world with faults := [false, false, false, false, true] } }

/-- The failing call is the one that opens the renamed database. -/
def upsets : List Input :=
  [(.epoch, .new alice bert 0), (.epoch, .collect (some alice)), (.epoch, .new bert alice 0)]

/-- One fault and two healthy calls later the first hamster is gone. -/
theorem hamster_vanishes : ∃ s tr t, Empty s ∧ Runs s tr t ∧ ¬ NoneVanishes s tr := by
  have hrun : Runs unlucky (trace Session.step unlucky upsets).1
      (trace Session.step unlucky upsets).2 := .of_trace upsets unlucky
  obtain ⟨⟨r, t⟩, hstep⟩ := Option.isSome_iff_exists.mp
    (show ((trace Session.step unlucky upsets).2.step
      (.epoch, .collect (some bert))).isSome = true by decide +kernel)
  have hren : Renames (trace Session.step unlucky upsets).2.world bert :=
    ⟨by decide, by decide +kernel, by decide +kernel⟩
  have hlacks : ∃ h ∈ entriesOf (trace Session.step unlucky upsets).2.world .intermediateFile,
      ident h ∉ (entriesOf (trace Session.step unlucky upsets).2.world .datafile).map ident := by
    decide +kernel
  have hover : Overwrites ⟨(trace Session.step unlucky upsets).2,
      (.epoch, .collect (some bert)), r⟩ := ⟨bert, rfl, hren, hlacks⟩
  have hempty : Empty unlucky := ⟨rfl, rfl, fun _ => rfl⟩
  have hall := hrun.append (.single hstep)
  refine ⟨_, _, _, hempty, hall, fun hnone => ?_⟩
  exact not_overwrites_of_noneVanishes hempty hall hnone _ (by simp) hover

end Hamster.Contract.Backup
