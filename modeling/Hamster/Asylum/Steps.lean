import Hamster.Asylum.Machine

/-!
# What one call does to the guests

`effect` says it once for all seven calls; what a run keeps is derived from it.
-/
namespace Hamster.Asylum

open Lib.Bytes Lib.Clock Store.Entry Store.Library

/-- The guests after a call that returned. -/
def effect (now : Timestamp) : Call Nat → List Guest → List Guest
  | .new o n treats, gs => join now o n treats gs
  | .givetreats id treats, gs => amendFirst id (·.feed treats) gs
  | .howsdoing id, gs => amendFirst id Guest.ask gs
  | .collect (some o), gs => gs.filter (·.owner.text ≠ o)
  | .lookup _ _, gs | .directory _ _ _, gs | .readentry _, gs | .collect none, gs => gs

theorem amendFirst_of_find {id : BitVec 32} {f : Guest → Guest} {gs : List Guest}
    (h : gs.find? (·.has id) = none) : amendFirst id f gs = gs :=
  List.lookmap_of_forall_not _ fun g hg => by
    simp [List.find?_eq_none.mp h g hg]

/-- The guest that an id resolves to is the one that changes. -/
theorem amendFirst_split {id : BitVec 32} {x : Guest} {gs : List Guest}
    (h : gs.find? (·.has id) = some x) (f : Guest → Guest) :
    ∃ pre post, gs = pre ++ x :: post ∧ (∀ y ∈ pre, y.has id = false) ∧
      amendFirst id f gs = pre ++ f x :: post := by
  induction gs with
  | nil => cases h
  | cons g gs ih =>
    rw [amendFirst_cons]
    cases hg : g.has id with
    | true =>
      rw [List.find?_cons_of_pos hg] at h
      cases h
      exact ⟨[], gs, rfl, by simp, rfl⟩
    | false =>
      rw [List.find?_cons_of_neg (by simp [hg])] at h
      obtain ⟨pre, post, rfl, hpre, he⟩ := ih h
      exact ⟨g :: pre, post, rfl, by simpa [hg] using hpre, by simp [he]⟩

/-- An overlong name belongs to nobody. -/
theorem ownedBy_of_tooLong {o : CString} (h : tooLong o = true) (gs : List Guest) :
    ownedBy o gs = [] := by
  rw [ownedBy, List.filter_eq_nil_iff]
  intro g _ he
  have hs := g.owner.short
  rw [of_decide_eq_true he, ← tooLong_eq_false_iff, h] at hs
  cases hs

theorem filter_of_ownedBy_nil {o : CString} {gs : List Guest} (h : ownedBy o gs = []) :
    gs.filter (·.owner.text ≠ o) = gs := by
  rw [ownedBy, List.filter_eq_nil_iff] at h
  exact List.filter_eq_self.mpr fun g hg => by simpa using h g hg

namespace State
variable {a b : State} {now : Timestamp} {c : Call Nat} {r : Reply}

theorem guests_amend (a : State) (id : BitVec 32) (f : Guest → Guest)
    (hf : ∀ g, (f g).key = g.key) : (a.amend id f hf).guests = amendFirst id f a.guests := by
  unfold amend guests
  cases a.register with
  | none => rfl
  | some r => rfl

theorem guests_directory (a : State) (v : Nat) (o n : Option CString) :
    (a.directory v o n).2.guests = a.guests := by
  unfold directory
  split
  · rfl
  · split <;> rfl

theorem guests_new (a : State) (now : Timestamp) (o n : CString) (treats : BitVec 16) :
    (a.new now o n treats).2.guests = effect now (.new o n treats) a.guests := by
  change _ = join now o n treats a.guests
  unfold new join
  by_cases h : o.strlen ≤ 31 ∧ n.strlen ≤ 31
  · rw [dif_pos h, dif_pos h]
    by_cases hk : (Guest.arrival now ⟨o, h.1⟩ ⟨n, h.2⟩ treats).key ∈
        (a.register.getD .empty).guests.map Guest.key
    · have hk' : ((⟨o, h.1⟩, ⟨n, h.2⟩) : Name × Name) ∈ a.guests.map Guest.key := hk
      rw [if_pos hk']
      dsimp only
      rw [dif_neg (not_not.mpr hk)]
    · have hk' : ((⟨o, h.1⟩, ⟨n, h.2⟩) : Name × Name) ∉ a.guests.map Guest.key := hk
      rw [if_neg hk']
      dsimp only
      rw [dif_pos hk]
      rfl
  · rw [dif_neg h, dif_neg h]

/-- Either the newcomer stands at the end and its id is returned, or an error is
returned and nobody was let in. -/
theorem new_spec (a : State) (now : Timestamp) (o n : CString) (treats : BitVec 16) :
    (∃ ho hn, (a.new now o n treats).1.ret = makeHash o n ∧
        (a.new now o n treats).2.guests =
          a.guests ++ [Guest.arrival now ⟨o, ho⟩ ⟨n, hn⟩ treats]) ∨
      ((a.new now o n treats).1.ret.toInt < 0 ∧ (a.new now o n treats).2.guests = a.guests) := by
  unfold new
  by_cases h : o.strlen ≤ 31 ∧ n.strlen ≤ 31
  · rw [dif_pos h]
    dsimp only
    split
    · exact .inl ⟨h.1, h.2, rfl, rfl⟩
    · exact .inr ⟨show hmstrErrExists.toInt < 0 by decide, rfl⟩
  · rw [dif_neg h]
    exact .inr ⟨show hmstrErrNameTooLong.toInt < 0 by decide, rfl⟩

theorem register_amend (a : State) (id : BitVec 32) (f : Guest → Guest)
    (hf : ∀ g, (f g).key = g.key) : (a.amend id f hf).register.isSome = a.register.isSome :=
  Option.isSome_map

theorem register_new (a : State) (now : Timestamp) (o n : CString) (treats : BitVec 16) :
    (a.new now o n treats).2.register.isSome = a.register.isSome ∨
      ∃ g, (a.new now o n treats).2.guests = a.guests ++ [g] := by
  unfold new
  split
  · dsimp only
    split
    · exact .inr ⟨_, rfl⟩
    · exact .inl rfl
  · exact .inl rfl

theorem register_directory (a : State) (v : Nat) (o n : Option CString) :
    (a.directory v o n).2.register = a.register := by
  unfold directory
  split
  · rfl
  · split <;> rfl

theorem howsdoing_cases {id : BitVec 32} (h : a.howsdoing now id = some (r, b)) :
    (a.guests.find? (·.has id) = none ∧ b = a) ∨ b = a.amend id Guest.ask Guest.ask_key := by
  rw [howsdoing] at h
  cases hf : a.guests.find? (·.has id) with
  | none =>
    rw [hf] at h
    cases h
    exact .inl ⟨rfl, rfl⟩
  | some g =>
    rw [hf] at h
    obtain ⟨rounds, -, h⟩ := Option.map_eq_some_iff.mp h
    cases h
    exact .inr rfl

theorem givetreats_cases (a : State) (id : BitVec 32) (t : BitVec 16) :
    (a.guests.find? (·.has id) = none ∧ (a.givetreats id t).2 = a) ∨
      (a.givetreats id t).2 = a.amend id (·.feed t) (Guest.feed_key · t) := by
  rw [givetreats]
  cases a.guests.find? (·.has id) with
  | none => exact .inl ⟨rfl, rfl⟩
  | some g => exact .inr rfl

/-- A collection does nothing, for one of three reasons, or releases the owner's guests. -/
theorem collect_cases {o : Option CString} (h : a.collect now o = some (r, b)) :
    (b = a ∧ (o = none ∨ (∃ o', o = some o' ∧ tooLong o' = true) ∨ a.register = none)) ∨
      ∃ o' reg, o = some o' ∧ tooLong o' = false ∧ a.register = some reg ∧
        b = ⟨some (reg.release o'), fun v => a.detach (a.cursor v)⟩ := by
  cases o with
  | none =>
    cases h
    exact .inl ⟨rfl, .inl rfl⟩
  | some o' =>
    rw [collect] at h
    cases hl : tooLong o' with
    | true =>
      rw [hl, if_pos rfl] at h
      cases h
      exact .inl ⟨rfl, .inr (.inl ⟨o', rfl, hl⟩)⟩
    | false =>
      rw [hl, if_neg Bool.false_ne_true] at h
      cases hreg : a.register with
      | none =>
        rw [hreg] at h
        cases h
        exact .inl ⟨rfl, .inr (.inr rfl)⟩
      | some reg =>
        rw [hreg] at h
        obtain ⟨amounts, -, h⟩ := Option.map_eq_some_iff.mp h
        cases h
        exact .inr ⟨o', reg, rfl, hl, rfl, rfl⟩

theorem collect_releases {o : Option CString} (h : a.collect now o = some (r, b)) :
    b.guests = effect now (.collect o) a.guests ∧ b.register.isSome = a.register.isSome := by
  rcases collect_cases h with ⟨rfl, hwhy⟩ | ⟨o', reg, rfl, -, hreg, rfl⟩
  · refine ⟨?_, rfl⟩
    rcases hwhy with rfl | ⟨o', rfl, hl⟩ | hreg
    · rfl
    · exact (filter_of_ownedBy_nil (ownedBy_of_tooLong hl _)).symm
    · cases o <;> simp [effect, guests, hreg, Register.empty]
  · exact ⟨by simp [effect, guests, hreg, Register.release], by rw [hreg]; rfl⟩

/-- What a call makes of the register: the guests are those of `effect`, and it is opened by
a newcomer only and never closed. -/
theorem step_outcome (h : a.step (now, c) = some (r, b)) : b.guests = effect now c a.guests ∧
    (b.register.isSome = a.register.isSome ∨ ∃ g, b.guests = a.guests ++ [g]) := by
  unfold step at h
  cases c with
  | new o n t =>
    have hb : (a.new now o n t).2 = b := congrArg Prod.snd (Option.some.inj h)
    rw [← hb]
    exact ⟨guests_new a now o n t, register_new a now o n t⟩
  | lookup o n =>
    cases Option.some.inj h
    exact ⟨rfl, .inl rfl⟩
  | directory v o n =>
    have hb : (a.directory v o n).2 = b := congrArg Prod.snd (Option.some.inj h)
    rw [← hb]
    exact ⟨guests_directory a v o n, .inl (congrArg _ (register_directory a v o n))⟩
  | howsdoing id =>
    rcases howsdoing_cases h with ⟨hf, rfl⟩ | rfl
    · exact ⟨(amendFirst_of_find hf).symm, .inl rfl⟩
    · exact ⟨guests_amend .., .inl (register_amend ..)⟩
  | readentry id =>
    obtain ⟨reply, -, h⟩ := Option.map_eq_some_iff.mp h
    cases h
    exact ⟨rfl, .inl rfl⟩
  | givetreats id t =>
    have hb : (a.givetreats id t).2 = b := congrArg Prod.snd (Option.some.inj h)
    rw [← hb]
    rcases givetreats_cases a id t with ⟨hf, hsame⟩ | hamend
    · rw [hsame]
      exact ⟨(amendFirst_of_find hf).symm, .inl rfl⟩
    · rw [hamend]
      exact ⟨guests_amend .., .inl (register_amend ..)⟩
  | collect o => exact (collect_releases h).imp_right .inl

theorem step_guests (h : a.step (now, c) = some (r, b)) : b.guests = effect now c a.guests :=
  (step_outcome h).1

/-- No guest came later than `now`. -/
def InOrder (now : Timestamp) (a : State) : Prop := ∀ g ∈ a.guests, g.admitted ≤ now

theorem mem_amendFirst {id : BitVec 32} {f : Guest → Guest} {gs : List Guest} {x : Guest}
    (h : x ∈ amendFirst id f gs) : x ∈ gs ∨ ∃ g ∈ gs, x = f g := by
  induction gs with
  | nil => cases h
  | cons g gs ih =>
    rw [amendFirst_cons] at h
    split at h
    · rcases List.mem_cons.mp h with rfl | h
      · exact .inr ⟨g, by simp, rfl⟩
      · exact .inl (by simp [h])
    · rcases List.mem_cons.mp h with rfl | h
      · exact .inl (by simp)
      · rcases ih h with h | ⟨y, hy, rfl⟩
        · exact .inl (by simp [h])
        · exact .inr ⟨y, by simp [hy], rfl⟩

theorem effect_inOrder {gs : List Guest} (h : ∀ g ∈ gs, g.admitted ≤ now) (c : Call Nat) :
    ∀ g ∈ effect now c gs, g.admitted ≤ now := by
  intro x hx
  cases c with
  | new o n t =>
    rw [effect] at hx
    rcases join_eq now o n t gs with he | ⟨ho, hn, he⟩
    · exact h x (he ▸ hx)
    · rw [he] at hx
      rcases List.mem_append.mp hx with hx | hx
      · exact h x hx
      · rw [List.mem_singleton.mp hx]
        exact Timestamp.le_refl now
  | givetreats id t =>
    rcases mem_amendFirst hx with hx | ⟨g, hg, rfl⟩
    · exact h x hx
    · exact h g hg
  | howsdoing id =>
    rcases mem_amendFirst hx with hx | ⟨g, hg, rfl⟩
    · exact h x hx
    · exact h g hg
  | collect o =>
    cases o with
    | none => exact h x hx
    | some o => exact h x (List.mem_of_mem_filter hx)
  | lookup o n => exact h x hx
  | directory v o n => exact h x hx
  | readentry id => exact h x hx

theorem InOrder.mono {t : Timestamp} (h : InOrder now a) (hle : now ≤ t) : InOrder t a :=
  fun g hg => Timestamp.le_trans (h g hg) hle

theorem InOrder.bill (h : InOrder now a) {g : Guest} (hg : g ∈ a.guests) :
    ∃ x, g.bill now = some x := Option.isSome_iff_exists.mp ((g.bill_isSome now).mpr (h g hg))

theorem mapM_bill_isSome {gs : List Guest} (h : ∀ g ∈ gs, g.admitted ≤ now) :
    ∃ xs, gs.mapM (Guest.bill now) = some xs := by
  induction gs with
  | nil => exact ⟨[], rfl⟩
  | cons g gs ih =>
    obtain ⟨x, hx⟩ := Option.isSome_iff_exists.mp ((g.bill_isSome now).mpr (h g (by simp)))
    obtain ⟨xs, hxs⟩ := ih fun g hg => h g (by simp [hg])
    exact ⟨x :: xs, by rw [List.mapM_cons, hx, hxs]; rfl⟩

/-- With a clock that is not behind, every call returns. -/
theorem step_returns (h : InOrder now a) (c : Call Nat) : ∃ r b, a.step (now, c) = some (r, b) := by
  cases c with
  | new o n t => exact ⟨_, _, rfl⟩
  | lookup o n => exact ⟨_, _, rfl⟩
  | directory v o n => exact ⟨_, _, rfl⟩
  | givetreats id t => exact ⟨_, _, rfl⟩
  | howsdoing id =>
    simp only [step, exec, howsdoing]
    cases hf : a.guests.find? (·.has id) with
    | none => exact ⟨_, _, rfl⟩
    | some g =>
      have hg := (g.getRounds_entry now).mpr (h g (List.mem_of_find?_eq_some hf))
      obtain ⟨rounds, hr⟩ := Option.isSome_iff_exists.mp hg
      exact ⟨_, _, by simp only [hr, Option.map_some]; rfl⟩
  | readentry id =>
    simp only [step, exec, readentry]
    cases hf : a.guests.find? (·.has id) with
    | none => exact ⟨_, _, rfl⟩
    | some g =>
      obtain ⟨x, hx⟩ := h.bill (List.mem_of_find?_eq_some hf)
      exact ⟨_, _, by simp only [hx, Option.map_some]; rfl⟩
  | collect o =>
    cases o with
    | none => exact ⟨_, _, rfl⟩
    | some o =>
      simp only [step, exec, collect]
      split
      · exact ⟨_, _, rfl⟩
      · split
        · exact ⟨_, _, rfl⟩
        · have hle : ∀ g ∈ ownedBy o a.guests, g.admitted ≤ now :=
            fun g hg => h g (List.mem_of_mem_filter hg)
          obtain ⟨xs, hxs⟩ := mapM_bill_isSome hle
          exact ⟨_, _, by simp only [bills, hxs, Option.map_some]; rfl⟩

theorem step_inOrder (h : InOrder now a) (hs : a.step (now, c) = some (r, b)) : InOrder now b := by
  intro g hg
  rw [step_guests hs] at hg
  exact effect_inOrder h c g hg

theorem effect_new_of_named {o n : CString} {treats : BitVec 16} {gs : List Guest}
    (h : ∃ g ∈ gs, g.named o n = true) : effect now (.new o n treats) gs = gs := by
  obtain ⟨g, hg, hn⟩ := h
  obtain ⟨ho, hn⟩ := Guest.named_iff.mp hn
  show join now o n treats gs = gs
  unfold join
  split
  · exact if_pos (List.mem_map.mpr ⟨g, hg, Prod.ext (Name.ext ho) (Name.ext hn)⟩)
  · rfl

theorem named_of_effect_new {o n : CString} {treats : BitVec 16} {gs : List Guest}
    (h : effect now (.new o n treats) gs ≠ gs) :
    ∃ g ∈ effect now (.new o n treats) gs, g.named o n = true := by
  rcases join_eq now o n treats gs with he | ⟨ho, hn, he⟩
  · exact absurd he h
  · refine ⟨Guest.arrival now ⟨o, ho⟩ ⟨n, hn⟩ treats, ?_, Guest.named_iff.mpr ⟨rfl, rfl⟩⟩
    rw [effect, he]
    exact List.mem_append_right _ (List.mem_singleton.mpr rfl)

/-- A guest leaves only when its owner collects. -/
theorem effect_keeps {gs : List Guest} {k : Name × Name} (h : k ∈ gs.map Guest.key)
    (hc : c ≠ .collect (some k.1.text)) : k ∈ (effect now c gs).map Guest.key := by
  cases c with
  | new o n t =>
    rw [effect]
    rcases join_eq now o n t gs with he | ⟨ho, hn, he⟩
    · rw [he]
      exact h
    · rw [he, List.map_append]
      exact List.mem_append_left _ h
  | givetreats id t => rw [effect, amendFirst_keys (Guest.feed_key · t)]; exact h
  | howsdoing id => rw [effect, amendFirst_keys Guest.ask_key]; exact h
  | collect o =>
    cases o with
    | none => exact h
    | some o =>
      obtain ⟨g, hg, rfl⟩ := List.mem_map.mp h
      refine List.mem_map.mpr ⟨g, List.mem_filter.mpr ⟨hg, ?_⟩, rfl⟩
      have hne : g.owner.text ≠ o := fun he => hc (by rw [← he]; rfl)
      simpa using hne
  | lookup o n => exact h
  | directory v o n => exact h
  | readentry id => exact h

/-- Nobody comes to an owner but by an admission for him. -/
theorem owner_of_effect {gs : List Guest} {o : CString} (hc : ∀ n treats, c ≠ .new o n treats)
    (h : ∀ g ∈ gs, g.owner.text ≠ o) : ∀ g ∈ effect now c gs, g.owner.text ≠ o := by
  have hkeys {gs' : List Guest} (he : gs'.map Guest.key = gs.map Guest.key) :
      ∀ g ∈ gs', g.owner.text ≠ o := by
    intro g hg
    have hk : g.key ∈ gs.map Guest.key := by
      rw [← he]
      exact List.mem_map_of_mem hg
    obtain ⟨g', hg', heq⟩ := List.mem_map.mp hk
    rw [show g.owner = g'.owner from (congrArg Prod.fst heq).symm]
    exact h g' hg'
  cases c with
  | new o' n t =>
    rw [effect]
    rcases join_eq now o' n t gs with he | ⟨ho, hn, he⟩
    · rw [he]
      exact h
    · rw [he]
      intro g hg
      rcases List.mem_append.mp hg with hg | hg
      · exact h g hg
      · rw [List.mem_singleton.mp hg]
        intro heq
        exact hc n t (by rw [← show o' = o from heq])
  | givetreats id t => exact hkeys (amendFirst_keys (Guest.feed_key · t) gs)
  | howsdoing id => exact hkeys (amendFirst_keys Guest.ask_key gs)
  | collect o' =>
    cases o' with
    | none => exact h
    | some o' => exact fun g hg => h g (List.mem_of_mem_filter hg)
  | lookup o' n => exact h
  | directory v o' n => exact h
  | readentry id => exact h

end State
end Hamster.Asylum
