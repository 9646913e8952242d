import GalaxyMarket.Proofs.Galaxy.Edits

/-!
# Keys do not come back

A slot remembers the version of the last key that it gave out, and versions only grow. A key that
was given out once (`Slots.Issued`) and is out of use therefore stays out of use, whatever is put
into its slot later on (`Slots.Retired`).

For the galaxy this is said of planets. Every edit treats the store of planets by putting in, taking
out and changing in place (`Galaxy.planets_edit`), so that a planet which is there before and after
some edits was there all the time (`Galaxy.Evolves.contains_of_contains`).
-/

namespace GalaxyMarket

variable {kind : Kind} {β : Type}

namespace Slots

variable {s : Slots kind β} {key other : Key kind} {value : β}

/-- A key that its slot has given out, lately or some time ago. -/
def Issued (s : Slots kind β) (key : Key kind) : Prop :=
  ∃ slot, s.slots[key.slot]? = some slot ∧ key.version ≤ slot.version

/-- A key that is in use was given out. -/
theorem issued_of_get? (h : s.get? key = some value) : s.Issued key :=
  ⟨_, get?_eq_some_iff.mp h, Nat.le_refl _⟩

/-- The version of a slot may be raised. -/
theorem Issued.set (h : s.Issued key) {i version : Nat} {value? : Option β} {free : List Nat}
    (hraise : ∀ slot, s.slots[i]? = some slot → slot.version ≤ version) :
    Issued { slots := s.slots.setIfInBounds i ⟨version, value?⟩, free } key := by
  obtain ⟨slot, hslot, hle⟩ := h
  -- Only one slot changes, and its version goes up.
  by_cases hi : i = key.slot
  · subst hi
    have hlt : key.slot < s.slots.size := (Array.getElem?_eq_some_iff.mp hslot).1
    exact ⟨_, Array.getElem?_setIfInBounds_self_of_lt hlt, Nat.le_trans hle (hraise slot hslot)⟩
  · exact ⟨slot, (Array.getElem?_setIfInBounds_ne hi).trans hslot, hle⟩

/-- What was given out stays given out. A new value opens a slot or raises the version of one, -/
theorem Issued.insert (hs : s.IsSound) (h : s.Issued key) (value : β) :
    (s.insert value).2.Issued key := by
  obtain ⟨slots, free⟩ := s
  cases free with
  | nil =>
    obtain ⟨slot, hslot, hle⟩ := h
    have hlt : key.slot < slots.size := (Array.getElem?_eq_some_iff.mp hslot).1
    exact ⟨slot,
      (Array.getElem?_push_lt hlt).trans ((Array.getElem?_eq_getElem hlt).symm.trans hslot), hle⟩
  | cons i free =>
    obtain ⟨version, hvacant⟩ := hs.vacant i List.mem_cons_self
    rw [insert_of_vacancy hvacant]
    refine h.set fun slot hslot => ?_
    cases hvacant.symm.trans hslot
    exact Nat.le_succ version

/-- taking out raises a version, -/
theorem Issued.erase (h : s.Issued key) (other : Key kind) : (s.erase other).Issued key := by
  cases hother : s.get? other with
  | none => rwa [erase_of_not_contains hother]
  | some value =>
    rw [erase_of_contains hother]
    refine h.set fun slot hslot => ?_
    cases (get?_eq_some_iff.mp hother).symm.trans hslot
    exact Nat.le_succ other.version

/-- and a change keeps it. -/
theorem Issued.modify (h : s.Issued key) (other : Key kind) (f : β → β) :
    (s.modify other f).Issued key := by
  cases hother : s.get? other with
  | none => rwa [modify_of_get?_eq_none f hother]
  | some value =>
    rw [modify_of_get? f hother]
    refine h.set fun slot hslot => ?_
    cases (get?_eq_some_iff.mp hother).symm.trans hslot
    exact Nat.le_refl _

theorem Issued.map (h : s.Issued key) (f : β → β) : (s.map f).Issued key := by
  obtain ⟨slot, hslot, hle⟩ := h
  refine ⟨{ slot with value? := slot.value?.map f }, ?_, hle⟩
  show (s.slots.map _)[key.slot]? = _
  rw [Array.getElem?_map, hslot, Option.map_some]

/-- **No key is given out twice.** -/
theorem IsSound.insert_fst_ne (hs : s.IsSound) (h : s.Issued key) (value : β) :
    key ≠ (s.insert value).1 := by
  obtain ⟨slots, free⟩ := s
  obtain ⟨slot, hslot, hle⟩ := h
  intro heq
  cases free with
  | nil =>
    -- The new key is that of a slot that was not there.
    have hlt : key.slot < slots.size := (Array.getElem?_eq_some_iff.mp hslot).1
    exact Nat.ne_of_lt hlt (congrArg Key.slot heq)
  | cons i free =>
    obtain ⟨version, hvacant⟩ := hs.vacant i List.mem_cons_self
    rw [insert_of_vacancy hvacant] at heq
    obtain rfl : key.slot = i := congrArg Key.slot heq
    cases hvacant.symm.trans hslot
    -- The new key has a greater version than any that the slot gave out before.
    have hversion : key.version = version + 1 := congrArg Key.version heq
    rw [hversion] at hle
    exact Nat.not_succ_le_self version hle

/-- A key of a sound store that was given out and is out of use. -/
structure Retired (s : Slots kind β) (key : Key kind) : Prop where
  sound : s.IsSound
  issued : s.Issued key
  absent : s.get? key = none

/-- **A key that is out of use stays out of use**: new values get other keys. -/
theorem Retired.insert (h : s.Retired key) (value : β) : (s.insert value).2.Retired key where
  sound := h.sound.insert value
  issued := h.issued.insert h.sound value
  absent := by
    rw [(h.sound.get?_insert value key).2, if_neg (h.sound.insert_fst_ne h.issued value), h.absent]

theorem Retired.erase (h : s.Retired key) (other : Key kind) : (s.erase other).Retired key where
  sound := h.sound.erase other
  issued := h.issued.erase other
  absent := by
    rw [get?_erase, h.absent]
    exact ite_self none

theorem Retired.modify (h : s.Retired key) (other : Key kind) (f : β → β) :
    (s.modify other f).Retired key where
  sound := h.sound.modify other f
  issued := h.issued.modify other f
  absent := by
    rw [get?_modify, h.absent]
    exact ite_self none

theorem Retired.map (h : s.Retired key) (f : β → β) : (s.map f).Retired key where
  sound := h.sound.map f
  issued := h.issued.map f
  absent := by rw [get?_map, h.absent, Option.map_none]

end Slots

/-! ### Planets -/

namespace Galaxy

variable {α : Type} {g h : Galaxy α}

section

variable {P : Slots .planet Planet → Prop} (hinsert : ∀ s planet, P s → P (s.insert planet).2)
  (herase : ∀ s key, P s → P (s.erase key)) (hmodify : ∀ s key f, P s → P (s.modify key f))

include hinsert herase hmodify

/-- **What an edit does to the planets** is to put one in, to take some out, or to change one. -/
theorem planets_edit (hP : P g.planets) (e : Edit α) : P (g.edit e).planets := by
  cases e with
  | addSystem | disconnect | declare => exact hP
  | removeSystem key =>
    show P (g.removeSystem key).planets
    unfold removeSystem
    cases g.system? key with
    | none => exact hP
    | some system =>
      show P (system.planets.foldl Slots.erase g.planets)
      -- Planets are taken out one by one, so that the store they are taken from has to vary.
      generalize g.planets = s at hP ⊢
      induction system.planets generalizing s with
      | nil => exact hP
      | cons key keys ih => exact ih _ (herase s key hP)
  | setFaction key faction? =>
    refine unlessRefused_of (P := fun g => P g.planets) hP fun h hok => ?_
    obtain ⟨-, rfl⟩ := updateSystem_eq_ok hok
    exact hP
  | setNebula key nebula =>
    refine unlessRefused_of (P := fun g => P g.planets) hP fun h hok => ?_
    obtain ⟨-, rfl⟩ := updateSystem_eq_ok hok
    exact hP
  | addPlanet system planet =>
    show P (g.unlessRefused ((g.addPlanet system planet).map Prod.snd)).planets
    cases hadd : g.addPlanet system planet with
    | error e => exact hP
    | ok added =>
      obtain ⟨-, -, heq⟩ := addPlanet_eq_ok hadd
      show P added.2.planets
      rw [heq]
      exact hinsert _ _ hP
  | removePlanet key =>
    show P (g.removePlanet key).planets
    unfold removePlanet
    cases g.planet? key with
    | none => exact hP
    | some planet => exact herase _ key hP
  | updatePlanet key f => exact hmodify _ key _ hP
  | addJump origin jump =>
    refine unlessRefused_of (P := fun g => P g.planets) hP fun h hok => ?_
    obtain ⟨-, rfl⟩ := addJump_eq_ok hok
    exact hP
  | connect a b =>
    refine unlessRefused_of (P := fun g => P g.planets) hP fun h hok => ?_
    obtain ⟨middle, hfirst, hsecond⟩ := connect_eq_ok hok
    -- Two jumps are added, and neither touches a planet.
    obtain ⟨-, rfl⟩ := addJump_eq_ok hsecond
    obtain ⟨-, rfl⟩ := addJump_eq_ok hfirst
    exact hP

/-- What putting in, taking out and changing keep is kept by any number of edits. -/
theorem planets_edits (hP : P g.planets) (edits : List (Edit α)) :
    P (edits.foldl edit g).planets := by
  induction edits generalizing g with
  | nil => exact hP
  | cons e edits ih => exact ih (planets_edit hinsert herase hmodify hP e)

end

/-- Planets keep the keys that were given out behind them, -/
theorem IsOrderly.issued_edits (hg : g.IsOrderly) {q : PlanetKey} (hq : g.planets.Issued q)
    (edits : List (Edit α)) : (edits.foldl Galaxy.edit g).planets.Issued q := by
  refine (planets_edits (P := fun s => s.IsSound ∧ s.Issued q) ?_ ?_ ?_ ⟨hg.planets, hq⟩ edits).2
  · exact fun s planet hs => ⟨hs.1.insert planet, hs.2.insert hs.1 planet⟩
  · exact fun s key hs => ⟨hs.1.erase key, hs.2.erase key⟩
  · exact fun s key f hs => ⟨hs.1.modify key f, hs.2.modify key f⟩

/-- and those that are out of use stay so. -/
theorem retired_planets_edits {q : PlanetKey} (hq : g.planets.Retired q) (edits : List (Edit α)) :
    (edits.foldl edit g).planets.Retired q :=
  planets_edits (P := fun s => s.Retired q) (fun _ planet hs => hs.insert planet)
    (fun _ key hs => hs.erase key) (fun _ key f hs => hs.modify key f) hq edits

/-- A galaxy that edits make of another. -/
def Evolves (g h : Galaxy α) : Prop := ∃ edits : List (Edit α), edits.foldl edit g = h

/-- Edits keep a galaxy orderly. -/
theorem Evolves.isOrderly (hgh : g.Evolves h) (hg : g.IsOrderly) : h.IsOrderly := by
  obtain ⟨edits, rfl⟩ := hgh
  induction edits generalizing g with
  | nil => exact hg
  | cons e edits ih => exact ih (hg.edit e)

theorem Evolves.trans {k : Galaxy α} (hgh : g.Evolves h) (hhk : h.Evolves k) : g.Evolves k := by
  obtain ⟨edits, rfl⟩ := hgh
  obtain ⟨more, rfl⟩ := hhk
  exact ⟨edits ++ more, List.foldl_append⟩

/-- **A planet that is lost stays lost.** -/
theorem Evolves.contains_of_contains {k : Galaxy α} (hg : g.IsOrderly) (hgh : g.Evolves h)
    (hhk : h.Evolves k) {q : PlanetKey} (hbefore : g.planets.contains q = true)
    (hafter : k.planets.contains q = true) : h.planets.contains q = true := by
  obtain ⟨planet, hplanet⟩ := Slots.contains_iff.mp hbefore
  have horderly : h.IsOrderly := hgh.isOrderly hg
  obtain ⟨edits, hedits⟩ := hgh
  obtain ⟨more, rfl⟩ := hhk
  have hissued : h.planets.Issued q := by
    rw [← hedits]
    exact hg.issued_edits (Slots.issued_of_get? hplanet) edits
  -- If the planet were out of use in between, its key would be so in the end as well.
  cases habsent : h.planets.get? q with
  | some found => exact Slots.contains_iff.mpr ⟨found, habsent⟩
  | none =>
    have hretired : h.planets.Retired q := ⟨horderly.planets, hissued, habsent⟩
    obtain ⟨found, hfound⟩ := Slots.contains_iff.mp hafter
    cases (retired_planets_edits hretired more).absent.symm.trans hfound

end Galaxy

end GalaxyMarket
