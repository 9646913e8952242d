import GalaxyMarket.Market.Roll
import GalaxyMarket.Proofs.Galaxy.Removal

/-!
# The index of the systems

Rows of the network, intensities and prices are matched with systems by numbers alone. An index
gives each system of a galaxy one of the numbers from zero up, in the order in which the galaxy
lists them (`SystemIndex.Numbers`). List and map of the index are filled in one pass, which comes to
the same as filling one after the other (`Roll.index_ofGalaxy`); that no system drives another one
out of the map is because a galaxy lists each slot at most once.

An index is still in use when the galaxy has changed. Systems have come and gone by then, and slots
have been used again. What makes the old numbers safe (`SystemIndex.Outlasts`) is that a key is good
for one system: whatever is ever found under it has the same name (`Slots.Reserved`), and once
nothing is found there, nothing will be (`Galaxy.Evolves.system?_eq_none`).
-/

namespace GalaxyMarket

variable {α : Type}

/-! ### What becomes of a system -/

/-- A key that was given to a system of some name, and under which nothing else is found. -/
structure Slots.Reserved (s : Slots .system (System α)) (key : SystemKey) (name : String) :
    Prop where
  sound : s.IsSound
  issued : s.Issued key
  named : ∀ {system}, s.get? key = some system → system.name = name

namespace Slots

variable {s : Slots .system (System α)} {key : SystemKey} {name : String} {system : System α}

/-- The key of a system is reserved for its name. -/
theorem IsSound.reserved (hs : s.IsSound) (hsystem : s.get? key = some system) :
    s.Reserved key system.name where
  sound := hs
  issued := issued_of_get? hsystem
  named hfound := congrArg System.name (Option.some.inj (hfound.symm.trans hsystem))

/-- A system that is put in gets another key. -/
theorem Reserved.insert (h : s.Reserved key name) (new : System α) :
    (s.insert new).2.Reserved key name where
  sound := h.sound.insert new
  issued := h.issued.insert h.sound new
  named hfound := by
    rw [(h.sound.get?_insert new key).2, if_neg (h.sound.insert_fst_ne h.issued new)] at hfound
    exact h.named hfound

/-- Taking a system out, -/
theorem Reserved.erase (h : s.Reserved key name) (other : SystemKey) :
    (s.erase other).Reserved key name where
  sound := h.sound.erase other
  issued := h.issued.erase other
  named hfound := by
    rw [get?_erase] at hfound
    split at hfound
    · cases hfound
    · exact h.named hfound

section

variable {f : System α → System α} (hf : ∀ system, (f system).name = system.name)

include hf

/-- changing all -/
theorem Reserved.map (h : s.Reserved key name) : (s.map f).Reserved key name where
  sound := h.sound.map f
  issued := h.issued.map f
  named hfound := by
    rw [get?_map] at hfound
    obtain ⟨before, hbefore, rfl⟩ := Option.map_eq_some_iff.mp hfound
    rw [hf, h.named hbefore]

/-- or changing one without its name gives the key to no other. -/
theorem Reserved.modify (h : s.Reserved key name) (other : SystemKey) :
    (s.modify other f).Reserved key name where
  sound := h.sound.modify other f
  issued := h.issued.modify other f
  named hfound := by
    rw [get?_modify] at hfound
    split at hfound
    · obtain ⟨before, hbefore, rfl⟩ := Option.map_eq_some_iff.mp hfound
      rw [hf, h.named hbefore]
    · exact h.named hfound

end

end Slots

namespace Galaxy

variable {g h k : Galaxy α} {key : SystemKey} {old new : System α}

/-- **A key is good for one system**, whatever edits follow. -/
theorem Evolves.reserved {name : String} (hgh : g.Evolves h)
    (hkey : g.systems.Reserved key name) : h.systems.Reserved key name := by
  obtain ⟨edits, rfl⟩ := hgh
  -- No edit changes a name.
  exact systems_edits (P := fun s => s.Reserved key name) (fun _ new hs => hs.insert new)
    (fun _ other hs => hs.erase other) (fun _ _ hf hs => hs.map hf)
    (fun _ other _ hf hs => hs.modify hf other) hkey edits

/-- **A system that is gone stays gone.** -/
theorem Evolves.system?_eq_none (hg : g.IsOrderly) (hgh : g.Evolves h) (hhk : h.Evolves k)
    (hold : g.system? key = some old) (hgone : h.system? key = none) : k.system? key = none := by
  have hkey : h.systems.Reserved key old.name := hgh.reserved (hg.systems.reserved hold)
  have hretired : h.systems.Retired key := ⟨hkey.sound, hkey.issued, hgone⟩
  obtain ⟨edits, rfl⟩ := hhk
  exact (retired_systems_edits hretired edits).absent

/-- A system that is there before and after some edits was there all the time, by the same name. -/
theorem Evolves.exists_system? (hg : g.IsOrderly) (hgh : g.Evolves h) (hhk : h.Evolves k)
    (hold : g.system? key = some old) (hnew : k.system? key = some new) :
    ∃ system, h.system? key = some system ∧ system.name = old.name := by
  -- Had it been gone in between, it would be gone now.
  cases hsystem : h.system? key with
  | none => cases (hgh.system?_eq_none hg hhk hold hsystem).symm.trans hnew
  | some system => exact ⟨system, rfl, (hgh.reserved (hg.systems.reserved hold)).named hsystem⟩

end Galaxy

/-! ### List and map in one pass -/

namespace Roll

/-- The roll of some systems, with the list and then the map made of all of them. -/
def ofKeys (keys : List SystemKey) : Roll :=
  { order := keys.toArray, positions := .ofList keys.zipIdx }

/-- **A step of the pass** takes one more system into both. -/
theorem enter_ofKeys (keys : List SystemKey) (key : SystemKey) :
    (ofKeys keys).enter key = ofKeys (keys ++ [key]) := by
  have hpositions : KeyMap.ofList (keys ++ [key]).zipIdx =
      (KeyMap.ofList keys.zipIdx).insert key keys.length := by
    rw [List.zipIdx_append, KeyMap.ofList, List.foldl_append, Nat.zero_add]
    rfl
  rw [ofKeys, ofKeys, enter, hpositions]
  simp

/-- The systems are taken in one after the other, from the first to the last. -/
theorem foldl_enter (keys : List SystemKey) : keys.foldl enter {} = ofKeys keys := by
  induction keys using List.reverseRecOn with
  | nil => rfl
  | append_singleton keys key ih =>
    rw [List.foldl_append, ih]
    exact enter_ofKeys keys key

/-- **The whole pass** gives list and map of the index. -/
theorem index_ofGalaxy (g : Galaxy α) : (ofGalaxy g).index = .ofGalaxy g := by
  have hpass : ofGalaxy g = ofKeys g.systems.keys := List.foldl_map.symm.trans (foldl_enter _)
  rw [hpass]
  rfl

end Roll

/-! ### Systems and numbers -/

namespace SystemIndex

/-- An index in which the systems of a galaxy, and nothing else, are numbered. -/
structure Numbers (index : SystemIndex) (g : Galaxy α) : Prop where
  /-- The systems stand in the order in which the galaxy lists them, -/
  keys : index.keys = g.systems.toList.map Prod.fst
  size : index.size = g.systems.size
  /-- the numbers are those below their count, -/
  exists_system?_iff : ∀ {i}, (∃ key, index.system? i = some key) ↔ i < g.systems.size
  /-- and each system has one, -/
  exists_position?_iff : ∀ {key},
    (∃ i, index.position? key = some i) ↔ ∃ system, g.system? key = some system
  /-- which leads back to it. -/
  position?_iff : ∀ {key i}, index.position? key = some i ↔ index.system? i = some key
  /-- What is not there has none, -/
  absent : ∀ {key}, g.system? key = none → index.position? key = none
  /-- not even if a system that is there has its slot. -/
  displaced : ∀ {key other system}, g.system? other = some system → key.slot = other.slot →
    key ≠ other → index.position? key = none

/-- An index of `g` that is still in use when the galaxy has become `h`. -/
structure Outlasts (index : SystemIndex) (g h : Galaxy α) : Prop where
  /-- A system of both was never gone in between, and it keeps its name. It is still found by its
  number, and its number by it. -/
  survivor : ∀ {key old new}, g.system? key = some old → h.system? key = some new →
    (∀ k, g.Evolves k → k.Evolves h →
      ∃ system, k.system? key = some system ∧ system.name = old.name) ∧
    ∃ i < index.size, index.position? key = some i ∧ index.system? i = some key
  /-- The number of a system that is gone leads to nothing from then on, -/
  gone : ∀ {key i}, index.system? i = some key → h.system? key = none →
    ∀ k, h.Evolves k → k.system? key = none
  /-- and systems that are new have no number, whatever slots they were put in. -/
  newcomer : ∀ {key new}, g.system? key = none → h.system? key = some new →
    index.position? key = none ∧ ∀ i, index.system? i ≠ some key
  /-- Those that survive stand in the order in which the galaxy lists them now. -/
  order : index.keys.filter h.systems.contains =
    h.systems.keys.filter fun key => (index.position? key).isSome

variable {g h : Galaxy α}

/-- **The index of a galaxy** numbers its systems. -/
theorem numbers_ofGalaxy (g : Galaxy α) : (ofGalaxy g).Numbers g := by
  have hsize : (ofGalaxy g).size = g.systems.size := List.length_map Prod.fst
  have hposition : ∀ {key}, (∃ i, (ofGalaxy g).position? key = some i) ↔
      ∃ system, g.system? key = some system := by
    intro key
    simp only [position?_ofGalaxy_eq_some_iff]
    exact exists_system?_ofGalaxy_iff
  -- A system that has a number is there.
  have habsent : ∀ {key}, g.system? key = none → (ofGalaxy g).position? key = none := by
    intro key hkey
    rw [Option.eq_none_iff_forall_ne_some]
    intro i hi
    obtain ⟨system, hsystem⟩ := hposition.mp ⟨i, hi⟩
    cases hkey.symm.trans hsystem
  constructor
  case keys => rfl
  case size => exact hsize
  case exists_system?_iff =>
    intro i
    rw [← hsize]
    exact ⟨fun ⟨_, hkey⟩ => lt_size_of_system? hkey, exists_system?_of_lt⟩
  case exists_position?_iff => exact hposition
  case position?_iff => exact position?_ofGalaxy_eq_some_iff
  case absent => exact habsent
  case displaced =>
    intro key other system hother hslot hne
    -- A slot holds something for one key only.
    exact habsent ((Slots.get?_of_slot_eq hother hslot).trans (if_neg hne))

/-- **An index outlasts its galaxy.** -/
theorem outlasts_ofGalaxy (hg : g.IsOrderly) (hgh : g.Evolves h) :
    (ofGalaxy g).Outlasts g h := by
  have hindex := numbers_ofGalaxy g
  constructor
  case survivor =>
    intro key old new hold hnew
    refine ⟨fun k hgk hkh => hgk.exists_system? hg hkh hold hnew, ?_⟩
    obtain ⟨i, hi⟩ := hindex.exists_position?_iff.mpr ⟨old, hold⟩
    have hback := hindex.position?_iff.mp hi
    exact ⟨i, lt_size_of_system? hback, hi, hback⟩
  case gone =>
    intro key i hkey hgone k hhk
    obtain ⟨old, hold⟩ := hindex.exists_position?_iff.mp ⟨i, hindex.position?_iff.mpr hkey⟩
    exact hgh.system?_eq_none hg hhk hold hgone
  case newcomer =>
    intro key new hfresh _
    have hnone := hindex.absent hfresh
    refine ⟨hnone, fun i hi => ?_⟩
    cases hnone.symm.trans (hindex.position?_iff.mpr hi)
  case order =>
    -- The systems with a number are those of the galaxy that the index was made from.
    have hnumbered : ∀ key, ((ofGalaxy g).position? key).isSome = g.systems.contains key := by
      intro key
      rw [Bool.eq_iff_iff, Option.isSome_iff_exists, hindex.exists_position?_iff,
        Slots.contains_iff]
      rfl
    rw [funext hnumbered]
    exact Slots.filter_keys ..

/-- **Numbers stand for systems.** The index of a galaxy that was made by edits numbers exactly the
systems that are there, and whatever edits follow, no number comes to stand for another system. -/
theorem numbers_live_systems (edits : List (Edit α)) :
    (Roll.ofGalaxy (Galaxy.ofEdits edits)).index.Numbers (Galaxy.ofEdits edits) ∧
      ∀ more : List (Edit α), (Roll.ofGalaxy (Galaxy.ofEdits edits)).index.Outlasts
        (Galaxy.ofEdits edits) (more.foldl Galaxy.edit (Galaxy.ofEdits edits)) := by
  rw [Roll.index_ofGalaxy]
  refine ⟨numbers_ofGalaxy _, fun more => ?_⟩
  exact outlasts_ofGalaxy (Galaxy.isOrderly_ofEdits edits) ⟨more, rfl⟩

/-- A system that was put into the slot of another one comes first in its place, and the key of the
old one has no number. -/
example :
    let plain : Edit Unit := .addSystem { name := "System", nebula := ⟨(), ()⟩ }
    let index := (Roll.ofGalaxy (.ofEdits [plain, plain, .removeSystem ⟨0, 1⟩, plain])).index
    index.keys = [⟨0, 3⟩, ⟨1, 1⟩] ∧ index.position? ⟨0, 3⟩ = some 0 ∧
      index.position? ⟨0, 1⟩ = none := by
  decide +kernel

end SystemIndex

end GalaxyMarket
