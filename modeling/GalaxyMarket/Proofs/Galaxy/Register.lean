import GalaxyMarket.Proofs.Galaxy.Integrity
import GalaxyMarket.Proofs.Galaxy.Keys

/-!
# The order in which planets were added

The register of some edits (`Galaxy.given`) holds the keys that they gave to planets, one after the
other. A system lists its planets in that order: its list is what the register has of the planets
that orbit it (`Galaxy.map_planetsIn_ofEdits`).

Nothing but a new planet makes a list longer, and then the register grows by the same key. All that
other edits do to lists is to strike planets from them (`Galaxy.systems_edit`), so that each list
remains a part of the register (`Galaxy.IsRegister`). That it is also in the same order then follows
from the register having no key twice.
-/

namespace GalaxyMarket.Galaxy

variable {α : Type} {g h : Galaxy α}

/-- The key that an edit gives to a planet. Only adding one gives any. -/
def given? (g : Galaxy α) : Edit α → Option PlanetKey
  | .addPlanet system planet => (g.addPlanet system planet).toOption.map Prod.fst
  | _ => none

/-- The keys that some edits give to planets, in order. -/
def given (g : Galaxy α) : List (Edit α) → List PlanetKey
  | [] => []
  | e :: edits => (g.given? e).toList ++ (g.edit e).given edits

/-- A key is given only where a planet is added, and not refused. -/
theorem given?_eq_some {e : Edit α} {new : PlanetKey} (hgiven : g.given? e = some new) :
    ∃ system planet, e = .addPlanet system planet ∧
      g.addPlanet system planet = .ok (new, g.edit e) := by
  cases e with
  | addPlanet system planet =>
    refine ⟨system, planet, rfl, ?_⟩
    change (g.addPlanet system planet).toOption.map Prod.fst = some new at hgiven
    show _ = Except.ok (new, g.unlessRefused ((g.addPlanet system planet).map Prod.snd))
    cases hadd : g.addPlanet system planet with
    | error e =>
      rw [hadd] at hgiven
      cases hgiven
    | ok added =>
      rw [hadd] at hgiven
      cases hgiven
      rfl
  | _ => cases hgiven

/-! ### What an edit does to the systems -/

section

variable {P : Slots .system (System α) → Prop} {e : Edit α}
  (hinsert : ∀ s system, system.planets = [] → P s → P (s.insert system).2)
  (herase : ∀ s key, P s → P (s.erase key))
  (hmap : ∀ s f, (∀ system, (f system).planets = system.planets ∧ (f system).name = system.name) →
    P s → P (s.map f))
  (hmodify : ∀ s key f,
    (∀ system, (f system).planets.Sublist system.planets ∧ (f system).name = system.name) →
    P s → P (s.modify key f))
  (happend : ∀ key new, g.given? e = some new →
    P (g.systems.modify key fun system => { system with planets := system.planets ++ [new] }))

include hinsert herase hmap hmodify happend

/-- **What an edit does to the systems** is to put one in that has no planets, to take one out, or
to change some of them, each of which then lists no more planets than before and keeps its name.
Only a planet that is added goes to the end of a list. -/
theorem systems_edit (hP : P g.systems) : P (g.edit e).systems := by
  -- Connecting adds two jumps, so that this case is needed for any galaxy.
  have hjump : ∀ {before after : Galaxy α} {origin : SystemKey} {jump : Jump}, P before.systems →
      before.addJump origin jump = .ok after → P after.systems := by
    intro before after origin jump hP hok
    obtain ⟨-, rfl⟩ := addJump_eq_ok hok
    exact hmodify _ _ _ (fun _ => ⟨.refl _, rfl⟩) hP
  cases e with
  | addSystem system => exact hinsert _ _ rfl hP
  | removeSystem key =>
    show P (g.removeSystem key).systems
    unfold removeSystem
    cases g.system? key with
    | none => exact hP
    | some system => exact hmap _ _ (fun _ => ⟨rfl, rfl⟩) (herase _ key hP)
  | setFaction key faction? =>
    refine unlessRefused_of (P := fun g => P g.systems) hP fun h hok => ?_
    obtain ⟨-, rfl⟩ := updateSystem_eq_ok hok
    exact hmodify _ _ _ (fun _ => ⟨.refl _, rfl⟩) hP
  | setNebula key nebula =>
    refine unlessRefused_of (P := fun g => P g.systems) hP fun h hok => ?_
    obtain ⟨-, rfl⟩ := updateSystem_eq_ok hok
    exact hmodify _ _ _ (fun _ => ⟨.refl _, rfl⟩) hP
  | addPlanet system planet =>
    cases hgiven : g.given? (.addPlanet system planet) with
    | none =>
      -- It was refused.
      refine unlessRefused_of (P := fun g => P g.systems) hP fun h hok => ?_
      cases hadd : g.addPlanet system planet with
      | error e =>
        rw [hadd] at hok
        cases hok
      | ok added =>
        rw [given?, hadd] at hgiven
        cases hgiven
    | some new =>
      obtain ⟨_, _, heq, hadd⟩ := given?_eq_some hgiven
      cases heq
      obtain ⟨-, -, hedit⟩ := addPlanet_eq_ok hadd
      rw [hedit]
      exact happend _ new hgiven
  | removePlanet key =>
    show P (g.removePlanet key).systems
    unfold removePlanet
    cases g.planet? key with
    | none => exact hP
    | some planet => exact hmodify _ _ _ (fun _ => ⟨List.filter_sublist, rfl⟩) hP
  | addJump origin jump =>
    exact unlessRefused_of (P := fun g => P g.systems) hP fun h hok => hjump hP hok
  | connect a b =>
    refine unlessRefused_of (P := fun g => P g.systems) hP fun h hok => ?_
    obtain ⟨middle, hfirst, hsecond⟩ := connect_eq_ok hok
    exact hjump (hjump hP hfirst) hsecond
  | disconnect a b =>
    refine hmodify _ _ _ (fun _ => ⟨.refl _, rfl⟩) (hmodify _ _ _ (fun _ => ⟨.refl _, rfl⟩) hP)
  | updatePlanet | declare => exact hP

end

/-- **What edits do to the systems**, as far as their names go: no system is ever called otherwise.
-/
theorem systems_edits {P : Slots .system (System α) → Prop}
    (hinsert : ∀ s system, P s → P (s.insert system).2) (herase : ∀ s key, P s → P (s.erase key))
    (hmap : ∀ s f, (∀ system, (f system).name = system.name) → P s → P (s.map f))
    (hmodify : ∀ s key f, (∀ system, (f system).name = system.name) → P s → P (s.modify key f))
    (hP : P g.systems) (edits : List (Edit α)) : P (edits.foldl edit g).systems := by
  -- A planet that is added changes one list, which the property does not look at.
  induction edits generalizing g with
  | nil => exact hP
  | cons e edits ih =>
    apply ih
    apply systems_edit
    case hinsert => exact fun s system _ hs => hinsert s system hs
    case herase => exact herase
    case hmap => exact fun s f hf hs => hmap s f (fun system => (hf system).2) hs
    case hmodify => exact fun s key f hf hs => hmodify s key f (fun system => (hf system).2) hs
    case happend => exact fun key new _ => hmodify _ key _ (fun _ => rfl) hP
    case hP => exact hP

/-! ### Lists of planets -/

/-- A sound store of systems, each of which lists a part of some keys, in the same order. -/
structure ListsFrom (register : List PlanetKey) (s : Slots .system (System α)) : Prop where
  sound : s.IsSound
  sublist : ∀ {key system}, s.get? key = some system → system.planets.Sublist register

section

variable {register : List PlanetKey} {s : Slots .system (System α)}

/-- A new system lists nothing, -/
theorem ListsFrom.insert (hs : ListsFrom register s) {new : System α} (hnew : new.planets = []) :
    ListsFrom register (s.insert new).2 where
  sound := hs.sound.insert new
  sublist {key system} hsystem := by
    rw [(hs.sound.get?_insert new key).2] at hsystem
    split at hsystem
    · cases hsystem
      rw [hnew]
      exact List.nil_sublist _
    · exact hs.sublist hsystem

/-- a system that goes takes its list along, -/
theorem ListsFrom.erase (hs : ListsFrom register s) (gone : SystemKey) :
    ListsFrom register (s.erase gone) where
  sound := hs.sound.erase gone
  sublist {key system} hsystem := by
    rw [Slots.get?_erase] at hsystem
    split at hsystem
    · cases hsystem
    · exact hs.sublist hsystem

/-- and what keeps all lists keeps their order. -/
theorem ListsFrom.map (hs : ListsFrom register s) {f : System α → System α}
    (hf : ∀ system, (f system).planets = system.planets) : ListsFrom register (s.map f) where
  sound := hs.sound.map f
  sublist {key system} hsystem := by
    rw [Slots.get?_map] at hsystem
    obtain ⟨before, hbefore, rfl⟩ := Option.map_eq_some_iff.mp hsystem
    rw [hf]
    exact hs.sublist hbefore

/-- The keys that a list may hold can become more along with it. -/
theorem ListsFrom.modify (hs : ListsFrom register s) (changed : SystemKey)
    {f : System α → System α} {new : List PlanetKey}
    (hf : ∀ system, (f system).planets.Sublist (system.planets ++ new)) :
    ListsFrom (register ++ new) (s.modify changed f) where
  sound := hs.sound.modify changed f
  sublist {key system} hsystem := by
    rw [Slots.get?_modify] at hsystem
    split at hsystem
    · obtain ⟨before, hbefore, rfl⟩ := Option.map_eq_some_iff.mp hsystem
      exact (hf before).trans ((hs.sublist hbefore).append (.refl new))
    · exact (hs.sublist hsystem).trans (List.sublist_append_left register new)

/-- Keys that no list holds do no harm. -/
theorem ListsFrom.append (hs : ListsFrom register s) (new : List PlanetKey) :
    ListsFrom (register ++ new) s where
  sound := hs.sound
  sublist hsystem := (hs.sublist hsystem).trans (List.sublist_append_left register new)

end

/-! ### The register -/

/-- Keys that were given to planets so far, in order. What a system lists is a part of them. -/
structure IsRegister (g : Galaxy α) (register : List PlanetKey) : Prop where
  nodup : register.Nodup
  issued : ∀ p ∈ register, g.planets.Issued p
  lists : ListsFrom register g.systems

/-- No keys were given yet. -/
theorem isRegister_empty : ({} : Galaxy α).IsRegister [] where
  nodup := List.nodup_nil
  issued _ hp := nomatch hp
  lists := ⟨Slots.isSound_empty, fun hsystem => nomatch hsystem⟩

variable {register : List PlanetKey}

/-- A key that is given is none that was given before. -/
theorem IsRegister.notMem (hregister : g.IsRegister register) (hg : g.IsOrderly) {e : Edit α}
    {new : PlanetKey} (hgiven : g.given? e = some new) : new ∉ register := by
  intro hmem
  obtain ⟨_, _, rfl, hadd⟩ := given?_eq_some hgiven
  obtain ⟨-, hnew, -⟩ := addPlanet_eq_ok hadd
  exact hg.planets.insert_fst_ne (hregister.issued new hmem) _ hnew

/-- **An edit** takes the key that it gives into the register. -/
theorem IsRegister.edit (hregister : g.IsRegister register) (hg : g.IsOrderly) (e : Edit α) :
    (g.edit e).IsRegister (register ++ (g.given? e).toList) := by
  constructor
  case nodup =>
    cases hgiven : g.given? e with
    | none => simpa using hregister.nodup
    | some new =>
      apply hregister.nodup.append (List.nodup_singleton new)
      exact List.disjoint_singleton.mpr (hregister.notMem hg hgiven)
  case issued =>
    intro p hp
    rcases List.mem_append.mp hp with hold | hnew
    · exact hg.issued_edits (hregister.issued p hold) [e]
    · -- The planet that was just added is there.
      obtain ⟨_, _, rfl, hadd⟩ := given?_eq_some (Option.mem_toList.mp hnew)
      have hhome : (g.edit _).home? p = some _ := ((hg.home?_addPlanet hadd p).2).trans (if_pos rfl)
      obtain ⟨planet, hplanet, -⟩ := Option.map_eq_some_iff.mp hhome
      exact Slots.issued_of_get? hplanet
  case lists =>
    apply systems_edit
    case hinsert => exact fun s system hempty hs => hs.insert hempty
    case herase => exact fun s key hs => hs.erase key
    case hmap => exact fun s f hf hs => hs.map fun system => (hf system).1
    case hmodify =>
      intro s key f hf hs
      -- What strikes planets needs no new keys.
      rw [← List.append_nil (register ++ _)]
      apply hs.modify key
      intro system
      rw [List.append_nil]
      exact (hf system).1
    case happend =>
      intro key new hgiven
      rw [hgiven]
      exact hregister.lists.modify key fun _ => .refl _
    case hP => exact hregister.lists.append _

/-- **Edits** take the keys that they give into the register, one after the other. -/
theorem IsRegister.edits (hregister : g.IsRegister register) (hg : g.IsOrderly)
    (edits : List (Edit α)) :
    (edits.foldl Galaxy.edit g).IsRegister (register ++ g.given edits) := by
  -- Each edit meets an orderly galaxy with its register and leaves one.
  induction edits generalizing g register with
  | nil => simpa [given] using hregister
  | cons e edits ih =>
    have hrest := ih (hregister.edit hg e) (hg.edit e)
    rwa [List.append_assoc] at hrest

/-- The keys that edits gave are a register of the galaxy they make. -/
theorem isRegister_ofEdits (edits : List (Edit α)) :
    (ofEdits edits).IsRegister (({} : Galaxy α).given edits) :=
  isRegister_empty.edits isOrderly_empty edits

/-- **Planets are listed in the order in which they were added.** -/
theorem map_planetsIn_ofEdits (edits : List (Edit α)) (key : SystemKey) :
    ((ofEdits edits).planetsIn key).map Prod.fst =
      (({} : Galaxy α).given edits).filter fun p => (ofEdits edits).home? p = some key := by
  have hg : (ofEdits edits).IsOrderly := isOrderly_ofEdits edits
  have hregister := isRegister_ofEdits edits
  have hsublist : (((ofEdits edits).planetsIn key).map Prod.fst).Sublist
      (({} : Galaxy α).given edits) := by
    cases hsystem : (ofEdits edits).system? key with
    | none =>
      rw [planetsIn, hsystem]
      exact List.nil_sublist _
    | some system =>
      rw [hg.map_planetsIn hsystem]
      exact hregister.lists.sublist hsystem
  -- Both are parts of the register, and they have the same members.
  have hpart := hsublist.filter fun p => (ofEdits edits).home? p = some key
  rw [List.filter_eq_self.mpr fun p hp => decide_eq_true (hg.mem_map_planetsIn_iff.mp hp)] at hpart
  apply hpart.eq_of_length_le
  apply List.Subperm.length_le
  apply List.subperm_of_subset (hregister.nodup.filter _)
  intro p hp
  exact hg.mem_map_planetsIn_iff.mpr (of_decide_eq_true (List.mem_filter.mp hp).2)

end GalaxyMarket.Galaxy
