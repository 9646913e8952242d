import GalaxyMarket.Proofs.Galaxy.Edits
import GalaxyMarket.Proofs.Market.Numbering

/-!
# Systems, jumps and planets refer to each other

A galaxy is two stores whose values name keys of each other: a system lists jumps to systems and the
planets that orbit it, a planet names its system. Slots are used again, so that a reference which
was left behind could one day hit a stranger. None is ever left behind (`Galaxy.isIntact_ofEdits`).

The planets were dealt with before (`Galaxy.IsOrderly`). The jumps are an invariant of their own,
`Galaxy.IsCharted`: jumps lead to systems that are there, and no system has two to the same. It only
speaks of the lists of jumps, and an edit does one of three things to these:

* `IsCharted.addSystem` — a new system comes without any;
* `IsCharted.removeSystem` — a system goes with its own, and the jumps to it are struck from all
  others;
* `IsCharted.modify` — one list changes. What is new in it leads to a system that is there.

From both invariants together, `IsOrderly.perm_planetsIn` goes through all systems and comes across
every planet once.
-/

namespace GalaxyMarket

variable {α : Type}

namespace Galaxy

/-- The jumps that a system lists. -/
def jumps? (g : Galaxy α) (key : SystemKey) : Option (List Jump) :=
  (g.system? key).map System.jumps

/-- Jumps lead to systems that are there, and no system has two jumps to the same one. -/
structure IsCharted (g : Galaxy α) : Prop where
  live : ∀ {key jumps}, g.jumps? key = some jumps →
    ∀ jump ∈ jumps, g.systems.contains jump.target = true
  nodup : ∀ {key jumps}, g.jumps? key = some jumps → (jumps.map Jump.target).Nodup

variable {g h : Galaxy α}

/-- There are no jumps that could lead nowhere. -/
theorem isCharted_empty : ({} : Galaxy α).IsCharted where
  live hjumps := nomatch hjumps
  nodup hjumps := nomatch hjumps

theorem jumps?_of_system? {key : SystemKey} {system : System α}
    (hsystem : g.system? key = some system) : g.jumps? key = some system.jumps := by
  rw [jumps?, hsystem, Option.map_some]

/-- Exactly the systems that are there have lists of jumps. -/
theorem contains_eq_isSome_jumps? (g : Galaxy α) (key : SystemKey) :
    g.systems.contains key = (g.jumps? key).isSome := by
  rw [jumps?, Option.isSome_map]
  rfl

/-- Being charted is a matter of the lists of jumps alone. -/
theorem IsCharted.of_eq (hg : g.IsCharted) (hjumps : ∀ key, h.jumps? key = g.jumps? key) :
    h.IsCharted where
  live {key jumps} hkey jump hjump := by
    rw [contains_eq_isSome_jumps?, hjumps, ← contains_eq_isSome_jumps?]
    exact hg.live (hjumps key ▸ hkey) jump hjump
  nodup {key jumps} hkey := hg.nodup (hjumps key ▸ hkey)

/-! ### Changing one list -/

/-- A change of one system changes one list at most. -/
theorem jumps?_modify (g : Galaxy α) (key : SystemKey) (f : System α → System α)
    (planets : Slots .planet Planet) (diplomacy : Diplomacy) (other : SystemKey) :
    jumps? { systems := g.systems.modify key f, planets, diplomacy } other =
      if other = key then (g.system? other).map fun system => (f system).jumps
      else g.jumps? other := by
  unfold jumps? system?
  rw [Slots.get?_modify]
  split
  · rw [Option.map_map]
    rfl
  · rfl

/-- **One list changes.** Of its new jumps each has to lead to a system that is there, and no two to
the same. The planets may become what they want. -/
theorem IsCharted.modify (hg : g.IsCharted) {key : SystemKey} {f : System α → System α}
    (hlive : ∀ system, ∀ jump ∈ (f system).jumps,
      jump ∈ system.jumps ∨ g.systems.contains jump.target = true)
    (hnodup : ∀ system, (system.jumps.map Jump.target).Nodup →
      ((f system).jumps.map Jump.target).Nodup)
    (planets : Slots .planet Planet) (diplomacy : Diplomacy) :
    IsCharted { systems := g.systems.modify key f, planets, diplomacy } := by
  -- A list after the change is an old one, or it is what became of one.
  have hcases : ∀ {other jumps},
      jumps? { systems := g.systems.modify key f, planets, diplomacy } other = some jumps →
        g.jumps? other = some jumps ∨
          ∃ system, g.jumps? other = some system.jumps ∧ (f system).jumps = jumps := by
    intro other jumps hjumps
    rw [jumps?_modify] at hjumps
    split at hjumps
    · obtain ⟨system, hsystem, rfl⟩ := Option.map_eq_some_iff.mp hjumps
      exact Or.inr ⟨system, jumps?_of_system? hsystem, rfl⟩
    · exact Or.inl hjumps
  constructor
  case live =>
    intro other jumps hjumps jump hjump
    -- No system has gone, so that the old galaxy can be asked whether targets are there.
    apply (Slots.contains_modify _ _ _ jump.target).trans
    rcases hcases hjumps with hold | ⟨system, hold, rfl⟩
    · exact hg.live hold jump hjump
    · rcases hlive system jump hjump with hmem | hthere
      · exact hg.live hold jump hmem
      · exact hthere
  case nodup =>
    intro other jumps hjumps
    rcases hcases hjumps with hold | ⟨system, hold, rfl⟩
    · exact hg.nodup hold
    · exact hnodup system (hg.nodup hold)

/-- Changing anything about a system but its list of jumps. -/
theorem IsCharted.modify_of_eq (hg : g.IsCharted) {key : SystemKey} {f : System α → System α}
    (hf : ∀ system, (f system).jumps = system.jumps) (planets : Slots .planet Planet)
    (diplomacy : Diplomacy) :
    IsCharted { systems := g.systems.modify key f, planets, diplomacy } := by
  apply hg.modify
  · intro system jump hjump
    exact Or.inl (hf system ▸ hjump)
  · intro system hnodup
    rwa [hf system]

/-- Striking jumps from a list. -/
theorem IsCharted.modify_filter (hg : g.IsCharted) (key : SystemKey) (keep : Jump → Bool) :
    IsCharted { g with systems := g.systems.modify key fun system =>
      { system with jumps := system.jumps.filter keep } } := by
  apply hg.modify
  · intro system jump hjump
    exact Or.inl (List.mem_filter.mp hjump).1
  · intro system hnodup
    exact hnodup.sublist (List.filter_sublist.map Jump.target)

/-- What is in a list with a jump was in it before or is the jump. -/
theorem mem_withJump {jumps : List Jump} {jump other : Jump} (hmem : other ∈ withJump jumps jump) :
    other ∈ jumps ∨ other = jump := by
  unfold withJump at hmem
  split at hmem
  · obtain ⟨old, hold, rfl⟩ := List.mem_map.mp hmem
    split
    · exact Or.inr rfl
    · exact Or.inl hold
  · rw [List.mem_append, List.mem_singleton] at hmem
    exact hmem

/-- A list of targets with one more, which goes to the end if it is not there yet. -/
def enlist (targets : List SystemKey) (target : SystemKey) : List SystemKey :=
  if target ∈ targets then targets else targets ++ [target]

/-- Nothing is lost, and nothing else is gained, -/
theorem mem_enlist_iff {targets : List SystemKey} {target other : SystemKey} :
    other ∈ enlist targets target ↔ other ∈ targets ∨ other = target := by
  unfold enlist
  split
  · next hknown =>
    constructor
    · exact Or.inl
    · rintro (hmem | rfl)
      · exact hmem
      · exact hknown
  · rw [List.mem_append, List.mem_singleton]

/-- and nothing is there twice. -/
theorem nodup_enlist {targets : List SystemKey} (target : SystemKey) (hnodup : targets.Nodup) :
    (enlist targets target).Nodup := by
  unfold enlist
  split
  · exact hnodup
  · next hnew => exact hnodup.append (List.nodup_singleton _) (List.disjoint_singleton.mpr hnew)

/-- What stands in the place of a jump when `jump` is taken in still leads to the same target. -/
theorem target_replace (jump old : Jump) :
    (if old.target == jump.target then jump else old).target = old.target := by
  split
  · next heq => exact (beq_iff_eq.mp heq).symm
  · rfl

theorem any_target_iff {jumps : List Jump} {target : SystemKey} :
    jumps.any (·.target == target) = true ↔ target ∈ jumps.map Jump.target := by
  simp

/-- A jump takes the place of the one to the same target, or goes to the end. -/
theorem map_target_withJump (jumps : List Jump) (jump : Jump) :
    (withJump jumps jump).map Jump.target = enlist (jumps.map Jump.target) jump.target := by
  unfold withJump enlist
  by_cases hknown : jump.target ∈ jumps.map Jump.target
  · rw [if_pos hknown, if_pos (any_target_iff.mpr hknown), List.map_map]
    apply List.map_congr_left
    intro old _
    exact target_replace jump old
  · rw [if_neg hknown, if_neg fun h => hknown (any_target_iff.mp h), List.map_append,
      List.map_singleton]

/-- A change of a system that is not to its jumps is none to the chart. -/
theorem IsCharted.updateSystem (hg : g.IsCharted) {key : SystemKey} {f : System α → System α}
    (hf : ∀ system, (f system).jumps = system.jumps)
    (hedit : g.updateSystem key f = .ok h) : h.IsCharted := by
  obtain ⟨-, rfl⟩ := updateSystem_eq_ok hedit
  exact hg.modify_of_eq hf _ _

/-- **Adding a jump** keeps a galaxy charted, since its target is there and no other jump to it
stays. -/
theorem IsCharted.addJump (hg : g.IsCharted) {origin : SystemKey} {jump : Jump}
    (hedit : g.addJump origin jump = .ok h) : h.IsCharted := by
  obtain ⟨htarget, rfl⟩ := addJump_eq_ok hedit
  apply hg.modify
  · intro system other hother
    rcases mem_withJump hother with hold | rfl
    · exact Or.inl hold
    · -- The target was looked up before the jump was taken in.
      exact Or.inr htarget
  · intro system hnodup
    show ((withJump system.jumps jump).map Jump.target).Nodup
    rw [map_target_withJump]
    exact nodup_enlist jump.target hnodup

/-- Connecting adds two jumps, -/
theorem IsCharted.connect (hg : g.IsCharted) {a b : SystemKey}
    (hedit : g.connect a b = .ok h) : h.IsCharted := by
  obtain ⟨middle, hfirst, hsecond⟩ := connect_eq_ok hedit
  exact (hg.addJump hfirst).addJump hsecond

/-- and disconnecting strikes some. -/
theorem IsCharted.disconnect (hg : g.IsCharted) (a b : SystemKey) : (g.disconnect a b).IsCharted :=
  (hg.modify_filter a _).modify_filter b _

/-- Planets come -/
theorem IsCharted.addPlanet (hg : g.IsCharted) {key : SystemKey} {planet : Planet}
    {new : PlanetKey} (hadd : g.addPlanet key planet = .ok (new, h)) : h.IsCharted := by
  obtain ⟨-, -, rfl⟩ := addPlanet_eq_ok hadd
  apply hg.modify_of_eq
  intro system
  rfl

/-- and go without any effect on jumps. -/
theorem IsCharted.removePlanet (hg : g.IsCharted) (key : PlanetKey) :
    (g.removePlanet key).IsCharted := by
  unfold Galaxy.removePlanet
  cases g.planet? key with
  | none => exact hg
  | some planet =>
    apply hg.modify_of_eq
    intro system
    rfl

/-! ### Systems come and go -/

/-- No jump leads to a new system yet, and it has none. -/
theorem IsCharted.addSystem (hg : g.IsCharted) (hsound : g.systems.IsSound) (system : System α) :
    (g.addSystem system).2.IsCharted := by
  let bare : System α := { system with jumps := [], planets := [] }
  have hjumps : ∀ key, (g.addSystem system).2.jumps? key =
      if key = (g.systems.insert bare).1 then some [] else g.jumps? key := by
    intro key
    show ((g.systems.insert bare).2.get? key).map System.jumps = _
    rw [(hsound.get?_insert bare key).2]
    split <;> rfl
  constructor
  case live =>
    intro key jumps hkey jump hjump
    rw [hjumps] at hkey
    split at hkey
    · cases hkey
      cases hjump
    · -- A jump that was there keeps its target: nothing that was there has gone.
      have hold := hg.live hkey jump hjump
      rw [contains_eq_isSome_jumps?] at hold ⊢
      rw [hjumps]
      split
      · rfl
      · exact hold
  case nodup =>
    intro key jumps hkey
    rw [hjumps] at hkey
    split at hkey
    · cases hkey
      exact List.nodup_nil
    · -- The list is that of a system that was there before.
      exact hg.nodup hkey

/-- The lists of all other systems lose the jumps to the one that goes. -/
theorem jumps?_removeSystem {key : SystemKey} {system : System α}
    (hsystem : g.system? key = some system) (other : SystemKey) :
    (g.removeSystem key).jumps? other = if other = key then none else
      (g.jumps? other).map (List.filter fun jump => jump.target != key) := by
  unfold jumps?
  rw [system?_removeSystem hsystem]
  split
  · rfl
  · rw [Option.map_map, Option.map_map]
    rfl

/-- The jumps to a system go with it, so that all that remain still lead somewhere. -/
theorem IsCharted.removeSystem (hg : g.IsCharted) (key : SystemKey) :
    (g.removeSystem key).IsCharted := by
  cases hsystem : g.system? key with
  | none =>
    rw [removeSystem_of_none hsystem]
    exact hg
  | some system =>
    -- A list that is left is what the filter left of an old one.
    have hcases : ∀ {other jumps}, (g.removeSystem key).jumps? other = some jumps →
        ∃ before, g.jumps? other = some before ∧
          before.filter (fun jump => jump.target != key) = jumps := by
      intro other jumps hjumps
      rw [jumps?_removeSystem hsystem] at hjumps
      split at hjumps
      · cases hjumps
      · exact Option.map_eq_some_iff.mp hjumps
    constructor
    case live =>
      intro other jumps hjumps jump hjump
      obtain ⟨before, hbefore, rfl⟩ := hcases hjumps
      obtain ⟨hmem, hne⟩ := List.mem_filter.mp hjump
      have hold := hg.live hbefore jump hmem
      rw [contains_eq_isSome_jumps?] at hold ⊢
      -- The target is not the system that goes, since the jump passed the filter.
      rw [jumps?_removeSystem hsystem, if_neg (bne_iff_ne.mp hne), Option.isSome_map]
      exact hold
    case nodup =>
      intro other jumps hjumps
      obtain ⟨before, hbefore, rfl⟩ := hcases hjumps
      exact (hg.nodup hbefore).sublist (List.filter_sublist.map Jump.target)

/-! ### Every edit -/

/-- **Every edit** keeps a galaxy charted. A new system takes a sound store, or else it could be
handed the key of one that is there. -/
theorem IsCharted.edit (hg : g.IsCharted) (hsound : g.systems.IsSound) (e : Edit α) :
    (g.edit e).IsCharted := by
  cases e with
  | addSystem system => exact hg.addSystem hsound system
  | removeSystem key => exact hg.removeSystem key
  -- Neither allegiance nor nebula leads anywhere.
  | setFaction key faction? =>
    refine unlessRefused_of hg fun h hok => hg.updateSystem ?_ hok
    exact fun _ => rfl
  | setNebula key nebula =>
    refine unlessRefused_of hg fun h hok => hg.updateSystem ?_ hok
    exact fun _ => rfl
  | addPlanet system planet =>
    apply unlessRefused_of hg
    intro h hok
    cases hadd : g.addPlanet system planet with
    | error e =>
      rw [hadd] at hok
      cases hok
    | ok added =>
      rw [hadd] at hok
      cases hok
      exact hg.addPlanet hadd
  | removePlanet key => exact hg.removePlanet key
  | updatePlanet key f => exact hg.of_eq fun _ => rfl
  | addJump origin jump => exact unlessRefused_of hg fun h hok => hg.addJump hok
  | connect a b => exact unlessRefused_of hg fun h hok => hg.connect hok
  | disconnect a b => exact hg.disconnect a b
  | declare a b standing => exact hg.of_eq fun _ => rfl

/-- **Every galaxy is charted**, whatever edits it was made by. -/
theorem isCharted_ofEdits (edits : List (Edit α)) : (ofEdits edits).IsCharted := by
  -- The slots of systems stay sound along the way, which is what a new system needs.
  suffices h : ∀ g : Galaxy α, g.IsOrderly → g.IsCharted →
      (edits.foldl Galaxy.edit g).IsCharted from h {} isOrderly_empty isCharted_empty
  intro g horderly hg
  induction edits generalizing g with
  | nil => exact hg
  | cons e edits ih => exact ih _ (horderly.edit e) (hg.edit horderly.systems e)

/-! ### Going through all systems -/

/-- The list of a system is the planets it is looked through for, none of them missing. -/
theorem IsOrderly.map_planetsIn (hg : g.IsOrderly) {key : SystemKey} {system : System α}
    (hsystem : g.system? key = some system) :
    (g.planetsIn key).map Prod.fst = system.planets := by
  have hlist : g.listed? key = some system.planets := listed?_of_system? hsystem
  have hpresent : ∀ p ∈ system.planets, ∃ planet, g.planet? p = some planet := by
    intro p hp
    have hhome : g.home? p = some key := (hg.mem_iff hlist p).mp hp
    obtain ⟨planet, hplanet, -⟩ := Option.map_eq_some_iff.mp hhome
    exact ⟨planet, hplanet⟩
  rw [planetsIn_eq, hlist, Option.getD_some, List.map_filterMap]
  -- Each key is found and comes back as it is.
  calc system.planets.filterMap (fun p => ((g.planet? p).map (p, ·)).map Prod.fst)
      = system.planets.filterMap some := by
        apply List.filterMap_congr
        intro p hp
        obtain ⟨planet, hplanet⟩ := hpresent p hp
        rw [hplanet]
        rfl
    _ = system.planets := List.filterMap_some

/-- **Going through all systems comes across every planet once.** -/
theorem IsOrderly.perm_planetsIn (hg : g.IsOrderly) :
    (g.systems.keys.flatMap g.planetsIn).Perm g.planets.toList := by
  have hsystems : g.systems.keys.Nodup := g.systems.nodup_slot_keys.of_map Key.slot
  have hplanets : g.planets.toList.Nodup :=
    (List.Nodup.of_map Key.slot g.planets.nodup_slot_keys).of_map Prod.fst
  apply (List.perm_ext_iff_of_nodup ?_ hplanets).mpr
  · rintro ⟨p, planet⟩
    rw [List.mem_flatMap, Slots.mem_toList_iff]
    constructor
    · rintro ⟨key, -, hmem⟩
      exact (hg.mem_planetsIn_iff.mp hmem).1
    · intro hplanet
      -- It is met in the system that it names, and this one is there.
      have hmem : (p, planet) ∈ g.planetsIn planet.system :=
        hg.mem_planetsIn_iff.mpr ⟨hplanet, rfl⟩
      have hsystem := Slots.contains_iff.mp (hg.contains_system hplanet)
      exact ⟨planet.system, Slots.mem_keys_iff.mpr hsystem, hmem⟩
  · rw [List.nodup_flatMap]
    constructor
    · intro key _
      exact (hg.nodup_planetsIn key).of_map Prod.fst
    · -- What two systems have in common names both of them.
      apply hsystems.imp
      intro a b hne
      rintro ⟨p, planet⟩ ha hb
      exact hne ((hg.mem_planetsIn_iff.mp ha).2.symm.trans (hg.mem_planetsIn_iff.mp hb).2)

/-- The systems list as many planets as there are. -/
theorem IsOrderly.size_planets (hg : g.IsOrderly) :
    g.planets.size = (g.systems.toList.map fun entry => entry.2.planets.length).sum := by
  calc g.planets.size
      = (g.systems.keys.flatMap g.planetsIn).length := hg.perm_planetsIn.length_eq.symm
    _ = (g.systems.toList.map fun entry => (g.planetsIn entry.1).length).sum := by
        rw [List.length_flatMap, Slots.keys, List.map_map]
        rfl
    _ = (g.systems.toList.map fun entry => entry.2.planets.length).sum := by
        congr 1
        apply List.map_congr_left
        rintro ⟨key, system⟩ hmem
        rw [← hg.map_planetsIn (Slots.mem_toList_iff.mp hmem), List.length_map]

/-! ### Both sides together -/

/-- Everything in a galaxy that names a key names the right one. -/
structure IsIntact (g : Galaxy α) : Prop where
  /-- Every jump leads to a system that is there. -/
  target_live : ∀ {key system}, g.system? key = some system →
    ∀ jump ∈ system.jumps, ∃ target, g.system? jump.target = some target
  /-- No system lists two jumps to the same one. -/
  targets_nodup : ∀ {key system}, g.system? key = some system →
    (system.jumps.map Jump.target).Nodup
  /-- Every planet on a list is there and orbits the system of the list. -/
  listed_live : ∀ {key system}, g.system? key = some system →
    ∀ p ∈ system.planets, ∃ planet, g.planet? p = some planet ∧ planet.system = key
  /-- It is listed once. -/
  listed_nodup : ∀ {key system}, g.system? key = some system → system.planets.Nodup
  /-- The systems that list a planet are the one that it names, which is there, and no other. -/
  listed_iff : ∀ {p planet}, g.planet? p = some planet →
    ∀ key, (∃ system, g.system? key = some system ∧ p ∈ system.planets) ↔ key = planet.system
  /-- Going through all systems comes across every planet once. -/
  perm_planetsIn : (g.systems.keys.flatMap g.planetsIn).Perm g.planets.toList
  /-- There are as many planets as the systems list. -/
  size_planets :
    g.planets.size = (g.systems.toList.map fun entry => entry.2.planets.length).sum

/-- A galaxy is intact if its planets are in order and its jumps are live. -/
theorem IsOrderly.isIntact (horderly : g.IsOrderly) (hcharted : g.IsCharted) : g.IsIntact := by
  constructor
  case target_live =>
    intro key system hsystem jump hjump
    exact Slots.contains_iff.mp (hcharted.live (jumps?_of_system? hsystem) jump hjump)
  case targets_nodup => exact fun hsystem => hcharted.nodup (jumps?_of_system? hsystem)
  case listed_live =>
    intro key system hsystem p hp
    have hhome : g.home? p = some key := (horderly.mem_iff (listed?_of_system? hsystem) p).mp hp
    exact Option.map_eq_some_iff.mp hhome
  case listed_nodup => exact fun hsystem => horderly.nodup (listed?_of_system? hsystem)
  -- The system that a planet names lists it, and a system that lists it is the one it names.
  case listed_iff =>
    intro p planet hplanet key
    have hhome : g.home? p = some planet.system := home?_of_planet? hplanet
    constructor
    · rintro ⟨system, hsystem, hp⟩
      rw [horderly.mem_iff (listed?_of_system? hsystem), hhome] at hp
      exact (Option.some.inj hp).symm
    · rintro rfl
      obtain ⟨list, hlist⟩ := horderly.homed hhome
      obtain ⟨system, hsystem, rfl⟩ := Option.map_eq_some_iff.mp hlist
      exact ⟨system, hsystem, (horderly.mem_iff hlist p).mpr hhome⟩
  case perm_planetsIn => exact horderly.perm_planetsIn
  case size_planets => exact horderly.size_planets

/-- **No reference is ever left behind**, whatever edits a galaxy was made by: jumps lead to systems
that are there, and systems and planets name each other. -/
theorem isIntact_ofEdits (edits : List (Edit α)) : (ofEdits edits).IsIntact :=
  (isOrderly_ofEdits edits).isIntact (isCharted_ofEdits edits)

end Galaxy

end GalaxyMarket
