import GalaxyMarket.Proofs.Galaxy.Edits
import GalaxyMarket.Proofs.Linear.Renumbering
import GalaxyMarket.Proofs.Market.Embedding
import GalaxyMarket.Proofs.Market.Standstill

/-!
# Galaxies that differ in their keys alone

The same galaxy can be made in many ways. Systems and planets are added in one order or another,
some slots are used for the second time, a jump is entered from its one end or from the other.
`Galaxy.IsIsomorphic` says that two galaxies are the same but for that. In such galaxies

* the matrices of the networks are the same but for the numbering (`IsIsomorphic.exists_places`);
* corresponding systems have corresponding planets, though not in the same order
  (`IsIsomorphic.perm_planetsIn`);
* ledgers that agree on corresponding planets amount to the same intensities
  (`IsIsomorphic.intensities_eq_select`), as the excess of a system is a sum over its planets. With
  the aggregation that looks at the last planet alone this would be wrong.
-/

namespace GalaxyMarket

namespace Galaxy

/-- **Two galaxies are isomorphic**, by maps of the keys of their systems and planets: corresponding
systems lie in the same nebula, are in the same hands and are joined to corresponding ones;
corresponding planets orbit corresponding systems, with as many people; and factions stand the same.
-/
structure IsIsomorphic {α : Type} (σ : SystemKey → SystemKey) (π : PlanetKey → PlanetKey)
    (g h : Galaxy α) : Prop where
  systems : Set.BijOn σ {a | g.systems.contains a = true} {a | h.systems.contains a = true}
  planets : Set.BijOn π {q | g.planets.contains q = true} {q | h.planets.contains q = true}
  site : ∀ {a s t}, g.system? a = some s → h.system? (σ a) = some t →
    t.nebula = s.nebula ∧ t.faction? = s.faction?
  joined_iff : ∀ {a b}, g.systems.contains a = true → g.systems.contains b = true → a ≠ b →
    (h.Joined (σ a) (σ b) ↔ g.Joined a b)
  planet : ∀ {q p p'}, g.planet? q = some p → h.planet? (π q) = some p' →
    p'.system = σ p.system ∧ p'.population = p.population ∧ p'.inhabited = p.inhabited
  allies : ∀ a b, h.diplomacy.allies a b = g.diplomacy.allies a b
  enemies : ∀ a b, h.diplomacy.enemies a b = g.diplomacy.enemies a b

variable {σ : SystemKey → SystemKey} {π : PlanetKey → PlanetKey}

section

variable {α : Type} {g h : Galaxy α}

/-! ### Systems -/

/-- A galaxy is embedded in any that it is isomorphic to. -/
theorem IsIsomorphic.embeds (hiso : IsIsomorphic σ π g h) : Embeds σ g h where
  system? {a s} hs := by
    obtain ⟨t, ht⟩ := Slots.contains_iff.mp (hiso.systems.mapsTo (Slots.contains_iff.mpr ⟨s, hs⟩))
    exact ⟨t, ht, hiso.site hs ht⟩
  injOn := hiso.systems.injOn
  joined_iff := hiso.joined_iff
  allies := hiso.allies
  enemies := hiso.enemies

/-! ### Planets -/

/-- A planet has its counterpart, around the counterpart of its system. -/
theorem IsIsomorphic.exists_planet? (hiso : IsIsomorphic σ π g h) {q : PlanetKey} {p : Planet}
    (hp : g.planet? q = some p) : ∃ p', h.planet? (π q) = some p' ∧ p'.system = σ p.system ∧
      p'.population = p.population ∧ p'.inhabited = p.inhabited := by
  obtain ⟨p', hp'⟩ := Slots.contains_iff.mp (hiso.planets.mapsTo (Slots.contains_iff.mpr ⟨p, hp⟩))
  exact ⟨p', hp', hiso.planet hp hp'⟩

/-- **Corresponding systems have corresponding planets.** -/
theorem IsIsomorphic.perm_planetsIn (hiso : IsIsomorphic σ π g h) (hg : g.IsOrderly)
    (hh : h.IsOrderly) {a : SystemKey} (ha : g.systems.contains a = true) :
    ((h.planetsIn (σ a)).map Prod.fst).Perm (((g.planetsIn a).map Prod.fst).map π) := by
  have hlive : ∀ {q}, q ∈ (g.planetsIn a).map Prod.fst → g.planets.contains q = true := by
    intro q hq
    obtain ⟨p, hp, -⟩ := Option.map_eq_some_iff.mp (hg.mem_map_planetsIn_iff.mp hq)
    exact Slots.contains_iff.mpr ⟨p, hp⟩
  have hnodup : (((g.planetsIn a).map Prod.fst).map π).Nodup := by
    apply (hg.nodup_planetsIn a).map_on
    intro q hq r hr heq
    exact hiso.planets.injOn (hlive hq) (hlive hr) heq
  apply (List.perm_ext_iff_of_nodup (hh.nodup_planetsIn (σ a)) hnodup).mpr
  intro r
  rw [hh.mem_map_planetsIn_iff, List.mem_map]
  constructor
  · -- The planet is that of some planet here, which orbits a system that goes to the same.
    intro hr
    obtain ⟨p', hp', hsystem⟩ := Option.map_eq_some_iff.mp hr
    obtain ⟨q, hq, rfl⟩ := hiso.planets.surjOn (Slots.contains_iff.mpr ⟨p', hp'⟩)
    obtain ⟨p, hp⟩ : ∃ p, g.planet? q = some p := Slots.contains_iff.mp hq
    refine ⟨q, hg.mem_map_planetsIn_iff.mpr ?_, rfl⟩
    have hsame : σ p.system = σ a := (hiso.planet hp hp').1.symm.trans hsystem
    rw [home?_of_planet? hp]
    exact congrArg some (hiso.systems.injOn (hg.contains_system hp) ha hsame)
  · rintro ⟨q, hq, rfl⟩
    obtain ⟨p, hp, rfl⟩ := Option.map_eq_some_iff.mp (hg.mem_map_planetsIn_iff.mp hq)
    obtain ⟨p', hp', hsystem, -⟩ := hiso.exists_planet? hp
    rw [home?_of_planet? hp', hsystem]

end

variable {g h : Galaxy ℝ} {config : Config ℝ} {index index' : SystemIndex} {m m' : SparseMatrix ℝ}

/-- **The networks are the same but for the numbering.** -/
theorem IsIsomorphic.exists_places (hiso : IsIsomorphic σ π g h)
    (hg : g.network config = .ok (index, m)) (hh : h.network config = .ok (index', m')) :
    ∃ e : Fin m.dim → Fin m'.dim, SystemIndex.Places σ index index' e ∧ m.IsRenumbered m' e := by
  obtain ⟨e, hplaces, hmatrix⟩ := hiso.embeds.exists_places hg hh
  have hindex := (dim_network hg).1
  obtain ⟨hindex', hdim'⟩ := dim_network hh
  -- Every system over there is the counterpart of one here, so that no number is left over.
  have hsurjective : Function.Surjective e := by
    intro j
    obtain ⟨b, hb⟩ := SystemIndex.exists_system?_of_lt (j.isLt.trans_eq hdim')
    have hlive : h.systems.contains b = true := by
      rw [hindex'] at hb
      exact Slots.contains_iff.mpr (SystemIndex.exists_system?_ofGalaxy_iff.mp ⟨j, hb⟩)
    obtain ⟨a, ha, rfl⟩ := hiso.systems.surjOn hlive
    obtain ⟨i, hi⟩ := SystemIndex.exists_system?_ofGalaxy_iff.mpr (Slots.contains_iff.mp ha)
    rw [← hindex] at hi
    have hlt : i < m.dim := (SystemIndex.lt_size_of_system? hi).trans_eq hplaces.size_eq
    refine ⟨⟨i, hlt⟩, Fin.ext ?_⟩
    have himage := hplaces.system? ⟨i, hlt⟩ a hi
    rw [hindex'] at himage hb
    exact SystemIndex.system?_inj himage hb
  refine ⟨e, hplaces, ?_⟩
  constructor
  case wellFormed => exact wellFormed_network hg
  case wellFormed' => exact wellFormed_network hh
  case symm => exact isSymm_network hg
  case symm' => exact isSymm_network hh
  case bijective => exact ⟨hplaces.injective, hsurjective⟩
  case toMatrix_eq =>
    rw [hmatrix, toMatrix_network hh]
    apply groundedLaplacian.submatrix_eq hplaces.injective
    -- All of the larger network is reached.
    intro k j hj
    exact absurd (hsurjective j) hj

end Galaxy

/-! ### Intensities -/

namespace Ledger

/-- The quote that a planet contributes to its system, if it is inhabited, and the population behind
it. -/
def quoteOf? {α : Type} (ledger : Ledger α) (g : Galaxy α) (c : ℕ) (q : PlanetKey) :
    Option (ℕ × Quote α) :=
  (g.planet? q).bind fun planet =>
    if planet.inhabited then (ledger.get? q c).map (planet.population, ·) else none

/-- The quotes of a system are those of its planets, by their keys alone. -/
theorem quotes_planetsIn {α : Type} (ledger : Ledger α) {g : Galaxy α} (hg : g.IsOrderly) (c : ℕ)
    (key : SystemKey) : ledger.quotes c (g.planetsIn key) =
      ((g.planetsIn key).map Prod.fst).filterMap (ledger.quoteOf? g c) := by
  unfold quotes
  rw [List.filterMap_map]
  apply List.filterMap_congr
  rintro ⟨q, planet⟩ hmem
  have hplanet := (hg.mem_planetsIn_iff.mp hmem).1
  show _ = ledger.quoteOf? g c q
  rw [quoteOf?, hplanet, Option.bind_some]

end Ledger

/-- The total excess of some quotes does not depend on their order. -/
theorem intensityOf_of_perm {config : Config ℝ} (hsum : config.aggregation = .systemTotal)
    {quotes quotes' : List (ℕ × Quote ℝ)} (hperm : quotes'.Perm quotes) :
    intensityOf config quotes' = intensityOf config quotes := by
  have hexcess : totalExcess quotes' = totalExcess quotes := by
    unfold totalExcess
    simp only [Scalar.sum_eq]
    rw [(hperm.map _).sum_eq, (hperm.map _).sum_eq]
  -- Whether there is any quote at all does not depend on the order either.
  by_cases hnil : quotes = []
  · rw [hnil] at hperm ⊢
    rw [hperm.eq_nil]
  · have hnil' : quotes' ≠ [] := fun heq => hnil (by rw [heq] at hperm; exact hperm.nil_eq.symm)
    rw [intensityOf_of_getLast? (List.getLast?_eq_some_getLast hnil),
      intensityOf_of_getLast? (List.getLast?_eq_some_getLast hnil'), hsum]
    dsimp only
    rw [hexcess]

namespace Galaxy

variable {σ : SystemKey → SystemKey} {π : PlanetKey → PlanetKey} {g h : Galaxy ℝ}
  {config : Config ℝ} {ledger ledger' : Ledger ℝ} {c : ℕ}

/-- **Corresponding systems have the same intensity**, if corresponding planets have the same
quotes. -/
theorem IsIsomorphic.intensityOf_eq (hiso : IsIsomorphic σ π g h) (hg : g.IsOrderly)
    (hh : h.IsOrderly) (hsum : config.aggregation = .systemTotal)
    (hquotes : ∀ q, g.planets.contains q = true → ledger'.get? (π q) c = ledger.get? q c)
    {a : SystemKey} (ha : g.systems.contains a = true) :
    intensityOf config (ledger'.quotes c (h.planetsIn (σ a))) =
      intensityOf config (ledger.quotes c (g.planetsIn a)) := by
  apply intensityOf_of_perm hsum
  rw [ledger'.quotes_planetsIn hh, ledger.quotes_planetsIn hg]
  -- Corresponding planets contribute the same quote, and their order makes no difference to the
  -- sum.
  refine ((hiso.perm_planetsIn hg hh ha).filterMap _).trans (List.Perm.of_eq ?_)
  rw [List.filterMap_map]
  apply List.filterMap_congr
  intro q hq
  obtain ⟨p, hp, -⟩ := Option.map_eq_some_iff.mp (hg.mem_map_planetsIn_iff.mp hq)
  obtain ⟨p', hp', -, hpopulation, hinhabited⟩ := hiso.exists_planet? hp
  show ledger'.quoteOf? h c (π q) = ledger.quoteOf? g c q
  rw [Ledger.quoteOf?, Ledger.quoteOf?, hp, hp', Option.bind_some, Option.bind_some, hpopulation,
    hinhabited, hquotes q (Slots.contains_iff.mpr ⟨p, hp⟩)]

/-- The intensities of the one galaxy are those of the other, read at the places of its systems. -/
theorem IsIsomorphic.intensities_eq_select (hiso : IsIsomorphic σ π g h) (hg : g.IsOrderly)
    (hh : h.IsOrderly) (hsum : config.aggregation = .systemTotal)
    (hquotes : ∀ q, g.planets.contains q = true → ledger'.get? (π q) c = ledger.get? q c)
    {n k : ℕ} {e : Fin n → Fin k}
    (hplaces : SystemIndex.Places σ (.ofGalaxy g) (.ofGalaxy h) e)
    (hk : (SystemIndex.ofGalaxy h).size = k) :
    ledger.intensities config g c (SystemIndex.ofGalaxy g).keys =
      Vector.select e (ledger'.intensities config h c (SystemIndex.ofGalaxy h).keys) := by
  have hlength : (ledger.intensities config g c (SystemIndex.ofGalaxy g).keys).length = n :=
    (List.length_map _).trans hplaces.size_eq
  have hlength' : (ledger'.intensities config h c (SystemIndex.ofGalaxy h).keys).length = k :=
    (List.length_map _).trans hk
  -- In either galaxy the entry of a system is its intensity.
  have hentry : ∀ (g : Galaxy ℝ) (ledger : Ledger ℝ) {key : SystemKey},
      key ∈ (SystemIndex.ofGalaxy g).keys → (SystemIndex.ofGalaxy g).valueAt?
        (ledger.intensities config g c (SystemIndex.ofGalaxy g).keys) key =
          some (intensityOf config (ledger.quotes c (g.planetsIn key))) := by
    intro g ledger key hkey
    obtain ⟨i, hi⟩ := List.mem_iff_getElem?.mp hkey
    rw [SystemIndex.valueAt?, SystemIndex.position?_ofGalaxy_eq_some_iff.mpr hi, Option.bind_some,
      Ledger.intensities, List.getElem?_map, hi, Option.map_some]
  apply (hplaces.eq_select_iff hlength hlength').mpr
  intro key hkey
  have hlive : g.systems.contains key = true :=
    Slots.contains_iff.mpr (SystemIndex.mem_keys_ofGalaxy_iff.mp hkey)
  have hkey' : σ key ∈ (SystemIndex.ofGalaxy h).keys :=
    SystemIndex.mem_keys_ofGalaxy_iff.mpr (Slots.contains_iff.mp (hiso.systems.mapsTo hlive))
  rw [hentry g ledger hkey, hentry h ledger' hkey',
    hiso.intensityOf_eq hg hh hsum hquotes hlive]

end Galaxy

end GalaxyMarket
