import Mathlib
import GalaxyMarket.Galaxy.Shape
import GalaxyMarket.Proofs.Exact
import GalaxyMarket.Proofs.Market.Network
import GalaxyMarket.Proofs.Number.Operations

/-!
# The matrix of a network is a grounded Laplacian

`IsGroundedLaplacian` collects what the matrix of a network looks like, in terms of the galaxy
alone: the negative conductance beside the diagonal for each coupled pair, in both places and once,
and on the diagonal the conductances of a system's couplings and of the ground.
`network_isGroundedLaplacian` proves it of every network that has a matrix.
-/

namespace GalaxyMarket

open Scalar (recip?)

variable {α : Type} [Scalar α]

/-- What the matrix `m` of the network of `g` looks like, with `ground` for the conductance that
ties each system to the ground. -/
structure IsGroundedLaplacian (g : Galaxy α) (config : Config α) (ground : α)
    (index : SystemIndex) (m : SparseMatrix α) : Prop where
  /-- The systems are numbered as the galaxy lists them. -/
  index_eq : index = .ofGalaxy g
  /-- There is a row and a column for each system. -/
  dim_eq : m.dim = index.size
  /-- No place is stored twice. -/
  nodup : (m.entries.map Entry.place).Nodup
  /-- Beside the diagonal exactly the coupled pairs are stored, with their negative conductance. -/
  coupled : ∀ i j, i ≠ j → m.get? i j = (g.coupling? config i j).map (- ·)
  /-- Both places of a pair hold the same value. -/
  symm : ∀ i j, m.get? i j = m.get? j i
  /-- A place of the diagonal holds the conductances of the couplings of its system, each once and
  in some order, with the ground at the end. -/
  diagonal : ∀ i < index.size, ∃ order, order.Perm (g.couplings config i) ∧
    m.get? i i = some (Galaxy.sumThen order ground)
  /-- Where the order of additions does not matter, this is the ground and the couplings by number.
  -/
  diagonal_exact : (Std.Associative fun a b : α => a + b) → ∀ i < index.size,
    m.get? i i = some ((g.couplings config i).foldl (· + ·) ground)
  /-- One entry is stored for each system, and two for each coupled pair. -/
  size_eq : m.size = index.size + 2 * (g.coupledPairs config).card

/-! ### Counting what is stored -/

namespace Galaxy

variable {g : Galaxy α} {config : Config α}

theorem mem_coupledPairs_iff {i j : Nat} :
    (i, j) ∈ g.coupledPairs config ↔ i < j ∧ (g.coupling? config i j).isSome = true := by
  rw [coupledPairs, Finset.mem_filter, Finset.mem_product, Finset.mem_range, Finset.mem_range]
  refine ⟨And.right, fun h => ⟨?_, h⟩⟩
  obtain ⟨c, hc⟩ := Option.isSome_iff_exists.mp h.2
  exact (linked_of_coupling? hc).lt_size

/-- The stored places are the diagonal and both places of each coupled pair. -/
theorem mem_place_iff [Std.Commutative fun a b : α => a + b] {m : SparseMatrix α} {ground : α}
    (hm : SparseMatrix.ofEntries (SystemIndex.ofGalaxy g).size (g.networkEntries config ground) =
      .ok m) {i j : Nat} :
    (i, j) ∈ m.entries.map Entry.place ↔ i = j ∧ i < (SystemIndex.ofGalaxy g).size ∨
      (i, j) ∈ g.coupledPairs config ∨ (j, i) ∈ g.coupledPairs config := by
  have hwf := SparseMatrix.wellFormed_of_ofEntries hm
  -- A place is stored if a value is found there.
  have hstored : (i, j) ∈ m.entries.map Entry.place ↔ ∃ value, m.get? i j = some value := by
    constructor
    · intro h
      obtain ⟨⟨row, col, value⟩, he, heq⟩ := List.mem_map.mp h
      obtain ⟨rfl, rfl⟩ := Prod.mk.inj heq
      exact ⟨value, hwf.get?_eq_some_iff.mpr he⟩
    · rintro ⟨value, h⟩
      exact List.mem_map.mpr ⟨_, hwf.get?_eq_some_iff.mp h, rfl⟩
  have hdim : m.dim = (SystemIndex.ofGalaxy g).size := by
    rw [(SparseMatrix.ofEntries_eq_ok_iff.mp hm).2]
  rw [hstored, mem_coupledPairs_iff, mem_coupledPairs_iff]
  by_cases hij : i = j
  · subst hij
    simp only [lt_self_iff_false, false_and, or_false, true_and]
    refine ⟨fun ⟨value, h⟩ => hdim ▸ (hwf.lt_of_get?_eq_some h).1, fun h => ?_⟩
    exact ⟨_, get?_network_self hm h⟩
  · rw [get?_network_of_ne hm hij, coupling?_comm j i]
    simp only [Option.map_eq_some_iff, Option.isSome_iff_exists]
    constructor
    · rintro ⟨_, c, hc, -⟩
      rcases Nat.lt_or_gt_of_ne hij with h | h
      · exact Or.inr (Or.inl ⟨h, c, hc⟩)
      · exact Or.inr (Or.inr ⟨h, c, hc⟩)
    · rintro (⟨h, -⟩ | ⟨-, c, hc⟩ | ⟨-, c, hc⟩)
      · exact absurd h hij
      · exact ⟨_, c, hc, rfl⟩
      · exact ⟨_, c, hc, rfl⟩

/-- **The number of stored entries.** -/
theorem size_network [Std.Commutative fun a b : α => a + b] {m : SparseMatrix α} {ground : α}
    (hm : SparseMatrix.ofEntries (SystemIndex.ofGalaxy g).size (g.networkEntries config ground) =
      .ok m) : m.size = (SystemIndex.ofGalaxy g).size + 2 * (g.coupledPairs config).card := by
  let diagonal := (Finset.range (SystemIndex.ofGalaxy g).size).image fun i => (i, i)
  let upper := g.coupledPairs config
  let lower := (g.coupledPairs config).image Prod.swap
  -- The stored places, as a union of three sets.
  have hplaces : (m.entries.map Entry.place).toFinset = diagonal ∪ (upper ∪ lower) := by
    ext ⟨i, j⟩
    rw [List.mem_toFinset, mem_place_iff hm, Finset.mem_union, Finset.mem_union, Finset.mem_image,
      Finset.mem_image]
    refine or_congr ?_ (or_congr_right ?_)
    · constructor
      · rintro ⟨rfl, h⟩
        exact ⟨i, Finset.mem_range.mpr h, rfl⟩
      · rintro ⟨k, hk, heq⟩
        obtain ⟨rfl, rfl⟩ := Prod.mk.inj heq
        exact ⟨rfl, Finset.mem_range.mp hk⟩
    · constructor
      · exact fun h => ⟨(j, i), h, rfl⟩
      · rintro ⟨⟨k, l⟩, hkl, heq⟩
        obtain ⟨rfl, rfl⟩ := Prod.mk.inj heq
        exact hkl
  -- The pairs above and below the diagonal are apart, and so is the diagonal.
  have hupper : ∀ p ∈ upper, p.1 < p.2 := fun p hp => (mem_coupledPairs_iff.mp hp).1
  have hlower : ∀ p ∈ lower, p.2 < p.1 := fun p hp => by
    obtain ⟨q, hq, rfl⟩ := Finset.mem_image.mp hp
    exact hupper q hq
  have hdiagonal : ∀ p ∈ diagonal, p.1 = p.2 := fun p hp => by
    obtain ⟨k, -, rfl⟩ := Finset.mem_image.mp hp
    rfl
  have hsides : Disjoint upper lower := Finset.disjoint_left.mpr fun p hu hl => by
    have := hupper p hu
    have := hlower p hl
    omega
  have hrest : Disjoint diagonal (upper ∪ lower) := Finset.disjoint_left.mpr fun p hd hp => by
    have := hdiagonal p hd
    rcases Finset.mem_union.mp hp with hp | hp
    · have := hupper p hp
      omega
    · have := hlower p hp
      omega
  have hwf := SparseMatrix.wellFormed_of_ofEntries hm
  calc m.size = (m.entries.map Entry.place).toFinset.card := by
        rw [List.toFinset_card_of_nodup (Entry.nodup_place hwf.sorted), List.length_map]
        rfl
    _ = diagonal.card + (upper.card + lower.card) := by
        rw [hplaces, Finset.card_union_of_disjoint hrest, Finset.card_union_of_disjoint hsides]
    _ = (SystemIndex.ofGalaxy g).size + 2 * upper.card := by
        rw [Finset.card_image_of_injective _ fun i j h => (Prod.mk.inj h).1,
          Finset.card_image_of_injective _ Prod.swap_injective, Finset.card_range, two_mul]

end Galaxy

/-! ### The Laplacian -/

/-- **The matrix of a network is the grounded Laplacian of its couplings**, whatever the galaxy and
the tuning, over any arithmetic in which `a + b` is `b + a`, as it is for doubles and for real
numbers. -/
theorem network_isGroundedLaplacian [Std.Commutative fun a b : α => a + b] {g : Galaxy α}
    {config : Config α} {index : SystemIndex} {m : SparseMatrix α}
    (h : g.network config = .ok (index, m)) :
    ∃ ground, recip? config.selfResistance = some ground ∧ Scalar.lt 0 ground = true ∧
      IsGroundedLaplacian g config ground index m := by
  obtain ⟨ground, hrecip, hpos, rfl, hm⟩ := Galaxy.network_eq_ok_iff.mp h
  refine ⟨ground, hrecip, hpos, ?_⟩
  -- What was put in at a place is what is stored there.
  have hoff : ∀ i j, i ≠ j → m.get? i j = (g.coupling? config i j).map (- ·) :=
    fun i j hij => Galaxy.get?_network_of_ne hm hij
  exact {
    index_eq := rfl
    dim_eq := by rw [(SparseMatrix.ofEntries_eq_ok_iff.mp hm).2]
    nodup := Entry.nodup_place (SparseMatrix.wellFormed_of_ofEntries hm).sorted
    coupled := hoff
    symm := fun i j => by
      by_cases hij : i = j
      · rw [hij]
      · rw [hoff i j hij, hoff j i (Ne.symm hij), Galaxy.coupling?_comm]
    diagonal := fun i hi => ⟨_, g.routeConductances_perm config i, Galaxy.get?_network_self hm hi⟩
    diagonal_exact := fun _ i hi => by
      rw [Galaxy.get?_network_self hm hi, Galaxy.sumThen_eq_foldl,
        (g.routeConductances_perm config i).foldl_op_eq]
    size_eq := Galaxy.size_network hm }

/-- Three systems in clear space. Jumps lead both ways between the first two, the way there was
added twice, the second has a jump to itself, and a hidden jump leads from the third to the second,
which one faction holds. -/
def trio : Galaxy ℝ :=
  let (a, g) := ({} : Galaxy ℝ).addSystem { name := "A", nebula := ⟨0, 0⟩ }
  let (b, g) := g.addSystem { name := "B", nebula := ⟨0, 0⟩, faction? := some 1 }
  let (c, g) := g.addSystem { name := "C", nebula := ⟨0, 0⟩, faction? := some 1 }
  let linked := do
    let g ← g.connect a b
    let g ← g.addJump a { target := b, exitOnly := true }
    let g ← g.addJump b { target := b }
    g.addJump c { target := b, hidden := true }
  linked.toOption.getD {}

/-- The standard tuning, but for an alliance that takes off the whole resistance of a route. -/
noncomputable def alliedConfig : Config ℝ := { Config.standard with factionModifier := 1 }

/-- Three systems in a row, in doubles. -/
def chainOfThree : Galaxy Float := .ofShape .chain 3 100 []

/-- The first two systems of the trio are coupled once, the allied ones not at all: the resistance
between them is zero. In doubles, the neighbours of the row are coupled and its ends are not. -/
theorem network_isGroundedLaplacian_trio :
    (∃ index m, trio.network alliedConfig = .ok (index, m) ∧
      IsGroundedLaplacian trio alliedConfig (3⁻¹ : ℝ) index m ∧
      m.get? 0 1 = some (-30⁻¹) ∧ m.get? 2 1 = none) ∧
    ∃ index m, chainOfThree.network .standard = .ok (index, m) ∧
      IsGroundedLaplacian chainOfThree .standard (1 / 3) index m ∧
      m.get? 0 1 = some (-(1 / 30)) ∧ m.get? 1 0 = some (-(1 / 30)) ∧ m.get? 0 2 = none := by
  constructor
  · have hself : recip? alliedConfig.selfResistance = some (3⁻¹ : ℝ) := by
      simp [alliedConfig, Config.standard, Scalar.recip?_eq]
    have hpos : Scalar.lt 0 (3⁻¹ : ℝ) = true := by simp
    obtain ⟨m, hm⟩ := Galaxy.exists_network (g := trio) hself hpos
    obtain ⟨ground, hground, -, hlaplacian⟩ := network_isGroundedLaplacian hm
    obtain rfl : 3⁻¹ = ground := Option.some.inj (hself.symm.trans hground)
    refine ⟨_, m, hm, hlaplacian, ?_, ?_⟩
    · -- The resistance of a route in clear space is the base.
      have h : trio.coupling? alliedConfig 0 1 = some 30⁻¹ := by
        change recip? (Route.resistanceBetween alliedConfig trio.diplomacy
          ⟨"A", ⟨0, 0⟩, none, _, _⟩ ⟨"B", ⟨0, 0⟩, some 1, _, _⟩) = _
        simp [Route.resistanceBetween, alliedConfig, Config.standard, Scalar.recip?_eq]
      rw [hlaplacian.coupled 0 1 (by decide), h]
      rfl
    · -- The alliance takes off all of it.
      have h : trio.coupling? alliedConfig 2 1 = none := by
        change recip? (Route.resistanceBetween alliedConfig trio.diplomacy
          ⟨"C", ⟨0, 0⟩, some 1, [_], _⟩ ⟨"B", ⟨0, 0⟩, some 1, [_, _], _⟩) = _
        simp [Route.resistanceBetween, alliedConfig, Config.standard, Diplomacy.enemies,
          Diplomacy.allies]
      rw [hlaplacian.coupled 2 1 (by decide), h]
      rfl
  · have hself : recip? (Config.standard : Config Float).selfResistance = some (1 / 3) := by
      decide +kernel
    obtain ⟨m, hm⟩ := Galaxy.exists_network (g := chainOfThree) hself (by decide +kernel)
    obtain ⟨ground, hground, -, hlaplacian⟩ := network_isGroundedLaplacian hm
    obtain rfl : 1 / 3 = ground := Option.some.inj (hself.symm.trans hground)
    have hcoupled : chainOfThree.coupling? .standard 0 1 = some (1 / 30) := by decide +kernel
    have hapart : chainOfThree.coupling? .standard 0 2 = none := by decide +kernel
    refine ⟨_, m, hm, hlaplacian, ?_, ?_, ?_⟩
    · rw [hlaplacian.coupled 0 1 (by decide), hcoupled]
      rfl
    · rw [hlaplacian.symm 1 0, hlaplacian.coupled 0 1 (by decide), hcoupled]
      rfl
    · rw [hlaplacian.coupled 0 2 (by decide), hapart]
      rfl

end GalaxyMarket
