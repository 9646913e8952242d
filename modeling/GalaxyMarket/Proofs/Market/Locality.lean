import GalaxyMarket.Proofs.Galaxy.Edits
import GalaxyMarket.Proofs.Market.Embedding

/-!
# Potentials are local

Intensity only spreads along routes. So a part of a galaxy that no coupled route leaves has the
potentials that it would have if the rest had never been there, and a system without routes has the
self resistance times its own intensity (`network_locality`).

What a galaxy keeps when systems are removed is an embedding: the keys stay as they are, and so does
everything the network reads about what is left (`Galaxy.embeds_removeSystem`). Its numbers may all
be others. The network of the part then is a network of its own (`Galaxy.Embeds.exists_part`), in
which vectors over the whole galaxy are read at the places of the part.
-/

namespace GalaxyMarket

open Matrix

/-! ### Removing systems -/

namespace Galaxy

section

variable {α : Type}

/-- Striking the jumps to one system leaves the question open whether jumps lead to another. -/
theorem jumpsTo_filter (system : System α) {key other : SystemKey} (hother : other ≠ key) :
    System.jumpsTo { system with jumps := system.jumps.filter fun jump => jump.target != key }
      other = system.jumpsTo other := by
  apply Bool.eq_iff_iff.mpr
  rw [mem_jumpsTo_iff, mem_jumpsTo_iff]
  constructor
  · rintro ⟨jump, hmem, rfl⟩
    exact ⟨jump, (List.mem_filter.mp hmem).1, rfl⟩
  · rintro ⟨jump, hmem, rfl⟩
    exact ⟨jump, List.mem_filter.mpr ⟨hmem, bne_iff_ne.mpr hother⟩, rfl⟩

/-- Exactly the one system goes, -/
theorem contains_removeSystem (g : Galaxy α) (key other : SystemKey) :
    (g.removeSystem key).systems.contains other = true ↔
      g.systems.contains other = true ∧ other ≠ key := by
  cases hsystem : g.system? key with
  | none =>
    have hne : g.systems.contains other = true → other ≠ key := by
      rintro hlive rfl
      obtain ⟨system, hsystem'⟩ := Slots.contains_iff.mp hlive
      cases hsystem.symm.trans hsystem'
    rw [removeSystem_of_none hsystem]
    exact ⟨fun hlive => ⟨hlive, hne hlive⟩, And.left⟩
  | some system =>
    show ((g.removeSystem key).system? other).isSome = true ↔ (g.system? other).isSome = true ∧ _
    rw [system?_removeSystem hsystem]
    by_cases hother : other = key
    · simp [hother]
    · rw [if_neg hother, Option.isSome_map]
      exact (and_iff_left hother).symm

/-- What is left when a system goes stands in the galaxy as before. -/
theorem embeds_removeSystem (g : Galaxy α) (key : SystemKey) :
    Embeds id (g.removeSystem key) g := by
  cases hsystem : g.system? key with
  | none =>
    rw [removeSystem_of_none hsystem]
    exact Embeds.refl g
  | some system =>
    have hkept : ∀ {a s}, (g.removeSystem key).system? a = some s → a ≠ key ∧
        ∃ t, g.system? a = some t ∧
          { t with jumps := t.jumps.filter fun jump => jump.target != key } = s := by
      intro a s hs
      rw [system?_removeSystem hsystem] at hs
      obtain ⟨hne, hs⟩ := Option.ite_none_left_eq_some.mp hs
      exact ⟨hne, Option.map_eq_some_iff.mp hs⟩
    constructor
    case system? =>
      intro a s hs
      obtain ⟨-, t, ht, rfl⟩ := hkept hs
      exact ⟨t, ht, rfl, rfl⟩
    case injOn => exact Set.injOn_id _
    case joined_iff =>
      intro a b ha hb _
      obtain ⟨s, hs⟩ : ∃ s, (g.removeSystem key).system? a = some s := Slots.contains_iff.mp ha
      obtain ⟨t, ht⟩ : ∃ t, (g.removeSystem key).system? b = some t := Slots.contains_iff.mp hb
      obtain ⟨hane, s', hs', rfl⟩ := hkept hs
      obtain ⟨hbne, t', ht', rfl⟩ := hkept ht
      -- Neither of the two is the one that goes, so that no jump between them is struck.
      rw [id, id, joined_iff hs' ht', joined_iff hs ht, jumpsTo_filter s' hbne,
        jumpsTo_filter t' hane]
    case allies =>
      intro a b
      rw [removeSystem, hsystem]
    case enemies =>
      intro a b
      rw [removeSystem, hsystem]

/-- and of several, exactly those. -/
theorem contains_foldl_removeSystem (g : Galaxy α) (removed : List SystemKey) (key : SystemKey) :
    (removed.foldl removeSystem g).systems.contains key = true ↔
      g.systems.contains key = true ∧ key ∉ removed := by
  -- Over the systems to remove, from the galaxy that the ones before them left.
  induction removed generalizing g with
  | nil => simp
  | cons first removed ih =>
    rw [List.foldl_cons, ih, contains_removeSystem, List.mem_cons, not_or, and_assoc]

/-- When all but a set of systems are removed, the set is left. -/
theorem mem_keys_foldl_removeSystem {g : Galaxy α} {removed : List SystemKey} {A : Set SystemKey}
    (hremoved : ∀ key, g.systems.contains key = true → (key ∈ removed ↔ key ∉ A))
    (key : SystemKey) : key ∈ (SystemIndex.ofGalaxy (removed.foldl removeSystem g)).keys ↔
      key ∈ (SystemIndex.ofGalaxy g).keys ∧ key ∈ A := by
  have hlive : ∀ g : Galaxy α, key ∈ (SystemIndex.ofGalaxy g).keys ↔
      g.systems.contains key = true := by
    intro g
    exact SystemIndex.mem_keys_ofGalaxy_iff.trans Slots.contains_iff.symm
  rw [hlive, hlive, contains_foldl_removeSystem]
  apply and_congr_right
  intro hkey
  rw [hremoved key hkey, not_not]

/-- **What is left when some systems go** stands in the galaxy as before. -/
theorem embeds_foldl_removeSystem (g : Galaxy α) (removed : List SystemKey) :
    Embeds id (removed.foldl removeSystem g) g := by
  induction removed generalizing g with
  | nil => exact Embeds.refl g
  | cons first removed ih => exact (ih (g.removeSystem first)).trans (g.embeds_removeSystem first)

end

/-! ### Parts -/

variable {g part : Galaxy ℝ} {config : Config ℝ} {index index' : SystemIndex}
  {m m' : SparseMatrix ℝ} {f : SystemKey → SystemKey}

/-- **A part that no coupled route leaves has a network of its own.** Its products are those of the
whole network, read at its places, and it is as good to solve. -/
theorem Embeds.exists_part (hf : Embeds f part g)
    (hpart : part.network config = .ok (index', m')) (hg : g.network config = .ok (index, m))
    (hclosed : ∀ a ∈ index'.keys, ∀ b, (∀ c ∈ index'.keys, f c ≠ b) →
      g.conductanceBetween? config (f a) b = none) :
    ∃ e : Fin m'.dim → Fin m.dim, SystemIndex.Places f index' index e ∧
      (∀ x : List ℝ, x.length = m.dim →
        m'.mulVec (Vector.select e x) = Vector.select e (m.mulVec x)) ∧
      (IsUnit m.toMatrix → IsUnit m'.toMatrix) ∧
      (m.toMatrix.PosDef → m'.toMatrix.PosDef) := by
  obtain ⟨e, hplaces, hmatrix⟩ := hf.exists_places hpart hg
  obtain ⟨rfl, hdim⟩ := dim_network hg
  obtain ⟨rfl, hdim'⟩ := dim_network hpart
  have hbeyond : ∀ k, ∀ i ∉ Set.range e, g.conductance config (e k) i = 0 := by
    intro k i hi
    obtain ⟨a, ha⟩ := SystemIndex.exists_system?_of_lt (k.isLt.trans_eq hdim')
    obtain ⟨b, hb⟩ := SystemIndex.exists_system?_of_lt (i.isLt.trans_eq hdim)
    -- A system of the part would have its place among those of the part.
    have houtside : ∀ c ∈ (SystemIndex.ofGalaxy part).keys, f c ≠ b := by
      rintro c hc rfl
      obtain ⟨l, hl⟩ := List.mem_iff_getElem?.mp hc
      have hlt : l < m'.dim := (SystemIndex.lt_size_of_system? hl).trans_eq hdim'.symm
      refine hi ⟨⟨l, hlt⟩, Fin.ext ?_⟩
      exact SystemIndex.system?_inj (hplaces.system? ⟨l, hlt⟩ c hl) hb
    rw [conductance, coupling?_of_system? (hplaces.system? k a ha) hb,
      hclosed a (List.mem_of_getElem? ha) b houtside, Option.getD_none]
  have hwhole := toMatrix_network hg
  refine ⟨e, hplaces, ?_, ?_, ?_⟩
  · intro x hx
    apply (wellFormed_network hpart).mulVec_select (wellFormed_network hg) _ hx
    intro y
    rw [hmatrix, hwhole]
    exact groundedLaplacian.mulVec_comp hplaces.injective hbeyond y
  · intro hunit
    rw [hmatrix]
    rw [hwhole] at hunit
    exact groundedLaplacian.isUnit_part (isSymm_conductance m.dim) hplaces.injective hbeyond hunit
  · intro hpos
    rw [hmatrix, groundedLaplacian.submatrix_eq hplaces.injective hbeyond, ← hwhole]
    exact hpos.submatrix hplaces.injective

/-- **The potentials of a part** are those of the whole network, read at its places. -/
theorem exists_potentials_part (hg : g.network config = .ok (index, m))
    (hpart : part.network config = .ok (index', m')) (hunit : IsUnit m.toMatrix)
    (hunit' : IsUnit m'.toMatrix) {e : Fin m'.dim → Fin m.dim}
    (hproduct : ∀ x : List ℝ, x.length = m.dim →
      m'.mulVec (Vector.select e x) = Vector.select e (m.mulVec x))
    {I : List ℝ} (hI : I.length = m.dim) :
    ∃ x, (∀ y, y.length = m.dim ∧ m.mulVec y = I ↔ y = x) ∧
      ∀ y, y.length = m'.dim ∧ m'.mulVec y = Vector.select e I ↔ y = Vector.select e x := by
  obtain ⟨x, hx⟩ := (wellFormed_network hg).exists_iff_eq hunit hI
  obtain ⟨x', hx'⟩ :=
    (wellFormed_network hpart).exists_iff_eq hunit' (Vector.length_select e I)
  obtain ⟨hlength, hmul⟩ := (hx x).mpr rfl
  -- The potentials of the whole, read at the places of the part, are potentials of the part, and it
  -- has no others.
  have hselect : Vector.select e x = x' := by
    apply (hx' _).mp
    exact ⟨Vector.length_select e x, by rw [hproduct x hlength, hmul]⟩
  exact ⟨x, hx, hselect ▸ hx'⟩

/-- What an exact method finds is the one solution. -/
theorem solve_of_forall_iff (hg : g.network config = .ok (index, m)) (hpos : m.toMatrix.PosDef)
    {solver : Solver ℝ} (hsolver : solver.IsExact) {I x : List ℝ} (hI : I.length = m.dim)
    (hx : ∀ y, y.length = m.dim ∧ m.mulVec y = I ↔ y = x) :
    (solver.prepare m).solve I = .ok x := by
  obtain ⟨y, hsolve, hy⟩ :=
    Solver.exists_solve ⟨wellFormed_network hg, isSymm_network hg, hpos⟩ hsolver hI
  rw [hsolve, (hx y).mp hy]

/-- A system that is coupled to no other has the self resistance times its own intensity. -/
theorem valueAt?_of_alone (hg : g.network config = .ok (index, m)) {key : SystemKey}
    (halone : ∀ other, g.conductanceBetween? config key other = none) {x : List ℝ}
    (hx : x.length = m.dim) :
    index.valueAt? x key = (index.valueAt? (m.mulVec x) key).map (config.selfResistance * ·) := by
  have hself := selfResistance_pos hg
  have hmatrix := toMatrix_network hg
  have hproduct := SparseMatrix.coords_mulVec (wellFormed_network hg) hx
  obtain ⟨rfl, hdim⟩ := dim_network hg
  by_cases hkey : key ∈ (SystemIndex.ofGalaxy g).keys
  · obtain ⟨i, hi⟩ := List.mem_iff_getElem?.mp hkey
    have hlt : i < m.dim := (SystemIndex.lt_size_of_system? hi).trans_eq hdim.symm
    have hnothing : ∀ j : Fin m.dim, g.conductance config i j = 0 := by
      intro j
      obtain ⟨b, hb⟩ := SystemIndex.exists_system?_of_lt (j.isLt.trans_eq hdim)
      rw [conductance, coupling?_of_system? hi hb, halone b, Option.getD_none]
    -- All of its intensity goes to the ground.
    have hground : Vector.coords m.dim (m.mulVec x) ⟨i, hlt⟩ =
        config.selfResistance⁻¹ * Vector.coords m.dim x ⟨i, hlt⟩ := by
      rw [hproduct, hmatrix, groundedLaplacian.mulVec_apply]
      apply add_eq_left.mpr
      apply Finset.sum_eq_zero
      intro j _
      rw [of_apply, hnothing j, zero_mul]
    rw [SystemIndex.valueAt?_eq_coords hx ⟨i, hlt⟩ hi,
      SystemIndex.valueAt?_eq_coords (m.length_mulVec x) ⟨i, hlt⟩ hi, hground, Option.map_some,
      mul_inv_cancel_left₀ hself.ne']
  · rw [SystemIndex.valueAt?_of_notMem _ hkey, SystemIndex.valueAt?_of_notMem _ hkey,
      Option.map_none]

end Galaxy

/-- **Potentials are local.** In every network, a system without coupled routes has the self
resistance times its own intensity. If the matrix is invertible, a set of systems that no coupled
route leaves keeps its potentials when all other systems are removed, in any order: the smaller
network has one vector of potentials for the intensities of the set, and there each system of the
set has the potential that it has in the whole galaxy. -/
theorem network_locality (g : Galaxy ℝ) {config : Config ℝ} {index : SystemIndex}
    {m : SparseMatrix ℝ} (h : g.network config = .ok (index, m)) :
    (∀ key, (∀ other, g.conductanceBetween? config key other = none) →
      ∀ x I : List ℝ, x.length = m.dim → m.mulVec x = I →
        index.valueAt? x key = (index.valueAt? I key).map (config.selfResistance * ·)) ∧
    (IsUnit m.toMatrix → ∀ (A : Set SystemKey) (removed : List SystemKey),
      (∀ a ∈ A, ∀ b ∉ A, g.conductanceBetween? config a b = none) →
      (∀ key, g.systems.contains key = true → (key ∈ removed ↔ key ∉ A)) →
      ∃ index' m', (removed.foldl Galaxy.removeSystem g).network config = .ok (index', m') ∧
        (∀ key, key ∈ index'.keys ↔ key ∈ index.keys ∧ key ∈ A) ∧
        ∀ I I' : List ℝ, I.length = m.dim → I'.length = m'.dim →
          (∀ key ∈ A, index'.valueAt? I' key = index.valueAt? I key) →
          ∃ x x', (∀ y, y.length = m.dim ∧ m.mulVec y = I ↔ y = x) ∧
            (∀ y, y.length = m'.dim ∧ m'.mulVec y = I' ↔ y = x') ∧
            (∀ key ∈ A, index'.valueAt? x' key = index.valueAt? x key) ∧
            (m.toMatrix.PosDef → ∀ solver : Solver ℝ, solver.IsExact →
              (solver.prepare m).solve I = .ok x ∧ (solver.prepare m').solve I' = .ok x')) := by
  constructor
  · rintro key halone x I hx rfl
    exact Galaxy.valueAt?_of_alone h halone hx
  · intro hunit A removed hclosed hremoved
    have hkeys := Galaxy.mem_keys_foldl_removeSystem hremoved
    obtain ⟨m', hm'⟩ := (removed.foldl Galaxy.removeSystem g).exists_network_of_pos
      (Galaxy.selfResistance_pos h)
    obtain ⟨e, hplaces, hproduct, hunit', hpos'⟩ :=
      (g.embeds_foldl_removeSystem removed).exists_part hm' h fun a ha b hb => by
        -- What is not left is not in the set, or it was never there.
        cases hsystem : g.system? b with
        | none => exact Galaxy.conductanceBetween?_of_none a hsystem
        | some system =>
          have hthere := SystemIndex.mem_keys_ofGalaxy_iff.mpr ⟨system, hsystem⟩
          apply hclosed a ((hkeys a).mp ha).2
          exact fun hbA => hb b ((hkeys b).mpr ⟨hthere, hbA⟩) rfl
    obtain ⟨rfl, -⟩ := Galaxy.dim_network h
    refine ⟨_, m', hm', hkeys, ?_⟩
    intro I I' hI hI' hagree
    -- The intensities of the part are the intensities at its places, and so are its potentials.
    obtain rfl : I' = Vector.select e I := by
      apply (hplaces.eq_select_iff hI' hI).mpr
      intro key hkey
      exact hagree key ((hkeys key).mp hkey).2
    obtain ⟨x, hx, hx'⟩ :=
      Galaxy.exists_potentials_part h hm' hunit (hunit' hunit) hproduct hI
    have hlength : x.length = m.dim := ((hx x).mpr rfl).1
    refine ⟨x, Vector.select e x, hx, hx', ?_, ?_⟩
    · intro key hkey
      by_cases hthere : key ∈ (SystemIndex.ofGalaxy g).keys
      · exact (hplaces.eq_select_iff (Vector.length_select e x) hlength).mp rfl key
          ((hkeys key).mpr ⟨hthere, hkey⟩)
      · rw [SystemIndex.valueAt?_of_notMem _ hthere, SystemIndex.valueAt?_of_notMem]
        exact fun hmem => hthere ((hkeys key).mp hmem).1
    · intro hpos solver hsolver
      exact ⟨Galaxy.solve_of_forall_iff h hpos hsolver hI hx,
        Galaxy.solve_of_forall_iff hm' (hpos' hpos) hsolver hI' hx'⟩

/-- Two systems with jumps between them, and a third without any. -/
def hermitage : List (Edit ℝ) :=
  [.addSystem { name := "System 0", nebula := ⟨0, 0⟩ },
    .addSystem { name := "System 1", nebula := ⟨0, 0⟩ },
    .addSystem { name := "System 2", nebula := ⟨0, 0⟩ },
    .connect ⟨0, 1⟩ ⟨1, 1⟩]

/-- No system of the hermitage lies in a nebula, and none has a jump to the third. -/
theorem system?_hermitage {key : SystemKey} {system : System ℝ}
    (h : (Galaxy.ofEdits hermitage).system? key = some system) :
    system.nebula = ⟨0, 0⟩ ∧ system.jumpsTo ⟨2, 1⟩ = false := by
  have hmem : (key, system) ∈ (Galaxy.ofEdits hermitage).systems.toList :=
    Slots.mem_toList_iff.mpr h
  change (key, system) ∈ [(⟨0, 1⟩, ⟨_, ⟨0, 0⟩, _, [{ target := ⟨1, 1⟩ }], _⟩),
    (⟨1, 1⟩, ⟨_, ⟨0, 0⟩, _, [{ target := ⟨0, 1⟩ }], _⟩), (⟨2, 1⟩, ⟨_, ⟨0, 0⟩, _, [], _⟩)] at hmem
  simp only [List.mem_cons, List.not_mem_nil, or_false, Prod.mk.injEq] at hmem
  rcases hmem with ⟨-, rfl⟩ | ⟨-, rfl⟩ | ⟨-, rfl⟩
  · exact ⟨rfl, rfl⟩
  · exact ⟨rfl, rfl⟩
  · exact ⟨rfl, rfl⟩

theorem conductanceBetween?_hermitage (other : SystemKey) :
    (Galaxy.ofEdits hermitage).conductanceBetween? Config.standard ⟨2, 1⟩ other = none := by
  cases hother : (Galaxy.ofEdits hermitage).system? other with
  | none => exact Galaxy.conductanceBetween?_of_none _ hother
  | some system =>
    have hback := (system?_hermitage hother).2
    unfold Galaxy.conductanceBetween?
    rw [hother]
    apply if_neg
    rintro ⟨-, hjump | hjump⟩
    · cases hjump
    · rw [hback] at hjump
      cases hjump

/-- The hermit keeps its potential when the others are removed. -/
theorem network_locality_hermitage : ∃ index m index' m' x x',
    (Galaxy.ofEdits hermitage).network Config.standard = .ok (index, m) ∧
      ([⟨0, 1⟩, ⟨1, 1⟩].foldl Galaxy.removeSystem (Galaxy.ofEdits hermitage)).network
        Config.standard = .ok (index', m') ∧
      m.mulVec x = [1, 2, 3] ∧ m'.mulVec x' = [3] ∧
      index.valueAt? x ⟨2, 1⟩ = some 9 ∧ index'.valueAt? x' ⟨2, 1⟩ = some 9 := by
  have hself : 0 < (Config.standard : Config ℝ).selfResistance := by norm_num [Config.standard]
  have hroutes : (Galaxy.ofEdits hermitage).RoutesPositive Config.standard := by
    apply Galaxy.routesPositive_of_config
    · norm_num [Config.standard]
    · norm_num [Config.standard]
    · norm_num [Config.standard]
    · intro key system hsystem
      rw [(system?_hermitage hsystem).1]
      exact ⟨le_rfl, le_rfl⟩
  obtain ⟨m, hm⟩ := Galaxy.exists_network_of_pos (Galaxy.ofEdits hermitage) hself
  have hunit : IsUnit m.toMatrix := (Galaxy.isSolvable_network hself hroutes hm).posDef.isUnit
  obtain ⟨halone, hpart⟩ := network_locality (Galaxy.ofEdits hermitage) hm
  have hclosed : ∀ a ∈ ({⟨2, 1⟩} : Set SystemKey), ∀ b ∉ ({⟨2, 1⟩} : Set SystemKey),
      (Galaxy.ofEdits hermitage).conductanceBetween? Config.standard a b = none := by
    rintro a rfl b -
    exact conductanceBetween?_hermitage b
  have hremoved : ∀ key, (Galaxy.ofEdits hermitage).systems.contains key = true →
      (key ∈ [⟨0, 1⟩, ⟨1, 1⟩] ↔ key ∉ ({⟨2, 1⟩} : Set SystemKey)) := by
    intro key hkey
    have hmem := SystemIndex.mem_keys_ofGalaxy_iff.mpr (Slots.contains_iff.mp hkey)
    change key ∈ [⟨0, 1⟩, ⟨1, 1⟩, ⟨2, 1⟩] at hmem
    simp only [List.mem_cons, List.not_mem_nil, or_false] at hmem
    rw [Set.mem_singleton_iff]
    rcases hmem with rfl | rfl | rfl
    all_goals decide
  obtain ⟨index', m', hm', hkeys, hpotentials⟩ := hpart hunit _ _ hclosed hremoved
  have hdim : m.dim = 3 := (Galaxy.dim_network hm).2
  obtain ⟨hindex, hdim'⟩ := Galaxy.dim_network hm'
  -- The hermit is all that is left.
  have hleft : index'.keys = [⟨2, 1⟩] := by
    have hnodup : index'.keys.Nodup := hindex ▸ SystemIndex.nodup_keys_ofGalaxy _
    apply List.perm_singleton.mp
    apply (List.perm_ext_iff_of_nodup hnodup (List.nodup_singleton _)).mpr
    intro key
    rw [hkeys, List.mem_singleton]
    refine ⟨And.right, ?_⟩
    rintro rfl
    exact ⟨by decide, rfl⟩
  have hsize : m'.dim = 1 := by rw [hdim', SystemIndex.size, hleft, List.length_singleton]
  have hagree : ∀ key ∈ ({⟨2, 1⟩} : Set SystemKey), index'.valueAt? [(3 : ℝ)] key =
      (SystemIndex.ofGalaxy (Galaxy.ofEdits hermitage)).valueAt? [1, 2, 3] key := by
    rintro key rfl
    have hplace : index'.position? ⟨2, 1⟩ = some 0 := by
      rw [hindex, SystemIndex.position?_ofGalaxy_eq_some_iff, ← hindex, SystemIndex.system?, hleft]
      rfl
    rw [SystemIndex.valueAt?, hplace]
    rfl
  obtain ⟨x, x', hx, hx', hsame, -⟩ := hpotentials [1, 2, 3] [3] hdim.symm hsize.symm hagree
  obtain ⟨hlength, hmul⟩ := (hx x).mpr rfl
  have hnine : (SystemIndex.ofGalaxy (Galaxy.ofEdits hermitage)).valueAt? x ⟨2, 1⟩ = some 9 := by
    rw [halone ⟨2, 1⟩ conductanceBetween?_hermitage x _ hlength hmul]
    show some _ = some _
    norm_num [Config.standard]
  exact ⟨_, m, index', m', x, x', hm, hm', hmul, ((hx' x').mpr rfl).2, hnine,
    (hsame _ rfl).trans hnine⟩

end GalaxyMarket
