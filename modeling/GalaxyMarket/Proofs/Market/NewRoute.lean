import GalaxyMarket.Proofs.Galaxy.Integrity
import GalaxyMarket.Proofs.Galaxy.Listing
import GalaxyMarket.Proofs.Market.Locality

/-!
# A new route brings its ends together

Connecting two systems that are not coupled yet narrows the gap between their potentials, whatever
the rest of the galaxy looks like and whatever the intensities are (`connect_narrows_potentials`).

What connecting does to a galaxy is put by `Galaxy.Extends`: some jumps are added, and all else that
the network reads stays as it is, the numbers of the systems included. In the matrix this is one new
resistor (`Galaxy.Extends.conductance_eq`), so that the networks before and after can be compared as
in `groundedLaplacian.difference_of_new`.
-/

namespace GalaxyMarket

open Matrix

namespace Galaxy

/-! ### Adding jumps -/

section

variable {α : Type} {g h k : Galaxy α} {new new' : SystemKey → SystemKey → Prop}

/-- Taking in a jump opens the way to its target, and no other way is opened or closed. -/
theorem jumpsTo_withJump (system : System α) (jump : Jump) (key : SystemKey) :
    System.jumpsTo { system with jumps := withJump system.jumps jump } key = true ↔
      system.jumpsTo key = true ∨ jump.target = key := by
  have hmem : ∀ {system : System α} {key : SystemKey},
      system.jumpsTo key = true ↔ key ∈ system.jumps.map Jump.target := any_target_iff
  rw [hmem, hmem, eq_comm (a := jump.target)]
  show key ∈ (withJump system.jumps jump).map Jump.target ↔ _
  rw [map_target_withJump, mem_enlist_iff]

/-- **A galaxy with more jumps**: those from `key` to `other` with `new key other` are added, and
nothing else that a network is made of has changed. -/
structure Extends (new : SystemKey → SystemKey → Prop) (g h : Galaxy α) : Prop where
  keys_eq : h.systems.keys = g.systems.keys
  diplomacy_eq : h.diplomacy = g.diplomacy
  system? : ∀ {key s}, g.system? key = some s →
    ∃ t, h.system? key = some t ∧ t.nebula = s.nebula ∧ t.faction? = s.faction? ∧
      ∀ other, t.jumpsTo other = true ↔ s.jumpsTo other = true ∨ new key other

/-- Jumps can be added in several steps. -/
theorem Extends.trans (hgh : Extends new g h) (hhk : Extends new' h k) :
    Extends (fun key other => new key other ∨ new' key other) g k where
  keys_eq := hhk.keys_eq.trans hgh.keys_eq
  diplomacy_eq := hhk.diplomacy_eq.trans hgh.diplomacy_eq
  system? := by
    intro key s hs
    obtain ⟨t, ht, hnebula, hfaction, hjumps⟩ := hgh.system? hs
    obtain ⟨u, hu, hnebula', hfaction', hjumps'⟩ := hhk.system? ht
    refine ⟨u, hu, hnebula'.trans hnebula, hfaction'.trans hfaction, ?_⟩
    intro other
    rw [hjumps', hjumps, or_assoc]

/-- All systems are still there. -/
theorem Extends.contains (hgh : Extends new g h) {key : SystemKey}
    (hkey : g.systems.contains key = true) : h.systems.contains key = true := by
  obtain ⟨s, hs⟩ := Slots.contains_iff.mp hkey
  obtain ⟨t, ht, -⟩ := hgh.system? hs
  exact Slots.contains_iff.mpr ⟨t, ht⟩

/-- A jump between two systems that exist is taken in. -/
theorem exists_addJump {origin : SystemKey} (jump : Jump)
    (horigin : g.systems.contains origin = true)
    (htarget : g.systems.contains jump.target = true) :
    ∃ h, g.addJump origin jump = .ok h ∧
      Extends (fun key other => key = origin ∧ jump.target = other) g h := by
  unfold addJump updateSystem
  rw [if_pos htarget, if_pos horigin]
  refine ⟨_, rfl, ?_⟩
  constructor
  case keys_eq => exact Slots.keys_modify ..
  case diplomacy_eq => rfl
  case system? =>
    intro key s hs
    have hafter := Slots.get?_modify g.systems origin
      (fun system => { system with jumps := withJump system.jumps jump }) key
    -- Only the origin has another list of jumps afterwards.
    by_cases hkey : key = origin
    · rw [if_pos hkey, show g.systems.get? key = some s from hs, Option.map_some] at hafter
      refine ⟨_, hafter, rfl, rfl, ?_⟩
      intro other
      rw [jumpsTo_withJump, and_iff_right hkey]
    · rw [if_neg hkey] at hafter
      refine ⟨s, hafter.trans hs, rfl, rfl, ?_⟩
      intro other
      simp [hkey]

/-- **Two systems that exist are connected**, by a jump each way. -/
theorem exists_connect {a b : SystemKey} (ha : g.systems.contains a = true)
    (hb : g.systems.contains b = true) :
    ∃ h, g.connect a b = .ok h ∧ Extends (fun key other => s(key, other) = s(a, b)) g h := by
  obtain ⟨h, hthere, hextends⟩ := exists_addJump { target := b } ha hb
  obtain ⟨k, hback, hextends'⟩ := exists_addJump { target := a } (hextends.contains hb)
    (hextends.contains ha)
  refine ⟨k, ?_, ?_⟩
  · unfold connect
    rw [hthere]
    exact hback
  · -- The unordered pair stands for the two jumps.
    have heq : (fun key other => s(key, other) = s(a, b)) =
        fun key other => key = a ∧ b = other ∨ key = b ∧ a = other := by
      funext key other
      rw [Sym2.eq_iff, eq_comm (a := other), eq_comm (a := other)]
    rw [heq]
    exact hextends.trans hextends'

/-- The systems keep their numbers. -/
theorem Extends.ofGalaxy_eq (hgh : Extends new g h) :
    SystemIndex.ofGalaxy h = SystemIndex.ofGalaxy g := by
  unfold SystemIndex.ofGalaxy
  rw [hgh.keys_eq]

/-- So do the resistances between them. -/
theorem Extends.resistanceBetween_eq [Scalar α] (hgh : Extends new g h) (config : Config α)
    {s t s' t' : System α} (hs : s'.nebula = s.nebula ∧ s'.faction? = s.faction?)
    (ht : t'.nebula = t.nebula ∧ t'.faction? = t.faction?) :
    Route.resistanceBetween config h.diplomacy s' t' =
      Route.resistanceBetween config g.diplomacy s t := by
  rw [hgh.diplomacy_eq]
  exact resistanceBetween_congr hs ht (fun _ _ => rfl) fun _ _ => rfl

end

/-! ### One more resistor -/

variable {g h : Galaxy ℝ} {config : Config ℝ} {a b : SystemKey} {s t : System ℝ}

/-- A new route of positive resistance leaves all resistances positive. -/
theorem Extends.routesPositive
    (hgh : Extends (fun key other => s(key, other) = s(a, b)) g h)
    (hroutes : g.RoutesPositive config) (hs : g.system? a = some s) (ht : g.system? b = some t)
    (hnew : a ≠ b → 0 < Route.resistanceBetween config g.diplomacy s t) :
    h.RoutesPositive config := by
  intro c d u' v' hu' hv' hcd hjump
  -- No system has come, so that both ends of a route were there before.
  have hlive : ∀ {key w'}, h.system? key = some w' → ∃ w, g.system? key = some w := by
    intro key w' hw'
    apply Slots.mem_keys_iff.mp
    rw [← hgh.keys_eq]
    exact Slots.mem_keys_iff.mpr ⟨w', hw'⟩
  obtain ⟨u, hu⟩ := hlive hu'
  obtain ⟨v, hv⟩ := hlive hv'
  obtain ⟨_, hu'', hnebula, hfaction, hjumps⟩ := hgh.system? hu
  obtain rfl := Option.some.inj (hu'.symm.trans hu'')
  obtain ⟨_, hv'', hnebula', hfaction', -⟩ := hgh.system? hv
  obtain rfl := Option.some.inj (hv'.symm.trans hv'')
  rw [hgh.resistanceBetween_eq config ⟨hnebula, hfaction⟩ ⟨hnebula', hfaction'⟩]
  -- A jump is an old one, or it is on the new route in either direction.
  cases (hjumps d).mp hjump with
  | inl hold => exact hroutes c d u v hu hv hcd hold
  | inr hpair =>
    rcases Sym2.eq_iff.mp hpair with ⟨rfl, rfl⟩ | ⟨rfl, rfl⟩
    · obtain rfl := Option.some.inj (hu.symm.trans hs)
      obtain rfl := Option.some.inj (hv.symm.trans ht)
      exact hnew hcd
    · obtain rfl := Option.some.inj (hu.symm.trans ht)
      obtain rfl := Option.some.inj (hv.symm.trans hs)
      rw [Route.resistanceBetween_comm]
      exact hnew hcd.symm

/-- Between systems that are not connected all stays as it is. -/
theorem Extends.conductanceBetween?_eq
    (hgh : Extends (fun key other => s(key, other) = s(a, b)) g h) {c d : SystemKey}
    (hc : g.systems.contains c = true) (hd : g.systems.contains d = true)
    (hcd : s(c, d) ≠ s(a, b)) :
    h.conductanceBetween? config c d = g.conductanceBetween? config c d := by
  obtain ⟨u, hu⟩ : ∃ u, g.system? c = some u := Slots.contains_iff.mp hc
  obtain ⟨v, hv⟩ : ∃ v, g.system? d = some v := Slots.contains_iff.mp hd
  obtain ⟨u', hu', hnebula, hfaction, hjumps⟩ := hgh.system? hu
  obtain ⟨v', hv', hnebula', hfaction', hjumps'⟩ := hgh.system? hv
  have hthere : u'.jumpsTo d = true ↔ u.jumpsTo d = true := by
    rw [hjumps, or_iff_left hcd]
  have hback : v'.jumpsTo c = true ↔ v.jumpsTo c = true := by
    rw [hjumps', Sym2.eq_swap, or_iff_left hcd]
  simp only [conductanceBetween?, hu, hv, hu', hv', Option.bind_eq_bind, Option.bind_some, hthere,
    hback, hgh.resistanceBetween_eq config ⟨hnebula, hfaction⟩ ⟨hnebula', hfaction'⟩]

/-- **What a new route adds to the network** is one resistor between its ends. -/
theorem Extends.conductance_eq
    (hgh : Extends (fun key other => s(key, other) = s(a, b)) g h)
    (hs : g.system? a = some s) (ht : g.system? b = some t) (hab : a ≠ b)
    (hnew : 0 < Route.resistanceBetween config g.diplomacy s t)
    (hfree : g.conductanceBetween? config a b = none) {p q : ℕ}
    (hp : (SystemIndex.ofGalaxy g).system? p = some a)
    (hq : (SystemIndex.ofGalaxy g).system? q = some b) {i j : ℕ}
    (hi : i < (SystemIndex.ofGalaxy g).size) (hj : j < (SystemIndex.ofGalaxy g).size) :
    h.conductance config i j = g.conductance config i j +
      if s(i, j) = s(p, q) then (Route.resistanceBetween config g.diplomacy s t)⁻¹ else 0 := by
  have hindex := hgh.ofGalaxy_eq
  by_cases hpair : s(i, j) = s(p, q)
  · -- There was nothing between the two, and now there is the route.
    have hends : h.conductance config p q =
          (Route.resistanceBetween config g.diplomacy s t)⁻¹ ∧ g.conductance config p q = 0 := by
      obtain ⟨s', hs', hnebula, hfaction, hjumps⟩ := hgh.system? hs
      obtain ⟨t', ht', hnebula', hfaction', -⟩ := hgh.system? ht
      have hjump : s'.jumpsTo b = true := (hjumps b).mpr (Or.inr rfl)
      have hcoupled : h.conductanceBetween? config a b =
          some (Route.resistanceBetween config g.diplomacy s t)⁻¹ := by
        simp only [conductanceBetween?, hs', ht', Option.bind_eq_bind, Option.bind_some, ne_eq,
          hab, not_false_eq_true, hjump, true_or, and_self, if_true,
          hgh.resistanceBetween_eq config ⟨hnebula, hfaction⟩ ⟨hnebula', hfaction'⟩]
        exact Scalar.recip?_of_ne_zero hnew.ne'
      rw [conductance, conductance, coupling?_of_system? hp hq, hfree,
        coupling?_of_system? (hindex ▸ hp) (hindex ▸ hq), hcoupled]
      exact ⟨rfl, rfl⟩
    rw [if_pos hpair]
    rcases Sym2.eq_iff.mp hpair with ⟨rfl, rfl⟩ | ⟨rfl, rfl⟩
    · rw [hends.1, hends.2, zero_add]
    · rw [h.conductance_comm, g.conductance_comm, hends.1, hends.2, zero_add]
  · obtain ⟨c, hc⟩ := SystemIndex.exists_system?_of_lt hi
    obtain ⟨d, hd⟩ := SystemIndex.exists_system?_of_lt hj
    -- Other places belong to another pair of systems.
    have hcd : s(c, d) ≠ s(a, b) := by
      intro heq
      apply hpair
      rcases Sym2.eq_iff.mp heq with ⟨rfl, rfl⟩ | ⟨rfl, rfl⟩
      · rw [SystemIndex.system?_inj hc hp, SystemIndex.system?_inj hd hq]
      · rw [SystemIndex.system?_inj hc hq, SystemIndex.system?_inj hd hp, Sym2.eq_swap]
    have hlive : ∀ {i key}, (SystemIndex.ofGalaxy g).system? i = some key →
        g.systems.contains key = true := by
      intro i key hkey
      exact Slots.contains_iff.mpr (SystemIndex.exists_system?_ofGalaxy_iff.mp ⟨i, hkey⟩)
    rw [if_neg hpair, add_zero, conductance, conductance, coupling?_of_system? hc hd,
      coupling?_of_system? (hindex ▸ hc) (hindex ▸ hd),
      hgh.conductanceBetween?_eq (hlive hc) (hlive hd) hcd]

/-- The product of a network, over whatever number of systems it is known to have. -/
theorem coords_mulVec_network {index : SystemIndex} {m : SparseMatrix ℝ}
    (hg : g.network config = .ok (index, m)) {n : ℕ} (hn : m.dim = n) {x : List ℝ}
    (hx : x.length = n) : Vector.coords n (m.mulVec x) =
      groundedLaplacian config.selfResistance⁻¹
        (.of fun i j : Fin n => g.conductance config i j) *ᵥ Vector.coords n x := by
  subst hn
  rw [SparseMatrix.coords_mulVec (wellFormed_network hg) hx, toMatrix_network hg]

/-- **The potentials of the ends before and after**: what their difference loses has the sign of
what is left of it. -/
theorem Extends.difference_eq
    (hgh : Extends (fun key other => s(key, other) = s(a, b)) g h)
    (hroutes : g.RoutesPositive config) (hs : g.system? a = some s) (ht : g.system? b = some t)
    (hnew : a ≠ b → 0 < Route.resistanceBetween config g.diplomacy s t)
    (hfree : g.conductanceBetween? config a b = none) {index index' : SystemIndex}
    {m m' : SparseMatrix ℝ} (hg : g.network config = .ok (index, m))
    (hh : h.network config = .ok (index', m')) {x x' : List ℝ} (hx : x.length = m.dim)
    (hx' : x'.length = m'.dim) (hsame : m'.mulVec x' = m.mulVec x) :
    ∃ va vb va' vb', index.valueAt? x a = some va ∧ index.valueAt? x b = some vb ∧
      index'.valueAt? x' a = some va' ∧ index'.valueAt? x' b = some vb' ∧
      (va' - vb' = 0 ∧ va - vb = 0 ∨ 0 < (va' - vb') * ((va - vb) - (va' - vb'))) := by
  obtain ⟨rfl, hdim⟩ := dim_network hg
  obtain ⟨rfl, hdim'⟩ := dim_network hh
  rw [hgh.ofGalaxy_eq] at hdim' ⊢
  obtain ⟨p, hp⟩ := SystemIndex.exists_system?_ofGalaxy_iff.mpr ⟨s, hs⟩
  obtain ⟨q, hq⟩ := SystemIndex.exists_system?_ofGalaxy_iff.mpr ⟨t, ht⟩
  -- Both networks have the same systems, at the same places.
  let n := (SystemIndex.ofGalaxy g).size
  let p' : Fin n := ⟨p, SystemIndex.lt_size_of_system? hp⟩
  let q' : Fin n := ⟨q, SystemIndex.lt_size_of_system? hq⟩
  have hxn : x.length = n := hx.trans hdim
  have hxn' : x'.length = n := hx'.trans hdim'
  refine ⟨Vector.coords n x p', Vector.coords n x q', Vector.coords n x' p', Vector.coords n x' q',
    SystemIndex.valueAt?_eq_coords hxn p' hp, SystemIndex.valueAt?_eq_coords hxn q' hq,
    SystemIndex.valueAt?_eq_coords hxn' p' hp, SystemIndex.valueAt?_eq_coords hxn' q' hq, ?_⟩
  by_cases hab : a = b
  · have hplaces : p' = q' := by
      subst hab
      exact Fin.ext (SystemIndex.system?_inj hp hq)
    rw [hplaces]
    exact Or.inl ⟨sub_self _, sub_self _⟩
  · -- Two systems have two places.
    have hends : p' ≠ q' := by
      intro heq
      have hpq : p = q := congrArg Fin.val heq
      exact hab (Option.some.inj ((hpq ▸ hp).symm.trans hq))
    apply groundedLaplacian.difference_of_new hends _ (inv_pos.mpr (hnew hab))
    · exact groundedLaplacian.posDef (isSymm_conductance n) (inv_pos.mpr (selfResistance_pos hg))
        fun i j => hroutes.conductance_nonneg i j
    · rw [← coords_mulVec_network hh hdim' hxn', ← coords_mulVec_network hg hdim hxn, hsame]
    · intro i j
      have hpair : s(i, j) = s(p', q') ↔ s((i : ℕ), (j : ℕ)) = s(p, q) := by
        simp only [Sym2.eq_iff, Fin.ext_iff]
        exact Iff.rfl
      show h.conductance config i j = g.conductance config i j + _
      rw [hgh.conductance_eq hs ht hab (hnew hab) hfree hp hq i.isLt j.isLt]
      simp only [hpair]

end Galaxy

/-! ### Potentials before and after -/

/-- A number that has the sign of what another exceeds it by has the sign of the other as well, and
is the smaller one. -/
theorem sign_eq_and_abs_lt {d d' : ℝ} (h : 0 < d' * (d - d')) :
    SignType.sign d' = SignType.sign d ∧ |d'| < |d| := by
  rcases pos_and_pos_or_neg_and_neg_of_mul_pos h with ⟨hd', hgap⟩ | ⟨hd', hgap⟩
  · have hlt : d' < d := sub_pos.mp hgap
    have hd : 0 < d := hd'.trans hlt
    rw [sign_pos hd', sign_pos hd, abs_of_pos hd', abs_of_pos hd]
    exact ⟨rfl, hlt⟩
  · have hlt : d < d' := sub_neg.mp hgap
    have hd : d < 0 := hlt.trans hd'
    rw [sign_neg hd', sign_neg hd, abs_of_neg hd', abs_of_neg hd]
    exact ⟨rfl, neg_lt_neg hlt⟩

/-- **A new route brings its ends together.** Where all routes have positive resistance, two systems
that exist and are not coupled can be connected. If the new route has positive resistance too, the
matrices before and after have exactly one vector of potentials for each vector of intensities,
which every exact method finds. The difference between the potentials at the two ends keeps its
sign, and it becomes smaller unless it was zero before. -/
theorem connect_narrows_potentials {g : Galaxy ℝ} {config : Config ℝ} {a b : SystemKey}
    {s t : System ℝ} {index : SystemIndex} {m : SparseMatrix ℝ}
    (hg : g.network config = .ok (index, m)) (hroutes : g.RoutesPositive config)
    (hs : g.system? a = some s) (ht : g.system? b = some t)
    (hfree : g.conductanceBetween? config a b = none)
    (hnew : a ≠ b → 0 < Route.resistanceBetween config g.diplomacy s t) :
    ∃ h m', g.connect a b = .ok h ∧ h.network config = .ok (index, m') ∧
      ∀ I : List ℝ, I.length = index.size →
        ∃ x x', (∀ y, y.length = m.dim ∧ m.mulVec y = I ↔ y = x) ∧
          (∀ y, y.length = m'.dim ∧ m'.mulVec y = I ↔ y = x') ∧
          (∀ solver : Solver ℝ, solver.IsExact →
            (solver.prepare m).solve I = .ok x ∧ (solver.prepare m').solve I = .ok x') ∧
          ∃ va vb va' vb', index.valueAt? x a = some va ∧ index.valueAt? x b = some vb ∧
            index.valueAt? x' a = some va' ∧ index.valueAt? x' b = some vb' ∧
            SignType.sign (va' - vb') = SignType.sign (va - vb) ∧
            (va' - vb' = 0 ∧ va - vb = 0 ∨ |va' - vb'| < |va - vb|) := by
  have hself := Galaxy.selfResistance_pos hg
  obtain ⟨h, hconnect, hgh⟩ := Galaxy.exists_connect (g := g) (Slots.contains_iff.mpr ⟨s, hs⟩)
    (Slots.contains_iff.mpr ⟨t, ht⟩)
  obtain ⟨m', hh⟩ := Galaxy.exists_network_of_pos h hself
  -- Both matrices are positive definite, so that each right-hand side has one vector of potentials.
  have hpos := (Galaxy.isSolvable_network hself hroutes hg).posDef
  have hpos' := (Galaxy.isSolvable_network hself (hgh.routesPositive hroutes hs ht hnew) hh).posDef
  obtain ⟨rfl, hdim⟩ := Galaxy.dim_network hg
  have hdim' := (Galaxy.dim_network hh).2
  have hindex := hgh.ofGalaxy_eq
  rw [hindex] at hdim'
  refine ⟨h, m', hconnect, hindex ▸ hh, ?_⟩
  intro I hI
  have hlength : I.length = m.dim := hI.trans hdim.symm
  have hlength' : I.length = m'.dim := hI.trans hdim'.symm
  obtain ⟨x, hx⟩ := (Galaxy.wellFormed_network hg).exists_iff_eq hpos.isUnit hlength
  obtain ⟨x', hx'⟩ := (Galaxy.wellFormed_network hh).exists_iff_eq hpos'.isUnit hlength'
  refine ⟨x, x', hx, hx', ?_, ?_⟩
  · intro solver hsolver
    exact ⟨Galaxy.solve_of_forall_iff hg hpos hsolver hlength hx,
      Galaxy.solve_of_forall_iff hh hpos' hsolver hlength' hx'⟩
  · obtain ⟨hxn, hmul⟩ := (hx x).mpr rfl
    obtain ⟨hxn', hmul'⟩ := (hx' x').mpr rfl
    obtain ⟨va, vb, va', vb', ha, hb, ha', hb', hgap⟩ := hgh.difference_eq hroutes hs ht hnew hfree
      hg hh hxn hxn' (hmul'.trans hmul.symm)
    rw [hindex] at ha' hb'
    refine ⟨va, vb, va', vb', ha, hb, ha', hb', ?_⟩
    cases hgap with
    | inl hlevel =>
      rw [hlevel.1, hlevel.2]
      exact ⟨rfl, Or.inl ⟨rfl, rfl⟩⟩
    | inr hdriven =>
      obtain ⟨hsign, hless⟩ := sign_eq_and_abs_lt hdriven
      exact ⟨hsign, Or.inr hless⟩

/-- Two systems without any jumps. -/
def strangers : Galaxy ℝ := .ofEdits
  [.addSystem { name := "System 0", nebula := ⟨0, 0⟩ },
    .addSystem { name := "System 1", nebula := ⟨0, 0⟩ }]

/-- Before the strangers are connected, each has the self resistance times its own intensity. Then
the lower potential is still the lower one, but not by as much. -/
theorem connect_narrows_potentials_strangers : ∃ h m m' x x' va' vb',
    strangers.connect ⟨0, 1⟩ ⟨1, 1⟩ = .ok h ∧
      strangers.network Config.standard = .ok (.ofGalaxy strangers, m) ∧
      h.network Config.standard = .ok (.ofGalaxy strangers, m') ∧
      m.mulVec x = [1, 2] ∧ m'.mulVec x' = [1, 2] ∧
      (SystemIndex.ofGalaxy strangers).valueAt? x ⟨0, 1⟩ = some 3 ∧
      (SystemIndex.ofGalaxy strangers).valueAt? x ⟨1, 1⟩ = some 6 ∧
      (SystemIndex.ofGalaxy strangers).valueAt? x' ⟨0, 1⟩ = some va' ∧
      (SystemIndex.ofGalaxy strangers).valueAt? x' ⟨1, 1⟩ = some vb' ∧
      va' < vb' ∧ vb' - va' < 3 := by
  have hself : 0 < (Config.standard : Config ℝ).selfResistance := by norm_num [Config.standard]
  -- Each of the two lies in clear space and has no jumps.
  have hplain : ∀ key system, strangers.system? key = some system →
      system.nebula = ⟨0, 0⟩ ∧ system.jumps = [] := by
    intro key system hsystem
    have hmem := Slots.mem_toList_iff.mpr hsystem
    change (key, system) ∈ [(⟨0, 1⟩, ⟨"System 0", ⟨0, 0⟩, none, [], []⟩),
      (⟨1, 1⟩, ⟨"System 1", ⟨0, 0⟩, none, [], []⟩)] at hmem
    simp only [List.mem_cons, List.not_mem_nil, or_false, Prod.mk.injEq] at hmem
    rcases hmem with ⟨-, rfl⟩ | ⟨-, rfl⟩
    · exact ⟨rfl, rfl⟩
    · exact ⟨rfl, rfl⟩
  have hroutes : strangers.RoutesPositive Config.standard := by
    intro a b s t hs _ _ hjump
    unfold System.jumpsTo at hjump
    rw [(hplain a s hs).2] at hjump
    cases hjump
  have hfree : ∀ a b, strangers.conductanceBetween? Config.standard a b = none := by
    intro a b
    unfold Galaxy.conductanceBetween?
    cases hs : strangers.system? a with
    | none => rfl
    | some s =>
      cases ht : strangers.system? b with
      | none => rfl
      | some t =>
        apply if_neg
        unfold System.jumpsTo
        rw [(hplain a s hs).2, (hplain b t ht).2]
        rintro ⟨-, hjump | hjump⟩ <;> cases hjump
  have hs : strangers.system? ⟨0, 1⟩ = some ⟨"System 0", ⟨0, 0⟩, none, [], []⟩ := rfl
  have ht : strangers.system? ⟨1, 1⟩ = some ⟨"System 1", ⟨0, 0⟩, none, [], []⟩ := rfl
  obtain ⟨m, hm⟩ := strangers.exists_network_of_pos hself
  obtain ⟨h, m', hconnect, hm', hpotentials⟩ := connect_narrows_potentials hm hroutes hs ht
    (hfree _ _) fun _ => by norm_num [Route.resistanceBetween, Config.standard]
  obtain ⟨x, x', hx, hx', -, va, vb, va', vb', ha, hb, ha', hb', hsign, hless⟩ :=
    hpotentials [1, 2] rfl
  obtain ⟨hlength, hmul⟩ := (hx x).mpr rfl
  -- Without a route nothing else counts for a system.
  have halone : ∀ key, (SystemIndex.ofGalaxy strangers).valueAt? x key =
      ((SystemIndex.ofGalaxy strangers).valueAt? [1, 2] key).map
        ((Config.standard : Config ℝ).selfResistance * ·) := by
    intro key
    rw [← hmul]
    exact Galaxy.valueAt?_of_alone hm (hfree key) hlength
  have hthree : (SystemIndex.ofGalaxy strangers).valueAt? x ⟨0, 1⟩ = some 3 := by
    rw [halone]
    show some _ = some _
    norm_num [Config.standard]
  have hsix : (SystemIndex.ofGalaxy strangers).valueAt? x ⟨1, 1⟩ = some 6 := by
    rw [halone]
    show some _ = some _
    norm_num [Config.standard]
  obtain rfl : va = 3 := Option.some.inj (ha.symm.trans hthree)
  obtain rfl : vb = 6 := Option.some.inj (hb.symm.trans hsix)
  have hnegative : va' - vb' < 0 := by
    apply sign_eq_neg_one_iff.mp
    rw [hsign]
    exact sign_neg (by norm_num)
  have hgap : |va' - vb'| < |(3 : ℝ) - 6| :=
    hless.resolve_left fun hlevel => absurd hlevel.1 hnegative.ne
  rw [abs_of_neg hnegative, neg_sub] at hgap
  norm_num at hgap
  exact ⟨h, m, m', x, x', va', vb', hconnect, hm, hm', hmul, ((hx' x').mpr rfl).2, hthree, hsix,
    ha', hb', sub_neg.mp hnegative, hgap⟩

end GalaxyMarket
