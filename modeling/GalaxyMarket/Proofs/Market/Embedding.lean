import GalaxyMarket.Proofs.Galaxy.Slots
import GalaxyMarket.Proofs.Market.Energy

/-!
# Galaxies inside galaxies

Under which keys the systems of a galaxy are kept, in which order they are numbered and in which
direction a jump was entered is nothing that the network of a galaxy could tell. What it can tell is
kept by an embedding (`Galaxy.Embeds`): nebulae and factions, and which systems are joined.

The conductance between two systems only depends on these (`Embeds.conductanceBetween?_eq`). So the
systems of the smaller galaxy stand at certain places of the larger network (`SystemIndex.Places`),
and there they find the conductances that they have among themselves (`Embeds.exists_places`).
-/

namespace GalaxyMarket

open Scalar (recip?)

/-! ### Vectors over the systems -/

namespace SystemIndex

/-- The entry of a vector that belongs to a system. -/
def valueAt? {β : Type} (index : SystemIndex) (x : List β) (key : SystemKey) : Option β :=
  (index.position? key).bind (x[·]?)

/-- Systems of one numbering at places of another, where each is known by another key. -/
structure Places (f : SystemKey → SystemKey) (index index' : SystemIndex) {n k : ℕ}
    (e : Fin n → Fin k) : Prop where
  size_eq : index.size = n
  injective : Function.Injective e
  system? : ∀ (i : Fin n) a, index.system? i = some a → index'.system? (e i) = some (f a)

variable {f : SystemKey → SystemKey} {g h : Galaxy ℝ} {n k : ℕ} {e : Fin n → Fin k}

/-- Looking a system up is reading at its place. -/
theorem valueAt?_eq_coords {x : List ℝ} (hx : x.length = n) {key : SystemKey} (i : Fin n)
    (hi : (ofGalaxy g).system? i = some key) :
    (ofGalaxy g).valueAt? x key = some (Vector.coords n x i) := by
  have hlt : (i : ℕ) < x.length := i.isLt.trans_eq hx.symm
  rw [valueAt?, position?_ofGalaxy_eq_some_iff.mpr hi, Option.bind_some,
    List.getElem?_eq_getElem hlt, Vector.coords, List.getD_eq_getElem _ _ hlt]

/-- There is no entry for what is not numbered. -/
theorem valueAt?_of_notMem {β : Type} (x : List β) {key : SystemKey}
    (hkey : key ∉ (ofGalaxy g).keys) : (ofGalaxy g).valueAt? x key = none := by
  have hnone : (ofGalaxy g).position? key = none := by
    apply Option.eq_none_iff_forall_ne_some.mpr
    intro i hi
    exact hkey (List.mem_of_getElem? (position?_ofGalaxy_eq_some_iff.mp hi))
  rw [valueAt?, hnone, Option.bind_none]

/-- Vectors that agree at each system are the same, read at the places of the systems. -/
theorem Places.eq_select_iff (hplaces : Places f (ofGalaxy g) (ofGalaxy h) e) {x y : List ℝ}
    (hy : y.length = n) (hx : x.length = k) : y = Vector.select e x ↔
      ∀ key ∈ (ofGalaxy g).keys, (ofGalaxy g).valueAt? y key = (ofGalaxy h).valueAt? x (f key) := by
  rw [← Vector.coords_inj hy (Vector.length_select e x), Vector.coords_select]
  constructor
  · intro hxy key hkey
    obtain ⟨i, hi⟩ := List.mem_iff_getElem?.mp hkey
    have hlt : i < n := (lt_size_of_system? hi).trans_eq hplaces.size_eq
    rw [valueAt?_eq_coords hy ⟨i, hlt⟩ hi,
      valueAt?_eq_coords hx _ (hplaces.system? ⟨i, hlt⟩ key hi), hxy]
    rfl
  · intro hentries
    funext i
    obtain ⟨key, hkey⟩ := exists_system?_of_lt (i.isLt.trans_eq hplaces.size_eq.symm)
    have hentry := hentries key (List.mem_of_getElem? hkey)
    rw [valueAt?_eq_coords hy i hkey, valueAt?_eq_coords hx _ (hplaces.system? i _ hkey)] at hentry
    exact Option.some.inj hentry

/-- What is read for a system is what belongs to it in the other numbering. -/
theorem Places.getElem?_select (hplaces : Places f (ofGalaxy g) (ofGalaxy h) e) {x : List ℝ}
    (hx : x.length = k) {key : SystemKey} {i i' : ℕ} (hi : (ofGalaxy g).position? key = some i)
    (hi' : (ofGalaxy h).position? (f key) = some i') : (Vector.select e x)[i]? = x[i']? := by
  have hkey : key ∈ (ofGalaxy g).keys :=
    List.mem_of_getElem? (position?_ofGalaxy_eq_some_iff.mp hi)
  have hentry := (hplaces.eq_select_iff (Vector.length_select e x) hx).mp rfl key hkey
  rwa [valueAt?, valueAt?, hi, hi', Option.bind_some, Option.bind_some] at hentry

end SystemIndex

namespace Galaxy

/-! ### Couplings by keys -/

section

variable {α : Type}

/-- A jump leads from one of two systems to the other. -/
def Joined (g : Galaxy α) (a b : SystemKey) : Prop :=
  ∃ s t, g.system? a = some s ∧ g.system? b = some t ∧ (s.jumpsTo b = true ∨ t.jumpsTo a = true)

/-- For two systems that are there it is enough to look at their lists. -/
theorem joined_iff {g : Galaxy α} {a b : SystemKey} {s t : System α} (hs : g.system? a = some s)
    (ht : g.system? b = some t) : g.Joined a b ↔ s.jumpsTo b = true ∨ t.jumpsTo a = true := by
  constructor
  · rintro ⟨s', t', hs', ht', hjump⟩
    cases hs.symm.trans hs'
    cases ht.symm.trans ht'
    exact hjump
  · intro hjump
    exact ⟨s, t, hs, ht, hjump⟩

variable [Scalar α]

/-- The conductance that couples two systems, by their keys. -/
def conductanceBetween? (g : Galaxy α) (config : Config α) (a b : SystemKey) : Option α := do
  let s ← g.system? a
  let t ← g.system? b
  if a ≠ b ∧ (s.jumpsTo b = true ∨ t.jumpsTo a = true) then
    recip? (Route.resistanceBetween config g.diplomacy s t)
  else none

variable {g : Galaxy α} {config : Config α}

@[simp] theorem conductanceBetween?_self (a : SystemKey) :
    g.conductanceBetween? config a a = none := by
  unfold conductanceBetween?
  cases g.system? a with
  | none => rfl
  | some s =>
    simp only [Option.bind_eq_bind, Option.bind_some]
    exact if_neg fun h => h.1 rfl

/-- A system that is not there is coupled to none. -/
theorem conductanceBetween?_of_none (a : SystemKey) {b : SystemKey} (hb : g.system? b = none) :
    g.conductanceBetween? config a b = none := by
  unfold conductanceBetween?
  rw [hb]
  cases g.system? a with
  | none => rfl
  | some s => rfl

/-- The couplings between numbers are those between the systems with these numbers. -/
theorem coupling?_of_system? {i j : ℕ} {a b : SystemKey}
    (ha : (SystemIndex.ofGalaxy g).system? i = some a)
    (hb : (SystemIndex.ofGalaxy g).system? j = some b) :
    g.coupling? config i j = g.conductanceBetween? config a b := by
  -- Numbers are as different as the systems that have them.
  have hij : i = j ↔ a = b := by
    constructor
    · rintro rfl
      exact Option.some.inj (ha.symm.trans hb)
    · rintro rfl
      exact SystemIndex.system?_inj ha hb
  simp only [coupling?, conductanceBetween?, ha, hb, Option.bind_eq_bind, Option.bind_some, ne_eq,
    hij]

/-- The resistance of a route is a matter of the nebulae and factions at its ends. -/
theorem resistanceBetween_congr {d d' : Diplomacy} {s t s' t' : System α}
    (hs : s'.nebula = s.nebula ∧ s'.faction? = s.faction?)
    (ht : t'.nebula = t.nebula ∧ t'.faction? = t.faction?)
    (hallies : ∀ a b, d'.allies a b = d.allies a b)
    (henemies : ∀ a b, d'.enemies a b = d.enemies a b) :
    Route.resistanceBetween config d' s' t' = Route.resistanceBetween config d s t := by
  unfold Route.resistanceBetween
  rw [hs.1, hs.2, ht.1, ht.2]
  simp only [hallies, henemies]

end

/-! ### Embeddings -/

/-- **The systems of a galaxy are found in another**, each in the same nebula and in the same hands.
Two of them are joined in the one as they are joined in the other. What else there is in the larger
galaxy does not matter. -/
structure Embeds {α : Type} (f : SystemKey → SystemKey) (g h : Galaxy α) : Prop where
  system? : ∀ {a s}, g.system? a = some s →
    ∃ t, h.system? (f a) = some t ∧ t.nebula = s.nebula ∧ t.faction? = s.faction?
  injOn : Set.InjOn f {a | g.systems.contains a = true}
  joined_iff : ∀ {a b}, g.systems.contains a = true → g.systems.contains b = true → a ≠ b →
    (h.Joined (f a) (f b) ↔ g.Joined a b)
  allies : ∀ a b, h.diplomacy.allies a b = g.diplomacy.allies a b
  enemies : ∀ a b, h.diplomacy.enemies a b = g.diplomacy.enemies a b

section

variable {α : Type} {f : SystemKey → SystemKey} {g h : Galaxy α}

/-- What is there has its counterpart. -/
theorem Embeds.contains (hf : Embeds f g h) {a : SystemKey} (ha : g.systems.contains a = true) :
    h.systems.contains (f a) = true := by
  obtain ⟨s, hs⟩ := Slots.contains_iff.mp ha
  obtain ⟨t, ht, -⟩ := hf.system? hs
  exact Slots.contains_iff.mpr ⟨t, ht⟩

/-- **Conductances are kept.** -/
theorem Embeds.conductanceBetween?_eq [Scalar α] (hf : Embeds f g h) (config : Config α)
    {a b : SystemKey} (ha : g.systems.contains a = true) (hb : g.systems.contains b = true) :
    h.conductanceBetween? config (f a) (f b) = g.conductanceBetween? config a b := by
  by_cases hab : a = b
  · rw [hab, conductanceBetween?_self, conductanceBetween?_self]
  · obtain ⟨s, hs⟩ : ∃ s, g.system? a = some s := Slots.contains_iff.mp ha
    obtain ⟨t, ht⟩ : ∃ t, g.system? b = some t := Slots.contains_iff.mp hb
    obtain ⟨s', hs', hsite⟩ := hf.system? hs
    obtain ⟨t', ht', htsite⟩ := hf.system? ht
    have hne : f a ≠ f b := fun heq => hab (hf.injOn ha hb heq)
    -- Which of the two lists the jump is in may differ.
    have hjump : (s'.jumpsTo (f b) = true ∨ t'.jumpsTo (f a) = true) ↔
        (s.jumpsTo b = true ∨ t.jumpsTo a = true) := by
      rw [← Galaxy.joined_iff hs' ht', ← Galaxy.joined_iff hs ht]
      exact hf.joined_iff ha hb hab
    simp only [conductanceBetween?, hs, ht, hs', ht', Option.bind_eq_bind, Option.bind_some, ne_eq,
      hne, hab, not_false_eq_true, true_and, hjump,
      resistanceBetween_congr hsite htsite hf.allies hf.enemies]

/-- A galaxy is embedded in itself, -/
protected theorem Embeds.refl (g : Galaxy α) : Embeds id g g where
  system? hs := ⟨_, hs, rfl, rfl⟩
  injOn := Set.injOn_id _
  joined_iff _ _ _ := Iff.rfl
  allies _ _ := rfl
  enemies _ _ := rfl

/-- and embeddings can be put together. -/
protected theorem Embeds.trans {k : SystemKey → SystemKey} {l : Galaxy α} (hf : Embeds f g h)
    (hk : Embeds k h l) : Embeds (k ∘ f) g l where
  system? hs := by
    obtain ⟨t, ht, hnebula, hfaction⟩ := hf.system? hs
    obtain ⟨u, hu, hnebula', hfaction'⟩ := hk.system? ht
    exact ⟨u, hu, hnebula'.trans hnebula, hfaction'.trans hfaction⟩
  injOn a ha b hb heq := hf.injOn ha hb (hk.injOn (hf.contains ha) (hf.contains hb) heq)
  joined_iff ha hb hab := by
    have hne := hf.injOn.ne ha hb hab
    exact (hk.joined_iff (hf.contains ha) (hf.contains hb) hne).trans (hf.joined_iff ha hb hab)
  allies a b := (hk.allies a b).trans (hf.allies a b)
  enemies a b := (hk.enemies a b).trans (hf.enemies a b)

end

variable {f : SystemKey → SystemKey} {g h : Galaxy ℝ} {config : Config ℝ}
  {index index' : SystemIndex} {m m' : SparseMatrix ℝ}

/-- **An embedded galaxy has its places in the larger network**, and finds its own conductances
there. -/
theorem Embeds.exists_places (hf : Embeds f g h) (hg : g.network config = .ok (index, m))
    (hh : h.network config = .ok (index', m')) :
    ∃ e : Fin m.dim → Fin m'.dim, SystemIndex.Places f index index' e ∧
      m.toMatrix = groundedLaplacian config.selfResistance⁻¹
        ((Matrix.of fun i j : Fin m'.dim => h.conductance config i j).submatrix e e) := by
  obtain ⟨rfl, hdim⟩ := dim_network hg
  obtain ⟨rfl, hdim'⟩ := dim_network hh
  -- Each number stands for a system, whose counterpart has a number as well.
  have hplace : ∀ i : Fin m.dim, ∃ (j : Fin m'.dim) (a : SystemKey),
      (SystemIndex.ofGalaxy g).system? i = some a ∧
        (SystemIndex.ofGalaxy h).system? j = some (f a) := by
    intro i
    obtain ⟨a, ha⟩ := SystemIndex.exists_system?_of_lt (i.isLt.trans_eq hdim)
    obtain ⟨s, hs⟩ := SystemIndex.exists_system?_ofGalaxy_iff.mp ⟨i, ha⟩
    obtain ⟨t, ht, -⟩ := hf.system? hs
    obtain ⟨j, hj⟩ := SystemIndex.exists_system?_ofGalaxy_iff.mpr ⟨t, ht⟩
    have hj' : j < m'.dim := (SystemIndex.lt_size_of_system? hj).trans_eq hdim'.symm
    exact ⟨⟨j, hj'⟩, a, ha, hj⟩
  choose e key hkey himage using hplace
  have hlive : ∀ i, g.systems.contains (key i) = true := by
    intro i
    obtain ⟨s, hs⟩ := SystemIndex.exists_system?_ofGalaxy_iff.mp ⟨(i : ℕ), hkey i⟩
    exact Slots.contains_iff.mpr ⟨s, hs⟩
  refine ⟨e, ⟨hdim.symm, ?_, ?_⟩, ?_⟩
  · intro i j hij
    -- One place means one system over there, and thus one system here.
    have hsame : f (key i) = f (key j) :=
      Option.some.inj ((himage i).symm.trans (hij ▸ himage j))
    have hij : key i = key j := hf.injOn (hlive i) (hlive j) hsame
    exact Fin.ext (SystemIndex.system?_inj (hkey i) (hij ▸ hkey j))
  · intro i a ha
    cases (hkey i).symm.trans ha
    exact himage i
  · rw [toMatrix_network hg]
    apply congrArg
    ext i j
    show g.conductance config i j = h.conductance config (e i) (e j)
    rw [conductance, conductance, coupling?_of_system? (hkey i) (hkey j),
      coupling?_of_system? (himage i) (himage j),
      hf.conductanceBetween?_eq config (hlive i) (hlive j)]

end Galaxy

end GalaxyMarket
