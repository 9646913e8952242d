import Mathlib
import GalaxyMarket.Market.Summary
import GalaxyMarket.Proofs.Exact
import GalaxyMarket.Proofs.Market.Numbering

/-!
# Mean and spread of the prices of a commodity

A summary walks along the planets of a galaxy and takes down the price of each that lists the
commodity and is quoted for it. Its two passes over the prices, one for the mean and one for the
distances from it, amount to a mean over those planets in which no order is left
(`PriceSummary.ofPrices?_map`), and so planets in other slots make the same summary.

What is said of the mean and the spread are facts about finitely many numbers between a least and a
greatest one. The distances from the mean cost a square of the mean (`expect_sq_sub_mean`), and as
the product of the distances from the two ends is never negative, numbers are at most half the way
between the ends off their mean (`expect_sq_sub_mean_le`).
-/

namespace GalaxyMarket

open scoped BigOperators

/-! ### Finitely many numbers -/

section Numbers

open Finset

variable {ι : Type} {s : Finset ι} {x : ι → ℝ} {lo hi : ℝ}

/-- **The mean square of the distances** from the mean is the mean of the squares less the square of
the mean. -/
theorem expect_sq_sub_mean (hs : s.Nonempty) (x : ι → ℝ) :
    𝔼 i ∈ s, (x i - 𝔼 j ∈ s, x j) ^ 2 = 𝔼 i ∈ s, x i ^ 2 - (𝔼 i ∈ s, x i) ^ 2 := by
  set mean := 𝔼 j ∈ s, x j with hmean
  calc 𝔼 i ∈ s, (x i - mean) ^ 2
      = 𝔼 i ∈ s, (x i ^ 2 - x i * (2 * mean) + mean ^ 2) :=
        expect_congr rfl fun i _ => by ring
    _ = 𝔼 i ∈ s, x i ^ 2 - mean * (2 * mean) + mean ^ 2 := by
        rw [expect_add_distrib, expect_sub_distrib, expect_const hs, ← expect_mul]
    _ = 𝔼 i ∈ s, x i ^ 2 - mean ^ 2 := by ring

/-- The mean square of the distances is at most the product of the distances of the mean from the
two ends. -/
theorem expect_sq_sub_mean_le (hs : s.Nonempty) (hx : ∀ i ∈ s, x i ∈ Set.Icc lo hi) :
    𝔼 i ∈ s, (x i - 𝔼 j ∈ s, x j) ^ 2 ≤ (hi - 𝔼 i ∈ s, x i) * (𝔼 i ∈ s, x i - lo) := by
  have hends : 0 ≤ 𝔼 i ∈ s, (hi - x i) * (x i - lo) :=
    expect_nonneg fun i hi => mul_nonneg (sub_nonneg.mpr (hx i hi).2) (sub_nonneg.mpr (hx i hi).1)
  have hexpand : 𝔼 i ∈ s, (hi - x i) * (x i - lo) =
      (𝔼 i ∈ s, x i) * (hi + lo) - 𝔼 i ∈ s, x i ^ 2 - hi * lo := by
    calc 𝔼 i ∈ s, (hi - x i) * (x i - lo)
        = 𝔼 i ∈ s, (x i * (hi + lo) - x i ^ 2 - hi * lo) :=
          expect_congr rfl fun i _ => by ring
      _ = (𝔼 i ∈ s, x i) * (hi + lo) - 𝔼 i ∈ s, x i ^ 2 - hi * lo := by
          rw [expect_sub_distrib, expect_sub_distrib, expect_const hs, ← expect_mul]
  rw [expect_sq_sub_mean hs]
  linarith

/-- **The spread** of some numbers is at most half the way between their ends. -/
theorem sqrt_expect_sq_sub_mean_le (hs : s.Nonempty) (hx : ∀ i ∈ s, x i ∈ Set.Icc lo hi) :
    Real.sqrt (𝔼 i ∈ s, (x i - 𝔼 j ∈ s, x j) ^ 2) ≤ (hi - lo) / 2 := by
  obtain ⟨i, hi'⟩ := hs
  have hle : lo ≤ hi := (hx i hi').1.trans (hx i hi').2
  refine Real.sqrt_le_iff.mpr ⟨by linarith, (expect_sq_sub_mean_le ⟨i, hi'⟩ hx).trans ?_⟩
  -- The product of two distances is greatest in the middle.
  nlinarith [sq_nonneg (hi + lo - 2 * 𝔼 j ∈ s, x j)]

/-- There is no spread exactly if the numbers are equal. -/
theorem sqrt_expect_sq_sub_mean_eq_zero_iff (hs : s.Nonempty) :
    Real.sqrt (𝔼 i ∈ s, (x i - 𝔼 j ∈ s, x j) ^ 2) = 0 ↔ ∀ i ∈ s, ∀ j ∈ s, x i = x j := by
  rw [Real.sqrt_eq_zero (expect_nonneg fun i _ => sq_nonneg _),
    expect_eq_zero_iff_of_nonneg fun i _ => sq_nonneg _]
  constructor
  · -- A sum of squares vanishes term by term, so that every number is the mean.
    intro hzero i hi j hj
    have hmean : ∀ i ∈ s, x i = 𝔼 j ∈ s, x j := fun i hi =>
      sub_eq_zero.mp (pow_eq_zero_iff (by decide) |>.mp (hzero i hi))
    rw [hmean i hi, hmean j hj]
  · intro hequal i hi
    have hmean : 𝔼 j ∈ s, x j = x i := by
      rw [expect_congr rfl fun j hj => hequal j hj i hi, expect_const hs]
    rw [hmean, sub_self, zero_pow (by decide)]

end Numbers

/-! ### Planets with a quote -/

section

variable {α : Type}

/-- A planet whose market lists a commodity, and that has a quote for it. -/
def Galaxy.Offers (g : Galaxy α) (ledger : Ledger α) (c : ℕ) (key : PlanetKey) : Prop :=
  ∃ planet quote, g.planet? key = some planet ∧ planet.trades c = true ∧
    ledger.get? key c = some quote

/-- The price in the quote of a commodity on a planet, zero if there is none. -/
def Ledger.priceAt (ledger : Ledger α) (c : ℕ) (key : PlanetKey) : ℤ :=
  ((ledger.get? key c).map Quote.price).getD 0

/-- The planets of a galaxy that offer a commodity, as the galaxy lists them. -/
def Galaxy.offering (g : Galaxy α) (ledger : Ledger α) (c : ℕ) : List PlanetKey :=
  (g.planets.toList.filter fun (key, planet) =>
    planet.trades c && (ledger.get? key c).isSome).map Prod.fst

variable {g : Galaxy α} {ledger : Ledger α} {c : ℕ}

theorem Galaxy.mem_offering_iff {key : PlanetKey} :
    key ∈ g.offering ledger c ↔ g.Offers ledger c key := by
  rw [offering, List.mem_map]
  constructor
  · rintro ⟨⟨key, planet⟩, hmem, rfl⟩
    obtain ⟨hlisted, hoffers⟩ := List.mem_filter.mp hmem
    obtain ⟨htrades, hquote⟩ := (Bool.and_eq_true ..).mp hoffers
    obtain ⟨quote, hquote⟩ := Option.isSome_iff_exists.mp hquote
    exact ⟨planet, quote, Slots.mem_toList_iff.mp hlisted, htrades, hquote⟩
  · rintro ⟨planet, quote, hplanet, htrades, hquote⟩
    refine ⟨(key, planet), List.mem_filter.mpr ⟨Slots.mem_toList_iff.mpr hplanet, ?_⟩, rfl⟩
    simp [htrades, hquote]

/-- However often a planet lists the commodity, it is walked past once. -/
theorem Galaxy.nodup_offering : (g.offering ledger c).Nodup := by
  have hkeys : (g.planets.toList.map Prod.fst).Nodup :=
    List.Nodup.of_map Key.slot g.planets.nodup_slot_keys
  exact hkeys.sublist (List.filter_sublist.map Prod.fst)

/-- The prices that a summary takes down are those of the planets that offer the commodity. -/
theorem PriceSummary.pricesOf_eq [Scalar α] :
    pricesOf g ledger c = (g.offering ledger c).map (ledger.priceAt c) := by
  let offers (entry : PlanetKey × Planet) : Bool :=
    entry.2.trades c && (ledger.get? entry.1 c).isSome
  calc pricesOf g ledger c
      = g.planets.toList.filterMap fun entry =>
          (Option.guard offers entry).map fun entry => ledger.priceAt c entry.1 := by
        -- The two conditions are tested together or one after the other.
        refine List.filterMap_congr fun entry _ => ?_
        cases htrades : entry.2.trades c <;> cases hquote : ledger.get? entry.1 c <;>
          simp [offers, Option.guard, Ledger.priceAt, htrades, hquote]
    _ = (g.planets.toList.filter offers).map fun entry => ledger.priceAt c entry.1 := by
        rw [← List.map_filterMap, List.filterMap_eq_filter]
    _ = (g.offering ledger c).map (ledger.priceAt c) := by
        rw [Galaxy.offering, List.map_map]
        rfl

end

/-! ### Two passes over the prices -/

namespace PriceSummary

/-- Only without prices there is no summary. -/
theorem ofPrices?_eq_none_iff {prices : List ℤ} :
    (ofPrices? prices : Option (PriceSummary ℝ)) = none ↔ prices = [] := by
  unfold ofPrices?
  split
  · next h => exact iff_of_true rfl (List.isEmpty_iff.mp h)
  · next h => exact iff_of_false nofun fun hnil => h (List.isEmpty_iff.mpr hnil)

/-- **The two passes** make the mean and the root of the mean square of the distances from it. -/
theorem ofPrices?_map {ι : Type} [DecidableEq ι] {l : List ι} (hnodup : l.Nodup) (hne : l ≠ [])
    (price : ι → ℤ) : ofPrices? (l.map price) = some
      { mean := 𝔼 i ∈ l.toFinset, (price i : ℝ)
        deviation := Real.sqrt
          (𝔼 i ∈ l.toFinset, ((price i : ℝ) - 𝔼 j ∈ l.toFinset, (price j : ℝ)) ^ 2)
        samples := l.toFinset.card } := by
  -- Dividing a sum over the list by its length is taking the mean over its members, as none stands
  -- twice.
  have hsum : ∀ f : ι → ℝ, Scalar.sum (l.map f) / Scalar.ofInt (l.length : ℤ) =
      𝔼 i ∈ l.toFinset, f i := by
    intro f
    rw [Finset.expect_eq_sum_div_card, List.sum_toFinset f hnodup, Scalar.sum_eq,
      List.toFinset_card_of_nodup hnodup, Scalar.ofInt_eq, Int.cast_natCast]
  have hfull : ¬(l.map price).isEmpty = true := by simpa using hne
  rw [ofPrices?, if_neg hfull]
  simp only [List.map_map, List.length_map, Scalar.sqrt_eq, ← pow_two,
    List.toFinset_card_of_nodup hnodup]
  simp only [Function.comp_def, Scalar.ofInt_eq, ← hsum]

/-- The order of the prices makes no difference over exact numbers. -/
theorem ofPrices?_of_perm {prices prices' : List ℤ} (h : prices.Perm prices') :
    (ofPrices? prices : Option (PriceSummary ℝ)) = ofPrices? prices' := by
  have hsum : ∀ f : ℤ → ℝ, Scalar.sum (prices.map f) = Scalar.sum (prices'.map f) := fun f => by
    rw [Scalar.sum_eq, Scalar.sum_eq, (h.map f).sum_eq]
  unfold ofPrices?
  simp only [List.map_map, hsum, h.length_eq, h.isEmpty_eq]

/-! ### What a summary says -/

/-- **A summary of the prices on some planets.** -/
structure Describes (s : PriceSummary ℝ) (sellers : Finset PlanetKey) (price : PlanetKey → ℤ) :
    Prop where
  samples_eq : s.samples = sellers.card
  mean_eq : s.mean = 𝔼 key ∈ sellers, (price key : ℝ)
  deviation_nonneg : 0 ≤ s.deviation
  deviation_sq : s.deviation ^ 2 = 𝔼 key ∈ sellers, (price key : ℝ) ^ 2 - s.mean ^ 2
  deviation_eq_zero_iff : s.deviation = 0 ↔ ∀ a ∈ sellers, ∀ b ∈ sellers, price a = price b
  exists_ends : ∃ lo hi, IsLeast (price '' sellers) lo ∧ IsGreatest (price '' sellers) hi ∧
    lo ≤ s.mean ∧ s.mean ≤ hi ∧ s.deviation ≤ (hi - lo) / 2

/-- Mean, spread and number of some prices describe them. -/
theorem describes_mean {sellers : Finset PlanetKey} (hne : sellers.Nonempty)
    (price : PlanetKey → ℤ) :
    Describes
      { mean := 𝔼 key ∈ sellers, (price key : ℝ)
        deviation := Real.sqrt
          (𝔼 key ∈ sellers, ((price key : ℝ) - 𝔼 other ∈ sellers, (price other : ℝ)) ^ 2)
        samples := sellers.card } sellers price where
  samples_eq := rfl
  mean_eq := rfl
  deviation_nonneg := Real.sqrt_nonneg _
  deviation_sq := by
    rw [Real.sq_sqrt (Finset.expect_nonneg fun _ _ => sq_nonneg _), expect_sq_sub_mean hne]
  deviation_eq_zero_iff := by
    rw [sqrt_expect_sq_sub_mean_eq_zero_iff hne]
    simp only [Int.cast_inj]
  exists_ends := by
    -- Planets with the least and with the greatest price.
    obtain ⟨low, hlow, hlo⟩ := sellers.exists_min_image price hne
    obtain ⟨high, hhigh, hhi⟩ := sellers.exists_max_image price hne
    have hends : ∀ key ∈ sellers, (price key : ℝ) ∈ Set.Icc (price low : ℝ) (price high) :=
      fun key hkey => ⟨Int.cast_le.mpr (hlo key hkey), Int.cast_le.mpr (hhi key hkey)⟩
    refine ⟨price low, price high, ⟨⟨low, hlow, rfl⟩, ?_⟩, ⟨⟨high, hhigh, rfl⟩, ?_⟩, ?_, ?_, ?_⟩
    · rintro _ ⟨key, hkey, rfl⟩
      exact hlo key hkey
    · rintro _ ⟨key, hkey, rfl⟩
      exact hhi key hkey
    · exact Finset.le_expect hne fun key hkey => (hends key hkey).1
    · exact Finset.expect_le hne fun key hkey => (hends key hkey).2
    · exact sqrt_expect_sq_sub_mean_le hne hends

/-- **A summary tells of the planets that offer a commodity.** There is none exactly if no planet
does. Otherwise it counts these planets, and with exact numbers its mean lies between their least
and their greatest price and its deviation, which vanishes only if all prices are equal, is at most
half the way between them. In which slots the planets are makes no difference. -/
theorem summary_describes_offers (g : Galaxy ℝ) (ledger : Ledger ℝ) (c : ℕ) :
    (ofGalaxy? g ledger c = none ↔ ¬∃ key, g.Offers ledger c key) ∧
    (∀ s, ofGalaxy? g ledger c = some s → ∃ sellers : Finset PlanetKey,
      (∀ key, key ∈ sellers ↔ g.Offers ledger c key) ∧
      s.Describes sellers (ledger.priceAt c)) ∧
    ∀ (g' : Galaxy ℝ) (ledger' : Ledger ℝ) (σ : PlanetKey → PlanetKey),
      Set.BijOn σ {key | g.Offers ledger c key} {key | g'.Offers ledger' c key} →
      (∀ key, g.Offers ledger c key → ledger'.priceAt c (σ key) = ledger.priceAt c key) →
      ofGalaxy? g' ledger' c = ofGalaxy? g ledger c := by
  -- Every part is about the one list of planets that offer the commodity.
  have hnone : ofGalaxy? g ledger c = none ↔ g.offering ledger c = [] := by
    rw [ofGalaxy?, ofPrices?_eq_none_iff, pricesOf_eq, List.map_eq_nil_iff]
  refine ⟨?_, fun s hs => ?_, fun g' ledger' σ hσ hprice => ?_⟩
  · rw [hnone, List.eq_nil_iff_forall_not_mem, not_exists]
    exact forall_congr' fun key => not_congr Galaxy.mem_offering_iff
  · have hne : g.offering ledger c ≠ [] := fun hnil => by
      rw [hnone.mpr hnil] at hs
      cases hs
    refine ⟨(g.offering ledger c).toFinset, fun key => ?_, ?_⟩
    · rw [List.mem_toFinset, Galaxy.mem_offering_iff]
    · rw [ofGalaxy?, pricesOf_eq, ofPrices?_map Galaxy.nodup_offering hne] at hs
      rw [← Option.some.inj hs]
      exact describes_mean (List.toFinset_nonempty_iff _ |>.mpr hne) _
  · -- The planets of one galaxy are those of the other under new keys, in some order.
    have hkeys : (g'.offering ledger' c).Perm ((g.offering ledger c).map σ) := by
      have hinj : ∀ a ∈ g.offering ledger c, ∀ b ∈ g.offering ledger c, σ a = σ b → a = b :=
        fun a ha b hb => hσ.injOn (Galaxy.mem_offering_iff.mp ha) (Galaxy.mem_offering_iff.mp hb)
      refine (List.perm_ext_iff_of_nodup Galaxy.nodup_offering
        (Galaxy.nodup_offering.map_on hinj)).mpr fun key => ?_
      have himage := Set.ext_iff.mp hσ.image_eq key
      simp only [Set.mem_image, Set.mem_ofPred_eq] at himage
      simp only [List.mem_map, Galaxy.mem_offering_iff, himage]
    have hprices : (g.offering ledger c).map (ledger'.priceAt c ∘ σ) =
        (g.offering ledger c).map (ledger.priceAt c) :=
      List.map_congr_left fun key hkey => hprice key (Galaxy.mem_offering_iff.mp hkey)
    rw [ofGalaxy?, ofGalaxy?, pricesOf_eq, pricesOf_eq,
      ofPrices?_of_perm (hkeys.map (ledger'.priceAt c)), List.map_map, hprices]

/-- Four planets. The first lists the first commodity twice, the third does not list it, and the
last one is new to its slot. -/
def ports : Galaxy ℝ where
  planets := {
    slots := #[⟨1, some { name := "Quay", population := 1, commodities := [0, 0] }⟩,
      ⟨1, some { name := "Pier", population := 1, commodities := [0] }⟩,
      ⟨1, some { name := "Mole", population := 1, commodities := [1] }⟩,
      ⟨3, some { name := "Dock", population := 1, commodities := [0] }⟩] }

/-- Books in which the last slot still has the row of another planet. -/
noncomputable def portBooks (first second : ℤ) : Ledger ℝ where
  rows := ⟨#[some (1, [⟨0, 0, first⟩]), some (1, [⟨0, 0, second⟩]), some (1, [⟨0, 0, 7⟩]),
    some (1, [⟨0, 0, 9⟩])]⟩

/-- Two of the planets offer the first commodity. -/
theorem offers_ports_iff {first second : ℤ} {key : PlanetKey} :
    ports.Offers (portBooks first second) 0 key ↔ key = ⟨0, 1⟩ ∨ key = ⟨1, 1⟩ := by
  have hoffering : ports.offering (portBooks first second) 0 = [⟨0, 1⟩, ⟨1, 1⟩] := rfl
  rw [← Galaxy.mem_offering_iff, hoffering, List.mem_pair]

/-- Two of the four count, and it does not matter which of them has which price. Nobody offers the
third commodity. -/
theorem summary_describes_offers_ports :
    (∃ s, ofGalaxy? ports (portBooks 80 120) 0 = some s ∧
      s.samples = 2 ∧ s.mean = 100 ∧ s.deviation = 20) ∧
    ofGalaxy? ports (portBooks 120 80) 0 = ofGalaxy? ports (portBooks 80 120) 0 ∧
    ofGalaxy? ports (portBooks 80 120) 2 = none := by
  obtain ⟨hnone, hsome, hslots⟩ := summary_describes_offers ports (portBooks 80 120) 0
  refine ⟨?_, ?_, ?_⟩
  · obtain ⟨s, hs⟩ := Option.ne_none_iff_exists'.mp
      (mt hnone.mp (not_not.mpr ⟨⟨0, 1⟩, offers_ports_iff.mpr (Or.inl rfl)⟩))
    obtain ⟨sellers, hsellers, hdescribes⟩ := hsome s hs
    -- The two offering planets are all that is left to average over.
    obtain rfl : sellers = {⟨0, 1⟩, ⟨1, 1⟩} := by
      ext key
      rw [hsellers, offers_ports_iff, Finset.mem_insert, Finset.mem_singleton]
    have hmean : s.mean = 100 := by
      rw [hdescribes.mean_eq, Finset.expect_eq_sum_div_card]
      norm_num [Ledger.priceAt, Ledger.get?, Ledger.row?, KeyMap.get?, portBooks]
    have hsq : s.deviation ^ 2 = 20 ^ 2 := by
      rw [hdescribes.deviation_sq, hmean, Finset.expect_eq_sum_div_card]
      norm_num [Ledger.priceAt, Ledger.get?, Ledger.row?, KeyMap.get?, portBooks]
    exact ⟨s, hs, hdescribes.samples_eq, hmean,
      (pow_left_inj₀ hdescribes.deviation_nonneg (by norm_num) (by decide)).mp hsq⟩
  · refine hslots ports (portBooks 120 80) (Equiv.swap ⟨0, 1⟩ ⟨1, 1⟩) ?_ ?_
    · simp only [offers_ports_iff]
      apply Equiv.swap_bijOn_self
      exact iff_of_true (Or.inl rfl) (Or.inr rfl)
    · intro key hkey
      rcases offers_ports_iff.mp hkey with rfl | rfl <;> rfl
  · refine (summary_describes_offers ports (portBooks 80 120) 2).1.mpr ?_
    rintro ⟨key, hkey⟩
    cases Galaxy.mem_offering_iff.mpr hkey

end PriceSummary

end GalaxyMarket
