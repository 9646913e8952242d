import GalaxyMarket.Proofs.Galaxy.Edits
import GalaxyMarket.Proofs.Market.Books
import GalaxyMarket.Proofs.Market.Multipliers
import GalaxyMarket.Proofs.Number.Double

/-!
# The range of prices

Every price in a ledger is the base price of its commodity or a multiple of it that was written in
some round (`Market.Priced`), whatever became of the galaxy, the network and the solves since. So
what prices there can be is a matter of single multiplications.

In double precision they are not below zero and not above the base price, provided that the base
price is a double, as it is up to `2 ^ 53`. A greater one is rounded to a double before it is
multiplied, and where that is upwards, the price in the dearest system is above the base price
(`prices_bounded`, `not_prices_le_basePrice`).
-/

namespace GalaxyMarket

variable {α : Type} [Scalar α]

/-- A price that can be written for a base price. -/
def IsPriceFor (α : Type) [Scalar α] (basePrice price : Int) : Prop :=
  price = basePrice ∨ ∃ x : α, IsMultiplier x ∧ price = scaledPrice basePrice x

namespace Ledger

/-- A ledger in which each price is one for the base price of its commodity. -/
def Priced (basePrices : List Int) (ledger : Ledger α) : Prop :=
  ∀ q c quote, ledger.get? q c = some quote →
    ∃ basePrice, basePrices[c]? = some basePrice ∧ IsPriceFor α basePrice quote.price

variable {basePrices : List Int} {ledger : Ledger α}

/-- A ledger without rows has no prices. -/
theorem priced_empty (prices : List Int) :
    ({ basePrices := prices } : Ledger α).Priced basePrices := by
  intro q c quote hquote
  rw [get?_eq, row?_empty] at hquote
  cases hquote

/-- New rows start at base prices. -/
theorem Priced.sync (h : ledger.Priced basePrices) (hfits : ledger.basePrices = basePrices)
    (g : Galaxy α) : (ledger.sync g).Priced basePrices := by
  intro q c quote hquote
  rcases get?_sync_cases hquote with hold | ⟨basePrice, hbase, rfl⟩
  · exact h q c quote hold
  · exact ⟨basePrice, hfits ▸ hbase, Or.inl rfl⟩

/-- A ledger with the same prices. -/
theorem Priced.of_prices (h : ledger.Priced basePrices) {after : Ledger α}
    (hprices : ∀ q c, (after.get? q c).map Quote.price = (ledger.get? q c).map Quote.price) :
    after.Priced basePrices := by
  intro q c quote hquote
  have hprice := hprices q c
  rw [hquote, Option.map_some] at hprice
  obtain ⟨before, hbefore, hprice⟩ := Option.map_eq_some_iff.mp hprice.symm
  rw [← hprice]
  exact h q c before hbefore

/-- Writing prices by multipliers. -/
theorem Priced.writePrices (h : ledger.Priced basePrices) (g : Galaxy α) (index : SystemIndex)
    {c : Nat} {basePrice : Int} (hbase : basePrices[c]? = some basePrice) {multipliers : List α}
    (hmultipliers : ∀ x ∈ multipliers, IsMultiplier x) :
    (ledger.writePrices g index c basePrice multipliers).Priced basePrices := by
  intro q d quote hquote
  by_cases hd : d = c
  · subst hd
    obtain ⟨before, hbefore, rfl⟩ :=
      Option.map_eq_some_iff.mp ((get?_foldl_priceNext _).symm.trans hquote)
    -- A planet that no numbered system lists keeps its price.
    cases hentry : pricedBy? g q (index.keys.zip multipliers) with
    | none => exact h q d before hbefore
    | some entry =>
      have hmem : entry.2 ∈ multipliers := (List.of_mem_zip (pricedBy?_eq_some hentry).1).2
      exact ⟨basePrice, hbase, Or.inr ⟨entry.2, hmultipliers _ hmem, rfl⟩⟩
  · exact h q d quote ((get?_foldl_priceNext_of_ne _ hd).symm.trans hquote)

end Ledger

namespace Market

variable {m next : Market α} {g : Galaxy α} {basePrices : List Int}

/-- A market whose prices are such. -/
structure Priced (basePrices : List Int) (m : Market α) : Prop where
  books : m.Bookkeeping basePrices
  ledger : m.ledger.Priced basePrices

/-- A commodity's turn in a round keeps its prices, or writes new ones by the multipliers that it
found. -/
theorem Priced.reprice (h : m.Priced basePrices) (g : Galaxy α) (dt : α) (prepared : Prepared α)
    (c : Nat) : (m.reprice g dt prepared c).1.ledger.Priced basePrices := by
  rcases m.source?_cases c with hsource | ⟨good, source, hlisting⟩
  · rw [reprice_of_source?_eq_none hsource]
    exact h.ledger
  · have hbase : basePrices[c]? = some good.basePrice := by
      rw [← h.books.catalog, Catalog.basePrices, List.getElem?_map, hlisting]
      rfl
    have hadvance : (m.advance g dt c source).2.ledger.Priced basePrices :=
      h.ledger.of_prices (price_advance source)
    rw [reprice_eq hlisting]
    rcases (m.advance g dt c source).2.settle_cases g c good.basePrice
      (prepared.solve (m.advance g dt c source).1) with
      hsettle | ⟨potentials, multipliers, -, hmultipliers, hsettle⟩
    · rw [hsettle]
      exact hadvance
    · rw [hsettle]
      exact hadvance.writePrices g _ hbase (values_normalize? hmultipliers).2

/-- A round keeps prices in their place. -/
theorem Priced.repriceAll (h : m.Priced basePrices) (g : Galaxy α) (dt : α)
    (prepared : Prepared α) (cs : List Nat) :
    (m.repriceAll g dt prepared cs).1.Priced basePrices := by
  induction cs generalizing m with
  | nil => exact h
  | cons c cs ih =>
    rw [repriceAll_cons]
    -- What the next turn finds is the ledger that this one leaves.
    exact ih ⟨h.books.repriceAll g dt prepared [c], h.reprice g dt prepared c⟩

/-- A market that is opened starts all rows anew, at base prices. -/
theorem Priced.opened (h : m.Priced basePrices) (g : Galaxy α) :
    (m.opened g).Priced basePrices := by
  refine ⟨h.books.opened g, ?_⟩
  by_cases hphase : m.phase = .uninitialized
  · rw [opened_of_uninitialized hphase]
    exact (Ledger.priced_empty m.catalog.basePrices).sync h.books.catalog g
  · rw [opened_of_ne hphase]
    exact h.ledger

/-- So do planets that appear later. -/
theorem Priced.sync (h : m.Priced basePrices) (g : Galaxy α) :
    ((m.opened g).ledger.sync g).Priced basePrices :=
  (h.opened g).ledger.sync ((h.opened g).books.ledger (m.opened_phase_ne g)).basePrices_eq g

/-- **Every step keeps prices in their place.** -/
theorem Priced.step {call : Call α} {answer : Answer α} (hstep : m.Step call next answer)
    (h : m.Priced basePrices) : next.Priced basePrices := by
  have hbooks := h.books.step hstep
  refine ⟨hbooks, ?_⟩
  cases hstep with
  | idle | queued | detached => exact h.ledger
  | destroyed => exact Ledger.priced_empty []
  | @passed _ g dt clock prepared hcall hphase hprepared round hround =>
    subst hround
    have hclock : { m with lastUpdate? := clock }.Priced basePrices := ⟨{ h.books with }, h.ledger⟩
    exact (hclock.repriceAll g _ _ _).ledger
  | @refused _ g e hcall hnetwork => exact h.sync g
  | @rebuilt _ g index matrix hcall hnetwork round hround =>
    subst hround
    -- First there are rows at base prices, then a round over all of them.
    have hrebuilt : ((m.opened g).rebuilt g index matrix).Priced basePrices :=
      ⟨⟨(h.books.opened g).catalog,
        fun _ => ((h.books.opened g).ledger (m.opened_phase_ne g)).sync g⟩, h.sync g⟩
    exact (hrebuilt.repriceAll g _ _ _).ledger

/-- A market that was only made has no prices yet. -/
theorem priced_ofConfig {catalog : Catalog α} {config : Config α} {solver : Solver α}
    (h : ofConfig catalog config solver = .ok m) : m.Priced catalog.basePrices := by
  refine ⟨bookkeeping_ofConfig h, ?_⟩
  rw [(ofConfig_eq_ok_iff.mp h).2]
  exact Ledger.priced_empty []

end Market

/-! ### In double precision -/

theorem ofFloat_zero : Binary64.ofFloat 0 = .finite false 0 := by decide +kernel

theorem ofFloat_one : Binary64.ofFloat 1 = .finite false Binary64.one := by decide +kernel

theorem ofFloat_half : Binary64.ofFloat 0.5 = .finite false (Binary64.one / 2) := by decide +kernel

/-- A multiplier is from zero to one, or no number. -/
theorem isFraction_of_isMultiplier {x : Float} (h : IsMultiplier x) :
    (Binary64.ofFloat x).IsFraction := by
  have hunits : ∀ {x : Float} {units : Nat}, Binary64.ofFloat x = .finite false units →
      units ≤ Binary64.one → (Binary64.ofFloat x).IsFraction := by
    intro x units hx hle
    rw [hx]
    exact ⟨hle, fun hnegative => nomatch hnegative⟩
  rcases h with rfl | ⟨y, rfl⟩
  · exact hunits ofFloat_half (Nat.div_le_self _ 2)
  · rcases clamp_cases y with h | h | ⟨hlow, hhigh, h⟩
    · rw [h]
      exact hunits ofFloat_zero (Nat.zero_le _)
    · rw [h]
      exact hunits ofFloat_one (Nat.le_refl _)
    · rw [h]
      exact Binary64.isFraction_of_not_lt hlow hhigh

theorem scaledPrice_eq (basePrice : Int) (x : Float) :
    scaledPrice basePrice x =
      Credits.ofInt (Binary64.wholeProduct basePrice (Binary64.ofFloat x)) := rfl

/-- A whole price for a multiplier lies between nothing and the price for one. -/
theorem scaledPrice_bounds {basePrice : Int} (hbase : 0 ≤ basePrice) {x : Float}
    (hx : IsMultiplier x) :
    0 ≤ scaledPrice basePrice x ∧ scaledPrice basePrice x ≤ scaledPrice basePrice (1 : Float) := by
  obtain ⟨hlow, hhigh⟩ := Binary64.wholeProduct_bounds hbase (isFraction_of_isMultiplier hx)
  rw [← ofFloat_one] at hhigh
  have hgreatest : 0 ≤ Credits.greatest := by decide
  -- Cutting prices off where credits end keeps the order and zero.
  rw [scaledPrice_eq, scaledPrice_eq]
  unfold Credits.ofInt
  omega

/-- A base price that is a double is the price for one. -/
theorem scaledPrice_one_of_le {basePrice : Int} (hbase : 0 ≤ basePrice) (h : basePrice ≤ 2 ^ 53) :
    scaledPrice basePrice (1 : Float) = basePrice := by
  have hproduct := Binary64.wholeProduct_one_of_le hbase h
  rw [← ofFloat_one] at hproduct
  rw [scaledPrice_eq, hproduct]
  have hleast : Credits.least ≤ 0 := by decide
  have hgreatest : 2 ^ 53 ≤ Credits.greatest := by decide
  unfold Credits.ofInt
  omega

/-- **The range of prices**, after any calls, each with any galaxy. No price is negative, and none
is above the base price of its commodity or, where that is more, above the whole credits of the
double nearest to it. Up to `2 ^ 53` that is the base price itself. -/
theorem prices_bounded {catalog : Catalog Float} {config : Config Float} {solver : Solver Float}
    {m : Market Float} (h : Market.ofConfig catalog config solver = .ok m)
    (hprices : ∀ price ∈ catalog.basePrices, 0 ≤ price) (calls : List (Call Float))
    {q : PlanetKey} {c : Nat} {quote : Quote Float}
    (hquote : (m.after calls).ledger.get? q c = some quote) :
    ∃ basePrice, catalog.basePrices[c]? = some basePrice ∧ 0 ≤ quote.price ∧
      quote.price ≤ max basePrice (scaledPrice basePrice (1 : Float)) ∧
      (basePrice ≤ 2 ^ 53 → quote.price ≤ basePrice) := by
  have hpriced : (m.after calls).Priced catalog.basePrices :=
    (Market.living_ofConfig h).after_induction Market.Priced.step (Market.priced_ofConfig h) calls
  obtain ⟨basePrice, hbase, hprice⟩ := hpriced.ledger q c quote hquote
  have hnonneg : 0 ≤ basePrice := hprices basePrice (List.mem_of_getElem? hbase)
  refine ⟨basePrice, hbase, ?_⟩
  rcases hprice with hprice | ⟨x, hx, hprice⟩
  · rw [hprice]
    exact ⟨hnonneg, Int.le_max_left .., fun _ => Int.le_refl _⟩
  · obtain ⟨hlow, hhigh⟩ := scaledPrice_bounds hnonneg hx
    rw [hprice]
    refine ⟨hlow, Int.le_trans hhigh (Int.le_max_right ..), fun hle => ?_⟩
    exact Int.le_trans hhigh (Int.le_of_eq (scaledPrice_one_of_le hnonneg hle))

/-! ### A base price between two doubles -/

/-- Two systems without jumps, of which only the first has a planet. -/
def outpost : Galaxy Float := .ofEdits
  [.addSystem { name := "System 0", nebula := ⟨0, 0⟩ },
    .addPlanet ⟨0, 1⟩ { name := "Planet 0", population := 1 },
    .addSystem { name := "System 1", nebula := ⟨0, 0⟩ }]

/-- The matrix of a network without routes. -/
def outpostMatrix : SparseMatrix Float := ⟨2, [⟨0, 0, 1 / 3⟩, ⟨1, 1, 1 / 3⟩]⟩

/-- One good whose base price, `2 ^ 53 + 3`, is rounded up to a double. -/
def crown : Catalog Float :=
  ⟨[{ commodity := { name := "Crown", description := "", basePrice := 9007199254740995 }
      source? := some (.constant ⟨0, 0⟩) }]⟩

/-- A market of the standard tuning for that good. -/
def crownMarket : Market Float := { catalog := crown, config := .standard, solver := .cholesky }

/-- The standard tuning is valid. -/
theorem crownMarket_eq : Market.ofConfig crown .standard .cholesky = .ok crownMarket :=
  Market.ofConfig_standard ..

/-- Without routes the matrix has the ground on its diagonal, and nothing else. -/
theorem network_outpost : outpost.network .standard = .ok (.ofGalaxy outpost, outpostMatrix) := by
  have hground : Scalar.recip? (Config.standard : Config Float).selfResistance = some (1 / 3) := by
    decide +kernel
  have hentries : outpost.networkEntries .standard (1 / 3) = outpostMatrix.entries := rfl
  refine Galaxy.network_eq_ok_iff.mpr ⟨1 / 3, hground, by decide +kernel, rfl, ?_⟩
  rw [hentries]
  refine SparseMatrix.ofEntries_eq_ok_iff.mpr ⟨by decide +kernel, ?_⟩
  -- The entries are in order, so that sorting leaves them alone.
  unfold SparseMatrix.gather
  rw [List.mergeSort_of_pairwise (by decide +kernel)]
  rfl

/-- When the market is opened, the one planet is asked the whole base price, and one more. -/
theorem exists_quote_outpost :
    ∃ quote, (crownMarket.after [.init outpost]).ledger.get? ⟨0, 1⟩ 0 = some quote ∧
      quote.price = 9007199254740996 := by
  have hopened : crownMarket.phase = .uninitialized := rfl
  have hinit : crownMarket.after [.init outpost] = (crownMarket.init outpost).1 := rfl
  rw [hinit, Market.init_of_ok hopened network_outpost, Market.opened_of_uninitialized hopened]
  refine Option.map_eq_some_iff.mp ?_
  decide +kernel

/-- **A price above the base price**: a base price that is not a double is rounded to one first. -/
theorem not_prices_le_basePrice :
    ¬ ∀ (catalog : Catalog Float) (config : Config Float) (solver : Solver Float) (m : Market Float)
      (calls : List (Call Float)) (q : PlanetKey) (c : Nat) (quote : Quote Float) (basePrice : Int),
      Market.ofConfig catalog config solver = .ok m →
      (∀ price ∈ catalog.basePrices, 0 ≤ price ∧ price ≤ Credits.greatest) →
      (m.after calls).ledger.get? q c = some quote → catalog.basePrices[c]? = some basePrice →
      0 ≤ quote.price ∧ quote.price ≤ basePrice := by
  intro hall
  obtain ⟨quote, hquote, hprice⟩ := exists_quote_outpost
  have hbounds := hall crown .standard .cholesky crownMarket [.init outpost] ⟨0, 1⟩ 0 quote
    9007199254740995 crownMarket_eq (by decide) hquote rfl
  rw [hprice] at hbounds
  exact absurd hbounds.2 (by decide)

/-- At the outpost, the price keeps the bounds that hold in general. -/
theorem prices_bounded_outpost :
    ∃ quote, (crownMarket.after [.init outpost]).ledger.get? ⟨0, 1⟩ 0 = some quote ∧
      0 ≤ quote.price ∧ quote.price ≤ scaledPrice 9007199254740995 (1 : Float) := by
  obtain ⟨quote, hquote, -⟩ := exists_quote_outpost
  obtain ⟨basePrice, hbase, hlow, hhigh, -⟩ :=
    prices_bounded crownMarket_eq (by decide) [.init outpost] hquote
  obtain rfl : 9007199254740995 = basePrice := Option.some.inj hbase
  have hround : (9007199254740995 : Int) ≤ scaledPrice 9007199254740995 (1 : Float) := by
    decide +kernel
  exact ⟨quote, hquote, hlow, by omega⟩

end GalaxyMarket
