import GalaxyMarket.Proofs.Market.Lifecycle
import GalaxyMarket.Proofs.Market.Repricing

/-!
# The books of a market

The catalog loses sources and its sources move, but goods and base prices stay. A ledger that was
opened for it keeps its base prices and has one quote for each commodity in every row
(`Ledger.Fits`), from the first call that opens it to the one that closes it (`Market.Bookkeeping`).
-/

namespace GalaxyMarket

variable {α : Type}

/-- A ledger that was opened with some base prices. -/
structure Ledger.Fits (basePrices : List Int) (ledger : Ledger α) : Prop where
  basePrices_eq : ledger.basePrices = basePrices
  length_eq : ∀ {q row}, ledger.row? q = some row → row.length = basePrices.length

namespace Ledger

variable {basePrices : List Int} {ledger after : Ledger α}

/-- Writing in place keeps the rows as wide as they were, and so the fit. -/
theorem Fits.sameShape (h : ledger.Fits basePrices) (hshape : ledger.SameShape after) :
    after.Fits basePrices where
  basePrices_eq := hshape.basePrices.trans h.basePrices_eq
  length_eq {q row} hrow := by
    have hwidth := hshape.widths q
    rw [hrow, Option.map_some] at hwidth
    obtain ⟨before, hbefore, hlength⟩ := Option.map_eq_some_iff.mp hwidth.symm
    exact hlength.symm.trans (h.length_eq hbefore)

/-- **A row reaches as far** as the base prices. -/
theorem Fits.exists_get? (h : ledger.Fits basePrices) {q : PlanetKey} {row : List (Quote α)}
    (hrow : ledger.row? q = some row) {c : Nat} (hc : c < basePrices.length) :
    ∃ quote, ledger.get? q c = some quote := by
  have hlt : c < row.length := (h.length_eq hrow).symm ▸ hc
  exact ⟨row[c], by rw [get?_eq, hrow, Option.bind_some, List.getElem?_eq_getElem hlt]⟩

/-- A planet with a row has a quote for every commodity. -/
theorem Fits.isSome_get? (h : ledger.Fits basePrices) {c : Nat} (hc : c < basePrices.length)
    (q : PlanetKey) : (ledger.get? q c).isSome = ledger.contains q := by
  rw [contains]
  cases hrow : ledger.row? q with
  | none => rw [get?_eq, hrow, Option.bind_none, Option.isSome_none, Option.isSome_none]
  | some row =>
    obtain ⟨quote, hquote⟩ := h.exists_get? hrow hc
    rw [hquote, Option.isSome_some, Option.isSome_some]

/-- A ledger that was just opened has no rows. -/
theorem row?_empty (prices : List Int) (q : PlanetKey) :
    ({ basePrices := prices } : Ledger α).row? q = none := by
  simp [row?, KeyMap.get?]

variable [Scalar α]

/-- **A synchronisation** puts in rows of the right width only, and drops others or leaves them. -/
theorem Fits.sync (h : ledger.Fits basePrices) (g : Galaxy α) :
    (ledger.sync g).Fits basePrices where
  basePrices_eq := (Ledger.basePrices_sync ledger g).trans h.basePrices_eq
  length_eq {q row} hrow := by
    rw [row?_sync] at hrow
    split at hrow
    · obtain rfl := Option.some.inj hrow
      -- A row is the old one, or a fresh one at base prices.
      cases hold : ledger.row? q with
      | none => simp [freshRow, h.basePrices_eq]
      | some old => exact h.length_eq hold
    · cases hrow

/-- A ledger that is opened for a catalog fits its base prices. -/
theorem fits_ofGalaxy (g : Galaxy α) (catalog : Catalog α) :
    (ofGalaxy g catalog).Fits catalog.basePrices := by
  have hempty : ({ basePrices := catalog.basePrices } : Ledger α).Fits catalog.basePrices :=
    ⟨rfl, fun hrow => by simp [row?_empty] at hrow⟩
  exact hempty.sync g

end Ledger

namespace Market

variable [Scalar α] {m next : Market α} {g : Galaxy α} {basePrices : List Int}

/-- Repricing draws from a source, and leaves all base prices alone. -/
theorem basePrices_reprice (m : Market α) (g : Galaxy α) (dt : α) (prepared : Prepared α)
    (c : Nat) :
    (m.reprice g dt prepared c).1.catalog.basePrices = m.catalog.basePrices := by
  rcases m.source?_cases c with hsource | ⟨good, source, hlisting⟩
  · rw [reprice_of_source?_eq_none hsource]
  -- The prices go into the ledger, so that the catalog is that of the advance.
  · obtain ⟨ledger, hsettle⟩ := (m.advance g dt c source).2.exists_settle_fst g c good.basePrice
      (prepared.solve (m.advance g dt c source).1)
    rw [reprice_eq hlisting, hsettle]
    exact Catalog.basePrices_setSource ..

/-- So does a whole round. -/
theorem basePrices_repriceAll (m : Market α) (g : Galaxy α) (dt : α) (prepared : Prepared α)
    (cs : List Nat) :
    (m.repriceAll g dt prepared cs).1.catalog.basePrices = m.catalog.basePrices := by
  induction cs generalizing m with
  | nil => rfl
  | cons c cs ih => exact (ih _).trans (basePrices_reprice m g dt prepared c)

/-- The base prices of a market, and a ledger that fits them as long as there is one. -/
structure Bookkeeping (basePrices : List Int) (m : Market α) : Prop where
  catalog : m.catalog.basePrices = basePrices
  ledger : m.phase ≠ .uninitialized → m.ledger.Fits basePrices

/-- Opening a market makes its ledger from the base prices that it has, and leaves an open one
alone. -/
theorem Bookkeeping.opened (h : m.Bookkeeping basePrices) (g : Galaxy α) :
    (m.opened g).Bookkeeping basePrices := by
  by_cases hphase : m.phase = .uninitialized
  · rw [opened_of_uninitialized hphase]
    refine ⟨h.catalog, fun _ => ?_⟩
    rw [← h.catalog]
    exact Ledger.fits_ofGalaxy g m.catalog
  · rw [opened_of_ne hphase]
    exact h

/-- A round keeps the books. -/
theorem Bookkeeping.repriceAll (h : m.Bookkeeping basePrices) (g : Galaxy α) (dt : α)
    (prepared : Prepared α) (cs : List Nat) :
    (m.repriceAll g dt prepared cs).1.Bookkeeping basePrices where
  catalog := (basePrices_repriceAll m g dt prepared cs).trans h.catalog
  ledger hphase := by
    obtain ⟨catalog, ledger, hround⟩ := m.exists_repriceAll_fst g dt prepared cs
    -- A round does not move the phase, so that the ledger was open before.
    have hphase' : m.phase ≠ .uninitialized := by rwa [hround] at hphase
    exact (h.ledger hphase').sameShape sameShape_repriceAll

/-- **Every step keeps the books.** -/
theorem Bookkeeping.step {call : Call α} {answer : Answer α} (hstep : m.Step call next answer)
    (h : m.Bookkeeping basePrices) : next.Bookkeeping basePrices := by
  cases hstep with
  | idle => exact h
  | queued => exact { h with }
  | detached commodity => exact ⟨(Catalog.basePrices_setSource ..).trans h.catalog, h.ledger⟩
  -- Without a ledger there is nothing that could fit.
  | destroyed => exact ⟨h.catalog, fun hphase => absurd rfl hphase⟩
  | @passed _ g dt clock prepared hcall hphase hprepared round hround =>
    subst hround
    exact Bookkeeping.repriceAll (m := { m with lastUpdate? := clock }) { h with } ..
  -- The network has no matrix, but the ledger is in line with the galaxy all the same.
  | @refused _ g e hcall hnetwork =>
    have hopened := h.opened g
    exact ⟨hopened.catalog, fun _ => (hopened.ledger (m.opened_phase_ne g)).sync g⟩
  | @rebuilt _ g index matrix hcall hnetwork round hround =>
    subst hround
    have hopened := h.opened g
    have hrebuilt : ((m.opened g).rebuilt g index matrix).Bookkeeping basePrices :=
      ⟨hopened.catalog, fun _ => (hopened.ledger (m.opened_phase_ne g)).sync g⟩
    exact hrebuilt.repriceAll ..

/-- A new market has the base prices of its catalog and no ledger yet. -/
theorem bookkeeping_ofConfig {catalog : Catalog α} {config : Config α} {solver : Solver α}
    (h : ofConfig catalog config solver = .ok m) : m.Bookkeeping catalog.basePrices := by
  rw [(ofConfig_eq_ok_iff.mp h).2]
  exact ⟨rfl, fun hphase => absurd rfl hphase⟩

end Market

end GalaxyMarket
