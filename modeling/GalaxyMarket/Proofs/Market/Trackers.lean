import Mathlib
import GalaxyMarket.Proofs.Market.PriceRange
import GalaxyMarket.Proofs.Market.Reversion
import GalaxyMarket.Proofs.Market.Update
import GalaxyMarket.Proofs.Number.Value

/-!
# What all trackers have in common

A tracker is zero when its row is opened, and from then on it is what `nonnegative` last made of
some number, whatever the sample was and however much time passed. What holds of zero and of all
such numbers therefore holds of every tracker in the ledger, at the end of any run
(`Market.Living.tracks_after`).

With exact numbers this says that no tracker is ever negative. In double precision, where what a
tracker is moved to may overflow or be no number, it says that every tracker is finite and not
negative all the same (`trackers_isAmount`).
-/

namespace GalaxyMarket

variable {α : Type} [Scalar α] {P : α → Prop}

namespace Ledger

variable {ledger : Ledger α}

omit [Scalar α] in
/-- A ledger with a property that every tracker in it has. -/
def Tracks (P : α → Prop) (ledger : Ledger α) : Prop :=
  ∀ q c quote, ledger.get? q c = some quote → P quote.supply ∧ P quote.demand

omit [Scalar α] in
/-- In empty books there is nothing to look at. -/
theorem tracks_empty (prices : List Int) : ({ basePrices := prices } : Ledger α).Tracks P := by
  intro q c quote hquote
  rw [get?_eq, row?_empty] at hquote
  cases hquote

/-- New rows start at zero. -/
theorem Tracks.sync (h : ledger.Tracks P) (hzero : P 0) (g : Galaxy α) :
    (ledger.sync g).Tracks P := by
  intro q c quote hquote
  rcases get?_sync_cases hquote with hold | ⟨price, -, rfl⟩
  · exact h q c quote hold
  · exact ⟨hzero, hzero⟩

/-- Neither is there anything but zeros in new books. -/
theorem tracks_ofGalaxy (hzero : P 0) (g : Galaxy α) (catalog : Catalog α) :
    (ofGalaxy g catalog).Tracks P :=
  (tracks_empty catalog.basePrices).sync hzero g

end Ledger

namespace Market

variable {m next : Market α} {g : Galaxy α} {dt : α} {prepared : Prepared α}

/-- **A round** leaves trackers as they are, or they are what `nonnegative` makes of a number. -/
theorem tracks_repriceAll (hnonnegative : ∀ x : α, P (nonnegative x)) (h : m.ledger.Tracks P) :
    (m.repriceAll g dt prepared (List.range m.catalog.size)).1.ledger.Tracks P := by
  intro q c quote hquote
  have htrackers := m.trackers_repriceAll g dt prepared q c
  rw [hquote, Option.map_some] at htrackers
  obtain ⟨moved, hmoved, heq⟩ := Option.map_eq_some_iff.mp htrackers.symm
  obtain ⟨hsupply, hdemand⟩ := Prod.mk.inj heq
  rw [← hsupply, ← hdemand]
  -- The trackers after a round are those after the sampling of their own commodity.
  unfold trackedLedger at hmoved
  cases hsource : m.catalog.source? c with
  | none =>
    rw [hsource] at hmoved
    exact h q c moved hmoved
  | some source =>
    rw [hsource, Option.elim_some, advance_ledger] at hmoved
    -- Whatever is sampled goes through the guard before it is written.
    refine Pass.forall_visitAll (P := fun quote => P quote.supply ∧ P quote.demand)
      (fun quote sample _ => ?_) (fun q quote hquote => h q c quote hquote) _ hmoved
    exact ⟨hnonnegative _, hnonnegative _⟩

/-- A rebuild starts from books with the property, be they old or new. -/
theorem tracks_opened (hzero : P 0) (h : m.ledger.Tracks P) (g : Galaxy α) :
    ((m.opened g).ledger.sync g).Tracks P := by
  by_cases hphase : m.phase = .uninitialized
  · rw [opened_of_uninitialized hphase]
    exact (Ledger.tracks_ofGalaxy hzero g m.catalog).sync hzero g
  · rw [opened_of_ne hphase]
    exact h.sync hzero g

/-- Opening a market leaves its catalog alone. -/
theorem size_opened (m : Market α) (g : Galaxy α) :
    (m.opened g).catalog.size = m.catalog.size := by
  obtain ⟨phase, ledger, -, hopened⟩ := m.exists_opened g
  rw [hopened]

/-- **Every step** keeps the property. -/
theorem tracks_step (hzero : P 0) (hnonnegative : ∀ x : α, P (nonnegative x)) {call : Call α}
    {answer : Answer α} (hstep : m.Step call next answer) (h : m.ledger.Tracks P) :
    next.ledger.Tracks P := by
  -- Only a round writes into trackers. A rebuild synchronises first, which adds zeros.
  cases hstep with
  | idle | queued | detached => exact h
  | destroyed => exact Ledger.tracks_empty []
  | @passed _ g dt clock prepared hcall hphase hprepared round hround =>
    subst hround
    exact tracks_repriceAll (m := { m with lastUpdate? := clock }) hnonnegative h
  | @refused _ g e hcall hnetwork => exact tracks_opened hzero h g
  | @rebuilt _ g index matrix hcall hnetwork round hround =>
    subst hround
    rw [← m.size_opened g]
    exact tracks_repriceAll hnonnegative (tracks_opened hzero h g)

/-- **At the end of any run** all trackers have what zero and the results of `nonnegative` have. -/
theorem Living.tracks_after (hzero : P 0) (hnonnegative : ∀ x : α, P (nonnegative x))
    {config : Config α} {solver : Solver α} {last? : Option (Galaxy α)}
    (hlife : m.Living config solver last?) (h : m.ledger.Tracks P) (calls : List (Call α)) :
    (m.after calls).ledger.Tracks P :=
  hlife.after_induction (P := fun m => m.ledger.Tracks P) (tracks_step hzero hnonnegative) h calls

/-- A market that was just made has no trackers. -/
theorem tracks_ofConfig {catalog : Catalog α} {config : Config α} {solver : Solver α}
    (h : ofConfig catalog config solver = .ok m) : m.ledger.Tracks P := by
  rw [(ofConfig_eq_ok_iff.mp h).2]
  exact Ledger.tracks_empty []

/-- **No tracker is ever negative.** -/
theorem tracks_nonneg {catalog : Catalog ℝ} {config : Config ℝ} {solver : Solver ℝ} {m : Market ℝ}
    (h : ofConfig catalog config solver = .ok m) (calls : List (Call ℝ)) :
    (m.after calls).ledger.Tracks (0 ≤ ·) := by
  refine (living_ofConfig h).tracks_after le_rfl (fun x => ?_) (tracks_ofConfig h) calls
  rw [nonnegative_eq]
  exact le_max_right x 0

end Market

/-! ### In double precision -/

/-- A double that a tracker can stand at: a finite one that is not below zero. The last field says
so of the number that it stands for. -/
structure IsAmount (x : Float) : Prop where
  isFinite : Scalar.isFinite x = true
  nonneg : Scalar.le 0 x = true
  units : ∃ units, Binary64.ofFloat x = .finite false units

/-- Zero is an amount, -/
theorem isAmount_zero : IsAmount 0 where
  isFinite := by decide +kernel
  nonneg := by decide +kernel
  units := ⟨0, ofFloat_zero⟩

/-- and so is every finite double above it. -/
theorem isAmount_of_pos {x : Float} (hfinite : Scalar.isFinite x = true)
    (hpos : Scalar.lt 0 x = true) : IsAmount x := by
  obtain ⟨units, hunits, hx⟩ := Binary64.exists_hasValue_of_pos hfinite hpos
  exact ⟨hfinite, (Binary64.hasValue_zero.le_iff hx).mpr (Int.natCast_nonneg _), units,
    hx.ofFloat_eq hunits⟩

/-- **Whatever a tracker is moved to**, be it infinite or no number, the final guard makes an amount
of it. -/
theorem isAmount_nonnegative (x : Float) : IsAmount (nonnegative x) := by
  unfold nonnegative
  split
  · next hfinite =>
    unfold Scalar.maxNum
    split
    · next hlarger =>
      -- The larger of the double and zero is the double: it is positive, or zero is no larger.
      rcases (Bool.or_eq_true ..).mp hlarger with hpos | hzero
      · exact isAmount_of_pos hfinite hpos
      · exact absurd hzero (by decide +kernel)
    · exact isAmount_zero
  · exact isAmount_zero

/-- **Every tracker is finite and not negative**, after any calls, each with any galaxy and any
time, whatever the sources say. -/
theorem trackers_isAmount {catalog : Catalog Float} {config : Config Float} {solver : Solver Float}
    {m : Market Float} (h : Market.ofConfig catalog config solver = .ok m)
    (calls : List (Call Float)) {q : PlanetKey} {c : Nat} {quote : Quote Float}
    (hquote : (m.after calls).ledger.get? q c = some quote) :
    IsAmount quote.supply ∧ IsAmount quote.demand :=
  (Market.living_ofConfig h).tracks_after isAmount_zero isAmount_nonnegative
    (Market.tracks_ofConfig h) calls q c quote hquote

/-- A good whose source gives samples that are no number, infinite, negative and huge. Supply and
demand are alike, so that their difference stays zero. -/
def wildGood : Catalog Float :=
  ⟨[{ commodity := { name := "Plasma", description := "", basePrice := 100 }
      source? := some (.cycle [⟨0 / 0, 0 / 0⟩, ⟨1 / 0, 1 / 0⟩, ⟨-1, -1⟩, ⟨1e308, 1e308⟩]) }]⟩

def wildMarket : Market Float := { catalog := wildGood, config := .standard, solver := .cholesky }

/-- Times that are negative, no number, or so long that what a tracker is moved to is infinite. -/
def wildTimes : List (Call Float) :=
  [.update outpost 1, .update outpost 1e308, .update outpost (0 / 0), .update outpost (-1),
    .updateAt outpost (1 / 0), .updateAt outpost (-1 / 0)]

theorem wildMarket_eq : Market.ofConfig wildGood .standard .cholesky = .ok wildMarket :=
  Market.ofConfig_standard ..

/-- In the wild market too, the trackers at the outpost are amounts. -/
theorem trackers_isAmount_wild :
    ∃ quote, (wildMarket.after (.init outpost :: wildTimes)).ledger.get? ⟨0, 1⟩ 0 = some quote ∧
      IsAmount quote.supply ∧ IsAmount quote.demand := by
  obtain ⟨quote, hquote⟩ : ∃ quote,
      (wildMarket.after (.init outpost :: wildTimes)).ledger.get? ⟨0, 1⟩ 0 = some quote := by
    have hopened : wildMarket.phase = .uninitialized := rfl
    have hinit : wildMarket.perform (.init outpost) = wildMarket.init outpost := rfl
    rw [Market.after_cons, hinit, Market.init_of_ok hopened network_outpost,
      Market.opened_of_uninitialized hopened]
    refine Option.isSome_iff_exists.mp ?_
    decide +kernel
  exact ⟨quote, hquote, trackers_isAmount wildMarket_eq _ hquote⟩

end GalaxyMarket
