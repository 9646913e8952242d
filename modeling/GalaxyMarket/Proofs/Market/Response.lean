import GalaxyMarket.Proofs.Market.TrackerRange
import GalaxyMarket.Proofs.Market.Trackers

/-!
# How an intensity answers to its samples

Two passes over a system start from one ledger. Each sample of the second asks for no less than the
sample of the first for the same planet and offers no more (`Sample.TighterThan`). One would expect
the second intensity to be no smaller. It is no greater: trackers are driven away from their samples
(`track_le_track`), so that after every visit the quotes of the first pass are the tighter ones
(`Pass.forall₂_visitAll`), and an intensity does follow its quotes (`intensityOf_mono`). All this
holds for both ways of adding up a system, for any number of planets and for any populations
(`intensity_antitone`); at the hamlet the two intensities differ (`not_intensity_mono`).
-/

namespace GalaxyMarket

/-! ### Tight samples and tight quotes -/

/-- A sample that asks for no less than another and offers no more. -/
structure Sample.TighterThan (a b : Sample ℝ) : Prop where
  demand : b.demand ≤ a.demand
  supply : a.supply ≤ b.supply

/-- A quote with no less demand than another and no more production. -/
structure Quote.TighterThan (a b : Quote ℝ) : Prop where
  demand : b.demand ≤ a.demand
  supply : a.supply ≤ b.supply

/-- Every quote is as tight as itself. -/
theorem Quote.TighterThan.refl (quote : Quote ℝ) : quote.TighterThan quote := ⟨le_rfl, le_rfl⟩

/-- The guard keeps the order. -/
theorem nonnegative_mono {x y : ℝ} (h : x ≤ y) : nonnegative x ≤ nonnegative y := by
  rw [nonnegative_eq, nonnegative_eq]
  exact max_le_max_right 0 h

/-- A tracker ends no higher from a lower start and with a greater sample. -/
theorem track_le_track {rate dt tracker tracker' sample sample' : ℝ} (hmove : 0 ≤ rate * dt)
    (htracker : tracker' ≤ tracker) (hsample : sample ≤ sample') :
    track rate dt tracker' sample' ≤ track rate dt tracker sample := by
  have hstart : (1 + rate * dt) * (tracker' + rate * dt) ≤
      (1 + rate * dt) * (tracker + rate * dt) :=
    mul_le_mul_of_nonneg_left (by linarith) (by linarith)
  have hpull : rate * dt * sample ≤ rate * dt * sample' := mul_le_mul_of_nonneg_left hsample hmove
  -- A tracker is its sample and what is left of the distance, drift included. In this form the
  -- sample counts `-rate * dt` times, which is what turns the order round.
  rw [track_eq, track_eq]
  refine max_le_max_right 0 ?_
  calc sample' + (1 + rate * dt) * (tracker' + rate * dt - sample')
      = (1 + rate * dt) * (tracker' + rate * dt) - rate * dt * sample' := by ring
    _ ≤ (1 + rate * dt) * (tracker + rate * dt) - rate * dt * sample := by linarith
    _ = sample + (1 + rate * dt) * (tracker + rate * dt - sample) := by ring

section

variable {config : Config ℝ} {dt : ℝ} {c : ℕ}

/-- A time in which no tracker drifts down. -/
structure Config.Forward (config : Config ℝ) (dt : ℝ) : Prop where
  production : 0 ≤ config.productionVariability * dt
  demand : 0 ≤ config.demandVariability * dt

/-- **A tighter sample** leaves the looser quote. -/
theorem Quote.TighterThan.track {quote quote' : Quote ℝ} (h : quote.TighterThan quote')
    (hforward : config.Forward dt) {sample sample' : Sample ℝ}
    (hsample : sample'.TighterThan sample) :
    (quote.track config dt sample).TighterThan (quote'.track config dt sample') where
  demand := track_le_track hforward.demand h.demand (nonnegative_mono hsample.demand)
  supply := track_le_track hforward.production h.supply (nonnegative_mono hsample.supply)

/-! ### Visits -/

/-- How many samples a pass draws on its visits. -/
def Ledger.drawsFor {α : Type} (ledger : Ledger α) (c : ℕ)
    (visits : List (PlanetKey × Planet)) : ℕ :=
  visits.countP fun visit => visit.2.inhabited && (ledger.get? visit.1 c).isSome

/-- Samples are drawn where a pass stops. -/
theorem Ledger.drawsFor_eq {α : Type} [Scalar α] (ledger : Ledger α)
    (visits : List (PlanetKey × Planet)) :
    ledger.drawsFor c visits = (Pass.stops c ledger visits).length :=
  List.countP_eq_length_filter

/-- Two passes of which the first has the tighter quotes to start with, and the second the tighter
samples. -/
structure Pass.Opposed (c n : ℕ) (pass pass' : Pass ℝ) : Prop where
  column : ∀ q, Option.Rel Quote.TighterThan (pass.ledger.get? q c) (pass'.ledger.get? q c)
  samples : List.Forall₂ Sample.TighterThan (pass'.source.drawMany n).1 (pass.source.drawMany n).1

namespace Pass

variable {pass pass' : Pass ℝ} {n : ℕ}

/-- Both have quotes for the same planets. -/
theorem Opposed.isSome_eq (h : pass.Opposed c n pass') (q : PlanetKey) :
    (pass'.ledger.get? q c).isSome = (pass.ledger.get? q c).isSome := by
  have hcolumn := h.column q
  generalize pass.ledger.get? q c = quote? at hcolumn ⊢
  generalize pass'.ledger.get? q c = quote?' at hcolumn ⊢
  cases hcolumn <;> rfl

/-- They stay so from one planet to the next. -/
theorem Opposed.moved (h : pass.Opposed c (n + 1) pass') (hforward : config.Forward dt)
    {planet : PlanetKey} {quote quote' : Quote ℝ}
    (hquote : pass.ledger.get? planet c = some quote)
    (hquote' : pass'.ledger.get? planet c = some quote') :
    (quote.track config dt pass.source.draw.1).TighterThan
        (quote'.track config dt pass'.source.draw.1) ∧
      (pass.moved config dt c planet quote).Opposed c n
        (pass'.moved config dt c planet quote') := by
  obtain ⟨hfirst, hrest⟩ := List.forall₂_cons.mp h.samples
  have htighter : quote.TighterThan quote' := by
    have hrel := h.column planet
    rw [hquote, hquote'] at hrel
    cases hrel with
    | some htighter => exact htighter
  have htracked := htighter.track hforward hfirst
  refine ⟨htracked, fun q => ?_, hrest⟩
  rw [get?_moved hquote, get?_moved hquote']
  split
  · exact .some htracked
  · exact h.column q

/-- **After the visits** the quotes of the first pass are the tighter ones, planet by planet. -/
theorem forall₂_visitAll (hforward : config.Forward dt) {visits : List (PlanetKey × Planet)}
    (h : pass.Opposed c (pass.ledger.drawsFor c visits) pass') :
    List.Forall₂ (fun a b => a.1 = b.1 ∧ a.2.TighterThan b.2)
      (pass.visitAll config dt c visits).1 (pass'.visitAll config dt c visits).1 := by
  -- Both passes stop at the same planets, since they have quotes for the same ones.
  induction visits generalizing pass pass' with
  | nil => exact .nil
  | cons visit visits ih =>
    rcases visit_cases config dt c pass visit with
      ⟨hvisit, hnone⟩ | ⟨quote, hinhabited, hquote, hvisit⟩
    · have hdraws : pass.ledger.drawsFor c (visit :: visits) = pass.ledger.drawsFor c visits := by
        rw [Ledger.drawsFor_eq, stops_of_none hnone, Ledger.drawsFor_eq]
      have hvisit' : pass'.visit config dt c visit = none := by
        refine visit_of_none fun hinhabited => ?_
        rw [← Option.isNone_iff_eq_none, ← Option.isSome_eq_false_iff, h.isSome_eq,
          hnone hinhabited, Option.isSome_none]
      rw [visitAll_of_none hvisit, visitAll_of_none hvisit']
      exact ih (hdraws ▸ h)
    · have hdraws : pass.ledger.drawsFor c (visit :: visits) =
          (pass.moved config dt c visit.1 quote).ledger.drawsFor c visits + 1 := by
        rw [Ledger.drawsFor_eq, stops_of_some config dt hinhabited hquote, Ledger.drawsFor_eq,
          List.length_cons]
      obtain ⟨quote', hquote'⟩ : ∃ quote', pass'.ledger.get? visit.1 c = some quote' := by
        rw [← Option.isSome_iff_exists, h.isSome_eq, hquote, Option.isSome_some]
      obtain ⟨htighter, hopposed⟩ := (hdraws ▸ h).moved hforward hquote hquote'
      rw [visitAll_of_some hvisit, visitAll_of_some (visit_of_some hinhabited hquote')]
      exact .cons ⟨rfl, htighter⟩ (ih hopposed)

end Pass

/-! ### From quotes to intensities -/

variable {quotes quotes' : List (ℕ × Quote ℝ)}

/-- Sums follow their terms. -/
theorem sum_map_le_sum_map {f : ℕ × Quote ℝ → ℝ}
    (h : List.Forall₂ (fun a b => f b ≤ f a) quotes quotes') :
    (quotes'.map f).sum ≤ (quotes.map f).sum := by
  refine List.Forall₂.sum_le_sum ?_
  rw [List.forall₂_map_left_iff, List.forall₂_map_right_iff]
  exact h.flip

/-- Tighter quotes have the greater excess. -/
theorem totalExcess_mono
    (h : List.Forall₂ (fun a b => a.1 = b.1 ∧ a.2.TighterThan b.2) quotes quotes') :
    totalExcess quotes' ≤ totalExcess quotes := by
  -- Demand and supply are compared with the same populations, planet by planet.
  have hdemand : (quotes'.map fun q => q.2.demand * √(q.1 : ℝ)).sum ≤
      (quotes.map fun q => q.2.demand * √(q.1 : ℝ)).sum := by
    refine sum_map_le_sum_map (h.imp fun a b hab => ?_)
    rw [hab.1]
    exact mul_le_mul_of_nonneg_right hab.2.demand (Real.sqrt_nonneg _)
  have hsupply : (quotes.map fun q => q.2.supply * √(q.1 : ℝ)).sum ≤
      (quotes'.map fun q => q.2.supply * √(q.1 : ℝ)).sum := by
    refine sum_map_le_sum_map (h.flip.imp fun a b hab => ?_)
    rw [hab.1]
    exact mul_le_mul_of_nonneg_right hab.2.supply (Real.sqrt_nonneg _)
  simpa [totalExcess] using sub_le_sub hdemand hsupply

/-- What holds of all entries holds of the last ones. -/
theorem rel_getLast? {β : Type} {R : β → β → Prop} {xs ys : List β} (h : List.Forall₂ R xs ys) :
    Option.Rel R xs.getLast? ys.getLast? := by
  rw [← List.head?_reverse, ← List.head?_reverse]
  have hreverse := List.rel_reverse h
  generalize xs.reverse = xs' at hreverse ⊢
  generalize ys.reverse = ys' at hreverse ⊢
  cases hreverse with
  | nil => exact .none
  | cons hfirst _ => exact .some hfirst

/-- **An intensity follows its quotes**: it is no smaller for quotes that are tighter. -/
theorem intensityOf_mono (hbase : 1 < config.powerBase) (hmodifier : 0 < config.productionModifier)
    (h : List.Forall₂ (fun a b => a.1 = b.1 ∧ a.2.TighterThan b.2) quotes quotes') :
    intensityOf config quotes' ≤ intensityOf config quotes := by
  have hlast := rel_getLast? h
  unfold intensityOf
  generalize quotes.getLast? = last? at hlast ⊢
  generalize quotes'.getLast? = last?' at hlast ⊢
  cases hlast with
  | none => exact le_rfl
  | @some last last' hlast =>
    refine Real.rpow_le_rpow_of_exponent_le hbase.le (div_le_div_of_nonneg_right ?_ hmodifier.le)
    -- Both ways of adding up grow with demand and fall with supply.
    cases config.aggregation with
    | systemTotal => exact totalExcess_mono h
    | lastPlanet => exact sub_le_sub hlast.2.demand hlast.2.supply

end

/-- **More demand and less supply lower an intensity.** Where each sample of a second pass asks for
no less than that of the first and offers no more, its intensity is no greater, in any system, from
any ledger and for any time that does not run backwards. -/
theorem intensity_antitone {config : Config ℝ} (hvalid : config.validate = .ok ()) (g : Galaxy ℝ)
    (key : SystemKey) (c : ℕ) (ledger : Ledger ℝ) {dt : ℝ} (hdt : 0 ≤ dt)
    {source source' : Source ℝ}
    (hsamples : List.Forall₂ Sample.TighterThan
      (source'.drawMany (ledger.drawsFor c (g.planetsIn key))).1
      (source.drawMany (ledger.drawsFor c (g.planetsIn key))).1) :
    (Pass.system config dt g c { source := source', ledger } key).1 ≤
      (Pass.system config dt g c { source, ledger } key).1 := by
  obtain ⟨-, -, hmodifier, hproduction, hdemand, hbase⟩ := Config.validate_eq_ok_iff.mp hvalid
  have hforward : config.Forward dt := ⟨mul_nonneg hproduction hdt, mul_nonneg hdemand hdt⟩
  have hstart : Pass.Opposed c (ledger.drawsFor c (g.planetsIn key))
      { source, ledger } { source := source', ledger } := by
    refine ⟨fun q => ?_, hsamples⟩
    cases ledger.get? q c with
    | none => exact .none
    | some quote => exact .some (.refl quote)
  exact intensityOf_mono hbase hmodifier (Pass.forall₂_visitAll hforward hstart)

/-! ### At the hamlet -/

/-- A pass over the hamlet before anything was tracked, with a source that offers `supply`. -/
noncomputable def hamletPass (supply : ℝ) : Pass ℝ :=
  { source := .constant ⟨supply, 0⟩, ledger := .ofGalaxy hamlet idleGood }

/-- Production drifts to one and is then driven away from the supply. -/
theorem intensity_hamlet {supply : ℝ} (hsupply : 0 ≤ supply) (hsmall : supply ≤ 2) :
    ((hamletPass supply).system restless 1 hamlet 0 ⟨0, 1⟩).1 = (1.1 : ℝ) ^ (supply - 2) := by
  have hproduction : track 1 1 0 (nonnegative supply) = 2 - supply := by
    rw [nonnegative_eq, max_eq_left hsupply, track_eq, max_eq_left (by linarith)]
    ring
  have hdemand : track 0 1 0 (nonnegative (0 : ℝ)) = 0 := by
    rw [track_eq, max_eq_right (by simp [nonnegative_eq])]
  have hexcess : ((hamletPass supply).system restless 1 hamlet 0 ⟨0, 1⟩).1 =
      Scalar.pow restless.powerBase (totalExcess [(1, ⟨track 1 1 0 (nonnegative supply),
        track 0 1 0 (nonnegative 0), 100⟩)] / restless.productionModifier) := rfl
  rw [hexcess, hproduction, hdemand]
  simp [totalExcess, restless, Config.standard, Scalar.pow]

/-- The samples of the two passes over the hamlet: nothing is asked, and only the second pass is
offered a unit. -/
theorem tighter_hamlet : List.Forall₂ Sample.TighterThan
    ((hamletPass 0).source.drawMany 1).1 ((hamletPass 1).source.drawMany 1).1 :=
  .cons ⟨le_rfl, zero_le_one⟩ .nil

/-- At the hamlet the samples differ in supply, and the second intensity is the smaller one. -/
theorem intensity_antitone_hamlet :
    restless.validate = .ok () ∧
    List.Forall₂ Sample.TighterThan ((hamletPass 0).source.drawMany 1).1
      ((hamletPass 1).source.drawMany 1).1 ∧
    ((hamletPass 0).system restless 1 hamlet 0 ⟨0, 1⟩).1 ≤
      ((hamletPass 1).system restless 1 hamlet 0 ⟨0, 1⟩).1 := by
  have hvalid : restless.validate = .ok () := (Market.ofConfig_eq_ok_iff.mp hamletMarket_eq).1
  exact ⟨hvalid, tighter_hamlet, intensity_antitone hvalid hamlet ⟨0, 1⟩ 0
    (.ofGalaxy hamlet idleGood) zero_le_one tighter_hamlet⟩

/-- **Demand does not raise an intensity, nor does production lower it.** It fails for a valid
tuning, trackers at zero and one planet. -/
theorem not_intensity_mono : ¬ ∀ (config : Config ℝ) (g : Galaxy ℝ) (key : SystemKey) (c : ℕ)
    (ledger : Ledger ℝ) (dt : ℝ) (source source' : Source ℝ), config.validate = .ok () →
    ledger.Tracks (0 ≤ ·) → 0 ≤ dt →
    List.Forall₂ Sample.TighterThan
      (source'.drawMany (ledger.drawsFor c (g.planetsIn key))).1
      (source.drawMany (ledger.drawsFor c (g.planetsIn key))).1 →
    (Pass.system config dt g c { source, ledger } key).1 ≤
      (Pass.system config dt g c { source := source', ledger } key).1 := by
  intro hall
  have hvalid : restless.validate = .ok () := (Market.ofConfig_eq_ok_iff.mp hamletMarket_eq).1
  have hledger : (hamletPass 1).ledger.Tracks (0 ≤ ·) := Ledger.tracks_ofGalaxy le_rfl _ _
  have hle := hall restless hamlet ⟨0, 1⟩ 0 (hamletPass 1).ledger 1 (hamletPass 1).source
    (hamletPass 0).source hvalid hledger zero_le_one tighter_hamlet
  -- The production tracker ends at two for no supply, and at one for a supply of one.
  have hless : (1.1 : ℝ) ^ (0 - 2 : ℝ) < 1.1 ^ (1 - 2 : ℝ) :=
    Real.rpow_lt_rpow_of_exponent_lt (by norm_num) (by norm_num)
  rw [← intensity_hamlet le_rfl zero_le_two, ← intensity_hamlet zero_le_one one_le_two] at hless
  exact absurd hle (not_le.mpr hless)

end GalaxyMarket
