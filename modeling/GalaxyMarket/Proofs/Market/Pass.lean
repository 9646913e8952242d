import GalaxyMarket.Market.Intensity
import GalaxyMarket.Proofs.Market.Ledger

/-!
# A pass over the planets

A pass goes from system to system and from planet to planet, but what it does to the ledger depends
on the planets alone, in the order in which they are met (`Pass.systems_snd`). So the ledger is
followed through `Pass.visitAll` over all of them at once: a visit leaves a quote as it is or moves
its trackers once (`Pass.visit_cases`).

A pass for one commodity looks at the source and at that commodity's quotes only. Two passes that
agree on these (`Pass.Alike`) draw the same samples, move the same trackers and come to the same
intensities.
-/

namespace GalaxyMarket

variable {α : Type} [Scalar α]

namespace Pass

variable {config : Config α} {dt : α} {g : Galaxy α} {commodity : Nat} {pass pass' : Pass α}

/-- There is an intensity for each system. -/
theorem length_systems (config : Config α) (dt : α) (g : Galaxy α) (commodity : Nat)
    (pass : Pass α) (keys : List SystemKey) :
    (pass.systems config dt g commodity keys).1.length = keys.length := by
  induction keys generalizing pass with
  | nil => rfl
  | cons key keys ih => exact congrArg (· + 1) (ih _)

/-! ### One visit -/

/-- The pass after an inhabited planet with a quote was visited. -/
def moved (config : Config α) (dt : α) (commodity : Nat) (pass : Pass α) (planet : PlanetKey)
    (quote : Quote α) : Pass α :=
  { source := pass.source.draw.2
    ledger := pass.ledger.modify planet commodity fun _ =>
      quote.track config dt pass.source.draw.1 }

/-- A planet without inhabitants or without a quote is passed over. -/
theorem visit_of_none {visit : PlanetKey × Planet}
    (h : visit.2.inhabited = true → pass.ledger.get? visit.1 commodity = none) :
    pass.visit config dt commodity visit = none := by
  unfold Pass.visit
  split
  · next hinhabited => rw [h hinhabited, Option.map_none]
  · rfl

/-- An inhabited planet with a quote takes the next sample. -/
theorem visit_of_some {visit : PlanetKey × Planet} {quote : Quote α}
    (hinhabited : visit.2.inhabited = true)
    (hquote : pass.ledger.get? visit.1 commodity = some quote) :
    pass.visit config dt commodity visit =
      some (quote.track config dt pass.source.draw.1,
        pass.moved config dt commodity visit.1 quote) := by
  rw [Pass.visit, if_pos hinhabited, hquote]
  rfl

/-- A visit moves a quote, or there is none to move. -/
theorem visit_cases (config : Config α) (dt : α) (commodity : Nat) (pass : Pass α)
    (planet : PlanetKey × Planet) :
    (pass.visit config dt commodity planet = none ∧
      (planet.2.inhabited = true → pass.ledger.get? planet.1 commodity = none)) ∨
    ∃ quote, planet.2.inhabited = true ∧ pass.ledger.get? planet.1 commodity = some quote ∧
      pass.visit config dt commodity planet =
        some (quote.track config dt pass.source.draw.1,
          pass.moved config dt commodity planet.1 quote) := by
  cases hquote : pass.ledger.get? planet.1 commodity with
  | none => exact Or.inl ⟨visit_of_none fun _ => hquote, fun _ => rfl⟩
  | some quote =>
    by_cases hinhabited : planet.2.inhabited = true
    · exact Or.inr ⟨quote, hinhabited, rfl, visit_of_some hinhabited hquote⟩
    · exact Or.inl ⟨visit_of_none fun h => absurd h hinhabited, fun h => absurd h hinhabited⟩

/-- Only the one quote has moved. -/
theorem get?_moved {planet : PlanetKey} {quote : Quote α}
    (hquote : pass.ledger.get? planet commodity = some quote) (q : PlanetKey) (d : Nat) :
    (pass.moved config dt commodity planet quote).ledger.get? q d =
      if q = planet ∧ d = commodity then some (quote.track config dt pass.source.draw.1)
      else pass.ledger.get? q d := by
  unfold moved
  rw [Ledger.get?_modify]
  split
  · next heq => rw [heq.1, heq.2, hquote, Option.map_some]
  · rfl

/-! ### All visits of a pass -/

/-- A visit that moves nothing can be left out. -/
theorem visitAll_of_none {visit : PlanetKey × Planet} {visits : List (PlanetKey × Planet)}
    (h : pass.visit config dt commodity visit = none) :
    pass.visitAll config dt commodity (visit :: visits) =
      pass.visitAll config dt commodity visits := by
  rw [visitAll, h]

/-- One that moves a quote reports it, beside the population. -/
theorem visitAll_of_some {visit : PlanetKey × Planet} {visits : List (PlanetKey × Planet)}
    {quote : Quote α} (h : pass.visit config dt commodity visit = some (quote, pass')) :
    pass.visitAll config dt commodity (visit :: visits) =
      ((visit.2.population, quote) :: (pass'.visitAll config dt commodity visits).1,
        (pass'.visitAll config dt commodity visits).2) := by
  rw [visitAll, h]

/-- Visits can be paid in two parts. -/
theorem visitAll_append_snd (visits more : List (PlanetKey × Planet)) :
    (pass.visitAll config dt commodity (visits ++ more)).2 =
      ((pass.visitAll config dt commodity visits).2.visitAll config dt commodity more).2 := by
  induction visits generalizing pass with
  | nil => rfl
  | cons visit visits ih =>
    rw [List.cons_append]
    rcases visit_cases config dt commodity pass visit with ⟨h, -⟩ | ⟨quote, -, -, h⟩
    · rw [visitAll_of_none h, visitAll_of_none h, ih]
    · rw [visitAll_of_some h, visitAll_of_some h, ih]

/-- **What a pass leaves** does not depend on how the planets are spread over systems. -/
theorem systems_snd (keys : List SystemKey) :
    (pass.systems config dt g commodity keys).2 =
      (pass.visitAll config dt commodity (keys.flatMap g.planetsIn)).2 := by
  induction keys generalizing pass with
  | nil => rfl
  | cons key keys ih =>
    rw [List.flatMap_cons, visitAll_append_snd, ← ih]
    rfl

theorem sameShape_visitAll (pass : Pass α) (visits : List (PlanetKey × Planet)) :
    pass.ledger.SameShape (pass.visitAll config dt commodity visits).2.ledger := by
  induction visits generalizing pass with
  | nil => exact .refl _
  | cons visit visits ih =>
    rcases visit_cases config dt commodity pass visit with ⟨h, -⟩ | ⟨quote, -, -, h⟩
    · rw [visitAll_of_none h]
      exact ih pass
    · rw [visitAll_of_some h]
      -- A quote is written in place, where there was one.
      have hmoved : pass.ledger.SameShape (pass.moved config dt commodity visit.1 quote).ledger :=
        Ledger.sameShape_modify ..
      exact hmoved.trans (ih _)

/-- A pass changes quotes of its commodity on inhabited planets that it visits, and nothing else. -/
theorem get?_visitAll_of_not {q : PlanetKey} {d : Nat} {visits : List (PlanetKey × Planet)}
    (h : ¬ (d = commodity ∧ ∃ planet, (q, planet) ∈ visits ∧ planet.inhabited = true)) :
    (pass.visitAll config dt commodity visits).2.ledger.get? q d = pass.ledger.get? q d := by
  induction visits generalizing pass with
  | nil => rfl
  | cons visit visits ih =>
    have hrest : ¬ (d = commodity ∧ ∃ planet, (q, planet) ∈ visits ∧ planet.inhabited = true) :=
      fun ⟨hd, planet, hmem, hinhabited⟩ =>
        h ⟨hd, planet, List.mem_cons_of_mem _ hmem, hinhabited⟩
    rcases visit_cases config dt commodity pass visit with
      ⟨hvisit, -⟩ | ⟨quote, hinhabited, hquote, hvisit⟩
    · rw [visitAll_of_none hvisit]
      exact ih hrest
    · have hne : ¬ (q = visit.1 ∧ d = commodity) := by
        rintro ⟨rfl, rfl⟩
        exact h ⟨rfl, visit.2, List.mem_cons_self, hinhabited⟩
      rw [visitAll_of_some hvisit]
      show (visitAll config dt commodity _ visits).2.ledger.get? q d = _
      rw [ih hrest, get?_moved hquote, if_neg hne]

/-- What every draw keeps of a source, a pass keeps. -/
theorem source_visitAll {P : Source α → Prop} (hdraw : ∀ source, P source → P source.draw.2)
    (hsource : P pass.source) (visits : List (PlanetKey × Planet)) :
    P (pass.visitAll config dt commodity visits).2.source := by
  induction visits generalizing pass with
  | nil => exact hsource
  | cons visit visits ih =>
    rcases visit_cases config dt commodity pass visit with ⟨hvisit, -⟩ | ⟨quote, -, -, hvisit⟩
    · rw [visitAll_of_none hvisit]
      exact ih hsource
    · rw [visitAll_of_some hvisit]
      exact ih (hdraw _ hsource)

/-- **A pass moves each quote once**, provided that it comes across each planet once. The sample is
drawn from a source of which all is kept that draws keep. -/
theorem get?_visitAll {P : Source α → Prop} (hdraw : ∀ source, P source → P source.draw.2)
    (hsource : P pass.source) {visits : List (PlanetKey × Planet)}
    (hnodup : (visits.map Prod.fst).Nodup) {q : PlanetKey} {planet : Planet}
    (hmem : (q, planet) ∈ visits) (hinhabited : planet.inhabited = true) {quote : Quote α}
    (hquote : pass.ledger.get? q commodity = some quote) :
    ∃ source, P source ∧ (pass.visitAll config dt commodity visits).2.ledger.get? q commodity =
      some (quote.track config dt source.draw.1) := by
  induction visits generalizing pass with
  | nil => cases hmem
  | cons visit visits ih =>
    obtain ⟨hfresh, hnodup⟩ := List.nodup_cons.mp hnodup
    rcases List.mem_cons.mp hmem with rfl | hmem
    · -- The planet comes first, and is not met again.
      have hlater : ¬ (commodity = commodity ∧
          ∃ planet, (q, planet) ∈ visits ∧ planet.inhabited = true) :=
        fun ⟨_, _, hagain, _⟩ => hfresh (List.mem_map.mpr ⟨_, hagain, rfl⟩)
      rcases visit_cases config dt commodity pass (q, planet) with
        ⟨-, hnone⟩ | ⟨found, -, hfound, hvisit⟩
      · cases (hnone hinhabited).symm.trans hquote
      · cases hfound.symm.trans hquote
        refine ⟨pass.source, hsource, ?_⟩
        rw [visitAll_of_some hvisit]
        show (visitAll config dt commodity _ visits).2.ledger.get? q commodity = _
        rw [get?_visitAll_of_not hlater, get?_moved hfound, if_pos ⟨rfl, rfl⟩]
    · have hne : q ≠ visit.1 := fun heq => hfresh (heq ▸ List.mem_map_of_mem hmem)
      rcases visit_cases config dt commodity pass visit with
        ⟨hvisit, -⟩ | ⟨found, -, hfound, hvisit⟩
      · rw [visitAll_of_none hvisit]
        exact ih hsource hnodup hmem hquote
      · rw [visitAll_of_some hvisit]
        refine ih (hdraw _ hsource) hnodup hmem ?_
        rw [get?_moved hfound, if_neg fun h => hne h.1, hquote]

/-- What every sample leaves true of a quote, a pass does, however often it meets a planet. -/
theorem forall_visitAll {P : Quote α → Prop}
    (htrack : ∀ quote sample, P quote → P (quote.track config dt sample))
    (hledger : ∀ q quote, pass.ledger.get? q commodity = some quote → P quote)
    (visits : List (PlanetKey × Planet)) {q : PlanetKey} {quote : Quote α}
    (hquote : (pass.visitAll config dt commodity visits).2.ledger.get? q commodity = some quote) :
    P quote := by
  induction visits generalizing pass with
  | nil => exact hledger q quote hquote
  | cons visit visits ih =>
    rcases visit_cases config dt commodity pass visit with ⟨hvisit, -⟩ | ⟨found, -, hfound, hvisit⟩
    · rw [visitAll_of_none hvisit] at hquote
      exact ih hledger hquote
    · rw [visitAll_of_some hvisit] at hquote
      -- The quote that was moved has the property by `htrack`, the others had it before.
      refine ih (fun p moved hmoved => ?_) hquote
      rw [get?_moved hfound] at hmoved
      split at hmoved
      · rw [← Option.some.inj hmoved]
        exact htrack _ _ (hledger _ _ hfound)
      · exact hledger p moved hmoved

/-- No visit changes a price, however often a planet is met. -/
theorem price_visitAll (visits : List (PlanetKey × Planet)) (q : PlanetKey) (d : Nat) :
    ((pass.visitAll config dt commodity visits).2.ledger.get? q d).map Quote.price =
      (pass.ledger.get? q d).map Quote.price := by
  induction visits generalizing pass with
  | nil => rfl
  | cons visit visits ih =>
    rcases visit_cases config dt commodity pass visit with
      ⟨hvisit, -⟩ | ⟨quote, -, hquote, hvisit⟩
    · rw [visitAll_of_none hvisit]
      exact ih
    · rw [visitAll_of_some hvisit]
      refine ih.trans ?_
      rw [get?_moved hquote]
      split
      · next heq => rw [heq.1, heq.2, hquote]; rfl
      · rfl

/-! ### Samples one by one -/

/-- The planets among some for which a pass draws a sample. -/
def stops (commodity : Nat) (ledger : Ledger α) (visits : List (PlanetKey × Planet)) :
    List (PlanetKey × Planet) :=
  visits.filter fun visit => visit.2.inhabited && (ledger.get? visit.1 commodity).isSome

omit [Scalar α] in
/-- A planet that is passed over is no stop. -/
theorem stops_of_none {visit : PlanetKey × Planet}
    (h : visit.2.inhabited = true → pass.ledger.get? visit.1 commodity = none)
    (visits : List (PlanetKey × Planet)) :
    stops commodity pass.ledger (visit :: visits) = stops commodity pass.ledger visits := by
  refine List.filter_cons_of_neg fun hstop => ?_
  obtain ⟨hinhabited, hsome⟩ := Bool.and_eq_true_iff.mp hstop
  rw [h hinhabited] at hsome
  cases hsome

/-- Where a pass stops, it changes a quote in place, so that the stops ahead of it are the same. -/
theorem stops_of_some (config : Config α) (dt : α) {visit : PlanetKey × Planet} {quote : Quote α}
    (hinhabited : visit.2.inhabited = true)
    (hquote : pass.ledger.get? visit.1 commodity = some quote)
    (visits : List (PlanetKey × Planet)) :
    stops commodity pass.ledger (visit :: visits) =
      visit :: stops commodity (pass.moved config dt commodity visit.1 quote).ledger visits := by
  have hstop : (visit.2.inhabited && (pass.ledger.get? visit.1 commodity).isSome) = true := by
    rw [hinhabited, hquote]
    rfl
  have hshape : pass.ledger.SameShape (pass.moved config dt commodity visit.1 quote).ledger :=
    Ledger.sameShape_modify ..
  unfold stops
  simp only [hshape.isSome_get?]
  exact List.filter_cons_of_pos hstop

/-- **A pass draws one sample at each stop**, and none elsewhere. -/
theorem source_visitAll_eq (pass : Pass α) (visits : List (PlanetKey × Planet)) :
    (pass.visitAll config dt commodity visits).2.source =
      (pass.source.drawMany (stops commodity pass.ledger visits).length).2 := by
  -- The source and the ledger change from visit to visit, so that the pass is not fixed.
  induction visits generalizing pass with
  | nil => rfl
  | cons visit visits ih =>
    rcases visit_cases config dt commodity pass visit with
      ⟨hvisit, hnone⟩ | ⟨quote, hinhabited, hquote, hvisit⟩
    · rw [visitAll_of_none hvisit, stops_of_none hnone, ih]
    · rw [visitAll_of_some hvisit, stops_of_some config dt hinhabited hquote]
      exact ih _

/-- **Each stop has the sample of its number**, provided that the pass comes across each planet
once. -/
theorem get?_visitAll_stops (config : Config α) (dt : α) (pass : Pass α)
    {visits : List (PlanetKey × Planet)} (hnodup : (visits.map Prod.fst).Nodup) {k : Nat}
    {stop : PlanetKey × Planet}
    (hstop : (stops commodity pass.ledger visits)[k]? = some stop) :
    ∃ quote sample, pass.ledger.get? stop.1 commodity = some quote ∧
      (pass.source.drawMany (stops commodity pass.ledger visits).length).1[k]? = some sample ∧
      (pass.visitAll config dt commodity visits).2.ledger.get? stop.1 commodity =
        some (quote.track config dt sample) := by
  induction visits generalizing pass k with
  | nil => cases hstop
  | cons visit visits ih =>
    obtain ⟨hfresh, hnodup⟩ := List.nodup_cons.mp hnodup
    rcases visit_cases config dt commodity pass visit with
      ⟨hvisit, hnone⟩ | ⟨quote, hinhabited, hquote, hvisit⟩
    · rw [stops_of_none hnone] at hstop ⊢
      rw [visitAll_of_none hvisit]
      exact ih pass hnodup hstop
    · rw [stops_of_some config dt hinhabited hquote] at hstop ⊢
      rw [visitAll_of_some hvisit]
      cases k with
      | zero =>
        -- The planets that come later leave the first one alone.
        obtain rfl := Option.some.inj hstop
        refine ⟨quote, pass.source.draw.1, hquote, rfl, ?_⟩
        show (visitAll config dt commodity _ visits).2.ledger.get? visit.1 commodity = _
        rw [get?_visitAll_of_not, get?_moved hquote, if_pos ⟨rfl, rfl⟩]
        rintro ⟨-, planet, hagain, -⟩
        exact hfresh (List.mem_map.mpr ⟨_, hagain, rfl⟩)
      | succ k =>
        -- One sample was drawn already, and the quote of a later stop was not touched by it.
        obtain ⟨found, sample, hfound, hsample, hmoved⟩ := ih _ hnodup hstop
        have hmem : stop ∈ visits := List.mem_of_mem_filter (List.mem_of_getElem? hstop)
        have hne : stop.1 ≠ visit.1 := fun heq => hfresh (heq ▸ List.mem_map_of_mem hmem)
        rw [get?_moved hquote, if_neg fun h => hne h.1] at hfound
        exact ⟨found, sample, hfound, hsample, hmoved⟩

/-- Where a pass does not stop, the quote stays. -/
theorem get?_visitAll_of_notMem_stops {visits : List (PlanetKey × Planet)} {q : PlanetKey}
    (h : q ∉ (stops commodity pass.ledger visits).map Prod.fst) :
    (pass.visitAll config dt commodity visits).2.ledger.get? q commodity =
      pass.ledger.get? q commodity := by
  cases hquote : pass.ledger.get? q commodity with
  | none =>
    have hshape : pass.ledger.SameShape (pass.visitAll config dt commodity visits).2.ledger :=
      sameShape_visitAll pass visits
    rw [← Option.not_isSome_iff_eq_none, hshape.isSome_get?, hquote]
    exact Bool.false_ne_true
  | some quote =>
    rw [← hquote]
    apply get?_visitAll_of_not
    rintro ⟨-, planet, hmem, hinhabited⟩
    refine h (List.mem_map.mpr ⟨(q, planet), List.mem_filter.mpr ⟨hmem, ?_⟩, rfl⟩)
    rw [hinhabited, hquote]
    rfl

/-! ### What a pass depends on -/

/-- Two passes that agree on all that a pass for the commodity looks at. -/
structure Alike (commodity : Nat) (pass pass' : Pass α) : Prop where
  source : pass'.source = pass.source
  column : ∀ q, pass'.ledger.get? q commodity = pass.ledger.get? q commodity

/-- Where the quote is the same, so is what the next sample makes of it. -/
theorem Alike.moved (h : pass.Alike commodity pass') (config : Config α) (dt : α)
    {planet : PlanetKey} {quote : Quote α}
    (hquote : pass.ledger.get? planet commodity = some quote) :
    (pass.moved config dt commodity planet quote).Alike commodity
      (pass'.moved config dt commodity planet quote) where
  source := by
    unfold Pass.moved
    rw [h.source]
  column q := by
    rw [get?_moved hquote, get?_moved ((h.column planet).trans hquote), h.source, h.column]

/-- Passes that are alike meet the same quotes and stay alike. -/
theorem Alike.visitAll (h : pass.Alike commodity pass') (config : Config α) (dt : α)
    (visits : List (PlanetKey × Planet)) :
    (pass'.visitAll config dt commodity visits).1 = (pass.visitAll config dt commodity visits).1 ∧
      (pass.visitAll config dt commodity visits).2.Alike commodity
        (pass'.visitAll config dt commodity visits).2 := by
  -- Both passes meet the same planets, and stay alike from one to the next.
  induction visits generalizing pass pass' with
  | nil => exact ⟨rfl, h⟩
  | cons visit visits ih =>
    rcases visit_cases config dt commodity pass visit with
      ⟨hvisit, hnone⟩ | ⟨quote, hinhabited, hquote, hvisit⟩
    · have hvisit' : pass'.visit config dt commodity visit = none :=
        visit_of_none fun hinhabited => (h.column visit.1).trans (hnone hinhabited)
      rw [visitAll_of_none hvisit, visitAll_of_none hvisit']
      exact ih h
    · have hvisit' : pass'.visit config dt commodity visit =
          some (quote.track config dt pass.source.draw.1,
            pass'.moved config dt commodity visit.1 quote) := by
        rw [visit_of_some hinhabited ((h.column visit.1).trans hquote), h.source]
      obtain ⟨hquotes, halike⟩ := ih (h.moved config dt hquote)
      rw [visitAll_of_some hvisit, visitAll_of_some hvisit']
      exact ⟨congrArg (List.cons _) hquotes, halike⟩

/-- So are the intensities of all systems. -/
theorem Alike.systems (h : pass.Alike commodity pass') (config : Config α) (dt : α) (g : Galaxy α)
    (keys : List SystemKey) :
    (pass'.systems config dt g commodity keys).1 = (pass.systems config dt g commodity keys).1 ∧
      (pass.systems config dt g commodity keys).2.Alike commodity
        (pass'.systems config dt g commodity keys).2 := by
  induction keys generalizing pass pass' with
  | nil => exact ⟨rfl, h⟩
  | cons key keys ih =>
    -- The same quotes of a system come to the same intensity.
    obtain ⟨hquotes, halike⟩ := h.visitAll config dt (g.planetsIn key)
    obtain ⟨hintensities, halike⟩ := ih halike
    exact ⟨congrArg₂ (· :: ·) (congrArg (intensityOf config) hquotes) hintensities, halike⟩

end Pass

end GalaxyMarket
