import GalaxyMarket.Proofs.Market.Readiness
import GalaxyMarket.Proofs.Market.Synchronisation

/-!
# A refresh that fails is contained

A refresh switches the phase of a market and brings its rows in line before it asks for the matrix,
so that one that fails is neither finished nor undone. What it leaves is the market with the rows of
the galaxy, but without anything to solve with (`Market.refused`): index and matrix are those of an
earlier refresh, and so are the prices of all planets that are still there (`Market.Contained`).

A market with a ledger and nothing to solve with is stalled. As long as it is not destroyed and no
refresh succeeds it stays so, whatever it is called for, and only two things can still happen to it:
its rows are brought in line with another galaxy, by another refresh that fails, and sources are
taken away (`Market.Stalled.after`). Opening it, updating it and asking for a refresh do not even do
that (`Market.Stalled.after_idle`).
-/

namespace GalaxyMarket

variable {α : Type} [Scalar α]

/-! ### Rows that stay -/

namespace Ledger

variable {ledger : Ledger α} {q : PlanetKey} {row : List (Quote α)}

/-- A row stays as it is as long as its planet does. -/
theorem row?_sync_of_row? {g : Galaxy α} (hrow : ledger.row? q = some row)
    (hplanet : g.planets.contains q = true) : (ledger.sync g).row? q = some row := by
  rw [row?_sync, if_pos hplanet, hrow, Option.getD_some]

/-- So it does through any number of synchronisations. -/
theorem row?_foldl_sync_of_row? {galaxies : List (Galaxy α)} (hrow : ledger.row? q = some row)
    (hplanet : ∀ g ∈ galaxies, g.planets.contains q = true) :
    (galaxies.foldl sync ledger).row? q = some row := by
  induction galaxies generalizing ledger with
  | nil => exact hrow
  | cons g galaxies ih =>
    have hsync := row?_sync_of_row? hrow (hplanet g List.mem_cons_self)
    exact ih hsync fun h hh => hplanet h (List.mem_cons_of_mem g hh)

end Ledger

/-! ### Calls to a stalled market -/

/-- The commodity whose source a call takes away. -/
def Call.detaches? {α : Type} : Call α → Option ℕ
  | .detach commodity => some commodity
  | _ => none

/-- Whether a call is one of those that a market without a matrix has nothing to do for, but to
remember that it was asked for a refresh. -/
def Call.isIdle {α : Type} : Call α → Bool
  | .init _ | .update .. | .updateAt .. | .queueRefresh => true
  | _ => false

/-- A catalog without the sources of some commodities. -/
def Catalog.without {α : Type} (catalog : Catalog α) (commodities : List ℕ) : Catalog α :=
  commodities.foldl (fun catalog commodity => catalog.setSource commodity none) catalog

/-- Sources can be taken away in several steps. -/
theorem Catalog.without_append {α : Type} (catalog : Catalog α)
    (commodities commodities' : List ℕ) :
    catalog.without (commodities ++ commodities') =
      (catalog.without commodities).without commodities' :=
  List.foldl_append

/-- The commodities themselves stay. -/
theorem Catalog.commodity?_without {α : Type} (catalog : Catalog α) (commodities : List ℕ) (c : ℕ) :
    (catalog.without commodities).commodity? c = catalog.commodity? c := by
  induction commodities generalizing catalog with
  | nil => rfl
  | cons commodity commodities ih =>
    refine (ih (catalog.setSource commodity none)).trans ?_
    unfold commodity?
    rw [getElem?_setSource]
    split
    · rw [Option.map_map]
      rfl
    · rfl

namespace Market

/-- The galaxies of which calls of a run were refused a matrix, in order. -/
def refusals (m : Market α) : List (Call α) → List (Galaxy α)
  | [] => []
  | call :: calls =>
    let (next, answer) := m.perform call
    match answer, call.rebuilds? with
    | .error _, some g => g :: next.refusals calls
    | _, _ => next.refusals calls

/-- A market with a ledger and nothing to solve with. -/
structure Stalled (m : Market α) : Prop where
  phase_eq : m.phase = .initialized
  prepared?_eq : m.prepared? = none

variable {m next : Market α} {g : Galaxy α} {e : NetworkError α} {call : Call α}
  {calls : List (Call α)}

/-- A call that succeeds was refused nothing, -/
theorem refusals_of_ok {events : List (Event α)} (hperform : m.perform call = (next, .ok events)) :
    m.refusals (call :: calls) = next.refusals calls := by
  rw [refusals, hperform]

/-- and one that fails was refused its galaxy. -/
theorem refusals_of_error (hperform : m.perform call = (next, .error e))
    (hcall : call.rebuilds? = some g) : m.refusals (call :: calls) = g :: next.refusals calls := by
  rw [refusals, hperform, hcall]

/-- A refusal leaves a market stalled. -/
theorem stalled_refused (m : Market α) (g : Galaxy α) : (m.refused g).Stalled := ⟨rfl, rfl⟩

namespace Stalled

/-- In a stalled market a refusal brings the rows in line, and nothing else. -/
theorem refused_eq (h : m.Stalled) (g : Galaxy α) :
    m.refused g = { m with ledger := m.ledger.sync g, refreshQueued := false } := by
  rw [refused, h.phase_eq.symm, h.prepared?_eq.symm]

variable (h : m.Stalled)
include h

omit [Scalar α] in
/-- A stalled market is not uninitialized, -/
theorem phase_ne : m.phase ≠ .uninitialized := by
  rw [h.phase_eq]
  decide

omit [Scalar α] in
/-- and it is not ready either. -/
theorem not_ready : m.phase ≠ .ready := by
  rw [h.phase_eq]
  decide

/-- **Calls that have nothing to do** leave a stalled market as it is, but for the request. -/
theorem perform_of_isIdle (hidle : call.isIdle = true) :
    ∃ queued, m.perform call = ({ m with refreshQueued := queued }, .ok []) := by
  -- There is a ledger already and no matrix yet, so that neither opening nor time has any effect.
  cases call with
  | init g => exact ⟨m.refreshQueued, init_of_ne h.phase_ne⟩
  | update g dt =>
    refine ⟨m.refreshQueued, ?_⟩
    rw [Market.perform, update_of_phase_ne h.not_ready]
  | updateAt g now =>
    refine ⟨m.refreshQueued, ?_⟩
    rw [Market.perform, updateAt_of_phase_ne h.not_ready]
  | queueRefresh => exact ⟨true, rfl⟩
  | refresh | execQueued | destroy | detach => cases hidle

/-- A refresh that does not succeed is refused. -/
theorem refresh_eq (hanswer : Answer.isRefreshed (m.refresh g).2 = false) :
    ∃ e, m.refresh g = (m.refused g, .error e) := by
  cases hnetwork : g.network m.config with
  | error e => exact ⟨e, refresh_of_error h.phase_ne hnetwork⟩
  | ok network =>
    rw [refresh_of_ok h.phase_ne hnetwork] at hanswer
    cases hanswer

/-- **What a call does to a stalled market** if it neither destroys it nor gets it a matrix. -/
theorem perform_cases (hdestroy : call ≠ .destroy)
    (hanswer : Answer.isRefreshed (m.perform call).2 = false) :
    (∃ queued, m.perform call = ({ m with
      catalog := m.catalog.without call.detaches?.toList, refreshQueued := queued }, .ok [])) ∨
    ∃ g e, call.rebuilds? = some g ∧ call.detaches? = none ∧
      m.perform call = (m.refused g, .error e) := by
  cases call with
  | init | update | updateAt | queueRefresh => exact Or.inl (h.perform_of_isIdle rfl)
  | refresh g =>
    obtain ⟨e, hrefused⟩ := h.refresh_eq hanswer
    exact Or.inr ⟨g, e, rfl, rfl, hrefused⟩
  | execQueued g =>
    -- Only a market that was asked for a refresh looks at the galaxy.
    cases hqueued : m.refreshQueued with
    | false => exact Or.inl ⟨m.refreshQueued, execQueued_of_not_queued hqueued⟩
    | true =>
      have hexec : m.execQueued g = m.refresh g := execQueued_of_queued hqueued
      change Answer.isRefreshed (m.execQueued g).2 = false at hanswer
      rw [hexec] at hanswer
      obtain ⟨e, hrefused⟩ := h.refresh_eq hanswer
      exact Or.inr ⟨g, e, rfl, rfl, hexec.trans hrefused⟩
  | detach commodity => exact Or.inl ⟨m.refreshQueued, rfl⟩
  | destroy => exact absurd rfl hdestroy

/-- **A stalled market stays as it is** under calls that have nothing to do, and answers nothing. -/
theorem after_idle (hidle : ∀ call ∈ calls, call.isIdle = true) :
    (∃ queued, m.after calls = { m with refreshQueued := queued }) ∧
      ∀ answer ∈ m.answers calls, answer = .ok [] := by
  -- A market that differs in its request only is stalled as well.
  induction calls generalizing m with
  | nil => exact ⟨⟨m.refreshQueued, rfl⟩, nofun⟩
  | cons call calls ih =>
    obtain ⟨queued, hperform⟩ := h.perform_of_isIdle (hidle call List.mem_cons_self)
    obtain ⟨⟨queued', hafter⟩, hanswers⟩ := ih (m := { m with refreshQueued := queued })
      ⟨h.phase_eq, h.prepared?_eq⟩ fun call hcall => hidle call (List.mem_cons_of_mem _ hcall)
    rw [after_cons, answers, hperform]
    refine ⟨⟨queued', hafter⟩, fun answer hmem => ?_⟩
    rcases List.mem_cons.mp hmem with rfl | hmem
    · rfl
    · exact hanswers answer hmem

/-- **A stalled market stays stalled** as long as it is not destroyed and no refresh succeeds. Its
rows follow the galaxies of the refreshes that fail, and sources that are taken away are gone. -/
theorem after (hdestroy : .destroy ∉ calls)
    (hanswers : ∀ answer ∈ m.answers calls, answer.isRefreshed = false) :
    ∃ queued, m.after calls = { m with
      ledger := (m.refusals calls).foldl Ledger.sync m.ledger
      catalog := m.catalog.without (calls.flatMap fun call => call.detaches?.toList)
      refreshQueued := queued } := by
  induction calls generalizing m with
  | nil => exact ⟨m.refreshQueued, rfl⟩
  | cons call calls ih =>
    have hne : call ≠ .destroy := fun heq => hdestroy (heq ▸ List.mem_cons_self)
    have hrest : .destroy ∉ calls := fun hmem => hdestroy (List.mem_cons_of_mem _ hmem)
    rw [after_cons, List.flatMap_cons, Catalog.without_append]
    rcases h.perform_cases hne (hanswers _ List.mem_cons_self) with
      ⟨queued, hperform⟩ | ⟨g, e, hcall, hdetaches, hperform⟩
    · -- The market has changed, but not in what makes it stalled.
      rw [answers, hperform] at hanswers
      rw [refusals_of_ok hperform, hperform]
      exact ih (m := { m with
          catalog := m.catalog.without call.detaches?.toList, refreshQueued := queued })
        ⟨h.phase_eq, h.prepared?_eq⟩ hrest fun answer hmem =>
          hanswers answer (List.mem_cons_of_mem _ hmem)
    · -- The refresh was refused: the rows are those of its galaxy, and the rest goes on from there.
      rw [answers, hperform] at hanswers
      rw [refusals_of_error hperform hcall, hperform, hdetaches, h.refused_eq]
      rw [h.refused_eq] at hanswers
      exact ih (m := { m with ledger := m.ledger.sync g, refreshQueued := false })
        ⟨h.phase_eq, h.prepared?_eq⟩ hrest fun answer hmem =>
          hanswers answer (List.mem_cons_of_mem _ hmem)

end Stalled

/-! ### A refresh that fails -/

omit [Scalar α] in
/-- The price of a commodity on a planet depends on the row of the planet and the commodities. -/
theorem price?_congr {m m' : Market α} {q : PlanetKey} {c : ℕ}
    (hrow : m'.ledger.row? q = m.ledger.row? q)
    (hcommodity : m'.catalog.commodity? c = m.catalog.commodity? c) :
    m'.price? q c = m.price? q c := by
  rw [price?, price?, hcommodity, Ledger.get?_eq, Ledger.get?_eq, hrow]

/-- What a refresh that failed for a galaxy has left of a market. -/
structure Contained (m : Market α) (g : Galaxy α) (e : NetworkError α) (next : Market α) :
    Prop where
  /-- There is a ledger, nothing to solve with, and no request. -/
  phase_eq : next.phase = .initialized
  prepared?_eq : next.prepared? = none
  refreshQueued_eq : next.refreshQueued = false
  /-- The rows are those of the planets of the galaxy. -/
  contains_eq : ∀ q, next.ledger.contains q = g.planets.contains q
  /-- A planet that had a row and is still there keeps it, with all quotes in it. -/
  row_kept : ∀ {q row}, m.ledger.row? q = some row → g.planets.contains q = true →
    next.ledger.row? q = some row
  /-- A planet that is new has a row at base prices. -/
  row_fresh : ∀ {q}, m.ledger.row? q = none → g.planets.contains q = true →
    next.ledger.row? q = some m.ledger.freshRow
  /-- All the rest is as before. -/
  index_eq : next.index = m.index
  matrix_eq : next.matrix = m.matrix
  catalog_eq : next.catalog = m.catalog
  lastUpdate?_eq : next.lastUpdate? = m.lastUpdate?
  config_eq : next.config = m.config
  solver_eq : next.solver = m.solver
  /-- No source is asked: with any other catalog the same comes out, and the catalog stays. -/
  unsourced : ∀ catalog, refresh { m with catalog } g = ({ next with catalog }, .error e)
  /-- The old prices are still quoted. -/
  price?_eq : ∀ {q} c, m.ledger.contains q = true → g.planets.contains q = true →
    next.price? q c = m.price? q c
  /-- Opening the market, updating it and asking for a refresh leave it as it is. -/
  idle : ∀ calls : List (Call α), (∀ call ∈ calls, call.isIdle = true) →
    (∃ queued, next.after calls = { next with refreshQueued := queued }) ∧
      ∀ answer ∈ next.answers calls, answer = .ok []
  /-- Until it is destroyed or a refresh succeeds, other refreshes that fail bring its rows in line,
  and sources may be taken away. -/
  until_refreshed : ∀ calls, .destroy ∉ calls →
    (∀ answer ∈ next.answers calls, answer.isRefreshed = false) →
    ∃ queued, next.after calls = { next with
      ledger := (next.refusals calls).foldl Ledger.sync next.ledger
      catalog := next.catalog.without (calls.flatMap fun call => call.detaches?.toList)
      refreshQueued := queued }
  /-- As long as its planet is there all the time, an old row and its prices last. -/
  lasting : ∀ calls, .destroy ∉ calls →
    (∀ answer ∈ next.answers calls, answer.isRefreshed = false) →
    ∀ {q row}, m.ledger.row? q = some row →
      (∀ h ∈ g :: next.refusals calls, h.planets.contains q = true) →
      (next.after calls).ledger.row? q = some row ∧
        ∀ c, (next.after calls).price? q c = m.price? q c

/-- **What a refusal leaves**, whatever the market held. -/
theorem contained_refused (hphase : m.phase ≠ .uninitialized)
    (hnetwork : g.network m.config = .error e) : m.Contained g e (m.refused g) := by
  have hstalled := m.stalled_refused g
  constructor
  case phase_eq | prepared?_eq | refreshQueued_eq => rfl
  case index_eq | matrix_eq | catalog_eq | lastUpdate?_eq | config_eq | solver_eq => rfl
  case contains_eq => exact fun q => Ledger.contains_sync ..
  case row_kept => exact Ledger.row?_sync_of_row?
  case row_fresh =>
    intro q hrow hplanet
    exact (Ledger.row?_sync ..).trans (by rw [if_pos hplanet, hrow, Option.getD_none])
  case unsourced =>
    -- A refresh comes to its sources only once it has a matrix.
    intro catalog
    exact refresh_of_error (m := { m with catalog }) hphase hnetwork
  case price?_eq =>
    intro q c hrow hplanet
    obtain ⟨row, hrow⟩ := Option.isSome_iff_exists.mp hrow
    have hkept : (m.refused g).ledger.row? q = some row := Ledger.row?_sync_of_row? hrow hplanet
    exact price?_congr (hkept.trans hrow.symm) rfl
  case idle => exact fun calls => hstalled.after_idle
  case until_refreshed => exact fun calls => hstalled.after
  case lasting =>
    intro calls hdestroy hanswers q row hrow hplanet
    obtain ⟨queued, hafter⟩ := hstalled.after hdestroy hanswers
    have hkept : ((m.refused g).after calls).ledger.row? q = some row := by
      rw [hafter]
      -- The refresh that failed first is one of those that bring the rows in line.
      show ((g :: (m.refused g).refusals calls).foldl Ledger.sync m.ledger).row? q = some row
      exact Ledger.row?_foldl_sync_of_row? hrow hplanet
    refine ⟨hkept, fun c => price?_congr (hkept.trans hrow.symm) ?_⟩
    rw [hafter]
    exact Catalog.commodity?_without ..

end Market

/-- **A refresh that fails is contained**, in any market that was initialized, with whatever ledger,
index, matrix and clock, and for any galaxy and tuning that give no matrix. -/
theorem refresh_contained {m : Market α} {g : Galaxy α} {e : NetworkError α}
    (hphase : m.phase ≠ .uninitialized) (hnetwork : g.network m.config = .error e) :
    ∃ next, m.refresh g = (next, .error e) ∧ m.Contained g e next :=
  ⟨m.refused g, Market.refresh_of_error hphase hnetwork, Market.contained_refused hphase hnetwork⟩

/-- A market that was ready for the couple, at some time and with a price of its own, and that can
be given no other matrix. -/
def strandedMarket : Market Float where
  catalog := .standard
  config := tinySelfResistance
  solver := .cholesky
  phase := .ready
  ledger := (Ledger.ofGalaxy couple .standard).modify ⟨0, 1⟩ 0 fun quote =>
    { quote with price := 123 }
  index := .ofGalaxy couple
  lastUpdate? := some 7
  refreshQueued := true

/-- When a refresh of the stranded market fails, its price is still quoted, also after updates. -/
theorem refresh_contained_stranded :
    ∃ e next, strandedMarket.refresh couple = (next, .error e) ∧
      next.price? ⟨0, 1⟩ 0 = some 123 ∧ next.lastUpdate? = some 7 ∧
      ∃ queued, next.after [.init couple, .updateAt couple 9, .queueRefresh] =
        { next with refreshQueued := queued } := by
  have hphase : strandedMarket.phase ≠ .uninitialized := by decide
  have hnetwork := couple.network_of_not_isGrounded not_isGrounded_tinySelfResistance
  obtain ⟨next, hrefresh, hcontained⟩ :=
    refresh_contained (m := strandedMarket) hphase hnetwork
  have hprice : strandedMarket.price? ⟨0, 1⟩ 0 = some 123 := by decide +kernel
  have hkept := hcontained.price?_eq 0
    (show strandedMarket.ledger.contains ⟨0, 1⟩ = true by decide +kernel)
    (show couple.planets.contains ⟨0, 1⟩ = true by decide +kernel)
  exact ⟨_, next, hrefresh, hkept.trans hprice, hcontained.lastUpdate?_eq,
    (hcontained.idle _ (by decide)).1⟩

end GalaxyMarket
