import GalaxyMarket.Proofs.Market.Lifecycle

/-!
# Destroying a market

Whatever a market went through, destroying it leaves the market that would be made from its catalog
as it is by then, with the same tuning and the same solver. There is one exception: a market that is
not initialized is not touched at all, so that a refresh it was asked for is still asked for
(`Market.Living.destroy_eq`).

That request is `Market.asked`. It makes no difference to what any later call answers, since a
market that is not initialized refuses to refresh (`Market.perform_asked`) and the call that opens
it takes the request back (`Market.init_asked`). So the two markets run in step, and until one of
them is opened they differ in that flag and in nothing else (`Market.after_asked`).
-/

namespace GalaxyMarket

variable {α : Type} [Scalar α]

omit [Scalar α] in
/-- Whether a call opens a market that is not initialized. -/
def Call.opens : Call α → Bool
  | init _ => true
  | _ => false

namespace Market

omit [Scalar α] in
/-- A market that is asked for a refresh, if it was not and `request` says so. -/
def asked (request : Bool) (m : Market α) : Market α :=
  { m with refreshQueued := m.refreshQueued || request }

omit [Scalar α] in
theorem asked_false (m : Market α) : m.asked false = m := by
  rw [asked, Bool.or_false]

omit [Scalar α] in
/-- Whether destroying a market leaves it with a refresh that it was asked for. -/
def keepsRequest (m : Market α) : Bool := decide (m.phase = .uninitialized) && m.refreshQueued

variable {m : Market α}

/-- **What is left of a market** that is destroyed in the middle of a run. -/
theorem Living.destroy_eq {config : Config α} {solver : Solver α} {last? : Option (Galaxy α)}
    (h : m.Living config solver last?) :
    m.destroy = asked m.keepsRequest { catalog := m.catalog, config, solver } := by
  by_cases hphase : m.phase = .uninitialized
  · -- The market is left alone, but there is nothing in it except the request.
    obtain ⟨hledger, hindex, hmatrix, hclock⟩ := h.empty hphase
    have hprepared : m.prepared? = none := h.ready_of_prepared (by rw [hphase]; decide)
    have hrequest : m.keepsRequest = m.refreshQueued := by simp [keepsRequest, hphase]
    rw [destroy_of_uninitialized hphase, hrequest]
    obtain ⟨catalog, config', solver', phase, ledger, index, matrix, prepared?, clock, queued⟩ := m
    obtain rfl : config' = config := h.config_eq
    obtain rfl : solver' = solver := h.solver_eq
    subst hphase hledger hindex hmatrix hclock hprepared
    rfl
  · have hrequest : m.keepsRequest = false := by simp [keepsRequest, hphase]
    rw [destroy_of_ne hphase, h.config_eq, h.solver_eq, hrequest, asked_false]

/-! ### A request before the market is opened -/

/-- Opening a market takes the request back. -/
theorem init_asked (hphase : m.phase = .uninitialized) (request : Bool) (g : Galaxy α) :
    (m.asked request).init g = m.init g := by
  have hasked : (m.asked request).phase = .uninitialized := hphase
  rw [init_of_uninitialized hphase, init_of_uninitialized hasked]
  rfl

/-- Asked or not, nothing is refreshed before the market is opened. -/
theorem execQueued_of_uninitialized (hphase : m.phase = .uninitialized) {g : Galaxy α} :
    m.execQueued g = (m, .ok []) := by
  cases hqueued : m.refreshQueued with
  | false => exact execQueued_of_not_queued hqueued
  | true => rw [execQueued_of_queued hqueued, refresh_of_uninitialized hphase]

/-- **No other call heeds the request**, nor does it open the market. -/
theorem perform_asked (hphase : m.phase = .uninitialized) (request : Bool) {call : Call α}
    (hcall : call.opens = false) : (m.perform call).1.phase = .uninitialized ∧
      (m.asked request).perform call = ((m.perform call).1.asked request, (m.perform call).2) := by
  have hne : m.phase ≠ .ready := by
    rw [hphase]
    decide
  have hasked : (m.asked request).phase = .uninitialized := hphase
  have hasked_ne : (m.asked request).phase ≠ .ready := hne
  -- A market that is not open passes over all of these, whether or not it was asked for a refresh.
  cases call with
  | init g => cases hcall
  | refresh g =>
    rw [perform, perform, refresh_of_uninitialized hphase, refresh_of_uninitialized hasked]
    exact ⟨hphase, rfl⟩
  | update g dt =>
    rw [perform, perform, update_of_phase_ne hne, update_of_phase_ne hasked_ne]
    exact ⟨hphase, rfl⟩
  | updateAt g now =>
    rw [perform, perform, updateAt_of_phase_ne hne, updateAt_of_phase_ne hasked_ne]
    exact ⟨hphase, rfl⟩
  | queueRefresh =>
    refine ⟨hphase, ?_⟩
    simp [perform, queueRefresh, asked]
  | execQueued g =>
    rw [perform, perform, execQueued_of_uninitialized hphase, execQueued_of_uninitialized hasked]
    exact ⟨hphase, rfl⟩
  | destroy =>
    rw [perform, perform, destroy_of_uninitialized hphase, destroy_of_uninitialized hasked]
    exact ⟨hphase, rfl⟩
  | detach commodity => exact ⟨hphase, rfl⟩

/-- **With the request and without**, a run gives the same answers and ends in the same market, but
for the request itself as long as nothing has opened the market. -/
theorem after_asked (hphase : m.phase = .uninitialized) (request : Bool) (calls : List (Call α)) :
    (m.asked request).answers calls = m.answers calls ∧
      (m.asked request).after calls =
        (m.after calls).asked (request && !calls.any Call.opens) := by
  induction calls generalizing m with
  | nil =>
    rw [after_nil, after_nil, List.any_nil, Bool.not_false, Bool.and_true]
    exact ⟨rfl, rfl⟩
  | cons call calls ih =>
    rw [answers, answers, after_cons, after_cons, List.any_cons]
    cases hcall : call.opens with
    | true =>
      -- From here on the two markets are one.
      have hperform : (m.asked request).perform call = m.perform call := by
        cases call with
        | init g => exact init_asked hphase request g
        | _ => cases hcall
      rw [hperform]
      exact ⟨rfl, by simp [asked_false]⟩
    | false =>
      obtain ⟨hnext, hperform⟩ := perform_asked hphase request hcall
      obtain ⟨hanswers, hafter⟩ := ih hnext
      rw [hperform, Bool.false_or]
      exact ⟨congrArg _ hanswers, hafter⟩

end Market

open Market in
/-- **A destroyed market**, wherever a run has got to, beside the market that is made from its
catalog as it is by then, with the same tuning and solver. They are the same, but for a refresh that
a market was asked for before it was ever opened, or after it was destroyed last. All later calls
are answered alike, all questions too, and once a call has opened the market nothing of that request
is left. -/
theorem destroy_resets {catalog : Catalog α} {config : Config α} {solver : Solver α} {m : Market α}
    (h : ofConfig catalog config solver = .ok m) (calls : List (Call α)) :
    ∃ fresh, ofConfig (m.after calls).catalog config solver = .ok fresh ∧
      (m.after calls).destroy = fresh.asked (m.after calls).keepsRequest ∧
      ∀ later,
        (m.after calls).destroy.answers later = fresh.answers later ∧
        (m.after calls).destroy.after later = (fresh.after later).asked
          ((m.after calls).keepsRequest && !later.any Call.opens) ∧
        (∀ q c, ((m.after calls).destroy.after later).price? q c = (fresh.after later).price? q c) ∧
        (∀ g c, ((m.after calls).destroy.after later).summary? g c =
          (fresh.after later).summary? g c) := by
  have hlife := (living_ofConfig h).after calls
  have hdestroy := hlife.destroy_eq
  -- The tuning is as valid as it was when the market was made, whatever became of the catalog.
  refine ⟨{ catalog := (m.after calls).catalog, config, solver },
    ofConfig_eq_ok_iff.mpr ⟨(ofConfig_eq_ok_iff.mp h).1, rfl⟩, hdestroy, fun later => ?_⟩
  obtain ⟨hanswers, hafter⟩ := after_asked
    (m := { catalog := (m.after calls).catalog, config, solver }) rfl
    (m.after calls).keepsRequest later
  rw [hdestroy]
  refine ⟨hanswers, hafter, fun q c => ?_, fun g c => ?_⟩
  · rw [hafter]
    rfl
  · rw [hafter]
    rfl

/-- A market that is asked for a refresh once it is open is destroyed without a trace. One that is
asked too early is still asked when it is destroyed, but answers as if it were not. -/
theorem destroy_resets_couple :
    ∃ m : Market Float, Market.ofConfig .standard .standard .cholesky = .ok m ∧
      (∃ fresh,
        Market.ofConfig (m.after [.init couple, .queueRefresh]).catalog .standard .cholesky =
          .ok fresh ∧ (m.after [.init couple, .queueRefresh]).destroy = fresh) ∧
      ∃ fresh, Market.ofConfig .standard .standard .cholesky = .ok fresh ∧
        (m.after [.queueRefresh]).destroy = fresh.asked true ∧
        (m.after [.queueRefresh]).destroy.answers hastyRun = fresh.answers hastyRun ∧
        (m.after [.queueRefresh]).destroy.after hastyRun = fresh.after hastyRun := by
  obtain ⟨⟨index, matrix⟩, hnetwork⟩ := exists_eq_ok_of_isOk
    (show (couple.network .standard).isOk = true by decide +kernel)
  let m : Market Float := { catalog := .standard, config := .standard, solver := .cholesky }
  have hm : Market.ofConfig .standard .standard .cholesky = .ok m := Market.ofConfig_standard ..
  refine ⟨m, hm, ?_, ?_⟩
  · obtain ⟨fresh, hfresh, hdestroy, -⟩ := destroy_resets hm [.init couple, .queueRefresh]
    have hready : (m.after [.init couple, .queueRefresh]).phase = .ready := by
      show (m.init couple).1.phase = .ready
      rw [Market.init_of_uninitialized rfl]
      exact Market.phase_refresh_of_ok (by decide) hnetwork
    have hrequest : (m.after [.init couple, .queueRefresh]).keepsRequest = false := by
      rw [Market.keepsRequest, hready]
      rfl
    rw [hrequest, Market.asked_false] at hdestroy
    exact ⟨fresh, hfresh, hdestroy⟩
  · obtain ⟨fresh, hfresh, hdestroy, hlater⟩ := destroy_resets hm [.queueRefresh]
    obtain ⟨hanswers, hafter, -⟩ := hlater hastyRun
    -- The hasty run opens the market, so that nothing of the request is left.
    exact ⟨fresh, hfresh, hdestroy, hanswers, hafter.trans (Market.asked_false _)⟩

/-- **A request that outlives its market**: asked for a refresh too early, a market that was never
initialized is not a new one after it is destroyed. -/
theorem not_destroy_eq_fresh :
    ¬ ∀ (catalog : Catalog Float) (config : Config Float) (solver : Solver Float) (m : Market Float)
      (calls : List (Call Float)), Market.ofConfig catalog config solver = .ok m →
      ∃ fresh, Market.ofConfig (m.after calls).catalog config solver = .ok fresh ∧
        (m.after calls).destroy = fresh ∧ ∀ later,
          (m.after calls).destroy.answers later = fresh.answers later ∧
          ((m.after calls).destroy.after later).refreshQueued =
            (fresh.after later).refreshQueued := by
  intro hall
  -- A market that is asked for a refresh at once, and nothing else.
  obtain ⟨fresh, hfresh, -, hlater⟩ := hall .standard .standard .cholesky _ [.queueRefresh]
    (Market.ofConfig_standard ..)
  obtain rfl := (Market.ofConfig_eq_ok_iff.mp hfresh).2
  exact absurd (hlater []).2 (by decide)

end GalaxyMarket
