import GalaxyMarket.Proofs.Market.Config
import GalaxyMarket.Proofs.Market.Lifecycle
import GalaxyMarket.Proofs.Number.Reciprocal

/-!
# Which tunings a market can be opened with

A tuning is checked twice. When a market is made, the self resistance has to be finite and positive;
when a matrix is made, its reciprocal has to be, whatever the galaxy
(`Galaxy.network_of_isGrounded`, `Galaxy.network_of_not_isGrounded`). Over exact numbers the two
checks agree. In double precision the second one asks for more: from `2 ^ (-1024)` downwards
reciprocals are infinite. So every market is of one of two sorts (`opens_exactly`). It answers all
calls, and it is ready from the time that it is opened until it is destroyed; or it is never ready
and refuses every galaxy.
-/

namespace GalaxyMarket

open Scalar (recip?)

section

variable {α : Type} [Scalar α]

/-- The ground has a finite positive conductance. -/
def Config.IsGrounded (config : Config α) : Prop :=
  ∃ ground, recip? config.selfResistance = some ground ∧ Scalar.lt 0 ground = true

namespace Galaxy

variable {config : Config α}

/-- **Whether a network has a matrix** does not depend on the galaxy. With a ground it has one, -/
theorem network_of_isGrounded (h : config.IsGrounded) (g : Galaxy α) :
    ∃ index matrix, g.network config = .ok (index, matrix) := by
  obtain ⟨ground, hrecip, hpos⟩ := h
  obtain ⟨matrix, hnetwork⟩ := exists_network (g := g) hrecip hpos
  exact ⟨_, matrix, hnetwork⟩

/-- and otherwise the self resistance is to blame. -/
theorem network_of_not_isGrounded (h : ¬config.IsGrounded) (g : Galaxy α) :
    g.network config = .error (.selfResistance config.selfResistance) := by
  rw [network]
  cases hground : (recip? config.selfResistance).filter (Scalar.lt 0) with
  | none => rfl
  | some ground =>
    obtain ⟨hrecip, hpos⟩ := Option.filter_eq_some_iff.mp hground
    exact absurd ⟨ground, hrecip, hpos⟩ h

end Galaxy

namespace Market

variable {config : Config α} {solver : Solver α} {last? : Option (Galaxy α)} {m next : Market α}
  {call : Call α} {answer : Answer α}

/-! ### One step -/

/-- With a ground, no call is refused, -/
theorem Step.exists_answer_eq_ok (hstep : m.Step call next answer) (hground : m.config.IsGrounded) :
    ∃ events, answer = .ok events := by
  cases hstep with
  | @refused _ g e hcall hnetwork =>
    -- The network does have a matrix.
    obtain ⟨index, matrix, hok⟩ := Galaxy.network_of_isGrounded hground g
    cases hnetwork.symm.trans hok
  | idle => exact ⟨_, rfl⟩
  | queued => exact ⟨_, rfl⟩
  | detached => exact ⟨_, rfl⟩
  | destroyed => exact ⟨_, rfl⟩
  | passed => exact ⟨_, rfl⟩
  | rebuilt => exact ⟨_, rfl⟩

/-- and a market that is ready stays so until it is destroyed. -/
theorem Step.phase_eq_ready (hstep : m.Step call next answer) (hground : m.config.IsGrounded)
    (hcall : call ≠ .destroy) (hphase : m.phase = .ready) : next.phase = .ready := by
  cases hstep with
  | idle => exact hphase
  | queued => exact hphase
  | detached => exact hphase
  | destroyed => exact absurd rfl hcall
  | @passed _ g dt clock prepared _ _ _ round hround =>
    -- A round of repricing does not touch the phase.
    obtain ⟨catalog, ledger, hfirst⟩ := exists_repriceAll_fst { m with lastUpdate? := clock } g
      (elapsed dt) prepared (List.range m.catalog.size)
    subst hround
    rw [hfirst]
    exact hphase
  | @refused _ g e _ hnetwork =>
    obtain ⟨index, matrix, hok⟩ := Galaxy.network_of_isGrounded hground g
    cases hnetwork.symm.trans hok
  | @rebuilt _ g index matrix _ _ round hround =>
    obtain ⟨catalog, ledger, hfirst⟩ :=
      ((m.opened g).rebuilt g index matrix).exists_repriceAll_fst g (elapsed 0)
        (m.solver.prepare matrix) (List.range m.catalog.size)
    subst hround
    rw [hfirst]
    rfl

/-- Without a ground, a market that is not ready does not become so, and nothing happens to it. -/
theorem Step.phase_ne_ready (hstep : m.Step call next answer) (hground : ¬m.config.IsGrounded)
    (hphase : m.phase ≠ .ready) : next.phase ≠ .ready ∧
      (answer = .ok [] ∨ answer = .error (.selfResistance m.config.selfResistance)) := by
  cases hstep with
  | idle => exact ⟨hphase, Or.inl rfl⟩
  | queued => exact ⟨hphase, Or.inl rfl⟩
  | detached => exact ⟨hphase, Or.inl rfl⟩
  | destroyed => exact ⟨nofun, Or.inl rfl⟩
  | passed _ hready => exact absurd hready hphase
  | @refused _ g e _ hnetwork =>
    cases (Galaxy.network_of_not_isGrounded hground g).symm.trans hnetwork
    exact ⟨nofun, Or.inr rfl⟩
  | @rebuilt _ g index matrix _ hnetwork =>
    cases (Galaxy.network_of_not_isGrounded hground g).symm.trans hnetwork

/-! ### Opening -/

/-- With a ground, a market that is opened is ready, -/
theorem phase_init_of_isGrounded (hphase : m.phase = .uninitialized)
    (hground : m.config.IsGrounded) (g : Galaxy α) : (m.init g).1.phase = .ready := by
  obtain ⟨index, matrix, hnetwork⟩ := Galaxy.network_of_isGrounded hground g
  obtain ⟨catalog, ledger, hopened⟩ := exists_init_fst hphase hnetwork
  rw [hopened]
  rfl

/-- and without one it is refused and waits for another galaxy. -/
theorem init_of_not_isGrounded (hphase : m.phase = .uninitialized)
    (hground : ¬m.config.IsGrounded) (g : Galaxy α) :
    (m.init g).2 = .error (.selfResistance m.config.selfResistance) ∧
      (m.init g).1.phase = .initialized := by
  have hnetwork : g.network (m.opened g).config =
      .error (.selfResistance m.config.selfResistance) := by
    rw [opened_of_uninitialized hphase]
    exact Galaxy.network_of_not_isGrounded hground g
  rw [init_of_uninitialized hphase, ← opened_of_uninitialized hphase,
    refresh_of_error (m.opened_phase_ne g) hnetwork]
  exact ⟨rfl, rfl⟩

/-- **Without a ground**, a new market is refused every galaxy. -/
theorem init_of_ofConfig {catalog : Catalog α} (h : ofConfig catalog config solver = .ok m)
    (hground : ¬config.IsGrounded) (g : Galaxy α) :
    (m.init g).2 = .error (.selfResistance config.selfResistance) ∧
      (m.init g).1.phase = .initialized := by
  obtain ⟨-, rfl⟩ := ofConfig_eq_ok_iff.mp h
  exact init_of_not_isGrounded rfl hground g

/-! ### Whole runs -/

/-- What a step preserves that is made under the tuning holds wherever an answer is given. -/
theorem Living.exists_step (h : m.Living config solver last?) {P : Market α → Prop}
    (hP : ∀ {m next : Market α} {call : Call α} {answer : Answer α}, m.config = config →
      m.Step call next answer → P m → P next)
    (hm : P m) {calls : List (Call α)} (hanswer : answer ∈ m.answers calls) :
    ∃ m' next call, m'.config = config ∧ P m' ∧ m'.Step call next answer := by
  obtain ⟨m', call, -, ⟨⟨last?, hlife⟩, hm'⟩, rfl⟩ :=
    exists_of_mem_answers (P := fun m => (∃ last?, m.Living config solver last?) ∧ P m)
      (fun m call _ => by
        rintro ⟨⟨last?, hlife⟩, hm⟩
        have hstep := hlife.step_perform call
        exact ⟨⟨_, hlife.step hstep⟩, hP hlife.config_eq hstep hm⟩)
      ⟨⟨last?, h⟩, hm⟩ hanswer
  exact ⟨m', _, call, hlife.config_eq, hm', hlife.step_perform call⟩

/-- **With a ground**, all calls of a run are answered. -/
theorem Living.answers_eq_ok (h : m.Living config solver last?) (hground : config.IsGrounded)
    {calls : List (Call α)} (hanswer : answer ∈ m.answers calls) :
    ∃ events, answer = .ok events := by
  obtain ⟨m', next, call, hconfig, -, hstep⟩ :=
    h.exists_step (P := fun _ => True) (fun _ _ _ => trivial) trivial hanswer
  exact hstep.exists_answer_eq_ok (hconfig.symm ▸ hground)

/-- A market stays ready in a run without a destruction. -/
theorem Living.phase_after_eq_ready (h : m.Living config solver last?)
    (hground : config.IsGrounded) (hphase : m.phase = .ready) {calls : List (Call α)}
    (hcalls : .destroy ∉ calls) : (m.after calls).phase = .ready := by
  -- That the market is alive is carried along, since it ties the tuning to the calls.
  have hready : (∃ last?, (m.after calls).Living config solver last?) ∧
      (m.after calls).phase = .ready := by
    refine Market.after_induction (P := fun m => (∃ last?, m.Living config solver last?) ∧
      m.phase = .ready) ?_ ⟨⟨last?, h⟩, hphase⟩
    rintro m call hcall ⟨⟨last?, hlife⟩, hphase⟩
    have hstep := hlife.step_perform call
    refine ⟨⟨_, hlife.step hstep⟩, hstep.phase_eq_ready (hlife.config_eq.symm ▸ hground) ?_ hphase⟩
    rintro rfl
    exact hcalls hcall
  exact hready.2

/-- **Without a ground**, a run makes nothing happen. -/
theorem Living.answers_of_not_isGrounded (h : m.Living config solver last?)
    (hground : ¬config.IsGrounded) (hphase : m.phase ≠ .ready) {calls : List (Call α)}
    (hanswer : answer ∈ m.answers calls) :
    answer = .ok [] ∨ answer = .error (.selfResistance config.selfResistance) := by
  obtain ⟨m', next, call, rfl, hphase', hstep⟩ :=
    h.exists_step (P := fun m => m.phase ≠ .ready)
      (fun hconfig hstep hphase =>
        (hstep.phase_ne_ready (hconfig.symm ▸ hground) hphase).1) hphase hanswer
  exact (hstep.phase_ne_ready hground hphase').2

theorem Living.phase_after_ne_ready (h : m.Living config solver last?)
    (hground : ¬config.IsGrounded) (hphase : m.phase ≠ .ready) (calls : List (Call α)) :
    (m.after calls).phase ≠ .ready :=
  h.refreshed_induction (P := fun _ m => m.phase ≠ .ready)
    (fun hlife hstep hphase =>
      (hstep.phase_ne_ready (hlife.config_eq.symm ▸ hground) hphase).1) hphase calls

end Market

end

/-! ### Double precision -/

/-- An accepted tuning has a finite positive self resistance. -/
theorem Config.selfResistance_of_validate {config : Config Float} (h : config.validate = .ok ()) :
    Scalar.isFinite config.selfResistance = true ∧ Scalar.lt 0 config.selfResistance = true := by
  unfold validate checkPositive at h
  rw [check_bind_eq_ok_iff, check_bind_eq_ok_iff, Bool.and_eq_true, Bool.and_eq_true] at h
  exact h.2.1

/-- **The ground of an accepted tuning** is there if the self resistance has more than `2 ^ 50`
units. -/
theorem Config.exists_units_isGrounded_iff {config : Config Float} (h : config.validate = .ok ()) :
    ∃ units, Binary64.ofFloat config.selfResistance = .finite false units ∧
      (config.IsGrounded ↔ 2 ^ 50 < units) := by
  obtain ⟨hfinite, hpos⟩ := selfResistance_of_validate h
  obtain ⟨units, hunits, hsome, hnone⟩ := Binary64.exists_units_recip? hfinite hpos
  refine ⟨units, hunits, ?_, hsome⟩
  -- A ground that is there cannot come from a reciprocal that is not.
  rintro ⟨ground, hground, -⟩
  by_contra hle
  cases hground.symm.trans (hnone (Nat.not_lt.mp hle))

/-- A market is made from a tuning that passes its check. -/
theorem Market.exists_ofConfig (catalog : Catalog Float) {config : Config Float}
    (solver : Solver Float) (h : config.validate.isOk = true) :
    ∃ m, ofConfig catalog config solver = .ok m := by
  obtain ⟨_, hvalid⟩ := exists_eq_ok_of_isOk h
  exact ⟨_, ofConfig_eq_ok_iff.mpr ⟨hvalid, rfl⟩⟩

/-- **Which tunings open a market**, of those that are accepted, whatever the catalog and the
solver. If the self resistance is greater than `2 ^ (-1024)`, which is `2 ^ 50` units, then every
call of every run is answered, whatever galaxies it is shown, and a market that was opened is ready
until it is destroyed. Otherwise opening it is refused because of its self resistance, finite and
positive as that is, and whatever is called afterwards makes nothing happen and does not make it
ready. -/
theorem opens_exactly {catalog : Catalog Float} {config : Config Float} {solver : Solver Float}
    {m : Market Float} (h : Market.ofConfig catalog config solver = .ok m) :
    ∃ units, Binary64.ofFloat config.selfResistance = .finite false units ∧
      (2 ^ 50 < units →
        (∀ calls, ∀ answer ∈ m.answers calls, ∃ events, answer = .ok events) ∧
        ∀ g calls, .destroy ∉ calls → (m.after (.init g :: calls)).phase = .ready) ∧
      (units ≤ 2 ^ 50 →
        (∀ g, (m.init g).2 = .error (.selfResistance config.selfResistance) ∧
          (m.init g).1.phase = .initialized) ∧
        ∀ calls, (m.after calls).phase ≠ .ready ∧ ∀ answer ∈ m.answers calls,
          answer = .ok [] ∨ answer = .error (.selfResistance config.selfResistance)) := by
  have hlife := Market.living_ofConfig h
  obtain ⟨hvalid, hm⟩ := Market.ofConfig_eq_ok_iff.mp h
  have hphase : m.phase = .uninitialized := by rw [hm]
  have hclosed : m.phase ≠ .ready := by
    rw [hphase]
    decide
  obtain rfl : m.config = config := hlife.config_eq
  obtain ⟨units, hunits, hground⟩ := Config.exists_units_isGrounded_iff hvalid
  refine ⟨units, hunits, fun hlarge => ⟨?_, ?_⟩, fun hsmall => ?_⟩
  · intro calls answer hanswer
    exact hlife.answers_eq_ok (hground.mpr hlarge) hanswer
  · intro g calls hcalls
    have hopen := hlife.step (hlife.step_perform (.init g))
    have hready : (m.init g).1.phase = .ready :=
      Market.phase_init_of_isGrounded hphase (hground.mpr hlarge) g
    exact hopen.phase_after_eq_ready (hground.mpr hlarge) hready hcalls
  · -- Without a ground there is no way to become ready, and a new market is not.
    have hnone : ¬m.config.IsGrounded := fun hsome =>
      absurd (hground.mp hsome) (Nat.not_lt.mpr hsmall)
    refine ⟨Market.init_of_ofConfig h hnone, fun calls => ⟨?_, ?_⟩⟩
    · exact hlife.phase_after_ne_ready hnone hclosed calls
    · intro answer hanswer
      exact hlife.answers_of_not_isGrounded hnone hclosed hanswer

/-- A market of the standard tuning is ready once it was opened. Under the tiny self resistance it
is refused every galaxy. -/
theorem opens_exactly_tiny :
    (∃ m : Market Float, Market.ofConfig .standard .standard .cholesky = .ok m ∧
      (m.after [.init couple, .queueRefresh, .execQueued couple]).phase = .ready) ∧
    ∃ m : Market Float, Market.ofConfig .standard tinySelfResistance .cholesky = .ok m ∧
      ∀ g, (m.init g).2 = .error (.selfResistance tinySelfResistance.selfResistance) := by
  constructor
  · obtain ⟨m, hm⟩ := Market.exists_ofConfig .standard .cholesky
      (show (Config.standard : Config Float).validate.isOk = true by decide +kernel)
    obtain ⟨units, hunits, hlarge, -⟩ := opens_exactly hm
    have hthree : Binary64.ofFloat (Config.standard : Config Float).selfResistance =
        .finite false (3 <<< 1074) := by decide +kernel
    obtain ⟨-, rfl⟩ := Binary64.finite.inj (hunits.symm.trans hthree)
    exact ⟨m, hm, (hlarge (by decide +kernel)).2 couple _ (by simp)⟩
  · obtain ⟨m, hm⟩ := Market.exists_ofConfig .standard .cholesky
      (show tinySelfResistance.validate.isOk = true by decide +kernel)
    obtain ⟨units, hunits, -, hsmall⟩ := opens_exactly hm
    have htiny : Binary64.ofFloat tinySelfResistance.selfResistance =
        .finite false 20240225330731 := by decide +kernel
    obtain ⟨-, rfl⟩ := Binary64.finite.inj (hunits.symm.trans htiny)
    exact ⟨m, hm, fun g => ((hsmall (by decide)).1 g).1⟩

/-- The tiny self resistance is accepted, but its reciprocal is infinite. -/
theorem not_isGrounded_tinySelfResistance : ¬tinySelfResistance.IsGrounded := by
  rintro ⟨ground, hground, -⟩
  have hnone : (recip? tinySelfResistance.selfResistance).isNone = true := by decide +kernel
  rw [hground] at hnone
  cases hnone

/-- **An accepted tuning that opens no market**, not even for a galaxy without systems. -/
theorem not_opens_always :
    ¬ ∀ (catalog : Catalog Float) (config : Config Float) (solver : Solver Float) (m : Market Float)
      (g : Galaxy Float), Market.ofConfig catalog config solver = .ok m →
      (∃ events, (m.init g).2 = .ok events) ∧ (m.init g).1.phase = .ready := by
  intro hall
  obtain ⟨m, hm⟩ := Market.exists_ofConfig .standard .cholesky
    (show tinySelfResistance.validate.isOk = true by decide +kernel)
  obtain ⟨-, hready⟩ := hall _ _ _ m {} hm
  have hrefused : (m.init {}).1.phase = .initialized :=
    (Market.init_of_ofConfig hm not_isGrounded_tinySelfResistance {}).2
  exact absurd (hready.symm.trans hrefused) (by decide)

end GalaxyMarket
