import Mathlib
import GalaxyMarket.Proofs.Market.TrackerRange

/-!
# Time by the clock

`Market.updateAt` is shown the time and lets pass what has elapsed since it was shown the time last.
A time that lies before the last one lets no time pass, but it is remembered like any other. So a
run of such updates is the run of plain updates by the forward steps of the clock (`after_byClock`),
and how much time passes in all is a matter of the list of readings alone (`sum_spans`).

Forward steps add up to the way from the first reading to the last, and to all that the clock went
back on the way (`forward_eq`). Where it has gone back, the stretch of time that comes next is let
pass a second time. That is so whenever the clock goes forward again after a step back: only then do
the forward steps exceed the way from the first reading to the greatest one (`forward_le_iff`).
-/

namespace GalaxyMarket

/-! ### Readings of a clock -/

/-- The total of the steps from each reading of a clock to the next, as far as they are positive
when `step` measures them. -/
def total (step : ℝ → ℝ → ℝ) : List ℝ → ℝ
  | a :: b :: times => max (step a b) 0 + total step (b :: times)
  | _ => 0

/-- How far a clock goes forward in all. -/
def forward (times : List ℝ) : ℝ := total (fun a b => b - a) times

/-- How far a clock goes back in all. -/
def backward (times : List ℝ) : ℝ := total (fun a b => a - b) times

/-- A clock that never goes forward again after a step back. -/
def RisesThenFalls (times : List ℝ) : Prop :=
  ∃ rising falling, times = rising ++ falling ∧ rising.IsChain (· ≤ ·) ∧ falling.IsChain (· ≥ ·)

section

variable {first a b top : ℝ} {times : List ℝ} {step : ℝ → ℝ → ℝ}

/-- Only what is positive is counted. -/
theorem total_nonneg : ∀ times : List ℝ, 0 ≤ total step times
  | _ :: b :: times => add_nonneg (le_max_right _ _) (total_nonneg (b :: times))
  | [_] => le_rfl
  | [] => le_rfl

/-- Nothing is counted if no step is positive. -/
theorem total_eq_zero_iff (times : List ℝ) :
    total step times = 0 ↔ times.IsChain fun a b => step a b ≤ 0 := by
  induction times using total.induct with
  | case1 a b times ih =>
    -- Neither the first step nor the rest is negative, so that both vanish if their sum does.
    rw [total, add_eq_zero_iff_of_nonneg (le_max_right _ _) (total_nonneg _), ih, max_eq_right_iff,
      List.isChain_cons_cons]
  | case2 times h =>
    -- Fewer than two readings make no step.
    rcases times with _ | ⟨a, _ | ⟨b, times⟩⟩
    · exact iff_of_true rfl .nil
    · exact iff_of_true rfl (.singleton a)
    · exact absurd rfl (h a b times)

/-- A clock that never goes back shows times that ascend, -/
theorem backward_eq_zero_iff (times : List ℝ) : backward times = 0 ↔ times.IsChain (· ≤ ·) := by
  simp only [backward, total_eq_zero_iff, sub_nonpos]

/-- and one that never goes forward shows times that descend. -/
theorem forward_eq_zero_iff (times : List ℝ) : forward times = 0 ↔ times.IsChain (· ≥ ·) := by
  simp only [forward, total_eq_zero_iff, sub_nonpos, ge_iff_le]

theorem forward_cons_cons (a b : ℝ) (times : List ℝ) :
    forward (a :: b :: times) = max (b - a) 0 + forward (b :: times) := rfl

theorem backward_cons_cons (a b : ℝ) (times : List ℝ) :
    backward (a :: b :: times) = max (a - b) 0 + backward (b :: times) := rfl

/-- **What goes forward** and does not come back again is the way from the first reading to the
last. -/
theorem forward_eq (first : ℝ) (times : List ℝ) : forward (first :: times) =
    (first :: times).getLast (List.cons_ne_nil _ _) - first + backward (first :: times) := by
  induction times generalizing first with
  | nil => simp [forward, backward, total]
  | cons b times ih =>
    -- One step forward is one step and what it goes back.
    have hstep : max (b - first) 0 = b - first + max (first - b) 0 := by
      rcases le_total first b with h | h
      · rw [max_eq_left (sub_nonneg.mpr h), max_eq_right (sub_nonpos.mpr h), add_zero]
      · rw [max_eq_right (sub_nonpos.mpr h), max_eq_left (sub_nonneg.mpr h)]
        ring
    rw [forward_cons_cons, backward_cons_cons, ih b, hstep,
      List.getLast_cons (List.cons_ne_nil b times)]
    ring

/-- The forward steps lead up to every reading. -/
theorem sub_le_forward (htop : top ∈ first :: times) : top - first ≤ forward (first :: times) := by
  induction times generalizing first with
  | nil =>
    rw [List.mem_singleton.mp htop, sub_self]
    exact le_rfl
  | cons b times ih =>
    rcases List.mem_cons.mp htop with rfl | htop
    · rw [sub_self]
      exact total_nonneg _
    · have hrest := ih htop
      have hstep : b - first ≤ max (b - first) 0 := le_max_left _ _
      rw [forward_cons_cons]
      linarith

/-- After a step forward, what follows decides. -/
theorem risesThenFalls_cons_of_le (h : a ≤ b) :
    RisesThenFalls (a :: b :: times) ↔ RisesThenFalls (b :: times) := by
  constructor
  · rintro ⟨rising, falling, hall, hrising, hfalling⟩
    rcases List.cons_eq_append_iff.mp hall with ⟨rfl, rfl⟩ | ⟨rising, rfl, hsplit⟩
    · exact ⟨[], b :: times, rfl, .nil, hfalling.tail⟩
    · exact ⟨rising, falling, hsplit, hrising.tail, hfalling⟩
  · rintro ⟨rising, falling, hall, hrising, hfalling⟩
    rcases List.cons_eq_append_iff.mp hall with ⟨rfl, rfl⟩ | ⟨rising, rfl, hsplit⟩
    · -- If nothing rises in what follows, the first reading is all that does.
      exact ⟨[a], b :: times, rfl, .singleton a, hfalling⟩
    · rw [hsplit]
      exact ⟨a :: b :: rising, falling, rfl, .cons_cons h hrising, hfalling⟩

/-- After a step back, there is no step forward any more. -/
theorem risesThenFalls_cons_of_lt (h : b < a) :
    RisesThenFalls (a :: b :: times) ↔ (b :: times).IsChain (· ≥ ·) := by
  constructor
  · rintro ⟨rising, falling, hall, hrising, hfalling⟩
    rcases List.cons_eq_append_iff.mp hall with ⟨rfl, rfl⟩ | ⟨rising, rfl, hsplit⟩
    · exact hfalling.tail
    · rcases List.cons_eq_append_iff.mp hsplit with ⟨rfl, rfl⟩ | ⟨rising, rfl, -⟩
      · exact hfalling
      · exact absurd (List.isChain_cons_cons.mp hrising).1 (not_le.mpr h)
  · exact fun hfalling => ⟨[], a :: b :: times, rfl, .nil, .cons_cons h.le hfalling⟩

/-- **The forward steps stay within** the way from the first reading to the greatest one exactly if
the clock never goes forward again after a step back. -/
theorem forward_le_iff (htop : IsGreatest {t | t ∈ first :: times} top) :
    forward (first :: times) ≤ top - first ↔ RisesThenFalls (first :: times) := by
  obtain ⟨htop, hgreatest⟩ := htop
  induction times generalizing first with
  | nil =>
    have hfirst : first ≤ top := hgreatest List.mem_cons_self
    exact iff_of_true (sub_nonneg.mpr hfirst) ⟨[first], [], rfl, .singleton first, .nil⟩
  | cons b times ih =>
    have hfirst : first ≤ top := hgreatest List.mem_cons_self
    have hb : b ≤ top := hgreatest (List.mem_cons_of_mem _ List.mem_cons_self)
    rcases le_or_gt first b with hle | hlt
    · -- The greatest reading is among those that follow.
      have htop' : top ∈ b :: times := by
        rcases List.mem_cons.mp htop with rfl | htop
        · rw [le_antisymm hb hle]
          exact List.mem_cons_self
        · exact htop
      have hrest := ih htop' fun t ht => hgreatest (List.mem_cons_of_mem _ ht)
      rw [risesThenFalls_cons_of_le hle, ← hrest, forward_cons_cons,
        max_eq_left (sub_nonneg.mpr hle)]
      constructor <;> intro h <;> linarith
    · rw [risesThenFalls_cons_of_lt hlt, ← forward_eq_zero_iff, forward_cons_cons,
        max_eq_right (sub_nonpos.mpr hlt.le), zero_add]
      constructor
      · intro h
        rcases List.mem_cons.mp htop with rfl | htop
        · rw [sub_self] at h
          exact le_antisymm h (total_nonneg _)
        · -- From `b` it is farther to the greatest reading than from the first.
          have hreach := sub_le_forward htop
          linarith
      · intro h
        rw [h]
        exact sub_nonneg.mpr hfirst

end

/-! ### Updates by the clock -/

section

variable {α : Type} [Scalar α]

/-- Updates by the clock, each with the galaxy and the time that it is shown. -/
def byClock (readings : List (Galaxy α × α)) : List (Call α) :=
  readings.map fun reading => .updateAt reading.1 reading.2

/-- Plain updates with the same galaxies. -/
def bySpans (readings : List (Galaxy α × α)) (spans : List α) : List (Call α) :=
  List.zipWith (fun reading dt => .update reading.1 dt) readings spans

namespace Market

/-- The time that an update by the clock lets pass. -/
def span (m : Market α) (now : α) : α := elapsed (m.lastUpdate?.elim 0 (now - ·))

/-- The times that updates by the clock let pass, one after the other. -/
def spans (m : Market α) : List (Galaxy α × α) → List α
  | [] => []
  | (g, now) :: readings => m.span now :: (m.updateAt g now).1.spans readings

omit [Scalar α] in
/-- A market with its clock set. -/
def withClock (clock : Option α) (m : Market α) : Market α := { m with lastUpdate? := clock }

variable {m : Market α} {g : Galaxy α} {dt : α} {prepared : Prepared α} (clock : Option α)

/-! The clock is not looked at by anything but the next update that is shown the time. -/

/-- Prices are written alike, whatever the clock shows. -/
theorem settle_withClock (commodity : Nat) (basePrice : Int)
    (answer : Except SolveError (List α)) :
    (m.withClock clock).settle g commodity basePrice answer =
      ((m.settle g commodity basePrice answer).1.withClock clock,
        (m.settle g commodity basePrice answer).2) := by
  unfold settle
  split
  · rfl
  · split <;> rfl

/-- So a commodity's turn is alike, -/
theorem reprice_withClock (commodity : Nat) :
    (m.withClock clock).reprice g dt prepared commodity =
      ((m.reprice g dt prepared commodity).1.withClock clock,
        (m.reprice g dt prepared commodity).2) := by
  rcases m.source?_cases commodity with h | ⟨good, source, h⟩
  · have h' : (m.withClock clock).catalog.source? commodity = none := h
    rw [reprice_of_source?_eq_none h, reprice_of_source?_eq_none h']
  · have h' : (m.withClock clock).catalog.listings[commodity]? = some ⟨good, some source⟩ := h
    -- The trackers are advanced by the time that passes, whatever the clock says.
    have hadvance : (m.withClock clock).advance g dt commodity source =
        ((m.advance g dt commodity source).1,
          (m.advance g dt commodity source).2.withClock clock) := rfl
    rw [reprice_eq h, reprice_eq h', hadvance, settle_withClock]

/-- and with it a whole round, -/
theorem repriceAll_withClock (commodities : List Nat) :
    (m.withClock clock).repriceAll g dt prepared commodities =
      ((m.repriceAll g dt prepared commodities).1.withClock clock,
        (m.repriceAll g dt prepared commodities).2) := by
  induction commodities generalizing m with
  | nil => rfl
  | cons commodity commodities ih =>
    rw [repriceAll_cons, repriceAll_cons, reprice_withClock, ih]

/-- and an update. -/
theorem update_withClock : (m.withClock clock).update g dt =
    ((m.update g dt).1.withClock clock, (m.update g dt).2) := by
  by_cases hphase : m.phase = .ready
  · cases hprepared : m.prepared? with
    | none =>
      have hprepared' : (m.withClock clock).prepared? = none := hprepared
      rw [update_of_prepared?_eq_none hprepared, update_of_prepared?_eq_none hprepared']
    | some prepared =>
      have hphase' : (m.withClock clock).phase = .ready := hphase
      have hprepared' : (m.withClock clock).prepared? = some prepared := hprepared
      rw [update_of_ready hphase hprepared, update_of_ready hphase' hprepared']
      exact repriceAll_withClock clock _
  · have hphase' : (m.withClock clock).phase ≠ .ready := hphase
    rw [update_of_phase_ne hphase, update_of_phase_ne hphase']

/-- What has elapsed has elapsed. -/
theorem elapsed_elapsed (dt : α) : elapsed (elapsed dt) = elapsed dt := by
  by_cases h : (Scalar.isFinite dt && Scalar.le 0 dt) = true
  · have hself : elapsed dt = dt := if_pos h
    rw [hself, hself]
  · have hzero : elapsed dt = 0 := if_neg h
    rw [hzero, elapsed_zero]

/-- An update lets as much time pass as has elapsed. -/
theorem update_elapsed : m.update g (elapsed dt) = m.update g dt := by
  unfold update
  rw [elapsed_elapsed]

/-- **An update by the clock** is the update by its span, after which the clock is set. -/
theorem updateAt_withClock (hphase : m.phase = .ready) (g : Galaxy α) (now : α) :
    (m.withClock clock).updateAt g now =
      ((m.update g ((m.withClock clock).span now)).1.withClock (some now),
        (m.update g ((m.withClock clock).span now)).2) := by
  have hphase' : (m.withClock clock).phase = .ready := hphase
  rw [updateAt_of_ready hphase', span, update_elapsed]
  exact update_withClock (m := m) (some now)

/-- No update changes the phase. -/
theorem phase_update (m : Market α) (g : Galaxy α) (dt : α) :
    (m.update g dt).1.phase = m.phase := by
  obtain ⟨catalog, ledger, h⟩ := m.exists_update_fst g dt
  rw [h]

/-- **A run by the clock** is the run by its spans, but for the time that is remembered. -/
theorem after_byClock_withClock (hphase : m.phase = .ready) (readings : List (Galaxy α × α)) :
    (m.withClock clock).answers (byClock readings) =
        m.answers (bySpans readings ((m.withClock clock).spans readings)) ∧
      (m.withClock clock).after (byClock readings) =
        (m.after (bySpans readings ((m.withClock clock).spans readings))).withClock
          (clock.toList ++ readings.map Prod.snd).getLast? := by
  -- Both markets reprice alike; only one of them has a clock, which each reading sets.
  induction readings generalizing m clock with
  | nil => exact ⟨rfl, by cases clock <;> rfl⟩
  | cons reading readings ih =>
    obtain ⟨g, now⟩ := reading
    have hstep := updateAt_withClock clock hphase g now
    have hphase' : (m.update g ((m.withClock clock).span now)).1.phase = .ready :=
      (m.phase_update ..).trans hphase
    obtain ⟨hanswers, hafter⟩ := ih (some now) hphase'
    have hclock : (clock.toList ++ ((g, now) :: readings).map Prod.snd).getLast? =
        ((some now).toList ++ readings.map Prod.snd).getLast? := by
      rw [List.map_cons, List.getLast?_append_cons]
      rfl
    constructor
    · show Except.ok ((m.withClock clock).updateAt g now).2 ::
          ((m.withClock clock).updateAt g now).1.answers (byClock readings) =
        Except.ok (m.update g ((m.withClock clock).span now)).2 ::
          (m.update g ((m.withClock clock).span now)).1.answers
            (bySpans readings (((m.withClock clock).updateAt g now).1.spans readings))
      rw [hstep, hanswers]
    · show ((m.withClock clock).updateAt g now).1.after (byClock readings) =
        ((m.update g ((m.withClock clock).span now)).1.after
          (bySpans readings (((m.withClock clock).updateAt g now).1.spans readings))).withClock _
      rw [hclock, hstep, hafter]

/-- The same from the time that the market remembers. -/
theorem after_byClock (hphase : m.phase = .ready) (readings : List (Galaxy α × α)) :
    m.answers (byClock readings) = m.answers (bySpans readings (m.spans readings)) ∧
      m.after (byClock readings) = (m.after (bySpans readings (m.spans readings))).withClock
        (m.lastUpdate?.toList ++ readings.map Prod.snd).getLast? :=
  after_byClock_withClock m.lastUpdate? hphase readings

/-- An update by the clock leaves a market ready, with its clock set. -/
theorem phase_updateAt (hphase : m.phase = .ready) (g : Galaxy α) (now : α) :
    (m.updateAt g now).1.phase = .ready ∧ (m.updateAt g now).1.lastUpdate? = some now := by
  obtain ⟨catalog, ledger, h⟩ := exists_update_fst { m with lastUpdate? := some now } g
    (m.lastUpdate?.elim 0 (now - ·))
  rw [updateAt_of_ready hphase, h]
  exact ⟨hphase, rfl⟩

end Market

end

namespace Market

/-- With exact numbers only a negative time passes for none. -/
theorem elapsed_eq (dt : ℝ) : elapsed dt = max dt 0 := by
  rcases le_or_gt 0 dt with h | h
  · rw [max_eq_left h]
    exact if_pos (by simpa using h)
  · rw [max_eq_right h.le]
    exact if_neg (by simpa using h)

variable {m : Market ℝ}

/-- **All the time that passes** by the clock is what the clock goes forward, from the time that the
market remembers if there is one. -/
theorem sum_spans (hphase : m.phase = .ready) (readings : List (Galaxy ℝ × ℝ)) :
    (m.spans readings).sum = forward (m.lastUpdate?.toList ++ readings.map Prod.snd) := by
  induction readings generalizing m with
  | nil => cases m.lastUpdate? <;> rfl
  | cons reading readings ih =>
    obtain ⟨g, now⟩ := reading
    obtain ⟨hphase', hclock⟩ := phase_updateAt hphase g now
    rw [spans, List.sum_cons, ih hphase', hclock, List.map_cons, span]
    cases m.lastUpdate? with
    | none =>
      -- The first reading only starts the clock.
      show elapsed 0 + _ = _
      rw [elapsed_zero, zero_add]
      rfl
    | some last =>
      show elapsed (now - last) + _ = _
      rw [elapsed_eq]
      rfl

end Market

/-- **Time by the clock.** A market that is ready is shown any galaxies at any times. Its updates
are plain updates by certain spans, and what follows is about their sum. The readings of the clock
begin with the time that the market remembers, if there is one. The sum is what the clock goes
forward; that is the way from the first reading to the last, and once more all that the clock goes
back. So it is the way from the first reading to the last exactly if the clock never goes back, and
it stays within the way from the first reading to the greatest exactly if the clock never goes
forward again after a step back. -/
theorem updateAt_counts_forward {m : Market ℝ} (hphase : m.phase = .ready)
    (readings : List (Galaxy ℝ × ℝ)) :
    (m.answers (byClock readings) = m.answers (bySpans readings (m.spans readings)) ∧
      m.after (byClock readings) = (m.after (bySpans readings (m.spans readings))).withClock
        (m.lastUpdate?.toList ++ readings.map Prod.snd).getLast?) ∧
    ∀ first times, m.lastUpdate?.toList ++ readings.map Prod.snd = first :: times →
      (m.spans readings).sum = forward (first :: times) ∧
      (m.spans readings).sum = (first :: times).getLast (List.cons_ne_nil _ _) - first +
        backward (first :: times) ∧
      ((m.spans readings).sum = (first :: times).getLast (List.cons_ne_nil _ _) - first ↔
        (first :: times).IsChain (· ≤ ·)) ∧
      ∀ top, IsGreatest {t | t ∈ first :: times} top →
        ((m.spans readings).sum ≤ top - first ↔ RisesThenFalls (first :: times)) := by
  refine ⟨Market.after_byClock hphase readings, fun first times htimes => ?_⟩
  have hsum : (m.spans readings).sum = forward (first :: times) := by
    rw [Market.sum_spans hphase, htimes]
  refine ⟨hsum, hsum.trans (forward_eq first times), ?_, fun top htop => ?_⟩
  · rw [hsum, forward_eq, add_eq_left, backward_eq_zero_iff]
  · rw [hsum, forward_le_iff htop]

/-! ### The hamlet by a clock that is set back -/

/-- The market is ready, and has not been shown the time. -/
theorem hamletMarket_opened : (hamletMarket.after [.init hamlet]).phase = .ready ∧
    (hamletMarket.after [.init hamlet]).lastUpdate? = none := by
  refine ⟨Market.inHamlet_opened.phase, ?_⟩
  obtain ⟨matrix, hnetwork⟩ := exists_network_hamlet
  obtain ⟨catalog, ledger, hinit⟩ := Market.exists_init_fst (m := hamletMarket) rfl hnetwork
  show (hamletMarket.init hamlet).1.lastUpdate? = none
  rw [hinit, Market.opened_of_uninitialized rfl]
  rfl

/-- The clock goes from zero to one, back to zero and forward to one again. -/
def setBack : List (Galaxy ℝ × ℝ) := [(hamlet, 0), (hamlet, 1), (hamlet, 0), (hamlet, 1)]

theorem isGreatest_setBack : IsGreatest {t | t ∈ setBack.map Prod.snd} 1 := by
  refine ⟨by simp [setBack], fun t ht => ?_⟩
  obtain rfl | rfl | rfl | rfl : t = 0 ∨ t = 1 ∨ t = 0 ∨ t = 1 := by simpa [setBack] using ht
  all_goals norm_num

/-- While the clock of the hamlet goes from zero to one, back and forth again, two units of time
pass: the same one twice. -/
theorem updateAt_counts_forward_hamlet :
    (hamletMarket.after [.init hamlet]).phase = .ready ∧
    ((hamletMarket.after [.init hamlet]).spans setBack).sum = 2 ∧
    ¬RisesThenFalls (setBack.map Prod.snd) := by
  obtain ⟨hphase, hclock⟩ := hamletMarket_opened
  -- The market remembers no time yet, so that the readings are those of `setBack` alone.
  obtain ⟨-, hcounts⟩ := updateAt_counts_forward hphase setBack
  obtain ⟨-, hsum, -, hwithin⟩ := hcounts 0 [1, 0, 1] (by rw [hclock]; rfl)
  have htwo : ((hamletMarket.after [.init hamlet]).spans setBack).sum = 2 := by
    rw [hsum]
    norm_num [backward, total]
  refine ⟨hphase, htwo, fun hfalls => ?_⟩
  have hle := (hwithin 1 isGreatest_setBack).mpr hfalls
  rw [htwo] at hle
  norm_num at hle

/-- **Time that passes twice**: a clock that is set back and goes forward again lets more time pass
than lies between its first reading and its greatest. And where a market remembers a time, more
passes than lies between the readings. -/
theorem not_spans_within_readings :
    (¬ ∀ (catalog : Catalog ℝ) (config : Config ℝ) (solver : Solver ℝ) (m : Market ℝ)
      (calls : List (Call ℝ)) (readings : List (Galaxy ℝ × ℝ)) (first top : ℝ) (times : List ℝ),
      Market.ofConfig catalog config solver = .ok m → (m.after calls).phase = .ready →
      readings.map Prod.snd = first :: times → IsGreatest {t | t ∈ first :: times} top →
      ((m.after calls).spans readings).sum ≤ top - first) ∧
    ¬ ∀ (catalog : Catalog ℝ) (config : Config ℝ) (solver : Solver ℝ) (m : Market ℝ)
      (calls : List (Call ℝ)) (readings : List (Galaxy ℝ × ℝ)) (first : ℝ) (times : List ℝ),
      Market.ofConfig catalog config solver = .ok m → (m.after calls).phase = .ready →
      readings.map Prod.snd = first :: times → (first :: times).IsChain (· ≤ ·) →
      ((m.after calls).spans readings).sum =
        (first :: times).getLast (List.cons_ne_nil _ _) - first := by
  obtain ⟨hphase, hclock⟩ := hamletMarket_opened
  constructor
  · intro hall
    have hwithin := hall idleGood restless .cholesky hamletMarket [.init hamlet] setBack 0 1
      [1, 0, 1] hamletMarket_eq hphase rfl isGreatest_setBack
    rw [Market.sum_spans hphase, hclock] at hwithin
    norm_num [setBack, forward, total] at hwithin
  · intro hall
    -- The market remembers the time zero.
    obtain ⟨hphase', hclock'⟩ := Market.phase_updateAt hphase hamlet 0
    have hsum := hall idleGood restless .cholesky hamletMarket [.init hamlet, .updateAt hamlet 0]
      [(hamlet, 5)] 5 [] hamletMarket_eq hphase' rfl (.singleton 5)
    have hfive : (((hamletMarket.after [.init hamlet]).updateAt hamlet 0).1.spans
        [(hamlet, 5)]).sum = 5 := by
      rw [Market.sum_spans hphase', hclock']
      norm_num [forward, total]
    rw [List.getLast_singleton, sub_self] at hsum
    exact absurd (hsum.symm.trans hfive) (by norm_num)

end GalaxyMarket
