import GalaxyMarket.Proofs.Galaxy.Keys
import GalaxyMarket.Proofs.Market.Lifecycle
import GalaxyMarket.Proofs.Market.Repricing

/-!
# Which planets have a row

A market that is ready has a row for each planet of the galaxy that it was last refreshed with, and
for no other (`Market.contains_after`). From there on it does not matter how often the ledger is
brought in line while the galaxy changes: a planet that is there in the end and was there in the
beginning was there all the time, so that it keeps its row on any way, and every other planet has a
fresh one (`Ledger.get?_sync_sync`).
-/

namespace GalaxyMarket

variable {α : Type} [Scalar α] {g h k : Galaxy α}

namespace Ledger

variable {ledger : Ledger α}

/-- Nothing changes when the rows are in line already. -/
theorem get?_sync_of_contains (hrows : ∀ q, ledger.contains q = g.planets.contains q)
    (q : PlanetKey) (c : Nat) : (ledger.sync g).get? q c = ledger.get? q c := by
  rw [get?_sync, ← hrows]
  split
  · rfl
  · next hcontains => rw [get?_of_not_contains _ _ _ hcontains]

/-- **A synchronisation on the way** leaves no trace. -/
theorem get?_sync_sync (hg : g.IsOrderly) (hrows : ∀ q, ledger.contains q = g.planets.contains q)
    (hgh : g.Evolves h) (hhk : h.Evolves k) (q : PlanetKey) (c : Nat) :
    ((ledger.sync h).sync k).get? q c = (ledger.sync k).get? q c := by
  rw [get?_sync, get?_sync, get?_sync, contains_sync]
  -- A planet is there in the end or not, and if so it is there in the middle or is new since.
  by_cases hafter : k.planets.contains q = true
  · by_cases hmiddle : h.planets.contains q = true
    · rw [if_pos hafter, if_pos hmiddle, if_pos hmiddle, if_pos hafter]
    · -- The planet is a new one, or it would not have been gone.
      have hbefore : ¬ledger.contains q = true := fun hbefore =>
        hmiddle (hgh.contains_of_contains hg hhk (hrows q ▸ hbefore) hafter)
      rw [if_pos hafter, if_neg hmiddle, if_pos hafter, if_neg hbefore,
        basePrices_sync]
  · rw [if_neg hafter, if_neg hafter]

end Ledger

namespace Market

variable {m next : Market α} {last? : Option (Galaxy α)} {call : Call α} {answer : Answer α}

/-- A market that has the rows of the galaxy of the last refresh, whenever it is ready. -/
def HasRowsOf (last? : Option (Galaxy α)) (m : Market α) : Prop :=
  m.phase = .ready → ∃ g, last? = some g ∧ ∀ q, m.ledger.contains q = g.planets.contains q

/-- **Every step** keeps the rows of the last refresh, or has just made those of its own galaxy. -/
theorem HasRowsOf.step (hrows : m.HasRowsOf last?) (hstep : m.Step call next answer) :
    next.HasRowsOf (if answer.isRefreshed then call.rebuilds? else last?) := by
  cases hstep with
  | idle | queued | detached => exact hrows
  | destroyed | refused => exact fun hphase => nomatch hphase
  | @passed _ g dt clock prepared hcall hphase hprepared round hround =>
    subst hround
    rw [isRefreshed_repriceAll]
    intro _
    obtain ⟨g, hlast, hcontains⟩ := hrows hphase
    refine ⟨g, hlast, fun q => ?_⟩
    -- A round writes into rows and does not add any.
    exact sameShape_repriceAll.contains_eq.trans (hcontains q)
  | @rebuilt _ g index matrix hcall hnetwork round hround =>
    subst hround
    intro _
    refine ⟨g, hcall, fun q => ?_⟩
    exact sameShape_repriceAll.contains_eq.trans (Ledger.contains_sync ..)

/-- **A market that is ready** has a row for each planet of the galaxy that it was last refreshed
with, and no others. -/
theorem contains_after {catalog : Catalog α} {config : Config α} {solver : Solver α}
    (hm : ofConfig catalog config solver = .ok m) {calls : List (Call α)}
    (hready : (m.after calls).phase = .ready) : ∃ g, m.lastRefreshed? calls = some g ∧
      ∀ q, (m.after calls).ledger.contains q = g.planets.contains q := by
  -- A new market is not ready, so that nothing is asked of its rows.
  have hstart : m.HasRowsOf none := by
    rw [(ofConfig_eq_ok_iff.mp hm).2]
    exact fun hphase => nomatch hphase
  exact (living_ofConfig hm).refreshed_induction (P := HasRowsOf)
    (fun _ hstep hrows => hrows.step hstep) hstart calls hready

end Market

end GalaxyMarket
