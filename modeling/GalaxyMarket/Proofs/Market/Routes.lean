import Mathlib
import GalaxyMarket.Proofs.Market.Numbering

/-!
# The routes of a galaxy

`Galaxy.routes` walks along all jumps with a set of the pairs of systems that it has met. What comes
out has a description without the walk:

* `Galaxy.Linked` — two numbered systems differ, and a jump leads from one to the other.
* `Galaxy.mem_pairs_routes_iff` — the pairs of the routes are exactly the linked ones.
* `Galaxy.nodup_pairs_routes` — no pair of systems has two routes, however many jumps lead between
  them and in whatever direction.
* `Galaxy.resistance_of_mem_routes` — the resistance of a route is that between its two systems.

The walk keeps the invariant `Survey.Valid`, which ties the set of pairs, the routes taken down and
the jumps walked so far together: `Survey.Valid.add` is one step of the walk and
`Survey.valid_foldl` all of it.
-/

namespace GalaxyMarket

variable {α : Type}

/-! ### Sets of pairs -/

namespace PairSet

/-- Putting in a pair adds this pair, in either order, and nothing else. -/
theorem contains_insert {s : PairSet} {i j : Nat} (hi : i < s.greater.size)
    (hj : j < s.greater.size) (a b : Nat) :
    (s.insert i j).contains a b = true ↔ s(a, b) = s(i, j) ∨ s.contains a b = true := by
  have hmin : min i j < s.greater.size := by omega
  rw [contains, contains, insert, Array.getElem?_modify]
  -- A pair is kept under its lower number, so that only one cell matters.
  by_cases hlow : min i j = min a b
  · have hcell : s.greater[min a b]? = some s.greater[min i j] := by
      rw [← hlow]
      exact Array.getElem?_eq_getElem hmin
    rw [if_pos hlow, hcell, Option.map_some, Option.getD_some, Option.getD_some,
      List.contains_cons, Bool.or_eq_true, beq_iff_eq, Sym2.eq_iff]
    refine or_congr_left ?_
    omega
  · rw [if_neg hlow, Sym2.eq_iff]
    refine (or_iff_right ?_).symm
    omega

theorem contains_empty (bound a b : Nat) : (empty bound).contains a b = false := by
  rw [contains, empty, Array.getElem?_replicate]
  split <;> rfl

end PairSet

/-! ### The walk along the jumps -/

/-- The two systems of a route, in no order. -/
def Route.pair (r : Route α) : Sym2 Nat := s(r.origin, r.target)

/-- The invariant of the walk, once some routes were met: the pairs in the set are those of the
routes taken down, each of these was met and no pair has two, and no pair that was met is missing.
-/
structure Survey.Valid (bound : Nat) (met : List (Route α)) (survey : Survey α) : Prop where
  size_eq : survey.seen.greater.size = bound
  seen_iff : ∀ i j, survey.seen.contains i j = true ↔ s(i, j) ∈ survey.routes.toList.map Route.pair
  routes_subset : ∀ r ∈ survey.routes.toList, r ∈ met
  nodup : (survey.routes.toList.map Route.pair).Nodup
  complete : ∀ r ∈ met, r.pair ∈ survey.routes.toList.map Route.pair

/-- **One step of the walk.** A pair that is in the set brings nothing new, and any other pair gets
its first route. -/
theorem Survey.Valid.add {bound : Nat} {met : List (Route α)} {survey : Survey α}
    (h : survey.Valid bound met) {r : Route α} (horigin : r.origin < bound)
    (htarget : r.target < bound) : (survey.add r).Valid bound (met ++ [r]) := by
  obtain ⟨size_eq, seen_iff, routes_subset, nodup, complete⟩ := h
  obtain ⟨seen, routes⟩ := survey
  rw [Survey.add]
  split
  · next hseen =>
    -- The pair is known, so its route is in the list already.
    refine ⟨size_eq, seen_iff, fun x hx => List.mem_append_left _ (routes_subset x hx), nodup, ?_⟩
    intro x hx
    rcases List.mem_append.mp hx with hx | hx
    · exact complete x hx
    · obtain rfl := List.mem_singleton.mp hx
      exact (seen_iff _ _).mp hseen
  · next hseen =>
    -- The set is right about the list, so that the pair is new to both.
    have hnew : r.pair ∉ routes.toList.map Route.pair := fun hmem => hseen ((seen_iff _ _).mpr hmem)
    have hpairs : (routes.push r).toList.map Route.pair =
        routes.toList.map Route.pair ++ [r.pair] := by
      rw [Array.toList_push, List.map_append, List.map_singleton]
    refine ⟨?_, fun i j => ?_, fun x hx => ?_, ?_, fun x hx => ?_⟩
    · exact (Array.size_modify ..).trans size_eq
    · -- A pair is in the larger set if it is the new one or was there before.
      change (seen.insert _ _).contains i j = true ↔ s(i, j) ∈ (routes.push r).toList.map Route.pair
      rw [PairSet.contains_insert (size_eq ▸ horigin) (size_eq ▸ htarget), hpairs,
        List.mem_append, List.mem_singleton, or_comm]
      exact or_congr_left (seen_iff i j)
    · change x ∈ (routes.push r).toList at hx
      rw [Array.toList_push] at hx
      exact List.mem_append.mpr ((List.mem_append.mp hx).imp_left (routes_subset x))
    · change ((routes.push r).toList.map Route.pair).Nodup
      rw [hpairs]
      exact nodup.append (List.nodup_singleton _) (by simpa using hnew)
    · change x.pair ∈ (routes.push r).toList.map Route.pair
      rw [hpairs, List.mem_append, List.mem_singleton]
      exact (List.mem_append.mp hx).imp (complete x) fun hx =>
        congrArg Route.pair (List.mem_singleton.mp hx)

/-- **The whole walk.** -/
theorem Survey.valid_foldl {bound : Nat} {met : List (Route α)}
    (h : ∀ r ∈ met, r.origin < bound ∧ r.target < bound) :
    (met.foldl Survey.add { seen := .empty bound }).Valid bound met := by
  -- The walk goes from the front, so it is its last step that is taken off.
  induction met using List.reverseRecOn with
  | nil =>
    refine ⟨Array.size_replicate, fun i j => ?_, fun r hr => ?_, List.nodup_nil, fun r hr => ?_⟩
    · change (PairSet.empty bound).contains i j = true ↔ _
      rw [PairSet.contains_empty]
      simp
    · simp at hr
    · simp at hr
  | append_singleton met r ih =>
    rw [List.foldl_append]
    have hr := h r (List.mem_append_right _ (List.mem_singleton_self r))
    exact (ih fun x hx => h x (List.mem_append_left _ hx)).add hr.1 hr.2

/-! ### What is met -/

namespace Galaxy

variable [Scalar α] {g : Galaxy α} {config : Config α}

omit [Scalar α] in
theorem mem_jumpsTo_iff {system : System α} {key : SystemKey} :
    system.jumpsTo key = true ↔ ∃ jump ∈ system.jumps, jump.target = key := by
  simp [System.jumpsTo]

/-- The route of a jump leads between two different numbered systems and has the resistance between
them. -/
theorem routeOf?_eq_some_iff {origin : SystemKey × System α} {jump : Jump} {r : Route α} :
    g.routeOf? config (.ofGalaxy g) origin jump = some r ↔
      (SystemIndex.ofGalaxy g).system? r.origin = some origin.1 ∧
      (SystemIndex.ofGalaxy g).system? r.target = some jump.target ∧
      r.origin ≠ r.target ∧
      ∃ target, g.system? jump.target = some target ∧
        r.resistance = Route.resistanceBetween config g.diplomacy origin.2 target := by
  obtain ⟨i, j, resistance⟩ := r
  simp only [routeOf?, Option.bind_eq_bind, Option.bind_eq_some_iff,
    SystemIndex.position?_ofGalaxy_eq_some_iff]
  constructor
  · rintro ⟨i', hi, j', hj, target, htarget, h⟩
    split at h
    · cases h
    · next hne =>
      obtain ⟨rfl, rfl, rfl⟩ : i' = i ∧ j' = j ∧
          Route.resistanceBetween config g.diplomacy origin.2 target = resistance := by
        simpa using h
      exact ⟨hi, hj, by simpa using hne, target, htarget, rfl⟩
  · rintro ⟨hi, hj, hne, target, htarget, rfl⟩
    exact ⟨i, hi, j, hj, target, htarget, by simp [hne]⟩

/-- The routes that the walk meets. -/
theorem mem_jumpRoutes_iff {r : Route α} :
    r ∈ g.jumpRoutes config (.ofGalaxy g) ↔ r.origin ≠ r.target ∧
      ∃ a b s t, (SystemIndex.ofGalaxy g).system? r.origin = some a ∧
        (SystemIndex.ofGalaxy g).system? r.target = some b ∧
        g.system? a = some s ∧ g.system? b = some t ∧ s.jumpsTo b = true ∧
        r.resistance = Route.resistanceBetween config g.diplomacy s t := by
  rw [jumpRoutes, List.mem_flatMap]
  constructor
  · rintro ⟨⟨a, s⟩, hmem, hr⟩
    obtain ⟨jump, hjump, hr⟩ := List.mem_filterMap.mp hr
    obtain ⟨ha, hb, hne, t, ht, hres⟩ := routeOf?_eq_some_iff.mp hr
    exact ⟨hne, a, jump.target, s, t, ha, hb, Slots.mem_toList_iff.mp hmem, ht,
      mem_jumpsTo_iff.mpr ⟨jump, hjump, rfl⟩, hres⟩
  · rintro ⟨hne, a, b, s, t, ha, hb, hs, ht, hjump, hres⟩
    obtain ⟨jump, hmem, rfl⟩ := mem_jumpsTo_iff.mp hjump
    exact ⟨(a, s), Slots.mem_toList_iff.mpr hs, List.mem_filterMap.mpr
      ⟨jump, hmem, routeOf?_eq_some_iff.mpr ⟨ha, hb, hne, t, ht, hres⟩⟩⟩

/-! ### What comes out -/

/-- Two different numbered systems, with a jump from one to the other. -/
def Linked (g : Galaxy α) (i j : Nat) : Prop :=
  i ≠ j ∧ ∃ a b s t, (SystemIndex.ofGalaxy g).system? i = some a ∧
    (SystemIndex.ofGalaxy g).system? j = some b ∧ g.system? a = some s ∧ g.system? b = some t ∧
    (s.jumpsTo b = true ∨ t.jumpsTo a = true)

omit [Scalar α] in
theorem Linked.symm {i j : Nat} (h : g.Linked i j) : g.Linked j i := by
  obtain ⟨hne, a, b, s, t, ha, hb, hs, ht, hjump⟩ := h
  exact ⟨hne.symm, b, a, t, s, hb, ha, ht, hs, hjump.symm⟩

omit [Scalar α] in
theorem Linked.lt_size {i j : Nat} (h : g.Linked i j) :
    i < (SystemIndex.ofGalaxy g).size ∧ j < (SystemIndex.ofGalaxy g).size := by
  obtain ⟨-, a, b, s, t, ha, hb, -⟩ := h
  exact ⟨SystemIndex.lt_size_of_system? ha, SystemIndex.lt_size_of_system? hb⟩

/-- The invariant of the walk holds at its end. -/
theorem valid_survey (g : Galaxy α) (config : Config α) :
    ((g.jumpRoutes config (.ofGalaxy g)).foldl Survey.add
      { seen := .empty (SystemIndex.ofGalaxy g).size }).Valid (SystemIndex.ofGalaxy g).size
      (g.jumpRoutes config (.ofGalaxy g)) := by
  refine Survey.valid_foldl fun r hr => ?_
  obtain ⟨-, a, b, s, t, ha, hb, -⟩ := mem_jumpRoutes_iff.mp hr
  exact ⟨SystemIndex.lt_size_of_system? ha, SystemIndex.lt_size_of_system? hb⟩

/-- **No two systems have two routes.** -/
theorem nodup_pairs_routes (g : Galaxy α) (config : Config α) :
    ((g.routes config (.ofGalaxy g)).map Route.pair).Nodup :=
  (g.valid_survey config).nodup

/-- **The routes lead between the linked systems**, and between no others. -/
theorem mem_pairs_routes_iff {i j : Nat} :
    s(i, j) ∈ (g.routes config (.ofGalaxy g)).map Route.pair ↔ g.Linked i j := by
  have hvalid := g.valid_survey config
  constructor
  · intro h
    obtain ⟨r, hr, hpair⟩ := List.mem_map.mp h
    obtain ⟨hne, a, b, s, t, ha, hb, hs, ht, hjump, -⟩ :=
      mem_jumpRoutes_iff.mp (hvalid.routes_subset r hr)
    have hlinked : g.Linked r.origin r.target :=
      ⟨hne, a, b, s, t, ha, hb, hs, ht, Or.inl hjump⟩
    rcases Sym2.eq_iff.mp hpair with ⟨rfl, rfl⟩ | ⟨rfl, rfl⟩
    · exact hlinked
    · exact hlinked.symm
  · rintro ⟨hne, a, b, s, t, ha, hb, hs, ht, hjump⟩
    -- The jump, in its own direction, was met.
    rcases hjump with hjump | hjump
    · exact hvalid.complete ⟨i, j, _⟩
        (mem_jumpRoutes_iff.mpr ⟨hne, a, b, s, t, ha, hb, hs, ht, hjump, rfl⟩)
    · rw [Sym2.eq_swap]
      exact hvalid.complete ⟨j, i, _⟩
        (mem_jumpRoutes_iff.mpr ⟨hne.symm, b, a, t, s, hb, ha, ht, hs, hjump, rfl⟩)

/-- **The resistance of a route** is that between its two systems, taken from its origin. -/
theorem resistance_of_mem_routes {r : Route α} (h : r ∈ g.routes config (.ofGalaxy g)) :
    r.origin ≠ r.target ∧
      ∃ a b s t, (SystemIndex.ofGalaxy g).system? r.origin = some a ∧
        (SystemIndex.ofGalaxy g).system? r.target = some b ∧
        g.system? a = some s ∧ g.system? b = some t ∧ s.jumpsTo b = true ∧
        r.resistance = Route.resistanceBetween config g.diplomacy s t :=
  mem_jumpRoutes_iff.mp ((g.valid_survey config).routes_subset r h)

end Galaxy

end GalaxyMarket
