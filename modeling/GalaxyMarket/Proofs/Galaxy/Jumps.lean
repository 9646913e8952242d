import GalaxyMarket.Proofs.Galaxy.Integrity
import GalaxyMarket.Proofs.Galaxy.Refusal

/-!
# Jumps as a map

A system keeps its jumps in a list that is searched, changed in the middle, added to at its end and
filtered. What all of this amounts to is a map from ordered pairs of systems to the marks of the
jump between them (`Galaxy.marks?`), beside which each system remembers in which order it has its
targets (`Galaxy.targets`). Both together are the list again (`jumps_eq_filterMap`), because no
system has two jumps to the same target; and two lists with the same marks are the same up to their
order (`perm_of_marksTo?`).

Adding a jump, connecting and disconnecting come down to changing one list (`Galaxy.rewire`), and a
list is changed in two ways: a jump is taken in, or those to a target are struck. Each of the two is
one equation for the marks and one for the order.
-/

namespace GalaxyMarket

/-- What there is to a jump besides where it leads. -/
structure Marks where
  exitOnly : Bool := false
  hidden : Bool := false
  deriving DecidableEq, Repr

namespace Jump

/-- The marks of a jump. -/
def marks (jump : Jump) : Marks := ⟨jump.exitOnly, jump.hidden⟩

/-- The jump to a target with some marks. -/
def marked (target : SystemKey) (marks : Marks) : Jump := ⟨target, marks.exitOnly, marks.hidden⟩

end Jump

namespace Galaxy

/-! ### One list -/

/-- The marks of the jump to a target. -/
def marksTo? (jumps : List Jump) (target : SystemKey) : Option Marks :=
  (jumps.find? (·.target == target)).map Jump.marks

/-- A list of jumps with a plain one to a target, which is what connecting makes of a list. -/
def withLink (target : SystemKey) (jumps : List Jump) : List Jump := withJump jumps { target }

/-- A list of jumps without those to a target. -/
def strike (target : SystemKey) (jumps : List Jump) : List Jump :=
  jumps.filter fun jump => jump.target != target

section

variable {jumps jumps' : List Jump} {jump : Jump} {target : SystemKey}

/-- There are marks exactly for the targets in the list. -/
theorem isSome_marksTo?_iff :
    (marksTo? jumps target).isSome = true ↔ target ∈ jumps.map Jump.target := by
  simp [marksTo?]

/-- Marks that are found are those of a jump in the list. -/
theorem marked_mem {marks : Marks} (h : marksTo? jumps target = some marks) :
    Jump.marked target marks ∈ jumps := by
  obtain ⟨found, hfound, rfl⟩ := Option.map_eq_some_iff.mp h
  obtain rfl : found.target = target := beq_iff_eq.mp (List.find?_some hfound :)
  exact List.mem_of_find?_eq_some hfound

/-- In a list without two jumps to the same target, a jump is found under its target. -/
theorem mem_iff_marksTo? (hnodup : (jumps.map Jump.target).Nodup) :
    jump ∈ jumps ↔ marksTo? jumps jump.target = some jump.marks := by
  constructor
  · intro hmem
    have htarget : jump.target ∈ jumps.map Jump.target := List.mem_map_of_mem hmem
    obtain ⟨marks, hmarks⟩ := Option.isSome_iff_exists.mp (isSome_marksTo?_iff.mpr htarget)
    -- The jump that is found has the same target, and there is only one with it.
    have hsame : Jump.marked jump.target marks = jump :=
      List.inj_on_of_nodup_map hnodup (marked_mem hmarks) hmem rfl
    rw [hmarks, ← hsame]
    rfl
  · exact marked_mem

/-- **Marks and order are the list.** -/
theorem jumps_eq_filterMap (hnodup : (jumps.map Jump.target).Nodup) :
    jumps = (jumps.map Jump.target).filterMap fun target =>
      (marksTo? jumps target).map (Jump.marked target) := by
  rw [List.filterMap_map]
  calc jumps = jumps.filterMap some := List.filterMap_some.symm
    _ = jumps.filterMap fun jump =>
        (marksTo? jumps jump.target).map (Jump.marked jump.target) := by
      apply List.filterMap_congr
      intro jump hjump
      rw [(mem_iff_marksTo? hnodup).mp hjump]
      rfl

/-- **Lists with the same marks** differ in their order only. -/
theorem perm_of_marksTo? (hnodup : (jumps.map Jump.target).Nodup)
    (hnodup' : (jumps'.map Jump.target).Nodup)
    (hmarks : ∀ target, marksTo? jumps target = marksTo? jumps' target) : jumps.Perm jumps' := by
  apply (List.perm_ext_iff_of_nodup hnodup.of_map hnodup'.of_map).mpr
  intro jump
  rw [mem_iff_marksTo? hnodup, mem_iff_marksTo? hnodup', hmarks]

/-! #### Taking a jump in -/

/-- What is asked of targets only does not see that a jump was replaced. -/
theorem target_comp_replace (p : SystemKey → Bool) (jump : Jump) :
    ((fun other : Jump => p other.target) ∘ fun old =>
      if old.target == jump.target then jump else old) = fun old => p old.target :=
  funext fun old => congrArg p (target_replace jump old)

/-- Where nothing leads to a target, nothing is replaced. -/
theorem map_replace_of_notMem (hnew : target ∉ jumps.map Jump.target) (jump : Jump) :
    (jumps.map fun old => if old.target == target then jump else old) = jumps := by
  refine (List.map_congr_left fun old hold => ?_).trans (List.map_id' jumps)
  refine if_neg fun heq => hnew ?_
  rw [← beq_iff_eq.mp heq]
  exact List.mem_map_of_mem hold

/-- A jump that is taken in sets the marks of its target and no others. -/
theorem marksTo?_withJump (jumps : List Jump) (jump : Jump) (target : SystemKey) :
    marksTo? (withJump jumps jump) target =
      if target = jump.target then some jump.marks else marksTo? jumps target := by
  unfold marksTo? withJump
  split
  · next hknown =>
    rw [List.find?_map, target_comp_replace (· == target)]
    split
    · next htarget =>
      -- The jump that was there is found, and replaced.
      subst htarget
      obtain ⟨old, hold⟩ := Option.isSome_iff_exists.mp (List.find?_isSome.mpr
        (List.any_eq_true.mp hknown))
      rw [hold, Option.map_some, Option.map_some, if_pos (List.find?_some hold :)]
    · next htarget =>
      -- A jump to another target is not the one that is replaced.
      cases hold : jumps.find? (·.target == target) with
      | none => rfl
      | some old =>
        have hother : old.target = target := beq_iff_eq.mp (List.find?_some hold :)
        rw [Option.map_some, if_neg fun heq => htarget (hother.symm.trans (beq_iff_eq.mp heq))]
  · next hnew =>
    rw [List.find?_append, List.find?_singleton]
    by_cases htarget : target = jump.target
    · -- Nothing in the list is in front of the new jump.
      have hnone : jumps.find? (·.target == target) = none := by
        rw [List.find?_eq_none]
        intro old hold heq
        exact hnew (List.any_eq_true.mpr ⟨old, hold, htarget ▸ heq⟩)
      rw [hnone, if_pos htarget, if_pos (beq_iff_eq.mpr htarget.symm), Option.none_or,
        Option.map_some]
    · rw [if_neg htarget, if_neg fun heq => htarget (beq_iff_eq.mp heq).symm, Option.or_none]

/-- Of two jumps to the same target the second one counts. -/
theorem withJump_withJump (jumps : List Jump) {jump jump' : Jump}
    (htarget : jump'.target = jump.target) :
    withJump (withJump jumps jump) jump' = withJump jumps jump' := by
  have hreplace : ∀ old : Jump,
      (if (if old.target == jump.target then jump else old).target == jump.target then jump'
        else if old.target == jump.target then jump else old) =
      if old.target == jump.target then jump' else old := by
    intro old
    rw [target_replace]
    split <;> rfl
  -- After the first jump its target is known in either case, so that the second one replaces.
  have hknown : (withJump jumps jump).any (·.target == jump.target) = true := by
    rw [any_target_iff, map_target_withJump]
    exact mem_enlist_iff.mpr (Or.inr rfl)
  rw [withJump.eq_def (withJump jumps jump), htarget, if_pos hknown]
  unfold withJump
  rw [htarget]
  split
  · rw [List.map_map]
    exact List.map_congr_left fun old _ => hreplace old
  · next hnew =>
    -- The first jump was put at the end, where it is replaced; nothing else leads to the target.
    rw [List.map_append, List.map_singleton, if_pos (beq_self_eq_true _),
      map_replace_of_notMem fun hmem => hnew (any_target_iff.mpr hmem)]

/-! #### Striking jumps -/

/-- Striking clears the marks of one target and no others. -/
theorem marksTo?_strike (jumps : List Jump) (gone target : SystemKey) :
    marksTo? (strike gone jumps) target =
      if target = gone then none else marksTo? jumps target := by
  unfold marksTo? strike
  rw [List.find?_filter]
  split
  · next heq =>
    subst heq
    simp
  · next hne =>
    congr 2
    funext jump
    by_cases htarget : jump.target = target
    · simp [htarget, hne]
    · simp [htarget]

/-- What is left of the targets stays in its order. -/
theorem map_target_strike (jumps : List Jump) (gone : SystemKey) :
    (strike gone jumps).map Jump.target = (jumps.map Jump.target).filter (· != gone) := by
  rw [strike, List.filter_map]
  rfl

/-- Linking twice is linking once, and striking makes up for it. -/
theorem withLink_comp_withLink (target : SystemKey) :
    withLink target ∘ withLink target = withLink target := by
  funext jumps
  exact withJump_withJump jumps rfl

/-- A jump that is taken in and struck again leaves no trace. -/
theorem strike_withJump (jumps : List Jump) (jump : Jump) :
    strike jump.target (withJump jumps jump) = strike jump.target jumps := by
  unfold strike withJump
  split
  · -- Where the jump took the place of another, that one would have been struck as well.
    rw [List.filter_map, target_comp_replace (· != jump.target)]
    refine map_replace_of_notMem (fun hmem => ?_) jump
    obtain ⟨old, hold, htarget⟩ := List.mem_map.mp hmem
    exact bne_iff_ne.mp (List.mem_filter.mp hold).2 htarget
  · rw [List.filter_append, List.filter_cons_of_neg (by simp), List.filter_nil, List.append_nil]

theorem strike_comp_withLink (target : SystemKey) :
    strike target ∘ withLink target = strike target := by
  funext jumps
  exact strike_withJump jumps { target }

end

/-! ### All lists -/

variable {α : Type}

/-- The marks of the jump from a system to another, if there is one. -/
def marks? (g : Galaxy α) (a b : SystemKey) : Option Marks := (g.jumps? a).bind (marksTo? · b)

/-- The systems that the jumps of a system lead to, in order. -/
def targets (g : Galaxy α) (a : SystemKey) : List SystemKey :=
  ((g.jumps? a).getD []).map Jump.target

/-- A galaxy in which the list of jumps of one system is changed. -/
def rewire (g : Galaxy α) (key : SystemKey) (f : List Jump → List Jump) : Galaxy α :=
  { g with systems := g.systems.modify key fun system => { system with jumps := f system.jumps } }

/-- Two galaxies that differ in their jumps only. Slots that wait to be used again wait in both. -/
structure SameButJumps (g h : Galaxy α) : Prop where
  system? : ∀ key, (h.system? key).map (fun system => { system with jumps := [] }) =
    (g.system? key).map fun system => { system with jumps := [] }
  free : h.systems.free = g.systems.free
  planets : h.planets = g.planets
  diplomacy : h.diplomacy = g.diplomacy

variable {g h k : Galaxy α} {a b : SystemKey} {f f' : List Jump → List Jump}

theorem SameButJumps.refl (g : Galaxy α) : g.SameButJumps g := ⟨fun _ => rfl, rfl, rfl, rfl⟩

theorem SameButJumps.symm (hgh : g.SameButJumps h) : h.SameButJumps g where
  system? key := (hgh.system? key).symm
  free := hgh.free.symm
  planets := hgh.planets.symm
  diplomacy := hgh.diplomacy.symm

theorem SameButJumps.trans (hgh : g.SameButJumps h) (hhk : h.SameButJumps k) :
    g.SameButJumps k where
  system? key := (hhk.system? key).trans (hgh.system? key)
  free := hhk.free.trans hgh.free
  planets := hhk.planets.trans hgh.planets
  diplomacy := hhk.diplomacy.trans hgh.diplomacy

/-- The systems are the same ones. -/
theorem SameButJumps.contains (hgh : g.SameButJumps h) (key : SystemKey) :
    h.systems.contains key = g.systems.contains key := by
  have hsome := congrArg Option.isSome (hgh.system? key)
  rwa [Option.isSome_map, Option.isSome_map] at hsome

theorem marks?_of_jumps? {jumps : List Jump} (hjumps : g.jumps? a = some jumps) (b : SystemKey) :
    g.marks? a b = marksTo? jumps b := by
  rw [marks?, hjumps, Option.bind_some]

theorem targets_of_jumps? {jumps : List Jump} (hjumps : g.jumps? a = some jumps) :
    g.targets a = jumps.map Jump.target := by
  rw [targets, hjumps, Option.getD_some]

/-- Systems that are there have a list of jumps, if only an empty one. -/
theorem exists_jumps?_iff : (∃ jumps, g.jumps? a = some jumps) ↔ g.systems.contains a = true := by
  rw [contains_eq_isSome_jumps?, Option.isSome_iff_exists]

/-! ### Changing one list -/

/-- Changing the list of one system leaves all other lists alone, -/
theorem jumps?_rewire (g : Galaxy α) (key : SystemKey) (f : List Jump → List Jump)
    (other : SystemKey) : (g.rewire key f).jumps? other =
      if other = key then (g.jumps? other).map f else g.jumps? other := by
  refine (jumps?_modify ..).trans ?_
  rw [jumps?, Option.map_map]
  rfl

/-- and everything that is not a jump. -/
theorem sameButJumps_rewire (g : Galaxy α) (key : SystemKey) (f : List Jump → List Jump) :
    g.SameButJumps (g.rewire key f) where
  system? other := by
    unfold system? rewire
    rw [Slots.get?_modify]
    split
    · rw [Option.map_map]
      rfl
    · rfl
  free := by
    unfold rewire Slots.modify
    split <;> rfl
  planets := rfl
  diplomacy := rfl

theorem rewire_rewire (g : Galaxy α) (key : SystemKey) (f f' : List Jump → List Jump) :
    (g.rewire key f).rewire key f' = g.rewire key (f' ∘ f) := by
  unfold rewire
  rw [Slots.modify_modify]
  rfl

/-- Lists of different systems can be changed in any order. -/
theorem rewire_comm (g : Galaxy α) (hne : a ≠ b) (f f' : List Jump → List Jump) :
    (g.rewire a f).rewire b f' = (g.rewire b f').rewire a f := by
  unfold rewire
  rw [Slots.modify_comm _ hne]

/-- A jump is taken in: its marks are set, -/
theorem marks?_rewire_withJump (ha : g.systems.contains a = true) (jump : Jump) (c d : SystemKey) :
    (g.rewire a (withJump · jump)).marks? c d =
      if (c, d) = (a, jump.target) then some jump.marks else g.marks? c d := by
  unfold marks?
  rw [jumps?_rewire]
  by_cases hc : c = a
  · obtain ⟨jumps, hjumps⟩ := exists_jumps?_iff.mpr ha
    subst hc
    rw [if_pos rfl, hjumps, Option.map_some, Option.bind_some, Option.bind_some,
      marksTo?_withJump]
    simp
  · rw [if_neg hc, if_neg fun heq => hc (Prod.mk.inj heq).1]

/-- and its target is in the order. -/
theorem targets_rewire_withJump (ha : g.systems.contains a = true) (jump : Jump) (c : SystemKey) :
    (g.rewire a (withJump · jump)).targets c =
      if c = a then enlist (g.targets a) jump.target else g.targets c := by
  unfold targets
  rw [jumps?_rewire]
  split
  · next hc =>
    obtain ⟨jumps, hjumps⟩ := exists_jumps?_iff.mpr ha
    rw [hc, hjumps, Option.map_some, Option.getD_some, Option.getD_some, map_target_withJump]
  · rfl

/-- For a link the marks are plain ones. -/
theorem marks?_rewire_withLink (ha : g.systems.contains a = true) (b c d : SystemKey) :
    (g.rewire a (withLink b)).marks? c d = if (c, d) = (a, b) then some {} else g.marks? c d :=
  marks?_rewire_withJump ha { target := b } c d

theorem targets_rewire_withLink (ha : g.systems.contains a = true) (b c : SystemKey) :
    (g.rewire a (withLink b)).targets c = if c = a then enlist (g.targets a) b else g.targets c :=
  targets_rewire_withJump ha { target := b } c

/-- The jumps to a target are struck: there are no marks, -/
theorem marks?_rewire_strike (g : Galaxy α) (a b c d : SystemKey) :
    (g.rewire a (strike b)).marks? c d = if (c, d) = (a, b) then none else g.marks? c d := by
  unfold marks?
  rw [jumps?_rewire]
  by_cases hc : c = a
  · rw [if_pos hc, Option.bind_map]
    simp only [Function.comp_def, marksTo?_strike, Prod.mk.injEq, hc, true_and]
    -- A system that is not there had no marks to begin with.
    split
    · cases g.jumps? a <;> rfl
    · rfl
  · rw [if_neg hc, if_neg fun heq => hc (Prod.mk.inj heq).1]

/-- and the target is out of the order. -/
theorem targets_rewire_strike (g : Galaxy α) (a b c : SystemKey) :
    (g.rewire a (strike b)).targets c =
      if c = a then (g.targets a).filter (· != b) else g.targets c := by
  unfold targets
  rw [jumps?_rewire]
  split
  · next hc =>
    rw [hc]
    cases g.jumps? a with
    | none => rfl
    | some jumps => exact map_target_strike jumps b
  · rfl

/-! ### The three edits -/

/-- A jump is added if both of its systems are there. -/
theorem addJump_eq (g : Galaxy α) (origin : SystemKey) (jump : Jump) :
    g.addJump origin jump =
      g.provided [jump.target, origin] (g.rewire origin (withJump · jump)) := by
  rw [provided_cons, addJump, updateSystem_eq]
  rfl

/-- **Connecting is refused before its first jump or not at all**: adding that jump takes both
systems, and they are still there for the second one. -/
theorem connect_eq (g : Galaxy α) (a b : SystemKey) :
    g.connect a b = g.provided [b, a] ((g.rewire a (withLink b)).rewire b (withLink a)) := by
  have hfirst : g.addJump a { target := b } = g.provided [b, a] (g.rewire a (withLink b)) :=
    addJump_eq ..
  unfold connect
  rw [hfirst]
  cases hmissing : g.missing? [b, a] with
  | some key => rw [provided_of_missing? hmissing, provided_of_missing? hmissing]; rfl
  | none =>
    have hlive := missing?_eq_none_iff.mp hmissing
    rw [provided_of_live hlive, provided_of_live hlive]
    refine (addJump_eq ..).trans (provided_of_live fun key hkey => ?_)
    -- Changing a list has removed no system.
    refine ((g.sameButJumps_rewire a _).contains key).trans (hlive key ?_)
    simpa [or_comm] using hkey

/-- Where the first jump can be added the second one can. -/
theorem exists_addJump_back {middle : Galaxy α}
    (hfirst : g.addJump a { target := b } = .ok middle) :
    ∃ h, middle.addJump b { target := a } = .ok h := by
  obtain ⟨h, hconnect⟩ : ∃ h, g.connect a b = .ok h := by
    rw [addJump_eq] at hfirst
    rw [connect_eq]
    cases hmissing : g.missing? [b, a] with
    | some key =>
      rw [provided_of_missing? hmissing] at hfirst
      cases hfirst
    | none => exact ⟨_, provided_of_live (missing?_eq_none_iff.mp hmissing)⟩
  obtain ⟨middle', hfirst', hsecond⟩ := connect_eq_ok hconnect
  cases hfirst.symm.trans hfirst'
  exact ⟨h, hsecond⟩

/-- Disconnecting is never refused. -/
theorem disconnect_eq (g : Galaxy α) (a b : SystemKey) :
    g.disconnect a b = (g.rewire a (strike b)).rewire b (strike a) := rfl

end Galaxy

end GalaxyMarket
