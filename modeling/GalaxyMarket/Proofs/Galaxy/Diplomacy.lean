import Mathlib.Data.List.Nodup
import Mathlib.Data.Sym.Sym2
import GalaxyMarket.Galaxy.Relations

/-!
# The last word on a pair of factions

Whatever was said of two factions, and in whatever order they were named, only the last of it counts
(`Diplomacy.word_ofCalls_of_isLast`). Two sets of pairs say the same (`Relations.Records`): a pair
that is put into one of them is taken out of the other, so that no pair is ever in both, and a set
in which no pair stands twice has forgotten a pair that was taken out once.
-/

namespace GalaxyMarket

namespace Diplomacy

/-- Keys of pairs are the same exactly if the pairs are, in whatever order the two factions stand.
-/
theorem pair_eq_pair_iff {a b i j : ℕ} : pair i j = pair a b ↔ s(i, j) = s(a, b) := by
  rw [Sym2.eq_iff]
  unfold pair
  split
  all_goals
    split
    all_goals
      rw [Prod.mk.injEq]
      omega

/-- A pair has one key. -/
theorem pair_comm (a b : ℕ) : pair a b = pair b a := pair_eq_pair_iff.mpr Sym2.eq_swap

/-- Standings are mutual, and so is what is asked of them. -/
theorem word_comm (d : Diplomacy) (a b : ℕ) : d.word a b = d.word b a := by
  rw [word, word, pair_comm]

/-- So allies are allies of each other, -/
theorem allies_comm (d : Diplomacy) (a b : ℕ) : d.allies a b = d.allies b a := by
  rw [allies, allies, word_comm, Bool.beq_comm]

/-- and enemies likewise. -/
theorem enemies_comm (d : Diplomacy) (a b : ℕ) : d.enemies a b = d.enemies b a := by
  rw [enemies, enemies, word_comm, bne_comm]

/-- The last word counts, and what was said of other pairs still stands. -/
theorem word_declare (d : Diplomacy) (a b : ℕ) (standing : Standing) (i j : ℕ) :
    (d.declare a b standing).word i j =
      if s(i, j) = s(a, b) then standing else d.word i j := by
  unfold declare word
  rw [List.lookup_cons]
  by_cases heq : pair i j = pair a b
  · rw [if_pos (pair_eq_pair_iff.mp heq), heq, beq_self_eq_true]
    rfl
  · -- The words that are dropped are about the pair that is declared, and this is another one.
    have hkept : (d.words.filter fun word => word.1 != pair a b).lookup (pair i j) =
        d.words.lookup (pair i j) := by
      induction d.words with
      | nil => rfl
      | cons word words ih =>
        by_cases hword : word.1 = pair a b
        · have hother : (pair i j == word.1) = false := beq_false_of_ne (hword ▸ heq)
          rw [List.filter_cons_of_neg (by simp [hword]), ih, List.lookup_cons, hother]
        · rw [List.filter_cons_of_pos (by simpa using hword), List.lookup_cons, List.lookup_cons,
            ih]
    rw [if_neg fun h => heq (pair_eq_pair_iff.mpr h), beq_false_of_ne heq]
    exact congrArg (fun word : Option Standing => word.getD .neutral) hkept

/-- Two different factions are allies if that is the word on them, -/
theorem allies_iff_of_ne (d : Diplomacy) {a b : ℕ} (hne : a ≠ b) :
    d.allies a b = true ↔ d.word a b = .allied := by
  rw [allies, beq_false_of_ne hne, Bool.false_or, beq_iff_eq]

/-- and enemies likewise. -/
theorem enemies_iff_of_ne (d : Diplomacy) {a b : ℕ} (hne : a ≠ b) :
    d.enemies a b = true ↔ d.word a b = .hostile := by
  rw [enemies, bne_iff_ne.mpr hne, Bool.true_and, beq_iff_eq]

end Diplomacy

/-! ### Calls -/

/-- A call that sets the standing of two factions, or makes them neutral. -/
structure Declaration where
  first : ℕ
  second : ℕ
  standing : Standing

namespace Declaration

/-- A call is about two factions in whatever order it names them. -/
def Concerns (call : Declaration) (a b : ℕ) : Prop := s(call.first, call.second) = s(a, b)

/-- The last of some calls that is about two factions. -/
def IsLast (call : Declaration) (calls : List Declaration) (a b : ℕ) : Prop :=
  ∃ front back, calls = front ++ call :: back ∧ call.Concerns a b ∧
    ∀ later ∈ back, ¬later.Concerns a b

end Declaration

/-- The standings after a call. -/
def Diplomacy.perform (d : Diplomacy) (call : Declaration) : Diplomacy :=
  d.declare call.first call.second call.standing

/-- The two sets after a call. -/
def Relations.perform (r : Relations) (call : Declaration) : Relations :=
  r.declare call.first call.second call.standing

/-- The two sets after some calls. -/
def Relations.ofCalls (calls : List Declaration) : Relations := calls.foldl perform {}

/-- The standings after some calls. -/
def Diplomacy.ofCalls (calls : List Declaration) : Diplomacy := calls.foldl perform {}

namespace Diplomacy

variable {d : Diplomacy} {calls : List Declaration} {a b : ℕ}

/-- What is said of other factions is of no account. -/
theorem word_foldl_of_not_concerns (h : ∀ call ∈ calls, ¬call.Concerns a b) :
    (calls.foldl perform d).word a b = d.word a b := by
  -- Call by call: each one leaves the word on the pair as it found it.
  induction calls generalizing d with
  | nil => rfl
  | cons call calls ih =>
    obtain ⟨hcall, hcalls⟩ := List.forall_mem_cons.mp h
    rw [List.foldl_cons, ih hcalls, perform, word_declare, if_neg fun heq => hcall heq.symm]

/-- **The last word** on two factions is their standing. -/
theorem word_ofCalls_of_isLast {call : Declaration} (h : call.IsLast calls a b) :
    (ofCalls calls).word a b = call.standing := by
  obtain ⟨front, back, rfl, hcall, hback⟩ := h
  rw [ofCalls, List.foldl_append, List.foldl_cons, word_foldl_of_not_concerns hback, perform,
    word_declare, if_pos hcall.symm]

/-- Without a word they are neutral. -/
theorem word_ofCalls_of_not_concerns (h : ∀ call ∈ calls, ¬call.Concerns a b) :
    (ofCalls calls).word a b = .neutral :=
  word_foldl_of_not_concerns h

end Diplomacy

namespace Relations

variable {r : Relations} {d : Diplomacy}

/-! ### What a call does to a set -/

section

variable {pairs : List (ℕ × ℕ)} {put : Prop} [Decidable put]

/-- A set after a pair was put into it, or taken out of it. -/
def edit (pairs : List (ℕ × ℕ)) (key : ℕ × ℕ) (put : Prop) [Decidable put] : List (ℕ × ℕ) :=
  if put then pairs.insert key else pairs.erase key

/-- A set stays one. -/
theorem nodup_edit (hnodup : pairs.Nodup) (key : ℕ × ℕ) : (edit pairs key put).Nodup := by
  unfold edit
  split
  · exact hnodup.insert
  · exact hnodup.erase key

/-- Taking a pair out once is enough if it is not there twice. -/
theorem mem_edit_iff (hnodup : pairs.Nodup) {a b i j : ℕ} :
    Diplomacy.pair i j ∈ edit pairs (Diplomacy.pair a b) put ↔
      if s(i, j) = s(a, b) then put else Diplomacy.pair i j ∈ pairs := by
  unfold edit
  split
  · next hput =>
    rw [List.mem_insert_iff, Diplomacy.pair_eq_pair_iff]
    split
    · next heq => exact iff_of_true (Or.inl heq) hput
    · next hne => exact or_iff_right hne
  · next hout =>
    rw [hnodup.mem_erase_iff, ne_eq, Diplomacy.pair_eq_pair_iff]
    split
    · -- The one copy that there can be is erased.
      next heq => exact iff_of_false (fun h => h.1 heq) hout
    · next hne => exact and_iff_right hne

end

/-- Every call edits both sets: a pair is taken out of each that its standing is not about. -/
theorem allied_declare (r : Relations) (a b : ℕ) (standing : Standing) :
    (r.declare a b standing).allied =
      edit r.allied (Diplomacy.pair a b) (standing = .allied) := by
  cases standing <;> rfl

/-- The hostile pairs are edited in the same way. -/
theorem hostile_declare (r : Relations) (a b : ℕ) (standing : Standing) :
    (r.declare a b standing).hostile =
      edit r.hostile (Diplomacy.pair a b) (standing = .hostile) := by
  cases standing <;> rfl

/-! ### The sets and the standings -/

/-- Two sets that say which pairs are allied and which are hostile. -/
structure Records (r : Relations) (d : Diplomacy) : Prop where
  nodup_allied : r.allied.Nodup
  nodup_hostile : r.hostile.Nodup
  mem_allied_iff : ∀ {a b}, Diplomacy.pair a b ∈ r.allied ↔ d.word a b = .allied
  mem_hostile_iff : ∀ {a b}, Diplomacy.pair a b ∈ r.hostile ↔ d.word a b = .hostile

/-- At first nothing was said, and the sets are empty. -/
theorem records_empty : Records {} {} where
  nodup_allied := List.nodup_nil
  nodup_hostile := List.nodup_nil
  mem_allied_iff := iff_of_false List.not_mem_nil nofun
  mem_hostile_iff := iff_of_false List.not_mem_nil nofun

/-- **Every call** keeps both sets up to date. -/
theorem Records.declare (hr : r.Records d) (a b : ℕ) (standing : Standing) :
    (r.declare a b standing).Records (d.declare a b standing) where
  nodup_allied := by
    rw [allied_declare]
    exact nodup_edit hr.nodup_allied _
  nodup_hostile := by
    rw [hostile_declare]
    exact nodup_edit hr.nodup_hostile _
  mem_allied_iff := by
    intro i j
    rw [allied_declare, mem_edit_iff hr.nodup_allied, Diplomacy.word_declare]
    split
    · exact Iff.rfl
    · exact hr.mem_allied_iff
  mem_hostile_iff := by
    intro i j
    rw [hostile_declare, mem_edit_iff hr.nodup_hostile, Diplomacy.word_declare]
    split
    · exact Iff.rfl
    · exact hr.mem_hostile_iff

/-- **So do calls of any number.** -/
theorem Records.after (hr : r.Records d) (calls : List Declaration) :
    (calls.foldl perform r).Records (calls.foldl Diplomacy.perform d) := by
  -- Sets and standings change side by side, one call at a time.
  induction calls generalizing r d with
  | nil => exact hr
  | cons call calls ih => exact ih (hr.declare call.first call.second call.standing)

/-- Sets that come of calls agree with the standings that come of them. -/
theorem records_ofCalls (calls : List Declaration) :
    (ofCalls calls).Records (Diplomacy.ofCalls calls) :=
  records_empty.after calls

/-- The sets answer as the standings do. -/
theorem Records.allies_eq (hr : r.Records d) (a b : ℕ) : r.allies a b = d.allies a b := by
  rw [allies, Diplomacy.allies, Bool.eq_iff_iff, Bool.or_eq_true, Bool.or_eq_true,
    List.contains_iff_mem, hr.mem_allied_iff, beq_iff_eq (b := Standing.allied)]

/-- So they do about enemies. -/
theorem Records.enemies_eq (hr : r.Records d) (a b : ℕ) : r.enemies a b = d.enemies a b := by
  rw [enemies, Diplomacy.enemies, Bool.eq_iff_iff, Bool.and_eq_true, Bool.and_eq_true,
    List.contains_iff_mem, hr.mem_hostile_iff, beq_iff_eq (b := Standing.hostile)]

/-- **No pair is in both sets.** -/
theorem Records.disjoint (hr : r.Records d) (a b : ℕ) :
    ¬(Diplomacy.pair a b ∈ r.allied ∧ Diplomacy.pair a b ∈ r.hostile) := by
  rintro ⟨hallied, hhostile⟩
  exact absurd ((hr.mem_allied_iff.mp hallied).symm.trans (hr.mem_hostile_iff.mp hhostile)) nofun

@[simp] theorem allies_self (r : Relations) (a : ℕ) : r.allies a a = true := by
  rw [allies, beq_self_eq_true, Bool.true_or]

@[simp] theorem enemies_self (r : Relations) (a : ℕ) : r.enemies a a = false := by
  rw [enemies, bne_self_eq_false, Bool.false_and]

/-- Nobody is ally and enemy: a faction is no enemy of itself, and a pair is in one set at most. -/
theorem Records.exclusive (hr : r.Records d) (a b : ℕ) :
    ¬(r.allies a b = true ∧ r.enemies a b = true) := by
  rintro ⟨hallies, henemies⟩
  obtain ⟨hne, hhostile⟩ := Bool.and_eq_true_iff.mp henemies
  -- Allies are one faction, which enemies are not, or a pair that the other set does not have.
  rcases Bool.or_eq_true_iff.mp hallies with heq | hallied
  · exact bne_iff_ne.mp hne (beq_iff_eq.mp heq)
  · exact hr.disjoint a b ⟨List.contains_iff_mem.mp hallied, List.contains_iff_mem.mp hhostile⟩

/-- Two factions that are neutral are neither. -/
theorem Records.eq_false_of_neutral (hr : r.Records d) {a b : ℕ} (hne : a ≠ b)
    (h : d.word a b = .neutral) : r.allies a b = false ∧ r.enemies a b = false := by
  rw [hr.allies_eq, hr.enemies_eq, ← Bool.not_eq_true, ← Bool.not_eq_true,
    d.allies_iff_of_ne hne, d.enemies_iff_of_ne hne, h]
  exact ⟨nofun, nofun⟩

end Relations

/-! ### The answers -/

/-- Two sets that give the last word on all pairs of factions. -/
structure Relations.GivesLastWord (r : Relations) (calls : List Declaration) : Prop where
  allies_comm : ∀ a b, r.allies a b = r.allies b a
  enemies_comm : ∀ a b, r.enemies a b = r.enemies b a
  /-- Nobody is ally and enemy. -/
  exclusive : ∀ a b, ¬(r.allies a b = true ∧ r.enemies a b = true)
  /-- Of two factions that were named together the last call counts, -/
  allies_iff : ∀ {a b} {call : Declaration}, a ≠ b → call.IsLast calls a b →
    (r.allies a b = true ↔ call.standing = .allied)
  enemies_iff : ∀ {a b} {call : Declaration}, a ≠ b → call.IsLast calls a b →
    (r.enemies a b = true ↔ call.standing = .hostile)
  /-- and others are neutral. -/
  neutral : ∀ {a b}, a ≠ b → (∀ call ∈ calls, ¬call.Concerns a b) →
    r.allies a b = false ∧ r.enemies a b = false
  /-- A faction is its own ally and never its own enemy, whatever was said. -/
  allies_self : ∀ a, r.allies a a = true
  enemies_self : ∀ a, r.enemies a a = false
  /-- Routes see the same standings. -/
  allies_eq : ∀ a b, (Diplomacy.ofCalls calls).allies a b = r.allies a b
  enemies_eq : ∀ a b, (Diplomacy.ofCalls calls).enemies a b = r.enemies a b

/-- **The last word on two factions counts**, however many calls there were and in whatever order
they named them. -/
theorem relations_give_last_word (calls : List Declaration) :
    (Relations.ofCalls calls).GivesLastWord calls := by
  have hrecords := Relations.records_ofCalls calls
  -- All is known of the standings, and the two sets answer as these do.
  constructor
  case allies_comm =>
    intro a b
    rw [hrecords.allies_eq, hrecords.allies_eq, Diplomacy.allies_comm]
  case enemies_comm =>
    intro a b
    rw [hrecords.enemies_eq, hrecords.enemies_eq, Diplomacy.enemies_comm]
  case exclusive => exact hrecords.exclusive
  case allies_iff =>
    intro a b call hne hlast
    rw [hrecords.allies_eq, Diplomacy.allies_iff_of_ne _ hne,
      Diplomacy.word_ofCalls_of_isLast hlast]
  case enemies_iff =>
    intro a b call hne hlast
    rw [hrecords.enemies_eq, Diplomacy.enemies_iff_of_ne _ hne,
      Diplomacy.word_ofCalls_of_isLast hlast]
  case neutral =>
    intro a b hne hsilent
    exact hrecords.eq_false_of_neutral hne (Diplomacy.word_ofCalls_of_not_concerns hsilent)
  case allies_self => exact (Relations.ofCalls calls).allies_self
  case enemies_self => exact (Relations.ofCalls calls).enemies_self
  case allies_eq => exact fun a b => (hrecords.allies_eq a b).symm
  case enemies_eq => exact fun a b => (hrecords.enemies_eq a b).symm

end GalaxyMarket
