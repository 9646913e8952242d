import Mathlib.Data.List.Nodup
import GalaxyMarket.Commodity.Catalog

/-!
# What a draft keeps of its calls

Commodities are registered and sources attached in any order, names may come twice, and a source may
be meant for a name that nobody has registered. What of all this is in a draft is said by the
history of the calls (`DraftHistory`): the commodities in the order in which they were registered,
and the sources that found a commodity, under its name.

A draft knows more than it needs to while names are still different, and less once one has come
twice: then it is sure of the first such name, and of nothing about sources (`CatalogDraft.Keeps`).
That is enough, because such a draft is never frozen.
-/

namespace GalaxyMarket

variable {α : Type}

/-- A call to a draft. -/
inductive DraftCall (α : Type) where
  | register (commodity : Commodity)
  | attach (name : String) (source : Source α)

/-- What some calls have registered, and what they have attached to it. -/
structure DraftHistory (α : Type) where
  registered : List Commodity := []
  /-- Sources under the names of commodities, the latest in front. -/
  attached : List (String × Source α) := []

namespace DraftHistory

/-- The names that were registered, in order. -/
def names (h : DraftHistory α) : List String := h.registered.map Commodity.name

/-- The history with one call more. A source for a name that was not registered is not taken. -/
def note (h : DraftHistory α) : DraftCall α → DraftHistory α
  | .register commodity => { h with registered := h.registered ++ [commodity] }
  | .attach name source =>
    if name ∈ h.names then { h with attached := (name, source) :: h.attached } else h

/-- The history of some calls. -/
def ofCalls (calls : List (DraftCall α)) : DraftHistory α := calls.foldl note {}

/-- A source for a name that was registered is put in front of the earlier ones. -/
theorem note_attach_of_mem {h : DraftHistory α} {name : String} (hknown : name ∈ h.names)
    (source : Source α) : h.note (.attach name source) =
      { h with attached := (name, source) :: h.attached } :=
  if_pos hknown

theorem note_attach_of_notMem {h : DraftHistory α} {name : String} (hunknown : name ∉ h.names)
    (source : Source α) : h.note (.attach name source) = h :=
  if_neg hunknown

/-- A commodity brings its name, behind those that were there. -/
theorem names_register (h : DraftHistory α) (commodity : Commodity) :
    (h.note (.register commodity)).names = h.names ++ [commodity.name] :=
  List.map_append

/-- Nothing that was registered is ever taken back. -/
theorem length_registered_le (h : DraftHistory α) (calls : List (DraftCall α)) :
    h.registered.length ≤ (calls.foldl note h).registered.length := by
  induction calls generalizing h with
  | nil => exact Nat.le_refl _
  | cons call calls ih =>
    -- It is enough that one call takes nothing back; the others follow the history it leaves.
    refine Nat.le_trans ?_ (ih (h.note call))
    cases call with
    | register commodity => simp [note]
    | attach name source =>
      rw [note]
      split <;> exact Nat.le_refl _

end DraftHistory

/-! ### The first repeated entry -/

section

variable {β : Type} {l : List β} {a : β}

/-- The entry that is the first one to repeat another. -/
def IsFirstRepeat (l : List β) (a : β) : Prop :=
  ∃ front back, l = front ++ a :: back ∧ front.Nodup ∧ a ∈ front

/-- What comes later does not change which entry repeated another first. -/
theorem IsFirstRepeat.append (h : IsFirstRepeat l a) (more : List β) :
    IsFirstRepeat (l ++ more) a := by
  obtain ⟨front, back, rfl, hnodup, hmem⟩ := h
  exact ⟨front, back ++ more, by rw [List.append_assoc, List.cons_append], hnodup, hmem⟩

/-- Where an entry repeats another, entries are not all different. -/
theorem IsFirstRepeat.not_nodup (h : IsFirstRepeat l a) : ¬l.Nodup := by
  obtain ⟨front, back, rfl, -, hmem⟩ := h
  intro hnodup
  exact (List.nodup_append.mp hnodup).2.2 a hmem a List.mem_cons_self rfl

end

namespace CatalogDraft

variable {draft : CatalogDraft α} {h : DraftHistory α} {name : String} {i : ℕ}

/-! ### Looking up a name -/

/-- A name is found exactly if some commodity has it. -/
theorem isSome_find?_iff : (draft.find? name).isSome = true ↔
    name ∈ draft.listings.map (·.commodity.name) := by
  unfold find?
  rw [Option.isSome_map, List.find?_isSome, List.mem_map]
  -- Names are searched from the last to the first, which does not matter to whether there is one.
  simp only [List.mem_reverse, beq_iff_eq, Prod.exists]
  constructor
  · rintro ⟨l, i, hmem, hname⟩
    exact ⟨l, List.fst_mem_of_mem_zipIdx hmem, hname⟩
  · rintro ⟨l, hmem, hname⟩
    obtain ⟨i, hi⟩ := List.mem_iff_getElem?.mp hmem
    exact ⟨l, i, List.mem_zipIdx_iff_getElem?.mpr hi, hname⟩

/-- At the place that is found there is a commodity of the name. -/
theorem exists_of_find?_eq_some (hfind : draft.find? name = some i) :
    ∃ l, draft.listings[i]? = some l ∧ l.commodity.name = name := by
  obtain ⟨⟨l, j⟩, hfound, rfl⟩ := Option.map_eq_some_iff.mp hfind
  have hmem := List.mem_reverse.mp (List.mem_of_find?_eq_some hfound)
  exact ⟨l, List.mem_zipIdx_iff_getElem?.mp hmem, beq_iff_eq.mp (List.find?_some hfound :)⟩

/-- The commodity that was registered last is the one that is found, if it has the name. -/
theorem find?_append_singleton (listings : List (Listing α)) (repeated repeated' : List String)
    (l : Listing α) (name : String) : find? ⟨listings ++ [l], repeated'⟩ name =
      if l.commodity.name = name then some listings.length
      else find? ⟨listings, repeated⟩ name := by
  unfold find?
  rw [List.zipIdx_append, List.reverse_append]
  by_cases hname : l.commodity.name = name
  · simp [hname]
  · simp [hname]

/-- Which place is found depends on the names alone. -/
theorem find?_congr {draft' : CatalogDraft α} (hnames : draft'.listings.map (·.commodity.name) =
    draft.listings.map (·.commodity.name)) (name : String) :
    draft'.find? name = draft.find? name := by
  -- The search can as well go through the names themselves.
  have heq : ∀ draft : CatalogDraft α, draft.find? name =
      (((draft.listings.map (·.commodity.name)).zipIdx.reverse.find?
        fun entry => entry.1 == name).map Prod.snd) := by
    intro draft
    rw [List.zipIdx_map, ← List.map_reverse, List.find?_map, Option.map_map]
    rfl
  rw [heq, heq, hnames]

/-! ### Calls -/

/-- The draft after a call. A source that finds no commodity changes nothing. -/
def perform (draft : CatalogDraft α) : DraftCall α → CatalogDraft α
  | .register commodity => draft.register commodity
  | .attach name source => (draft.attach name source).toOption.getD draft

/-- What is in a draft with a history. -/
structure Keeps (draft : CatalogDraft α) (h : DraftHistory α) : Prop where
  /-- All commodities, in order. -/
  commodities_eq : draft.listings.map Listing.commodity = h.registered
  /-- That names are different, or which one came twice first. -/
  repeated : match draft.repeated with
    | [] => h.names.Nodup
    | name :: _ => IsFirstRepeat h.names name
  /-- The last source for each commodity, as long as names are different. -/
  source?_eq : h.names.Nodup →
    ∀ l ∈ draft.listings, l.source? = h.attached.lookup l.commodity.name
  /-- Nothing was attached to a name that was not registered. -/
  attached_mem : ∀ entry ∈ h.attached, entry.1 ∈ h.names

/-- A draft without calls. -/
theorem keeps_empty : Keeps ({} : CatalogDraft α) {} where
  commodities_eq := rfl
  repeated := List.nodup_nil
  source?_eq _ := nofun
  attached_mem := nofun

/-- A draft has the names that were registered, in their order. -/
theorem Keeps.names_eq (hd : draft.Keeps h) :
    draft.listings.map (·.commodity.name) = h.names := by
  rw [DraftHistory.names, ← hd.commodities_eq, List.map_map]
  rfl

theorem Keeps.length_listings (hd : draft.Keeps h) :
    draft.listings.length = h.registered.length := by
  rw [← hd.commodities_eq, List.length_map]

/-- So a name is found exactly if it was registered. -/
theorem Keeps.isSome_find?_iff (hd : draft.Keeps h) :
    (draft.find? name).isSome = true ↔ name ∈ h.names := by
  rw [CatalogDraft.isSome_find?_iff, hd.names_eq]

theorem Keeps.mem_names (hd : draft.Keeps h) (hfind : draft.find? name = some i) :
    name ∈ h.names :=
  hd.isSome_find?_iff.mp (Option.isSome_iff_exists.mpr ⟨i, hfind⟩)

theorem Keeps.notMem_names (hd : draft.Keeps h) (hfind : draft.find? name = none) :
    name ∉ h.names := fun hmem =>
  Option.isSome_iff_ne_none.mp (hd.isSome_find?_iff.mpr hmem) hfind

/-- Where names are different, a name is found at its place. -/
theorem Keeps.find?_eq_some_iff (hd : draft.Keeps h) (hnodup : h.names.Nodup) :
    draft.find? name = some i ↔ h.names[i]? = some name := by
  have hplace : ∀ {i}, draft.find? name = some i → h.names[i]? = some name := by
    intro i hfind
    obtain ⟨l, hl, hname⟩ := exists_of_find?_eq_some hfind
    rw [← hd.names_eq, List.getElem?_map, hl]
    exact congrArg some hname
  refine ⟨hplace, fun hi => ?_⟩
  obtain ⟨j, hfind⟩ :=
    Option.isSome_iff_exists.mp (hd.isSome_find?_iff.mpr (List.mem_of_getElem? hi))
  -- There is no other place for the name.
  have hij := (List.getElem?_inj (List.getElem?_eq_some_iff.mp hi).1 hnodup).mp
    (hi.trans (hplace hfind).symm)
  rw [hfind, hij]

/-- **Registering a commodity.** -/
theorem Keeps.register (hd : draft.Keeps h) (commodity : Commodity) :
    (draft.register commodity).Keeps (h.note (.register commodity)) := by
  have hnames := h.names_register commodity
  constructor
  case commodities_eq =>
    show (draft.listings ++ [(⟨commodity, none⟩ : Listing α)]).map Listing.commodity =
      h.registered ++ [commodity]
    rw [List.map_append, hd.commodities_eq, List.map_singleton]
  case repeated =>
    have hrepeated := hd.repeated
    rw [hnames]
    unfold CatalogDraft.register
    by_cases hknown : commodity.name ∈ h.names
    · rw [if_pos (hd.isSome_find?_iff.mpr hknown)]
      cases hlist : draft.repeated with
      | nil =>
        -- All names were different before, and this is the first to repeat one.
        rw [hlist] at hrepeated
        -- Nothing is behind the name yet.
        exact ⟨h.names, [], rfl, hrepeated, hknown⟩
      | cons first rest =>
        rw [hlist] at hrepeated
        exact hrepeated.append _
    · rw [if_neg fun hfound => hknown (hd.isSome_find?_iff.mp hfound)]
      cases hlist : draft.repeated with
      | nil =>
        rw [hlist] at hrepeated
        exact hrepeated.append (List.nodup_singleton _) (List.disjoint_singleton.mpr hknown)
      | cons first rest =>
        rw [hlist] at hrepeated
        exact hrepeated.append _
  case source?_eq =>
    intro hnodup l hl
    rw [hnames] at hnodup
    rcases List.mem_append.mp hl with hold | hnew
    · exact hd.source?_eq hnodup.of_append_left l hold
    · -- Nothing was attached to the name before it was registered.
      obtain rfl := List.mem_singleton.mp hnew
      refine (List.lookup_eq_none_iff.mpr fun entry hentry => ?_).symm
      refine bne_iff_ne.mpr fun heq => ?_
      exact List.disjoint_of_nodup_append hnodup (hd.attached_mem entry hentry)
        (heq ▸ List.mem_cons_self)
  case attached_mem =>
    intro entry hentry
    rw [hnames]
    exact List.mem_append_left _ (hd.attached_mem entry hentry)

/-- A source is written at the place that was found. -/
theorem perform_attach_of_find? (hfind : draft.find? name = some i) (source : Source α) :
    draft.perform (.attach name source) = { draft with
      listings := draft.listings.modify i fun l => { l with source? := some source } } := by
  rw [perform, attach, hfind]
  rfl

theorem perform_attach_of_find?_eq_none (hfind : draft.find? name = none) (source : Source α) :
    draft.perform (.attach name source) = draft := by
  rw [perform, attach, hfind]
  rfl

/-- A new source changes no commodity. -/
theorem map_commodity_modify (listings : List (Listing α)) (i : ℕ) (source : Source α) :
    (listings.modify i fun l => { l with source? := some source }).map Listing.commodity =
      listings.map Listing.commodity := by
  -- Only one place is written, and there only the source.
  refine List.ext_getElem? fun j => ?_
  rw [List.getElem?_map, List.getElem?_map, List.getElem?_modify]
  cases listings[j]? with
  | none => rfl
  | some l =>
    by_cases hij : i = j
    · simp [hij]
    · simp [hij]

/-- **Attaching a source.** -/
theorem Keeps.attach (hd : draft.Keeps h) (name : String) (source : Source α) :
    (draft.perform (.attach name source)).Keeps (h.note (.attach name source)) := by
  cases hfind : draft.find? name with
  | none =>
    rw [perform_attach_of_find?_eq_none hfind,
      DraftHistory.note_attach_of_notMem (hd.notMem_names hfind)]
    exact hd
  | some i =>
    have hknown := hd.mem_names hfind
    rw [perform_attach_of_find? hfind, DraftHistory.note_attach_of_mem hknown]
    constructor
    case commodities_eq => exact (map_commodity_modify ..).trans hd.commodities_eq
    case repeated => exact hd.repeated
    case source?_eq =>
      intro hnodup l hl
      obtain ⟨j, hj⟩ := List.mem_iff_getElem?.mp hl
      rw [List.getElem?_modify] at hj
      obtain ⟨old, hold, rfl⟩ := Option.map_eq_some_iff.mp hj
      have hname : h.names[j]? = some old.commodity.name := by
        rw [← hd.names_eq, List.getElem?_map, hold, Option.map_some]
      have hplace : draft.find? name = some j ↔ h.names[j]? = some name :=
        hd.find?_eq_some_iff hnodup
      rw [hfind, hname, Option.some_inj, Option.some_inj] at hplace
      by_cases hij : i = j
      · -- The commodity that was found has the new source.
        rw [if_pos hij, List.lookup_cons, beq_iff_eq.mpr (hplace.mp hij)]
      · -- Any other commodity has another name, and the source it had.
        rw [if_neg hij, List.lookup_cons, beq_eq_false_iff_ne.mpr (mt hplace.mpr hij)]
        exact hd.source?_eq hnodup old (List.mem_of_getElem? hold)
    case attached_mem =>
      intro entry hentry
      rcases List.mem_cons.mp hentry with rfl | hentry
      · exact hknown
      · exact hd.attached_mem entry hentry

/-- Each call is one of the two. -/
theorem Keeps.perform (hd : draft.Keeps h) (call : DraftCall α) :
    (draft.perform call).Keeps (h.note call) := by
  cases call with
  | register commodity => exact hd.register commodity
  | attach name source => exact hd.attach name source

/-- **A draft keeps its history**, whatever calls it was made by. -/
theorem Keeps.after (hd : draft.Keeps h) (calls : List (DraftCall α)) :
    (calls.foldl CatalogDraft.perform draft).Keeps (calls.foldl DraftHistory.note h) := by
  -- Call by call, from any draft that keeps its history.
  induction calls generalizing draft h with
  | nil => exact hd
  | cons call calls ih => exact ih (hd.perform call)

/-! ### Freezing -/

/-- The first negative price is found among the commodities as among the listings. -/
theorem Keeps.find?_registered (hd : draft.Keeps h) :
    h.registered.find? (fun commodity => commodity.basePrice < 0) =
      (draft.listings.find? fun l => l.commodity.basePrice < 0).map Listing.commodity := by
  rw [← hd.commodities_eq, List.find?_map]
  rfl

/-- **What becomes of a draft when it is frozen** depends on the names that were registered, and
then on the prices. -/
theorem Keeps.freeze_cases (hd : draft.Keeps h) :
    (h.names.Nodup ∧ (∀ commodity ∈ h.registered, 0 ≤ commodity.basePrice) ∧
      draft.freeze = .ok ⟨draft.listings⟩) ∨
    (∃ name, IsFirstRepeat h.names name ∧ draft.freeze = .error (.duplicate name)) ∨
    (h.names.Nodup ∧ ∃ commodity,
      h.registered.find? (fun commodity => commodity.basePrice < 0) = some commodity ∧
      draft.freeze = .error (.negativePrice commodity.name commodity.basePrice)) := by
  have hrepeated := hd.repeated
  have hprices := hd.find?_registered
  unfold freeze
  -- Prices are not looked at unless no name came twice.
  cases hlist : draft.repeated with
  | cons name rest =>
    rw [hlist] at hrepeated
    exact Or.inr (Or.inl ⟨name, hrepeated, rfl⟩)
  | nil =>
    rw [hlist] at hrepeated
    cases hfind : draft.listings.find? fun l => l.commodity.basePrice < 0 with
    | some l =>
      rw [hfind, Option.map_some] at hprices
      exact Or.inr (Or.inr ⟨hrepeated, l.commodity, hprices, rfl⟩)
    | none =>
      rw [hfind, Option.map_none, List.find?_eq_none] at hprices
      refine Or.inl ⟨hrepeated, fun commodity hmem => ?_, rfl⟩
      exact Int.not_lt.mp fun hnegative => hprices commodity hmem (decide_eq_true hnegative)

end CatalogDraft

namespace Catalog

/-- Where names differ, a commodity is found at its place. -/
theorem find?_eq_some_iff {catalog : Catalog α} {names : List String}
    (hnames : catalog.listings.map (·.commodity.name) = names) (hnodup : names.Nodup)
    {name : String} {i : ℕ} : catalog.find? name = some i ↔ names[i]? = some name := by
  subst hnames
  unfold find?
  rw [List.findIdx?_eq_some_iff_getElem, List.getElem?_eq_some_iff]
  simp only [List.length_map, List.getElem_map, beq_iff_eq]
  constructor
  · rintro ⟨hi, hname, -⟩
    exact ⟨hi, hname⟩
  · rintro ⟨hi, rfl⟩
    refine ⟨hi, rfl, ?_⟩
    intro j hj hsame
    -- Another place in front would have to be the same one.
    have hlt : j < (catalog.listings.map (·.commodity.name)).length := by
      rw [List.length_map]
      exact Nat.lt_trans hj hi
    have hij : j = i := by
      apply (List.getElem?_inj hlt hnodup).mp
      rw [List.getElem?_map, List.getElem?_map, List.getElem?_eq_getElem (Nat.lt_trans hj hi),
        List.getElem?_eq_getElem hi]
      exact congrArg some hsame
    exact absurd hij (Nat.ne_of_lt hj)

end Catalog

end GalaxyMarket
