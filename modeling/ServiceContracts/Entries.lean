/-!
# Insertion-ordered entries

The maps of this library keep the order in which their keys first came: a payload's members, an
instance's fields, a registry's services. Such a map is its list of entries, and the operations here keep
the keys distinct: overwriting a key keeps its place (`keys_set_of_mem`), a new key goes last
(`keys_set_of_notMem`), and erasing one leaves the order of the others alone (`keys_erase`).
-/

namespace ServiceContracts

/-- Entries in the order in which their keys first came. -/
abbrev Entries (κ α : Type) := List (κ × α)

namespace Entries

variable {κ α : Type} [DecidableEq κ]

/-- The keys, in order. -/
def keys (m : Entries κ α) : List κ := m.map Prod.fst

/-- The value kept under a key. -/
def get? : Entries κ α → κ → Option α
  | [], _ => none
  | (k, v) :: rest, key => if k = key then some v else get? rest key

/-- Is there an entry for the key? -/
def has (m : Entries κ α) (key : κ) : Bool := (get? m key).isSome

/-- Puts a value under a key: in the key's place if it has one, else at the end. -/
def set : Entries κ α → κ → α → Entries κ α
  | [], key, value => [(key, value)]
  | (k, v) :: rest, key, value =>
    if k = key then (k, value) :: rest else (k, v) :: set rest key value

/-- Takes a key out and closes the gap. -/
def erase : Entries κ α → κ → Entries κ α
  | [], _ => []
  | (k, v) :: rest, key => if k = key then rest else (k, v) :: erase rest key

/-- Puts a value under a key as `set` does, and gives back the value that it replaces. -/
def put : Entries κ α → κ → α → Option α × Entries κ α
  | [], key, value => (none, [(key, value)])
  | (k, v) :: rest, key, value =>
    if k = key then (some v, (k, value) :: rest)
    else
      let (replaced, rest) := put rest key value
      (replaced, (k, v) :: rest)

/-- Takes a key out as `erase` does, and gives back the value that it had. -/
def pop : Entries κ α → κ → Option α × Entries κ α
  | [], _ => (none, [])
  | (k, v) :: rest, key =>
    if k = key then (some v, rest)
    else
      let (removed, rest) := pop rest key
      (removed, (k, v) :: rest)

/-- Sets the given entries one after the other. -/
def ofList (entries : List (κ × α)) : Entries κ α :=
  entries.foldl (fun m e => set m e.1 e.2) []

/-! ## What the operations do to look-up and to order -/

@[simp] theorem get?_nil (key : κ) : get? ([] : Entries κ α) key = none := rfl

theorem get?_set (m : Entries κ α) (key other : κ) (value : α) :
    get? (set m key value) other = if key = other then some value else get? m other := by
  induction m with
  | nil => simp [set, get?]
  | cons e rest ih =>
    obtain ⟨k, v⟩ := e
    by_cases hk : k = key
    · subst hk
      by_cases ho : k = other <;> simp [set, get?, ho]
    · by_cases ho : k = other
      · subst ho
        simp [set, get?, hk, Ne.symm hk]
      · simp [set, get?, hk, ho, ih]

theorem get?_eq_none_iff {m : Entries κ α} {key : κ} : get? m key = none ↔ key ∉ keys m := by
  induction m with
  | nil => simp [keys]
  | cons e rest ih =>
    obtain ⟨k, v⟩ := e
    by_cases hk : k = key
    · simp [get?, keys, hk]
    · simpa [get?, keys, hk, Ne.symm hk] using ih

theorem has_iff {m : Entries κ α} {key : κ} : has m key = true ↔ key ∈ keys m := by
  rw [has, Option.isSome_iff_ne_none, ne_eq, get?_eq_none_iff, Decidable.not_not]

/-- Overwriting keeps every key in its place. -/
theorem keys_set_of_mem {m : Entries κ α} {key : κ} (h : key ∈ keys m) (value : α) :
    keys (set m key value) = keys m := by
  induction m with
  | nil => simp [keys] at h
  | cons e rest ih =>
    obtain ⟨k, v⟩ := e
    by_cases hk : k = key
    · simp [set, keys, hk]
    · have hrest : key ∈ keys rest := by simpa [keys, Ne.symm hk] using h
      simpa [set, keys, hk] using ih hrest

/-- A new key goes last. -/
theorem keys_set_of_notMem {m : Entries κ α} {key : κ} (h : key ∉ keys m) (value : α) :
    keys (set m key value) = keys m ++ [key] := by
  induction m with
  | nil => simp [set, keys]
  | cons e rest ih =>
    obtain ⟨k, v⟩ := e
    have hk : k ≠ key := fun hk => h (by simp [keys, hk])
    have hrest : key ∉ keys rest := fun hr => h (List.mem_cons_of_mem k hr)
    simpa [set, keys, hk] using ih hrest

theorem mem_keys_set_iff {m : Entries κ α} {key other : κ} {value : α} :
    other ∈ keys (set m key value) ↔ other = key ∨ other ∈ keys m := by
  rw [← has_iff, ← has_iff, has, get?_set, has]
  split
  · rename_i heq
    simp [heq]
  · rename_i hne
    simp [Ne.symm hne]

/-- Setting a new key puts its entry last. -/
theorem set_of_notMem {m : Entries κ α} {key : κ} (h : key ∉ keys m) (value : α) :
    set m key value = m ++ [(key, value)] := by
  induction m with
  | nil => rfl
  | cons e rest ih =>
    obtain ⟨k, v⟩ := e
    obtain ⟨hne, hrest⟩ : key ≠ k ∧ key ∉ keys rest := by simpa [keys] using h
    rw [set, if_neg (Ne.symm hne), ih hrest, List.cons_append]

/-- Setting a key keeps the keys distinct. -/
theorem nodup_keys_set {m : Entries κ α} (h : (keys m).Nodup) (key : κ) (value : α) :
    (keys (set m key value)).Nodup := by
  by_cases hmem : key ∈ keys m
  · rw [keys_set_of_mem hmem]
    exact h
  · rw [keys_set_of_notMem hmem]
    refine List.nodup_append.mpr ⟨h, by simp, fun a ha b hb => ?_⟩
    obtain rfl := List.mem_singleton.mp hb
    exact fun heq => hmem (heq ▸ ha)

theorem mem_of_mem_set {m : Entries κ α} {key : κ} {value : α} {e : κ × α}
    (h : e ∈ set m key value) : e ∈ m ∨ e = (key, value) := by
  induction m with
  | nil => exact .inr (List.mem_singleton.mp h)
  | cons first rest ih =>
    obtain ⟨k, v⟩ := first
    by_cases hk : k = key
    · rw [set, if_pos hk] at h
      rcases List.mem_cons.mp h with rfl | hrest
      · exact .inr (by rw [hk])
      · exact .inl (List.mem_cons_of_mem _ hrest)
    · rw [set, if_neg hk] at h
      rcases List.mem_cons.mp h with rfl | hrest
      · exact .inl List.mem_cons_self
      · exact (ih hrest).imp_left (List.mem_cons_of_mem _)

/-- What is given back is what the key had. -/
theorem put_eq (m : Entries κ α) (key : κ) (value : α) :
    put m key value = (get? m key, set m key value) := by
  induction m with
  | nil => rfl
  | cons e rest ih =>
    obtain ⟨k, v⟩ := e
    by_cases hk : k = key
    · simp [put, get?, set, hk]
    · simp [put, get?, set, hk, ih]

theorem pop_eq (m : Entries κ α) (key : κ) : pop m key = (get? m key, erase m key) := by
  induction m with
  | nil => rfl
  | cons e rest ih =>
    obtain ⟨k, v⟩ := e
    by_cases hk : k = key
    · simp [pop, get?, erase, hk]
    · simp [pop, get?, erase, hk, ih]

theorem keys_erase (m : Entries κ α) (key : κ) : keys (erase m key) = (keys m).erase key := by
  induction m with
  | nil => rfl
  | cons e rest ih =>
    obtain ⟨k, v⟩ := e
    by_cases hk : k = key
    · simp [erase, keys, hk]
    · simpa [erase, keys, hk, List.erase_cons] using ih

theorem get?_erase {m : Entries κ α} (h : (keys m).Nodup) (key other : κ) :
    get? (erase m key) other = if key = other then none else get? m other := by
  induction m with
  | nil => simp [erase]
  | cons e rest ih =>
    obtain ⟨k, v⟩ := e
    obtain ⟨hk, hrest⟩ : k ∉ keys rest ∧ (keys rest).Nodup := List.nodup_cons.mp h
    by_cases hkey : k = key
    · subst hkey
      by_cases ho : k = other
      · subst ho
        simp [erase, get?_eq_none_iff.mpr hk]
      · simp [erase, get?, ho]
    · by_cases ho : key = other
      · subst ho
        simpa [erase, get?, hkey] using ih hrest
      · simp [erase, get?, hkey, ho, ih hrest]

/-! ## Entries listed one by one -/

omit [DecidableEq κ] in
@[simp] theorem keys_map {β : Type} (key : β → κ) (value : β → α) (list : List β) :
    keys (list.map fun b => (key b, value b)) = list.map key := by
  simp [keys]

theorem get?_eq_some_of_mem {m : Entries κ α} (hnodup : (keys m).Nodup) {key : κ} {value : α}
    (h : (key, value) ∈ m) : get? m key = some value := by
  induction m with
  | nil => simp at h
  | cons e rest ih =>
    obtain ⟨k, v⟩ := e
    obtain ⟨hk, hrest⟩ : k ∉ keys rest ∧ (keys rest).Nodup := List.nodup_cons.mp hnodup
    rcases List.mem_cons.mp h with heq | hmem
    · obtain ⟨rfl, rfl⟩ := Prod.mk.inj heq
      simp [get?]
    · have hne : k ≠ key := fun heq => hk (heq ▸ List.mem_map_of_mem hmem)
      simpa [get?, hne] using ih hrest hmem

theorem mem_of_get?_eq_some {m : Entries κ α} {key : κ} {value : α}
    (h : get? m key = some value) : (key, value) ∈ m := by
  induction m with
  | nil => simp at h
  | cons e rest ih =>
    obtain ⟨k, v⟩ := e
    by_cases hk : k = key
    · obtain rfl : v = value := by simpa [get?, hk] using h
      simp [hk]
    · exact List.mem_cons_of_mem _ (ih (by simpa [get?, hk] using h))

/-- What distinct keys are found to hold. -/
theorem get?_eq_some_iff {m : Entries κ α} (hnodup : (keys m).Nodup) {key : κ} {value : α} :
    get? m key = some value ↔ (key, value) ∈ m :=
  ⟨mem_of_get?_eq_some, get?_eq_some_of_mem hnodup⟩

/-- Among distinct keys, the entry listed for an item is the one found. -/
theorem get?_map {β : Type} {key : β → κ} {list : List β} (hnodup : (list.map key).Nodup)
    (value : β → α) {b : β} (hb : b ∈ list) :
    get? (list.map fun b => (key b, value b)) (key b) = some (value b) :=
  get?_eq_some_of_mem (by simpa using hnodup) (List.mem_map_of_mem hb)

/-- The same for a list that has an entry for some items only. -/
theorem get?_filterMap {β : Type} {key : β → κ} {list : List β} (hnodup : (list.map key).Nodup)
    (value : β → Option α) {b : β} (hb : b ∈ list) :
    get? (list.filterMap fun b => (value b).map fun v => (key b, v)) (key b) = value b := by
  induction list with
  | nil => simp at hb
  | cons c rest ih =>
    obtain ⟨hc, hrest⟩ : key c ∉ rest.map key ∧ (rest.map key).Nodup := List.nodup_cons.mp hnodup
    rcases List.mem_cons.mp hb with rfl | hmem
    · cases hv : value b with
      | some v => simp [hv, get?]
      | none =>
        simp only [List.filterMap_cons, hv, Option.map_none]
        rw [get?_eq_none_iff]
        intro hk
        obtain ⟨e, he, heq⟩ := List.mem_map.mp hk
        obtain ⟨c, hmem, hv'⟩ := List.mem_filterMap.mp he
        obtain ⟨w, -, rfl⟩ := Option.map_eq_some_iff.mp hv'
        exact hc (heq ▸ List.mem_map_of_mem hmem)
    · have hne : key c ≠ key b := fun heq => hc (heq ▸ List.mem_map_of_mem hmem)
      cases hv : value c with
      | some v => simpa [hv, get?, hne] using ih hrest hmem
      | none => simpa [hv] using ih hrest hmem

end Entries

end ServiceContracts
