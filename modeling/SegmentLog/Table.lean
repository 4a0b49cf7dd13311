/-!
# Ordered tables

A finite map as a list of entries with strictly ascending keys. Everything that a log shows
in key order (segment listings, pins, recovered counters) is such a table, so the order is
part of the type rather than of each place that prints it.

`get?_insert` and `get?_erase` say what the operations do to look-up; `Sorted.insert` and
`Sorted.erase` say that they keep the order.
-/

namespace SegmentLog

abbrev Table (κ α : Type) := List (κ × α)

namespace Table

variable {κ α : Type}

/-- Every key stands strictly below the keys after it. -/
def Sorted [LT κ] (t : Table κ α) : Prop :=
  t.Pairwise (·.1 < ·.1)

def keys (t : Table κ α) : List κ :=
  t.map (·.1)

def get? [DecidableEq κ] (t : Table κ α) (k : κ) : Option α :=
  (t.find? (·.1 = k)).map (·.2)

def contains [DecidableEq κ] (t : Table κ α) (k : κ) : Bool :=
  (t.get? k).isSome

/-- Enter a value, replacing the one its key had. -/
def insert [DecidableEq κ] [LT κ] [DecidableLT κ] (k : κ) (a : α) : Table κ α → Table κ α
  | [] => [(k, a)]
  | e :: es =>
    if k < e.1 then (k, a) :: e :: es
    else if k = e.1 then (k, a) :: es
    else e :: insert k a es

def erase [DecidableEq κ] (t : Table κ α) (k : κ) : Table κ α :=
  t.filter (·.1 ≠ k)

/-- The entry with the lowest key. -/
def first? (t : Table κ α) : Option (κ × α) :=
  t.head?

@[simp] theorem get?_nil [DecidableEq κ] (k : κ) : get? ([] : Table κ α) k = none := rfl

theorem get?_cons [DecidableEq κ] (e : κ × α) (t : Table κ α) (k : κ) :
    get? (e :: t) k = if e.1 = k then some e.2 else t.get? k := by
  by_cases h : e.1 = k <;> simp [get?, h]

theorem get?_insert [DecidableEq κ] [LT κ] [DecidableLT κ] (t : Table κ α) (k k' : κ) (a : α) :
    (t.insert k a).get? k' = if k = k' then some a else t.get? k' := by
  induction t with
  | nil => simp [insert, get?_cons]
  | cons e es ih =>
    by_cases hlt : k < e.1
    · simp [insert, hlt, get?_cons]
    · by_cases heq : k = e.1
      · by_cases hk : k = k' <;> simp_all [insert, get?_cons]
      · by_cases hk : e.1 = k' <;> grind [insert, get?_cons]

theorem get?_erase [DecidableEq κ] (t : Table κ α) (k k' : κ) :
    (t.erase k).get? k' = if k' = k then none else t.get? k' := by
  induction t with
  | nil => simp [erase]
  | cons e es ih =>
    by_cases h : e.1 = k <;> grind [erase, get?_cons]

theorem mem_keys_insert [DecidableEq κ] [LT κ] [DecidableLT κ] {t : Table κ α} {k k' : κ} {a : α}
    (h : k' ∈ (t.insert k a).keys) : k' = k ∨ k' ∈ t.keys := by
  induction t with
  | nil => simpa [insert, keys] using h
  | cons e es ih => grind [insert, keys]

/-- Entering a value keeps the order, where keys are linearly ordered. -/
theorem Sorted.insert [DecidableEq κ] [LT κ] [DecidableLT κ]
    (lt_trans : ∀ {k₁ k₂ k₃ : κ}, k₁ < k₂ → k₂ < k₃ → k₁ < k₃)
    (lt_of_not_lt : ∀ {k₁ k₂ : κ}, ¬k₁ < k₂ → k₁ ≠ k₂ → k₂ < k₁)
    {t : Table κ α} (h : t.Sorted) (k : κ) (a : α) : (t.insert k a).Sorted := by
  induction t with
  | nil => simp [Table.insert, Sorted]
  | cons e es ih =>
    obtain ⟨below, sorted⟩ := List.pairwise_cons.mp h
    unfold Table.insert
    split
    · rename_i hlt
      refine List.pairwise_cons.mpr ⟨fun x hx => ?_, h⟩
      rcases List.mem_cons.mp hx with rfl | hx
      · exact hlt
      · exact lt_trans hlt (below x hx)
    · rename_i hlt
      split
      · rename_i heq
        exact List.pairwise_cons.mpr ⟨fun x hx => heq ▸ below x hx, sorted⟩
      · rename_i hne
        refine List.pairwise_cons.mpr ⟨fun x hx => ?_, ih sorted⟩
        rcases mem_keys_insert (List.mem_map_of_mem hx) with hk | hk
        · exact hk ▸ lt_of_not_lt hlt hne
        · obtain ⟨y, hy, hxy⟩ := List.mem_map.mp hk
          exact hxy ▸ below y hy

theorem Sorted.erase [DecidableEq κ] [LT κ] {t : Table κ α} (h : t.Sorted) (k : κ) :
    (t.erase k).Sorted :=
  List.Pairwise.filter _ h

end Table

end SegmentLog
