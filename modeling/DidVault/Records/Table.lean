import DidVault.Bytes

/-!
# Tables

A table keeps values under byte-string keys, in the order of the keys.
`get?_insert` and `get?_erase` say what a lookup finds after a change.
-/

namespace DidVault

namespace Bytes

/-- No key comes before itself. -/
theorem before_irrefl (a : Bytes) : before a a = false := by
  induction a with
  | nil => rfl
  | cons x xs ih => simp [before, ih]

/-- The order of the keys is transitive. -/
theorem before_trans {a b c : Bytes} (hab : before a b = true)
    (hbc : before b c = true) : before a c = true := by
  induction a generalizing b c with
  | nil => cases c <;> cases b <;> simp_all [before]
  | cons x xs ih =>
    cases b with
    | nil => simp [before] at hab
    | cons y ys =>
      cases c with
      | nil => simp [before] at hbc
      | cons z zs =>
        simp only [before, UInt8.lt_iff_toNat_lt] at *
        repeat' split at *
        all_goals first
          | rfl
          | omega
          | exact ih hab hbc
          | simp_all

/-- Two keys, neither of which comes before the other, are equal. -/
theorem before_total {a b : Bytes} (hab : before a b = false)
    (hba : before b a = false) : a = b := by
  induction a generalizing b with
  | nil => cases b <;> simp_all [before]
  | cons x xs ih =>
    cases b with
    | nil => simp [before] at hba
    | cons y ys =>
      simp only [before, UInt8.lt_iff_toNat_lt] at *
      repeat' split at *
      all_goals first
        | simp_all; done
        | (have hxy : x = y := UInt8.toNat_inj.1 (by omega)
           rw [hxy, ih hab hba])

end Bytes

/-- Values under keys, in the order of the keys. -/
structure Table (β : Type) where
  entries : List (Bytes × β)
  sorted : entries.Pairwise fun a b => Bytes.before a.1 b.1 = true

namespace Table

variable {β : Type}

/-- The table without entries. -/
def empty : Table β := ⟨[], .nil⟩

/-- The value under a key in a list of entries. -/
def find? (key : Bytes) : List (Bytes × β) → Option β
  | [] => none
  | (k, v) :: rest => if k = key then some v else find? key rest

/-- The value under a key. -/
def get? (t : Table β) (key : Bytes) : Option β := find? key t.entries

/-- Puts a value under a key into sorted entries. -/
def put (key : Bytes) (value : β) : List (Bytes × β) → List (Bytes × β)
  | [] => [(key, value)]
  | (k, v) :: rest =>
    if k = key then (key, value) :: rest
    else if Bytes.before key k then (key, value) :: (k, v) :: rest
    else (k, v) :: put key value rest

/-- An entry after a write is the new one or was there before. -/
theorem mem_put {key : Bytes} {value : β} {entries : List (Bytes × β)}
    {e : Bytes × β} (h : e ∈ put key value entries) :
    e = (key, value) ∨ e ∈ entries := by
  induction entries with
  | nil => simpa [put] using h
  | cons a rest ih =>
    unfold put at h
    split at h
    · simp only [List.mem_cons] at h ⊢
      rcases h with h | h <;> simp [h]
    · split at h
      · simpa using h
      · simp only [List.mem_cons] at h ⊢
        rcases h with h | h
        · simp [h]
        · rcases ih h with h | h <;> simp [h]

/-- Writing keeps the entries sorted by their keys. -/
theorem sorted_put (key : Bytes) (value : β) {entries : List (Bytes × β)}
    (h : entries.Pairwise fun a b => Bytes.before a.1 b.1 = true) :
    (put key value entries).Pairwise fun a b =>
      Bytes.before a.1 b.1 = true := by
  induction entries with
  | nil => simp [put]
  | cons a rest ih =>
    rw [List.pairwise_cons] at h
    unfold put
    split
    · next hk => exact List.pairwise_cons.2 ⟨fun b hb => hk ▸ h.1 b hb, h.2⟩
    · next hk =>
      split
      · next hb =>
        refine List.pairwise_cons.2 ⟨fun b hmem => ?_, List.pairwise_cons.2 h⟩
        rcases List.mem_cons.1 hmem with rfl | hmem
        · exact hb
        · exact Bytes.before_trans hb (h.1 b hmem)
      · next hb =>
        refine List.pairwise_cons.2 ⟨fun b hmem => ?_, ih h.2⟩
        rcases mem_put hmem with rfl | hmem
        · cases hc : Bytes.before a.1 key with
          | true => rfl
          | false =>
            exact absurd (Bytes.before_total hc (by simpa using hb)) hk
        · exact h.1 b hmem

/-- Puts a value under a key. -/
def insert (t : Table β) (key : Bytes) (value : β) : Table β :=
  ⟨put key value t.entries, sorted_put key value t.sorted⟩

/-- Removes what is under a key. -/
def erase (t : Table β) (key : Bytes) : Table β :=
  ⟨t.entries.filter (·.1 != key), t.sorted.filter _⟩

/-- How many keys have a value. -/
def size (t : Table β) : Nat := t.entries.length

/-- The entries whose keys begin with `start`, in the order of the keys. -/
def startingWith (t : Table β) (start : Bytes) : List (Bytes × β) :=
  t.entries.filter fun e => start.isPrefixOf e.1

/-- After a write its key has the new value, and every other key the old one. -/
theorem find?_put (key k : Bytes) (value : β) (entries : List (Bytes × β)) :
    find? k (put key value entries) = if key =
      k then some value else find? k entries := by
  induction entries with
  | nil => simp [put, find?]
  | cons a rest ih =>
    unfold put
    split
    · next hk => subst hk; simp only [find?]; split <;> simp_all
    · split
      · simp only [find?]
      · next hk _ =>
        simp only [find?, ih]
        by_cases ha : a.1 = k
        · have : key ≠ k := fun h => hk (ha.trans h.symm)
          simp [ha, this]
        · simp [ha]

/-- After a removal its key has no value, and every other key the old one. -/
theorem find?_filter (key k : Bytes) (entries : List (Bytes × β)) :
    find? k (entries.filter (·.1 != key)) = if key =
      k then none else find? k entries := by
  induction entries with
  | nil => simp [find?]
  | cons a rest ih =>
    by_cases ha : a.1 = key
    · simp only [List.filter, ha, bne_self_eq_false, ih, find?]
      by_cases hk : key = k <;> simp [hk]
    · have : (a.1 != key) = true := by simpa using ha
      simp only [List.filter, this, find?, ih]
      by_cases hk : key = k
      · subst hk; simp [ha]
      · simp [hk]

/-- The empty table has no values. -/
@[simp] theorem get?_empty (k : Bytes) : (empty : Table β).get? k = none := rfl

/-- Looking a key up after an insertion finds the new value or the old one. -/
theorem get?_insert (t : Table β) (key k : Bytes) (value : β) :
    (t.insert key value).get? k = if key = k then some value else t.get? k :=
  find?_put key k value t.entries

/-- Looking a key up after an erasure finds nothing or the old value. -/
theorem get?_erase (t : Table β) (key k : Bytes) :
    (t.erase key).get? k = if key = k then none else t.get? k :=
  find?_filter key k t.entries

end Table

end DidVault
