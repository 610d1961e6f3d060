/-!
Tables from names to values.

A table lists its entries by increasing name, so equal tables have equal entries and a listing
needs no sorting. Names are compared by code points, which is also the order of their UTF-8
bytes.

Main statements: a name that was put is found with its value (`get?_put_self`), other names are
untouched (`get?_put_of_ne`), and a table is determined by what is found in it (`ext_get?`).
-/
namespace Metering

/-- A finite map from names to values. -/
structure Table (α : Type) where
  entries : List (String × α)
  ordered : entries.Pairwise fun a b => a.1 < b.1

namespace Table

/-- The value of a name among entries. -/
def find (key : String) : List (String × α) → Option α
  | [] => none
  | (k, v) :: rest => if k = key then some v else find key rest

/-- The entries with a name put in its place; an equal name gets the new value. -/
def putEntry (key : String) (value : α) : List (String × α) → List (String × α)
  | [] => [(key, value)]
  | (k, v) :: rest =>
    if key < k then (key, value) :: (k, v) :: rest
    else if k < key then (k, v) :: putEntry key value rest
    else (key, value) :: rest

theorem lt_or_eq_or_lt (a b : String) : a < b ∨ a = b ∨ b < a := by
  by_cases h : a < b
  · exact .inl h
  · by_cases h' : b < a
    · exact .inr (.inr h')
    · exact .inr (.inl (String.le_antisymm (String.not_lt.mp h') (String.not_lt.mp h)))

theorem mem_putEntry {key : String} {value : α} {l : List (String × α)} {e : String × α}
    (h : e ∈ putEntry key value l) : e = (key, value) ∨ e ∈ l := by
  induction l with
  | nil => simp [putEntry] at h; exact .inl h
  | cons head rest ih =>
    obtain ⟨k, v⟩ := head
    simp only [putEntry] at h
    split at h
    · simpa using h
    · split at h
      · rcases List.mem_cons.mp h with h | h
        · exact .inr (by simp [h])
        · rcases ih h with h | h
          · exact .inl h
          · exact .inr (by simp [h])
      · rcases List.mem_cons.mp h with h | h
        · exact .inl h
        · exact .inr (by simp [h])

theorem ordered_putEntry {l : List (String × α)} (h : l.Pairwise fun a b => a.1 < b.1)
    (key : String) (value : α) : (putEntry key value l).Pairwise fun a b => a.1 < b.1 := by
  induction l with
  | nil => simp [putEntry]
  | cons head rest ih =>
    obtain ⟨k, v⟩ := head
    obtain ⟨hk, hrest⟩ := List.pairwise_cons.mp h
    simp only [putEntry]
    split
    · rename_i hlt
      refine List.pairwise_cons.mpr ⟨?_, h⟩
      intro e he
      rcases List.mem_cons.mp he with rfl | he
      · exact hlt
      · exact String.lt_trans hlt (hk e he)
    · split
      · rename_i hlt
        refine List.pairwise_cons.mpr ⟨?_, ih hrest⟩
        intro e he
        rcases mem_putEntry he with rfl | he
        · exact hlt
        · exact hk e he
      · rename_i h1 h2
        have he : k = key := by
          rcases lt_or_eq_or_lt key k with h | h | h
          · exact absurd h h1
          · exact h.symm
          · exact absurd h h2
        subst he
        exact List.pairwise_cons.mpr ⟨hk, hrest⟩

/-- The table without entries. -/
def empty : Table α := ⟨[], List.Pairwise.nil⟩

instance : Inhabited (Table α) := ⟨empty⟩

instance [DecidableEq α] : DecidableEq (Table α) := fun a b =>
  decidable_of_iff (a.entries = b.entries) (by cases a; cases b; simp)

/-- The value of a name. -/
def get? (t : Table α) (key : String) : Option α := find key t.entries

/-- The table with a name's value replaced or added. -/
def put (t : Table α) (key : String) (value : α) : Table α :=
  ⟨putEntry key value t.entries, ordered_putEntry t.ordered key value⟩

/-- The table without a name. -/
def erase (t : Table α) (key : String) : Table α :=
  ⟨t.entries.filter fun e => e.1 != key, t.ordered.filter _⟩

/-- The names, in increasing order. -/
def names (t : Table α) : List String := t.entries.map Prod.fst

/-- The table of a list of entries; later values of a name win. -/
def ofList (l : List (String × α)) : Table α := l.foldl (fun t e => t.put e.1 e.2) empty

@[simp] theorem get?_empty (key : String) : (empty : Table α).get? key = none := rfl

theorem find_putEntry_self (key : String) (value : α) (l : List (String × α)) :
    find key (putEntry key value l) = some value := by
  induction l with
  | nil => simp [putEntry, find]
  | cons head rest ih =>
    obtain ⟨k, v⟩ := head
    simp only [putEntry]
    split
    · simp [find]
    · split
      · rename_i hlt
        have : k ≠ key := fun h => String.lt_irrefl key (h ▸ hlt)
        simp [find, this, ih]
      · simp [find]

theorem find_putEntry_of_ne {key other : String} (h : other ≠ key) (value : α)
    (l : List (String × α)) : find other (putEntry key value l) = find other l := by
  induction l with
  | nil => simp [putEntry, find, Ne.symm h]
  | cons head rest ih =>
    obtain ⟨k, v⟩ := head
    simp only [putEntry]
    split
    · simp [find, Ne.symm h]
    · split
      · simp [find, ih]
      · rename_i h1 h2
        have he : k = key := by
          rcases lt_or_eq_or_lt key k with h | h | h
          · exact absurd h h1
          · exact h.symm
          · exact absurd h h2
        simp [find, he, Ne.symm h]

@[simp] theorem get?_put_self (t : Table α) (key : String) (value : α) :
    (t.put key value).get? key = some value := find_putEntry_self key value t.entries

theorem get?_put_of_ne (t : Table α) {key other : String} (h : other ≠ key) (value : α) :
    (t.put key value).get? other = t.get? other := find_putEntry_of_ne h value t.entries

theorem find_eq_none_of_lt {l : List (String × α)} {key : String}
    (h : ∀ e ∈ l, key < e.1) : find key l = none := by
  induction l with
  | nil => rfl
  | cons head rest ih =>
    have hne : head.1 ≠ key := fun he => String.lt_irrefl key (by
      have := h head (by simp)
      rwa [he] at this)
    simp [find, hne, ih fun e he => h e (by simp [he])]

theorem entries_ext {l m : List (String × α)} (hl : l.Pairwise fun a b => a.1 < b.1)
    (hm : m.Pairwise fun a b => a.1 < b.1) (h : ∀ key, find key l = find key m) : l = m := by
  induction l generalizing m with
  | nil =>
    cases m with
    | nil => rfl
    | cons e rest => have := h e.1; simp [find] at this
  | cons a l ih =>
    cases m with
    | nil => have := h a.1; simp [find] at this
    | cons b m =>
      obtain ⟨ha, hl⟩ := List.pairwise_cons.mp hl
      obtain ⟨hb, hm⟩ := List.pairwise_cons.mp hm
      have hkey : a.1 = b.1 := by
        rcases lt_or_eq_or_lt a.1 b.1 with hlt | heq | hlt
        · have := h a.1
          rw [find_eq_none_of_lt (l := b :: m)] at this
          · simp [find] at this
          · intro e he
            rcases List.mem_cons.mp he with rfl | he
            · exact hlt
            · exact String.lt_trans hlt (hb e he)
        · exact heq
        · have := h b.1
          rw [find_eq_none_of_lt (l := a :: l)] at this
          · simp [find] at this
          · intro e he
            rcases List.mem_cons.mp he with rfl | he
            · exact hlt
            · exact String.lt_trans hlt (ha e he)
      have hval : a.2 = b.2 := by
        have := h a.1
        simpa [find, hkey] using this
      have hrest : l = m := by
        refine ih hl hm fun key => ?_
        by_cases hk : key = a.1
        · rw [find_eq_none_of_lt (hk ▸ ha), find_eq_none_of_lt (by rw [hk, hkey]; exact hb)]
        · have := h key
          have hkb : ¬ b.1 = key := fun hb => hk (hb.symm.trans hkey.symm)
          simpa [find, Ne.symm hk, hkb] using this
      rw [hrest, Prod.ext hkey hval]

theorem ext_get? {a b : Table α} (h : ∀ key, a.get? key = b.get? key) : a = b := by
  have := entries_ext a.ordered b.ordered h
  cases a; cases b; simp_all

theorem find_eq_some_iff {l : List (String × α)} (h : l.Pairwise fun a b => a.1 < b.1)
    {key : String} {value : α} : find key l = some value ↔ (key, value) ∈ l := by
  induction l with
  | nil => simp [find]
  | cons head rest ih =>
    obtain ⟨k, v⟩ := head
    obtain ⟨hk, hrest⟩ := List.pairwise_cons.mp h
    by_cases hkey : k = key
    · subst hkey
      have hnot : (k, value) ∉ rest := fun hmem => String.lt_irrefl k (hk _ hmem)
      simp [find, hnot, eq_comm]
    · simp [find, hkey, ih hrest, Ne.symm hkey]

/-- The entries of a table are the names that are found in it, with their values. -/
theorem get?_eq_some_iff (t : Table α) {key : String} {value : α} :
    t.get? key = some value ↔ (key, value) ∈ t.entries := find_eq_some_iff t.ordered

/-! ## Entries that are put one after another -/

/-- A name behind all others goes to the end. -/
theorem putEntry_of_lt {es : List (String × α)} {key : String} (h : ∀ e ∈ es, e.1 < key)
    (value : α) : putEntry key value es = es ++ [(key, value)] := by
  induction es with
  | nil => rfl
  | cons e es ih =>
    obtain ⟨k, v⟩ := e
    obtain ⟨hk, hes⟩ := List.forall_mem_cons.mp h
    rw [putEntry, if_neg (String.lt_asymm hk), if_pos hk, ih hes]
    rfl

theorem putEntry_perm {key : String} {value : α} {l : List (String × α)}
    (h : key ∉ l.map Prod.fst) : (putEntry key value l).Perm ((key, value) :: l) := by
  induction l with
  | nil => exact .refl _
  | cons head rest ih =>
    obtain ⟨k, v⟩ := head
    rw [List.map_cons, List.mem_cons, not_or] at h
    unfold putEntry
    split
    next => exact .refl _
    next hnot =>
      split
      next => exact ((ih h.2).cons _).trans (.swap _ _ _)
      next hnot' =>
        rcases lt_or_eq_or_lt key k with hlt | heq | hlt
        · exact absurd hlt hnot
        · exact absurd heq h.1
        · exact absurd hlt hnot'

/-- Entries in order keep their places. -/
theorem foldl_putEntry_of_ordered (l held : List (String × α))
    (h : (held ++ l).Pairwise fun a b => a.1 < b.1) :
    l.foldl (fun acc e => putEntry e.1 e.2 acc) held = held ++ l := by
  induction l generalizing held with
  | nil => simp
  | cons e l ih =>
    have hlast : ∀ x ∈ held, x.1 < e.1 := fun x hx =>
      (List.pairwise_append.mp h).2.2 x hx e List.mem_cons_self
    rw [List.foldl_cons, putEntry_of_lt hlast, ih _ (by simpa using h)]
    simp

/-- Entries in any order come to stand in the order of their names. -/
theorem foldl_putEntry_perm (l held : List (String × α))
    (h : ((held ++ l).map Prod.fst).Nodup) :
    (l.foldl (fun acc e => putEntry e.1 e.2 acc) held).Perm (held ++ l) := by
  induction l generalizing held with
  | nil => simp
  | cons e l ih =>
    have hmiddle : (held ++ e :: l).Perm (e :: held ++ l) := List.perm_middle
    have hnodup := (hmiddle.map Prod.fst).nodup_iff.mp h
    have hnew : e.1 ∉ held.map Prod.fst := by
      rw [List.cons_append, List.map_cons, List.nodup_cons, List.map_append, List.mem_append,
        not_or] at hnodup
      exact hnodup.1.1
    have hput : (putEntry e.1 e.2 held ++ l).Perm (e :: held ++ l) :=
      (putEntry_perm hnew).append_right l
    rw [List.foldl_cons]
    refine (ih _ ?_).trans (hput.trans hmiddle.symm)
    exact (hput.map Prod.fst).nodup_iff.mpr hnodup

theorem ordered_foldl_putEntry (l held : List (String × α))
    (h : held.Pairwise fun a b => a.1 < b.1) :
    (l.foldl (fun acc e => putEntry e.1 e.2 acc) held).Pairwise fun a b => a.1 < b.1 := by
  induction l generalizing held with
  | nil => exact h
  | cons e l ih => exact ih _ (ordered_putEntry h e.1 e.2)

end Table
end Metering
