/-!
Dictionaries as lists of pairs in the order in which their keys first came.

The order is part of what programs show, so a dictionary is its list of entries. Putting a value
under a key that is already there keeps the key's place and replaces the value.
-/

set_option autoImplicit false

namespace Boli

/-- Entries in the order in which their keys were first put. -/
abbrev Dictionary (κ : Type) (ν : Type) : Type := List (κ × ν)

namespace Dictionary

variable {κ ν : Type} [DecidableEq κ]

/-- The value under a key, if there is one. -/
def get? (k : κ) : Dictionary κ ν → Option ν
  | [] => none
  | (k', v) :: rest => if k' = k then some v else get? k rest

/-- Puts a value under a key: in place of the old one, or as a new last entry. -/
def put (k : κ) (v : ν) : Dictionary κ ν → Dictionary κ ν
  | [] => [(k, v)]
  | (k', v') :: rest => if k' = k then (k', v) :: rest else (k', v') :: put k v rest

/-- Puts entries one after the other. -/
def putAll (d : Dictionary κ ν) (entries : List (κ × ν)) : Dictionary κ ν :=
  entries.foldl (fun d e => put e.1 e.2 d) d

/-- The keys in order. -/
def keys (d : Dictionary κ ν) : List κ := d.map Prod.fst

/-- After a put, the key holds the new value and every other key what it held. -/
theorem get?_put (k k' : κ) (v : ν) (d : Dictionary κ ν) :
    get? k' (put k v d) = if k = k' then some v else get? k' d := by
  induction d with
  | nil => simp [put, get?]
  | cons e rest ih =>
    obtain ⟨k₀, v₀⟩ := e
    by_cases h : k₀ = k
    · subst h; by_cases h' : k₀ = k' <;> simp [put, get?, h']
    · by_cases h' : k₀ = k'
      · subst h'; simp [put, get?, h, Ne.symm h]
      · simp [put, get?, h, h', ih]

/-- Of two values under one key the later one stays, at the place of the earlier one. -/
theorem put_put (k : κ) (v v' : ν) (d : Dictionary κ ν) : put k v (put k v' d) = put k v d := by
  induction d with
  | nil => simp [put]
  | cons e rest ih =>
    obtain ⟨k₀, v₀⟩ := e
    by_cases h : k₀ = k
    · simp [put, h]
    · simp [put, h, ih]

/-- A put of what is there changes nothing. -/
theorem put_of_get? {k : κ} {v : ν} {d : Dictionary κ ν} (h : d.get? k = some v) :
    put k v d = d := by
  induction d with
  | nil => cases h
  | cons e rest ih =>
    obtain ⟨k₀, v₀⟩ := e
    by_cases hkey : k₀ = k
    · rw [get?, if_pos hkey, Option.some.injEq] at h
      rw [put, if_pos hkey, h]
    · rw [get?, if_neg hkey] at h
      rw [put, if_neg hkey, ih h]

/-- A key that is there keeps its place, and a new one becomes the last. -/
theorem keys_put (k : κ) (v : ν) (d : Dictionary κ ν) :
    (put k v d).keys = if k ∈ d.keys then d.keys else d.keys ++ [k] := by
  induction d with
  | nil => simp [put, keys]
  | cons e rest ih =>
    obtain ⟨k₀, v₀⟩ := e
    by_cases h : k₀ = k
    · subst h; simp [put, keys]
    · have ih' : List.map Prod.fst (put k v rest) = _ := ih
      have h' : ¬k = k₀ := fun e => h e.symm
      simp only [put, h, if_false, keys, List.map_cons, ih', List.mem_cons, h', false_or]
      split <;> simp_all [keys]

/-- Putting never repeats a key. -/
theorem nodup_keys_put (k : κ) (v : ν) {d : Dictionary κ ν} (h : d.keys.Nodup) :
    (put k v d).keys.Nodup := by
  rw [keys_put]
  split
  · exact h
  · rename_i hk
    rw [List.nodup_append]
    exact ⟨h, by simp, fun a ha b hb => by simp at hb; subst hb; exact fun e => hk (e ▸ ha)⟩

/-- Putting entries never repeats a key. -/
theorem nodup_keys_putAll (entries : List (κ × ν)) {d : Dictionary κ ν} (h : d.keys.Nodup) :
    (d.putAll entries).keys.Nodup := by
  induction entries generalizing d with
  | nil => exact h
  | cons e rest ih => exact ih (nodup_keys_put e.1 e.2 h)

/-- A key has a value exactly when it is among the keys. -/
theorem get?_isSome_iff {k : κ} {d : Dictionary κ ν} : (get? k d).isSome = true ↔ k ∈ d.keys := by
  induction d with
  | nil => simp [get?, keys]
  | cons e rest ih =>
    obtain ⟨k₀, v₀⟩ := e
    by_cases h : k₀ = k
    · simp [get?, keys, h]
    · have h' : ¬k = k₀ := fun e => h e.symm
      simpa [get?, keys, h, h'] using ih

theorem mem_keys_put (k k' : κ) (v : ν) (d : Dictionary κ ν) :
    k' ∈ keys (put k v d) ↔ k' = k ∨ k' ∈ keys d := by
  rw [← get?_isSome_iff, ← get?_isSome_iff, get?_put]
  by_cases h : k = k'
  · simp [h]
  · simp [h, Ne.symm h]

theorem mem_keys_putAll {k : κ} {d : Dictionary κ ν} {entries : List (κ × ν)} :
    k ∈ keys (d.putAll entries) ↔ k ∈ keys d ∨ k ∈ keys entries := by
  induction entries generalizing d with
  | nil => exact (or_iff_left List.not_mem_nil).symm
  | cons e rest ih =>
    show k ∈ keys ((put e.1 e.2 d).putAll rest) ↔ k ∈ keys d ∨ k ∈ e.1 :: keys rest
    rw [ih, mem_keys_put, List.mem_cons, or_assoc, or_left_comm]

theorem mem_of_get? {k : κ} {v : ν} {d : Dictionary κ ν} (h : d.get? k = some v) : (k, v) ∈ d := by
  induction d with
  | nil => cases h
  | cons e rest ih =>
    obtain ⟨k', v'⟩ := e
    rw [get?] at h
    split at h
    next heq =>
      cases h
      exact heq ▸ List.mem_cons_self
    next => exact List.mem_cons_of_mem _ (ih h)

theorem get?_eq_none {k : κ} {d : Dictionary κ ν} (h : k ∉ d.keys) : d.get? k = none := by
  cases hget : d.get? k with
  | none => rfl
  | some v => exact absurd (get?_isSome_iff.mp (Option.isSome_of_eq_some hget)) h

theorem get?_of_mem {k : κ} {v : ν} {d : Dictionary κ ν} (hd : d.keys.Nodup) (h : (k, v) ∈ d) :
    d.get? k = some v := by
  induction d with
  | nil => cases h
  | cons e d ih =>
    obtain ⟨hnot, hrest⟩ := List.nodup_cons.mp hd
    obtain ⟨k', v'⟩ := e
    rw [get?]
    rcases List.mem_cons.mp h with heq | hmem
    · cases heq
      exact if_pos rfl
    · have hne : k' ≠ k := by
        rintro rfl
        exact hnot (List.mem_map.mpr ⟨_, hmem, rfl⟩)
      rw [if_neg hne, ih hrest hmem]

end Dictionary

end Boli
