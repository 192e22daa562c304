/-
# `device_table`: a `GTree` keyed by `strcmp`

`device_management_init` creates `device_table` with `g_tree_new_full(device_name_compare,
NULL, NULL, NULL)`: a balanced search tree ordered by `strcmp` on the device names, with no
destroy function for keys or values.  Everything `airscan-device.c` observes of it is the
sequence of its entries in key order -- `g_tree_lookup`, `g_tree_insert`, `g_tree_remove`,
`g_tree_nnodes` and the in-order walk of `g_tree_foreach` -- so the model is that sequence.

* `strcmp` compares the names character by character.  On the UTF-8 bytes C sees, byte
  order and code point order agree, so this is the order of the C `strcmp`.
* `gTreeInsert` follows GLib: a new key goes in its place; an existing key keeps its node and
  only its value is replaced.
* `GTreeSorted` is the search-tree property, and every operation keeps it
  (`gTreeSorted_insert`, `gTreeSorted_remove`); under it a key has at most one entry
  (`GTreeSorted.val_eq`) and `gTreeLookup` finds exactly the entries (`gTreeLookup_eq_some_iff`):
  an inserted key is found with its value, a removed one is not, and every other key is found
  as before (`gTreeLookup_insert_self`, `gTreeLookup_remove_self` and the `_of_ne` forms).
-/
import Mathlib.Data.Char
import Mathlib.Data.List.Basic

namespace AirscanDevice

/-! ## 1. `strcmp` -/

/-- `strcmp` on the characters of two names. -/
def strcmp : List Char → List Char → Ordering
  | [], [] => .eq
  | [], _ :: _ => .lt
  | _ :: _, [] => .gt
  | a :: as, b :: bs => if a < b then .lt else if b < a then .gt else strcmp as bs

/-- `device_name_compare`: the order of `device_table`. -/
def deviceNameCompare (a b : String) : Ordering := strcmp a.toList b.toList

/-- `a` sorts strictly before `b` in `device_table`. -/
def NameLt (a b : String) : Prop := deviceNameCompare a b = .lt

theorem strcmp_cons (x y : Char) (as bs : List Char) :
    strcmp (x :: as) (y :: bs) = if x < y then .lt else if y < x then .gt else strcmp as bs :=
  rfl

theorem strcmp_swap : ∀ a b : List Char, (strcmp a b).swap = strcmp b a
  | [], [] => rfl
  | [], _ :: _ => rfl
  | _ :: _, [] => rfl
  | x :: as, y :: bs => by
    rcases lt_trichotomy x y with h | rfl | h
    · simp [strcmp_cons, h, lt_asymm h, Ordering.swap]
    · simp [strcmp_cons, strcmp_swap as bs]
    · simp [strcmp_cons, h, lt_asymm h, Ordering.swap]

theorem strcmp_eq_iff : ∀ {a b : List Char}, strcmp a b = .eq ↔ a = b
  | [], [] => by simp [strcmp]
  | [], _ :: _ => by simp [strcmp]
  | _ :: _, [] => by simp [strcmp]
  | x :: as, y :: bs => by
    rcases lt_trichotomy x y with h | rfl | h
    · simp [strcmp_cons, h, h.ne]
    · simp [strcmp_cons, strcmp_eq_iff]
    · simp [strcmp_cons, h, lt_asymm h, h.ne']

theorem strcmp_lt_trans : ∀ {a b c : List Char},
    strcmp a b = .lt → strcmp b c = .lt → strcmp a c = .lt
  | [], [], _, h, _ => by simp [strcmp] at h
  | [], _ :: _, [], _, h => by simp [strcmp] at h
  | [], _ :: _, _ :: _, _, _ => rfl
  | _ :: _, [], _, h, _ => by simp [strcmp] at h
  | _ :: _, _ :: _, [], _, h => by simp [strcmp] at h
  | x :: as, y :: bs, z :: cs, h1, h2 => by
    rcases lt_trichotomy x y with hxy | rfl | hxy
    · rcases lt_trichotomy x z with hxz | rfl | hxz
      · simp [strcmp_cons, hxz]
      · simp [strcmp_cons, hxy, lt_asymm hxy] at h2
      · simp [strcmp_cons, lt_trans hxz hxy, lt_asymm (lt_trans hxz hxy)] at h2
    · rcases lt_trichotomy x z with hxz | rfl | hxz
      · simp [strcmp_cons, hxz]
      · simp only [strcmp_cons, lt_irrefl, if_false] at h1 h2 ⊢
        exact strcmp_lt_trans h1 h2
      · simp [strcmp_cons, hxz, lt_asymm hxz] at h2
    · simp [strcmp_cons, hxy, lt_asymm hxy] at h1

theorem nameLt_trans {a b c : String} (h1 : NameLt a b) (h2 : NameLt b c) : NameLt a c :=
  strcmp_lt_trans h1 h2

theorem NameLt.ne {a b : String} (h : NameLt a b) : a ≠ b := by
  rintro rfl
  have := (strcmp_eq_iff (a := a.toList) (b := a.toList)).mpr rfl
  simp only [NameLt, deviceNameCompare, this] at h
  cases h

@[simp] theorem deviceNameCompare_eq_iff {a b : String} : deviceNameCompare a b = .eq ↔ a = b := by
  simp [deviceNameCompare, strcmp_eq_iff, String.ext_iff]

@[simp] theorem deviceNameCompare_self (a : String) : deviceNameCompare a a = .eq :=
  deviceNameCompare_eq_iff.mpr rfl

theorem ne_of_deviceNameCompare {a b : String} {o : Ordering} (h : deviceNameCompare a b = o)
    (ho : o ≠ .eq) : a ≠ b := by
  rintro rfl
  exact ho (h.symm.trans (deviceNameCompare_self a))

/-- The two names in the other order: `.gt` of `device_name_compare` is `NameLt` swapped. -/
theorem deviceNameCompare_gt_iff {a b : String} : deviceNameCompare a b = .gt ↔ NameLt b a := by
  rw [NameLt, deviceNameCompare, deviceNameCompare, ← strcmp_swap b.toList]
  cases strcmp b.toList a.toList <;> simp [Ordering.swap]

/-! ## 2. Lookup, insertion and removal -/

section Ops

variable {α : Type}

/-- `g_tree_lookup`. -/
def gTreeLookup (key : String) : List (String × α) → Option α
  | [] => none
  | (k, v) :: t =>
    match deviceNameCompare key k with
    | .eq => some v
    | _ => gTreeLookup key t

/-- `g_tree_insert`: a new key goes in its place; an existing key keeps its node, and its
value is replaced. -/
def gTreeInsert (key : String) (value : α) : List (String × α) → List (String × α)
  | [] => [(key, value)]
  | (k, v) :: t =>
    match deviceNameCompare key k with
    | .lt => (key, value) :: (k, v) :: t
    | .eq => (k, value) :: t
    | .gt => (k, v) :: gTreeInsert key value t

/-- `g_tree_remove`: drops the node of `key`, if there is one. -/
def gTreeRemove (key : String) : List (String × α) → List (String × α)
  | [] => []
  | (k, v) :: t =>
    match deviceNameCompare key k with
    | .eq => t
    | _ => (k, v) :: gTreeRemove key t

/-- The search-tree property: keys strictly ascend in `device_name_compare` order. -/
def GTreeSorted (t : List (String × α)) : Prop := t.Pairwise fun a b => NameLt a.1 b.1

theorem gTreeLookup_eq_none_iff {key : String} :
    ∀ {t : List (String × α)}, gTreeLookup key t = none ↔ ∀ v, (key, v) ∉ t
  | [] => by simp [gTreeLookup]
  | (k, v) :: t => by
    cases h : deviceNameCompare key k
    case eq =>
      rw [deviceNameCompare_eq_iff] at h
      subst h
      simpa [gTreeLookup] using ⟨v, fun h => absurd rfl h⟩
    all_goals
      have hne := ne_of_deviceNameCompare h (by decide)
      simp [gTreeLookup, h, hne, gTreeLookup_eq_none_iff (t := t)]

theorem mem_of_gTreeLookup_eq_some {key : String} {v : α} :
    ∀ {t : List (String × α)}, gTreeLookup key t = some v → (key, v) ∈ t
  | [], h => by simp [gTreeLookup] at h
  | (k, w) :: t, h => by
    cases hc : deviceNameCompare key k <;> simp only [gTreeLookup, hc] at h
    · exact List.mem_cons_of_mem _ (mem_of_gTreeLookup_eq_some h)
    · cases h; simp_all
    · exact List.mem_cons_of_mem _ (mem_of_gTreeLookup_eq_some h)

/-- Under the search-tree property a key has one entry. -/
theorem GTreeSorted.val_eq {key : String} {v w : α} :
    ∀ {t : List (String × α)}, GTreeSorted t → (key, v) ∈ t → (key, w) ∈ t → v = w
  | [], _, h, _ => by simp at h
  | (k, u) :: t, hs, h1, h2 => by
    rw [GTreeSorted, List.pairwise_cons] at hs
    simp only [List.mem_cons, Prod.mk.injEq] at h1 h2
    rcases h1 with ⟨hk1, hv⟩ | h1 <;> rcases h2 with ⟨hk2, hw⟩ | h2
    · rw [hv, hw]
    · exact absurd hk1.symm (hs.1 _ h2).ne
    · exact absurd hk2.symm (hs.1 _ h1).ne
    · exact GTreeSorted.val_eq hs.2 h1 h2

theorem gTreeLookup_eq_some_iff {key : String} {v : α} {t : List (String × α)}
    (hs : GTreeSorted t) : gTreeLookup key t = some v ↔ (key, v) ∈ t := by
  refine ⟨mem_of_gTreeLookup_eq_some, fun h => ?_⟩
  cases hl : gTreeLookup key t with
  | none => exact absurd h ((gTreeLookup_eq_none_iff.mp hl) v)
  | some w => rw [hs.val_eq (mem_of_gTreeLookup_eq_some hl) h]

theorem fst_of_mem_gTreeInsert {key : String} {value : α} {p : String × α} :
    ∀ {t : List (String × α)}, p ∈ gTreeInsert key value t → p.1 = key ∨ p ∈ t
  | [], h => by simp_all [gTreeInsert]
  | (k, v) :: t, h => by
    cases hc : deviceNameCompare key k <;> simp only [gTreeInsert, hc] at h
    · rcases List.mem_cons.mp h with rfl | h
      · exact .inl rfl
      · exact .inr h
    · rw [deviceNameCompare_eq_iff] at hc
      subst hc
      rcases List.mem_cons.mp h with rfl | h
      · exact .inl rfl
      · exact .inr (List.mem_cons_of_mem _ h)
    · rcases List.mem_cons.mp h with rfl | h
      · exact .inr (List.mem_cons_self _ _)
      · exact (fst_of_mem_gTreeInsert h).imp_right (List.mem_cons_of_mem _)

/-- Inserting a key the tree does not hold adds exactly one entry. -/
theorem mem_gTreeInsert {key : String} {value : α} {p : String × α} :
    ∀ {t : List (String × α)}, gTreeLookup key t = none →
      (p ∈ gTreeInsert key value t ↔ p = (key, value) ∨ p ∈ t)
  | [], _ => by simp [gTreeInsert]
  | (k, v) :: t, h => by
    cases hc : deviceNameCompare key k <;> simp only [gTreeLookup, hc] at h
    · simp [gTreeInsert, hc]
    · simp at h
    · simp only [gTreeInsert, hc, List.mem_cons, mem_gTreeInsert h]
      tauto

theorem length_gTreeInsert {key : String} {value : α} :
    ∀ {t : List (String × α)}, gTreeLookup key t = none →
      (gTreeInsert key value t).length = t.length + 1
  | [], _ => rfl
  | (k, v) :: t, h => by
    cases hc : deviceNameCompare key k <;> simp only [gTreeLookup, hc] at h
    · simp [gTreeInsert, hc]
    · simp at h
    · simp [gTreeInsert, hc, length_gTreeInsert h]

theorem gTreeSorted_insert {key : String} {value : α} :
    ∀ {t : List (String × α)}, GTreeSorted t → GTreeSorted (gTreeInsert key value t)
  | [], _ => List.pairwise_singleton _ _
  | (k, v) :: t, hs => by
    have hs' := hs
    rw [GTreeSorted, List.pairwise_cons] at hs'
    cases hc : deviceNameCompare key k <;> simp only [gTreeInsert, hc]
    · refine List.Pairwise.cons (fun b hb => ?_) hs
      rcases List.mem_cons.mp hb with rfl | hb
      · exact hc
      · exact nameLt_trans hc (hs'.1 b hb)
    · rw [deviceNameCompare_eq_iff] at hc
      subst hc
      exact List.Pairwise.cons (fun b hb => hs'.1 b hb) hs'.2
    · refine List.Pairwise.cons (fun b hb => ?_) (gTreeSorted_insert hs'.2)
      rcases fst_of_mem_gTreeInsert hb with hb | hb
      · rw [hb]; exact deviceNameCompare_gt_iff.mp hc
      · exact hs'.1 b hb

theorem gTreeRemove_sublist {key : String} :
    ∀ {t : List (String × α)}, (gTreeRemove key t).Sublist t
  | [] => List.Sublist.slnil
  | (k, v) :: t => by
    cases hc : deviceNameCompare key k <;> simp only [gTreeRemove, hc]
    · exact gTreeRemove_sublist.cons₂ _
    · exact List.sublist_cons_self _ _
    · exact gTreeRemove_sublist.cons₂ _

theorem gTreeSorted_remove {key : String} {t : List (String × α)} (hs : GTreeSorted t) :
    GTreeSorted (gTreeRemove key t) :=
  hs.sublist gTreeRemove_sublist

/-- Removal drops exactly the entry of `key`. -/
theorem mem_gTreeRemove {key : String} {p : String × α} :
    ∀ {t : List (String × α)}, GTreeSorted t → (p ∈ gTreeRemove key t ↔ p ∈ t ∧ p.1 ≠ key)
  | [], _ => by simp [gTreeRemove]
  | (k, v) :: t, hs => by
    rw [GTreeSorted, List.pairwise_cons] at hs
    cases hc : deviceNameCompare key k <;> simp only [gTreeRemove, hc]
    · have hne : k ≠ key := fun h => by simp [h] at hc
      simp only [List.mem_cons, mem_gTreeRemove hs.2]
      constructor
      · rintro (rfl | ⟨h, h'⟩) <;> simp_all
      · rintro ⟨rfl | h, h'⟩ <;> simp_all
    · rw [deviceNameCompare_eq_iff] at hc
      subst hc
      constructor
      · intro h; exact ⟨List.mem_cons_of_mem _ h, (hs.1 p h).ne.symm⟩
      · rintro ⟨h, h'⟩
        rcases List.mem_cons.mp h with rfl | h
        · exact absurd rfl h'
        · exact h
    · have hne : k ≠ key := fun h => by simp [h] at hc
      simp only [List.mem_cons, mem_gTreeRemove hs.2]
      constructor
      · rintro (rfl | ⟨h, h'⟩) <;> simp_all
      · rintro ⟨rfl | h, h'⟩ <;> simp_all

/-- Two search trees with the same entries for `key` answer its lookup alike. -/
theorem gTreeLookup_congr {key : String} {t t' : List (String × α)} (hs : GTreeSorted t)
    (hs' : GTreeSorted t') (h : ∀ v, (key, v) ∈ t' ↔ (key, v) ∈ t) :
    gTreeLookup key t' = gTreeLookup key t :=
  Option.ext fun v => by rw [Option.mem_def, Option.mem_def, gTreeLookup_eq_some_iff hs',
    gTreeLookup_eq_some_iff hs, h]

/-- A removed key is not found. -/
theorem gTreeLookup_remove_self {key : String} {t : List (String × α)} (hs : GTreeSorted t) :
    gTreeLookup key (gTreeRemove key t) = none :=
  gTreeLookup_eq_none_iff.mpr fun _ hv => ((mem_gTreeRemove hs).mp hv).2 rfl

/-- Removal leaves the lookup of every other key. -/
theorem gTreeLookup_remove_of_ne {key k : String} {t : List (String × α)} (hs : GTreeSorted t)
    (h : k ≠ key) : gTreeLookup k (gTreeRemove key t) = gTreeLookup k t :=
  gTreeLookup_congr hs (gTreeSorted_remove hs) fun _ => by simp [mem_gTreeRemove hs, h]

/-- An inserted key is found with its value. -/
theorem gTreeLookup_insert_self {key : String} {value : α} {t : List (String × α)}
    (hs : GTreeSorted t) (hf : gTreeLookup key t = none) :
    gTreeLookup key (gTreeInsert key value t) = some value :=
  (gTreeLookup_eq_some_iff (gTreeSorted_insert hs)).mpr ((mem_gTreeInsert hf).mpr (.inl rfl))

/-- Insertion of a new key leaves the lookup of every other key. -/
theorem gTreeLookup_insert_of_ne {key k : String} {value : α} {t : List (String × α)}
    (hs : GTreeSorted t) (hf : gTreeLookup key t = none) (h : k ≠ key) :
    gTreeLookup k (gTreeInsert key value t) = gTreeLookup k t :=
  gTreeLookup_congr hs (gTreeSorted_insert hs) fun _ => by simp [mem_gTreeInsert hf, h]

end Ops

end AirscanDevice
