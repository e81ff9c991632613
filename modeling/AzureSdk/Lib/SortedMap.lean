import Mathlib

/-!
# Ordered maps as sorted association lists

An ordered map (a B-tree map, say) is determined by its entries in key order.
`insert` is its insertion on that list: a new key goes to its place, a key that
is already there keeps its place and takes the new value. Iteration is list
order, the length is the number of entries, and keys stay strictly increasing.
-/

namespace SortedMap

set_option autoImplicit false

variable {κ β : Type} [LinearOrder κ]

def Sorted (entries : List (κ × β)) : Prop :=
  (entries.map Prod.fst).Pairwise (· < ·)

def insert : List (κ × β) → κ → β → List (κ × β)
  | [], key, value => [(key, value)]
  | (other, otherValue) :: rest, key, value =>
      if key < other then (key, value) :: (other, otherValue) :: rest
      else if key = other then (key, value) :: rest
      else (other, otherValue) :: insert rest key value

@[simp] theorem sorted_nil : Sorted ([] : List (κ × β)) := List.Pairwise.nil

theorem sorted_cons {key : κ} {value : β} {rest : List (κ × β)} :
    Sorted ((key, value) :: rest) ↔ (∀ entry ∈ rest, key < entry.1) ∧ Sorted rest := by
  simp only [Sorted, List.map_cons, List.pairwise_cons, List.mem_map, forall_exists_index,
    and_imp, forall_apply_eq_imp_iff₂]

def get : List (κ × β) → κ → Option β
  | [], _ => none
  | (other, value) :: rest, key => if key = other then some value else get rest key

def erase : List (κ × β) → κ → List (κ × β)
  | [], _ => []
  | (other, value) :: rest, key => if key = other then rest else (other, value) :: erase rest key

theorem get_insert (entries : List (κ × β)) (key : κ) (value : β) (other : κ) :
    get (insert entries key value) other = if other = key then some value else get entries other := by
  induction entries with
  | nil => simp [insert, get]
  | cons head rest induction =>
      obtain ⟨present, presentValue⟩ := head
      simp only [insert]
      split_ifs with below same <;> by_cases asked : other = key <;> simp_all [get]

theorem get_of_forall_lt {entries : List (κ × β)} {key : κ}
    (below : ∀ entry ∈ entries, key < entry.1) : get entries key = none := by
  induction entries with
  | nil => rfl
  | cons head rest induction =>
      have notHead : key ≠ head.1 := ne_of_lt (below head List.mem_cons_self)
      simp only [get, if_neg notHead]
      exact induction fun entry member => below entry (List.mem_cons_of_mem _ member)

theorem mem_of_get_eq_some {entries : List (κ × β)} {key : κ} {value : β}
    (found : get entries key = some value) : (key, value) ∈ entries := by
  induction entries with
  | nil => cases found
  | cons head rest induction =>
      obtain ⟨other, otherValue⟩ := head
      simp only [get] at found
      split_ifs at found with same
      · cases found
        rw [same]
        exact List.mem_cons_self
      · exact List.mem_cons_of_mem _ (induction found)

theorem get_of_mem {entries : List (κ × β)} (sorted : Sorted entries) {key : κ} {value : β}
    (member : (key, value) ∈ entries) : get entries key = some value := by
  induction entries with
  | nil => cases member
  | cons head rest induction =>
      obtain ⟨other, otherValue⟩ := head
      obtain ⟨headBelow, restSorted⟩ := sorted_cons.mp sorted
      rcases List.mem_cons.mp member with same | later
      · simp only [Prod.mk.injEq] at same
        obtain ⟨rfl, rfl⟩ := same
        simp [get]
      · -- keys are unique, so the key is not the head's
        have above : other < key := headBelow _ later
        simp only [get, if_neg (ne_of_gt above)]
        exact induction restSorted later

theorem keys_nodup {entries : List (κ × β)} (sorted : Sorted entries) : (entries.map Prod.fst).Nodup :=
  sorted.imp ne_of_lt

theorem mem_keys_iff {entries : List (κ × β)} (sorted : Sorted entries) {key : κ} :
    key ∈ entries.map Prod.fst ↔ (get entries key).isSome := by
  constructor
  · intro member
    obtain ⟨entry, entryMember, rfl⟩ := List.mem_map.mp member
    simp [get_of_mem sorted entryMember]
  · intro found
    obtain ⟨value, hasValue⟩ := Option.isSome_iff_exists.mp found
    exact List.mem_map.mpr ⟨_, mem_of_get_eq_some hasValue, rfl⟩

theorem length_eq_card {entries : List (κ × β)} (sorted : Sorted entries) {keys : Finset κ}
    (present : ∀ key, (get entries key).isSome ↔ key ∈ keys) : entries.length = keys.card := by
  have sameKeys : (entries.map Prod.fst).toFinset = keys :=
    Finset.ext fun key => by rw [List.mem_toFinset, mem_keys_iff sorted, present]
  rw [← sameKeys, List.toFinset_card_of_nodup (keys_nodup sorted), List.length_map]

theorem ext {left right : List (κ × β)} (leftSorted : Sorted left) (rightSorted : Sorted right)
    (same : ∀ key, get left key = get right key) : left = right := by
  induction left generalizing right with
  | nil =>
      cases right with
      | nil => rfl
      | cons head rest =>
          have := same head.1
          simp [get] at this
  | cons head rest induction =>
      cases right with
      | nil =>
          have := same head.1
          simp [get] at this
      | cons other others =>
          obtain ⟨headBelow, restSorted⟩ := sorted_cons.mp leftSorted
          obtain ⟨otherBelow, othersSorted⟩ := sorted_cons.mp rightSorted
          -- the least keys agree, since each side has its least key and nothing below it
          have sameKey : head.1 = other.1 := by
            rcases lt_trichotomy head.1 other.1 with below | equal | above
            · have := same head.1
              simp [get, ne_of_lt below,
                get_of_forall_lt fun entry member => below.trans (otherBelow entry member)] at this
            · exact equal
            · have := same other.1
              simp [get, ne_of_lt above,
                get_of_forall_lt fun entry member => above.trans (headBelow entry member)] at this
          have sameValue : head.2 = other.2 := by
            have := same head.1
            simpa [get, sameKey] using this
          have sameRest : rest = others := by
            refine induction restSorted othersSorted fun key => ?_
            by_cases least : key = head.1
            · have atOther : key = other.1 := least.trans sameKey
              rw [get_of_forall_lt (least ▸ headBelow), get_of_forall_lt (by rw [atOther]; exact otherBelow)]
            · have := same key
              simpa [get, least, ← sameKey] using this
          rw [Prod.ext sameKey sameValue, sameRest]

theorem mem_insert_key {entries : List (κ × β)} {key : κ} {value : β} {entry : κ × β}
    (member : entry ∈ insert entries key value) : entry.1 = key ∨ ∃ old ∈ entries, old.1 = entry.1 := by
  induction entries with
  | nil =>
      simp only [insert, List.mem_singleton] at member
      exact .inl (by rw [member])
  | cons head rest induction =>
      obtain ⟨other, otherValue⟩ := head
      simp only [insert] at member
      split_ifs at member with below same
      · rcases List.mem_cons.mp member with rfl | tail
        · exact .inl rfl
        · exact .inr ⟨entry, tail, rfl⟩
      · rcases List.mem_cons.mp member with rfl | tail
        · exact .inl rfl
        · exact .inr ⟨entry, List.mem_cons_of_mem _ tail, rfl⟩
      · rcases List.mem_cons.mp member with rfl | tail
        · exact .inr ⟨_, List.mem_cons_self, rfl⟩
        · rcases induction tail with fresh | ⟨old, oldMember, oldKey⟩
          · exact .inl fresh
          · exact .inr ⟨old, List.mem_cons_of_mem _ oldMember, oldKey⟩

theorem not_mem_keys_insert {entries : List (κ × β)} {key other : κ} {value : β} (differs : other ≠ key)
    (absent : other ∉ entries.map Prod.fst) : other ∉ (insert entries key value).map Prod.fst := by
  rintro member
  obtain ⟨entry, entryMember, entryKey⟩ := List.mem_map.mp member
  rcases mem_insert_key entryMember with fresh | ⟨old, oldMember, oldKey⟩
  · exact differs (entryKey.symm.trans fresh)
  · exact absent (List.mem_map.mpr ⟨old, oldMember, oldKey.trans entryKey⟩)

theorem get_foldl_insert_of_not_mem (entries start : List (κ × β)) {key : κ}
    (absent : key ∉ entries.map Prod.fst) :
    get (entries.foldl (fun map entry => insert map entry.1 entry.2) start) key = get start key := by
  induction entries generalizing start with
  | nil => rfl
  | cons head rest induction =>
      simp only [List.map_cons, List.mem_cons, not_or] at absent
      rw [List.foldl_cons, induction _ absent.2, get_insert, if_neg absent.1]

theorem sorted_insert {entries : List (κ × β)} (sorted : Sorted entries) (key : κ) (value : β) :
    Sorted (insert entries key value) := by
  induction entries with
  | nil => simp [insert, Sorted]
  | cons head rest induction =>
      obtain ⟨other, otherValue⟩ := head
      obtain ⟨headBelow, restSorted⟩ := sorted_cons.mp sorted
      simp only [insert]
      split_ifs with below same
      · refine sorted_cons.mpr ⟨?_, sorted⟩
        intro entry member
        rcases List.mem_cons.mp member with rfl | tail
        · exact below
        · exact lt_trans below (headBelow entry tail)
      · subst same
        exact sorted_cons.mpr ⟨headBelow, restSorted⟩
      · refine sorted_cons.mpr ⟨?_, induction restSorted⟩
        intro entry member
        rcases mem_insert_key member with fresh | ⟨old, oldMember, oldKey⟩
        · rw [fresh]
          exact lt_of_le_of_ne (not_lt.mp below) (Ne.symm same)
        · rw [← oldKey]
          exact headBelow old oldMember

theorem insert_of_lt {entries : List (κ × β)} {key : κ} (value : β)
    (above : ∀ entry ∈ entries, entry.1 < key) : insert entries key value = entries ++ [(key, value)] := by
  induction entries with
  | nil => rfl
  | cons head rest induction =>
      obtain ⟨other, otherValue⟩ := head
      have otherBelow : other < key := above _ List.mem_cons_self
      have notBelow : ¬ key < other := not_lt.mpr otherBelow.le
      have notSame : key ≠ other := ne_of_gt otherBelow
      simp only [insert, if_neg notBelow, if_neg notSame, List.cons_append,
        induction (fun entry member => above entry (List.mem_cons_of_mem _ member))]

theorem foldl_insert_of_sorted (entries : List (κ × β)) (sorted : Sorted entries)
    (start : List (κ × β)) (below : ∀ old ∈ start, ∀ entry ∈ entries, old.1 < entry.1) :
    entries.foldl (fun map entry => insert map entry.1 entry.2) start = start ++ entries := by
  induction entries generalizing start with
  | nil => simp
  | cons head rest induction =>
      obtain ⟨headBelow, restSorted⟩ := sorted_cons.mp sorted
      have step : insert start head.1 head.2 = start ++ [head] :=
        insert_of_lt head.2 (fun old member => below old member head List.mem_cons_self)
      rw [List.foldl_cons, step, induction restSorted]
      · simp
      · intro old member entry entryMember
        rcases List.mem_append.mp member with early | late
        · exact below old early entry (List.mem_cons_of_mem _ entryMember)
        · rw [List.mem_singleton.mp late]
          exact headBelow entry entryMember

end SortedMap
