/-
Rankings in descending order in which equal items keep their order of arrival, and the
first arrival for each label.  A ranking cut to a length can be continued from the cut.
-/
import Mathlib.Data.List.Sort
import Mathlib.Order.Defs.LinearOrder

namespace StableRanking

universe u v w

variable {α : Type u} {β : Type v} {γ : Type w}

section Ranking

variable [LinearOrder β] (key : α → β)

/-- The items in descending order; equal items keep their order. -/
def ranked (items : List α) : List α :=
  items.insertionSort fun left right => key right ≤ key left

/-- One more item, behind all that are not smaller. -/
def place (item : α) : List α → List α
  | [] => [item]
  | head :: tail =>
      if key item ≤ key head then head :: place item tail else item :: head :: tail

variable {key}

/-- A later item is placed behind an earlier one that is not smaller. -/
theorem orderedInsert_place (first item : α) (items : List α) :
    (place key item items).orderedInsert (fun left right => key right ≤ key left) first =
      place key item
        (items.orderedInsert (fun left right => key right ≤ key left) first) := by
  induction items with
  | nil =>
      by_cases hle : key item ≤ key first
      · simp [place, hle]
      · simp [place, hle]
  | cons head tail ih =>
      by_cases hitem : key item ≤ key head
      · by_cases hfirst : key head ≤ key first
        · simp [place, hitem, hfirst, hitem.trans hfirst]
        · simp [place, hitem, hfirst, ih]
      · by_cases hfirst : key head ≤ key first
        · by_cases hle : key item ≤ key first
          · simp [place, hitem, hfirst, hle]
          · simp [place, hitem, hfirst, hle]
        · have hlt : ¬ key item ≤ key first := fun hle =>
            hfirst ((not_le.mp hitem).le.trans hle)
          simp [place, hitem, hfirst, hlt]

/-- Ranking one more item. -/
theorem ranked_concat (items : List α) (item : α) :
    ranked key (items ++ [item]) = place key item (ranked key items) := by
  induction items with
  | nil => rfl
  | cons head tail ih =>
      unfold ranked at ih ⊢
      rw [List.cons_append, List.insertionSort_cons, ih, orderedInsert_place,
        List.insertionSort_cons]

/-- What was cut off does not come back. -/
theorem take_place (item : α) (items : List α) (count : ℕ) :
    (place key item (items.take count)).take count =
      (place key item items).take count := by
  induction items generalizing count with
  | nil => rw [List.take_nil]
  | cons head tail ih =>
      cases count with
      | zero => rw [List.take_zero, List.take_zero]
      | succ count =>
          rw [List.take_succ_cons]
          unfold place
          split
          · rw [List.take_succ_cons, List.take_succ_cons, ih]
          · rw [List.take_succ_cons, List.take_succ_cons]
            cases count with
            | zero => rfl
            | succ count => simp [List.take_take]

/-- An item that nothing is smaller than goes to the end. -/
theorem place_eq_append {item : α} {items : List α}
    (hitems : ∀ other ∈ items, key item ≤ key other) :
    place key item items = items ++ [item] := by
  induction items with
  | nil => rfl
  | cons head tail ih =>
      rw [place, if_pos (hitems head List.mem_cons_self),
        ih fun other hother => hitems other (List.mem_cons_of_mem _ hother)]
      rfl

theorem sorted_ranked (items : List α) :
    (ranked key items).Pairwise fun left right => key right ≤ key left :=
  List.pairwise_insertionSort _ items

theorem mem_ranked {item : α} {items : List α} : item ∈ ranked key items ↔ item ∈ items :=
  List.mem_insertionSort _

/-- Placing an item that the cut ranking has lost leaves it as it is. -/
theorem take_place_of_mem {item : α} {items : List α} {count : ℕ}
    (hsorted : items.Pairwise fun left right => key right ≤ key left)
    (hmem : item ∈ items) (hlost : item ∉ items.take count) :
    (place key item (items.take count)).take count = items.take count := by
  have hsplit := List.take_append_drop count items
  have hdropped : item ∈ items.drop count := by
    rw [← hsplit] at hmem
    exact (List.mem_append.mp hmem).resolve_left hlost
  have hle : ∀ other ∈ items.take count, key item ≤ key other := by
    intro other hother
    rw [← hsplit, List.pairwise_append] at hsorted
    exact hsorted.2.2 other hother item hdropped
  have hlength : (items.take count).length = count := by
    have hpositive := List.length_pos_of_mem hdropped
    rw [List.length_drop] at hpositive
    rw [List.length_take]
    omega
  rw [place_eq_append hle, List.take_append_of_le_length hlength.ge, List.take_take, min_self]

end Ranking

section Distinct

variable [DecidableEq γ] (label : α → γ)

/-- The first item of each label. -/
def distinct : List α → List α
  | [] => []
  | item :: rest => item :: (distinct rest).filter fun other => label other ≠ label item

variable {label}

theorem mem_of_mem_distinct {item : α} {items : List α} (hmem : item ∈ distinct label items) :
    item ∈ items := by
  induction items with
  | nil => exact hmem
  | cons head tail ih =>
      rcases List.mem_cons.mp hmem with rfl | hrest
      · exact List.mem_cons_self
      · exact List.mem_cons_of_mem _ (ih (List.mem_filter.mp hrest).1)

theorem exists_mem_distinct {item : α} {items : List α} (hmem : item ∈ items) :
    ∃ first ∈ distinct label items, label first = label item := by
  induction items with
  | nil => cases hmem
  | cons head tail ih =>
      by_cases hhead : label item = label head
      · exact ⟨head, List.mem_cons_self, hhead.symm⟩
      · rcases List.mem_cons.mp hmem with rfl | hrest
        · exact absurd rfl hhead
        · obtain ⟨first, hfirst, hlabel⟩ := ih hrest
          refine ⟨first, List.mem_cons_of_mem _ (List.mem_filter.mpr ⟨hfirst, ?_⟩), hlabel⟩
          rw [decide_eq_true_eq, hlabel]
          exact hhead

/-- One more item is a first one, or its label has occurred. -/
theorem distinct_concat (items : List α) (item : α) :
    distinct label (items ++ [item]) =
      if label item ∈ items.map label then distinct label items
      else distinct label items ++ [item] := by
  induction items with
  | nil => rfl
  | cons head tail ih =>
      rw [List.cons_append, distinct, ih, distinct]
      by_cases hhead : label item = label head
      · have hdropped : [item].filter (fun other => label other ≠ label head) = [] := by
          simp [hhead]
        have hmem : label item ∈ (head :: tail).map label := by
          rw [hhead]
          exact List.mem_cons_self
        rw [if_pos hmem]
        split
        · rfl
        · rw [List.filter_append, hdropped, List.append_nil]
      · have hkept : [item].filter (fun other => label other ≠ label head) = [item] := by
          simp [hhead]
        by_cases htail : label item ∈ tail.map label
        · have hmem : label item ∈ (head :: tail).map label := List.mem_cons_of_mem _ htail
          rw [if_pos htail, if_pos hmem]
        · have hfresh : label item ∉ (head :: tail).map label := by
            rw [List.map_cons, List.mem_cons]
            rintro (hsame | hold)
            · exact hhead hsame
            · exact htail hold
          rw [if_neg htail, if_neg hfresh, List.filter_append, hkept]
          rfl

end Distinct

end StableRanking
