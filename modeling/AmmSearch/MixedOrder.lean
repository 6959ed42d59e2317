/-
Sorting by a comparison that need not be an order.  A comparison may use one linear
order between the members of a class and another one everywhere else.  It is a total
order on a list exactly when the items outside the class separate the members the same
way in both orders, and then sorting does not depend on how the list was arranged.
-/
import Mathlib.Data.List.Sort
import Mathlib.Data.Set.Function
import Mathlib.Order.Compare

namespace MixedOrder

universe u v w

variable {α : Type u} {β : Type v} {γ : Type w}

/-- The comparison is a total order on the listed items. -/
structure TotalOn (compare : α → α → Ordering) (items : List α) : Prop where
  total : ∀ left ∈ items, ∀ right ∈ items, compare left right = (compare right left).swap
  antisymm : ∀ left ∈ items, ∀ right ∈ items, compare left right = .eq → left = right
  trans : ∀ left ∈ items, ∀ middle ∈ items, ∀ right ∈ items,
    (compare left middle).isLE = true → (compare middle right).isLE = true →
      (compare left right).isLE = true

theorem isLE_cmp_iff [LinearOrder β] (left right : β) :
    (cmp left right).isLE = true ↔ left ≤ right := by
  rw [Ordering.isLE_iff_ne_gt, ← not_lt, ← cmp_eq_gt_iff]

section Sorting

variable {compare : α → α → Ordering} {first second : List α}

theorem TotalOn.perm (htotal : TotalOn compare first) (hperm : first.Perm second) :
    TotalOn compare second where
  total left hleft right hright :=
    htotal.total left (hperm.mem_iff.mpr hleft) right (hperm.mem_iff.mpr hright)
  antisymm left hleft right hright :=
    htotal.antisymm left (hperm.mem_iff.mpr hleft) right (hperm.mem_iff.mpr hright)
  trans left hleft middle hmiddle right hright :=
    htotal.trans left (hperm.mem_iff.mpr hleft) middle (hperm.mem_iff.mpr hmiddle) right
      (hperm.mem_iff.mpr hright)

theorem TotalOn.isLE_total (htotal : TotalOn compare first) {left right : α}
    (hleft : left ∈ first) (hright : right ∈ first) :
    (compare left right).isLE = true ∨ (compare right left).isLE = true := by
  rw [htotal.total left hleft right hright]
  cases compare right left <;> decide

theorem TotalOn.eq_of_isLE (htotal : TotalOn compare first) {left right : α}
    (hleft : left ∈ first) (hright : right ∈ first) (hle : (compare left right).isLE = true)
    (hge : (compare right left).isLE = true) : left = right := by
  apply htotal.antisymm left hleft right hright
  rw [htotal.total left hleft right hright] at hle ⊢
  cases hcompare : compare right left with
  | lt => rw [hcompare] at hle; cases hle
  | eq => rfl
  | gt => rw [hcompare] at hge; cases hge

/-- The comparison need not be an order elsewhere. -/
theorem TotalOn.pairwise_insertionSort (htotal : TotalOn compare first) :
    (first.insertionSort fun left right => (compare left right).isLE = true).Pairwise
      fun left right => (compare left right).isLE = true := by
  let listed : first.attach.map Subtype.val = first := List.attach_map_subtype_val first
  let below : {item // item ∈ first} → {item // item ∈ first} → Prop :=
    fun left right => (compare left.val right.val).isLE = true
  have : Std.Total below :=
    ⟨fun left right => htotal.isLE_total left.property right.property⟩
  have : IsTrans {item // item ∈ first} below :=
    ⟨fun left middle right => htotal.trans left left.property middle middle.property right
      right.property⟩
  have : DecidableRel below := fun left right =>
    inferInstanceAs (Decidable ((compare left.val right.val).isLE = true))
  have hsorted : (first.attach.insertionSort below).Pairwise below :=
    List.pairwise_insertionSort below _
  have hmap := List.map_insertionSort below
    (fun left right => (compare left right).isLE = true) Subtype.val first.attach
    (fun _ _ _ _ => Iff.rfl)
  rw [listed] at hmap
  rw [← hmap, List.pairwise_map]
  exact hsorted

/-- Sorting forgets how the items were arranged. -/
theorem TotalOn.insertionSort_eq (htotal : TotalOn compare first)
    (hperm : first.Perm second) :
    (first.insertionSort fun left right => (compare left right).isLE = true) =
      second.insertionSort fun left right => (compare left right).isLE = true := by
  apply List.Perm.eq_of_pairwise ?_ htotal.pairwise_insertionSort
    (htotal.perm hperm).pairwise_insertionSort
  · exact (List.perm_insertionSort _ first).trans
      (hperm.trans (List.perm_insertionSort _ second).symm)
  · intro left right hleft hright
    rw [List.mem_insertionSort] at hleft hright
    exact htotal.eq_of_isLE hleft (hperm.mem_iff.mpr hright)

/-- Comparing by a key that tells the items apart. -/
theorem totalOn_of_key [LinearOrder β] {key : α → β}
    (hcompare : ∀ left ∈ first, ∀ right ∈ first, compare left right =
      cmp (key left) (key right))
    (hkey : Set.InjOn key {item | item ∈ first}) : TotalOn compare first where
  total left hleft right hright := by
    rw [hcompare left hleft right hright, hcompare right hright left hleft, cmp_swap]
  antisymm left hleft right hright heq := by
    rw [hcompare left hleft right hright, cmp_eq_eq_iff] at heq
    exact hkey hleft hright heq
  trans left hleft middle hmiddle right hright hfirst hsecond := by
    rw [hcompare left hleft middle hmiddle, isLE_cmp_iff] at hfirst
    rw [hcompare middle hmiddle right hright, isLE_cmp_iff] at hsecond
    rw [hcompare left hleft right hright, isLE_cmp_iff]
    exact hfirst.trans hsecond

end Sorting

section Mixed

variable [LinearOrder β] [LinearOrder γ] (member : α → Prop) [DecidablePred member]
variable (inner : α → β) (outer : α → γ)

/-- Members are compared by the inner order, all other pairs by the outer one. -/
def mixed (left right : α) : Ordering :=
  if member left ∧ member right then cmp (inner left) (inner right)
  else cmp (outer left) (outer right)

/-- Members that the outer order puts on two sides of another item are in that order
for the inner one too. -/
def Separated (items : List α) : Prop :=
  ∀ ahead ∈ items, ∀ between ∈ items, ∀ behind ∈ items,
    member ahead → ¬ member between → member behind →
      outer ahead < outer between → outer between < outer behind →
        inner ahead < inner behind

variable {member inner outer} {items : List α} {left right : α}

theorem mixed_of_members (hleft : member left) (hright : member right) :
    mixed member inner outer left right = cmp (inner left) (inner right) :=
  if_pos ⟨hleft, hright⟩

theorem mixed_of_not_left (hleft : ¬ member left) :
    mixed member inner outer left right = cmp (outer left) (outer right) :=
  if_neg fun hmembers => hleft hmembers.1

theorem mixed_of_not_right (hright : ¬ member right) :
    mixed member inner outer left right = cmp (outer left) (outer right) :=
  if_neg fun hmembers => hright hmembers.2

theorem mixed_swap (left right : α) :
    mixed member inner outer left right = (mixed member inner outer right left).swap := by
  by_cases hleft : member left
  · by_cases hright : member right
    · rw [mixed_of_members hleft hright, mixed_of_members hright hleft, cmp_swap]
    · rw [mixed_of_not_right hright, mixed_of_not_left hright, cmp_swap]
  · rw [mixed_of_not_left hleft, mixed_of_not_right hleft, cmp_swap]

theorem Separated.trans (hseparated : Separated member inner outer items)
    (houter : Set.InjOn outer {item | item ∈ items}) {middle : α} (hleft : left ∈ items)
    (hmiddle : middle ∈ items) (hright : right ∈ items)
    (hfirst : (mixed member inner outer left middle).isLE = true)
    (hsecond : (mixed member inner outer middle right).isLE = true) :
    (mixed member inner outer left right).isLE = true := by
  -- A member and another item are told apart, so they are compared strictly.
  have hstrict : ∀ {one other : α}, one ∈ items → other ∈ items →
      (member one ↔ ¬ member other) → outer one ≤ outer other → outer one < outer other := by
    intro one other hone hother hclass hle
    apply hle.lt_of_ne
    intro heq
    have hsame : one = other := houter hone hother heq
    subst hsame
    exact iff_not_self hclass
  by_cases hl : member left
  · by_cases hm : member middle
    · rw [mixed_of_members hl hm, isLE_cmp_iff] at hfirst
      by_cases hr : member right
      · rw [mixed_of_members hm hr, isLE_cmp_iff] at hsecond
        rw [mixed_of_members hl hr, isLE_cmp_iff]
        exact hfirst.trans hsecond
      · rw [mixed_of_not_right hr, isLE_cmp_iff] at hsecond ⊢
        by_contra hlt
        have hmr := hstrict hmiddle hright (by simp [hm, hr]) hsecond
        exact absurd hfirst (not_le.mpr
          (hseparated middle hmiddle right hright left hleft hm hr hl hmr (not_le.mp hlt)))
    · rw [mixed_of_not_right hm, isLE_cmp_iff] at hfirst
      rw [mixed_of_not_left hm, isLE_cmp_iff] at hsecond
      by_cases hr : member right
      · rw [mixed_of_members hl hr, isLE_cmp_iff]
        have hlm := hstrict hleft hmiddle (by simp [hl, hm]) hfirst
        have hmr := hstrict hmiddle hright (by simp [hm, hr]) hsecond
        exact (hseparated left hleft middle hmiddle right hright hl hm hr hlm hmr).le
      · rw [mixed_of_not_right hr, isLE_cmp_iff]
        exact hfirst.trans hsecond
  · rw [mixed_of_not_left hl, isLE_cmp_iff] at hfirst ⊢
    by_cases hmembers : member middle ∧ member right
    · rw [mixed_of_members hmembers.1 hmembers.2, isLE_cmp_iff] at hsecond
      by_contra hlt
      have hlm := hstrict hleft hmiddle (by simp [hl, hmembers.1]) hfirst
      exact absurd hsecond (not_le.mpr (hseparated right hright left hleft middle hmiddle
        hmembers.2 hl hmembers.1 (not_le.mp hlt) hlm))
    · rw [mixed, if_neg hmembers, isLE_cmp_iff] at hsecond
      exact hfirst.trans hsecond

/-- The mixed comparison is a total order exactly on separated lists. -/
theorem totalOn_mixed_iff (hinner : Set.InjOn inner {item | item ∈ items})
    (houter : Set.InjOn outer {item | item ∈ items}) :
    TotalOn (mixed member inner outer) items ↔ Separated member inner outer items := by
  constructor
  · intro htotal ahead hahead between hbetween behind hbehind ha hc hb hfirst hsecond
    have hle := htotal.trans ahead hahead between hbetween behind hbehind
      (by rw [mixed_of_not_right hc, isLE_cmp_iff]; exact hfirst.le)
      (by rw [mixed_of_not_left hc, isLE_cmp_iff]; exact hsecond.le)
    rw [mixed_of_members ha hb, isLE_cmp_iff] at hle
    apply hle.lt_of_ne
    intro heq
    have hsame : ahead = behind := hinner hahead hbehind heq
    rw [hsame] at hfirst
    exact absurd (hfirst.trans hsecond) (lt_irrefl _)
  · intro hseparated
    constructor
    · exact fun left _ right _ => mixed_swap left right
    · intro left hleft right hright heq
      by_cases hmembers : member left ∧ member right
      · rw [mixed, if_pos hmembers, cmp_eq_eq_iff] at heq
        exact hinner hleft hright heq
      · rw [mixed, if_neg hmembers, cmp_eq_eq_iff] at heq
        exact houter hleft hright heq
    · exact fun left hleft middle hmiddle right hright =>
        hseparated.trans houter hleft hmiddle hright

end Mixed

end MixedOrder
