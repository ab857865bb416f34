import Mathlib.Data.List.Sort

/-!
# Stable order

A list is in the stable order of a key if its items ascend by the key and the
items of one key stand as they stood before.  There is only one such list.  The
merge sort of the library finds it, and so does a merge of two ascending lists.
-/

namespace ExprLang

variable {α : Type} (key : α → Int)

def keyLe (earlier later : α) : Bool := key earlier ≤ key later

def withKey (value : Int) (items : List α) : List α :=
  items.filter fun item => key item = value

structure StableOrder (items ordered : List α) : Prop where
  perm : ordered.Perm items
  ascending : ordered.Pairwise fun earlier later => keyLe key earlier later
  stable : ∀ value, withKey key value ordered = withKey key value items

variable {key}

theorem keyLe_trans (first second third : α)
    (hfirst : keyLe key first second = true)
    (hsecond : keyLe key second third = true) :
    keyLe key first third = true := by
  simp only [keyLe, decide_eq_true_eq] at *
  omega

theorem keyLe_total (first second : α) :
    (keyLe key first second || keyLe key second first) = true := by
  simp only [keyLe, Bool.or_eq_true, decide_eq_true_eq]
  omega

@[simp] theorem withKey_nil (value : Int) :
    withKey key value ([] : List α) = [] := rfl

theorem withKey_cons_self (item : α) (items : List α) :
    withKey key (key item) (item :: items) =
      item :: withKey key (key item) items := by
  simp [withKey]

theorem withKey_cons_of_ne {item : α} {value : Int} (items : List α)
    (h : key item ≠ value) :
    withKey key value (item :: items) = withKey key value items := by
  simp [withKey, h]

theorem withKey_eq_nil {value : Int} {items : List α}
    (h : ∀ item ∈ items, value < key item) : withKey key value items = [] := by
  simp only [withKey, List.filter_eq_nil_iff, decide_eq_true_eq]
  intro item hitem
  exact (h item hitem).ne'

/-! ## There is only one stable order -/

theorem key_le_of_withKey_eq {item : α} {items ordered : List α}
    (hascending : (item :: items).Pairwise fun earlier later =>
      keyLe key earlier later)
    (hsame : ∀ value, withKey key value (item :: items) =
      withKey key value ordered) :
    ∀ other ∈ ordered, key item ≤ key other := by
  intro other hother
  have hmem : other ∈ withKey key (key other) ordered := by
    simp [withKey, hother]
  rw [← hsame] at hmem
  simp only [withKey, List.mem_filter, decide_true, and_true] at hmem
  rcases List.mem_cons.mp hmem with rfl | hmem
  · exact le_rfl
  · exact of_decide_eq_true ((List.pairwise_cons.mp hascending).1 other hmem)

theorem eq_of_withKey_eq {first second : List α}
    (hfirst : first.Pairwise fun earlier later => keyLe key earlier later)
    (hsecond : second.Pairwise fun earlier later => keyLe key earlier later)
    (hsame : ∀ value, withKey key value first = withKey key value second) :
    first = second := by
  induction first generalizing second with
  | nil =>
      cases second with
      | nil => rfl
      | cons other second =>
          have hother := hsame (key other)
          rw [withKey_cons_self] at hother
          simp at hother
  | cons item first ih =>
      cases second with
      | nil =>
          have hitem := hsame (key item)
          rw [withKey_cons_self] at hitem
          simp at hitem
      | cons other second =>
          -- Each list begins with the smallest key, and with the first item of it.
          have hle := key_le_of_withKey_eq hfirst hsame other List.mem_cons_self
          have hge := key_le_of_withKey_eq hsecond (fun value => (hsame value).symm)
            item List.mem_cons_self
          have hkey : key other = key item := by omega
          have hheads := hsame (key item)
          rw [withKey_cons_self, ← hkey, withKey_cons_self, hkey,
            List.cons.injEq] at hheads
          obtain ⟨rfl, htails⟩ := hheads
          have hothers := ih hfirst.of_cons hsecond.of_cons fun value => by
            by_cases hvalue : key item = value
            · rw [← hvalue]
              exact htails
            · have hboth := hsame value
              rwa [withKey_cons_of_ne first hvalue,
                withKey_cons_of_ne second hvalue] at hboth
          rw [hothers]

theorem StableOrder.unique {items first second : List α}
    (hfirst : StableOrder key items first)
    (hsecond : StableOrder key items second) : first = second :=
  eq_of_withKey_eq hfirst.ascending hsecond.ascending fun value =>
    (hfirst.stable value).trans (hsecond.stable value).symm

/-! ## Sorting and merging -/

theorem stableOrder_mergeSort (key : α → Int) (items : List α) :
    StableOrder key items (items.mergeSort (keyLe key)) where
  perm := List.mergeSort_perm items (keyLe key)
  ascending := List.pairwise_mergeSort keyLe_trans keyLe_total items
  stable value := by
    have hequal : (withKey key value items).Pairwise fun earlier later =>
        keyLe key earlier later = true := by
      refine List.pairwise_filter.mpr (List.pairwise_of_forall ?_)
      simp +contextual [keyLe]
    have hsub := (List.sublist_mergeSort keyLe_trans keyLe_total hequal
      List.filter_sublist).filter fun item => key item = value
    have hlength := ((List.mergeSort_perm items (keyLe key)).filter
      fun item => key item = value).length_eq
    rw [withKey, List.filter_filter] at hsub
    simp only [Bool.and_self] at hsub
    exact (hsub.eq_of_length hlength.symm).symm

theorem withKey_merge {first second : List α} (value : Int)
    (hfirst : first.Pairwise fun earlier later => keyLe key earlier later)
    (hsecond : second.Pairwise fun earlier later => keyLe key earlier later) :
    withKey key value (first.merge second (keyLe key)) =
      withKey key value first ++ withKey key value second := by
  induction first generalizing second with
  | nil => simp
  | cons item first ihFirst =>
      induction second with
      | nil => simp
      | cons other second ihSecond =>
          rw [List.cons_merge_cons]
          split
          case isTrue hle =>
            have hothers := ihFirst hfirst.of_cons hsecond
            by_cases hvalue : key item = value
            · subst hvalue
              rw [withKey_cons_self, withKey_cons_self, hothers, List.cons_append]
            · rw [withKey_cons_of_ne _ hvalue, withKey_cons_of_ne _ hvalue, hothers]
          case isFalse hgt =>
            have hothers := ihSecond hsecond.of_cons
            by_cases hvalue : key other = value
            · -- All keys of the first list are greater.
              have hnone : withKey key value (item :: first) = [] := by
                refine withKey_eq_nil (List.forall_mem_cons.mpr ?_)
                simp only [keyLe, decide_eq_true_eq] at hgt hfirst
                refine ⟨by omega, ?_⟩
                intro later hlater
                have hle := (List.pairwise_cons.mp hfirst).1 later hlater
                omega
              rw [hnone, List.nil_append] at hothers ⊢
              subst hvalue
              rw [withKey_cons_self, withKey_cons_self, hothers]
            · rw [withKey_cons_of_ne _ hvalue, withKey_cons_of_ne second hvalue,
                hothers]

theorem stableOrder_merge {first second : List α}
    (hfirst : first.Pairwise fun earlier later => keyLe key earlier later)
    (hsecond : second.Pairwise fun earlier later => keyLe key earlier later) :
    StableOrder key (first ++ second) (first.merge second (keyLe key)) where
  perm := List.merge_perm_append (keyLe key)
  ascending :=
    List.pairwise_merge keyLe_trans keyLe_total first second hfirst hsecond
  stable value := by
    rw [withKey_merge value hfirst hsecond, withKey, withKey, withKey,
      List.filter_append]

end ExprLang
