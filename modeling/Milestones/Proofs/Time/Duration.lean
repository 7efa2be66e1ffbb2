import Mathlib
import Milestones.Time.Duration

/-!
# Sums and extremes of durations

Arithmetic on durations is arithmetic on their nanoseconds wherever it has a result.  The
longest and the shortest span of a list are members of it and bound all others; a list without
spans has neither, and a default stands in.

## Main statements

* `Duration.add?_eq_some_iff`, `Duration.sub?_eq_some_iff`: sums and differences by nanoseconds.
* `Duration.maximum?_getD_map`, `Duration.minimum?_getD_map`: extremes over the neighbours of a
  milestone, with a default for none.
* `Duration.foldlM_add?_eq_some`, `Duration.foldlM_add?_zero`: spans that are not negative add up
  exactly if their sum is in range.
-/

namespace Milestones

namespace Duration

theorem add?_eq_some_iff {a b c : Duration} : a.add? b = some c ↔ c.nanos = a.nanos + b.nanos :=
  ofNanos?_eq_some_iff

theorem sub?_eq_some_iff {a b c : Duration} : a.sub? b = some c ↔ c.nanos = a.nanos - b.nanos :=
  ofNanos?_eq_some_iff

/-- Spans that are not negative add up step by step if the sum of all is a span. -/
theorem foldlM_add?_eq_some {ds : List Duration} (hds : ∀ d ∈ ds, 0 ≤ d.nanos) {a total : Duration}
    (ha : 0 ≤ a.nanos) (htotal : a.nanos + (ds.map nanos).sum = total.nanos) :
    ds.foldlM add? a = some total := by
  induction ds generalizing a with
  | nil =>
    have heq : a = total := Duration.ext (by simpa using htotal)
    rw [heq]
    rfl
  | cons d rest ih =>
    rw [List.map_cons, List.sum_cons] at htotal
    have hd := hds d List.mem_cons_self
    have hrest : 0 ≤ (rest.map nanos).sum := by
      refine List.sum_nonneg fun n hn => ?_
      obtain ⟨e, he, rfl⟩ := List.mem_map.1 hn
      exact hds e (List.mem_cons_of_mem _ he)
    -- No partial sum is longer than the whole.
    have hrange : (a.nanos + d.nanos).natAbs ≤ maxNanos := by
      have := total.natAbs_le
      omega
    have hadd : a.add? d = some ⟨a.nanos + d.nanos, hrange⟩ := add?_eq_some_iff.2 rfl
    rw [List.foldlM_cons, hadd]
    refine ih (fun e he => hds e (List.mem_cons_of_mem _ he)) ?_ ?_
    · exact Int.add_nonneg ha hd
    · rw [← htotal]
      exact Int.add_assoc _ _ _

/-- A sum that was made step by step is a sum of nanoseconds. -/
theorem nanos_of_foldlM_add? {ds : List Duration} {a total : Duration}
    (h : ds.foldlM add? a = some total) : total.nanos = a.nanos + (ds.map nanos).sum := by
  induction ds generalizing a with
  | nil =>
    cases h
    simp
  | cons d rest ih =>
    rw [List.foldlM_cons] at h
    obtain ⟨b, hb, h⟩ := Option.bind_eq_some_iff.1 h
    rw [ih h, add?_eq_some_iff.1 hb, List.map_cons, List.sum_cons, Int.add_assoc]

theorem ofNanos?_eq_none_iff {n : Int} : ofNanos? n = none ↔ maxNanos < n.natAbs := by
  unfold ofNanos?
  split
  · rename_i h
    simp [Nat.not_lt.2 h]
  · rename_i h
    simp [Nat.not_le.1 h]

/-- Spans that are not negative add up step by step exactly if their sum is in range. -/
theorem foldlM_add?_zero {ds : List Duration} (hds : ∀ d ∈ ds, 0 ≤ d.nanos) :
    ds.foldlM add? zero = ofNanos? (ds.map nanos).sum := by
  cases hsum : ofNanos? (ds.map nanos).sum with
  | some total =>
    refine foldlM_add?_eq_some hds (Int.le_refl 0) ?_
    rw [ofNanos?_eq_some_iff.1 hsum]
    exact Int.zero_add _
  | none =>
    refine Option.eq_none_iff_forall_ne_some.2 fun total htotal => ?_
    have hnanos := nanos_of_foldlM_add? htotal
    rw [show zero.nanos = 0 from rfl, Int.zero_add] at hnanos
    cases hsum.symm.trans (ofNanos?_eq_some_iff.2 hnanos)

/-! ## Extremes -/

/-- A fold that always chooses one of two spans chooses one of all, and no worse than any. -/
theorem foldl_choice {f : Duration → Duration → Duration} {r : Duration → Duration → Prop}
    (hchoice : ∀ a b, f a b = a ∨ f a b = b) (hrefl : ∀ a, r a a)
    (htrans : ∀ a b c, r a b → r b c → r a c) (hleft : ∀ a b, r a (f a b))
    (hright : ∀ a b, r b (f a b)) (ds : List Duration) (a : Duration) :
    ds.foldl f a ∈ a :: ds ∧ ∀ d ∈ a :: ds, r d (ds.foldl f a) := by
  induction ds generalizing a with
  | nil => simp [hrefl]
  | cons b ds ih =>
    obtain ⟨hmem, hbound⟩ := ih (f a b)
    have hbest : r (f a b) (ds.foldl f (f a b)) := hbound _ List.mem_cons_self
    rw [List.foldl_cons]
    constructor
    · rcases List.mem_cons.1 hmem with h | h
      · rw [h]
        rcases hchoice a b with h' | h' <;> simp [h']
      · exact List.mem_cons_of_mem _ (List.mem_cons_of_mem _ h)
    · intro d hd
      rcases List.mem_cons.1 hd with rfl | hd
      · exact htrans _ _ _ (hleft d b) hbest
      · rcases List.mem_cons.1 hd with rfl | hd
        · exact htrans _ _ _ (hright a d) hbest
        · exact hbound d (List.mem_cons_of_mem _ hd)

theorem maximum?_cons (a : Duration) (ds : List Duration) :
    ∃ m, maximum? (a :: ds) = some m ∧ m ∈ a :: ds ∧ ∀ d ∈ a :: ds, d ≤ m := by
  refine ⟨ds.foldl max a, rfl, foldl_choice (fun a b => ?_) (fun a => ?_) (fun a b c => ?_)
    (fun a b => ?_) (fun a b => ?_) ds a⟩
  · unfold max
    split <;> simp
  · exact Int.le_refl _
  · exact Int.le_trans
  · unfold max
    split
    · assumption
    · exact Int.le_refl _
  · unfold max
    split
    · exact Int.le_refl _
    · rename_i h
      simp only [le_iff] at h ⊢
      omega

theorem minimum?_cons (a : Duration) (ds : List Duration) :
    ∃ m, minimum? (a :: ds) = some m ∧ m ∈ a :: ds ∧ ∀ d ∈ a :: ds, m ≤ d := by
  refine ⟨ds.foldl min a, rfl, foldl_choice (r := fun a b => b ≤ a) (fun a b => ?_)
    (fun a => ?_) (fun a b c hba hcb => ?_) (fun a b => ?_) (fun a b => ?_) ds a⟩
  · unfold min
    split <;> simp
  · exact Int.le_refl _
  · exact Int.le_trans hcb hba
  · unfold min
    split
    · exact Int.le_refl _
    · rename_i h
      simp only [le_iff] at h ⊢
      omega
  · unfold min
    split
    · assumption
    · exact Int.le_refl _

/-- An extreme of some spans bounds them all and is one of them, or the default if there are
none. -/
theorem extreme_getD_map {extreme? : List Duration → Option Duration}
    {r : Duration → Duration → Prop} (hnil : extreme? [] = none)
    (hcons : ∀ a ds, ∃ m, extreme? (a :: ds) = some m ∧ m ∈ a :: ds ∧ ∀ d ∈ a :: ds, r d m)
    {α : Type} (l : List α) (f : α → Duration) (default : Duration) :
    (∀ a ∈ l, r (f a) ((extreme? (l.map f)).getD default)) ∧
      (l = [] ∧ (extreme? (l.map f)).getD default = default ∨
        ∃ a ∈ l, (extreme? (l.map f)).getD default = f a) := by
  cases l with
  | nil => exact ⟨nofun, .inl ⟨rfl, by simp [hnil]⟩⟩
  | cons a l =>
    obtain ⟨m, hm, hmem, hbound⟩ := hcons (f a) (l.map f)
    rw [← List.map_cons] at hm hmem hbound
    rw [hm]
    obtain ⟨b, hb, hbm⟩ := List.mem_map.1 hmem
    exact ⟨fun d hd => hbound _ (List.mem_map_of_mem hd), .inr ⟨b, hb, hbm.symm⟩⟩

/-- The longest of some spans. -/
theorem maximum?_getD_map {α : Type} (l : List α) (f : α → Duration) (default : Duration) :
    (∀ a ∈ l, f a ≤ (maximum? (l.map f)).getD default) ∧
      (l = [] ∧ (maximum? (l.map f)).getD default = default ∨
        ∃ a ∈ l, (maximum? (l.map f)).getD default = f a) :=
  extreme_getD_map rfl maximum?_cons l f default

/-- The longest span of a list does not depend on its order. -/
theorem maximum?_getD_map_congr {α : Type} {l l' : List α} (h : ∀ a, a ∈ l ↔ a ∈ l')
    (f : α → Duration) (default : Duration) :
    (maximum? (l.map f)).getD default = (maximum? (l'.map f)).getD default := by
  obtain ⟨hbound, hattained⟩ := maximum?_getD_map l f default
  obtain ⟨hbound', hattained'⟩ := maximum?_getD_map l' f default
  rcases hattained with ⟨rfl, -⟩ | ⟨a, ha, hmax⟩
  · rw [List.eq_nil_iff_forall_not_mem.2 fun a ha => List.not_mem_nil ((h a).2 ha)]
  rcases hattained' with ⟨rfl, -⟩ | ⟨a', ha', hmax'⟩
  · exact absurd ((h a).1 ha) List.not_mem_nil
  refine Duration.ext (Int.le_antisymm ?_ ?_)
  · rw [hmax]
    exact hbound' a ((h a).1 ha)
  · rw [hmax']
    exact hbound a' ((h a').2 ha')

/-- The shortest of some spans. -/
theorem minimum?_getD_map {α : Type} (l : List α) (f : α → Duration) (default : Duration) :
    (∀ a ∈ l, (minimum? (l.map f)).getD default ≤ f a) ∧
      (l = [] ∧ (minimum? (l.map f)).getD default = default ∨
        ∃ a ∈ l, (minimum? (l.map f)).getD default = f a) :=
  extreme_getD_map (r := fun d m => m ≤ d) rfl minimum?_cons l f default

end Duration

end Milestones
