import Milestones.Graph.WorkOrder
import Milestones.Proofs.Graph.Links

/-!
# Reaching along links

Everything about cycles is said in terms of one relation, `Graph.Reaches`: a milestone leads
to another one over one or more links of either kind.  A milestone that reaches itself is on a
cycle.

The search in `spread` finds what is reached.  Its bound on the rounds is harmless because
every round but the last finds something new, and there are only so many milestones.

## Main definitions

* `Graph.Reaches`, `Graph.OnCycle`, `Graph.Acyclic`: paths, cycles and their absence.

## Main statements

* `exists_cycle_of_forall_exists`: where everything in a list has a predecessor in it, there
  is a cycle before everything.
* `mem_spread_iff`: the search finds exactly what can be reached.
-/

namespace Milestones

open Relation

/-! ## Paths and cycles -/

namespace Graph

/-- There is a path of one or more links from the first milestone to the second. -/
def Reaches (g : Graph) (a b : MilestoneId) : Prop := TransGen g.Leads a b

/-- The milestone reaches itself. -/
def OnCycle (g : Graph) (id : MilestoneId) : Prop := g.Reaches id id

/-- No milestone reaches itself. -/
def Acyclic (g : Graph) : Prop := ∀ id, ¬g.OnCycle id

end Graph

/-- If everything in a list has a predecessor in the list, then there is a cycle before
everything in it: going back for ever in a finite list comes round to something. -/
theorem exists_cycle_of_forall_exists {α : Type} {r : α → α → Prop} {s : List α}
    (h : ∀ a ∈ s, ∃ b ∈ s, r b a) {a : α} (ha : a ∈ s) :
    ∃ c ∈ s, TransGen r c c ∧ ReflTransGen r c a := by
  by_contra hnone
  let Before := { x : α // x ∈ s ∧ ReflTransGen r x a }
  let earlier : Before → Before → Prop := fun x y => TransGen r x.1 y.1
  have : Finite Before :=
    Set.Finite.subset s.finite_toSet fun x hx => hx.1
  have : IsTrans Before earlier := ⟨fun _ _ _ hxy hyz => TransGen.trans hxy hyz⟩
  have : Std.Irrefl earlier := ⟨fun x hx => hnone ⟨x.1, x.2.1, hx, x.2.2⟩⟩
  have hwf : WellFounded earlier := Finite.wellFounded_of_trans_of_irrefl earlier
  obtain ⟨m, -, hmin⟩ := hwf.has_min Set.univ ⟨⟨a, ha, .refl⟩, trivial⟩
  obtain ⟨b, hb, hbm⟩ := h m.1 m.2.1
  exact hmin ⟨b, hb, .head hbm m.2.2⟩ trivial (.single hbm)

/-! ## The search -/

/-- A list that is closed under the step holds all that can be reached from it. -/
theorem mem_iff_exists_of_closed {α : Type} {step : α → List α} {seen : List α}
    (hclosed : ∀ a ∈ seen, ∀ b ∈ step a, b ∈ seen) {x : α} :
    x ∈ seen ↔ ∃ a ∈ seen, ReflTransGen (fun a b => b ∈ step a) a x := by
  constructor
  · intro hx
    exact ⟨x, hx, .refl⟩
  · intro ⟨a, ha, hax⟩
    induction hax with
    | refl => exact ha
    | tail _ hbc ih => exact hclosed _ ih _ hbc

/-- What a frontier leads to and was not seen yet. -/
def fresh (step : MilestoneId → List MilestoneId) (frontier seen : List MilestoneId) :
    List MilestoneId :=
  ((frontier.flatMap step).filter fun id => !seen.contains id).eraseDups

theorem mem_fresh_iff {step : MilestoneId → List MilestoneId}
    {frontier seen : List MilestoneId} {b : MilestoneId} :
    b ∈ fresh step frontier seen ↔ (∃ a ∈ frontier, b ∈ step a) ∧ b ∉ seen := by
  simp [fresh]

theorem spread_succ (step : MilestoneId → List MilestoneId) (rounds : Nat)
    (frontier seen : List MilestoneId) :
    spread step (rounds + 1) frontier seen =
      if (fresh step frontier seen).isEmpty then seen
      else spread step rounds (fresh step frontier seen)
        (seen ++ fresh step frontier seen) := rfl

/-- Less of a domain is left when something of it is seen for the first time. -/
theorem card_sdiff_append_lt {domain seen more : List MilestoneId} {b : MilestoneId}
    (hdomain : b ∈ domain) (hseen : b ∉ seen) (hmore : b ∈ more) :
    (domain.toFinset \ (seen ++ more).toFinset).card <
      (domain.toFinset \ seen.toFinset).card := by
  refine Finset.card_lt_card ⟨?_, fun hsub => ?_⟩
  · exact Finset.sdiff_subset_sdiff (le_refl _) (by simp)
  · have hin : b ∈ domain.toFinset \ seen.toFinset := by simp [hdomain, hseen]
    have := hsub hin
    simp [hmore] at this

theorem card_sdiff_le_length (domain seen : List MilestoneId) :
    (domain.toFinset \ seen.toFinset).card ≤ domain.length := by
  calc (domain.toFinset \ seen.toFinset).card
      ≤ domain.toFinset.card := Finset.card_le_card Finset.sdiff_subset
    _ ≤ domain.length := List.toFinset_card_le domain

/-- The search finds exactly what can be reached.  All that was seen before the frontier has
been searched already, and no more of the domain is left than there are rounds. -/
theorem mem_spread_iff {step : MilestoneId → List MilestoneId} {domain : List MilestoneId}
    (hdomain : ∀ a, ∀ b ∈ step a, b ∈ domain) {rounds : Nat}
    {frontier seen : List MilestoneId} (hfrontier : ∀ a ∈ frontier, a ∈ seen)
    (hsearched : ∀ a ∈ seen, a ∉ frontier → ∀ b ∈ step a, b ∈ seen)
    (hrounds : (domain.toFinset \ seen.toFinset).card ≤ rounds) {x : MilestoneId} :
    x ∈ spread step rounds frontier seen ↔
      ∃ a ∈ seen, ReflTransGen (fun a b => b ∈ step a) a x := by
  induction rounds generalizing frontier seen with
  | zero =>
    have hall : domain.toFinset ⊆ seen.toFinset :=
      Finset.sdiff_eq_empty_iff_subset.1 (Finset.card_eq_zero.1 (Nat.le_zero.1 hrounds))
    refine mem_iff_exists_of_closed fun a _ b hb => ?_
    exact List.mem_toFinset.1 (hall (List.mem_toFinset.2 (hdomain a b hb)))
  | succ rounds ih =>
    rw [spread_succ]
    by_cases hempty : (fresh step frontier seen).isEmpty = true
    · rw [if_pos hempty]
      refine mem_iff_exists_of_closed fun a ha b hb => ?_
      by_cases hf : a ∈ frontier
      · by_contra hout
        have hfresh := mem_fresh_iff.2 ⟨⟨a, hf, hb⟩, hout⟩
        rw [List.isEmpty_iff.1 hempty] at hfresh
        cases hfresh
      · exact hsearched a ha hf b hb
    · rw [if_neg hempty, ih]
      · -- What is fresh is one step away from what was seen.
        constructor
        · intro ⟨a, ha, hax⟩
          rcases List.mem_append.1 ha with ha | ha
          · exact ⟨a, ha, hax⟩
          · obtain ⟨⟨b, hb, hba⟩, -⟩ := mem_fresh_iff.1 ha
            exact ⟨b, hfrontier b hb, .head hba hax⟩
        · intro ⟨a, ha, hax⟩
          exact ⟨a, List.mem_append_left _ ha, hax⟩
      · exact fun a ha => List.mem_append_right _ ha
      · intro a ha hf b hb
        have ha : a ∈ seen := (List.mem_append.1 ha).resolve_right hf
        by_cases hfr : a ∈ frontier
        · by_cases hbs : b ∈ seen
          · exact List.mem_append_left _ hbs
          · exact List.mem_append_right _ (mem_fresh_iff.2 ⟨⟨a, hfr, hb⟩, hbs⟩)
        · exact List.mem_append_left _ (hsearched a ha hfr b hb)
      · obtain ⟨b, hb⟩ := List.exists_mem_of_ne_nil (fresh step frontier seen)
          fun e => hempty (by rw [e]; rfl)
        obtain ⟨⟨a, -, hab⟩, hbs⟩ := mem_fresh_iff.1 hb
        have hlt := card_sdiff_append_lt (hdomain a b hab) hbs hb
        omega

/-! ## Classes -/

/-- What reaches each other has the same class. -/
theorem both_iff_of_both {α : Type} {r : α → α → Prop} {a b x : α} (hab : TransGen r a b)
    (hba : TransGen r b a) :
    TransGen r a x ∧ TransGen r x a ↔ TransGen r b x ∧ TransGen r x b := by
  constructor
  · intro ⟨hax, hxa⟩
    exact ⟨hba.trans hax, hxa.trans hab⟩
  · intro ⟨hbx, hxb⟩
    exact ⟨hab.trans hbx, hxb.trans hba⟩

end Milestones
