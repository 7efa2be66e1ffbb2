import Mathlib.Data.List.Nodup
import Milestones.Planner.Access

/-!
# Access stays exclusive

Whatever holders ask for and give up, a contract that is held for writing is held once, and nobody
holds two contracts.  A hold ends by what its own holder does, and a contract that nobody asks for
does not become any less free.  So requests for different contracts do not disturb each other.

## Main definitions

* `Access.Exclusive`: who holds what is in order.
* `Access.Event`, `Access.afterAll`: what holders do, one after the other.

## Main statements

* `Access.request_fst_iff`: when a request is granted.
* `Access.Exclusive.after`, `Access.exclusive_afterAll`: access stays exclusive.
* `Access.mem_holds_afterAll_iff`: nobody else ends or changes a hold.
* `Access.isFree_afterAll`: a contract stays as free as it is until somebody asks for it.
-/

namespace Milestones

namespace Access

variable {a : Access} {who : String} {c : ContractId} {mode : AccessMode} {h : Hold}

/-! ## One request -/

theorem isFree_iff : a.isFree c mode = true ↔
    ∀ h ∈ a.holds, h.contractId = c → mode = .reading ∧ h.mode = .reading := by
  rw [isFree, List.all_eq_true]
  refine forall₂_congr fun h _ => ?_
  by_cases hc : h.contractId = c <;> simp [hc]

/-- Readers get a contract that nobody writes, and writers one that nobody has. -/
theorem request_fst_iff : (a.request who c mode).1 = true ↔
    (∀ h ∈ a.holds, h.contractId = c → h.mode = .reading) ∧
      (mode = .writing → ∀ h ∈ a.holds, h.contractId ≠ c) := by
  have hfree : (a.request who c mode).1 = a.isFree c mode := by
    rw [request]
    split <;> simp [*]
  rw [hfree, isFree_iff]
  cases mode <;> grind

/-- A request that is granted replaces what its holder had. -/
theorem mem_holds_request (hfree : a.isFree c mode = true) :
    h ∈ (a.request who c mode).2.holds ↔
      (h ∈ a.holds ∧ h.holder ≠ who) ∨ h = ⟨who, c, mode⟩ := by
  rw [request, if_pos hfree]
  simp [release]

/-- A request that is refused changes no hold. -/
theorem holds_request_of_not_free (hbusy : a.isFree c mode = false) :
    (a.request who c mode).2.holds = a.holds := by
  rw [request, hbusy]
  rfl

theorem mem_holds_release : h ∈ (a.release who).holds ↔ h ∈ a.holds ∧ h.holder ≠ who := by
  simp [release]

/-- Every request is noted, also one that is refused. -/
theorem seen_request : (a.request who c mode).2.seen =
    if a.seen.contains c then a.seen else a.seen ++ [c] := by
  rw [request]
  cases a.isFree c mode <;> rfl

theorem mem_seen_request {x : ContractId} :
    x ∈ (a.request who c mode).2.seen ↔ x ∈ a.seen ∨ x = c := by
  rw [seen_request]
  split
  · rename_i hold
    rw [List.contains_iff_mem] at hold
    exact ⟨.inl, fun hx => hx.elim id fun hc => hc ▸ hold⟩
  · simp

/-! ## What happens one after the other -/

/-- What a holder does. -/
inductive Event where
  | request (holder : String) (c : ContractId) (mode : AccessMode)
  | release (holder : String)
deriving DecidableEq

namespace Event

/-- Who does it. -/
def holder : Event → String
  | request holder _ _ => holder
  | release holder => holder

/-- The contract that is asked for. -/
def contract? : Event → Option ContractId
  | request _ c _ => some c
  | release _ => none

end Event

/-- What comes of it. -/
def after (a : Access) : Event → Access
  | .request holder c mode => (a.request holder c mode).2
  | .release holder => a.release holder

def afterAll (a : Access) (events : List Event) : Access := events.foldl after a

theorem mem_seen_after {e : Event} :
    c ∈ (a.after e).seen ↔ c ∈ a.seen ∨ e.contract? = some c := by
  cases e with
  | request who c' mode =>
    rw [after, mem_seen_request]
    exact or_congr_right (by rw [Event.contract?, Option.some_inj, eq_comm])
  | release who => simp [after, release, Event.contract?]

/-- Who holds what is in order. -/
structure Exclusive (a : Access) : Prop where
  /-- A contract that is held for writing is held once. -/
  alone : ∀ h ∈ a.holds, ∀ h' ∈ a.holds, h.contractId = h'.contractId → h.mode = .writing → h = h'
  /-- Nobody holds two contracts. -/
  one : (a.holds.map Hold.holder).Nodup
  /-- Every contract that was asked for is noted once. -/
  nodup_seen : a.seen.Nodup
  mem_seen : ∀ h ∈ a.holds, h.contractId ∈ a.seen

namespace Exclusive

theorem empty : ({} : Access).Exclusive := ⟨by simp, by simp, by simp, by simp⟩

theorem release (h : a.Exclusive) (who : String) : (a.release who).Exclusive where
  alone x hx y hy := h.alone x (mem_holds_release.1 hx).1 y (mem_holds_release.1 hy).1
  one := h.one.sublist (List.filter_sublist.map _)
  nodup_seen := h.nodup_seen
  mem_seen x hx := h.mem_seen x (mem_holds_release.1 hx).1

theorem nodup_seen_request (h : a.Exclusive) : (a.request who c mode).2.seen.Nodup := by
  rw [seen_request]
  split
  · exact h.nodup_seen
  · rename_i hnew
    rw [List.contains_iff_mem] at hnew
    rw [← List.concat_eq_append]
    exact h.nodup_seen.concat hnew

/-- A hold that is granted is for a contract on which nobody writes, and is alone if it is for
writing. -/
theorem request (h : a.Exclusive) : (a.request who c mode).2.Exclusive := by
  cases hfree : a.isFree c mode with
  | false =>
    have hholds : (a.request who c mode).2.holds = a.holds := holds_request_of_not_free hfree
    refine ⟨?_, ?_, h.nodup_seen_request, ?_⟩
    · rw [hholds]
      exact h.alone
    · rw [hholds]
      exact h.one
    · intro x hx
      rw [hholds] at hx
      exact mem_seen_request.2 (.inl (h.mem_seen x hx))
  | true =>
    have hothers := isFree_iff.1 hfree
    refine ⟨fun x hx y hy hxy hmode => ?_, ?_, h.nodup_seen_request, fun x hx => ?_⟩
    · rcases (mem_holds_request hfree).1 hx with ⟨hx, -⟩ | rfl <;>
        rcases (mem_holds_request hfree).1 hy with ⟨hy, -⟩ | rfl
      · exact h.alone x hx y hy hxy hmode
      · cases hmode.symm.trans (hothers x hx hxy).2
      · cases hmode.symm.trans (hothers y hy hxy.symm).1
      · rfl
    · rw [Access.request, if_pos hfree, List.map_append, List.map_singleton,
        ← List.concat_eq_append]
      exact (h.release who).one.concat (by simp [Access.release])
    · rcases (mem_holds_request hfree).1 hx with ⟨hx, -⟩ | rfl
      · exact mem_seen_request.2 (.inl (h.mem_seen x hx))
      · exact mem_seen_request.2 (.inr rfl)

theorem after (h : a.Exclusive) (e : Event) : (a.after e).Exclusive := by
  cases e with
  | request who c mode => exact h.request
  | release who => exact h.release who

end Exclusive

/-- Access stays exclusive whatever happens. -/
theorem exclusive_afterAll (h : a.Exclusive) (events : List Event) :
    (a.afterAll events).Exclusive := by
  induction events generalizing a with
  | nil => exact h
  | cons e rest ih => exact ih (h.after e)

/-! ## Who does not disturb whom -/

/-- A holder that does nothing keeps what it has, and gets nothing. -/
theorem mem_holds_after_iff {e : Event} (he : e.holder ≠ h.holder) :
    h ∈ (a.after e).holds ↔ h ∈ a.holds := by
  cases e with
  | request who c mode =>
    cases hfree : a.isFree c mode with
    | false => rw [after, holds_request_of_not_free hfree]
    | true =>
      rw [after, mem_holds_request hfree]
      constructor
      · rintro (⟨hh, -⟩ | rfl)
        · exact hh
        · exact absurd rfl he
      · exact fun hh => .inl ⟨hh, Ne.symm he⟩
  | release who => exact mem_holds_release.trans (and_iff_left (Ne.symm he))

theorem mem_holds_afterAll_iff {events : List Event} (hothers : ∀ e ∈ events, e.holder ≠ h.holder) :
    h ∈ (a.afterAll events).holds ↔ h ∈ a.holds := by
  induction events generalizing a with
  | nil => rfl
  | cons e rest ih =>
    exact (ih fun e he => hothers e (List.mem_cons_of_mem _ he)).trans
      (mem_holds_after_iff (hothers e List.mem_cons_self))

/-- Only for a contract that is asked for there are new holds. -/
theorem mem_holds_of_after {e : Event} (he : e.contract? ≠ some h.contractId)
    (hh : h ∈ (a.after e).holds) : h ∈ a.holds := by
  cases e with
  | request who c mode =>
    cases hfree : a.isFree c mode with
    | false => rwa [after, holds_request_of_not_free hfree] at hh
    | true =>
      rcases (mem_holds_request hfree).1 hh with ⟨hh, -⟩ | rfl
      · exact hh
      · exact absurd rfl he
  | release who => exact (mem_holds_release.1 hh).1

/-- A contract stays as free as it is until somebody asks for it. -/
theorem isFree_afterAll {events : List Event} (hothers : ∀ e ∈ events, e.contract? ≠ some c)
    (hfree : a.isFree c mode = true) : (a.afterAll events).isFree c mode = true := by
  induction events generalizing a with
  | nil => exact hfree
  | cons e rest ih =>
    refine ih (fun e he => hothers e (List.mem_cons_of_mem _ he)) (isFree_iff.2 fun x hx hxc => ?_)
    have he : e.contract? ≠ some x.contractId := hxc ▸ hothers e List.mem_cons_self
    exact isFree_iff.1 hfree x (mem_holds_of_after he hx) hxc

/-- The contracts that were ever asked for. -/
theorem mem_seen_afterAll {events : List Event} :
    c ∈ (a.afterAll events).seen ↔ c ∈ a.seen ∨ ∃ e ∈ events, e.contract? = some c := by
  induction events generalizing a with
  | nil => simp [afterAll]
  | cons e rest ih =>
    rw [afterAll, List.foldl_cons, ← afterAll, ih, mem_seen_after, or_assoc,
      List.exists_mem_cons_iff]

/-- Two readers share a contract; a writer gets it after both have given it up, and gets another one
at any time. -/
example :
    let readers := (({} : Access).request "a" 1 .reading).2.request "b" 1 .reading
    readers.1 = true ∧ (readers.2.request "c" 1 .writing).1 = false ∧
      (readers.2.request "c" 2 .writing).1 = true ∧
      (((readers.2.release "a").release "b").request "c" 1 .writing).1 = true := by decide

end Access

end Milestones
