import Mathlib
import Milestones.Failure

/-!
# Opening computations that can fail

A chain of computations succeeds when every one of them does.  The lemmas here take such
chains apart, so that no later proof unfolds the monad.

## Main statements

* `Outcome.bind_eq_ok`, `Outcome.bind_eq_error`: what one step of a chain leaves open.
* `Outcome.bind_map_comm`, `Outcome.mapError_bind_map_comm`: a chain with a translated start, also
  up to a translation of failures.
* `Outcome.foldlM_invariant`: what every step keeps, a whole fold keeps.
* `Outcome.exists_of_foldlM_eq_error`: a fold fails in one of its steps.
-/

namespace Milestones

namespace Outcome

variable {ε ε' α β σ : Type}

/-- A chain succeeds exactly if its parts do. -/
theorem bind_eq_ok {x : Except ε α} {f : α → Except ε β} {b : β} :
    x >>= f = .ok b ↔ ∃ a, x = .ok a ∧ f a = .ok b := by
  cases x <;> simp [bind, Except.bind]

/-- A chain fails in its first part or after it. -/
theorem bind_eq_error {x : Except ε α} {f : α → Except ε β} {e : ε} :
    x >>= f = .error e ↔ x = .error e ∨ ∃ a, x = .ok a ∧ f a = .error e := by
  cases x <;> simp [bind, Except.bind]

@[simp] theorem mapError_eq_ok {f : ε → ε'} {x : Except ε α} {a : α} :
    x.mapError f = .ok a ↔ x = .ok a := by
  cases x <;> simp [Except.mapError]

@[simp] theorem mapError_eq_error {f : ε → ε'} {x : Except ε α} {e : ε'} :
    x.mapError f = .error e ↔ ∃ e', x = .error e' ∧ f e' = e := by
  cases x <;> simp [Except.mapError]

/-- What is made of an answer does not change a failure. -/
@[simp] theorem map_eq_error {f : α → β} {x : Except ε α} {e : ε} :
    x.map f = .error e ↔ x = .error e := by
  cases x <;> simp [Except.map]

/-- A chain may start from a translated answer, if the rest of the chain translates as well. -/
theorem bind_map_comm {α' β' : Type} {x : Except ε α} {f : α → Except ε β} {f' : α' → Except ε β'}
    {h : α → α'} {k : β → β'} (hf : ∀ a, x = .ok a → f' (h a) = (f a).map k) :
    x.map h >>= f' = (x >>= f).map k := by
  cases x with
  | error e => rfl
  | ok a => exact hf a rfl

/-- Chains go on alike from starts that are alike up to a translation of failures. -/
theorem mapError_bind_congr {f : ε → ε'} {x x' : Except ε α} {g g' : α → Except ε β}
    (hx : x'.mapError f = x.mapError f) (hg : ∀ a, (g' a).mapError f = (g a).mapError f) :
    (x' >>= g').mapError f = (x >>= g).mapError f := by
  cases x with
  | error e =>
    obtain ⟨e', rfl, he⟩ := mapError_eq_error.1 hx
    exact congrArg Except.error he
  | ok a =>
    obtain rfl := mapError_eq_ok.1 hx
    exact hg a

/-- The same with a start that is translated. -/
theorem mapError_bind_map_comm {α' β' : Type} {f : ε → ε'} {x : Except ε α} {x' : Except ε α'}
    {g : α → Except ε β} {g' : α' → Except ε β'} {h : α → α'} {k : β → β'}
    (hx : x'.mapError f = (x.map h).mapError f)
    (hg : ∀ a, x = .ok a → (g' (h a)).mapError f = ((g a).map k).mapError f) :
    (x' >>= g').mapError f = ((x >>= g).map k).mapError f := by
  refine (mapError_bind_congr hx fun _ => rfl).trans ?_
  cases x with
  | error e => rfl
  | ok a => exact hg a rfl

/-- What every step of a fold keeps, the fold keeps. -/
theorem foldlM_invariant_of_mem {f : σ → β → Except ε σ} (P : σ → Prop) {bs : List β}
    (step : ∀ b ∈ bs, ∀ s s', P s → f s b = .ok s' → P s') {s s' : σ} (hs : P s)
    (h : bs.foldlM f s = .ok s') : P s' := by
  induction bs generalizing s with
  | nil =>
    cases h
    exact hs
  | cons b rest ih =>
    rw [List.foldlM_cons, bind_eq_ok] at h
    obtain ⟨s₁, h₁, h₂⟩ := h
    exact ih (fun x hx => step x (List.mem_cons_of_mem b hx))
      (step b List.mem_cons_self s s₁ hs h₁) h₂

/-- What every step keeps, a whole fold keeps. -/
theorem foldlM_invariant {f : σ → β → Except ε σ} (P : σ → Prop)
    (step : ∀ s b s', P s → f s b = .ok s' → P s') {bs : List β} {s s' : σ} (hs : P s)
    (h : bs.foldlM f s = .ok s') : P s' :=
  foldlM_invariant_of_mem P (fun b _ s s' => step s b s') hs h

/-- A fold fails in one of its steps. -/
theorem exists_of_foldlM_eq_error {f : σ → β → Except ε σ} {bs : List β} {s : σ}
    {e : ε} (h : bs.foldlM f s = .error e) : ∃ s' b, b ∈ bs ∧ f s' b = .error e := by
  induction bs generalizing s with
  | nil => cases h
  | cons b rest ih =>
    rw [List.foldlM_cons] at h
    rcases bind_eq_error.1 h with h | ⟨s', -, h⟩
    · exact ⟨s, b, List.mem_cons_self, h⟩
    · obtain ⟨s', b', hb', h⟩ := ih h
      exact ⟨s', b', List.mem_cons_of_mem b hb', h⟩

/-- What commutes with every step of a fold commutes with the fold, if it takes nothing but what the
steps keep. -/
theorem foldlM_comm_of_invariant {σ' : Type} {f : σ → β → Except ε σ} {f' : σ' → β → Except ε σ'}
    {h : σ → σ'} (P : σ → Prop) (hstep : ∀ s b, P s → f' (h s) b = (f s b).map h)
    (hkeep : ∀ s b s', P s → f s b = .ok s' → P s') (bs : List β) {s : σ} (hs : P s) :
    bs.foldlM f' (h s) = (bs.foldlM f s).map h := by
  induction bs generalizing s with
  | nil => rfl
  | cons b rest ih =>
    rw [List.foldlM_cons, List.foldlM_cons, hstep s b hs]
    exact bind_map_comm fun s' hs' => ih (hkeep s b s' hs hs')

/-- What commutes with every step of a fold commutes with the fold. -/
theorem foldlM_map_comm {f : σ → β → Except ε σ} {h : σ → σ} {k : β → β}
    (hstep : ∀ s b, f (h s) (k b) = (f s b).map h) (bs : List β) (s : σ) :
    (bs.map k).foldlM f (h s) = (bs.foldlM f s).map h := by
  rw [List.foldlM_map]
  exact foldlM_comm_of_invariant (fun _ => True) (fun s b _ => hstep s b)
    (fun _ _ _ _ _ => trivial) bs trivial

/-- A chain goes on with the first result, if there is one. -/
theorem bind_of_eq_some {x : Option α} {f : α → Option β} {a : α} (h : x = some a) :
    x >>= f = f a := by
  rw [h]
  rfl

/-- A computation goes through a whole list if it goes through every entry. -/
theorem mapM_eq_some_iff {f : α → Option β} {as : List α} {bs : List β} :
    as.mapM f = some bs ↔ as.map f = bs.map some := by
  induction as generalizing bs with
  | nil => cases bs <;> simp
  | cons a rest ih =>
    rw [List.mapM_cons]
    cases bs with
    | nil => simp [Option.bind_eq_some_iff]
    | cons b bs => simp [Option.bind_eq_some_iff, ih]

/-- A computation that goes through every entry goes through the list. -/
theorem exists_mapM_eq_some {f : α → Option β} {as : List α} (h : ∀ a ∈ as, ∃ b, f a = some b) :
    ∃ bs, as.mapM f = some bs := by
  induction as with
  | nil => exact ⟨[], rfl⟩
  | cons a rest ih =>
    obtain ⟨b, hb⟩ := h a List.mem_cons_self
    obtain ⟨bs, hbs⟩ := ih fun x hx => h x (List.mem_cons_of_mem a hx)
    exact ⟨b :: bs, by simp [List.mapM_cons, hb, hbs]⟩

/-- Every result comes from an entry. -/
theorem exists_of_mem_mapM {f : α → Option β} {as : List α} {bs : List β}
    (h : as.mapM f = some bs) {b : β} (hb : b ∈ bs) : ∃ a ∈ as, f a = some b := by
  have hmem : some b ∈ as.map f := by
    rw [mapM_eq_some_iff.1 h]
    exact List.mem_map_of_mem hb
  exact List.mem_map.1 hmem

/-- What every result keeps of its entry, the results keep of the list. -/
theorem map_eq_of_mapM {f : α → Option β} {γ : Type} {k : α → γ} {k' : β → γ}
    (hk : ∀ a b, f a = some b → k' b = k a) {as : List α} {bs : List β}
    (h : as.mapM f = some bs) : bs.map k' = as.map k := by
  induction as generalizing bs with
  | nil =>
    cases h
    rfl
  | cons a rest ih =>
    rw [List.mapM_cons] at h
    obtain ⟨b, hb, h⟩ := Option.bind_eq_some_iff.1 h
    obtain ⟨bs, hbs, h⟩ := Option.bind_eq_some_iff.1 h
    cases h
    rw [List.map_cons, List.map_cons, hk a b hb, ih hbs]

@[simp] theorem orFault_eq_ok {f : Fault} {x : Option α} {a : α} :
    (orFault f x : Outcome ε α) = .ok a ↔ x = some a := by
  cases x <;> simp [orFault]

@[simp] theorem orFault_eq_error {f : Fault} {x : Option α} {e : Failure ε} :
    (orFault f x : Outcome ε α) = .error e ↔ x = none ∧ .fault f = e := by
  cases x <;> simp [orFault]

@[simp] theorem ofExcept_eq_ok {f : ε → ε'} {x : Except ε α} {a : α} :
    (ofExcept f x : Outcome ε' α) = .ok a ↔ x = .ok a := by
  cases x <;> simp [ofExcept, Except.mapError]

@[simp] theorem ofExcept_eq_error {f : ε → ε'} {x : Except ε α} {e : Failure ε'} :
    (ofExcept f x : Outcome ε' α) = .error e ↔ ∃ e', x = .error e' ∧ .refused (f e') = e := by
  cases x <;> simp [ofExcept, Except.mapError]

end Outcome

end Milestones
