import Milestones.Proofs.Change.WellFormed
import Milestones.Proofs.Graph.Extension
import Milestones.Proofs.Graph.Listing

/-!
# Which dependencies are admitted

A new dependency is checked against the draft as it is, so one in the middle of a batch is checked
against those before it.  Still there is a condition on all dependencies of a batch together that
does not mention their order: they join milestones of the contract, under new identifiers and with
something new to say, and close no cycle, neither with what is there nor among themselves.

Of a single one the last condition can be said in terms of the graph as it was.

## Main definitions

* `ContractRecords.Orderable`: the records make a graph without cycles.
* `ContractRecords.Fits`, `ContractRecords.CanTake`: what dependencies have to be like, without and
  with the condition on cycles.

## Main statements

* `Draft.checkDependency_of_reaches`, `Draft.checkDependency_of_not_reaches`: one dependency.
* `ContractRecords.canTake_cons`: the first dependency, and then the others.
* `Draft.exists_planFrom_iff`: when a batch of dependencies is accepted.
-/

namespace Milestones

open Outcome

namespace ContractRecords

/-- The records make a graph without cycles. -/
def Orderable (r : ContractRecords) : Prop := ∃ g, r.graph = .ok g ∧ g.Acyclic

/-- The dependencies join two different milestones of the records each.  No identifier is in use
already or used twice, and nothing is said already or said twice. -/
structure Fits (r : ContractRecords) (es : List Dependency) : Prop where
  contains : ∀ e ∈ es,
    r.milestones.contains e.milestoneId = true ∧ r.milestones.contains e.dependsOnId = true
  ne : ∀ e ∈ es, e.milestoneId ≠ e.dependsOnId
  new_id : ∀ e ∈ es, r.dependencies.contains e.id = false
  nodup_ids : (es.map Dependency.id).Nodup
  new_terms : ∀ e ∈ es, ∀ x ∈ r.dependencies.toList, x.terms ≠ e.terms
  nodup_terms : (es.map Dependency.terms).Nodup

/-- Besides, they close no cycle, together with the dependencies of the records. -/
structure CanTake (r : ContractRecords) (es : List Dependency) : Prop extends r.Fits es where
  acyclic : RecordsAcyclic (r.dependencies.toList ++ es)

variable {r : ContractRecords}

/-! ## Records that make a graph -/

theorem orderable_iff : r.Orderable ↔ r.NamesContract ∧
    (∀ e ∈ r.dependencies.toList, r.milestones.contains e.milestoneId = true ∧
      r.milestones.contains e.dependsOnId = true) ∧ RecordsAcyclic r.dependencies.toList := by
  have hids : ∀ id, r.milestones.contains id = true ↔ id ∈ r.milestones.toList.map Milestone.id :=
    fun id => Table.contains_iff
  have hacyclic : ∀ {g}, r.graph = .ok g → (g.Acyclic ↔ RecordsAcyclic r.dependencies.toList) := by
    intro g hg
    have hholds := Graph.holds_of_ofRecords hg
    rw [hholds.linked.acyclic_iff, hholds.edges_eq]
  constructor
  · rintro ⟨g, hg, hg'⟩
    obtain ⟨hnames, -, hends⟩ := Graph.exists_ofRecords_iff.1 ⟨g, hg⟩
    refine ⟨hnames, fun e he => ?_, (hacyclic hg).1 hg'⟩
    rw [hids, hids]
    exact hends e he
  · rintro ⟨hnames, hends, hcycles⟩
    obtain ⟨g, hg⟩ := Graph.exists_ofRecords hnames r.milestones.nodup_ids fun e he => by
      rw [← hids, ← hids]
      exact hends e he
    exact ⟨g, hg, (hacyclic hg).2 hcycles⟩

theorem WellFormed.orderable (h : r.WellFormed) : r.Orderable := by
  obtain ⟨g, hg, -, hacyclic⟩ := h.exists_graph
  exact ⟨g, hg, hacyclic⟩

/-- The graph of the records has their milestones. -/
theorem contains_of_graph {g : Graph} (hg : r.graph = .ok g) {id : MilestoneId}
    (h : r.milestones.contains id = true) : g.contains id = true := by
  obtain ⟨m, hm, rfl⟩ := List.mem_map.1 (Table.contains_iff.1 h)
  exact Graph.contains_iff_exists_mem.2
    ⟨m, ((Graph.holds_of_ofRecords hg).mem_milestones m).2 hm, rfl⟩

/-! ## One dependency and several -/

/-- A record with a new identifier comes to the others. -/
theorem mem_insert_of_new {t : Table Dependency} {e : Dependency} (h : t.contains e.id = false)
    {x : Dependency} : x ∈ (t.insert e).toList ↔ x = e ∨ x ∈ t.toList := by
  rw [Table.mem_toList_insert]
  refine or_congr_right (and_iff_left_of_imp fun hx heq => ?_)
  have hin := Table.contains_of_mem hx
  rw [heq] at hin
  exact Bool.false_ne_true (h.symm.trans hin)

/-- Dependencies can be taken together exactly if the first one can be taken, and then the
others. -/
theorem canTake_cons {e : Dependency} {es : List Dependency} :
    r.CanTake (e :: es) ↔
      r.CanTake [e] ∧ ({ r with dependencies := r.dependencies.insert e } : ContractRecords).CanTake
        es := by
  constructor
  · intro h
    have hid := h.new_id e List.mem_cons_self
    obtain ⟨hids, hids'⟩ := List.nodup_cons.1 h.nodup_ids
    obtain ⟨hterms, hterms'⟩ := List.nodup_cons.1 h.nodup_terms
    have hrest : ∀ x ∈ es, x ∈ e :: es := fun x hx => List.mem_cons_of_mem e hx
    have hfirst : ∀ x ∈ [e], x ∈ e :: es := by simp
    refine
      ⟨{ contains := fun x hx => h.contains x (hfirst x hx)
         ne := fun x hx => h.ne x (hfirst x hx)
         new_id := fun x hx => h.new_id x (hfirst x hx)
         nodup_ids := List.nodup_singleton _
         new_terms := fun x hx => h.new_terms x (hfirst x hx)
         nodup_terms := List.nodup_singleton _
         acyclic := h.acyclic.mono ?_ },
       { contains := fun x hx => h.contains x (hrest x hx)
         ne := fun x hx => h.ne x (hrest x hx)
         new_id := fun x hx => ?_
         nodup_ids := hids'
         new_terms := fun x hx y hy => ?_
         nodup_terms := hterms'
         acyclic := h.acyclic.mono ?_ }⟩
    · intro x
      simp only [List.mem_append, List.mem_cons]
      tauto
    · rw [← Bool.not_eq_true, Table.contains_insert]
      rintro (heq | hin)
      · exact hids (List.mem_map.2 ⟨x, hx, heq.symm⟩)
      · exact Bool.false_ne_true ((h.new_id x (hrest x hx)).symm.trans hin)
    · rcases (mem_insert_of_new hid).1 hy with rfl | hy
      · exact fun heq => hterms (List.mem_map.2 ⟨x, hx, heq.symm⟩)
      · exact h.new_terms x (hrest x hx) y hy
    · intro x
      simp only [List.mem_append, List.mem_cons, mem_insert_of_new hid]
      tauto
  · rintro ⟨h, h'⟩
    have hid := h.new_id e List.mem_cons_self
    have hold : ∀ y ∈ r.dependencies.toList, y ∈ (r.dependencies.insert e).toList :=
      fun y hy => (mem_insert_of_new hid).2 (.inr hy)
    have hnew : e ∈ (r.dependencies.insert e).toList := (mem_insert_of_new hid).2 (.inl rfl)
    have hboth : ∀ {P : Dependency → Prop}, (∀ x ∈ [e], P x) → (∀ x ∈ es, P x) →
        ∀ x ∈ e :: es, P x := fun hfirst hrest x hx =>
      (List.mem_cons.1 hx).elim (fun heq => hfirst x (List.mem_singleton.2 heq)) (hrest x)
    have hid' : ∀ x ∈ es, e.id ≠ x.id ∧ r.dependencies.contains x.id = false := by
      intro x hx
      have hnone := h'.new_id x hx
      rw [← Bool.not_eq_true, Table.contains_insert, not_or, Bool.not_eq_true] at hnone
      exact hnone
    refine
      { contains := hboth h.contains h'.contains
        ne := hboth h.ne h'.ne
        new_id := hboth h.new_id fun x hx => (hid' x hx).2
        nodup_ids := List.nodup_cons.2 ⟨?_, h'.nodup_ids⟩
        new_terms := hboth h.new_terms fun x hx y hy => h'.new_terms x hx y (hold y hy)
        nodup_terms := List.nodup_cons.2 ⟨?_, h'.nodup_terms⟩
        acyclic := h'.acyclic.mono ?_ }
    · rintro hmem
      obtain ⟨x, hx, heq⟩ := List.mem_map.1 hmem
      exact (hid' x hx).1 heq.symm
    · rintro hmem
      obtain ⟨x, hx, heq⟩ := List.mem_map.1 hmem
      exact h'.new_terms x hx e hnew heq.symm
    · intro x
      simp only [List.mem_append, List.mem_cons, mem_insert_of_new hid]
      tauto

/-- The order of the dependencies does not matter. -/
theorem CanTake.perm {es es' : List Dependency} (h : r.CanTake es) (hperm : es.Perm es') :
    r.CanTake es' where
  contains := fun e he => h.contains e (hperm.mem_iff.2 he)
  ne := fun e he => h.ne e (hperm.mem_iff.2 he)
  new_id := fun e he => h.new_id e (hperm.mem_iff.2 he)
  nodup_ids := (hperm.map _).nodup_iff.1 h.nodup_ids
  new_terms := fun e he => h.new_terms e (hperm.mem_iff.2 he)
  nodup_terms := (hperm.map _).nodup_iff.1 h.nodup_terms
  acyclic := h.acyclic.mono fun _ he => ((hperm.append_left _).mem_iff).2 he

/-- Records that took a dependency still make a graph without cycles. -/
theorem CanTake.orderable {e : Dependency} (h : r.CanTake [e]) (hr : r.Orderable) :
    ({ r with dependencies := r.dependencies.insert e } : ContractRecords).Orderable := by
  obtain ⟨hnames, hends, -⟩ := orderable_iff.1 hr
  have hmem : ∀ {x}, x ∈ (r.dependencies.insert e).toList → x = e ∨ x ∈ r.dependencies.toList :=
    fun hx => (mem_insert_of_new (h.new_id e List.mem_cons_self)).1 hx
  refine orderable_iff.2 ⟨hnames, fun x hx => ?_, h.acyclic.mono fun x hx => ?_⟩
  · rcases hmem hx with rfl | hx
    · exact h.contains x List.mem_cons_self
    · exact hends x hx
  · rw [List.mem_append, List.mem_singleton]
    exact (hmem hx).symm

end ContractRecords

namespace Draft

variable {now : Instant} {d : Draft} {e : Dependency} {history : List ProgressReading}

/-- None of the milestones of the draft is noted to belong to another contract. -/
def NotesOthers (d : Draft) : Prop :=
  ∀ id, d.milestones.contains id = true → d.elsewhere.lookup id = none

theorem exists_find_iff (hd : d.NotesOthers) {id : MilestoneId} :
    (∃ m, d.find id = .ok m) ↔ d.milestones.contains id = true := by
  simp only [find_eq_ok, Table.contains_iff_get?]
  constructor
  · rintro ⟨m, -, hm⟩
    exact ⟨m, hm⟩
  · rintro ⟨m, hm⟩
    exact ⟨m, hd id (Table.contains_iff_get?.2 ⟨m, hm⟩), hm⟩

/-! ## One dependency -/

/-- Whether a dependency that fits is admitted is decided by the graph that has it. -/
theorem checkDependency_of_fits (hd : d.NotesOthers) {g : Graph} (hg : (d.records history).graph = .ok g)
    (h : (d.records history).Fits [e]) : ∃ g', g.addDependency e = .ok g' ∧
      d.checkDependency e = (g'.workOrder.mapError .cycle).map fun _ => () := by
  obtain ⟨hdependent, hprerequisite⟩ := h.contains e List.mem_cons_self
  obtain ⟨m, hm⟩ := (exists_find_iff hd).2 hdependent
  obtain ⟨n, hn⟩ := (exists_find_iff hd).2 hprerequisite
  obtain ⟨g', hg'⟩ := Graph.exists_addDependency (ContractRecords.contains_of_graph hg hdependent)
    (ContractRecords.contains_of_graph hg hprerequisite)
  have hid : d.dependencies.contains e.id = false := h.new_id e List.mem_cons_self
  have hne := h.ne e List.mem_cons_self
  have hrepeated : (d.dependencies.toList.any fun x => x.milestoneId == e.milestoneId &&
      x.dependsOnId == e.dependsOnId && x.kind == e.kind) = false := by
    rw [List.any_eq_false]
    intro x hx heq
    refine h.new_terms e List.mem_cons_self x hx ?_
    simpa [Dependency.terms, and_assoc] using heq
  have hgraph : Graph.ofRecords d.contractId d.milestones.toList (d.dependencies.toList ++ [e]) =
      .ok g' := by
    rw [Graph.ofRecords_append_singleton]
    exact bind_eq_ok.2 ⟨g, hg, hg'⟩
  refine ⟨g', hg', ?_⟩
  simp only [checkDependency, hm, hn, hne, hid, hrepeated, hgraph, if_false, Bool.false_eq_true]
  change (g'.workOrder.mapError Rejection.cycle >>= fun _ => pure ()) = _
  cases g'.workOrder <;> rfl

/-- A dependency whose end led to its start already is rejected for the cycles that it closes.
They make one group, of the milestones from its end to its start. -/
theorem checkDependency_of_reaches (hd : d.NotesOthers) {g : Graph}
    (hg : (d.records history).graph = .ok g) (hacyclic : g.Acyclic) (h : (d.records history).Fits [e])
    (hreaches : g.Reaches e.milestoneId e.dependsOnId) :
    ∃ r, d.checkDependency e = .error (.cycle r) ∧ r.groups = [r.members] ∧
      ∀ id, id ∈ r.members ↔ g.Between e.milestoneId e.dependsOnId id := by
  obtain ⟨g', hg', hcheck⟩ := checkDependency_of_fits hd hg h
  have hbuilt := Graph.built_of_ofRecords hg
  have hextends := Graph.extends_of_addDependency hbuilt.linked hg'
  have hcyclic : ¬g'.Acyclic := fun hnone =>
    (hextends.acyclic_iff hacyclic (h.ne e List.mem_cons_self)).1 hnone hreaches
  obtain ⟨r, hr, hdescribes⟩ :=
    Graph.workOrder_describes_of_not_acyclic (hbuilt.addDependency e hg') hcyclic
  refine ⟨r, ?_, hextends.groups_eq hacyclic hdescribes hcyclic⟩
  rw [hcheck, hr]
  rfl

/-- Every other dependency that fits is admitted. -/
theorem checkDependency_of_not_reaches (hd : d.NotesOthers) {g : Graph}
    (hg : (d.records history).graph = .ok g) (hacyclic : g.Acyclic) (h : (d.records history).Fits [e])
    (hreaches : ¬g.Reaches e.milestoneId e.dependsOnId) : d.checkDependency e = .ok () := by
  obtain ⟨g', hg', hcheck⟩ := checkDependency_of_fits hd hg h
  have hlinked := (Graph.built_of_ofRecords hg).linked
  have hacyclic' := ((Graph.extends_of_addDependency hlinked hg').acyclic_iff hacyclic
    (h.ne e List.mem_cons_self)).2 hreaches
  obtain ⟨o, ho⟩ := (Graph.exists_workOrder_iff (hlinked.addDependency hg')).2 hacyclic'
  rw [hcheck, ho]
  rfl

theorem Admits.fits (h : d.Admits e) (hd : d.NotesOthers) : (d.records history).Fits [e] := by
  refine
    { contains := ?_, ne := ?_, new_id := ?_, nodup_ids := List.nodup_singleton _,
      new_terms := ?_, nodup_terms := List.nodup_singleton _ }
  all_goals
    intro x hx
    cases List.mem_singleton.1 hx
  · exact ⟨(exists_find_iff hd).1 h.find_dependent, (exists_find_iff hd).1 h.find_prerequisite⟩
  · exact h.ne
  · exact h.new_id
  · intro y hy heq
    simp only [Dependency.terms, Prod.mk.injEq] at heq
    exact h.new y hy heq.1 heq.2.1 heq.2.2

/-- The checks of a dependency, without the order in which they are made. -/
theorem checkDependency_eq_ok_iff (hd : d.NotesOthers) (hr : (d.records history).Orderable) :
    d.checkDependency e = .ok () ↔ (d.records history).CanTake [e] := by
  constructor
  · intro h
    have hadmits := admits_of_checkDependency h
    exact { hadmits.fits hd with acyclic := hadmits.recordsAcyclic }
  · intro h
    obtain ⟨g, hg, -⟩ := hr
    obtain ⟨g', hg', hcheck⟩ := checkDependency_of_fits hd hg h.toFits
    have hlinked := (Graph.built_of_ofRecords hg).linked.addDependency hg'
    have hacyclic : g'.Acyclic := by
      rw [hlinked.acyclic_iff, (Graph.addDependency_eq_ok hg').2.2]
      change RecordsAcyclic (g.edges ++ [e])
      rw [(Graph.holds_of_ofRecords hg).edges_eq]
      exact h.acyclic
    obtain ⟨o, ho⟩ := (Graph.exists_workOrder_iff hlinked).2 hacyclic
    rw [hcheck, ho]
    rfl

/-! ## Several dependencies -/

/-- Dependencies are accepted one after the other exactly if they can be taken together. -/
theorem exists_planFrom_iff (hd : d.NotesOthers) (hr : (d.records history).Orderable) (index : Nat)
    {es : List Dependency} :
    (∃ planned, planFrom now index d (es.map .addDependency) = .ok planned) ↔
      (d.records history).CanTake es := by
  induction es generalizing index d with
  | nil =>
    obtain ⟨-, -, hacyclic⟩ := ContractRecords.orderable_iff.1 hr
    refine iff_of_true ⟨_, rfl⟩ ?_
    exact { contains := by simp, ne := by simp, new_id := by simp, nodup_ids := List.nodup_nil
            new_terms := by simp, nodup_terms := List.nodup_nil
            acyclic := by rwa [List.append_nil] }
  | cons e rest ih =>
    let d' : Draft := { d with dependencies := d.dependencies.insert e }
    have hfirst : ∀ planned, d.mutate now (.addDependency e) = .ok planned ↔
        d.checkDependency e = .ok () ∧ planned = (d', { writes := [.insertDependency e] }) := by
      intro planned
      rw [mutate, bind_eq_ok]
      constructor
      · rintro ⟨_, hcheck, h⟩
        exact ⟨hcheck, (Except.ok.inj h).symm⟩
      · rintro ⟨hcheck, rfl⟩
        exact ⟨_, hcheck, rfl⟩
    rw [ContractRecords.canTake_cons, ← checkDependency_eq_ok_iff hd hr]
    constructor
    · rintro ⟨planned, h⟩
      obtain ⟨first, h₁, h⟩ := bind_eq_ok.1 h
      obtain ⟨hcheck, rfl⟩ := (hfirst first).1 (mapError_eq_ok.1 h₁)
      obtain ⟨second, h₂, -⟩ := bind_eq_ok.1 h
      have htake := (checkDependency_eq_ok_iff hd hr).1 hcheck
      exact ⟨hcheck, (ih (d := d') hd (htake.orderable hr) (index + 1)).1 ⟨_, h₂⟩⟩
    · rintro ⟨hcheck, hrest⟩
      have htake := (checkDependency_eq_ok_iff hd hr).1 hcheck
      obtain ⟨second, h₂⟩ := (ih (d := d') hd (htake.orderable hr) (index + 1)).2 hrest
      have h₁ := mapError_eq_ok (f := fun r => (index, r)).2 ((hfirst _).2 ⟨hcheck, rfl⟩)
      exact ⟨_, bind_eq_ok.2 ⟨_, h₁, bind_eq_ok.2 ⟨second, h₂, rfl⟩⟩⟩

end Draft

end Milestones
