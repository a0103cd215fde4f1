import Turbofish.Proofs.Tracing.Transparent

/-!
# What the entries of a trace describe

Every entry in the trace of a run belongs to a scope of the script that is run, and it
describes what displaying the parts of that scope writes, up to the first of them that cannot
be displayed. Displaying is never traced, so nothing is written to the trace in the middle of
an entry.
-/
namespace Turbofish

open Trace

namespace Script

/-- The text of a run, which is laid out when all of it is there. -/
def Run.shown (r : Run) : Output UInt8 :=
  match r.text with
  | .ok t => .ofList t
  | .error f => .fail f

/-- What is displayed does not depend on the state, and displaying leaves no record. -/
theorem display_shown (r : Script) (s : State) :
    (r.display s).shown = r.shown ∧ (r.display s).records = [] := by
  rw [display_of_state]
  refine ⟨?_,rfl⟩
  unfold shown Run.shown Run.text Output.toExcept
  cases r.output.fault <;> rfl

/-- The sites of the scopes of a script. -/
def sites : Script → List Site
  | done | fail _ => []
  | token _ r | remark _ r => r.sites
  | scope site b r => site :: (b.sites ++ r.sites)

end Script

/-- An entry shows no more than the parts that it describes. -/
theorem Site.describe_congr {site : Site} {shown shown' : Script → Output UInt8}
    (h : ∀ part ∈ site.described, shown part = shown' part) :
    site.describe shown = site.describe shown' := by
  cases site with
  | qualifiedPath self position size =>
      rw [describe,describe,h _ (List.mem_singleton_self _)]
  | constraint name bounds =>
      have hbounds : (bounds.map fun b => shown b.script) = bounds.map fun b => shown' b.script :=
        List.map_congr_left fun b hb => h _ (List.mem_map_of_mem hb)
      rw [describe,describe,hbounds]
  | path rooted size => rfl
  | args size rooted => rfl
  | expr className => rfl

/-- What is written when the entry of a site displays its parts in a state, and the records
that are written meanwhile. -/
def Site.displayed (s : State) (site : Site) : Output UInt8 × List Record :=
  (site.describe fun part => (part.display s).shown,
    site.described.flatMap fun part => (part.display s).records)

/-- The description of a site is what its entry displays in any state, and no record is written
meanwhile. -/
theorem Site.displayed_eq (site : Site) (s : State) : site.displayed s = (site.description,[]) := by
  have hshown : (site.describe fun part => (part.display s).shown) = site.description :=
    describe_congr fun part _ => (part.display_shown s).1
  have hsilent : (site.described.flatMap fun part => (part.display s).records) = [] :=
    List.flatMap_eq_nil_iff.mpr fun part _ => (part.display_shown s).2
  rw [displayed,hshown,hsilent]

namespace Trace.Record

/-- The description of an entry, as far as it was written. -/
def description? : Record → Option Text
  | entry _ d => d
  | cutEntry _ d => some d
  | leave _ _ | note _ _ => none

/-- A record that is no entry, or the entry of one of these sites with its description. The
record is cut short where the description comes to a fault. -/
def DescribedBy (sites : List Site) (record : Record) : Prop :=
  ∀ d, record.description? = some d → ∃ site ∈ sites,
    record.heading.label = site.label ∧ site.description.items = d ∧
      (site.description.fault = none ↔ record.isWhole = true)

section

variable {sites sites' : List Site} {record : Record}

theorem DescribedBy.mono (h : sites ⊆ sites') (hr : record.DescribedBy sites) :
    record.DescribedBy sites' := by
  intro d hd
  obtain ⟨site,hsite,hentry⟩ := hr d hd
  exact ⟨site,h hsite,hentry⟩

theorem DescribedBy.of_note {s : State} {label text : Text} (h : record ∈ s.note label text) :
    record.DescribedBy sites := by
  rw [State.mem_note h]
  rintro d ⟨⟩

theorem DescribedBy.of_leave {s : State} {label result : Text}
    (h : record ∈ s.leave label result) : record.DescribedBy sites := by
  rw [State.mem_leave h]
  rintro d ⟨⟩

end

end Trace.Record

namespace Script

open Record (DescribedBy)

theorem Run.mem_andThen {first : Run} {second : State → Run} {record : Record}
    (h : record ∈ (first.andThen second).records) :
    record ∈ first.records ∨ record ∈ (second first.state).records := by
  cases hf : first.output.fault with
  | none =>
      rw [andThen_of_complete hf] at h
      exact List.mem_append.mp h
  | some f =>
      rw [andThen_of_fault hf] at h
      exact .inl h

/-- Every entry in a run is that of a site of the script. -/
theorem run_described (r : Script) (s : State) :
    ∀ record ∈ (r.run s).records, record.DescribedBy r.sites := by
  induction r generalizing s with
  | done => exact List.forall_mem_nil _
  | fail f => exact fun record h => .of_note h
  | token t r ih => exact ih s
  | remark m r ih => exact List.forall_mem_append.mpr ⟨fun record h => .of_note h,ih s⟩
  | scope site b r ihb ihr =>
      have hbody {record : Record} (h : record.DescribedBy b.sites) :
          record.DescribedBy (scope site b r).sites :=
        h.mono (List.subset_cons_of_subset _ (List.subset_append_left _ _))
      have hrest {record : Record} (h : record.DescribedBy r.sites) :
          record.DescribedBy (scope site b r).sites :=
        h.mono (List.subset_cons_of_subset _ (List.subset_append_right _ _))
      intro record hrecord
      cases hs : s.active with
      | false =>
          rw [run_scope_of_inactive hs] at hrecord
          rcases Run.mem_andThen hrecord with h | h
          · exact hbody (ihb s record h)
          · exact hrest (ihr _ record h)
      | true =>
          cases hd : site.description.fault with
          | some f =>
              rw [run_scope_of_fault hs hd] at hrecord
              rw [List.mem_singleton.mp hrecord]
              rintro d ⟨⟩
              refine ⟨site,List.mem_cons_self ..,rfl,rfl,?_⟩
              rw [hd]
              exact ⟨nofun,nofun⟩
          | none =>
              rw [run_scope_of_complete hs hd] at hrecord
              rcases Run.mem_andThen hrecord with h | h
              · rw [within_run] at h
                rcases List.mem_append.mp h with h | h
                · rcases List.mem_append.mp h with h | h
                  · rw [State.mem_entry h]
                    rintro d ⟨⟩
                    exact ⟨site,List.mem_cons_self ..,rfl,rfl,iff_of_true hd rfl⟩
                  · exact hbody (ihb _ record h)
                · exact .of_leave h
              · exact hrest (ihr _ record h)

end Script

end Turbofish
