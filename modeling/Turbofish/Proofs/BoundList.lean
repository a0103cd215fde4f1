import Turbofish.Proofs.Layout.Separated
import Turbofish.Proofs.Leading

/-!
# Bound lists

The bounds behind `dyn`, `impl` and the colon of a constraint are printed with a separator `+`
behind each. No bracket of its own ends such a list. All of its separators but the last are
written, wherever it stands; the last one is written too unless the next token takes its place,
and the tokens that may come next and do not are `as`, `::`, `(` and the operators.
-/
namespace Turbofish

structure BoundList where
  /-- What stands in front of the bounds. -/
  lead : List Token
  bounds : List Bound

/-- The nodes that end in a list of bounds. -/
inductive Node.HasBoundList : Node → BoundList → Prop
  | traitObject (s : Span) (bs : List Bound) :
      HasBoundList (ty (.traitObject s bs)) ⟨[.keyword "dyn"],bs⟩
  | erased (s : Span) (bs : List Bound) : HasBoundList (ty (.erased s bs)) ⟨[.keyword "impl"],bs⟩
  | constraint (n : Text) (bs : List Bound) {t : Token} : Token.ident n = .ok t →
      HasBoundList (arg (.constraint n bs)) ⟨[t,.sym ":"],bs⟩

namespace BoundList

/-- The bounds with what stands in front of them. -/
def tokens (l : BoundList) : List Token :=
  l.lead ++ Token.separatedBy "+" (l.bounds.map (·.script.output.items))

/-- What is written of the bounds and the separators between them. -/
def written (l : BoundList) : List Token :=
  [Token.separator "+"].intercalate (l.bounds.map (Token.kept ·.script.output.items))

end BoundList

namespace Node

variable {m : Node} {l : BoundList}

/-- The bounds of a list are parts of its node. -/
theorem HasBoundList.mem_printedParts (h : m.HasBoundList l) :
    ∀ b ∈ l.bounds, bound b ∈ m.printedParts := by
  intro b hb
  cases h with
  | traitObject s bs => exact List.mem_map_of_mem hb
  | erased s bs => exact List.mem_map_of_mem hb
  | constraint n bs _ => exact List.mem_map_of_mem hb

/-- A bound list is all that is written of its node. -/
theorem HasBoundList.items (h : m.HasBoundList l) (hc : m.script.Complete) :
    m.script.output.items = l.tokens := by
  have hbounds : ∀ b ∈ l.bounds, b.script.Complete := fun b hb =>
    ((complete_iff m).mp hc).2 (bound b) (h.mem_printedParts b hb)
  have hlist : (Script.separated "+" (Bound.scripts l.bounds)).output.items =
      Token.separatedBy "+" (l.bounds.map (·.script.output.items)) := by
    rw [Bound.scripts_eq_map,Script.separated_items "+" (List.forall_mem_map.mpr hbounds),
      List.map_map]
    rfl
  unfold BoundList.tokens
  rw [← hlist]
  cases h with
  | traitObject s bs => rfl
  | erased s bs => rfl
  | constraint n bs hn =>
      rw [script_arg,Arg.script,Script.output_scope_done,
        Script.ident,hn]
      rfl

theorem HasBoundList.isSeparator_lead (h : m.HasBoundList l) (before : List Token) :
    ∀ t ∈ (before ++ l.lead).getLast?, t.isSeparator = false := by
  intro t ht
  rw [List.getLast?_append] at ht
  cases h with
  | traitObject s bs => exact Option.some.inj ht ▸ rfl
  | erased s bs => exact Option.some.inj ht ▸ rfl
  | constraint n bs _ => exact Option.some.inj ht ▸ rfl

/-- What is written of a bound list, wherever it stands. -/
theorem HasBoundList.kept_tokens (h : m.HasBoundList l) (hne : l.bounds ≠ [])
    (hbegins : ∀ b ∈ l.bounds, b.script.Begins) (before after : List Token) :
    Token.kept (before ++ l.tokens ++ after) =
      Token.kept (before ++ l.lead) ++ l.written ++ Token.lastSeparator "+" after ++
        Token.kept after := by
  have hsplit : before ++ l.tokens ++ after = (before ++ l.lead) ++
      (Token.separatedBy "+" (l.bounds.map (·.script.output.items)) ++ after) := by
    simp only [BoundList.tokens,List.append_assoc]
  have hheads : ∀ e ∈ l.bounds.map (·.script.output.items),
      ∃ t ∈ e.head?, t.replacesSeparator = false := by
    refine List.forall_mem_map.mpr fun b hb => ?_
    obtain ⟨t,r,hr,ht⟩ := hbegins b hb
    rw [hr]
    exact ⟨t,rfl,ht⟩
  have hnonempty : l.bounds.map (·.script.output.items) ≠ [] := by
    rw [ne_eq,List.map_eq_nil_iff]
    exact hne
  rw [hsplit,Token.kept_append (.inl (h.isSeparator_lead before)),
    Token.kept_separatedBy "+" hnonempty hheads,List.map_map]
  simp only [BoundList.written,List.append_assoc]
  rfl

/-- Whatever tree without empty paths is printed to the end, each bound list in it stands in
front of a token that takes the place of a separator, of `as`, `::`, `(` or an operator, or of
nothing; and wherever its tokens stand, all of its separators but the last are written, and the
last one is unless the token behind it takes its place. -/
theorem bounds_separated {n : Node} {s : Trace.State} (hf : (n.print s).output.fault = none)
    (hne : ∀ k, n.Contains k → k.isEmptyPath = false) {m : Node} (hm : n.Prints m)
    {l : BoundList} (hl : m.HasBoundList l) (hbounds : l.bounds ≠ []) :
    (∃ before after, (n.print s).output.items = before ++ l.tokens ++ after ∧
        ∀ t ∈ after.head?, t.replacesSeparator = true ∨ t.retainsSeparator = true) ∧
      ∀ before after, (n.print s).output.items = before ++ l.tokens ++ after →
        Token.kept (n.print s).output.items =
          Token.kept (before ++ l.lead) ++ l.written ++ Token.lastSeparator "+" after ++
            Token.kept after := by
  have hc := (print_complete_iff n s).mp hf
  obtain ⟨hmc,-⟩ := hm.within hc
  have hbegins : ∀ b ∈ l.bounds, b.script.Begins := by
    intro b hb
    have hpart := hl.mem_printedParts b hb
    refine (bound b).begins (((complete_iff m).mp hmc).2 _ hpart) (fun k hk => ?_) rfl
    exact hne k (hm.contains.trans (.head (mem_parts_of_printed hpart) hk))
  obtain ⟨before,after,hitems,hafter⟩ := (hm.placed.exists_items hc).2
  rw [print_output_of_complete hf]
  constructor
  · rw [hl.items hmc] at hitems
    exact ⟨before,after,hitems,fun t ht => Bool.or_eq_true_iff.mp (hafter t ht)⟩
  · intro before after hitems
    rw [hitems]
    exact hl.kept_tokens hbounds hbegins before after

/-- `(dyn 'static + '_,)`: the comma of the tuple takes the place of the last separator. -/
theorem bounds_separated_tuple :
    ((ty (.tuple none [.traitObject none [.lifetime .static,.lifetime .infer]])).print
        .fresh).output.fault = none ∧
      Token.kept ((ty (.tuple none [.traitObject none
        [.lifetime .static,.lifetime .infer]])).print .fresh).output.items =
          [.sym "(",.keyword "dyn",.lifetime "static",.separator "+",.lifetime "_",.sym ",",
            .sym ")"] := by
  have hf : ((ty (.tuple none [.traitObject none [.lifetime .static,.lifetime .infer]])).print
      .fresh).output.fault = none := by decide
  have hbound (l : Lifetime) : ∀ k, (bound (.lifetime l)).Contains k → k.isEmptyPath = false := by
    refine (forall_contains_iff _).mpr ⟨rfl,List.forall_mem_singleton.mpr ?_⟩
    exact (forall_contains_iff _).mpr ⟨rfl,List.forall_mem_nil _⟩
  have hobject : ∀ k, (ty (.traitObject none [.lifetime .static,.lifetime .infer])).Contains k →
      k.isEmptyPath = false :=
    (forall_contains_iff _).mpr ⟨rfl,List.forall_mem_cons.mpr
      ⟨hbound .static,List.forall_mem_singleton.mpr (hbound .infer)⟩⟩
  have hne : ∀ k,
      (ty (.tuple none [.traitObject none [.lifetime .static,.lifetime .infer]])).Contains k →
        k.isEmptyPath = false :=
    (forall_contains_iff _).mpr ⟨rfl,List.forall_mem_singleton.mpr hobject⟩
  have h := bounds_separated hf hne
    (.single (List.mem_singleton_self _)) (.traitObject none _) (List.cons_ne_nil _ _)
  exact ⟨hf,h.2 [.sym "("] [.sym ",",.sym ")"] (by decide)⟩

/-- `<dyn A + as B>`: no path is empty, and the separator behind the one bound is written. -/
theorem last_plus_written :
    (∀ k, (qpath (.qualified (.traitObject none [.trait [] (.mk false [.mk "A" .none])]) 1
        (.mk false [.mk "B" .none]))).Contains k → k.isEmptyPath = false) ∧
      ((qpath (.qualified (.traitObject none [.trait [] (.mk false [.mk "A" .none])]) 1
        (.mk false [.mk "B" .none]))).print .fresh).text = .ok "<dyn A + as B>" ∧
      Token.kept ((qpath (.qualified (.traitObject none [.trait [] (.mk false [.mk "A" .none])]) 1
        (.mk false [.mk "B" .none]))).print .fresh).output.items =
          [.sym "<",.keyword "dyn",.keyword "A",.separator "+",.keyword "as",.keyword "B",
            .sym ">"] := by
  have hsegment (n : Text) : ∀ k, (segment (.mk n .none)).Contains k → k.isEmptyPath = false := by
    refine (forall_contains_iff _).mpr ⟨rfl,List.forall_mem_singleton.mpr ?_⟩
    exact (forall_contains_iff _).mpr ⟨rfl,List.forall_mem_nil _⟩
  have hpath : ∀ k, (path (.mk false [.mk "A" .none])).Contains k → k.isEmptyPath = false :=
    (forall_contains_iff _).mpr ⟨rfl,List.forall_mem_singleton.mpr (hsegment "A")⟩
  have hbound : ∀ k, (bound (.trait [] (.mk false [.mk "A" .none]))).Contains k →
      k.isEmptyPath = false :=
    (forall_contains_iff _).mpr ⟨rfl,List.forall_mem_singleton.mpr hpath⟩
  have hself : ∀ k, (ty (.traitObject none [.trait [] (.mk false [.mk "A" .none])])).Contains k →
      k.isEmptyPath = false :=
    (forall_contains_iff _).mpr ⟨rfl,List.forall_mem_singleton.mpr hbound⟩
  refine ⟨(forall_contains_iff _).mpr ⟨rfl,List.forall_mem_cons.mpr ⟨hself,?_⟩⟩,?_,?_⟩
  · exact List.forall_mem_singleton.mpr (hsegment "B")
  · rfl
  · decide

end Node

end Turbofish
