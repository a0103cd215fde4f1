import Turbofish.Proofs.Reading.Args

/-!
# Argument lists can be read back

Which kind of list follows a name is seen from one token, or from two where it starts
with `::`. In an expression a parenthesis starts no list. Arguments that are in order
are written one after the other, although they are written in three passes.
-/
namespace Turbofish

open Output

theorem Script.separated_append (sep : Text) (rs ss : List Script) :
    separated sep (rs ++ ss) = separated sep rs ++ separated sep ss := by
  induction rs with
  | nil => rfl
  | cons r rs ih => rw [List.cons_append,separated,separated,ih,append_assoc (r ++ separator sep)]

/-- The three passes over the arguments write them in one list. -/
theorem Arg.separated_groups (sep : Text) (as : List Arg) :
    Script.separated sep (scripts .lifetimes as) ++ (Script.separated sep (scripts .values as) ++
      Script.separated sep (scripts .associated as)) =
        Script.separated sep ((grouped as).map script) := by
  rw [scripts_eq_map,scripts_eq_map,scripts_eq_map,← Script.separated_append,
    ← Script.separated_append,← List.map_append,← List.map_append,← List.append_assoc]
  rfl

namespace Args

/-- The rank of the list that some tokens start with. -/
def rankAt (inExpr : Bool) (o : Output Token) : Nat :=
  if o.items.head? = some (.sym "<") ∨ o.items.take 2 = [.sym "::",.sym "<"] then 2
  else if o.items.head? = some (.sym "(") ∧ inExpr = false then 3
  else 1

/-! ## What is written -/

theorem output_angle (r : Bool) {as : List Arg} (h : Arg.grouped as = as) (p : Output Token) :
    (angle r as).script.output ++ p = (Script.onlyIf r (Script.sym "::")).output ++
      cons (.sym "<") ((Script.separated "," (as.map Arg.script)).output ++
        cons (.sym ">") p) := by
  have hpasses := Arg.separated_groups "," as
  rw [h] at hpasses
  have hscript := congrArg Script.output hpasses
  rw [script,Script.output_scope]
  simp only [Script.output_append,Script.output_sym,Script.output_done,append_assoc,append_nil,
    cons_append,nil_append] at hscript ⊢
  rw [← hscript]
  simp only [append_assoc]

theorem output_parenthesized (ts : List Ty) (o : Option Ty) (p : Output Token) :
    (parenthesized ts o).script.output ++ p = cons (.sym "(")
      ((Script.separated "," (ts.map Ty.script)).output ++
        cons (.sym ")") ((Ty.outputScript o).output ++ p)) := by
  rw [script,Ty.scripts_eq_map]
  simp only [Script.output_append,Script.output_sym,append_assoc,cons_append,nil_append]

theorem output_outputType (t : Ty) (p : Output Token) :
    (Ty.outputScript (some t)).output ++ p =
      cons (.sym "->") (((Ty.form true).write t).output ++ p) := by
  rw [Ty.outputScript]
  simp only [Script.output_append,Script.output_sym,cons_append,nil_append]
  rfl

/-! ## Reading -/

variable {inExpr : Bool}

/-- Nothing that may follow a segment without a list looks like one. -/
theorem rankAt_of_fits {p : Output Token} (h : (form inExpr).Fits none p) :
    rankAt inExpr p = 1 := by
  obtain ⟨items,fault⟩ := p
  rcases h with (h | ⟨rfl,o,ho⟩) | ⟨_,k,o,ho,hk⟩
  · -- A stop is no first token of a list.
    have hhead {t : Token} (ht : t.isStop = false) : items.head? ≠ some t := fun hi => by
      have hstop := h t hi
      rw [ht] at hstop
      cases hstop
    have hless : items.head? ≠ some (.sym "<") := hhead (by decide)
    have hround : items.head? ≠ some (.sym "(") := hhead (by decide)
    have hcolons : items.take 2 ≠ [.sym "::",.sym "<"] := fun ht =>
      hhead (t := .sym "::") (by decide) (by
        cases items with
        | nil => cases ht
        | cons t items => exact congrArg some (List.cons.inj ht).1)
    unfold rankAt
    rw [if_neg (not_or.mpr ⟨hless,hcolons⟩),if_neg (fun h => hround h.1)]
  · rw [ho]
    unfold rankAt
    rw [if_neg (by
      rintro (h | h)
      · exact absurd (Option.some.inj h) (by decide)
      · exact absurd (List.cons.inj h).1 (by decide)),if_neg (fun h => absurd h.2 nofun)]
  · rw [ho]
    have hk : k ≠ .sym "<" := hk.ne_sym _
    unfold rankAt
    rw [if_neg (by
      rintro (h | h)
      · exact absurd (Option.some.inj h) (by decide)
      · exact hk (List.cons.inj (List.cons.inj h).2).1),
      if_neg (fun h => absurd (Option.some.inj h.1) (by decide))]

theorem rankAt_eq {as : Args} (h : (form inExpr).Valid as) {p : Output Token}
    (hp : (form inExpr).Fits as p) : rankAt inExpr (as.script.output ++ p) = as.rank := by
  cases as with
  | moved => exact h.1.elim
  | none => exact rankAt_of_fits hp
  | angle r as =>
      rw [output_angle r h.1.1]
      cases r with
      | true => exact if_pos (.inr rfl)
      | false => exact if_pos (.inl rfl)
  | parenthesized ts o =>
      have hin : inExpr = false := Bool.eq_false_iff.mpr fun hi => absurd (h.2 hi) nofun
      rw [output_parenthesized]
      unfold rankAt
      rw [if_neg (by
        rintro (h | h)
        · exact absurd (Option.some.inj h) (by decide)
        · exact absurd (List.cons.inj h).1 (by decide))]
      exact if_pos ⟨rfl,hin⟩

/-- Lists that are written alike have the same rank. -/
theorem rank_eq {as bs : Args} (ha : (form inExpr).Valid as) (hb : (form inExpr).Valid bs)
    {p q : Output Token} (hp : (form inExpr).Fits as p) (hq : (form inExpr).Fits bs q)
    (h : as.script.output ++ p = bs.script.output ++ q) : as.rank = bs.rank := by
  rw [← rankAt_eq ha hp,h,rankAt_eq hb hq]

theorem readable_none : (form inExpr).Readable none := by
  intro hv bs hb p q hp hq he
  have hrank := rank_eq hv hb hp hq he
  cases bs with
  | none => exact ⟨rfl,he⟩
  | _ => cases hrank

theorem readable_angle (r : Bool) {as : List Arg} (has : ∀ a ∈ as, Arg.form.Readable a) :
    (form inExpr).Readable (angle r as) := by
  intro hv bs hb p q hp hq he
  have hrank := rank_eq hv hb hp hq he
  cases bs with
  | angle r' as' =>
      change (angle r as).script.output ++ p = (angle r' as').script.output ++ q at he
      rw [output_angle r hv.1.1,output_angle r' hb.1.1] at he
      have hlist : r = r' ∧
          (Script.separated "," (as.map Arg.script)).output ++ cons (.sym ">") p =
            (Script.separated "," (as'.map Arg.script)).output ++ cons (.sym ">") q := by
        cases r <;> cases r'
        · exact ⟨rfl,(cons_inj he).2⟩
        · exact absurd (cons_inj he).1 (by decide)
        · exact absurd (cons_inj he).1 (by decide)
        · exact ⟨rfl,(cons_inj (cons_inj he).2).2⟩
      obtain ⟨rfl,hlist⟩ := hlist
      obtain ⟨hcontent,hrest⟩ := Arg.listable.separated_readable "," has
        ((Arg.allConforming_iff as).mp hv.1.2) ((Arg.allConforming_iff as').mp hb.1.2)
        (ends_angle _).stops (ends_angle _).stops hlist
      have hargs : as.map Arg.unlocated = as'.map Arg.unlocated := hcontent
      refine ⟨?_,(cons_inj hrest).2⟩
      change unlocated _ = unlocated _
      rw [unlocated,unlocated,Arg.unlocatedList_eq_map,Arg.unlocatedList_eq_map,hargs]
  | _ => cases hrank

/-- No output type follows, where none is written. -/
theorem not_output {ts : List Ty} {p : Output Token}
    (hp : (form inExpr).Fits (parenthesized ts .none) p) (o : Output Token) :
    p ≠ cons (.sym "->") o := by
  rintro rfl
  rcases hp with (h | ⟨_,_,h⟩) | ⟨_,_,_,h,_⟩
  · exact absurd h.isStop (by decide)
  · exact absurd (cons_inj h).1 (by decide)
  · exact absurd (cons_inj h).1 (by decide)

theorem readable_parenthesized {ts : List Ty} {o : Option Ty}
    (hts : ∀ t ∈ ts, (Ty.form false).Readable t) (ho : ∀ t ∈ o, (Ty.form true).Readable t) :
    (form inExpr).Readable (parenthesized ts o) := by
  intro hv bs hb p q hp hq he
  have hrank := rank_eq hv hb hp hq he
  cases bs with
  | parenthesized ts' o' =>
      change (parenthesized ts o).script.output ++ p = (parenthesized ts' o').script.output ++ q at he
      rw [output_parenthesized,output_parenthesized] at he
      obtain ⟨hcontent,hrest⟩ := Ty.listable.separated_readable "," hts
        ((Ty.allConforming_iff ts).mp hv.1.1) ((Ty.allConforming_iff ts').mp hb.1.1)
        (ends_round _).stops (ends_round _).stops (cons_inj he).2
      have hinputs : ts.map Ty.unlocated = ts'.map Ty.unlocated := hcontent
      -- An output type is only written where nothing but a stop may follow.
      have hstops {ts : List Ty} {t : Ty} {p : Output Token}
          (hv : (form inExpr).Valid (parenthesized ts (some t)))
          (hp : (form inExpr).Fits (parenthesized ts (some t)) p) : p.Stops := by
        rcases hp with (h | ⟨hin,_⟩) | ⟨h,_⟩
        · exact h
        · cases hv.2 hin
        · cases h
      have houtput : o.map Ty.unlocated = o'.map Ty.unlocated ∧ p = q := by
        have hrest := (cons_inj hrest).2
        cases o with
        | none =>
            cases o' with
            | none => exact ⟨rfl,hrest⟩
            | some t' =>
                rw [output_outputType] at hrest
                exact absurd hrest (not_output hp _)
        | some t =>
            cases o' with
            | none =>
                rw [output_outputType] at hrest
                exact absurd hrest.symm (not_output hq _)
            | some t' =>
                rw [output_outputType,output_outputType] at hrest
                obtain ⟨hcontent,hpq⟩ := ho t rfl hv.1.2 t' hb.1.2 p q (hstops hv hp) (hstops hb hq)
                  (cons_inj hrest).2
                exact ⟨congrArg some hcontent,hpq⟩
      refine ⟨?_,houtput.2⟩
      change unlocated _ = unlocated _
      rw [unlocated,unlocated,Ty.unlocatedList_eq_map,Ty.unlocatedList_eq_map,hinputs,
        Ty.unlocatedOption_eq_map,Ty.unlocatedOption_eq_map,houtput.1]
  | _ => cases hrank

end Args

end Turbofish
