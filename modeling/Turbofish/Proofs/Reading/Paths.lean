import Turbofish.Proofs.Reading.Kinds

/-!
# Paths can be read back

Segments are told apart by the `::` between them: what follows it is a name, while the
`::` of arguments is followed by `<`. Behind a self type, the segments up to `>` are the
interface, and their number is the position.
-/
namespace Turbofish

open Output

/-! ## Segments -/

namespace Segment

theorem readable {n : Text} {as : Args} {inExpr : Bool} (has : (Args.form inExpr).Readable as) :
    (form inExpr).Readable (mk n as) := by
  intro hs s hs' p q hp hq he
  obtain ⟨n',as'⟩ := s
  change (mk n as).script.output ++ p = (mk n' as').script.output ++ q at he
  rw [output_eq hs.1.1,output_eq hs'.1.1,cons_append,cons_append] at he
  obtain ⟨hname,hrest⟩ := cons_inj he
  obtain ⟨hargs,hpq⟩ := has ⟨hs.1.2,hs.2⟩ as' ⟨hs'.1.2,hs'.2⟩ p q hp hq hrest
  refine ⟨?_,hpq⟩
  rw [Text.IsName.ofName_inj hs.1.1 hs'.1.1 hname]
  exact congrArg (mk n') hargs

/-- Segments of one path, or of one of the two parts of a qualified path. -/
def ValidList (inExpr : Bool) (ss : List Segment) : Prop :=
  (∀ s ∈ ss, (form inExpr).Valid s) ∧ OutputLast ss

variable {inExpr : Bool} {s : Segment} {ss : List Segment}

theorem ValidList.tail (h : ValidList inExpr (s :: ss)) : ValidList inExpr ss := by
  refine ⟨(List.forall_mem_cons.mp h.1).2,?_⟩
  cases ss with
  | nil => exact List.forall_mem_nil _
  | cons t ss => exact (List.forall_mem_cons.mp h.2).2

theorem output_each (s : Segment) (ss : List Segment) (p : Output Token) :
    (Script.each "::" ((s :: ss).map script)).output ++ p = cons (.sym "::")
      (s.script.output ++ ((Script.each "::" (ss.map script)).output ++ p)) := by
  rw [List.map_cons,Script.each]
  simp only [Script.output_append,Script.output_sym,append_assoc,cons_append,nil_append]

/-- Each segment is followed by the next one or by what follows the path. -/
theorem ValidList.fits (h : ValidList inExpr (s :: ss)) {p : Output Token}
    (hp : p.EndsPath inExpr) :
    (form inExpr).Fits s ((Script.each "::" (ss.map script)).output ++ p) := by
  cases ss with
  | nil => exact .inl hp
  | cons t ss =>
      rw [output_each]
      obtain ⟨k,r,hr,hk⟩ := (leads (h.1 t (by simp)).1).append
        ((Script.each "::" (ss.map script)).output ++ p)
      rw [hr]
      exact .inr ⟨h.2 s (List.mem_cons_self ..),k,r,rfl,hk⟩

/-- Nothing that may follow a path goes on with it. -/
theorem not_endsPath (s : Segment) (ss : List Segment) (p : Output Token) :
    ¬ ((Script.each "::" ((s :: ss).map script)).output ++ p).EndsPath inExpr := by
  rw [output_each]
  rintro (h | ⟨_,o,h⟩)
  · exact absurd h.isStop (by decide)
  · exact absurd (cons_inj h).1 (by decide)

theorem each_readable {ss' : List Segment} (hss : ∀ s ∈ ss, (form inExpr).Readable s)
    (hv : ValidList inExpr ss) (hv' : ValidList inExpr ss') {p q : Output Token}
    (hp : p.EndsPath inExpr) (hq : q.EndsPath inExpr)
    (he : (Script.each "::" (ss.map script)).output ++ p =
      (Script.each "::" (ss'.map script)).output ++ q) :
    ss.map unlocated = ss'.map unlocated ∧ p = q := by
  induction ss generalizing ss' with
  | nil =>
      cases ss' with
      | nil => exact ⟨rfl,he⟩
      | cons t ts =>
          have hp' : p = (Script.each "::" ((t :: ts).map script)).output ++ q := he
          exact absurd (hp' ▸ hp) (not_endsPath t ts q)
  | cons s ss ih =>
      cases ss' with
      | nil =>
          have hq' : q = (Script.each "::" ((s :: ss).map script)).output ++ p := he.symm
          exact absurd (hq' ▸ hq) (not_endsPath s ss p)
      | cons t ts =>
          obtain ⟨hs,hss⟩ := List.forall_mem_cons.mp hss
          rw [output_each,output_each] at he
          obtain ⟨hst,hrest⟩ := hs (hv.1 s (List.mem_cons_self ..)) t
            (hv'.1 t (List.mem_cons_self ..)) _ _ (hv.fits hp) (hv'.fits hq) (cons_inj he).2
          obtain ⟨hssts,hpq⟩ := ih hss hv.tail hv'.tail hrest
          have hcontent : s.unlocated = t.unlocated := hst
          rw [List.map_cons,List.map_cons,hcontent,hssts]
          exact ⟨rfl,hpq⟩

/-- The leading `::` of a rooted path is not the name of a first segment. -/
theorem segments_readable {ss' : List Segment} {r r' : Bool}
    (hss : ∀ s ∈ ss, (form inExpr).Readable s) (hv : ValidList inExpr ss)
    (hv' : ValidList inExpr ss') (hne : ss ≠ []) (hne' : ss' ≠ []) {p q : Output Token}
    (hp : p.EndsPath inExpr) (hq : q.EndsPath inExpr)
    (he : (Script.segments r (ss.map script)).output ++ p =
      (Script.segments r' (ss'.map script)).output ++ q) :
    r = r' ∧ ss.map unlocated = ss'.map unlocated ∧ p = q := by
  obtain ⟨s,ss,rfl⟩ := List.exists_cons_of_ne_nil hne
  obtain ⟨t,ts,rfl⟩ := List.exists_cons_of_ne_nil hne'
  have hleads {s : Segment} (hs : (form inExpr).Valid s) (o : Output Token) :
      (s.script.output ++ o).Leads fun k => k ≠ .sym "::" :=
    ((leads hs.1).append o).imp fun k hk => hk.ne_sym _
  rw [List.map_cons,List.map_cons,Script.segments_output,Script.segments_output] at he
  have hroot : r = r' := by
    cases r <;> cases r'
    · rfl
    · obtain ⟨k,o,ho,hk⟩ := hleads (hv.1 s (List.mem_cons_self ..))
        ((Script.each "::" (ss.map script)).output ++ p)
      exact absurd (cons_inj (ho.symm.trans he)).1 hk
    · obtain ⟨k,o,ho,hk⟩ := hleads (hv'.1 t (List.mem_cons_self ..))
        ((Script.each "::" (ts.map script)).output ++ q)
      exact absurd (cons_inj (ho.symm.trans he.symm)).1 hk
    · rfl
  subst hroot
  have heach : (Script.each "::" ((s :: ss).map script)).output ++ p =
      (Script.each "::" ((t :: ts).map script)).output ++ q := by
    rw [output_each,output_each]
    cases r with
    | false => exact congrArg (cons (.sym "::")) he
    | true => exact he
  exact ⟨rfl,each_readable hss hv hv' hp hq heach⟩

end Segment

/-! ## Paths -/

namespace Path

theorem output_eq (r : Bool) (ss : List Segment) :
    (mk r ss).script.output = (Script.segments r (ss.map Segment.script)).output := by
  rw [script,Script.output_scope_done,Segment.scripts_eq_map]

theorem validList {inExpr : Bool} {r : Bool} {ss : List Segment}
    (h : (form inExpr).Valid (mk r ss)) : Segment.ValidList inExpr ss :=
  ⟨fun s hs => ⟨(Segment.allConforming_iff ss).mp h.1.2.2 s hs,fun hin => h.2 hin s hs⟩,h.1.2.1⟩

theorem readable {r : Bool} {ss : List Segment} {inExpr : Bool}
    (hss : ∀ s ∈ ss, (Segment.form inExpr).Readable s) : (form inExpr).Readable (mk r ss) := by
  intro hp path hp' p q hfit hfit' he
  obtain ⟨r',ss'⟩ := path
  change (mk r ss).script.output ++ p = (mk r' ss').script.output ++ q at he
  rw [output_eq,output_eq] at he
  obtain ⟨rfl,hcontent,hpq⟩ := Segment.segments_readable hss (validList hp) (validList hp')
    hp.1.1 hp'.1.1 hfit hfit' he
  refine ⟨?_,hpq⟩
  change mk r (Segment.unlocatedList ss) = mk r (Segment.unlocatedList ss')
  rw [Segment.unlocatedList_eq_map,Segment.unlocatedList_eq_map,hcontent]

end Path

/-! ## Qualified paths -/

namespace QPath

/-- The interface as it is written, from `as` on. -/
def interfaceOutput (r : Bool) (ss : List Segment) : Output Token :=
  match ss with
  | [] => .nil
  | s :: ss => cons (.keyword "as") (Script.segments r ((s :: ss).map Segment.script)).output

theorem output_qualified (t : Ty) (n : UInt64) (r : Bool) (ss : List Segment) (p : Output Token) :
    (qualified t n (.mk r ss)).script.output ++ p = cons (.sym "<") (t.script.output ++
      (interfaceOutput r (ss.take n.toNat) ++ cons (.sym ">")
        ((Script.each "::" ((ss.drop n.toNat).map Segment.script)).output ++ p))) := by
  have hclamp (c : Bool) (m : Remark) : (Script.onlyIf c (.remark m .done)).output = .nil := by
    cases c <;> rfl
  have hinterface (ts : List Segment) : (Script.onlyIf (!(ts.map Segment.script).isEmpty)
      (Script.keyword "as" ++ Script.segments r (ts.map Segment.script))).output =
        interfaceOutput r ts := by
    cases ts with
    | nil => rfl
    | cons s ts => rfl
  rw [script,Script.output_scope_done,Segment.scripts_eq_map,
    Script.qualified,← List.map_take,← List.map_drop]
  simp only [Script.output_append,hclamp,hinterface,Script.output_sym,append_assoc,cons_append,
    nil_append]

theorem interface_stops (r : Bool) (ss : List Segment) (o : Output Token) :
    (interfaceOutput r ss ++ cons (.sym ">") o).Stops := by
  cases ss with
  | nil => exact (ends_angle o).stops
  | cons s ss =>
      rw [interfaceOutput,cons_append]
      exact stops_cons (by decide) _

/-- The position is the length of the interface. -/
theorem position_eq {n n' : UInt64} {ss ss' : List Segment} (hn : n.toNat ≤ ss.length)
    (hn' : n'.toNat ≤ ss'.length) (h : (ss.take n.toNat).length = (ss'.take n'.toNat).length) :
    n = n' := by
  rw [List.length_take,List.length_take,Nat.min_eq_left hn,Nat.min_eq_left hn'] at h
  exact UInt64.toNat_inj.mp h

theorem readable_plain {path : Path} {inExpr : Bool} (hpath : (Path.form inExpr).Readable path) :
    (form inExpr).Readable (plain path) := by
  intro hv path' hv' p q hp hq he
  cases path' with
  | plain path' =>
      obtain ⟨hcontent,hpq⟩ := hpath ⟨hv.1,hv.2⟩ path' ⟨hv'.1,hv'.2⟩ p q hp hq he
      exact ⟨congrArg plain hcontent,hpq⟩
  | qualified t n path' =>
      obtain ⟨r,ss⟩ := path'
      change path.script.output ++ p = (qualified t n (.mk r ss)).script.output ++ q at he
      rw [output_qualified] at he
      obtain ⟨k,o,ho,_,hk⟩ := (Path.leads hv.1).append p
      exact absurd (cons_inj (ho.symm.trans he)).1 hk

/-- The two parts of the segments of a qualified path. -/
theorem validList {inExpr : Bool} {t : Ty} {n : UInt64} {r : Bool} {ss : List Segment}
    (h : (form inExpr).Valid (qualified t n (.mk r ss))) :
    Segment.ValidList false (ss.take n.toNat) ∧ Segment.ValidList inExpr (ss.drop n.toNat) := by
  obtain ⟨⟨_,_,_,htake,hdrop,hall⟩,hcallable⟩ := h
  have hall' := (Segment.allConforming_iff ss).mp hall
  exact ⟨⟨fun s hs => ⟨hall' s (List.mem_of_mem_take hs),nofun⟩,htake⟩,
    fun s hs => ⟨hall' s (List.mem_of_mem_drop hs),fun hin => hcallable hin s hs⟩,hdrop⟩

/-- The interface up to `>` gives the position, and the root where there is one. -/
theorem interface_readable {n n' : UInt64} {r r' : Bool} {ss ss' : List Segment}
    (hss : ∀ s ∈ ss, (Segment.form false).Readable s)
    (hv : Segment.ValidList false (ss.take n.toNat))
    (hv' : Segment.ValidList false (ss'.take n'.toNat)) (hn : n.toNat ≤ ss.length)
    (hn' : n'.toNat ≤ ss'.length) (hroot : n = 0 → r = false) (hroot' : n' = 0 → r' = false)
    {p q : Output Token}
    (h : interfaceOutput r (ss.take n.toNat) ++ cons (.sym ">") p =
      interfaceOutput r' (ss'.take n'.toNat) ++ cons (.sym ">") q) :
    n = n' ∧ r = r' ∧
      (ss.take n.toNat).map Segment.unlocated = (ss'.take n'.toNat).map Segment.unlocated ∧
      p = q := by
  have hlength := @position_eq n n' ss ss' hn hn'
  have hempty {n : UInt64} {ss : List Segment} (hn : n.toNat ≤ ss.length)
      (h : ss.take n.toNat = []) : n = 0 := by
    have hl := congrArg List.length h
    rw [List.length_take,Nat.min_eq_left hn] at hl
    exact UInt64.toNat_inj.mp hl
  have hangle (o : Output Token) : (cons (.sym ">") o).EndsPath false := .inl (ends_angle o).stops
  cases hi : ss.take n.toNat with
  | nil =>
      cases hi' : ss'.take n'.toNat with
      | nil =>
          rw [hi,hi'] at h
          refine ⟨hlength (by rw [hi,hi']),?_,rfl,(cons_inj h).2⟩
          rw [hroot (hempty hn hi),hroot' (hempty hn' hi')]
      | cons s' ts' =>
          rw [hi,hi',interfaceOutput,interfaceOutput,cons_append,nil_append] at h
          exact absurd (cons_inj h).1 (by decide)
  | cons s ts =>
      cases hi' : ss'.take n'.toNat with
      | nil =>
          rw [hi,hi',interfaceOutput,interfaceOutput,cons_append,nil_append] at h
          exact absurd (cons_inj h).1 (by decide)
      | cons s' ts' =>
          rw [hi,hi',interfaceOutput,interfaceOutput,cons_append,cons_append] at h
          rw [hi] at hv hlength
          rw [hi'] at hv' hlength
          have hts : ∀ u ∈ s :: ts, (Segment.form false).Readable u := fun u hu =>
            hss u (List.mem_of_mem_take (hi ▸ hu))
          obtain ⟨rfl,hcontent,htail⟩ := Segment.segments_readable hts hv hv' nofun nofun
            (hangle _) (hangle _) (cons_inj h).2
          have hlen := congrArg List.length hcontent
          rw [List.length_map,List.length_map] at hlen
          exact ⟨hlength hlen,rfl,hcontent,(cons_inj htail).2⟩

theorem readable_qualified {t : Ty} {n : UInt64} {r : Bool} {ss : List Segment} {inExpr : Bool}
    (ht : (Ty.form false).Readable t) (hss : ∀ s ∈ ss, ∀ inExpr, (Segment.form inExpr).Readable s) :
    (form inExpr).Readable (qualified t n (.mk r ss)) := by
  intro hv path hv' p q hp hq he
  cases path with
  | plain path =>
      change (qualified t n (.mk r ss)).script.output ++ p = path.script.output ++ q at he
      rw [output_qualified] at he
      obtain ⟨k,o,ho,_,hk⟩ := (Path.leads hv'.1).append q
      exact absurd (cons_inj (ho.symm.trans he.symm)).1 hk
  | qualified t' n' path =>
      obtain ⟨r',ss'⟩ := path
      obtain ⟨htake,hdrop⟩ := validList hv
      obtain ⟨htake',hdrop'⟩ := validList hv'
      obtain ⟨hvt,hn,hroot,_⟩ := hv.1
      obtain ⟨hvt',hn',hroot',_⟩ := hv'.1
      change (qualified t n (.mk r ss)).script.output ++ p =
        (qualified t' n' (.mk r' ss')).script.output ++ q at he
      rw [output_qualified,output_qualified] at he
      obtain ⟨hself,hrest⟩ := ht hvt t' hvt' _ _ (interface_stops r _ _)
        (interface_stops r' _ _) (cons_inj he).2
      obtain ⟨rfl,rfl,hfront,htail⟩ := interface_readable (fun s hs => hss s hs false) htake htake'
        hn hn' hroot hroot' hrest
      obtain ⟨hback,hpq⟩ := Segment.each_readable
        (fun s hs => hss s (List.mem_of_mem_drop hs) inExpr) hdrop hdrop' hp hq htail
      have hsegments : ss.map Segment.unlocated = ss'.map Segment.unlocated := by
        rw [← List.take_append_drop n.toNat ss,← List.take_append_drop n.toNat ss',
          List.map_append,List.map_append,hfront,hback]
      have hself : t.unlocated = t'.unlocated := hself
      refine ⟨?_,hpq⟩
      change qualified t.unlocated n (.mk r (Segment.unlocatedList ss)) =
        qualified t'.unlocated n (.mk r (Segment.unlocatedList ss'))
      rw [hself,Segment.unlocatedList_eq_map,Segment.unlocatedList_eq_map,hsegments]

end QPath

end Turbofish
