import Turbofish.Proofs.Script.Regular

/-!
# Depth among brackets

The depth of a token is the number of brackets that are open in front of it. Tokens are
nested when they close just the brackets that they open, so that they end at the depth
they begin at and never fall below it. What a regular script writes is nested, and what
it writes at the depth it begins at is what it writes outside of its brackets.
-/
namespace Turbofish

namespace Token

/-- The depth behind a token. -/
def depthAfter (depth : Nat) (t : Token) : Nat :=
  if t.isOpener then depth + 1 else if t.isCloser then depth - 1 else depth

/-- The depth behind a list of tokens. -/
def depthBehind (depth : Nat) (tokens : List Token) : Nat := tokens.foldl depthAfter depth

/-- The tokens, each with its depth. -/
def placed : Nat → List Token → List (Nat × Token)
  | _, [] => []
  | depth, t :: ts => (depth, t) :: placed (depthAfter depth t) ts

/-- Tokens that come back to the depth they begin at, with a property of those at that
depth. -/
def Nested (P : Token → Prop) (tokens : List Token) : Prop :=
  ∀ depth, depthBehind depth tokens = depth ∧
    ∀ p ∈ placed depth tokens, depth ≤ p.1 ∧ (p.1 = depth → P p.2)

theorem depthAfter_of_mark? {t : Token} (h : t.mark? = none) (depth : Nat) :
    depthAfter depth t = depth := by
  have hbracket := mark?_isSome t
  rw [h] at hbracket
  obtain ⟨hopener,hcloser⟩ := Bool.or_eq_false_iff.mp hbracket.symm
  simp only [depthAfter,hopener,hcloser,Bool.false_eq_true,if_false]

theorem depthAfter_opener (b : Bracket) (depth : Nat) :
    depthAfter depth (sym b.opener) = depth + 1 := by
  have hopener : (sym b.opener).isOpener = true := by cases b <;> decide
  rw [depthAfter,if_pos hopener]

theorem depthAfter_closer (b : Bracket) (depth : Nat) :
    depthAfter depth (sym b.closer) = depth - 1 := by
  have hopener : (sym b.closer).isOpener = false := by cases b <;> decide
  have hcloser : (sym b.closer).isCloser = true := by cases b <;> decide
  rw [depthAfter,hopener,hcloser]
  rfl

theorem depthBehind_append (depth : Nat) (ts us : List Token) :
    depthBehind depth (ts ++ us) = depthBehind (depthBehind depth ts) us := List.foldl_append

theorem placed_append (depth : Nat) (ts us : List Token) :
    placed depth (ts ++ us) = placed depth ts ++ placed (depthBehind depth ts) us := by
  induction ts generalizing depth with
  | nil => rfl
  | cons t ts ih =>
      rw [List.cons_append,placed,placed,ih]
      rfl

/-! ## Nested tokens -/

namespace Nested

variable {P Q : Token → Prop} {ts us : List Token}

theorem nil : Nested P [] := fun _ => ⟨rfl,List.forall_mem_nil _⟩

theorem cons {t : Token} (ht : t.mark? = none) (hp : P t) (hts : Nested P ts) :
    Nested P (t :: ts) := by
  intro depth
  have hdepth := depthAfter_of_mark? ht depth
  obtain ⟨hbehind,hplaced⟩ := hts depth
  constructor
  · change depthBehind (depthAfter depth t) ts = depth
    rw [hdepth]
    exact hbehind
  · rw [placed,hdepth]
    exact List.forall_mem_cons.mpr ⟨⟨Nat.le_refl _,fun _ => hp⟩,hplaced⟩

theorem append (hts : Nested P ts) (hus : Nested P us) : Nested P (ts ++ us) := by
  intro depth
  obtain ⟨hbehind,hplaced⟩ := hts depth
  constructor
  · rw [depthBehind_append,hbehind]
    exact (hus depth).1
  · rw [placed_append,hbehind]
    exact List.forall_mem_append.mpr ⟨hplaced,(hus depth).2⟩

/-- Whatever is nested stands deeper between a bracket and its counterpart. -/
theorem surround (b : Bracket) (hp : P (sym b.opener)) (hts : Nested Q ts) :
    Nested P (sym b.opener :: (ts ++ [sym b.closer])) := by
  intro depth
  obtain ⟨hbehind,hplaced⟩ := hts (depth + 1)
  constructor
  · change depthBehind (depthAfter depth (sym b.opener)) (ts ++ [sym b.closer]) = depth
    rw [depthAfter_opener,depthBehind_append,hbehind]
    exact depthAfter_closer b (depth + 1)
  · rw [placed,depthAfter_opener,placed_append,hbehind]
    refine List.forall_mem_cons.mpr ⟨⟨Nat.le_refl _,fun _ => hp⟩,List.forall_mem_append.mpr ⟨?_,?_⟩⟩
    · intro p hmem
      have hdeeper := (hplaced p hmem).1
      exact ⟨by omega,fun h => by omega⟩
    · refine List.forall_mem_singleton.mpr ⟨Nat.le_succ depth,fun h => ?_⟩
      exact absurd h (Nat.succ_ne_self depth)

/-- What is nested does not end inside of a bracket. -/
theorem isOpener_last (h : Nested P ts) : ∀ t ∈ ts.getLast?, t.isOpener = false := by
  intro t ht
  obtain ⟨before,rfl⟩ := List.getLast?_eq_some_iff.mp ht
  have hbehind := (h 0).1
  rw [depthBehind_append] at hbehind
  change depthAfter _ t = 0 at hbehind
  cases hopener : t.isOpener with
  | false => rfl
  | true =>
      rw [depthAfter,if_pos hopener] at hbehind
      exact absurd hbehind (Nat.succ_ne_zero _)

end Nested

/-! ## Outside of all brackets -/

/-- The tokens outside of all brackets that satisfy a condition. -/
def outer (q : Token → Bool) (tokens : List Token) : List Token :=
  ((placed 0 tokens).filter fun p => p.1 == 0 && q p.2).map Prod.snd

section

variable {P : Token → Prop} {ts : List Token} {q : Token → Bool}

theorem Nested.outer_append (h : Nested P ts) (q : Token → Bool) (us : List Token) :
    outer q (ts ++ us) = outer q ts ++ outer q us := by
  unfold outer
  rw [placed_append,(h 0).1,List.filter_append,List.map_append]

theorem Nested.outer_eq_nil (h : Nested P ts) (hq : ∀ t, P t → q t = false) : outer q ts = [] := by
  unfold outer
  rw [List.map_eq_nil_iff,List.filter_eq_nil_iff]
  intro p hp hcondition
  obtain ⟨hzero,hheld⟩ := Bool.and_eq_true_iff.mp hcondition
  rw [hq p.2 (((h 0).2 p hp).2 (beq_iff_eq.mp hzero))] at hheld
  cases hheld

theorem outer_cons {t : Token} (ht : t.mark? = none) (hq : q t = true) (us : List Token) :
    outer q (t :: us) = t :: outer q us := by
  have hcondition : ((0, t).1 == 0 && q (0, t).2) = true := hq
  unfold outer
  rw [placed,depthAfter_of_mark? ht,List.filter_cons,if_pos hcondition,List.map_cons]

end

end Token

/-! ## What scripts write -/

namespace Output

/-- Where an output is whole, its tokens are nested. -/
def Nested (P : Token → Prop) (o : Output Token) : Prop := o.fault = none → Token.Nested P o.items

variable {P Q : Token → Prop} {o p : Output Token}

theorem Nested.append (ho : o.Nested P) (hp : p.Nested P) : (o ++ p).Nested P := by
  intro h
  obtain ⟨hof,hpf⟩ := (append_complete_iff o p).mp h
  rw [append_of_complete hof]
  exact (ho hof).append (hp hpf)

theorem Nested.surround (b : Bracket) (hb : P (.sym b.opener)) (ho : o.Nested Q)
    (hp : p.Nested P) : (cons (.sym b.opener) (o ++ cons (.sym b.closer) p)).Nested P := by
  intro h
  obtain ⟨hof,hpf⟩ := (append_complete_iff o (cons (.sym b.closer) p)).mp h
  have hpair := Token.Nested.surround b hb (ho hof)
  have hnested := hpair.append (hp hpf)
  rw [append_of_complete hof]
  rw [List.cons_append,List.append_assoc] at hnested
  exact hnested

end Output

namespace Script

theorem Regular.nested {s : Script} (h : Regular s) : s.output.Nested fun _ => True := by
  induction h with
  | done => exact fun _ => .nil
  | fail f => exact nofun
  | remark _ _ ih => exact ih
  | token ht _ ih => exact fun hf => .cons ht trivial (ih hf)
  | surround b _ _ ihs ihr =>
      rw [output,output_append]
      exact ihs.surround b trivial ihr
  | scope site _ _ _ ihb ihr => exact ihb.append ihr

/-- The tokens outside of the brackets of a script are those at the depth it begins at. -/
theorem Outside.nested {P : Token → Prop} (hP : ∀ b : Bracket, P (.sym b.opener)) {s : Script}
    (h : Outside P s) : s.output.Nested P := by
  induction h with
  | done => exact fun _ => .nil
  | fail f => exact nofun
  | remark _ _ ih => exact ih
  | token ht hp _ ih => exact fun hf => .cons ht hp (ih hf)
  | surround b hs _ ihr =>
      rw [output,output_append]
      exact Output.Nested.surround b (hP b) hs.nested ihr
  | scope site _ _ _ ihb ihr => exact ihb.append ihr

/-- A token of a regular script is no bracket unless it is written as one. -/
theorem Regular.mark?_of_mem {s : Script} (h : Regular s) : ∀ t ∈ s.output.items,
    t.mark? = none ∨ ∃ b : Bracket, t = .sym b.opener ∨ t = .sym b.closer := by
  have happend {o p : Output Token} {t : Token} (ht : t ∈ (o ++ p).items) :
      t ∈ o.items ∨ t ∈ p.items := by
    cases hf : o.fault with
    | none =>
        rw [Output.append_of_complete hf] at ht
        exact List.mem_append.mp ht
    | some f =>
        rw [Output.append_of_fault hf] at ht
        exact .inl ht
  induction h with
  | done => exact List.forall_mem_nil _
  | fail f => exact List.forall_mem_nil _
  | remark _ _ ih => exact ih
  | token ht _ ih => exact List.forall_mem_cons.mpr ⟨.inl ht,ih⟩
  | surround b _ _ ihs ihr =>
      refine List.forall_mem_cons.mpr ⟨.inr ⟨b,.inl rfl⟩,fun t ht => ?_⟩
      rw [output_append] at ht
      rcases happend ht with ht | ht
      · exact ihs t ht
      · rcases List.mem_cons.mp ht with rfl | ht
        · exact .inr ⟨b,.inr rfl⟩
        · exact ihr t ht
  | scope site _ _ _ ihb ihr => exact fun t ht => (happend ht).elim (ihb t) (ihr t)

/-- No separator is a bracket. -/
theorem Regular.mark?_separator {s : Script} (h : Regular s) {t : Token} (ht : t ∈ s.output.items)
    (hsep : t.isSeparator = true) : t.mark? = none := by
  rcases h.mark?_of_mem t ht with hmark | ⟨b,rfl | rfl⟩
  · exact hmark
  · cases hsep
  · cases hsep

end Script

end Turbofish
