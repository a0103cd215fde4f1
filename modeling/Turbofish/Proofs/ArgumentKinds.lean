import Turbofish.Proofs.CommaList
import Turbofish.Proofs.Brackets.Operators
import Turbofish.Proofs.Brackets.Printing

/-!
# The kind of an argument from its tokens

The first two tokens of an argument in angle brackets tell what it is: no type begins with a
lifetime, a literal, a truth value or a brace, and `=` and `:` come second only behind the
name of an associated item. Names that are spelled like keywords are written raw, so the
names do not matter.
-/
namespace Turbofish

/-! ## Kinds of arguments -/

inductive ArgKind
  | lifetime
  | ty
  | value
  | binding
  | constraint
  deriving DecidableEq, Repr

/-- A moved argument has no kind any more. -/
def Arg.kind? : Arg → Option ArgKind
  | moved => none
  | lifetime _ => some .lifetime
  | ty _ => some .ty
  | value _ => some .value
  | binding _ _ => some .binding
  | constraint _ _ => some .constraint

namespace Token

/-- Whether the token is a word with one of these texts. -/
def isWordOf (texts : List Text) (t : Token) : Bool := t.cls == .word && texts.contains t.text

/-- Whether a value begins with the token. -/
def opensValue (t : Token) : Bool :=
  t.cls == .literal || t.isWordOf ["true","false"] || t.isSymbolOf ["\x7b"]

/-- Whether the token tells an associated item from a type by its name. -/
def marksItem (t : Token) : Bool := t.isSymbolOf ["=", ":"]

/-- Whether a type may begin with the token. -/
def opensType (t : Token) : Bool := t.cls != .lifetime && !t.opensValue && !t.marksItem

/-- Tokens from a brace to the one that matches it. -/
def IsBraced (ts : List Token) : Prop :=
  ∃ inner, ts = .sym "\x7b" :: (inner ++ [.sym "\x7d"]) ∧ Bracket.Balanced (marks inner)

end Token

/-- An argument that is written as these tokens is of this kind, and they tell so. -/
structure ArgKind.ToldBy (k : ArgKind) (ts : List Token) : Prop where
  lifetime : k = .lifetime ↔ ∃ t ∈ ts[0]?, t.cls = .lifetime
  value : k = .value ↔ ∃ t ∈ ts[0]?, t.opensValue = true
  binding : k = .binding ↔ ∃ t ∈ ts[1]?, t.isSymbolOf ["="] = true
  constraint : k = .constraint ↔ ∃ t ∈ ts[1]?, t.isSymbolOf [":"] = true
  /-- A value is one token or braced as a whole. -/
  whole : k = .value → (∃ t, ts = [t] ∧ t.isSymbolOf ["\x7b"] = false) ∨ Token.IsBraced ts

namespace Token

variable {t : Token}

theorem opensType_iff :
    t.opensType = true ↔ t.cls ≠ .lifetime ∧ t.opensValue = false ∧ t.marksItem = false := by
  simp only [opensType,Bool.and_eq_true,bne_iff_ne,ne_eq,Bool.not_eq_true',and_assoc]

theorem marksItem_iff :
    t.marksItem = true ↔ t.isSymbolOf ["="] = true ∨ t.isSymbolOf [":"] = true := by
  simp [marksItem,isSymbolOf,and_or_left]

theorem not_marksItem_of_cls (h : t.cls ≠ .symbol) : t.marksItem = false := by
  unfold marksItem isSymbolOf
  rw [beq_eq_false_iff_ne.mpr h]
  rfl

theorem cls_ne_lifetime (h : t.opensValue = true) : t.cls ≠ .lifetime := by
  intro hcls
  unfold opensValue isWordOf isSymbolOf at h
  rw [hcls] at h
  cases h

/-- A name is written as a word that is no keyword, whatever it is. -/
theorem ident_ok {name : Text} (h : ident name = .ok t) :
    t.cls = .word ∧ t.text ∉ Keyword.reserved := by
  have hreserved : ∀ w ∈ Keyword.reserved, 0x23 ∉ w := by decide
  unfold ident at h
  split at h
  · cases h
  · split at h
    · cases h
      exact ⟨rfl,fun hmem => hreserved _ hmem (Text.IsName.hash_mem_raw name)⟩
    · rename_i hplain
      cases h
      exact ⟨rfl,fun hmem => hplain (List.contains_iff_mem.mpr hmem)⟩

theorem opensType_ident {name : Text} (h : ident name = .ok t) : t.opensType = true := by
  obtain ⟨hcls,htext⟩ := ident_ok h
  have htruths : ∀ w ∈ (["true","false"] : List Text), w ∈ Keyword.reserved := by decide
  have hcontains : (["true","false"] : List Text).contains t.text = false :=
    Bool.eq_false_iff.mpr fun hmem => htext (htruths _ (List.contains_iff_mem.mp hmem))
  refine opensType_iff.mpr ⟨hcls ▸ nofun,?_,not_marksItem_of_cls (hcls ▸ nofun)⟩
  unfold opensValue isWordOf isSymbolOf
  rw [hcontains,hcls]
  rfl

end Token

/-! ## First tokens -/

namespace Script

/-- The first token, if there is one, has a property. -/
def Opens (P : Token → Prop) (s : Script) : Prop := ∀ t ∈ s.output.items[0]?, P t

/-- The second token marks no associated item. -/
def Unmarked (s : Script) : Prop := ∀ t ∈ s.output.items[1]?, t.marksItem = false

variable {P Q : Token → Prop} {r s : Script} {t : Token}

theorem Opens.additive : Additive (Opens P) where
  done := nofun
  append {r s} hr hs := by
    unfold Opens at hr hs ⊢
    rw [output_append]
    cases hf : r.output.fault with
    | some f => rwa [Output.append_of_fault hf]
    | none =>
        rw [Output.append_of_complete hf]
        cases hitems : r.output.items with
        | nil => exact hs
        | cons u us =>
            rw [hitems] at hr
            exact hr

namespace Opens

theorem token (ht : P t) (r : Script) : Opens P (token t r) := fun _ hu => Option.some.inj hu ▸ ht

theorem fail (f : Fault) : Opens P (fail f) := nofun

theorem scope (h : Opens P s) (site : Site) : Opens P (scope site s done) := by
  unfold Opens at h ⊢
  rw [output_scope_done]
  exact h

theorem imp (h : Opens P s) (hPQ : ∀ t, P t → Q t) : Opens Q s := fun t ht => hPQ t (h t ht)

theorem parenthesizedIf {c : Bool} (hparen : P (.sym "(")) (h : c = false → Opens P s) :
    Opens P (parenthesizedIf c s) := by
  cases c with
  | false => exact h rfl
  | true => exact token hparen _

/-- A name that cannot be written is a fault, so what follows it never comes first. -/
theorem ident (name : Text) (s : Script) :
    Opens (fun t => t.opensType = true) (Script.ident name ++ s) := by
  unfold Script.ident
  cases h : Token.ident name with
  | error f => exact fail f
  | ok t => exact token (Token.opensType_ident h) s

end Opens

namespace Unmarked

theorem token (t : Token) (h : r.Opens fun u => u.marksItem = false) : Unmarked (token t r) := h

theorem ident (name : Text) (h : r.Opens fun u => u.marksItem = false) :
    Unmarked (Script.ident name ++ r) := by
  unfold Script.ident
  cases Token.ident name with
  | error f => exact nofun
  | ok t => exact token t h

theorem scope (h : Unmarked s) (site : Site) : Unmarked (scope site s done) := by
  unfold Unmarked at h ⊢
  rw [output_scope_done]
  exact h

end Unmarked

end Script

/-! ## What types and paths begin with -/

open Script (Opens Unmarked)

/-- A script that begins as a type does. -/
abbrev Script.OpensType (s : Script) : Prop := s.Opens fun t => t.opensType = true

/-- A script that does not begin with the mark of an associated item. -/
abbrev Script.OpensUnmarked (s : Script) : Prop := s.Opens fun t => t.marksItem = false

theorem Script.OpensType.unmarked {s : Script} (h : s.OpensType) : s.OpensUnmarked :=
  h.imp fun _ ht => (Token.opensType_iff.mp ht).2.2

theorem Script.OpensUnmarked.token {t : Token} (h : t.marksItem = false) (r : Script) :
    (token t r).OpensUnmarked :=
  Opens.token h r

theorem Segment.opens (s : Segment) : s.script.OpensType := by
  obtain ⟨n,as⟩ := s
  exact .ident n as.script

theorem Path.opens (p : Path) : p.script.OpensType := by
  obtain ⟨r,ss⟩ := p
  refine Opens.scope (Opens.additive.segments (.token (by decide) _) ?_) _
  rw [Segment.scripts_eq_map]
  exact List.forall_mem_map.mpr fun s _ => s.opens

theorem QPath.opens (p : QPath) : p.script.OpensType := by
  cases p with
  | plain p => exact p.opens
  | qualified t n p =>
      obtain ⟨r,ss⟩ := p
      exact Opens.scope (.token (by decide) _) _

theorem Ty.opens (t : Ty) : t.script.OpensType := by
  cases t with
  | moved s => exact .fail _
  | invalid s => exact .fail _
  | path s p => exact p.opens
  | _ => exact .token (by decide) _

/-! ## What else comes second -/

theorem Lifetime.opens (l : Lifetime) : l.script.OpensUnmarked := by
  unfold script
  split
  · exact Script.OpensUnmarked.token (t := .lifetime l.name) rfl _
  · exact .fail _

theorem Bound.opens (b : Bound) : b.script.OpensUnmarked := by
  cases b with
  | moved => exact .fail _
  | empty => exact .fail _
  | lifetime l => exact l.opens
  | trait ls p =>
      exact Opens.additive.append (Opens.additive.onlyIf fun _ => .token (by decide) _)
        p.opens.unmarked
  | maybe p => exact .token (by decide) _

theorem Args.opens (as : Args) : as.script.OpensUnmarked := by
  cases as with
  | moved => exact .fail _
  | none => exact Opens.additive.done
  | angle r as =>
      refine Opens.scope ?_ _
      cases r with
      | false => exact .token (by decide) _
      | true => exact .token (by decide) _
  | parenthesized ts o => exact .token (by decide) _

namespace Expr

theorem opens_of_not_binary {e : Expr} (h : e.isBinary = false) : e.script.OpensUnmarked := by
  have hadditive := Opens.additive (P := fun t => t.marksItem = false)
  cases e with
  | missing => exact hadditive.done
  | block s k y es => cases k <;> exact .token (by decide) _
  | call s p es =>
      rw [script,Script.append_assoc,Script.append_assoc]
      exact hadditive.append p.opens.unmarked (.token (by decide) _)
  | int s n c => cases c <;> exact Script.OpensUnmarked.token (t := .literal _) rfl _
  | bool s b => exact Script.OpensUnmarked.token (t := .keyword _) rfl _
  | str s t => exact Script.OpensUnmarked.token (t := .literal _) rfl _
  | name s p => exact p.opens.unmarked
  | binary s op l r => cases h
  | unary s op e =>
      rw [script]
      split
      · exact .fail _
      · cases op <;> exact .token (by decide) _

theorem operandScript_opens (e : Expr) : e.operandScript.OpensUnmarked :=
  .parenthesizedIf (by decide) opens_of_not_binary

theorem opens (e : Expr) : e.script.OpensUnmarked := by
  cases hbinary : e.isBinary with
  | false => exact opens_of_not_binary hbinary
  | true =>
      cases e with
      | binary s op l r =>
          rw [script]
          split
          · exact .fail _
          · refine Opens.additive.append (Opens.additive.append l.operandScript_opens ?_)
              r.operandScript_opens
            unfold BinaryOp.script
            cases op.text with
            | error f => exact .fail f
            | ok t => exact Script.OpensUnmarked.token (t := .operator t) rfl _
      | _ => cases hbinary

end Expr

/-! ## Second tokens -/

theorem Path.unmarked (p : Path) : p.script.Unmarked := by
  have heach (ss : List Segment) : (Script.each "::" (Segment.scripts ss)).OpensUnmarked := by
    rw [Segment.scripts_eq_map]
    exact Opens.additive.each (.token (by decide) _)
      (List.forall_mem_map.mpr fun s _ => s.opens.unmarked)
  obtain ⟨r,ss⟩ := p
  refine Unmarked.scope ?_ _
  cases ss with
  | nil => exact nofun
  | cons s ss =>
      cases r with
      | true => exact .token _ (Opens.additive.append s.opens.unmarked (heach ss))
      | false =>
          obtain ⟨n,as⟩ := s
          change (Script.ident n ++ as.script ++ Script.each "::" (Segment.scripts ss)).Unmarked
          rw [Script.append_assoc]
          exact .ident n (Opens.additive.append as.opens (heach ss))

theorem QPath.unmarked (p : QPath) : p.script.Unmarked := by
  cases p with
  | plain p => exact p.unmarked
  | qualified t n p =>
      obtain ⟨r,ss⟩ := p
      refine Unmarked.scope ?_ _
      unfold Script.qualified
      simp only [Script.append_assoc]
      have hadditive := Opens.additive (P := fun t => t.marksItem = false)
      change (Script.token (.sym "<") (t.script ++ _)).Unmarked
      refine .token _ (hadditive.append t.opens.unmarked ?_)
      refine hadditive.append (hadditive.onlyIf fun _ => hadditive.done) ?_
      exact hadditive.append (hadditive.onlyIf fun _ => .token (by decide) _) (.token (by decide) _)

theorem Ty.unmarked (t : Ty) : t.script.Unmarked := by
  have hadditive := Opens.additive (P := fun t => t.marksItem = false)
  have hbounds (bs : List Bound) : (Script.separated "+" (Bound.scripts bs)).OpensUnmarked := by
    rw [Bound.scripts_eq_map]
    exact hadditive.separated (.token (by decide) _) (List.forall_mem_map.mpr fun b _ => b.opens)
  have htarget (t : Ty) : (Script.parenthesizedIf t.needsParens t.script).OpensUnmarked :=
    .parenthesizedIf (by decide) fun _ => t.opens.unmarked
  cases t with
  | moved s => exact nofun
  | invalid s => exact nofun
  | infer s => exact nofun
  | never s => exact nofun
  | unit s => exact .token _ (.token (by decide) _)
  | tuple s ts =>
      have hitems : (Script.items (Ty.scripts ts)).OpensUnmarked := by
        rw [Ty.scripts_eq_map]
        exact hadditive.items (.token (by decide) _) (.token (by decide) _)
          (List.forall_mem_map.mpr fun t _ => t.opens.unmarked)
      exact .token _ (hadditive.append hitems (.token (by decide) _))
  | borrow s l m t =>
      have hl := hadditive.onlyIf (c := l.isSpecified) fun _ => l.opens
      have hm := hadditive.onlyIf (c := m) (s := Script.keyword "mut") fun _ =>
        .token (by decide) _
      exact .token _ (hadditive.append (hadditive.append hl hm) (htarget t))
  | pointer s m t => exact .token _ (Script.OpensUnmarked.token (t := .keyword _) rfl _)
  | array s t n =>
      have hlength := hadditive.onlyIf (c := !n.isMissing)
        (s := Script.sym ";" ++ .scope (.expr n.className) n.script .done) fun _ =>
          .token (by decide) _
      exact .token _ (hadditive.append (hadditive.append t.opens.unmarked hlength)
        (.token (by decide) _))
  | path s p => exact p.unmarked
  | traitObject s bs => exact .token _ (hbounds bs)
  | erased s bs => exact .token _ (hbounds bs)

/-! ## Arguments -/

namespace Token

variable {ts : List Token}

theorem not_associated (h : ∀ t ∈ ts[1]?, t.marksItem = false) :
    (¬∃ t ∈ ts[1]?, t.isSymbolOf ["="] = true) ∧ ¬∃ t ∈ ts[1]?, t.isSymbolOf [":"] = true := by
  constructor
  · rintro ⟨t,ht,hmark⟩
    exact Bool.eq_false_iff.mp (h t ht) (marksItem_iff.mpr (.inl hmark))
  · rintro ⟨t,ht,hmark⟩
    exact Bool.eq_false_iff.mp (h t ht) (marksItem_iff.mpr (.inr hmark))

end Token

namespace ArgKind.ToldBy

variable {k : ArgKind} {t : Token} {ts : List Token}

/-- What begins as a type does is neither a lifetime nor a value. -/
theorem of_opensType (hk : k ≠ .lifetime ∧ k ≠ .value)
    (hfirst : ∀ t ∈ ts[0]?, t.opensType = true)
    (hbinding : k = .binding ↔ ∃ t ∈ ts[1]?, t.isSymbolOf ["="] = true)
    (hconstraint : k = .constraint ↔ ∃ t ∈ ts[1]?, t.isSymbolOf [":"] = true) : k.ToldBy ts where
  lifetime := iff_of_false hk.1 fun ⟨t,ht,hcls⟩ =>
    (Token.opensType_iff.mp (hfirst t ht)).1 hcls
  value := iff_of_false hk.2 fun ⟨t,ht,hopens⟩ =>
    Bool.eq_false_iff.mp (Token.opensType_iff.mp (hfirst t ht)).2.1 hopens
  binding := hbinding
  constraint := hconstraint
  whole h := absurd h hk.2

theorem of_lifetime (name : Text) : ArgKind.lifetime.ToldBy [.lifetime name] where
  lifetime := iff_of_true rfl ⟨_,rfl,rfl⟩
  value := by
    refine iff_of_false nofun ?_
    rintro ⟨t,ht,hopens⟩
    cases ht
    cases hopens
  binding := iff_of_false nofun nofun
  constraint := iff_of_false nofun nofun
  whole := nofun

theorem of_value (hfirst : ∃ t ∈ ts[0]?, t.opensValue = true)
    (hsecond : ∀ t ∈ ts[1]?, t.marksItem = false)
    (hwhole : (∃ t, ts = [t] ∧ t.isSymbolOf ["\x7b"] = false) ∨ Token.IsBraced ts) :
    ArgKind.value.ToldBy ts where
  lifetime := by
    obtain ⟨t,ht,hopens⟩ := hfirst
    refine iff_of_false nofun ?_
    rintro ⟨u,hu,hcls⟩
    cases Option.mem_unique ht hu
    exact Token.cls_ne_lifetime hopens hcls
  value := iff_of_true rfl hfirst
  binding := iff_of_false nofun (Token.not_associated hsecond).1
  constraint := iff_of_false nofun (Token.not_associated hsecond).2
  whole _ := hwhole

theorem of_token (hopens : t.opensValue = true) (hbrace : t.isSymbolOf ["\x7b"] = false) :
    ArgKind.value.ToldBy [t] :=
  .of_value ⟨t,rfl,hopens⟩ nofun (.inl ⟨t,rfl,hbrace⟩)

/-- What is printed between braces, whatever it is, as long as it does not begin with the mark
of an associated item. -/
theorem of_braced {s : Script} (hregular : s.Regular) (hopens : s.OpensUnmarked)
    (hc : s.Complete) :
    ArgKind.value.ToldBy (Script.sym "\x7b" ++ s ++ Script.sym "\x7d").output.items := by
  have hitems : (Script.sym "\x7b" ++ s ++ Script.sym "\x7d").output.items =
      .sym "\x7b" :: (s.output.items ++ [.sym "\x7d"]) := by
    rw [Script.append_assoc,Script.output_append,Script.output_append,
      Output.append_of_complete hc]
    rfl
  have hunmarked : (Script.sym "\x7b" ++ s ++ Script.sym "\x7d").Unmarked :=
    .token _ (Opens.additive.append hopens (.token (by decide) _))
  refine .of_value ?_ hunmarked (.inr ⟨s.output.items,hitems,hregular.balanced hc⟩)
  rw [hitems]
  exact ⟨_,rfl,by decide⟩

/-- Whatever is told by neither of the two tokens is a type. -/
theorem ty_iff (h : k.ToldBy ts) :
    k = .ty ↔ (∀ t ∈ ts[0]?, t.cls ≠ .lifetime ∧ t.opensValue = false) ∧
      ∀ t ∈ ts[1]?, t.marksItem = false := by
  constructor
  · rintro rfl
    constructor
    · intro t ht
      refine ⟨fun hcls => ?_,Bool.eq_false_iff.mpr fun hopens => ?_⟩
      · cases h.lifetime.mpr ⟨t,ht,hcls⟩
      · cases h.value.mpr ⟨t,ht,hopens⟩
    · intro t ht
      refine Bool.eq_false_iff.mpr fun hmark => ?_
      rcases Token.marksItem_iff.mp hmark with hmark | hmark
      · cases h.binding.mpr ⟨t,ht,hmark⟩
      · cases h.constraint.mpr ⟨t,ht,hmark⟩
  · rintro ⟨hfirst,hsecond⟩
    cases k with
    | ty => rfl
    | lifetime =>
        obtain ⟨t,ht,hcls⟩ := h.lifetime.mp rfl
        exact absurd hcls (hfirst t ht).1
    | value =>
        obtain ⟨t,ht,hopens⟩ := h.value.mp rfl
        exact absurd hopens (Bool.eq_false_iff.mp (hfirst t ht).2)
    | binding => exact absurd (h.binding.mp rfl) (Token.not_associated hsecond).1
    | constraint => exact absurd (h.constraint.mp rfl) (Token.not_associated hsecond).2

end ArgKind.ToldBy

namespace Arg

open ArgKind

/-- A value that stands alone is a literal or a bare block. -/
theorem told_selfDelimiting {e : Expr} (h : e.isSelfDelimiting = true) (hc : e.script.Complete) :
    ArgKind.value.ToldBy e.script.output.items := by
  cases e with
  | block s k y es =>
      cases k with
      | bare =>
          have hregular : (Script.statements y (Expr.statementScripts s es)).Regular :=
            Script.Regular.additive.statements (.sym (by decide))
              (Script.Regular.statementScripts s fun e _ => (Family.plain_inductive.all_expr e).1)
          have hopens : (Script.statements y (Expr.statementScripts s es)).OpensUnmarked := by
            rw [Expr.statementScripts_eq_map_ite]
            refine Opens.additive.statements (.token (by decide) _)
              (List.forall_mem_map.mpr fun e _ => ?_)
            split
            · exact .fail _
            · exact e.opens.scope _
          exact .of_braced hregular hopens
            (Script.complete_append_iff.mp (Script.complete_append_iff.mp hc).1).2
      | _ => cases h
  | int s n c =>
      have hitems : (Expr.int s n c).script.output.items =
          [.literal (Text.ofNat n.toNat ++ c.name)] := by
        cases c <;> rfl
      rw [hitems]
      exact .of_token rfl rfl
  | bool s b => exact .of_token (by cases b <;> decide) rfl
  | str s t => exact .of_token rfl rfl
  | _ => cases h

theorem told_value {e : Expr} (hc : (value e).script.Complete) :
    ArgKind.value.ToldBy (value e).script.output.items := by
  cases hm : e.isMissing with
  | true =>
      rw [script_missing hm] at hc
      exact absurd hc (Script.not_complete_fail _)
  | false =>
      rw [script_value hm] at hc ⊢
      split at hc
      · rename_i hdelimiting
        rw [if_pos hdelimiting]
        exact told_selfDelimiting hdelimiting hc
      · rename_i hdelimiting
        rw [if_neg hdelimiting]
        exact .of_braced (Node.expr e).script_regular (e.opens.scope _)
          (Script.complete_append_iff.mp (Script.complete_append_iff.mp hc).1).2

/-- The name of an associated item is one token, with the mark of its kind behind it. -/
theorem told_associated {k : ArgKind} {name mark : Text} {s : Script}
    (hk : k ≠ .lifetime ∧ k ≠ .value)
    (hbinding : k = .binding ↔ (Token.sym mark).isSymbolOf ["="] = true)
    (hconstraint : k = .constraint ↔ (Token.sym mark).isSymbolOf [":"] = true)
    (hc : (Script.ident name ++ Script.sym mark ++ s).Complete) :
    k.ToldBy (Script.ident name ++ Script.sym mark ++ s).output.items := by
  have hsecond (texts : List Text) : (Token.sym mark).isSymbolOf texts = true ↔
      ∃ t ∈ some (Token.sym mark), t.isSymbolOf texts = true :=
    ⟨fun h => ⟨_,rfl,h⟩,fun ⟨_,ht,h⟩ => Option.some.inj ht ▸ h⟩
  unfold Script.ident at hc ⊢
  cases h : Token.ident name with
  | error f =>
      rw [h] at hc
      exact absurd hc (Script.not_complete_fail f)
  | ok t =>
      exact .of_opensType hk (Opens.token (Token.opensType_ident h) Script.done)
        (hbinding.trans (hsecond _)) (hconstraint.trans (hsecond _))

/-- Every argument that is printed to the end tells its kind by its first two tokens. -/
theorem told {a : Arg} (hc : a.script.Complete) :
    ∃ k, a.kind? = some k ∧ k.ToldBy a.script.output.items := by
  cases a with
  | moved => exact absurd hc (Script.not_complete_fail _)
  | lifetime l =>
      rw [script,Lifetime.script,if_pos (l.complete_iff.mp hc)]
      exact ⟨.lifetime,rfl,.of_lifetime l.name⟩
  | ty t =>
      have hsecond := Token.not_associated t.unmarked
      exact ⟨.ty,rfl,.of_opensType (by decide) t.opens (iff_of_false (by decide) hsecond.1)
        (iff_of_false (by decide) hsecond.2)⟩
  | value e => exact ⟨.value,rfl,told_value hc⟩
  | binding n t =>
      exact ⟨.binding,rfl,told_associated (by decide) (by decide) (by decide) hc⟩
  | constraint n bs =>
      rw [script,Script.complete_scope_iff] at hc
      rw [script,Script.output_scope_done]
      exact ⟨.constraint,rfl,told_associated (by decide) (by decide) (by decide) hc⟩

end Arg

namespace Node

/-- Whatever tree is printed to the end, the arguments in each pair of angle brackets are
printed in their groups, and the tokens of each of them tell its kind: a lifetime and a value
by the first token, an associated item by the second, and a type by neither. A value is a
single token, or stands in braces. -/
theorem arguments_told {n : Node} {s : Trace.State} (hf : (n.print s).output.fault = none)
    {r : Bool} {as : List Arg} (hprints : n.Prints (args (.angle r as))) :
    CommaList.tokens ⟨.angle,(Arg.grouped as).map arg⟩ <:+: (n.print s).output.items ∧
      ∀ a ∈ Arg.grouped as, ∃ k, a.kind? = some k ∧ k.ToldBy a.script.output.items ∧
        (k = .ty ↔ (∀ t ∈ a.script.output.items[0]?, t.cls ≠ .lifetime ∧ t.opensValue = false) ∧
          ∀ t ∈ a.script.output.items[1]?, t.marksItem = false) := by
  have hc := (print_complete_iff n s).mp hf
  have hl := HasCommaList.angle r as
  obtain ⟨hargs,hwithin⟩ := hprints.within hc
  have helements : ∀ e ∈ (Arg.grouped as).map arg, e.script.Complete := fun e he =>
    ((complete_iff _).mp hargs).2 e (hl.mem_printedParts e he)
  have htokens := (hl.within hargs).2
  rw [CommaList.script_items helements] at htokens
  rw [print_output_of_complete hf]
  refine ⟨htokens.trans hwithin,fun a ha => ?_⟩
  obtain ⟨k,hk,htold⟩ := Arg.told (helements _ (List.mem_map_of_mem ha))
  exact ⟨k,hk,htold,htold.ty_iff⟩

/-- `<{ 1 == 2 }, true = _>`: the name of the item is written raw. -/
theorem arguments_told_comparison :
    ((args (.angle false [.binding "true" (.infer none),.value (.binary none .eq
        (.int none 1 .unsuffixed) (.int none 2 .unsuffixed))])).print .fresh).output.fault =
          none ∧
      (args (.angle false [.binding "true" (.infer none),.value (.binary none .eq
        (.int none 1 .unsuffixed) (.int none 2 .unsuffixed))])).Prints
          (args (.angle false [.binding "true" (.infer none),.value (.binary none .eq
            (.int none 1 .unsuffixed) (.int none 2 .unsuffixed))])) ∧
      ArgKind.value.ToldBy
        [.sym "\x7b",.literal "1",.operator "==",.literal "2",.sym "\x7d"] ∧
      ArgKind.binding.ToldBy [.keyword "r#true",.sym "=",.keyword "_"] := by
  have hf : ((args (.angle false [.binding "true" (.infer none),.value (.binary none .eq
      (.int none 1 .unsuffixed) (.int none 2 .unsuffixed))])).print .fresh).output.fault =
        none := by decide
  have htold := (arguments_told hf .refl).2
  obtain ⟨_,hvalue,hcomparison,-⟩ := htold (.value _) (List.mem_cons_self ..)
  obtain ⟨_,hbinding,hitem,-⟩ := htold (.binding _ _) (List.mem_cons_of_mem _ (List.mem_cons_self ..))
  cases hvalue
  cases hbinding
  exact ⟨hf,.refl,hcomparison,hitem⟩

end Node

end Turbofish
