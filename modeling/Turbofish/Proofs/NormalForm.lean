import Turbofish.Proofs.Parts
import Turbofish.Proofs.Reading.Args

/-!
# Normal forms

The normal form of a tree says outright what printing would make of it anyway. Arguments
stand in the order in which they are written, without those that were moved out; the
position of a qualified path is no further than its end, and where it is zero, the path
has no root; the unit type is the empty tuple; and a value that is no argument by itself
stands in a block.
-/
namespace Turbofish

/-- A position that is not behind the end of a path of some size. -/
def QPath.clamped (position : UInt64) (size : Nat) : UInt64 :=
  if size < position.toNat then size.toUInt64 else position

mutual

def Ty.normal : Ty → Ty
  | .moved s => .moved s
  | .invalid s => .invalid s
  | .infer s => .infer s
  | .never s => .never s
  | .unit s => .tuple s []
  | .tuple s ts => .tuple s (Ty.normalList ts)
  | .borrow s l m t => .borrow s l m t.normal
  | .pointer s m t => .pointer s m t.normal
  | .array s t n => .array s t.normal n.normal
  | .path s p => .path s p.normal
  | .traitObject s bs => .traitObject s (Bound.normalList bs)
  | .erased s bs => .erased s (Bound.normalList bs)

def Ty.normalList : List Ty → List Ty
  | [] => []
  | t :: ts => t.normal :: Ty.normalList ts

def Ty.normalOption : Option Ty → Option Ty
  | none => none
  | some t => some t.normal

def Bound.normal : Bound → Bound
  | .moved => .moved
  | .empty => .empty
  | .lifetime l => .lifetime l
  | .trait ls p => .trait ls p.normal
  | .maybe p => .maybe p.normal

def Bound.normalList : List Bound → List Bound
  | [] => []
  | b :: bs => b.normal :: Bound.normalList bs

def Path.normal : Path → Path
  | .mk r ss => .mk r (Segment.normalList ss)

def Segment.normal : Segment → Segment
  | .mk n as => .mk n as.normal

def Segment.normalList : List Segment → List Segment
  | [] => []
  | s :: ss => s.normal :: Segment.normalList ss

def Args.normal : Args → Args
  | .moved => .moved
  | .none => .none
  | .angle r as => .angle r (Arg.grouped (Arg.normalList as))
  | .parenthesized ts o => .parenthesized (Ty.normalList ts) (Ty.normalOption o)

def Arg.normal : Arg → Arg
  | .moved => .moved
  | .lifetime l => .lifetime l
  | .ty t => .ty t.normal
  | .value e => .value (if e.isMissing then e else e.normal.braced)
  | .binding n t => .binding n t.normal
  | .constraint n bs => .constraint n (Bound.normalList bs)

def Arg.normalList : List Arg → List Arg
  | [] => []
  | a :: as => a.normal :: Arg.normalList as

def QPath.normal : QPath → QPath
  | .plain p => .plain p.normal
  | .qualified t n (.mk r ss) =>
    .qualified t.normal (QPath.clamped n ss.length)
      (.mk (r && QPath.clamped n ss.length != 0) (Segment.normalList ss))

def Expr.normal : Expr → Expr
  | .missing => .missing
  | .block s k y es => .block s k y (Expr.normalList es)
  | .call s p es => .call s p.normal (Expr.normalList es)
  | .int s n c => .int s n c
  | .bool s b => .bool s b
  | .str s t => .str s t
  | .name s p => .name s p.normal
  | .binary s op l r => .binary s op l.normal r.normal
  | .unary s op e => .unary s op e.normal

def Expr.normalList : List Expr → List Expr
  | [] => []
  | e :: es => e.normal :: Expr.normalList es

end

def Node.normal : Node → Node
  | .lifetime l => .lifetime l
  | .ty t => .ty t.normal
  | .path p => .path p.normal
  | .qpath p => .qpath p.normal
  | .segment s => .segment s.normal
  | .args as => .args as.normal
  | .arg a => .arg a.normal
  | .bound b => .bound b.normal
  | .expr e => .expr e.normal

/-- What a node in normal form is, whatever its parts are. -/
def Node.IsNormal : Node → Prop
  | ty (.unit _) => False
  | args (.angle _ as) => Arg.grouped as = as
  | arg (.value e) => e.isMissing = true ∨ e.isSelfDelimiting = true
  | qpath (.qualified _ n (.mk r ss)) => n.toNat ≤ ss.length ∧ (n = 0 → r = false)
  | _ => True

/-! ## Lists of nodes, element by element -/

theorem Ty.normalList_eq_map (ts : List Ty) : normalList ts = ts.map normal := by
  induction ts with
  | nil => rfl
  | cons t ts ih => simp only [normalList,List.map_cons,ih]

theorem Bound.normalList_eq_map (bs : List Bound) : normalList bs = bs.map normal := by
  induction bs with
  | nil => rfl
  | cons b bs ih => simp only [normalList,List.map_cons,ih]

theorem Segment.normalList_eq_map (ss : List Segment) : normalList ss = ss.map normal := by
  induction ss with
  | nil => rfl
  | cons s ss ih => simp only [normalList,List.map_cons,ih]

theorem Arg.normalList_eq_map (as : List Arg) : normalList as = as.map normal := by
  induction as with
  | nil => rfl
  | cons a as ih => simp only [normalList,List.map_cons,ih]

theorem Expr.normalList_eq_map (es : List Expr) : normalList es = es.map normal := by
  induction es with
  | nil => rfl
  | cons e es ih => simp only [normalList,List.map_cons,ih]

/-! ## What does not change -/

theorem QPath.clamped_toNat (position : UInt64) (size : Nat) :
    (clamped position size).toNat = min position.toNat size := by
  unfold clamped
  split
  · rename_i h
    have hlt : size < 2 ^ 64 := Nat.lt_trans h position.toNat_lt
    rw [Nat.min_eq_right (Nat.le_of_lt h)]
    exact Nat.mod_eq_of_lt hlt
  · omega

@[simp] theorem Ty.needsParens_normal (t : Ty) : t.normal.needsParens = t.needsParens := by
  cases t <;> simp [normal,needsParens,Bound.normalList_eq_map]

@[simp] theorem Expr.isMissing_normal (e : Expr) : e.normal.isMissing = e.isMissing := by
  cases e <;> simp [normal,isMissing]

@[simp] theorem Expr.isBinary_normal (e : Expr) : e.normal.isBinary = e.isBinary := by
  cases e <;> simp [normal,isBinary]

@[simp] theorem Expr.isSelfDelimiting_normal (e : Expr) :
    e.normal.isSelfDelimiting = e.isSelfDelimiting := by
  cases e with
  | block s k y es => cases k <;> simp [normal,isSelfDelimiting,isLiteral,isBareBlock]
  | _ => simp [normal,isSelfDelimiting,isLiteral,isBareBlock]

theorem Arg.group?_normal (a : Arg) : a.normal.group? = a.group? := by
  cases a <;> rfl

@[simp] theorem Node.hasPhase_normal (n : Node) : n.normal.hasPhase = n.hasPhase := by
  cases n <;> rfl

/-! ## What changes only once -/

/-- Putting arguments in order takes none out of a group, nor changes its order. -/
theorem Arg.filter_grouped (group : ArgGroup) (as : List Arg) :
    (grouped as).filter (·.group? = some group) = as.filter (·.group? = some group) := by
  have hsame (g : ArgGroup) : (as.filter (·.group? = some g)).filter (·.group? = some g) =
      as.filter (·.group? = some g) := by
    rw [List.filter_filter]
    simp only [Bool.and_self]
  have hother (g h : ArgGroup) (hgh : g ≠ h) :
      (as.filter (·.group? = some g)).filter (·.group? = some h) = [] := by
    rw [List.filter_filter,List.filter_eq_nil_iff]
    intro a _
    simp only [Bool.and_eq_true,decide_eq_true_eq,not_and]
    intro hh hg
    exact hgh (Option.some.inj (hg.symm.trans hh))
  rw [grouped,List.filter_append,List.filter_append]
  cases group with
  | lifetimes =>
      rw [hsame,hother .values .lifetimes (by decide),hother .associated .lifetimes (by decide),
        List.append_nil,List.append_nil]
  | values =>
      rw [hsame,hother .lifetimes .values (by decide),hother .associated .values (by decide),
        List.append_nil,List.nil_append]
  | associated =>
      rw [hsame,hother .lifetimes .associated (by decide),hother .values .associated (by decide),
        List.nil_append,List.nil_append]

theorem Arg.grouped_subset (as : List Arg) : grouped as ⊆ as := by
  intro a ha
  simp only [grouped,List.mem_append,List.mem_filter] at ha
  rcases ha with (ha | ha) | ha <;> exact ha.1

theorem Arg.grouped_grouped (as : List Arg) : grouped (grouped as) = grouped as := by
  rw [grouped,filter_grouped,filter_grouped,filter_grouped]
  rfl

theorem Expr.isSelfDelimiting_braced (e : Expr) : e.braced.isSelfDelimiting = true := by
  unfold braced
  split
  · assumption
  · rfl

theorem Expr.isMissing_braced (e : Expr) : e.braced.isMissing = false := by
  cases e with
  | block _ k _ _ => cases k <;> rfl
  | _ => rfl

theorem Expr.braced_braced (e : Expr) : e.braced.braced = e.braced :=
  if_pos e.isSelfDelimiting_braced

/-! ## Whole trees -/

namespace Node

theorem isNormal_normal (n : Node) : n.normal.IsNormal := by
  cases n with
  | ty t => cases t <;> trivial
  | args as =>
      cases as with
      | angle r as => exact Arg.grouped_grouped _
      | _ => trivial
  | arg a =>
      cases a with
      | value e =>
          change (if e.isMissing then e else e.normal.braced).isMissing = true ∨
            (if e.isMissing then e else e.normal.braced).isSelfDelimiting = true
          split
          · left; assumption
          · right; exact e.normal.isSelfDelimiting_braced
      | _ => trivial
  | qpath p =>
      cases p with
      | plain p => trivial
      | qualified t n p =>
          obtain ⟨r,ss⟩ := p
          constructor
          · rw [QPath.clamped_toNat,Segment.normalList_eq_map,List.length_map]
            exact Nat.min_le_right _ _
          · intro h
            rw [h,bne_self_eq_false,Bool.and_false]
  | _ => trivial

/-- The parts of a normal form are normal forms of parts. The part of a value may be a
block that stands in for it instead. -/
theorem parts_normal_subset {n : Node} (hn : ∀ e, n ≠ arg (.value e)) :
    n.normal.parts ⊆ n.parts.map normal := by
  cases n with
  | lifetime l => exact List.nil_subset _
  | ty t =>
      cases t <;> simp [normal,Ty.normal,parts,Ty.parts,Ty.normalList_eq_map,
        Bound.normalList_eq_map,Function.comp_def]
  | path p =>
      obtain ⟨r,ss⟩ := p
      simp [normal,Path.normal,parts,Path.parts,Segment.normalList_eq_map,Function.comp_def]
  | segment s =>
      obtain ⟨n,as⟩ := s
      simp [normal,Segment.normal,parts,Segment.parts]
  | bound b => cases b <;> simp [normal,Bound.normal,parts,Bound.parts,Function.comp_def]
  | qpath p =>
      cases p with
      | plain p => simp [normal,QPath.normal,parts,QPath.parts]
      | qualified t n p =>
          obtain ⟨r,ss⟩ := p
          simp [normal,QPath.normal,parts,QPath.parts,Segment.normalList_eq_map,Function.comp_def]
  | expr e =>
      cases e <;> simp [normal,Expr.normal,parts,Expr.parts,Expr.normalList_eq_map,
        Function.comp_def]
  | args as =>
      cases as with
      | angle r as =>
          have hmap : (Arg.normalList as).map arg = (as.map arg).map normal := by
            rw [Arg.normalList_eq_map,List.map_map,List.map_map]
            rfl
          have hsubset := List.map_subset arg (Arg.grouped_subset (Arg.normalList as))
          rw [hmap] at hsubset
          exact hsubset
      | parenthesized ts o =>
          cases o <;> simp [normal,Args.normal,parts,Args.parts,Ty.normalList_eq_map,
            Ty.normalOption,Function.comp_def]
      | _ => exact List.nil_subset _
  | arg a =>
      cases a with
      | value e => exact absurd rfl (hn e)
      | _ => simp [normal,Arg.normal,parts,Arg.parts,Bound.normalList_eq_map,Function.comp_def]

/-- The block that stands in for a value is normal where the value is. -/
theorem braced_isNormal {e : Expr} (h : ∀ m, (expr e).Contains m → m.IsNormal) :
    ∀ m, (expr e.braced).Contains m → m.IsNormal := by
  unfold Expr.braced
  split
  · exact h
  · rw [forall_contains_iff]
    exact ⟨trivial,List.forall_mem_singleton.mpr h⟩

/-- There is nothing in a normal form that is not normal itself. -/
theorem normal_isNormal (n : Node) : ∀ m, n.normal.Contains m → m.IsNormal := by
  induction n using parts_induction with
  | h n ih =>
      rw [forall_contains_iff]
      refine ⟨n.isNormal_normal,fun p hp => ?_⟩
      by_cases hn : ∃ e, n = arg (.value e)
      · obtain ⟨e,rfl⟩ := hn
        have he := ih (expr e) (List.mem_singleton_self _)
        rw [List.mem_singleton.mp hp]
        split
        · cases e <;> first | exact he | contradiction
        · exact braced_isNormal he
      · have hsubset := parts_normal_subset fun e he => hn ⟨e,he⟩
        obtain ⟨m,hm,rfl⟩ := List.mem_map.mp (hsubset hp)
        exact ih m hm

end Node

end Turbofish
