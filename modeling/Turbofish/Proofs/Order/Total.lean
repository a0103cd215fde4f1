import Turbofish.Proofs.Order.Equality

/-!
# The order of syntax trees is total

Where a comparison answers, the answers are those of a total order on trees
without their spans; where it fails, it fails in both directions alike. It fails
exactly when moved nodes meet before a difference is found, so a tree that holds
one is never equal to anything, itself included.
-/
namespace Turbofish

open Comparison

namespace Comparison

/-- The second answer goes on where the first one ends: three nodes of which no
one comes after the next are in order, and strictly so where one step is. -/
def Chain (ab bc ac : Comparison) : Prop :=
  ∀ x y, ab = .ok x → bc = .ok y → x ≠ .gt → y ≠ .gt → ac = .ok (x.then y)

/-- The laws of a comparison of nodes that counts their content and fails on
nodes that are not whole. -/
structure Total {α β : Type} (order : α → α → Comparison) (content : α → β)
    (whole : α → Bool) : Prop where
  swap (a b : α) : order b a = (order a b).map Ordering.swap
  eq_iff (a b : α) : order a b = .ok .eq ↔ content a = content b ∧ whole a = true
  chain (a b c : α) : Chain (order a b) (order b c) (order a c)

theorem map_swap_andThen (c d : Comparison) :
    (andThen c d).map Ordering.swap = andThen (c.map Ordering.swap) (d.map Ordering.swap) := by
  rcases c with f | (_|_|_) <;> rfl

@[simp] theorem andThen_eq (c : Comparison) : andThen c (.ok .eq) = c := by
  rcases c with f | (_|_|_) <;> rfl

theorem Chain.andThen {ab bc ac ab' bc' ac' : Comparison} (h : Chain ab bc ac)
    (h' : Chain ab' bc' ac') :
    Chain (ab.andThen ab') (bc.andThen bc') (ac.andThen ac') := by
  intro x y hx hy hxg hyg
  rcases ab with f | (_|_|_)
  · cases hx
  · -- The first step is strict, and no later part of the nodes is looked at.
    cases hx
    rcases bc with f | (_|_|_)
    · cases hy
    · rw [h .lt .lt rfl rfl nofun nofun]; rfl
    · rw [h .lt .eq rfl rfl nofun nofun]; rfl
    · cases hy; exact absurd rfl hyg
  · rcases bc with f | (_|_|_)
    · cases hy
    · cases hy
      rw [h .eq .lt rfl rfl nofun nofun]
      cases x with
      | lt => rfl
      | eq => rfl
      | gt => exact absurd rfl hxg
    · rw [h .eq .eq rfl rfl nofun nofun]
      exact h' x y hx hy hxg hyg
    · cases hy; exact absurd rfl hyg
  · cases hx; exact absurd rfl hxg

end Comparison

/-! ## The laws for keys -/

theorem Letter.order_swap (a b : Letter) : b.order a = (a.order b).map Ordering.swap := by
  cases a with
  | moved v =>
      cases b with
      | moved w =>
          by_cases h : v = w
          · subst h; simp [Except.map]
          · have h' : ¬ w = v := fun he => h he.symm
            simp only [order,if_neg h,if_neg h',Except.map,Nat.compare_swap]
      | number n => simp [Except.map]
  | number m =>
      cases b with
      | moved w => simp [Except.map]
      | number n => simp only [order_number,Except.map,Nat.compare_swap]

theorem Key.order_swap (as bs : Key) : order bs as = (order as bs).map Ordering.swap := by
  induction as generalizing bs with
  | nil => cases bs <;> rfl
  | cons a as ih =>
      cases bs with
      | nil => rfl
      | cons b bs => simp only [order_cons,map_swap_andThen,← a.order_swap b,← ih bs]

theorem Letter.place_injective {a b : Letter} (h : a.place = b.place) : a = b := by
  cases a with
  | moved v =>
      cases b with
      | moved w => cases v <;> cases w <;> first | rfl | exact absurd h (by decide)
      | number n => exact absurd h (Nat.ne_of_lt (place_moved_lt v n))
  | number m =>
      cases b with
      | moved w => exact absurd h.symm (Nat.ne_of_lt (place_moved_lt w m))
      | number n => simp only [place] at h; congr; omega

theorem Letter.compare_of_order {a b : Letter} {x : Ordering} (h : a.order b = .ok x) :
    compare a.place b.place = x := by
  unfold order at h
  split at h
  · split at h
    · cases h
    · exact Except.ok.inj h
  · exact Except.ok.inj h

theorem Letter.order_of_lt {a b : Letter} (h : a.place < b.place) : a.order b = .ok .lt := by
  have hc : compare a.place b.place = .lt := Nat.compare_eq_lt.mpr h
  unfold order
  split
  · split
    · next hw => subst hw; exact absurd h (Nat.lt_irrefl _)
    · rw [hc]
  · rw [hc]

theorem Letter.chain (a b c : Letter) : Chain (a.order b) (b.order c) (a.order c) := by
  intro x y hx hy hxg hyg
  have hab := compare_of_order hx
  have hbc := compare_of_order hy
  cases x with
  | gt => exact absurd rfl hxg
  | eq =>
      have he := place_injective (Nat.compare_eq_eq.mp hab)
      subst he
      exact hy
  | lt =>
      cases y with
      | gt => exact absurd rfl hyg
      | eq =>
          have he := place_injective (Nat.compare_eq_eq.mp hbc)
          subst he
          exact hx
      | lt =>
          exact order_of_lt (Nat.lt_trans (Nat.compare_eq_lt.mp hab) (Nat.compare_eq_lt.mp hbc))

theorem Key.chain (as bs cs : Key) : Chain (order as bs) (order bs cs) (order as cs) := by
  induction as generalizing bs cs with
  | nil =>
      intro x y hx hy hxg hyg
      cases bs with
      | nil => cases hx; exact hy
      | cons b bs =>
          cases hx
          cases cs with
          | nil => cases hy; exact absurd rfl hyg
          | cons c cs => rfl
  | cons a as ih =>
      cases bs with
      | nil => intro x y hx hy hxg hyg; cases hx; exact absurd rfl hxg
      | cons b bs =>
          cases cs with
          | nil => intro x y hx hy hxg hyg; cases hy; exact absurd rfl hyg
          | cons c cs => exact (Letter.chain a b c).andThen (ih bs cs)

/-- A kind of node that is sorted by its keys has the laws of a total order, when
its equality is known. -/
theorem Key.Sorts.total {α β : Type} {key : α → Key} {order : α → α → Comparison}
    {content : α → β} {whole : α → Bool} (hs : ∀ a, Key.Sorts key order a)
    (heq : ∀ a b, order a b = .ok .eq ↔ content a = content b ∧ whole a = true) :
    Total order content whole := by
  have hkey : ∀ a b, order a b = Key.order (key a) (key b) := by
    intro a b
    have h := hs a b [] []
    rw [List.append_nil,List.append_nil] at h
    rw [h]
    exact (andThen_eq _).symm
  constructor
  · intro a b
    rw [hkey a b,hkey b a]
    exact Key.order_swap _ _
  · exact heq
  · intro a b c
    rw [hkey a b,hkey b c,hkey a c]
    exact Key.chain _ _ _

/-! ## The laws for trees -/

theorem Lifetime.total :
    Total (fun a b : Lifetime => .ok (a.order b)) id (fun _ => true) :=
  Key.Sorts.total Lifetime.sorts fun a b => by simp [Lifetime.order_eq_iff]

theorem Lifetime.total_list :
    Total (fun as bs : List Lifetime => .ok (Lifetime.orderList as bs)) id (fun _ => true) :=
  Key.Sorts.total Lifetime.sorts_list fun as bs => by simp [Lifetime.orderList_eq_iff]

end Turbofish
