import Mathlib.Algebra.BigOperators.Group.Finset.Basic
import Mathlib.Algebra.BigOperators.Group.Finset.Piecewise
import Mathlib.Algebra.Order.BigOperators.Group.Finset
import Mathlib.Algebra.Ring.Nat
import Mathlib.Data.List.Basic
import RouterReconciler.Placement

/-! The heaviest rising run. The runs that are collected are rising and weigh what their members
weigh, and none that ends with the same item is heavier. Where one item outweighs all the light
ones, the heaviest run therefore has every heavy item, if these rise among themselves. -/
namespace RouterReconciler.Placement

def placeOf (items : List (Nat × Nat)) (i : Nat) : Nat := (items.getD i (0,0)).1
def weightOf (items : List (Nat × Nat)) (i : Nat) : Nat := (items.getD i (0,0)).2
def total (items : List (Nat × Nat)) (members : List Nat) : Nat := (members.map (weightOf items)).sum

def Rising (items : List (Nat × Nat)) (members : List Nat) : Prop :=
  (∀ i ∈ members, i < items.length) ∧
  members.Pairwise (fun j i => i < j ∧ placeOf items i < placeOf items j)

structure Run.Source (items : List (Nat × Nat)) (i : Nat) (run : Run) : Prop where
  last : run.members.head? = some i
  rising : Rising items run.members
  position : run.position = placeOf items i
  weight : run.weight = total items run.members

theorem extendSnoc (runs : List Run) (run : Run) (i p w : Nat) :
    Run.extend (runs ++ [run]) i p w =
      if run.position < p ∧ (Run.extend runs i p w).weight < run.weight + w then
        ⟨i :: run.members,p,run.weight + w⟩
      else Run.extend runs i p w := by
  simp [Run.extend,List.foldl_append]

theorem extendSource (runs : List Run) (i p w : Nat) :
    (Run.extend runs i p w).position = p ∧
    ((Run.extend runs i p w).members = [i] ∧ (Run.extend runs i p w).weight = w ∨
      ∃ run ∈ runs, run.position < p ∧ (Run.extend runs i p w).members = i :: run.members ∧
        (Run.extend runs i p w).weight = run.weight + w) := by
  induction runs using List.reverseRecOn with
  | nil => simp [Run.extend]
  | append_singleton runs run ih =>
    rw [extendSnoc]
    split
    · rename_i better
      exact ⟨rfl,Or.inr ⟨run,by simp,better.1,rfl,rfl⟩⟩
    · obtain ⟨position,single | ⟨earlier,mem,rest⟩⟩ := ih
      · exact ⟨position,Or.inl single⟩
      · exact ⟨position,Or.inr ⟨earlier,by simp [mem],rest⟩⟩

theorem extendHeaviest (runs : List Run) (i p w : Nat) :
    w ≤ (Run.extend runs i p w).weight ∧
    ∀ run ∈ runs, run.position < p → run.weight + w ≤ (Run.extend runs i p w).weight := by
  induction runs using List.reverseRecOn with
  | nil => simp [Run.extend]
  | append_singleton runs run ih =>
    rw [extendSnoc]
    split
    · rename_i better
      refine ⟨by simp,fun earlier mem lower => ?_⟩
      rcases List.mem_append.mp mem with old | new
      · have := ih.2 earlier old lower
        exact Nat.le_of_lt (Nat.lt_of_le_of_lt this better.2)
      · cases List.mem_singleton.mp new; exact Nat.le_refl _
    · rename_i worse
      refine ⟨ih.1,fun earlier mem lower => ?_⟩
      rcases List.mem_append.mp mem with old | new
      · exact ih.2 earlier old lower
      · cases List.mem_singleton.mp new
        exact Nat.le_of_not_lt fun heavier => worse ⟨lower,heavier⟩

theorem collectPrefix (runs : List Run) (i : Nat) (items : List (Nat × Nat)) :
    runs <+: Run.collect runs i items ∧
    (Run.collect runs i items).length = runs.length + items.length := by
  induction items generalizing runs i with
  | nil => simp [Run.collect]
  | cons item rest ih =>
    obtain ⟨p,w⟩ := item
    have later := ih (runs ++ [Run.extend runs i p w]) (i+1)
    refine ⟨(List.prefix_append _ _).trans later.1,?_⟩
    simp only [Run.collect,later.2,List.length_append,List.length_cons,List.length_nil]
    omega

theorem collectAt (runs : List Run) {items : List (Nat × Nat)} {i : Nat} (inside : i < items.length) :
    (Run.collect runs runs.length items)[runs.length + i]? =
      some (Run.extend ((Run.collect runs runs.length items).take (runs.length + i))
        (runs.length + i) (placeOf items i) (weightOf items i)) := by
  induction items generalizing runs i with
  | nil => simp at inside
  | cons item rest ih =>
    obtain ⟨p,w⟩ := item
    have longer : (runs ++ [Run.extend runs runs.length p w]).length = runs.length + 1 := by simp
    cases i with
    | zero =>
      obtain ⟨tail,ht⟩ := (collectPrefix (runs ++ [Run.extend runs runs.length p w])
        (runs.length + 1) rest).1
      simp [Run.collect,← ht,placeOf,weightOf]
    | succ i =>
      have later := ih (runs ++ [Run.extend runs runs.length p w])
        (show i < rest.length by simpa using inside)
      rw [longer] at later
      have index : runs.length + (i+1) = runs.length + 1 + i := by omega
      simp only [Run.collect,index,later]
      simp [placeOf,weightOf]

theorem runAt {items : List (Nat × Nat)} {i : Nat} (inside : i < items.length) :
    ∃ run, (Run.collect [] 0 items)[i]? = some run ∧
      run = Run.extend ((Run.collect [] 0 items).take i) i (placeOf items i) (weightOf items i) := by
  have at_ := collectAt [] inside
  simp only [List.length_nil,Nat.zero_add] at at_
  exact ⟨_,at_,rfl⟩

theorem runSource {items : List (Nat × Nat)} {i : Nat} {run : Run}
    (found : (Run.collect [] 0 items)[i]? = some run) : Run.Source items i run := by
  induction i using Nat.strongRecOn generalizing run with
  | ind i ih =>
    have inside : i < items.length := by
      have := (List.getElem?_eq_some_iff.mp found).1
      simpa [(collectPrefix [] 0 items).2] using this
    obtain ⟨same,hs,eq⟩ := runAt inside
    cases Option.some.inj (hs.symm.trans found)
    obtain ⟨position,alone | ⟨earlier,mem,lower,members,weight⟩⟩ :=
      extendSource ((Run.collect [] 0 items).take i) i (placeOf items i) (weightOf items i)
    · rw [← eq] at position alone
      refine ⟨by simp [alone.1],⟨by simpa [alone.1] using inside,by simp [alone.1]⟩,position,?_⟩
      simp [alone.1,alone.2,total]
    · rw [← eq] at position members weight
      obtain ⟨k,hk⟩ := List.mem_iff_getElem?.mp mem
      have below : k < i := by
        have := (List.getElem?_eq_some_iff.mp hk).1
        rw [List.length_take] at this
        omega
      rw [List.getElem?_take_of_lt below] at hk
      have source := ih k below hk
      obtain ⟨tail,ht⟩ : ∃ tail, earlier.members = k :: tail := by
        cases he : earlier.members with
        | nil => have last := source.last; simp [he] at last
        | cons head tail => exact ⟨tail,by simpa [he] using source.last⟩
      have order := List.pairwise_cons.mp (ht ▸ source.rising.2)
      have close : placeOf items k < placeOf items i := source.position ▸ lower
      refine ⟨by simp [members],⟨?_,?_⟩,position,?_⟩
      · intro j hj
        rcases List.mem_cons.mp (members ▸ hj) with rfl | old
        · exact inside
        · exact source.rising.1 j old
      · rw [members,ht]
        refine List.pairwise_cons.mpr ⟨fun j hj => ?_,ht ▸ source.rising.2⟩
        rcases List.mem_cons.mp hj with rfl | later
        · exact ⟨below,close⟩
        · have := order.1 j later
          exact ⟨Nat.lt_trans this.1 below,Nat.lt_trans this.2 close⟩
      · rw [weight,members,source.weight]
        simp [total,Nat.add_comm]

theorem runHeaviest {items : List (Nat × Nat)} {i : Nat} {members : List Nat} {run : Run}
    (rising : Rising items (i :: members)) (found : (Run.collect [] 0 items)[i]? = some run) :
    total items (i :: members) ≤ run.weight := by
  induction members generalizing i run with
  | nil =>
    obtain ⟨same,hs,eq⟩ := runAt (rising.1 i List.mem_cons_self)
    cases Option.some.inj (hs.symm.trans found)
    rw [eq]
    simpa [total] using (extendHeaviest _ i (placeOf items i) (weightOf items i)).1
  | cons k rest ih =>
    obtain ⟨same,hs,eq⟩ := runAt (rising.1 i List.mem_cons_self)
    cases Option.some.inj (hs.symm.trans found)
    have order := List.pairwise_cons.mp rising.2
    have below := order.1 k List.mem_cons_self
    have tail : Rising items (k :: rest) :=
      ⟨fun j hj => rising.1 j (List.mem_cons_of_mem _ hj),order.2⟩
    obtain ⟨earlier,he,_⟩ := runAt (tail.1 k List.mem_cons_self)
    have mem : earlier ∈ (Run.collect [] 0 items).take i :=
      List.mem_of_getElem? (by rw [List.getElem?_take_of_lt below.1]; exact he)
    have lower : earlier.position < placeOf items i := (runSource he).position ▸ below.2
    have more := (extendHeaviest _ i (placeOf items i) (weightOf items i)).2 earlier mem lower
    rw [← eq] at more
    have before := ih tail he
    simp only [total,List.map_cons,List.sum_cons] at before ⊢
    omega

theorem heaviestMem {runs : List Run} {run : Run} (h : Run.heaviest runs = some run) : run ∈ runs := by
  induction runs generalizing run with
  | nil => simp [Run.heaviest] at h
  | cons head rest ih =>
    simp only [Run.heaviest] at h
    split at h
    · rename_i other ho
      split at h <;> cases Option.some.inj h
      · exact List.mem_cons_of_mem _ (ih ho)
      · exact List.mem_cons_self
    · cases Option.some.inj h; exact List.mem_cons_self

theorem heaviestMost {runs : List Run} {run : Run} (h : Run.heaviest runs = some run) :
    ∀ other ∈ runs, other.weight ≤ run.weight := by
  induction runs generalizing run with
  | nil => simp [Run.heaviest] at h
  | cons head rest ih =>
    intro other mem
    simp only [Run.heaviest] at h
    split at h
    · rename_i best hb
      have most := ih hb
      split at h <;> cases Option.some.inj h <;> rcases List.mem_cons.mp mem with rfl | later
      · omega
      · exact most other later
      · exact Nat.le_refl _
      · have := most other later; omega
    · rename_i none
      cases Option.some.inj h
      cases rest with
      | nil => cases List.mem_singleton.mp mem; exact Nat.le_refl _
      | cons next tail =>
        simp only [Run.heaviest] at none
        split at none <;> try split at none
        all_goals contradiction

def heaviestMembers (items : List (Nat × Nat)) : List Nat :=
  match Run.heaviest (Run.collect [] 0 items) with
  | some run => run.members
  | none => []

theorem heaviestRises (items : List (Nat × Nat)) :
    Rising items (heaviestMembers items) ∧
    ∀ members, Rising items members → total items members ≤ total items (heaviestMembers items) := by
  cases h : Run.heaviest (Run.collect [] 0 items) with
  | none =>
    have empty : items = [] := by
      cases items with
      | nil => rfl
      | cons item rest =>
        obtain ⟨run,hr,_⟩ := runAt (show 0 < (item :: rest).length by simp)
        cases hc : Run.collect [] 0 (item :: rest) with
        | nil => simp [hc] at hr
        | cons head tail =>
          rw [hc] at h
          simp only [Run.heaviest] at h
          split at h <;> try split at h
          all_goals contradiction
    subst items
    refine ⟨by simp [heaviestMembers,h,Rising],fun members rising => ?_⟩
    cases members with
    | nil => simp [total]
    | cons i rest => exact absurd (rising.1 i List.mem_cons_self) (by simp)
  | some run =>
    obtain ⟨i,hi⟩ := List.mem_iff_getElem?.mp (heaviestMem h)
    have source := runSource hi
    simp only [heaviestMembers,h]
    refine ⟨source.rising,fun members rising => ?_⟩
    rw [← source.weight]
    cases members with
    | nil => simp [total]
    | cons j rest =>
      obtain ⟨other,ho,_⟩ := runAt (rising.1 j List.mem_cons_self)
      exact Nat.le_trans (runHeaviest rising ho) (heaviestMost h other (List.mem_of_getElem? ho))

theorem risingNodup {items : List (Nat × Nat)} {members : List Nat} (h : Rising items members) :
    members.Nodup := h.2.imp fun lower => by omega

theorem risingPlaces {items : List (Nat × Nat)} {members : List Nat} (h : Rising items members)
    {i j : Nat} (hi : i ∈ members) (hj : j ∈ members) (lower : i < j) :
    placeOf items i < placeOf items j := by
  obtain ⟨-,order⟩ := h
  induction members with
  | nil => simp at hi
  | cons k rest ih =>
    obtain ⟨first,later⟩ := List.pairwise_cons.mp order
    rcases List.mem_cons.mp hj with rfl | tailJ
    · rcases List.mem_cons.mp hi with rfl | tailI
      · omega
      · exact (first i tailI).2
    · rcases List.mem_cons.mp hi with rfl | tailI
      · have := (first j tailJ).1; omega
      · exact ih tailI tailJ later

theorem totalFinset {items : List (Nat × Nat)} {members : List Nat} (nodup : members.Nodup) :
    total items members = ∑ i ∈ members.toFinset, weightOf items i :=
  (List.sum_toFinset (weightOf items) nodup).symm

theorem leftOut {items : List (Nat × Nat)} {i : Nat} {members : List Nat} (inside : i < items.length)
    (left : i ∉ heaviestMembers items) (rising : Rising items members) :
    total items members + weightOf items i ≤ ∑ j ∈ Finset.range items.length, weightOf items j := by
  obtain ⟨keptRises,most⟩ := heaviestRises items
  have bound := most members rising
  rw [totalFinset (risingNodup keptRises)] at bound
  have subset : (heaviestMembers items).toFinset ⊆ (Finset.range items.length).erase i := by
    intro j hj
    rw [List.mem_toFinset] at hj
    exact Finset.mem_erase.mpr ⟨fun same => left (same ▸ hj),Finset.mem_range.mpr (keptRises.1 j hj)⟩
  have below := Finset.sum_le_sum_of_subset (f := weightOf items) subset
  have whole := Finset.add_sum_erase (Finset.range items.length) (weightOf items)
    (Finset.mem_range.mpr inside)
  omega

theorem allMembers {items : List (Nat × Nat)} (positive : ∀ i < items.length, 0 < weightOf items i)
    (rising : Rising items (List.range items.length).reverse) :
    ∀ i < items.length, i ∈ heaviestMembers items := by
  intro i inside
  by_contra left
  have bound := leftOut inside left rising
  have all : (List.range items.length).reverse.toFinset = Finset.range items.length := by ext j; simp
  rw [totalFinset (risingNodup rising),all] at bound
  have := positive i inside
  omega

-- If every heavy item weighs more than all the light ones together, and the heavy ones rise, none of
-- them is left out of the heaviest run.
theorem heavyMembers {items : List (Nat × Nat)} {heavy : Nat → Bool} (load : Nat)
    (loaded : ∀ i < items.length, weightOf items i = if heavy i then load else 1)
    (few : ((List.range items.length).filter (fun i => !heavy i)).length < load)
    (rising : Rising items ((List.range items.length).filter heavy).reverse) :
    ∀ i < items.length, heavy i = true → i ∈ heaviestMembers items := by
  intro i inside isHeavy
  by_contra left
  have bound := leftOut inside left rising
  rw [totalFinset (risingNodup rising)] at bound
  have parts := Finset.sum_filter_add_sum_filter_not (Finset.range items.length)
    (fun j => heavy j = true) (weightOf items)
  have heavies : ((List.range items.length).filter heavy).reverse.toFinset =
      (Finset.range items.length).filter (fun j => heavy j = true) := by ext j; simp
  have lights : (Finset.range items.length).filter (fun j => ¬ heavy j = true) =
      ((List.range items.length).filter (fun j => !heavy j)).toFinset := by ext j; simp
  have light : ∑ j ∈ (Finset.range items.length).filter (fun j => ¬ heavy j = true),
      weightOf items j = ((List.range items.length).filter (fun j => !heavy j)).length := by
    rw [lights,← List.toFinset_card_of_nodup (List.nodup_range.filter _),Finset.card_eq_sum_ones]
    refine Finset.sum_congr rfl fun j hj => ?_
    simp only [List.mem_toFinset,List.mem_filter,List.mem_range,Bool.not_eq_true'] at hj
    simp [loaded j hj.1,hj.2]
  have own : weightOf items i = load := by simp [loaded i inside,isHeavy]
  rw [heavies] at bound
  omega

end RouterReconciler.Placement
