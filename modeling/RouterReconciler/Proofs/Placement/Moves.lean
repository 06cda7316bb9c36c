import RouterReconciler.Proofs.Placement.Carry
import RouterReconciler.Proofs.Placement.Runs

/-! The planned moves. They are the walk to the target that leaves the heaviest run in place; items
outside the block are never moved. Carried out on a list that has other items in between, they put
the named ones into the target's order. -/
namespace RouterReconciler.Placement
variable {α β : Type} [DecidableEq α] [DecidableEq β]

theorem lastIndexOf {l : List α} (nodup : l.Nodup) (x : α) : lastIndex x l = l.idxOf x := by
  by_cases mem : x ∈ l
  · obtain ⟨front,back,rfl⟩ := List.append_of_mem mem
    obtain ⟨-,tail,apart⟩ := List.nodup_append.mp nodup
    have outFront : x ∉ front := fun h => apart x h x List.mem_cons_self rfl
    have outBack : x ∉ back := (List.nodup_cons.mp tail).1
    have found : (front ++ x :: back).reverse.findIdx? (· == x) = some back.length := by
      rw [List.reverse_append,List.reverse_cons,List.append_assoc,List.findIdx?_append,
        List.findIdx?_eq_none_iff.mpr (by
          intro y hy
          have : y ≠ x := fun same => outBack (same ▸ List.mem_reverse.mp hy)
          simpa using this)]
      simp [List.findIdx?_cons]
    simp only [lastIndex,found]
    rw [List.idxOf_append_of_notMem outFront]
    simp
  · have none : l.reverse.findIdx? (· == x) = none := by
      rw [List.findIdx?_eq_none_iff]
      intro y hy
      have : y ≠ x := fun same => mem (same ▸ List.mem_reverse.mp hy)
      simpa using this
    simp [lastIndex,none,List.idxOf_eq_length mem]

def others (current block : List α) : List α := current.filter (fun x => !block.contains x)

theorem targetSplit (current block : List α) (offset : Nat) :
    ∃ front back, target current block offset = front ++ block ++ back ∧
      front ++ back = others current block ∧
      front.length = min offset (others current block).length :=
  ⟨_,_,rfl,List.take_append_drop _ _,List.length_take⟩

theorem targetPerm {current block : List α} (offset : Nat) (distinct : current.Nodup)
    (blockDistinct : block.Nodup) (inside : ∀ x ∈ block, x ∈ current) :
    (target current block offset).Perm current := by
  obtain ⟨front,back,goal,rest,-⟩ := targetSplit current block offset
  have own : (current.filter block.contains).Perm block := by
    refine (List.perm_ext_iff_of_nodup (distinct.filter _) blockDistinct).mpr fun x => ?_
    simp only [List.mem_filter,List.contains_iff_mem]
    exact ⟨fun h => h.2,fun h => ⟨inside x h,h⟩⟩
  have swap : (front ++ block ++ back).Perm (block ++ (front ++ back)) := by
    rw [← List.append_assoc]; exact List.perm_append_comm.append_right back
  rw [goal]
  exact (rest ▸ swap).trans ((own.symm.append_right _).trans
    (List.filter_append_perm block.contains current))

theorem blockLeavesNone (block : List α) : block.filter (fun x => !block.contains x) = [] := by
  rw [List.filter_eq_nil_iff]; intro x hx; simpa using hx

theorem targetOthers (current block : List α) (offset : Nat) :
    (target current block offset).filter (fun x => !block.contains x) = others current block := by
  obtain ⟨front,back,goal,rest,-⟩ := targetSplit current block offset
  have all : ∀ x ∈ front ++ back, (!block.contains x) = true := by
    intro x hx; rw [rest] at hx; exact (List.mem_filter.mp hx).2
  rw [goal,List.filter_append,List.filter_append,blockLeavesNone,List.append_nil,← List.filter_append,
    List.filter_eq_self.mpr all,rest]

omit [DecidableEq α] in
theorem withSuccessorsCons (x : α) (rest : List α) :
    withSuccessors (x :: rest) = (x,rest.head?) :: withSuccessors rest := by
  cases rest <;> rfl

theorem successorsWalk (stay : List Nat) (front : List α) {back : List α} (distinct : (front ++ back).Nodup) :
    ((((withSuccessors back).zipIdx front.length).filter
      (fun m => !stay.contains m.2)).map Prod.fst).reverse =
      walk (fun x => stay.contains ((front ++ back).idxOf x)) back := by
  induction back generalizing front with
  | nil => rfl
  | cons x rest ih =>
    have shift : front ++ x :: rest = (front ++ [x]) ++ rest := by simp
    have outside : x ∉ front := fun mem =>
      (List.nodup_append.mp distinct).2.2 x mem x List.mem_cons_self rfl
    have here : (front ++ x :: rest).idxOf x = front.length := by
      rw [List.idxOf_append_of_notMem outside]; simp
    have later := ih (front ++ [x]) (shift ▸ distinct)
    rw [List.length_append,List.length_singleton,← shift] at later
    rw [withSuccessorsCons,List.zipIdx_cons,List.filter_cons]
    simp only [walk,here,← later]
    cases stay.contains front.length <;> simp

def scored (current block goal : List α) : List (Nat × Nat) :=
  goal.map fun x => (lastIndex x current,if block.contains x then 1 else block.length + 1)

theorem scoredAt {current goal : List α} (block : List α) (distinct : current.Nodup) {i : Nat}
    (inside : i < goal.length) :
    placeOf (scored current block goal) i = current.idxOf goal[i] ∧
    weightOf (scored current block goal) i =
      if block.contains goal[i] then 1 else block.length + 1 := by
  have item : (scored current block goal).getD i (0,0) =
      (lastIndex goal[i] current,if block.contains goal[i] then 1 else block.length + 1) := by
    simp [scored,List.getD_eq_getElem?_getD,inside]
  rw [lastIndexOf distinct] at item
  exact ⟨by rw [placeOf,item],by rw [weightOf,item]⟩

theorem pairwiseIdxOf {l : List α} (nodup : l.Nodup) :
    l.Pairwise (fun x y => l.idxOf x < l.idxOf y) := by
  rw [List.pairwise_iff_getElem]
  intro i j hi hj lower
  rwa [nodup.idxOf_getElem i hi,nodup.idxOf_getElem j hj]

def indicesWhere (goal : List α) (p : α → Bool) : List Nat :=
  ((List.range goal.length).filter (fun i => (goal[i]?).any p)).reverse

omit [DecidableEq α] in
theorem itemsWhere (goal : List α) (p : α → Bool) :
    (indicesWhere goal p).map (fun i => goal[i]?) = ((goal.filter p).map some).reverse := by
  have whole : (List.range goal.length).map (fun i => goal[i]?) = goal.map some := by
    refine List.ext_getElem (by simp) fun i hi _ => ?_
    simp at hi ⊢
  rw [indicesWhere,List.map_reverse]
  congr 1
  calc ((List.range goal.length).filter (fun i => (goal[i]?).any p)).map (fun i => goal[i]?)
    _ = ((List.range goal.length).map (fun i => goal[i]?)).filter (·.any p) := by
      rw [List.filter_map]; rfl
    _ = (goal.map some).filter (·.any p) := by rw [whole]
    _ = (goal.filter p).map some := by rw [List.filter_map]; rfl

theorem indicesRise {current goal : List α} (block : List α) {p : α → Bool} (distinct : current.Nodup)
    (order : goal.filter p = current.filter p) :
    Rising (scored current block goal) (indicesWhere goal p) := by
  have size : (scored current block goal).length = goal.length := List.length_map ..
  have sorted : (goal.filter p).Pairwise (fun x y => current.idxOf x < current.idxOf y) := by
    rw [order]; exact (pairwiseIdxOf distinct).sublist List.filter_sublist
  rw [List.pairwise_filter,List.pairwise_iff_getElem] at sorted
  refine ⟨fun i hi => by simp [indicesWhere] at hi; rw [size]; exact hi.1,?_⟩
  rw [indicesWhere,List.pairwise_reverse,List.pairwise_filter]
  refine (List.pairwise_lt_range (n := goal.length)).imp_of_mem ?_
  intro i j hi hj lower passI passJ
  rw [List.mem_range] at hi hj
  rw [(scoredAt block distinct hi).1,(scoredAt block distinct hj).1]
  refine ⟨lower,sorted i j hi hj lower ?_ ?_⟩
  · simpa [List.getElem?_eq_getElem hi] using passI
  · simpa [List.getElem?_eq_getElem hj] using passJ

theorem blockFew {block goal : List α} (distinct : goal.Nodup) :
    (indicesWhere goal block.contains).length ≤ block.length := by
  have size := congrArg List.length (itemsWhere goal block.contains)
  rw [List.length_map,List.length_reverse,List.length_map] at size
  rw [size]
  refine (List.subperm_of_subset (distinct.filter _) fun x hx => ?_).length_le
  simpa using (List.mem_filter.mp hx).2

def stays (current block goal : List α) (x : α) : Bool :=
  (kept current block goal).contains (goal.idxOf x)

theorem staysAt {current block goal : List α} (distinct : goal.Nodup) {i : Nat}
    (inside : i < goal.length) :
    stays current block goal goal[i] = true ↔ i ∈ heaviestMembers (scored current block goal) := by
  rw [stays,distinct.idxOf_getElem i inside,List.contains_iff_mem]
  rfl

theorem movesWalk {current block : List α} (offset : Nat)
    (distinct : (target current block offset).Nodup) :
    moves current block offset =
      walk (stays current block (target current block offset)) (target current block offset) :=
  successorsWalk (kept current block (target current block offset)) [] distinct

theorem staysOutside {current block goal : List α} (distinct : current.Nodup) (perm : goal.Perm current)
    (order : goal.filter (fun x => !block.contains x) = others current block) {x : α}
    (mem : x ∈ goal) (out : x ∉ block) : stays current block goal x = true := by
  have goalDistinct : goal.Nodup := perm.nodup_iff.mpr distinct
  have size : (scored current block goal).length = goal.length := List.length_map ..
  have heavy : ∀ i < (scored current block goal).length,
      (goal[i]?).any (fun x => !block.contains x) = true →
        i ∈ heaviestMembers (scored current block goal) := by
    refine heavyMembers (block.length + 1) ?_ ?_ (size ▸ indicesRise block distinct order)
    · intro i hi
      rw [size] at hi
      rw [(scoredAt block distinct hi).2,List.getElem?_eq_getElem hi,Option.any_some]
      cases block.contains goal[i] <;> rfl
    · have few : (indicesWhere goal block.contains).length ≤ block.length := blockFew goalDistinct
      rw [indicesWhere,List.length_reverse] at few
      rw [size]
      refine Nat.lt_succ_of_le (Nat.le_trans (Nat.le_of_eq (congrArg List.length ?_)) few)
      refine List.filter_congr fun i hi => ?_
      rw [List.getElem?_eq_getElem (List.mem_range.mp hi)]
      simp
  have idx := List.idxOf_lt_length_iff.mpr mem
  rw [← List.getElem_idxOf idx,staysAt goalDistinct idx]
  exact heavy _ (by rw [size]; exact idx) (by simp [List.getElem?_eq_getElem idx,out])

theorem staysInside {current block goal : List α} {x : α} (h : stays current block goal x = true) :
    x ∈ goal := by
  have mem : goal.idxOf x ∈ heaviestMembers (scored current block goal) :=
    List.contains_iff_mem.mp h
  have lower := (heaviestRises (scored current block goal)).1.1 _ mem
  rw [scored,List.length_map] at lower
  exact List.idxOf_lt_length_iff.mp lower

theorem staysInOrder {current block goal : List α} (distinct : current.Nodup)
    (perm : goal.Perm current) :
    current.filter (stays current block goal) = goal.filter (stays current block goal) := by
  have goalDistinct : goal.Nodup := perm.nodup_iff.mpr distinct
  have sorted : (current.filter (stays current block goal)).Pairwise
      (fun x y => current.idxOf x < current.idxOf y) :=
    (pairwiseIdxOf distinct).sublist List.filter_sublist
  refine List.Perm.eq_of_pairwise (fun x y _ _ hxy hyx => absurd hxy (by omega)) sorted ?_
    (perm.symm.filter _)
  rw [List.pairwise_filter,List.pairwise_iff_getElem]
  intro i j hi hj lower stayI stayJ
  rw [staysAt goalDistinct] at stayI stayJ
  rw [← (scoredAt block distinct hi).1,← (scoredAt block distinct hj).1]
  exact risingPlaces (heaviestRises (scored current block goal)).1 stayI stayJ lower

-- The moves are the walk to the target in which a set of items stays that keeps its order and includes
-- everything outside the block.
theorem movesSource {current block : List α} (offset : Nat) (distinct : current.Nodup)
    (blockDistinct : block.Nodup) (inside : ∀ x ∈ block, x ∈ current) :
    ∃ stay : α → Bool, moves current block offset = walk stay (target current block offset) ∧
      (∀ x, stay x = true → x ∈ target current block offset) ∧
      current.filter stay = (target current block offset).filter stay ∧
      ∀ x ∈ target current block offset, x ∉ block → stay x = true := by
  have perm := targetPerm offset distinct blockDistinct inside
  exact ⟨_,movesWalk offset (perm.nodup_iff.mpr distinct),fun _ => staysInside,staysInOrder distinct perm,
    fun _ => staysOutside distinct perm (targetOthers current block offset)⟩

theorem movesArrive {f : α → β} {l : List β} {current block : List α} (offset : Nat)
    (nodup : l.Nodup) (distinct : (current.map f).Nodup) (blockDistinct : block.Nodup)
    (inside : ∀ x ∈ block, x ∈ current)
    (seen : l.filter (current.map f).contains = current.map f) :
    ∃ l', carryAll l ((moves current block offset).map (Prod.map f (Option.map f))) = some l' ∧
      l'.filter (current.map f).contains = (target current block offset).map f ∧
      ∀ p : β → Bool, (∀ x ∈ block, p (f x) = false) → l'.filter p = l.filter p := by
  have plain : current.Nodup := List.Nodup.of_map f distinct
  obtain ⟨stay,walked,staying,kept,still⟩ := movesSource offset plain blockDistinct inside
  have perm := targetPerm offset plain blockDistinct inside
  generalize target current block offset = goal at walked staying kept still perm ⊢
  have goalDistinct : (goal.map f).Nodup := (perm.map f).nodup_iff.mpr distinct
  have same : (current.map f).contains = (goal.map f).contains := by
    funext y
    rw [Bool.eq_iff_iff,List.contains_iff_mem,List.contains_iff_mem]
    exact (perm.map f).mem_iff.symm
  let moved : β → Bool := ((goal.filter stay).map f).contains
  have agree : ∀ x ∈ goal, moved (f x) = stay x := by
    intro x mem
    rw [Bool.eq_iff_iff,List.contains_iff_mem,List.mem_map]
    constructor
    · rintro ⟨y,hy,eq⟩
      have hy := List.mem_filter.mp hy
      rw [← List.inj_on_of_nodup_map goalDistinct hy.1 mem eq]
      exact hy.2
    · intro hs
      exact ⟨x,List.mem_filter.mpr ⟨mem,hs⟩,rfl⟩
  have renamed : ∀ part : List α, (∀ x ∈ part, x ∈ goal) →
      (part.map f).filter moved = (part.filter stay).map f := by
    intro part sub
    rw [List.filter_map]
    exact congrArg (List.map f) (List.filter_congr fun x mem => agree x (sub x mem))
  have memGoal : ∀ y, moved y = true → y ∈ goal.map f := by
    intro y hy
    obtain ⟨x,hx,rfl⟩ := List.mem_map.mp (List.contains_iff_mem.mp hy)
    exact List.mem_map_of_mem (List.mem_filter.mp hx).1
  have keptThere : l.filter moved = (goal.map f).filter moved := by
    calc l.filter moved
      _ = (l.filter (current.map f).contains).filter moved := by
        rw [List.filter_filter]
        refine List.filter_congr fun y _ => ?_
        cases hy : moved y with
        | false => simp
        | true => simpa using (perm.map f).mem_iff.mp (memGoal y hy)
      _ = (current.filter stay).map f := by
        rw [seen]; exact renamed current fun x mem => perm.mem_iff.mpr mem
      _ = (goal.map f).filter moved := by rw [kept]; exact (renamed goal fun _ mem => mem).symm
  have there : ∀ y ∈ goal.map f, y ∈ l := by
    intro y hy
    have : y ∈ l.filter (current.map f).contains := by
      rw [seen]; exact (perm.map f).mem_iff.mp hy
    exact (List.mem_filter.mp this).1
  obtain ⟨l',carried,arrived⟩ := walkReaches nodup goalDistinct there memGoal keptThere
  rw [← walkMap f agree,← walked] at carried
  refine ⟨l',carried,by rw [same]; exact arrived,fun p away => ?_⟩
  refine carryAllOthers nodup carried fun m hm => ?_
  obtain ⟨n,hn,rfl⟩ := List.mem_map.mp hm
  rw [walked] at hn
  have moves := walkMoved hn
  refine away n.1 (by_contra fun out => ?_)
  rw [still n.1 moves.1 out] at moves
  exact absurd moves.2 (by simp)

theorem movesNone {current block : List α} (offset : Nat) (distinct : current.Nodup)
    (blockDistinct : block.Nodup) (inside : ∀ x ∈ block, x ∈ current) :
    moves current block offset = [] ↔ target current block offset = current := by
  constructor
  · intro none
    obtain ⟨l,carried,order,-⟩ := movesArrive (f := id) (l := current) offset distinct
      (by rwa [List.map_id]) blockDistinct inside (by simp)
    rw [none] at carried
    cases carried
    have whole : current.filter current.contains = current := List.filter_eq_self.mpr (by simp)
    rw [List.map_id,List.map_id,whole] at order
    exact order.symm
  · intro same
    have size : (scored current block current).length = current.length := List.length_map ..
    have weight : ∀ i < (scored current block current).length,
        0 < weightOf (scored current block current) i := by
      intro i hi
      rw [(scoredAt block distinct (by omega)).2]
      split <;> omega
    have rising : Rising (scored current block current)
        (List.range (scored current block current).length).reverse := by
      refine ⟨fun i hi => by simpa using hi,?_⟩
      rw [List.pairwise_reverse]
      refine (List.pairwise_lt_range (n := (scored current block current).length)).imp_of_mem ?_
      intro i j hi hj lower
      rw [List.mem_range,size] at hi hj
      rw [(scoredAt block distinct hi).1,(scoredAt block distinct hj).1,distinct.idxOf_getElem i hi,
        distinct.idxOf_getElem j hj]
      exact ⟨lower,lower⟩
    have all := allMembers weight rising
    rw [movesWalk offset (by rwa [same]),same]
    refine List.eq_nil_iff_forall_not_mem.mpr fun m mem => ?_
    obtain ⟨mem,moved⟩ := walkMoved mem
    have idx := List.idxOf_lt_length_iff.mpr mem
    have stay : stays current block current m.1 = true := by
      rw [← List.getElem_idxOf idx,staysAt distinct idx]
      exact all _ (by rw [size]; exact idx)
    rw [stay] at moved
    cases moved

theorem movesSettled {front part back block : List α} {offset : Nat}
    (distinct : (front ++ part ++ back).Nodup) (blockDistinct : block.Nodup)
    (inside : ∀ x ∈ block, x ∈ front ++ part ++ back) (few : block.length = part.length)
    (size : front.length = min offset (front ++ back).length) :
    moves (front ++ part ++ back) block offset = [] ↔ block = part := by
  rw [movesNone offset distinct blockDistinct inside]
  obtain ⟨first,last,goal,rest,place⟩ := targetSplit (front ++ part ++ back) block offset
  constructor
  · intro same
    rw [goal] at same
    have sizes := congrArg List.length same
    rw [← rest] at place
    simp only [List.length_append] at sizes place size
    obtain ⟨outer,-⟩ := List.append_inj same (by simp only [List.length_append]; omega)
    exact (List.append_inj outer (by omega)).2
  · rintro rfl
    obtain ⟨early,-,apart⟩ := List.nodup_append.mp distinct
    obtain ⟨-,-,before⟩ := List.nodup_append.mp early
    have outside : others (front ++ block ++ back) block = front ++ back := by
      have frontStays : front.filter (fun x => !block.contains x) = front :=
        List.filter_eq_self.mpr fun x hx => by
          simpa using fun mem => before x hx x mem rfl
      have backStays : back.filter (fun x => !block.contains x) = back :=
        List.filter_eq_self.mpr fun x hx => by
          simpa using fun mem => apart x (List.mem_append_right _ mem) x hx rfl
      rw [others,List.filter_append,List.filter_append,blockLeavesNone,frontStays,backStays,
        List.append_nil]
    rw [outside] at rest place
    obtain ⟨rfl,rfl⟩ := List.append_inj rest (place.trans size.symm)
    exact goal

def Precedes (l : List α) (x : α) (next : Option α) : Prop :=
  ∃ front back, l = front ++ x :: back ∧ back.head? = next

omit [DecidableEq α] in
theorem walkNext {stay : α → Bool} {goal : List α} {m : α × Option α} (h : m ∈ walk stay goal) :
    Precedes goal m.1 m.2 := by
  induction goal with
  | nil => cases h
  | cons x rest ih =>
    rcases List.mem_append.mp h with later | here
    · obtain ⟨front,back,rfl,next⟩ := ih later
      exact ⟨x :: front,back,rfl,next⟩
    · cases hs : stay x <;> simp [hs] at here
      subst m
      exact ⟨[],rest,rfl,rfl⟩

theorem carryPrecedes {l l' : List α} {m : α × Option α} (nodup : l.Nodup) (h : carry l m = some l') :
    Precedes l' m.1 m.2 := by
  obtain ⟨x,b⟩ := m
  cases b with
  | none =>
    simp only [carry] at h
    split at h <;> try contradiction
    cases Option.some.inj h
    exact ⟨l.erase x,[],rfl,rfl⟩
  | some b =>
    simp only [carry] at h
    split at h <;> try contradiction
    rename_i mem
    cases Option.some.inj h
    have distinct := nodup.erase x
    obtain ⟨front,back,split⟩ := List.append_of_mem mem.2
    rw [split] at distinct ⊢
    have out : b ∉ front := fun hb =>
      (List.nodup_append.mp distinct).2.2 b hb b List.mem_cons_self rfl
    exact ⟨front,b :: back,insertBeforeAt x b back out,rfl⟩

theorem othersSingle {front back : List α} {x : α} (distinct : (front ++ x :: back).Nodup) :
    others (front ++ x :: back) [x] = front ++ back := by
  have moved := List.perm_middle.nodup_iff.mp distinct
  have out := (List.nodup_cons.mp moved).1
  have rest : (front ++ back).filter (fun y => !List.contains [x] y) = front ++ back := by
    refine List.filter_eq_self.mpr fun y hy => ?_
    have differ : y ≠ x := fun same => out (same ▸ hy)
    simp [differ]
  rw [others,List.filter_append,List.filter_cons_of_neg (by simp),← List.filter_append,rest]

theorem samePlaced {l l' : List α} {x : α} {next : Option α} (distinct : l.Nodup) (distinct' : l'.Nodup)
    (here : Precedes l x next) (there : Precedes l' x next) (same : others l [x] = others l' [x]) :
    l = l' := by
  obtain ⟨front,back,rfl,first⟩ := here
  obtain ⟨front',back',rfl,second⟩ := there
  rw [othersSingle distinct,othersSingle distinct'] at same
  cases next with
  | none =>
    rw [List.head?_eq_none_iff] at first second
    subst first second
    rw [List.append_nil,List.append_nil] at same
    rw [same]
  | some b =>
    obtain ⟨rest,rfl⟩ := List.head?_eq_some_iff.mp first
    obtain ⟨rest',rfl⟩ := List.head?_eq_some_iff.mp second
    have once : (front ++ b :: rest).Nodup :=
      (List.nodup_cons.mp (List.perm_middle.nodup_iff.mp distinct)).2
    have alone := (List.nodup_cons.mp (List.perm_middle.nodup_iff.mp once)).1
    rw [List.mem_append,not_or] at alone
    obtain ⟨rfl,-,rfl⟩ := (List.append_cons_inj_of_notMem alone.1 alone.2).mp same
    rfl

theorem singleMoved {current : List α} {x : α} {offset : Nat} (distinct : current.Nodup)
    (inside : x ∈ current) {m : α × Option α} (h : m ∈ moves current [x] offset) :
    m.1 = x ∧ ¬ Precedes current m.1 m.2 := by
  have insideAll : ∀ y ∈ [x], y ∈ current := by simpa using inside
  obtain ⟨stay,walked,-,-,still⟩ := movesSource offset distinct (List.nodup_singleton x) insideAll
  have step := h
  rw [walked] at step
  obtain ⟨mem,moved⟩ := walkMoved step
  have own : m.1 = x := by
    by_contra other
    rw [still m.1 mem (by simpa using other)] at moved
    cases moved
  refine ⟨own,fun placed => ?_⟩
  have goalDistinct := (targetPerm offset distinct (List.nodup_singleton x) insideAll).nodup_iff.mpr distinct
  have next := walkNext step
  rw [own] at placed next
  have same := samePlaced goalDistinct distinct next placed (targetOthers current [x] offset)
  rw [(movesNone offset distinct (List.nodup_singleton x) insideAll).mpr same] at h
  cases h

end RouterReconciler.Placement
