import RouterReconciler.Proofs.Placement.Moves

/-! The planned moves among all those that could be carried out. They arrive at the target, and no
moves of items of the block arrive there in fewer steps: what moves do not name stands in the same order
before and after them, so it rises in the scores of the target, and the run that stays is the heaviest
to do so. -/
namespace RouterReconciler.Placement
variable {α : Type} [DecidableEq α]

omit [DecidableEq α] in
theorem walkItems (stay : α → Bool) (goal : List α) :
    (walk stay goal).map Prod.fst = (goal.filter (fun x => !stay x)).reverse := by
  induction goal with
  | nil => rfl
  | cons x rest ih =>
    rw [walk,List.map_append,ih]
    cases hs : stay x <;> simp [hs]

theorem carryNames {l l' : List α} {m : α × Option α} (nodup : l.Nodup) (h : carry l m = some l') :
    m.1 ∈ l ∧ ∀ b ∈ m.2, b ∈ l ∧ b ≠ m.1 := by
  obtain ⟨x,b⟩ := m
  cases b with
  | none =>
    simp only [carry] at h
    split at h <;> try contradiction
    rename_i mem
    exact ⟨mem,by simp⟩
  | some b =>
    simp only [carry] at h
    split at h <;> try contradiction
    rename_i mem
    refine ⟨mem.1,fun other named => ?_⟩
    cases named
    exact ⟨List.mem_of_mem_erase mem.2,fun same => (List.Nodup.not_mem_erase nodup) (same ▸ mem.2)⟩

theorem movedFew {l l' : List α} {ms : List (α × Option α)} (nodup : l.Nodup)
    (h : carryAll l ms = some l') :
    (l'.filter (ms.map Prod.fst).contains).length ≤ ms.length := by
  have distinct : l'.Nodup := (carryAllPerm h).nodup_iff.mpr nodup
  have sub : (l'.filter (ms.map Prod.fst).contains).Subperm (ms.map Prod.fst) :=
    List.subperm_of_subset (distinct.filter _) fun x hx => by simpa using (List.mem_filter.mp hx).2
  simpa using sub.length_le

def weigh (block : List α) (x : α) : Nat := if block.contains x then 1 else block.length + 1

def load (block items : List α) : Nat := (items.map (weigh block)).sum

theorem loadSplit (block items : List α) :
    load block items = items.length + block.length * (others items block).length := by
  induction items with
  | nil => rfl
  | cons x rest ih =>
    simp only [load,others,List.map_cons,List.sum_cons,List.length_cons,List.filter_cons] at ih ⊢
    rw [ih,weigh]
    cases block.contains x with
    | true => simp only [if_true,Bool.not_true]; simp; omega
    | false => simp [Nat.mul_succ]; omega

theorem weightWhere (current block goal : List α) (i : Nat) :
    weightOf (scored current block goal) i = ((goal[i]?).map (weigh block)).getD 0 := by
  rw [weightOf,scored,List.getD_eq_getElem?_getD,List.getElem?_map]
  cases goal[i]? <;> rfl

theorem loadWhere (current block goal : List α) (p : α → Bool) :
    total (scored current block goal) (indicesWhere goal p) = load block (goal.filter p) := by
  have weights : (indicesWhere goal p).map (weightOf (scored current block goal)) =
      ((goal.filter p).map (weigh block)).reverse := by
    calc (indicesWhere goal p).map (weightOf (scored current block goal))
      _ = ((indicesWhere goal p).map (fun i => goal[i]?)).map
          (fun item => (item.map (weigh block)).getD 0) := by
        rw [List.map_map]; exact List.map_congr_left fun i _ => weightWhere current block goal i
      _ = ((goal.filter p).map (weigh block)).reverse := by
        rw [itemsWhere,List.map_reverse,List.map_map]; rfl
  rw [total,weights,List.sum_reverse,load]

theorem heaviestLoad {current block goal : List α} (distinct : goal.Nodup) :
    total (scored current block goal) (heaviestMembers (scored current block goal)) =
      load block (goal.filter (stays current block goal)) := by
  have rises := (heaviestRises (scored current block goal)).1
  have nodup : (indicesWhere goal (stays current block goal)).Nodup :=
    List.nodup_reverse.mpr (List.nodup_range.filter _)
  rw [← loadWhere current,totalFinset (risingNodup rises),totalFinset nodup]
  congr 1
  ext i
  simp only [List.mem_toFinset,indicesWhere,List.mem_reverse,List.mem_filter,List.mem_range]
  constructor
  · intro mem
    have inside := rises.1 i mem
    rw [scored,List.length_map] at inside
    refine ⟨inside,?_⟩
    rw [List.getElem?_eq_getElem inside]
    exact (staysAt distinct inside).mpr mem
  · rintro ⟨inside,stay⟩
    rw [List.getElem?_eq_getElem inside] at stay
    exact (staysAt distinct inside).mp stay

theorem staysMost {current block goal : List α} (distinct : current.Nodup) (perm : goal.Perm current)
    (order : others goal block = others current block) {p : α → Bool}
    (same : goal.filter p = current.filter p) (outside : ∀ x ∈ goal, x ∉ block → p x = true) :
    (goal.filter p).length ≤ (goal.filter (stays current block goal)).length := by
  have rest : ∀ q : α → Bool, (∀ x ∈ goal, x ∉ block → q x = true) →
      others (goal.filter q) block = others goal block := by
    intro q all
    rw [others,others,List.filter_filter]
    refine List.filter_congr fun x mem => ?_
    cases out : block.contains x with
    | true => rfl
    | false => simpa using all x mem (by simpa using out)
  have most := (heaviestRises (scored current block goal)).2 _ (indicesRise block distinct same)
  rw [loadWhere,heaviestLoad (perm.nodup_iff.mpr distinct),loadSplit,loadSplit,rest p outside,
    rest _ fun x mem out => staysOutside distinct perm order mem out] at most
  omega

theorem movesReachTarget {current block : List α} (offset : Nat) (distinct : current.Nodup)
    (blockDistinct : block.Nodup) (inside : ∀ x ∈ block, x ∈ current) :
    (∀ done m rest, moves current block offset = done ++ m :: rest →
      ∃ l, carryAll current done = some l ∧ m.1 ∈ l ∧ ∀ b ∈ m.2, b ∈ l ∧ b ≠ m.1) ∧
    carryAll current (moves current block offset) = some (target current block offset) := by
  have perm := targetPerm offset distinct blockDistinct inside
  obtain ⟨l,carried,order,-⟩ := movesArrive (f := id) (l := current) offset distinct
    (by rwa [List.map_id]) blockDistinct inside (by simp)
  have whole : l.filter current.contains = l :=
    List.filter_eq_self.mpr fun x mem => by simpa using (carryAllPerm carried).mem_iff.mp mem
  simp only [List.map_id,whole] at order
  have arrived : carryAll current (moves current block offset) = some (target current block offset) := by
    simpa [order] using carried
  refine ⟨fun done m rest split => ?_,arrived⟩
  rw [split,carryAllAppend] at arrived
  obtain ⟨mid,before,after⟩ := Option.bind_eq_some_iff.mp arrived
  obtain ⟨next,step,-⟩ := Option.bind_eq_some_iff.mp after
  exact ⟨mid,before,carryNames ((carryAllPerm before).nodup_iff.mpr distinct) step⟩

def scattered : List String := ["c","x","b","y","a"]
def sortedBlock : List String := ["a","b","c"]

theorem movesReachTargetScattered :
    (scattered.Nodup ∧ sortedBlock.Nodup ∧ (∀ x ∈ sortedBlock, x ∈ scattered) ∧
      target scattered sortedBlock 1 = ["x","a","b","c","y"]) ∧
    (∀ done m rest, moves scattered sortedBlock 1 = done ++ m :: rest →
      ∃ l, carryAll scattered done = some l ∧ m.1 ∈ l ∧ ∀ b ∈ m.2, b ∈ l ∧ b ≠ m.1) ∧
    carryAll scattered (moves scattered sortedBlock 1) = some ["x","a","b","c","y"] :=
  ⟨by decide,movesReachTarget 1 (by decide) (by decide) (by decide)⟩

theorem movesFewest {current block : List α} (offset : Nat) (distinct : current.Nodup)
    (blockDistinct : block.Nodup) (inside : ∀ x ∈ block, x ∈ current) :
    (∀ m ∈ moves current block offset, m.1 ∈ block) ∧
    ((moves current block offset).map Prod.fst).Nodup ∧
    (∀ ms : List (α × Option α), (∀ m ∈ ms, m.1 ∈ block) →
      carryAll current ms = some (target current block offset) →
      (moves current block offset).length ≤ ms.length) ∧
    (moves current block offset = [] ↔ current = target current block offset) := by
  have perm := targetPerm offset distinct blockDistinct inside
  have order := targetOthers current block offset
  have none := movesNone offset distinct blockDistinct inside
  have goalDistinct := perm.nodup_iff.mpr distinct
  have walked := movesWalk offset goalDistinct
  generalize target current block offset = goal at perm order none goalDistinct walked ⊢
  have items := congrArg (List.map Prod.fst) walked
  rw [walkItems] at items
  refine ⟨fun m mem => ?_,?_,fun ms own carried => ?_,none.trans eq_comm⟩
  · rw [walked] at mem
    obtain ⟨there,moved⟩ := walkMoved mem
    by_contra out
    rw [staysOutside distinct perm order there out] at moved
    cases moved
  · rw [items]
    exact List.nodup_reverse.mpr (goalDistinct.filter _)
  · have apart : ∀ x, x ∉ block → (!(ms.map Prod.fst).contains x) = true := by
      intro x out
      simp only [Bool.not_eq_true',← Bool.not_eq_true,List.contains_iff_mem,List.mem_map]
      rintro ⟨m,mem,rfl⟩
      exact out (own m mem)
    have unmoved := carryAllOthers (p := fun x => !(ms.map Prod.fst).contains x) distinct carried
      fun m mem => by simpa using ⟨m.2,mem⟩
    have most := staysMost distinct perm order unmoved fun x _ => apart x
    have few := movedFew distinct carried
    have size := congrArg List.length items
    rw [List.length_map,List.length_reverse] at size
    have mine := List.length_eq_length_filter_add (l := goal) (stays current block goal)
    have theirs := List.length_eq_length_filter_add (l := goal) (ms.map Prod.fst).contains
    omega

theorem movesFewestScattered :
    (scattered.Nodup ∧ sortedBlock.Nodup ∧ (∀ x ∈ sortedBlock, x ∈ scattered) ∧
      moves scattered sortedBlock 1 = [("c",some "y"),("a",some "b")]) ∧
    (∀ m ∈ moves scattered sortedBlock 1, m.1 ∈ sortedBlock) ∧
    ((moves scattered sortedBlock 1).map Prod.fst).Nodup ∧
    (∀ ms : List (String × Option String), (∀ m ∈ ms, m.1 ∈ sortedBlock) →
      carryAll scattered ms = some ["x","a","b","c","y"] → 2 ≤ ms.length) ∧
    (moves scattered sortedBlock 1 = [] ↔ scattered = ["x","a","b","c","y"]) :=
  ⟨by decide,movesFewest 1 (by decide) (by decide) (by decide)⟩

end RouterReconciler.Placement
