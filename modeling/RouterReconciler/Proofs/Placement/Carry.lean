import Mathlib.Data.List.Basic
import Mathlib.Data.List.Nodup
import Mathlib.Data.List.Perm.Basic
import RouterReconciler.Placement

/-! Single moves carried out on a list: an item is taken out and put just before another one, or at
the end. A walk from the end of a goal to its start, moving every item that does not stay, arrives
at the goal whatever other items lie between, and leaves their order alone. -/
namespace RouterReconciler.Placement
variable {α β : Type} [DecidableEq α]

def insertBefore (x b : α) : List α → List α
  | [] => [x]
  | y :: rest => if y = b then x :: y :: rest else y :: insertBefore x b rest

def carry (l : List α) : α × Option α → Option (List α)
  | (x,none) => if x ∈ l then some (l.erase x ++ [x]) else none
  | (x,some b) => if x ∈ l ∧ b ∈ l.erase x then some (insertBefore x b (l.erase x)) else none

def carryAll (l : List α) : List (α × Option α) → Option (List α)
  | [] => some l
  | m :: rest => (carry l m).bind fun next => carryAll next rest

theorem carryAllAppend (l : List α) (ms ns : List (α × Option α)) :
    carryAll l (ms ++ ns) = (carryAll l ms).bind fun next => carryAll next ns := by
  induction ms generalizing l with
  | nil => rfl
  | cons m rest ih =>
    simp only [List.cons_append,carryAll]
    cases carry l m with
    | none => rfl
    | some next => exact ih next

theorem insertBeforePerm (x b : α) (l : List α) : (insertBefore x b l).Perm (x :: l) := by
  induction l with
  | nil => exact List.Perm.refl _
  | cons y rest ih =>
    simp only [insertBefore]
    split
    · exact List.Perm.refl _
    · exact (ih.cons y).trans (List.Perm.swap x y rest)

theorem insertBeforeAt (x b : α) {front : List α} (back : List α) (h : b ∉ front) :
    insertBefore x b (front ++ b :: back) = front ++ x :: b :: back := by
  induction front with
  | nil => simp [insertBefore]
  | cons y rest ih =>
    have other : y ≠ b := fun same => h (by simp [same])
    have later : b ∉ rest := fun mem => h (by simp [mem])
    simp [insertBefore,other,ih later]

theorem filterInsertBefore {x b : α} (p : α → Bool) (l : List α) (anchor : p x = true → p b = true) :
    (insertBefore x b l).filter p =
      if p x then insertBefore x b (l.filter p) else l.filter p := by
  induction l with
  | nil => cases hx : p x <;> simp [insertBefore,hx]
  | cons y rest ih =>
    by_cases same : y = b
    · subst y
      cases hx : p x with
      | false => simp [insertBefore,hx]
      | true => simp [insertBefore,hx,anchor hx]
    · simp only [insertBefore,if_neg same]
      cases hy : p y <;> cases hx : p x <;> simp [hy,hx,insertBefore,same] at ih ⊢ <;> exact ih

theorem carryPerm {l l' : List α} {m : α × Option α} (h : carry l m = some l') : l'.Perm l := by
  obtain ⟨x,b⟩ := m
  cases b with
  | none =>
    simp only [carry] at h
    split at h <;> try contradiction
    rename_i mem
    cases Option.some.inj h
    exact (List.perm_append_singleton x _).trans (List.perm_cons_erase mem).symm
  | some b =>
    simp only [carry] at h
    split at h <;> try contradiction
    rename_i mem
    cases Option.some.inj h
    exact (insertBeforePerm x b _).trans (List.perm_cons_erase mem.1).symm

-- A move does not disturb the items that it does not name as moved.
theorem carryOthers {l l' : List α} {m : α × Option α} (nodup : l.Nodup) (h : carry l m = some l')
    {p : α → Bool} (still : p m.1 = false) : l'.filter p = l.filter p := by
  obtain ⟨x,b⟩ := m
  have gone : (l.erase x).filter p = l.filter p := by
    rw [nodup.erase_eq_filter,List.filter_filter]
    refine List.filter_congr fun y _ => ?_
    by_cases same : y = x
    · subst y; simp [show p x = false from still]
    · simp [same]
  cases b with
  | none =>
    simp only [carry] at h
    split at h <;> try contradiction
    cases Option.some.inj h
    simp [List.filter_append,gone,show p x = false from still]
  | some b =>
    simp only [carry] at h
    split at h <;> try contradiction
    cases Option.some.inj h
    have out : p x = false := still
    rw [filterInsertBefore p _ (by simp [out]),out]
    simpa using gone

theorem carryAllPerm {l l' : List α} {ms : List (α × Option α)} (h : carryAll l ms = some l') :
    l'.Perm l := by
  induction ms generalizing l with
  | nil => cases Option.some.inj h; exact List.Perm.refl _
  | cons m rest ih =>
    obtain ⟨next,hm,hr⟩ := Option.bind_eq_some_iff.mp h
    exact (ih hr).trans (carryPerm hm)

theorem carryAllOthers {l l' : List α} {ms : List (α × Option α)} (nodup : l.Nodup)
    (h : carryAll l ms = some l') {p : α → Bool} (still : ∀ m ∈ ms, p m.1 = false) :
    l'.filter p = l.filter p := by
  induction ms generalizing l with
  | nil => cases Option.some.inj h; rfl
  | cons m rest ih =>
    obtain ⟨next,hm,hr⟩ := Option.bind_eq_some_iff.mp h
    have again := ih ((carryPerm hm).nodup_iff.mpr nodup) hr
      (fun n mem => still n (List.mem_cons_of_mem _ mem))
    exact again.trans (carryOthers nodup hm (still m List.mem_cons_self))

def walk (stay : α → Bool) : List α → List (α × Option α)
  | [] => []
  | x :: rest => walk stay rest ++ (if stay x then [] else [(x,rest.head?)])

omit [DecidableEq α] in
theorem walkMoved {stay : α → Bool} {goal : List α} {m : α × Option α} (h : m ∈ walk stay goal) :
    m.1 ∈ goal ∧ stay m.1 = false := by
  induction goal with
  | nil => simp [walk] at h
  | cons x rest ih =>
    rcases List.mem_append.mp h with later | here
    · exact ⟨List.mem_cons_of_mem _ (ih later).1,(ih later).2⟩
    · cases hs : stay x <;> simp [hs] at here
      subst m
      exact ⟨List.mem_cons_self,hs⟩

omit [DecidableEq α] in
theorem walkAnchored {stay : α → Bool} {goal : List α} (distinct : goal.Nodup) {m : α × Option α}
    (h : m ∈ walk stay goal) : ∀ b ∈ m.2, b ∈ goal ∧ m.1 ≠ b := by
  induction goal with
  | nil => cases h
  | cons x rest ih =>
    obtain ⟨out,distinct⟩ := List.nodup_cons.mp distinct
    intro b anchor
    rcases List.mem_append.mp h with later | here
    · obtain ⟨mem,differ⟩ := ih distinct later b anchor
      exact ⟨List.mem_cons_of_mem _ mem,differ⟩
    · cases hs : stay x <;> simp [hs] at here
      subst m
      have mem := List.mem_of_mem_head? anchor
      exact ⟨List.mem_cons_of_mem _ mem,fun same : x = b => out (same ▸ mem)⟩

omit [DecidableEq α] in
theorem walkMap {stay : α → Bool} (f : α → β) {moved : β → Bool} {goal : List α}
    (same : ∀ x ∈ goal, moved (f x) = stay x) :
    (walk stay goal).map (Prod.map f (Option.map f)) = walk moved (goal.map f) := by
  induction goal with
  | nil => rfl
  | cons x rest ih =>
    have later := ih (fun y mem => same y (List.mem_cons_of_mem _ mem))
    simp only [walk,List.map_cons,List.map_append,later,same x List.mem_cons_self]
    cases stay x <;> simp [List.head?_map]

-- One step of the walk, seen by the items that stay or are already in place: the moved item joins
-- them just before the part that is in place.
theorem carryJoins {l front back : List α} {x : α} {q : α → Bool} (nodup : l.Nodup)
    (there : x ∈ l) (out : q x = false) (placed : ∀ y ∈ back, q y = true)
    (apart : ∀ y ∈ back, y ∉ front) (seen : l.filter q = front ++ back) :
    ∃ l', carry l (x,back.head?) = some l' ∧
      l'.filter (fun y => q y || y == x) = front ++ x :: back := by
  have rest : (l.erase x).filter (fun y => q y || y == x) = front ++ back := by
    rw [nodup.erase_eq_filter,List.filter_filter,← seen]
    refine List.filter_congr fun y _ => ?_
    by_cases same : y = x
    · subst y; simp [out]
    · simp [bne,beq_false_of_ne same]
  cases back with
  | nil =>
    refine ⟨l.erase x ++ [x],by simp [carry,there],?_⟩
    rw [List.filter_append,rest]
    simp
  | cons b others =>
    have mem : b ∈ l.filter q := by rw [seen]; simp
    have differ : b ≠ x := by
      intro same
      have := placed b List.mem_cons_self
      rw [same,out] at this
      contradiction
    have found : b ∈ l.erase x := (List.mem_erase_of_ne differ).mpr (List.mem_filter.mp mem).1
    refine ⟨insertBefore x b (l.erase x),by simp [carry,there,found],?_⟩
    rw [filterInsertBefore _ _ (fun _ => by simp [placed b List.mem_cons_self]),rest]
    simp [insertBeforeAt x b others (apart b List.mem_cons_self)]

-- The invariant of the walk: once the end of the goal is in place, the items that stay or are in place
-- stand as they do in the goal.
theorem walkArrives {stay : α → Bool} {l : List α} (front : List α) {back : List α}
    (nodup : l.Nodup) (distinct : (front ++ back).Nodup) (there : ∀ x ∈ back, x ∈ l)
    (staying : ∀ x, stay x = true → x ∈ front ++ back)
    (kept : l.filter stay = (front ++ back).filter stay) :
    ∃ l', carryAll l (walk stay back) = some l' ∧
      l'.filter (fun x => stay x || back.contains x) = front.filter stay ++ back := by
  induction back generalizing front with
  | nil => exact ⟨l,rfl,by simpa using kept⟩
  | cons x rest ih =>
    have shift : front ++ x :: rest = (front ++ [x]) ++ rest := by simp
    rw [shift] at distinct staying kept
    obtain ⟨mid,hm,seen⟩ := ih (front ++ [x]) distinct (fun y mem => there y (List.mem_cons_of_mem _ mem))
      staying kept
    have perm := carryAllPerm hm
    have apart := List.nodup_append.mp distinct
    have fresh : x ∉ rest := fun mem => apart.2.2 x (by simp) x mem rfl
    simp only [walk,carryAllAppend,hm,Option.bind_some]
    cases hs : stay x with
    | true =>
      refine ⟨mid,by simp [carryAll],?_⟩
      have same : mid.filter (fun y => stay y || (x :: rest).contains y) =
          mid.filter (fun y => stay y || rest.contains y) := by
        refine List.filter_congr fun y _ => ?_
        by_cases eq : y = x
        · subst y; simp [hs]
        · simp [eq]
      rw [same,seen]
      simp [hs]
    | false =>
      have out : (stay x || rest.contains x) = false := by simp [hs,fresh]
      have placed : ∀ y ∈ rest, (stay y || rest.contains y) = true := by
        intro y mem; simp [mem]
      have off : ∀ y ∈ rest, y ∉ front.filter stay := by
        intro y mem inFront
        exact apart.2.2 y (by simp [(List.mem_filter.mp inFront).1]) y mem rfl
      have view : mid.filter (fun y => stay y || rest.contains y) = front.filter stay ++ rest := by
        rw [seen]; simp [hs]
      obtain ⟨l',hc,hl⟩ := carryJoins (perm.nodup_iff.mpr nodup)
        (perm.mem_iff.mpr (there x List.mem_cons_self)) out placed off view
      refine ⟨l',by simp [carryAll,hc],?_⟩
      rw [← hl]
      refine List.filter_congr fun y _ => ?_
      by_cases eq : y = x
      · subst y; simp
      · simp [eq]

theorem walkReaches {stay : α → Bool} {l goal : List α} (nodup : l.Nodup) (distinct : goal.Nodup)
    (there : ∀ x ∈ goal, x ∈ l) (staying : ∀ x, stay x = true → x ∈ goal)
    (kept : l.filter stay = goal.filter stay) :
    ∃ l', carryAll l (walk stay goal) = some l' ∧ l'.filter goal.contains = goal := by
  obtain ⟨l',hc,seen⟩ := walkArrives [] nodup distinct there staying kept
  have same : l'.filter goal.contains = l'.filter (fun x => stay x || goal.contains x) := by
    refine List.filter_congr fun x _ => ?_
    cases hs : stay x with
    | true => simpa using staying x hs
    | false => simp
  exact ⟨l',hc,by simpa [same] using seen⟩

end RouterReconciler.Placement
