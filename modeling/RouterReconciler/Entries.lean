/-!
Tables in the order in which their keys came: a key occurs once, writing to a key that is there
keeps its place, and taking a key out keeps the order of the others.
-/
namespace RouterReconciler

structure Entries (α : Type) where
  toList : List (String × α)
  distinct : (toList.map Prod.fst).Nodup
  deriving DecidableEq

namespace Entries
variable {α β : Type}

def put (key : String) (value : α) : List (String × α) → List (String × α)
  | [] => [(key,value)]
  | (k,v) :: rest => if k = key then (key,value) :: rest else (k,v) :: put key value rest

def lookup (key : String) : List (String × α) → Option α
  | [] => none
  | (k,v) :: rest => if k = key then some v else lookup key rest

theorem keysPut (key : String) (value : α) (l : List (String × α)) :
    (put key value l).map Prod.fst =
      if key ∈ l.map Prod.fst then l.map Prod.fst else l.map Prod.fst ++ [key] := by
  induction l with
  | nil => simp [put]
  | cons entry rest ih =>
    obtain ⟨k,v⟩ := entry
    by_cases same : k = key
    · simp [put,same]
    · have other : ¬ key = k := fun h => same h.symm
      simp only [put,same,if_false,List.map_cons,ih,List.mem_cons,other,false_or]
      split <;> simp

theorem nodupPut (key : String) (value : α) {l : List (String × α)}
    (h : (l.map Prod.fst).Nodup) : ((put key value l).map Prod.fst).Nodup := by
  rw [keysPut]
  split
  · exact h
  · rename_i absent
    rw [List.nodup_append]
    refine ⟨h,by simp,?_⟩
    intro a ha b hb
    simp only [List.mem_singleton] at hb
    subst hb
    exact fun same => absent (same ▸ ha)

theorem lookupPut (key other : String) (value : α) (l : List (String × α)) :
    lookup other (put key value l) = if other = key then some value else lookup other l := by
  induction l with
  | nil => by_cases h : key = other <;> simp [put,lookup,h,eq_comm]
  | cons entry rest ih =>
    obtain ⟨k,v⟩ := entry
    by_cases same : k = key <;> by_cases found : k = other <;> grind [put,lookup]

def empty : Entries α := ⟨[],by simp⟩

instance : EmptyCollection (Entries α) := ⟨empty⟩
instance : Inhabited (Entries α) := ⟨empty⟩

def keys (e : Entries α) : List String := e.toList.map Prod.fst

def values (e : Entries α) : List α := e.toList.map Prod.snd

def isEmpty (e : Entries α) : Bool := e.toList.isEmpty

def get? (e : Entries α) (key : String) : Option α := lookup key e.toList

def insert (e : Entries α) (key : String) (value : α) : Entries α :=
  ⟨put key value e.toList,nodupPut key value e.distinct⟩

def filter (p : String → α → Bool) (e : Entries α) : Entries α :=
  ⟨e.toList.filter (fun entry => p entry.1 entry.2),
    e.distinct.sublist ((List.filter_sublist).map Prod.fst)⟩

def keep {ε : Type} (p : String → α → Except ε Bool) : List (String × α) → Except ε (List (String × α))
  | [] => .ok []
  | (key,v) :: rest =>
    match p key v with
    | .error e => .error e
    | .ok kept =>
      match keep p rest with
      | .ok others => .ok (if kept then (key,v) :: others else others)
      | .error e => .error e

theorem keepSublist {ε : Type} {p : String → α → Except ε Bool} {l kept : List (String × α)}
    (h : keep p l = .ok kept) : kept.Sublist l := by
  induction l generalizing kept with
  | nil => cases h; exact .slnil
  | cons entry rest ih =>
    unfold keep at h
    cases judged : p entry.1 entry.2 with
    | error e => simp [judged] at h
    | ok passes =>
      cases found : keep p rest with
      | error e => simp [judged,found] at h
      | ok others =>
        simp only [judged,found,Except.ok.injEq] at h
        subst h
        cases passes with
        | true => exact (ih found).cons_cons _
        | false => exact (ih found).cons _

def keepWhere {ε : Type} (p : String → α → Except ε Bool) (e : Entries α) : Except ε (Entries α) :=
  match h : keep p e.toList with
  | .ok kept => .ok ⟨kept,e.distinct.sublist ((keepSublist h).map Prod.fst)⟩
  | .error e => .error e

def erase (e : Entries α) (key : String) : Entries α := e.filter (fun k _ => k != key)

def map (f : String → α → β) (e : Entries α) : Entries β :=
  ⟨e.toList.map (fun entry => (entry.1,f entry.1 entry.2)),by
    simpa [List.map_map,Function.comp_def] using e.distinct⟩

def ofList (l : List (String × α)) : Entries α :=
  l.foldl (fun e entry => e.insert entry.1 entry.2) empty

def extend (e other : Entries α) : Entries α :=
  other.toList.foldl (fun acc entry => acc.insert entry.1 entry.2) e

def sorted (e : Entries α) : Entries α :=
  ⟨e.toList.mergeSort (fun a b => a.1 ≤ b.1),
    ((List.mergeSort_perm e.toList _).map Prod.fst).nodup_iff.mpr e.distinct⟩

@[simp,grind =]
theorem getInsert (e : Entries α) (key other : String) (value : α) :
    (e.insert key value).get? other = if other = key then some value else e.get? other :=
  lookupPut key other value e.toList

end Entries
end RouterReconciler
