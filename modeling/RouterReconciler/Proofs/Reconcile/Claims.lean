import RouterReconciler.Proofs.Device.Order

/-! Lines that claim records in turn, each the first that fits it and is still free. A claim depends on
what stands before a record only as far as that fits and is free: so the same lines claim the same records
where others have been left out, new records have come at the end, or what a line looks at is as it was. -/
namespace RouterReconciler
open Replica

/-- How the lines are served from the records `rs`, when the records with the ids `taken` are not free. A
line without a record gets a new one; `news` are these, and `block` has a record for each line, as `change`
leaves it. -/
inductive Served (fits : Criteria → Record → Bool) (rs : List Record) (change : Record → Record) :
    List (Option ItemId) → List Criteria → List Record → List Record → Prop
  | done (taken) : Served fits rs change taken [] [] []
  | found {taken line r rest block news} :
      rs.find? (fun r => fits line r && outside taken r) = some r →
      Served fits rs change (r.id :: taken) rest block news →
      Served fits rs change taken (line :: rest) (change r :: block) news
  | made {taken line r rest block news} :
      rs.find? (fun r => fits line r && outside taken r) = none → fits line r = true →
      Served fits rs change (r.id :: taken) rest block news →
      Served fits rs change taken (line :: rest) (r :: block) (r :: news)

inductive Claims (fits : Criteria → Record → Bool) (rs : List Record) :
    List (Option ItemId) → List Criteria → List Record → Prop
  | done (taken) : Claims fits rs taken [] []
  | line {taken line r rest block} :
      rs.find? (fun r => fits line r && outside taken r) = some r →
      Claims fits rs (r.id :: taken) rest block → Claims fits rs taken (line :: rest) (r :: block)

namespace Served
variable {fits : Criteria → Record → Bool} {rs block news : List Record} {change : Record → Record}
  {taken : List (Option ItemId)} {lines : List Criteria}

theorem fit (h : Served fits rs change taken lines block news)
    (same : ∀ r ∈ rs, ∀ line ∈ lines, fits line (change r) = fits line r) :
    List.Forall₂ (fun line r => fits line r = true) lines block := by
  induction h with
  | done => exact .nil
  | @found taken line r rest block news first _ ih =>
    have hit := (Bool.and_eq_true _ _ ▸ List.find?_some first :)
    refine .cons ?_ (ih fun x hx other mem => same x hx other (List.mem_cons_of_mem _ mem))
    rw [same r (List.mem_of_find?_eq_some first) line List.mem_cons_self]
    exact hit.1
  | made _ hit _ ih =>
    exact .cons hit (ih fun x hx other mem => same x hx other (List.mem_cons_of_mem _ mem))

theorem claims (h : Served fits rs change taken lines block []) (same : ∀ r ∈ rs, change r = r) :
    Claims fits rs taken lines block := by
  generalize nothing : ([] : List Record) = news at h
  induction h with
  | done => exact .done _
  | found first _ ih =>
    rw [same _ (List.mem_of_find?_eq_some first)]
    exact .line first (ih nothing)
  | made => cases nothing

end Served

def Marks (rs : List Record) (claimed : List Nat) (taken : List (Option ItemId)) : Prop :=
  ∀ r j, rs[j]? = some r → claimed.contains j = taken.contains r.id

theorem Marks.start (rs : List Record) : Marks rs [] [] := fun _ _ _ => rfl

theorem Marks.found {rs : List Record} {claimed : List Nat} {taken : List (Option ItemId)}
    (marks : Marks rs claimed taken) (distinct : (ids rs).Nodup) {j : Nat} {r : Record}
    (there : rs[j]? = some r) : Marks rs (j :: claimed) (r.id :: taken) := by
  intro x i hx
  rw [List.contains_cons,List.contains_cons,marks x i hx]
  congr 1
  rw [Bool.eq_iff_iff,beq_iff_eq,beq_iff_eq]
  constructor
  · rintro rfl
    cases there.symm.trans hx
    rfl
  · exact fun same => samePlace distinct hx there same

theorem Marks.made {rs : List Record} {claimed : List Nat} {taken : List (Option ItemId)}
    (marks : Marks rs claimed taken) {id : Option ItemId} (out : id ∉ ids rs) :
    Marks rs claimed (id :: taken) := by
  intro x i hx
  have other : x.id ≠ id := fun same =>
    out (same ▸ List.mem_map_of_mem (List.mem_of_getElem? hx))
  rw [marks x i hx,List.contains_cons,beq_eq_false_iff_ne.mpr other,Bool.false_or]

theorem findThrough {p q : Record → Bool} {rs : List Record} {r : Record} (stay : Record → Bool)
    {change : Record → Record} (same : ∀ x ∈ rs, q (change x) = p x) (stays : stay r = true)
    (first : rs.find? p = some r) : ((rs.filter stay).map change).find? q = some (change r) := by
  obtain ⟨hit,front,back,rfl,early⟩ := List.find?_eq_some_iff_append.mp first
  have here : q (change r) = true := by rw [same r (by simp)]; exact hit
  rw [List.filter_append,List.filter_cons_of_pos stays,List.map_append,List.map_cons]
  refine List.find?_eq_some_iff_append.mpr ⟨here,_,_,rfl,fun y hy => ?_⟩
  obtain ⟨x,hx,rfl⟩ := List.mem_map.mp hy
  have mem := (List.mem_filter.mp hx).1
  rw [same x (by simp [mem])]
  exact early x mem

theorem findNoneThrough {p q : Record → Bool} {rs : List Record} (stay : Record → Bool)
    {change : Record → Record} (same : ∀ x ∈ rs, q (change x) = p x) (missing : rs.find? p = none) :
    ((rs.filter stay).map change).find? q = none := by
  refine List.find?_eq_none.mpr fun y hy => ?_
  obtain ⟨x,hx,rfl⟩ := List.mem_map.mp hy
  have mem := (List.mem_filter.mp hx).1
  rw [same x mem]
  exact List.find?_eq_none.mp missing x mem

namespace Served
variable {fits : Criteria → Record → Bool} {rs block news : List Record} {change : Record → Record}
  {taken : List (Option ItemId)} {lines : List Criteria}

-- Served again from what is left of the records and the new ones after them, every line finds the
-- record that it had. Of the new ones, those of the lines before stand in `done`.
theorem again {stay : Record → Bool} (done : List Record)
    (h : Served fits rs change taken lines block news) (names : ∀ r, (change r).id = r.id)
    (same : ∀ r ∈ rs, ∀ line ∈ lines, fits line (change r) = fits line r)
    (stays : ∀ r ∈ rs, change r ∈ block → stay r = true) (apart : (ids (rs ++ news)).Nodup)
    (early : ∀ r ∈ done, r.id ∈ taken) (late : ∀ r ∈ news, r.id ∉ taken) :
    Claims fits ((rs.filter stay).map change ++ (done ++ news)) taken lines block := by
  induction h generalizing done with
  | done => exact .done _
  | @found taken line r rest block news first _ ih =>
    have there := List.mem_of_find?_eq_some first
    have judged : ∀ x ∈ rs, (fits line (change x) && outside taken (change x)) =
        (fits line x && outside taken x) := fun x hx => by
      rw [same x hx line List.mem_cons_self,outside,outside,names]
    refine .line ?_ ?_
    · rw [List.find?_append,findThrough stay judged (stays r there List.mem_cons_self) first]
      rfl
    · rw [names]
      refine ih done (fun x hx other mem => same x hx other (List.mem_cons_of_mem _ mem))
        (fun x hx mem => stays x hx (List.mem_cons_of_mem _ mem)) apart
        (fun x hx => List.mem_cons_of_mem _ (early x hx)) fun x hx mem => ?_
      rcases List.mem_cons.mp mem with itself | mem
      · rw [ids,List.map_append] at apart
        exact (List.nodup_append.mp apart).2.2 r.id (List.mem_map_of_mem there) x.id
          (List.mem_map_of_mem hx) itself.symm
      · exact late x hx mem
  | @made taken line r rest block news first hit _ ih =>
    have judged : ∀ x ∈ rs, (fits line (change x) && outside taken (change x)) =
        (fits line x && outside taken x) := fun x hx => by
      rw [same x hx line List.mem_cons_self,outside,outside,names]
    have others : done.find? (fun x => fits line x && outside taken x) = none :=
      List.find?_eq_none.mpr fun x hx => by simp [outside,early x hx]
    have free : outside taken r = true := by simp [outside,late r List.mem_cons_self]
    refine .line ?_ ?_
    · rw [List.find?_append,findNoneThrough stay judged first,List.find?_append,others]
      simp [hit,free]
    · rw [show done ++ r :: news = done ++ [r] ++ news by simp]
      have parts := apart
      rw [ids,List.map_append,List.map_cons] at parts
      obtain ⟨-,tail,-⟩ := List.nodup_append.mp parts
      refine ih (done ++ [r]) (fun x hx other mem => same x hx other (List.mem_cons_of_mem _ mem))
        (fun x hx mem => stays x hx (List.mem_cons_of_mem _ mem))
        (apart.sublist (((List.sublist_cons_self r news).append_left rs).map _)) (fun x hx => ?_)
        fun x hx mem => ?_
      · rcases List.mem_append.mp hx with hx | hx
        · exact List.mem_cons_of_mem _ (early x hx)
        · cases List.mem_singleton.mp hx
          exact List.mem_cons_self
      · rcases List.mem_cons.mp mem with itself | mem
        · exact (List.nodup_cons.mp tail).1 (itself ▸ List.mem_map_of_mem hx)
        · exact late x (List.mem_cons_of_mem _ hx) mem

end Served

namespace Claims
variable {fits : Criteria → Record → Bool} {rs block : List Record} {taken : List (Option ItemId)}
  {lines : List Criteria}

theorem narrow {ends : Criteria → Record → Bool} (wider : ∀ line r, fits line r = true → ends line r = true)
    (h : Claims ends rs taken lines block) (fit : List.Forall₂ (fun line r => fits line r = true) lines block) :
    Claims fits rs taken lines block := by
  induction h with
  | done => exact .done _
  | @line taken line r rest block first _ ih =>
    cases fit with
    | cons here later =>
      obtain ⟨hit,front,back,same,early⟩ := List.find?_eq_some_iff_append.mp first
      refine .line (List.find?_eq_some_iff_append.mpr ⟨?_,front,back,same,fun x hx => ?_⟩) (ih later)
      · rw [here]
        exact Bool.and_eq_true_iff.mpr ⟨rfl,(Bool.and_eq_true_iff.mp hit).2⟩
      · have passed := early x hx
        cases narrowed : fits line x with
        | false => rfl
        | true => rwa [wider line x narrowed] at passed

-- Where the records of the lines stand together in line order, and nothing before them is free to
-- claim, the lines claim just these.
theorem inPlace {front back : List Record}
    (fit : List.Forall₂ (fun line r => fits line r = true) lines block)
    (passed : ∀ x ∈ front, x.id ∈ taken ∨ ∀ line ∈ lines, fits line x = false)
    (once : (ids block).Nodup) (free : ∀ r ∈ block, r.id ∉ taken) :
    Claims fits (front ++ block ++ back) taken lines block := by
  induction fit generalizing front taken with
  | nil => exact .done _
  | @cons line r rest block hit _ ih =>
    have before : front.find? (fun x => fits line x && outside taken x) = none :=
      List.find?_eq_none.mpr fun x hx => by
        rcases passed x hx with mem | unfit
        · simp [outside,mem]
        · simp [unfit line List.mem_cons_self]
    have loose : outside taken r = true := by simp [outside,free r List.mem_cons_self]
    obtain ⟨apart,later⟩ := List.nodup_cons.mp once
    refine .line ?_ ?_
    · rw [List.append_assoc,List.find?_append,before]
      simp [hit,loose]
    · rw [show front ++ r :: block ++ back = front ++ [r] ++ block ++ back by simp]
      refine ih (fun x hx => ?_) later fun x hx mem => ?_
      · rcases List.mem_append.mp hx with hx | hx
        · refine (passed x hx).imp (List.mem_cons_of_mem _) fun unfit other mem => ?_
          exact unfit other (List.mem_cons_of_mem _ mem)
        · cases List.mem_singleton.mp hx
          exact .inl List.mem_cons_self
      · rcases List.mem_cons.mp mem with itself | mem
        · exact apart (itself ▸ List.mem_map_of_mem hx)
        · exact free x (List.mem_cons_of_mem _ hx) mem

theorem passedOver {front back : List Record} (h : Claims fits (front ++ back) taken lines block)
    (away : ∀ x ∈ front, x ∉ block) (free : ∀ x ∈ front, x.id ∉ taken)
    (distinct : (ids (front ++ back)).Nodup) :
    ∀ x ∈ front, ∀ line ∈ lines, fits line x = false := by
  induction h with
  | done => simp
  | @line taken line r rest block first _ ih =>
    have out : r ∉ front := fun mem => away r mem List.mem_cons_self
    have notFront : front.find? (fun x => fits line x && outside taken x) = none := by
      rw [List.find?_append] at first
      cases early : front.find? (fun x => fits line x && outside taken x) with
      | none => rfl
      | some x =>
        rw [early] at first
        cases first
        exact absurd (List.mem_of_find?_eq_some early) out
    have apart : ∀ x ∈ front, x.id ∉ r.id :: taken := by
      intro x hx mem
      rcases List.mem_cons.mp mem with same | mem
      · have there := List.mem_of_find?_eq_some first
        exact out (sameRecord distinct (List.mem_append_left _ hx) there same ▸ hx)
      · exact free x hx mem
    have later := ih (fun x hx mem => away x hx (List.mem_cons_of_mem _ mem)) apart
    intro x hx other mem
    rcases List.mem_cons.mp mem with rfl | mem
    · have unfit := List.find?_eq_none.mp notFront x hx
      simpa [outside,free x hx] using unfit
    · exact later x hx other mem

end Claims
end RouterReconciler
