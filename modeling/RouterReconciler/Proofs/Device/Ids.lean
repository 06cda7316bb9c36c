import RouterReconciler.Proofs.Device.Effects
import RouterReconciler.Proofs.Record.Fields

/-! The counter for item ids. An id that the counter gives reads back as its number, so two numbers
give two ids, and a counter above every number in an id gives none that is in use. -/
namespace RouterReconciler
open Text

theorem hexFromAppend (n : Nat) (front back : List Char) :
    hexFrom? n (front ++ back) = (hexFrom? n front).bind (hexFrom? · back) := by
  induction front generalizing n with
  | nil => rfl
  | cons c front ih =>
    simp only [List.cons_append,hexFrom?]
    cases hexValue? c with
    | none => rfl
    | some d => exact ih (16 * n + d)

theorem hexFromValues {n m : Nat} {cs : List Char} (h : hexFrom? n cs = some m) :
    ∀ c ∈ cs, (hexValue? c).isSome := by
  induction cs generalizing n with
  | nil => simp
  | cons c rest ih =>
    simp only [hexFrom?] at h
    cases hc : hexValue? c with
    | none => rw [hc] at h; cases h
    | some d =>
      rw [hc] at h
      intro x hx
      rcases List.mem_cons.mp hx with rfl | hx
      · simp [hc]
      · exact ih h x hx

theorem digitReads {d : Nat} (h : d < 16) : hexValue? (Nat.digitChar d).toUpper = some d := by
  have all : ∀ d : Fin 16, hexValue? (Nat.digitChar d.val).toUpper = some d.val := by decide
  exact all ⟨d,h⟩

theorem upperHexReads (n : Nat) : hexFrom? 0 ((Nat.toDigits 16 n).map Char.toUpper) = some n := by
  induction n using Nat.strongRecOn with
  | ind n ih =>
    rw [Nat.toDigits_eq_if (by omega)]
    split
    · rename_i small
      simp [hexFrom?,digitReads small]
    · rename_i large
      have upper := ih (n / 16) (by omega)
      rw [List.map_append,hexFromAppend,upper]
      simp only [List.map_cons,List.map_nil,Option.bind_some,hexFrom?,
        digitReads (Nat.mod_lt n (by omega : 0 < 16))]
      congr 1
      omega

namespace Replica

theorem newIdReads {n : Nat} (word : n ≤ maxWord64) : idNumber? (newId n) = some n := by
  have read := upperHexReads n
  have values := hexFromValues read
  have written := Nat.toDigits_ne_nil (n := n) (b := 16)
  have text : (newId n).toList = '*' :: (Nat.toDigits 16 n).map Char.toUpper := by
    simp [newId,upperHex]
  cases hd : (Nat.toDigits 16 n).map Char.toUpper with
  | nil => exact absurd (List.map_eq_nil_iff.mp hd) written
  | cons c rest =>
    rw [hd] at read values text
    have value := values c List.mem_cons_self
    have noStar : c ≠ '*' := by rintro rfl; exact absurd value (by decide)
    have noPlus : c ≠ '+' := by rintro rfl; exact absurd value (by decide)
    have body : (newId n).toList.dropWhile (· == '*') = c :: rest := by
      simp [text,noStar]
    rw [idNumber?,body]
    unfold hexadecimal?
    split
    · rename_i same
      exact absurd (List.cons.inj same).1 noPlus
    · simp [read,atMost,word]

theorem newIdDiffers {n m : Nat} (hn : n ≤ maxWord64) (hm : m ≤ maxWord64) (h : n ≠ m) :
    newId n ≠ newId m := by
  intro same
  have := newIdReads hn
  rw [same,newIdReads hm] at this
  exact h (Option.some.inj this).symm

/-- What a replica keeps about ids: they are distinct within a list of records, and the counter is
above every number in one. Loading establishes it (`loadedSound`). The counter is a word of 64 bits, so
what is said of a run assumes that it ends within `maxWord64`. -/
structure Sound (d : Replica) : Prop where
  distinct : ∀ path rs, d.facilities.get? path = some (.items rs) → (ids rs).Nodup
  below : ∀ path rs, d.facilities.get? path = some (.items rs) →
    ∀ r ∈ rs, ∀ id ∈ r.id, ∀ n ∈ idNumber? id, n < d.nextId

def Identified (d : Replica) : Prop :=
  ∀ path rs, d.facilities.get? path = some (.items rs) → ∀ r ∈ rs, r.id.isSome

theorem Identified.ofEntries {d : Replica}
    (h : ∀ path rs, (path,.items rs) ∈ d.facilities.toList → ∀ r ∈ rs, r.id.isSome) : d.Identified :=
  fun path rs found => h path rs (Entries.getMem.mp found)

theorem Identified.records {d : Replica} (h : d.Identified) {path : FacilityPath}
    (several : d.HasItems path) : ∀ r ∈ d.records path, r.id.isSome := by
  unfold Replica.records
  split
  · rename_i rs found; exact h _ rs found
  · rename_i r found; exact absurd found (several r)
  · simp

theorem Sound.ofEntries {d : Replica}
    (h : ∀ path rs, (path,.items rs) ∈ d.facilities.toList →
      (ids rs).Nodup ∧ ∀ r ∈ rs, ∀ id ∈ r.id, ∀ n ∈ idNumber? id, n < d.nextId) : d.Sound :=
  ⟨fun path rs found => (h path rs (Entries.getMem.mp found)).1,
    fun path rs found => (h path rs (Entries.getMem.mp found)).2⟩

theorem Sound.records {d : Replica} (h : d.Sound) (path : FacilityPath) : (ids (d.records path)).Nodup := by
  unfold Replica.records
  split
  · rename_i rs found; exact h.distinct _ rs found
  · simp [ids]
  · simp [ids]

theorem Sound.unused {d : Replica} (h : d.Sound) {path : FacilityPath}
    (several : d.HasItems path) {n : Nat}
    (later : d.nextId ≤ n) (word : n ≤ maxWord64) : some (newId n) ∉ ids (d.records path) := by
  intro mem
  obtain ⟨r,hr,named⟩ := List.mem_map.mp mem
  unfold Replica.records at hr
  split at hr
  · rename_i rs found
    have := h.below _ rs found r hr (newId n) named n (newIdReads word)
    omega
  · rename_i single found
    exact several single found
  · cases hr

end Replica
end RouterReconciler
