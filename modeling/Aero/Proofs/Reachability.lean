import Aero.Proofs.Dominance
import Mathlib.Data.List.Sort

/-!
Reachability. The search takes one identifier off at a time and puts on, for each block that it sees
for the first time, as many as the block has branches: the number of branches is fuel enough for it
to come to an end, and what it has seen then is closed under branches.
-/

namespace Aero.IR.Function

open List

open Relation (ReflTransGen)

variable {f : Function} {fuel : Nat} {pending seen : List BlockId} {id : BlockId}

/-- Some block of an identifier branches to another. -/
def Branches (f : Function) (source target : BlockId) : Prop :=
  ∃ b ∈ f.blocks, b.id = source ∧ target ∈ b.successors

/-- The number of branches of the blocks that the search has not seen. -/
def unexplored (f : Function) (seen : List BlockId) : Nat :=
  ((f.blocks.filter (·.id ∉ seen)).flatMap Block.successors).length

theorem unexplored_cons (hid : id ∉ seen) :
    f.unexplored (id :: seen) + (f.successors id).length = f.unexplored seen := by
  unfold unexplored successors
  induction f.blocks with
  | nil => rfl
  | cons b blocks ih =>
    by_cases hb : b.id = id
    · simp [hb, hid] at ih ⊢
      omega
    · by_cases hseen : b.id ∈ seen <;> simp [hb, hseen] at ih ⊢ <;> omega

theorem unexplored_step (hid : id ∉ seen) (h : (id :: pending).length + f.unexplored seen ≤ fuel + 1) :
    (f.successors id ++ pending).length + f.unexplored (id :: seen) ≤ fuel := by
  have hcons := f.unexplored_cons hid
  simp only [length_append, length_cons] at h ⊢
  omega

/-- With fuel for what is left, more of it changes nothing: the search has come to an end. -/
theorem explore_more (more : Nat) (h : pending.length + f.unexplored seen ≤ fuel) :
    f.explore (fuel + more) pending seen = f.explore fuel pending seen := by
  induction fuel generalizing pending seen with
  | zero =>
    obtain rfl : pending = [] := length_eq_zero_iff.mp (by omega)
    cases more <;> rfl
  | succ fuel ih =>
    rw [Nat.succ_add]
    cases pending with
    | nil => rfl
    | cons id pending =>
      simp only [explore, contains_iff_mem]
      split
      · next hid => exact ih (by simp only [length_cons] at h; omega)
      · next hid => exact ih (unexplored_step hid h)

theorem explore_sound (h : id ∈ f.explore fuel pending seen) :
    id ∈ seen ∨ ∃ start ∈ pending, ReflTransGen f.Branches start id := by
  fun_induction explore f fuel pending seen with
  | case1 => exact .inl h
  | case2 => exact .inl h
  | case3 _ start pending seen _ ih =>
    obtain hseen | ⟨other, hother, hpath⟩ := ih h
    · exact .inl hseen
    · exact .inr ⟨other, mem_cons_of_mem _ hother, hpath⟩
  | case4 _ start pending seen _ ih =>
    obtain hseen | ⟨other, hother, hpath⟩ := ih h
    · obtain rfl | hseen := mem_cons.mp hseen
      · exact .inr ⟨id, mem_cons_self, .refl⟩
      · exact .inl hseen
    · obtain hnext | hother := mem_append.mp hother
      · exact .inr ⟨start, mem_cons_self, .head (mem_successors.mp hnext) hpath⟩
      · exact .inr ⟨other, mem_cons_of_mem _ hother, hpath⟩

theorem explore_nodup (h : seen.Nodup) : (f.explore fuel pending seen).Nodup := by
  fun_induction explore f fuel pending seen with
  | case1 => exact h
  | case2 => exact h
  | case3 _ _ _ _ _ ih => exact ih h
  | case4 _ start pending seen hstart ih =>
    exact ih (nodup_cons.mpr ⟨fun hmem => hstart (contains_iff_mem.mpr hmem), h⟩)

/-- The search keeps what it has seen and looks at all that is pending; if the branches of what it
has seen are pending or seen, then so it is in the end, with nothing pending. -/
theorem explore_closed (h : pending.length + f.unexplored seen ≤ fuel)
    (hseen : ∀ a ∈ seen, ∀ b, f.Branches a b → b ∈ seen ∨ b ∈ pending) :
    (∀ a, a ∈ seen ∨ a ∈ pending → a ∈ f.explore fuel pending seen) ∧
      ∀ a ∈ f.explore fuel pending seen, ∀ b, f.Branches a b → b ∈ f.explore fuel pending seen := by
  fun_induction explore f fuel pending seen with
  | case1 pending seen =>
    obtain rfl : pending = [] := length_eq_zero_iff.mp (by omega)
    simpa using hseen
  | case2 => simpa using hseen
  | case3 fuel start pending seen hstart ih =>
    have hstart : start ∈ seen := contains_iff_mem.mp hstart
    obtain ⟨hkept, hclosed⟩ := ih (by simp only [length_cons] at h; omega) fun a ha b hb => by
      grind
    exact ⟨by grind, hclosed⟩
  | case4 fuel start pending seen hstart ih =>
    have hstart : start ∉ seen := fun hmem => hstart (contains_iff_mem.mpr hmem)
    obtain ⟨hkept, hclosed⟩ := ih (unexplored_step hstart h) fun a ha b hb => by
      obtain rfl | ha := mem_cons.mp ha
      · exact .inr (mem_append_left _ (mem_successors.mpr hb))
      · grind
    exact ⟨by grind, hclosed⟩

/-- The search is fuelled for the entry, with nothing seen. -/
theorem fuel_entry (f : Function) (entry : BlockId) : [entry].length + f.unexplored [] ≤ f.edgeCount + 1 := by
  simp [unexplored, edgeCount, Nat.add_comm]

theorem mem_reachable : id ∈ f.reachable ↔ ∃ entry, f.entry? = some entry ∧ ReflTransGen f.Branches entry id := by
  unfold reachable
  split
  · next hentry => simp [hentry]
  · next entry hentry =>
    obtain ⟨hkept, hclosed⟩ := explore_closed (f.fuel_entry entry) (by simp)
    rw [mem_mergeSort]
    constructor
    · intro hid
      obtain hid | ⟨start, hstart, hpath⟩ := explore_sound hid
      · cases hid
      · obtain rfl := mem_singleton.mp hstart
        exact ⟨start, hentry, hpath⟩
    · rintro ⟨start, hstart, hpath⟩
      obtain rfl : entry = start := Option.some.inj (hentry.symm.trans hstart)
      induction hpath with
      | refl => exact hkept entry (.inr (mem_singleton_self entry))
      | tail _ hnext ih => exact hclosed _ ih _ hnext

theorem reachable_sorted (f : Function) : f.reachable.Pairwise (· < ·) := by
  unfold reachable
  split
  · exact .nil
  · next entry _ =>
    have hnodup : (f.explore (f.edgeCount + 1) [entry] []).Nodup := explore_nodup nodup_nil
    have hsorted := pairwise_mergeSort' (· ≤ ·) (f.explore (f.edgeCount + 1) [entry] [])
    exact (hsorted.and ((mergeSort_perm _ _).nodup_iff.mpr hnodup)).imp fun h => lt_of_le_of_ne h.1 h.2

/-- The search comes to an end within as many steps as there are branches, and one more; it answers
with the blocks that branches lead to from the entry, each once and in increasing order. -/
theorem reachable_exact (f : Function) :
    (∀ id, id ∈ f.reachable ↔ ∃ entry, f.entry? = some entry ∧ ReflTransGen f.Branches entry id) ∧
      f.reachable.Pairwise (· < ·) ∧ (f.reachable = [] ↔ f.isDeclaration) ∧
      ∀ entry more, f.explore (f.edgeCount + 1 + more) [entry] [] = f.explore (f.edgeCount + 1) [entry] [] := by
  refine ⟨fun _ => mem_reachable, f.reachable_sorted, ?_, fun entry more => explore_more more (f.fuel_entry entry)⟩
  rw [List.eq_nil_iff_forall_not_mem, isDeclaration, List.isEmpty_iff]
  simp only [mem_reachable, entry?]
  cases hblocks : f.blocks with
  | nil => simp
  | cons b blocks => simpa using ⟨b.id, .refl⟩

end Aero.IR.Function
