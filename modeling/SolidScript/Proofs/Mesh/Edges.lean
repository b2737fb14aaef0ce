import Mathlib.Data.UInt
import SolidScript.Mesh.Basic

/-!
# Closed meshes

`Mesh.isClosed` tallies the directed edges of the triangles. Here the tally is read back as a count
in the list of all edges, and a mesh turns out to be closed as soon as no directed edge is repeated
and each one occurs in both directions.
-/

namespace SolidScript
namespace Mesh

variable {S : Type}

/-- Tallying on top of other counts adds the number of occurrences. -/
lemma foldl_tally_getD (items : List (Nat × Nat)) (counts : Std.HashMap (Nat × Nat) UInt32)
    (e : Nat × Nat) :
    (items.foldl (fun counts e => counts.insert e (counts.getD e 0 + 1)) counts).getD e 0
      = counts.getD e 0 + UInt32.ofNat (items.count e) := by
  induction items generalizing counts with
  | nil => simp
  | cons a items ih =>
    rw [List.foldl_cons, ih, Std.HashMap.getD_insert]
    by_cases h : a = e
    · subst h
      rw [if_pos (beq_self_eq_true a), List.count_cons_self, UInt32.ofNat_add, UInt32.add_assoc,
        UInt32.add_comm 1]
      rfl
    · rw [if_neg (by simpa using h), List.count_cons_of_ne h]

/-- A tally holds the number of occurrences of each item, as far as it fits. -/
lemma tally_getD (items : List (Nat × Nat)) (e : Nat × Nat) :
    (tally items).getD e 0 = UInt32.ofNat (items.count e) := by
  unfold tally
  rw [foldl_tally_getD, Std.HashMap.getD_empty, UInt32.zero_add]

lemma ofNat_eq_one_iff (k : Nat) : UInt32.ofNat k = 1 ↔ k % 2 ^ 32 = 1 := by
  rw [← UInt32.toNat_inj, UInt32.toNat_ofNat']
  rfl

/-- Each edge in a list is counted once, and so is its reverse. -/
def Paired (es : List (Nat × Nat)) : Prop :=
  ∀ e ∈ es, es.count e % 2 ^ 32 = 1 ∧ es.count e.swap % 2 ^ 32 = 1

instance (es : List (Nat × Nat)) : Decidable (Paired es) :=
  inferInstanceAs (Decidable (∀ e ∈ es, _ ∧ _))

/-- The manifold check in terms of how often directed edges occur. -/
theorem isClosed_iff (m : Mesh S) : m.isClosed = true ↔ m.isEmpty = false ∧ Paired m.edges := by
  unfold isClosed Paired
  simp only [tally_getD, Bool.and_eq_true, Bool.not_eq_true', List.all_eq_true, beq_iff_eq,
    ofNat_eq_one_iff]
  rfl

/-- If no directed edge is repeated and all are paired, each one and its reverse occur once. -/
lemma count_eq_one_of_nodup {es : List (Nat × Nat)} (hnodup : es.Nodup)
    (hswap : ∀ e ∈ es, e.swap ∈ es) : ∀ e ∈ es, es.count e = 1 ∧ es.count e.swap = 1 := by
  intro e he
  exact ⟨List.count_eq_one_of_mem hnodup he, List.count_eq_one_of_mem hnodup (hswap e he)⟩

/-- A mesh with triangles is closed if each directed edge and its reverse occur once. -/
lemma isClosed_of_count (m : Mesh S) (hne : m.isEmpty = false)
    (hcount : ∀ e ∈ m.edges, m.edges.count e = 1 ∧ m.edges.count e.swap = 1) :
    m.isClosed = true := by
  refine (isClosed_iff m).mpr ⟨hne, fun e he => ?_⟩
  rw [(hcount e he).1, (hcount e he).2]
  decide

end Mesh
end SolidScript
