import Graphwright.Files.Generated
import Mathlib.Data.List.Nodup

/-!
# Files of one run

The check for collisions passes exactly if no two files have the same path.
-/
namespace Graphwright.GeneratedFile

/-- Where a file is, as the check compares it. -/
def place (file : GeneratedFile) : List Path.Part := Path.parts file.path

theorem checkAgainst_ok {seen files : List GeneratedFile} :
    checkAgainst seen files = .ok () ↔
      (files.map place).Nodup ∧ ∀ file ∈ files, ∀ other ∈ seen, other.place ≠ file.place := by
  induction files generalizing seen with
  | nil => simp [checkAgainst]
  | cons file files ih =>
      simp only [checkAgainst]
      split
      · rename_i other hother
        have hsame := List.find?_some hother
        simp only [decide_eq_true_eq] at hsame
        constructor
        · intro h; cases h
        · rintro ⟨_, h⟩
          exact absurd hsame (h file List.mem_cons_self other (List.mem_of_find?_eq_some hother))
      · rename_i hnone
        have hfresh : ∀ other ∈ seen, other.place ≠ file.place := by
          intro other hother
          simpa [place] using List.find?_eq_none.mp hnone other hother
        rw [ih, List.map_cons, List.nodup_cons]
        constructor
        · rintro ⟨hnodup, h⟩
          refine ⟨⟨fun hin => ?_, hnodup⟩, ?_⟩
          · obtain ⟨later, hlater, e⟩ := List.mem_map.mp hin
            exact h later hlater file List.mem_cons_self e.symm
          · intro later hlater other hother
            rcases List.mem_cons.mp hlater with rfl | hlater
            · exact hfresh other hother
            · exact h later hlater other (List.mem_cons_of_mem _ hother)
        · rintro ⟨⟨hnotin, hnodup⟩, h⟩
          refine ⟨hnodup, fun later hlater other hother => ?_⟩
          rcases List.mem_cons.mp hother with rfl | hother
          · exact fun e => hnotin (List.mem_map.mpr ⟨later, hlater, e.symm⟩)
          · exact h later (List.mem_cons_of_mem _ hlater) other hother

theorem checkCollisions_ok {files : List GeneratedFile} :
    checkCollisions files = .ok () ↔ (files.map place).Nodup := by
  rw [checkCollisions, checkAgainst_ok]
  simp

end Graphwright.GeneratedFile
