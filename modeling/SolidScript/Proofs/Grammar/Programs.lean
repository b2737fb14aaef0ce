import SolidScript.Grammar.Rules
import SolidScript.Proofs.Grammar.Parses

/-!
# Parsing programs

The grammar of programs is ranked, so a source text has a tree just if the rule for programs takes
it.
-/

namespace SolidScript.Grammar

/-- No rule of the grammar of programs is ever refused. -/
theorem ranked_programs : programs.Ranked := ⟨20, fun r => by cases r <;> decide⟩

/-- A source text has the tree that the rule for programs leaves. -/
theorem parse_eq_ok {source : String} {tree : Tree} :
    parse source = .ok tree ↔
    ∃ d, Parses programs false (.one (.rule .program)) (.start source.toList)
      (some (d, [tree])) := by
  unfold parse
  constructor
  · intro h
    split at h
    · rename_i t ts hparse
      cases h
      obtain ⟨d, hd⟩ := ranked_programs.parse_eq_ok.mp hparse
      refine ⟨d, ?_⟩
      -- a rule that leaves a node leaves no other
      have hts : ts = [] := by
        cases hd with
        | rule h => rfl
      rwa [hts] at hd
    · nomatch h
    · nomatch h
  · rintro ⟨d, hd⟩
    rw [ranked_programs.parse_eq_ok.mpr ⟨d, hd⟩]

end SolidScript.Grammar
