import SolidScript.Proofs.Evaluation.Discipline

/-!
# Scopes do not dangle

Whatever is suspended, the frames that are alive are those of the blocks in progress, and each lies
inside one that is alive as well. To be run in live frames only is a discipline.
-/

namespace SolidScript

open Scopes (Kept)

lemma discipline_liveIn : Discipline Visit.Sound fun ctx _ => ctx.LiveIn where
  undemanding _ hv _ := hv
  live h := h
  keep h := h.keep
  run h := h.sound.visit h.frame_mem _
  bind h _ _ := h.write _ _
  skip h _ := h
  start h _ hb := h.start hb

namespace Evaluation

/-- No scopes dangle. After any number of pulls the parent of every live frame is alive. All along,
every frame that was looked up from, bound in, enclosed or run in was alive, no frame around it was
missing, and so nothing that was bound got lost and nothing that there was around was not found. -/
theorem no_dangling_scopes (env : Environment) (program : Program) (k : Nat) :
    let w := ((start env program).after k).world
    (∀ id f parent, Arena.get? w.scopes id = some f → f.parent = some parent →
        (Arena.get? w.scopes parent).isSome) ∧
      ∀ v, w.visits v → v.Sound := by
  obtain ⟨hsound, hvisits⟩ := discipline_liveIn.after (liveIn_start env program) k
  refine ⟨fun id f parent hf hparent => ?_, hvisits⟩
  exact (hsound.isSome_iff parent).mpr (hsound.parent_mem hf hparent)

/-- An environment without anything built in. -/
def bareEnvironment : Environment := ⟨{}, ⟨{}, ⟨"", []⟩⟩⟩

/-- A module that asks for its children, and an invocation whose body binds a variable. -/
def askingProgram : Program :=
  [.defineModule .start ⟨"m", [], [.invoke .start "children" [] []]⟩,
    .invoke .start "m" [] [.assign .start "x" (.bool .start true)]]

/-- The body of the invocation is run while the module asks for it, in a frame inside that of the
caller. -/
theorem no_dangling_scopes_asking :
    ∃ v, ((start bareEnvironment askingProgram).after 1).world.visits v ∧
    v.use = .write (.values [("x", .bool true)]) ∧ v.Sound := by
  have hvisits : ((start bareEnvironment askingProgram).after 1).world.visits
      ⟨_, _, .write (.values [("x", .bool true)])⟩ := .inr (.inl rfl)
  exact ⟨_, hvisits, rfl, (no_dangling_scopes bareEnvironment askingProgram 1).2 _ hvisits⟩

end Evaluation

end SolidScript
