import SolidScript.Proofs.Evaluation.Scoping
import SolidScript.Proofs.Machine.Reachable

/-!
# Names stay where they are bound

What a statement does to the frames that are alive: it makes the one binding that it stands for in
its own frame. Whatever else it runs, be it branches, rounds of a loop, the bodies of modules or of
invocations, binds in frames that are gone when it is over.
-/

namespace SolidScript

open SolidScript.Task

open Scopes (Kept)
open Machine (running)

/-- Run a statement where a context says. As many more calls may be in progress as the state leaves
room for. -/
def Context.run (env : Environment) (ctx : Context) (stmt : Statement) : Building := fun w =>
  let left := env.host.settings.maxDepth - w.depth
  let call := callFunction env left
  let enter := enterModule env left
  stmt.build env call enter (askChildren env call enter ctx.offers) ctx.offers ctx.frame
    (w.visit ctx.frame (.run stmt))

/-- The blocks in progress are those that the tasks are to end. -/
lemma Task.filterMap_stack (ts : List Task) :
    (stack ts).filterMap Activation.frame? = blocks ts := by
  induction ts with
  | nil => rfl
  | cons t K ih =>
    have hcons : stack (t :: K) = t.activations ++ stack K := rfl
    rw [hcons, List.filterMap_append, ih]
    cases t with
    | leave id c => cases c <;> rfl
    | _ => rfl

lemma Linked.caller_mem {s : Scopes} {blocks : List FrameId} {frame : FrameId} {offers : List Offer}
    (h : Linked s blocks frame offers) {offer : Offer} (hoffer : offer ∈ offers) :
    offer.caller ∈ blocks := by
  induction offers generalizing frame with
  | nil => exact absurd hoffer List.not_mem_nil
  | cons first outer ih =>
    rcases List.mem_cons.mp hoffer with rfl | hoffer
    · exact h.2.frame_mem
    · exact ih h.2 hoffer

/-- A context that goes together with tasks is alive. -/
lemma Context.Fits.liveIn {s : Scopes} {K : List Task} {ctx : Context} (h : ctx.Fits s K)
    (hs : s.Sound (blocks K)) : ctx.LiveIn s (blocks K) where
  sound := hs
  frame_mem := h.frame_mem
  caller_mem _ hoffer := h.linked.caller_mem hoffer
  offered _ hoffer := (h.linked.exists_frame hoffer).2

/-- A statement that is run in a live context has its effect on the scopes, or none at all if it
fails. While it waits, it has none either. -/
lemma Context.LiveIn.run_holds {ctx : Context} {w : World} (h : ctx.LiveIn w.scopes w.blocks)
    (env : Environment) (stmt : Statement) :
    (ctx.run env stmt w).Holds (fun w' => Kept none w.scopes w'.scopes)
      (fun w' => stmt.Effect ctx.frame w.scopes w'.scopes) fun _ w' =>
      Kept none w.scopes w'.scopes := by
  have hcall := Eval.SteadyIn.callFunction env (env.host.settings.maxDepth - w.depth)
  have henter := scoped_enter discipline_liveIn env (env.host.settings.maxDepth - w.depth)
  have hscoped := scoped_ask discipline_liveIn env hcall henter ctx.offers
  have hsafe : Building.Safe Visit.Sound none (stmt.Effect ctx.frame)
    (stmt.build env _ _ _ ctx.offers ctx.frame)
      (w.visit ctx.frame (.run stmt)) := hscoped.statement discipline_liveIn ctx.frame stmt [] _ h
  exact Run.Holds.mono (fun _ hw => hw.kept) (fun _ hw => hw.scopes) (fun _ _ hw => hw.scopes) hsafe

/-- The machine carries out the run of the statement whose turn it is. -/
lemma Context.traced_run {env : Environment} (ctx : Context) (stmt : Statement) (rest : Program)
    {w : World} (hlimit : w.depth ≤ env.host.settings.maxDepth) (K : List Task) (vs : List Value)
    (cs : List (List (Geometry Float))) :
    (ctx.run env stmt w).Traced env (.block ctx rest :: K) vs w.depth cs
      (running w (.block ctx (stmt :: rest) :: K) vs cs) := by
  have hcall := follows_callFunction env (env.host.settings.maxDepth - w.depth)
  have henter := follows_enter env (env.host.settings.maxDepth - w.depth)
  have hstatement := (follows_ask hcall henter ctx.offers).statement ctx.frame stmt
  have hdepth : w.depth + (env.host.settings.maxDepth - w.depth) = env.host.settings.maxDepth := by
    omega
  exact .head (.single rfl)
    (hstatement (w.visit ctx.frame (.run stmt)) (.block ctx rest :: K) vs cs hdepth)

namespace Evaluation

/-- Scopes do not leak. In every state that a program comes to, a statement that is run in a live
context to its end leaves every live frame where it is and with the names that it had, but for the
one binding that the statement stands for in its own frame; and where it fails or waits, every live
frame has the names that it had. The contexts in which a program runs its statements are live, and
it runs them so. -/
theorem scopes_do_not_leak (env : Environment) (program : Program) (m : Machine)
    (h : Machine.Reachable env program m) :
    (∀ (ctx : Context) (stmt : Statement), ctx.LiveIn m.world.scopes (blocks m.tasks) →
        (ctx.run env stmt m.world).Holds (fun w => Kept none m.world.scopes w.scopes)
          (fun w => stmt.Effect ctx.frame m.world.scopes w.scopes) fun _ w =>
          Kept none m.world.scopes w.scopes) ∧
      ∀ (ctx : Context) (stmt : Statement) (rest : Program) (K : List Task), m.error = none →
        m.tasks = .block ctx (stmt :: rest) :: K →
        ctx.LiveIn m.world.scopes (blocks m.tasks) ∧
          (ctx.run env stmt m.world).Traced env
          (.block ctx rest :: K) m.values m.world.depth m.collected m := by
  have hfits := h.fits (raises_any env)
  have hblocks : m.world.blocks = blocks m.tasks := by
    rw [World.blocks, hfits.stack, filterMap_stack]
  refine ⟨fun ctx stmt hlive => ?_, fun ctx stmt rest K herror htasks => ?_⟩
  · rw [← hblocks] at hlive
    exact hlive.run_holds env stmt
  · obtain ⟨w, vs, cs, rfl⟩ := Machine.eq_running herror htasks
    have hctx : ctx.Fits w.scopes K := hfits.fits.1
    have hsound : w.scopes.Sound (blocks K) := hfits.sound
    exact ⟨hctx.liveIn hsound, ctx.traced_run stmt rest hfits.limit K vs cs⟩

/-- A branch that is taken and binds a name. -/
def bindingBranch : Statement :=
  .branch .start (.bool .start true) [.assign .start "x" (.bool .start true)] []

/-- A variable, and the branch that binds the same name. -/
def rebindingProgram : Program := [.assign .start "x" (.bool .start false), bindingBranch]

/-- When the branch is over, the variable is what it was before. -/
theorem scopes_do_not_leak_branch :
    ∃ m ctx w, Machine.Reachable bareEnvironment rebindingProgram m ∧
    m.tasks = [.block ctx [bindingBranch], .leave ctx.frame none] ∧
    m.world.scopes.value? ctx.frame "x" = some (.bool false) ∧
    ctx.run bareEnvironment bindingBranch m.world = .done w ∧
      Kept none m.world.scopes w.scopes := by
  have hreachable : Machine.Reachable bareEnvironment rebindingProgram _ := .iterate .start 3
  obtain ⟨hholds, hlive⟩ := scopes_do_not_leak bareEnvironment rebindingProgram _ hreachable
  have heffect := hholds ⟨⟨0, 0⟩, []⟩ bindingBranch (hlive _ _ [] [.leave ⟨0, 0⟩ none] rfl rfl).1
  refine ⟨_, ⟨⟨0, 0⟩, []⟩, _, hreachable, rfl, rfl, rfl, ?_⟩
  -- a branch stands for no binding
  exact (heffect.resolve_left fun ⟨_, hbinds, _⟩ => hbinds).2

end Evaluation

end SolidScript
