import Mathlib
import SolidScript.Proofs.Evaluation.Resolution
import SolidScript.Proofs.Machine.Nest
import SolidScript.Rendering

/-!
# Programs inside a union

To put a whole program into the body of a union changes nothing but when its geometry arises. The
program is run in a block inside an empty frame, so it does the same, and what it yields is
collected and joined as the geometry of a whole program is.
-/

namespace SolidScript

open SolidScript.Geometry Environment

open Machine (StepsTo running failing)

/-! ## Joining -/

/-- Where geometry is joined matters to the error alone. -/
lemma Geometry.reduce_site (site site' : CallSite)
    (join : Geometry Float → Geometry Float → Geometry Float) (gs : List (Geometry Float)) :
    reduce site' join gs =
      match reduce site join gs with
      | .ok joined => .ok joined
      | .error _ => .error site'.dimensionMismatch := by
  cases gs with
  | nil => rfl
  | cons first rest =>
    induction rest generalizing first with
    | nil => rfl
    | cons next rest ih =>
      rw [reduce, reduce, List.foldlM_cons, List.foldlM_cons]
      split
      · exact ih (join first next)
      · rfl

/-- Nothing results from nothing, and only from that. -/
lemma Geometry.reduce_eq_none {site : CallSite}
    {join : Geometry Float → Geometry Float → Geometry Float} {gs : List (Geometry Float)} :
    reduce site join gs = .ok none ↔ gs = [] := by
  cases gs with
  | nil => exact iff_of_true rfl rfl
  | cons first rest =>
    refine iff_of_false (fun h => ?_) (List.cons_ne_nil _ _)
    have hsome (x : Except RuntimeError (Geometry Float)) : some <$> x ≠ .ok none := by
      rcases x with e | g <;> rintro ⟨⟩
    exact hsome _ h

lemma Plan.joined_ok (site : CallSite) (join : Geometry Float → Geometry Float → Geometry Float)
    (gs : List (Geometry Float)) : Plan.joined site join .ok gs = reduce site join gs := by
  unfold Plan.joined
  rcases reduce site join gs with e | _ | g <;> rfl

variable {program : Program}

namespace Machine

variable {env : Environment}

/-- A machine comes to one end. -/
lemma StepsTo.eq_of_ends {m a b : Machine} (ha : StepsTo env m a) (hb : StepsTo env m b)
    (hends : ∀ m', a.move env ≠ .step m') (hends' : ∀ m', b.move env ≠ .step m') : a = b := by
  induction ha using Relation.ReflTransGen.head_induction_on with
  | refl =>
    rcases Relation.ReflTransGen.cases_head hb with rfl | ⟨m', hstep, -⟩
    · rfl
    · exact absurd hstep (hends m')
  | @head m m₁ hstep _ ih =>
    rcases Relation.ReflTransGen.cases_head hb with rfl | ⟨m₂, hstep', hrest⟩
    · exact absurd hstep (hends' m₁)
    · rw [hstep] at hstep'
      cases hstep'
      exact ih hrest

/-- The machine that runs a program and collects what it yields, whatever else is being
collected. -/
def collecting (program : Program) (cs : List (List (Geometry Float))) : Machine :=
  { Machine.start program with collected := [] :: cs }

/-- The machine that has come to an end: all that was yielded is collected, or it has failed. -/
def ended (w : World) (cs : List (List (Geometry Float))) :
    Except RuntimeError (List (Geometry Float)) → Machine
  | .ok gs => running w [] [] (gs :: cs)
  | .error e => failing w [] e

/-- The machine comes to where the evaluation ends. -/
lemma steps_finish (env : Environment) (program : Program) (cs : List (List (Geometry Float))) :
    ∃ w : World, w.log = (Evaluation.start env program).finish.2 ∧
      StepsTo env (collecting program cs)
        (ended w cs (Evaluation.start env program).finish.1) := by
  let e : Evaluation := Evaluation.start env program
  have hcollect := (traced_start env program ([] :: cs)).drain
  unfold Evaluation.finish Stream.drain
  rcases hr : (e.rest e.world).drain with ⟨err | gs, w⟩
  · rw [hr] at hcollect
    exact ⟨w, rfl, hcollect⟩
  · rw [hr] at hcollect
    exact ⟨w, rfl, hcollect.2⟩

/-- Where the machine comes to an end, so does the evaluation. -/
lemma finish_of_steps {w : World} {r : Except RuntimeError (List (Geometry Float))}
    (h : StepsTo env (collecting program []) (ended w [] r)) :
    (Evaluation.start env program).finish = (r, w.log) := by
  have hends (w : World) (r : Except RuntimeError (List (Geometry Float))) (m : Machine) :
      (ended w [] r).move env ≠ .step m := by
    cases r <;> nofun
  obtain ⟨w', hlog, hsteps⟩ := steps_finish env program []
  have heq := hsteps.eq_of_ends h (hends w' _) (hends w r)
  generalize (Evaluation.start env program).finish = result at hlog heq ⊢
  obtain ⟨r', log⟩ := result
  cases r <;> cases r' <;> cases heq <;> exact congrArg (_, ·) hlog.symm

/-- What is left to do behind the body of a union. -/
def behindUnion (host : Host) (pos : Position) : List Task :=
  [.fold ⟨"union", pos⟩ (Geometry.union · · host.settings.smoothing.union) .ok,
    .block ⟨.outermost, []⟩ [], .leave .outermost none]

/-- A union comes to run its body in a block inside the empty frame. -/
lemma steps_union (host : Host) (program : Program) (hprogram : program ≠ []) (pos : Position)
    (cs : List (List (Geometry Float))) :
    ∃ before, StepsTo ⟨.standard, host⟩ (collecting [.invoke pos "union" [] program] cs)
      ((Image.nest before (behindUnion host pos)).machine (collecting program ([] :: cs))) := by
  obtain ⟨stmt, rest, rfl⟩ := List.exists_cons_of_ne_nil hprogram
  let env : Environment := ⟨.standard, host⟩
  let begun : Machine :=
    (fun m => (m.move env).next)^[2] (collecting [.invoke pos "union" [] (stmt :: rest)] cs)
  have hsteps : StepsTo env (collecting [.invoke pos "union" [] (stmt :: rest)] cs) begun :=
    .head rfl (.single rfl)
  let nested : World := (World.openBlock {} none).2.nest begun.world.visits
  -- before the body begins, the program itself has made no use of a frame
  have hvisits : begun.world.visits = nested.visits := by
    funext v
    exact propext ⟨.inl, fun h => h.resolve_right fun ⟨_, hu, _⟩ => hu⟩
  have hbegun : begun = { begun with world := { nested with visits := begun.world.visits } } := by
    rfl
  rw [hvisits] at hbegun
  refine ⟨begun.world.visits, ?_⟩
  rw [hbegun] at hsteps
  exact hsteps

/-- What has been collected is joined, and the union is over. -/
lemma steps_behindUnion (host : Host) (pos : Position) (w : World) (gs : List (Geometry Float))
    (cs : List (List (Geometry Float))) :
    ∃ w' : World, w'.log = w.log ∧
      StepsTo ⟨.standard, host⟩ (running w (behindUnion host pos) [] (gs :: [] :: cs))
        (ended w' cs ((reduce ⟨"union", pos⟩ (union · · host.settings.smoothing.union) gs).map
          Option.toList)) := by
  let env : Environment := ⟨.standard, host⟩
  let join : Geometry Float → Geometry Float → Geometry Float :=
    (union · · host.settings.smoothing.union)
  let rest : List Task := [.block ⟨.outermost, []⟩ [], .leave .outermost none]
  have hfold : StepsTo env (running w (behindUnion host pos) [] (gs :: [] :: cs))
      ((running w rest [] ([] :: cs)).settle (reduce ⟨"union", pos⟩ join gs)) := by
    refine .single ?_
    rw [← Plan.joined_ok]
    rfl
  refine ⟨w.leave .outermost none, rfl, ?_⟩
  show StepsTo env _ (ended _ cs ((reduce ⟨"union", pos⟩ join gs).map Option.toList))
  generalize reduce ⟨"union", pos⟩ join gs = joined at hfold ⊢
  rcases joined with e | _ | g
  · exact hfold.trans (.head rfl (.single rfl))
  · exact hfold.trans (.head rfl (.single rfl))
  · exact hfold.trans (.head rfl (.head rfl (.head rfl (.single rfl))))

end Machine

/-- A text is rendered by uniting what its program yields. -/
lemma Environment.render_of_compile {env : Environment} {source : String}
    (h : env.compile source = .ok program) :
    env.render source =
      (((Evaluation.start env program).finish.1.mapError .evaluating).bind fun gs =>
        (reduce root (union · · env.host.settings.smoothing.union) gs).mapError .uniting,
        (Evaluation.start env program).finish.2) := by
  unfold render evaluate
  rw [h]

namespace Evaluation

open Machine (collecting steps_finish steps_union steps_behindUnion finish_of_steps)

/-- What a union makes of a program that has been run to the end. -/
def united (host : Host) (pos : Position) :
    Except RuntimeError (List (Geometry Float)) → Except RuntimeError (List (Geometry Float))
  | .error e => .error e
  | .ok gs =>
    (Geometry.reduce ⟨"union", pos⟩ (Geometry.union · · host.settings.smoothing.union) gs).map
      Option.toList

lemma finish_union_of_ne_nil (host : Host) (hprogram : program ≠ []) (pos : Position) :
    (start ⟨.standard, host⟩ [.invoke pos "union" [] program]).finish =
      (united host pos (start ⟨.standard, host⟩ program).finish.1,
      (start ⟨.standard, host⟩ program).finish.2) := by
  let env : Environment := ⟨.standard, host⟩
  obtain ⟨before, hbegun⟩ := steps_union host program hprogram pos []
  have hfits : (collecting program [[]]).Fits env fun _ => True := Machine.fits_start env _ program
  -- the body runs as the program does by itself
  have hnested {m : Machine} (hsteps : StepsTo env (collecting program [[]]) m) :
      StepsTo env (collecting [.invoke pos "union" [] program] [])
        ((Image.nest before (Machine.behindUnion host pos)).machine m) :=
    hbegun.trans (Image.steps_nest (raises_any env) hfits hsteps)
  obtain ⟨w, hlog, hsteps⟩ := steps_finish env program [[]]
  have hbefore := hnested hsteps
  show _ = (united host pos (start env program).finish.1, (start env program).finish.2)
  rw [← hlog]
  generalize (start env program).finish.1 = result at hbefore ⊢
  cases result with
  | error e =>
    let w' : World := (w.nest before).leave .outermost none
    have hend : StepsTo env ((Image.nest before (Machine.behindUnion host pos)).machine
        (failing w [] e)) (failing w' [] e) :=
      .head rfl (.head rfl (.single rfl))
    have hfailed : (start env _).finish = (.error e, w'.log) := finish_of_steps (hbefore.trans hend)
    exact hfailed
  | ok gs =>
    obtain ⟨w', hlog', hend⟩ := steps_behindUnion host pos (w.nest before) gs []
    have hlog' : w'.log = w.log := hlog'
    rw [← hlog']
    exact finish_of_steps (hbefore.trans hend)

lemma united_ok (host : Host) (pos : Position) (gs : List (Geometry Float)) :
    united host pos (.ok gs) =
      match reduce root (union · · host.settings.smoothing.union) gs with
      | .ok joined => .ok joined.toList
      | .error _ => .error ⟨.dimensionMismatch "union", some pos⟩ := by
  rw [united, reduce_site root]
  cases reduce root (union · · host.settings.smoothing.union) gs <;> rfl

/-- A union fails where the program fails, gives nothing where it yields nothing, and joins what it
yields otherwise. -/
lemma united_cases (host : Host) (pos : Position)
    (result : Except RuntimeError (List (Geometry Float))) : match result with
    | .error e => united host pos result = .error e
    | .ok gs =>
      match reduce root (union · · host.settings.smoothing.union) gs with
      | .ok none => gs = [] ∧ united host pos result = .ok []
      | .ok (some g) => united host pos result = .ok [g]
      | .error _ => united host pos result = .error ⟨.dimensionMismatch "union", some pos⟩ := by
  cases result with
  | error e => rfl
  | ok gs =>
    have hunited := united_ok host pos gs
    have hnone : reduce root (union · · host.settings.smoothing.union) gs = .ok none → gs = [] :=
      reduce_eq_none.mp
    dsimp only
    generalize reduce root (union · · host.settings.smoothing.union) gs = joined at hunited hnone ⊢
    rcases joined with e | _ | g
    · exact hunited
    · exact ⟨hnone rfl, hunited⟩
    · exact hunited

/-- A union gives what a text with the same geometry is rendered as. -/
lemma united_of_render (host : Host) (pos : Position)
    (result : Except RuntimeError (List (Geometry Float))) :
    match (result.mapError RenderError.evaluating).bind fun gs =>
      (reduce root (union · · host.settings.smoothing.union) gs).mapError .uniting with
    | .ok joined => united host pos result = .ok joined.toList
    | .error (.evaluating e) => united host pos result = .error e
    | .error (.uniting _) => united host pos result = .error ⟨.dimensionMismatch "union", some pos⟩
    | .error _ => False := by
  cases result with
  | error e => rfl
  | ok gs =>
    dsimp only [Except.mapError, Except.bind]
    rw [united_ok]
    cases reduce root (union · · host.settings.smoothing.union) gs <;> rfl

/-- A union does to a program what it does to the geometry that the program yields by itself. -/
lemma finish_union_eq (host : Host) (program : Program) (pos : Position) :
    (start ⟨.standard, host⟩ [.invoke pos "union" [] program]).finish =
      (united host pos (start ⟨.standard, host⟩ program).finish.1,
      (start ⟨.standard, host⟩ program).finish.2) := by
  by_cases hprogram : program = []
  · subst hprogram
    rfl
  · exact finish_union_of_ne_nil host hprogram pos

/-- To put a whole program into the body of a union changes nothing. What is reported is the same.
If the program fails by itself, it fails with the same error. Otherwise its geometry is united as
that of a whole program is: nothing results from nothing, and the union fails where geometry of both
dimensions would have to be joined. -/
theorem finish_union (host : Host) (program : Program) (pos : Position) :
    let env : Environment := ⟨.standard, host⟩
    let alone := (start env program).finish
    let wrapped := (start env [.invoke pos "union" [] program]).finish
    wrapped.2 = alone.2 ∧
      (match alone.1 with
        | .error e => wrapped.1 = .error e
        | .ok gs =>
          match Geometry.reduce Environment.root (Geometry.union · · host.settings.smoothing.union)
            gs with
          | .ok none => gs = [] ∧ wrapped.1 = .ok []
          | .ok (some g) => wrapped.1 = .ok [g]
          | .error _ => wrapped.1 = .error ⟨.dimensionMismatch "union", some pos⟩) ∧
      ∀ source, env.compile source = .ok program →
        (env.render source).2 = wrapped.2 ∧
          match (env.render source).1 with
          | .ok joined => wrapped.1 = .ok joined.toList
          | .error (.evaluating e) => wrapped.1 = .error e
          | .error (.uniting _) => wrapped.1 = .error ⟨.dimensionMismatch "union", some pos⟩
          | .error _ => False := by
  intro env alone wrapped
  have hwrapped : wrapped = (united host pos alone.1, alone.2) := finish_union_eq host program pos
  refine ⟨?_, ?_, fun source hsource => ?_⟩
  · rw [hwrapped]
  · rw [hwrapped]
    exact united_cases host pos alone.1
  · rw [Environment.render_of_compile hsource, hwrapped]
    exact ⟨rfl, united_of_render host pos alone.1⟩

/-- A sphere and a disc cannot be joined, within a union or without. -/
theorem finish_union_mixed : ∃ program,
    plainEnvironment.compile "sphere(); circle();" = .ok program ∧
      (plainEnvironment.render "sphere(); circle();").2 =
        (start plainEnvironment [.invoke .start "union" [] program]).finish.2 ∧
      (start plainEnvironment [.invoke .start "union" [] program]).finish.1 =
        .error ⟨.dimensionMismatch "union", some .start⟩ := by
  obtain ⟨tree, program, hparse, hof, hyields⟩ : ∃ tree program,
      Grammar.parse "sphere(); circle();" = .ok tree ∧
      Program.ofTree (plainEnvironment.registry.functions.map (·.1)) tree = (.ok program, #[]) ∧
      (start plainEnvironment program).finish.1 = .ok [.sphere 1.0, .circle 1.0] := by
    refine ⟨?t, ?p, ?h, ?k, ?y⟩
    case h =>
      cbv
      rfl
    case k => rfl
    case y => rfl
  have hcompile : plainEnvironment.compile "sphere(); circle();" = .ok program := by
    rw [Environment.compile, hparse]
    show (Program.ofTree _ tree).1.mapError _ = _
    rw [hof]
    rfl
  obtain ⟨-, hunited, hrender⟩ := finish_union plainEnvironment.host program .start
  refine ⟨program, hcompile, (hrender _ hcompile).1, ?_⟩
  have hunited :
      match (start plainEnvironment program).finish.1 with
      | .error e => _
      | .ok gs => _ := hunited
  rw [hyields] at hunited
  exact hunited

end Evaluation

end SolidScript
