import Canopy.Proofs.Program.Decoded
import Canopy.Proofs.Render.Growth
import Canopy.Render.Root

/-!
# Sessions

A renderer is driven through three calls: render a tree, or nothing, into a container; deliver
an event to a target under a container; flush the update queue. A session is a sequence of
calls. A call that fails keeps what it did before its error, and the next call starts from the
renderer it left (`Renderer.after`).

`Renderer.Reaches r₀ r` says that a session of calls that render only decoded programs leads
from `r₀` to `r`, each call succeeding or failing; `Renderer.ReachesOk r₀ r` says it of a
session whose calls all succeed. A property of `r₀` that every such call keeps holds at every
state a session reaches (`Reaches.invariant`, `ReachesOk.invariant`).
-/

namespace Canopy

/-- A call of the renderer's interface. -/
inductive Call where
  /-- Render a numbered program with props into a container, or unmount it with `none`. -/
  | render (tree : Option (Nat × Program × Value)) (container : NodeId)
  /-- Deliver an event with a detail to a target under a container. -/
  | dispatch (container target : NodeId) (name : String) (detail : Value)
  /-- Flush the update queue. -/
  | flush

namespace Call

/-- What a call runs. -/
def run : Call → RenderM Unit
  | .render tree c => Renderer.render tree c
  | .dispatch c target name detail => (Renderer.dispatch c target name detail).map fun _ => ()
  | .flush => Pass.flush

/-- The program a call renders, if it renders one. -/
def program? : Call → Option Program
  | .render (some (_, p, _)) _ => some p
  | _ => none

/-- A call renders only a program that decoding a word list produced. -/
def Decoded (call : Call) : Prop :=
  ∀ p ∈ call.program?, ∃ ws, Program.decode ws = .ok p

theorem Decoded.wellFormed {call : Call} (h : call.Decoded) {p : Program}
    (hp : call.program? = some p) : p.WellFormed := by
  obtain ⟨ws, hws⟩ := h p hp
  exact Program.decode_wellFormed hws

end Call

/-- A document of one `div` container, the node `0`. -/
def Document.oneContainer : Document :=
  ((default : Document).createContainer "div").2

namespace Renderer

/-- A renderer that has mounted nothing, created no instance and queued nothing, over a
document, with options and procedures. -/
def init (config : Config) (document : Document) (procs : Procedures) : Renderer :=
  { config, document, procs }

/-- The renderer a call leaves, whether it succeeds or fails. -/
def after (r : Renderer) (call : Call) : Renderer :=
  RenderM.finalRenderer (call.run.run r)

/-- The states a session of calls that render only decoded programs reaches from `r₀`, each
call succeeding or failing. -/
inductive Reaches (r₀ : Renderer) : Renderer → Prop
  | start : Reaches r₀ r₀
  | call {r : Renderer} {c : Call} : Reaches r₀ r → c.Decoded → Reaches r₀ (r.after c)

/-- The states a session of successful calls that render only decoded programs reaches from
`r₀`. -/
inductive ReachesOk (r₀ : Renderer) : Renderer → Prop
  | start : ReachesOk r₀ r₀
  | call {r r' : Renderer} {c : Call} : ReachesOk r₀ r → c.Decoded → c.run.run r = .ok () r' →
      ReachesOk r₀ r'

variable {r₀ r : Renderer}

theorem after_of_ok {c : Call} {r' : Renderer} (h : c.run.run r = .ok () r') : r.after c = r' := by
  simp [after, h, RenderM.finalRenderer]

theorem ReachesOk.reaches (h : r₀.ReachesOk r) : r₀.Reaches r := by
  induction h with
  | start => exact .start
  | call _ hc hrun ih => exact after_of_ok hrun ▸ ih.call hc

/-- What holds at the start of a session and after every call from a state where it holds,
holds at every state the session reaches. -/
theorem Reaches.invariant {I : Renderer → Prop} (h₀ : I r₀)
    (hstep : ∀ r (c : Call), I r → c.Decoded → I (r.after c)) (h : r₀.Reaches r) : I r := by
  induction h with
  | start => exact h₀
  | call _ hc ih => exact hstep _ _ ih hc

/-- What holds at the start of a session of successful calls and after every successful call
from a state where it holds, holds at every state the session reaches. -/
theorem ReachesOk.invariant {I : Renderer → Prop} (h₀ : I r₀)
    (hstep : ∀ r r' (c : Call), I r → c.Decoded → c.run.run r = .ok () r' → I r')
    (h : r₀.ReachesOk r) : I r := by
  induction h with
  | start => exact h₀
  | call _ hc hrun ih => exact hstep _ _ _ ih hc hrun

end Renderer

end Canopy
