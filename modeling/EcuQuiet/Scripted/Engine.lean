import EcuQuiet.Query

/-!
# Scripted engines

An engine that gives prepared results, one for each query, and no answers after the last of them.
It uses neither bus nor clock: all it changes is its place in the script, which it keeps beside
whatever world it runs in.
-/

namespace EcuQuiet.Scripted

/-- A world beside the results that an engine still has to give. -/
structure Prepared (σ : Type) where
  world : σ
  results : List (Except DiagnosticError Answers)

/-- Gives the next prepared result. -/
def engine {σ : Type} : Engine (Prepared σ) := fun _ w =>
  match w.world.results with
  | [] => some (.ok .empty, w)
  | result :: results => some (result, { w with world := { w.world with results } })

/-- The link of the world beside the script. -/
def link {σ : Type} (link : Link σ) : Link (Prepared σ) where
  now p :=
    let (t, world) := link.now p.world
    (t, { p with world })
  sleep d p := { p with world := link.sleep d p.world }
  receive p :=
    let reply := link.receive p.world
    { result := reply.result, world := { p with world := reply.world }, notes := reply.notes }
  send frames p :=
    let reply := link.send frames p.world
    { result := reply.result, world := { p with world := reply.world }, notes := reply.notes }

end EcuQuiet.Scripted
