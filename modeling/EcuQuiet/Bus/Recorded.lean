import EcuQuiet.Query

/-!
# Records of what was done

A recorded link or engine behaves like the one it is made of and writes down what it was used for,
in order. One record can hold the use of both, so that what was asked of an engine can be compared
with what passed over the bus.
-/

namespace EcuQuiet

/-- One use of an engine or of a link. -/
inductive Use
  /-- An engine is given a query; what it does follows. -/
  | asked (query : Query)
  /-- The engine has done with the query it was last given. -/
  | answered (result : Except DiagnosticError Answers)
  | read (time : Instant)
  | slept (span : Span)
  | received (result : Except BusError (List Frame))
  | sent (frames : List Frame) (result : Except BusError Unit)

/-- A world with a record. -/
structure Recorded (σ : Type) where
  world : σ
  uses : Array Use := #[]

namespace Recorded

variable {σ : Type}

/-- The queries of a record. -/
def queries (r : Recorded σ) : List Query :=
  r.uses.toList.filterMap fun
    | .asked q => some q
    | _ => none

/-- The world afterwards and one use more. -/
def add (r : Recorded σ) (world : σ) (use : Use) : Recorded σ :=
  { world, uses := r.uses.push use }

end Recorded

/-- The link that writes down every use. -/
def Link.recorded {σ : Type} (link : Link σ) : Link (Recorded σ) where
  now r :=
    let (t, world) := link.now r.world
    (t, r.add world (.read t))
  sleep d r := r.add (link.sleep d r.world) (.slept d)
  receive r :=
    let reply := link.receive r.world
    { result := reply.result, world := r.add reply.world (.received reply.result),
      notes := reply.notes }
  send frames r :=
    let reply := link.send frames r.world
    { result := reply.result, world := r.add reply.world (.sent frames reply.result),
      notes := reply.notes }

/-- An engine of the world behind the record; what it does there is not written down. -/
def Engine.unrecorded {σ : Type} (engine : Engine σ) : Engine (Recorded σ) := fun q w =>
  (engine q { world := w.world.world, notes := w.notes }).map fun (result, after) =>
    (result, { world := { w.world with world := after.world }, notes := after.notes })

/-- The engine that writes down every query before it is carried out, and its result after that. -/
def Engine.recorded {σ : Type} (engine : Engine (Recorded σ)) : Engine (Recorded σ) := fun q w =>
  (engine q { w with world := w.world.add w.world.world (.asked q) }).map fun (result, w) =>
    (result, { w with world := w.world.add w.world.world (.answered result) })

end EcuQuiet
