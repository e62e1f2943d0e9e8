import EcuQuiet.Bus.Link

/-!
# A bounded number of readings

A link whose readings are counted and that stops reading the bus after a given number of them. From
then on every reading fails at once, as if the interface had timed out, and nothing reaches the
world behind it.
-/

namespace EcuQuiet

/-- A world with the number of readings it still allows. -/
structure Allowance (σ : Type) where
  world : σ
  left : Nat

/-- The link that reads only as long as readings are left. -/
def Link.limited {σ : Type} (link : Link σ) : Link (Allowance σ) where
  now a :=
    let (t, world) := link.now a.world
    (t, { a with world })
  sleep d a := { a with world := link.sleep d a.world }
  receive a :=
    match a.left with
    | 0 => { result := .error .readTimeout, world := a }
    | left + 1 =>
      let reply := link.receive a.world
      { result := reply.result, world := { world := reply.world, left }, notes := reply.notes }
  send frames a :=
    let reply := link.send frames a.world
    { result := reply.result, world := { a with world := reply.world }, notes := reply.notes }

end EcuQuiet
