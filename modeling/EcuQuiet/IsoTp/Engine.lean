import EcuQuiet.IsoTp.Round

/-!
# Queries over frames

The engine keeps one conversation for each target and goes round until all of them are over. The
world is touched only to receive a batch, to read the clock, and to do what a round asks for, in
order; a frame that cannot be sent ends the query. Arguments that cannot work are refused before
the interface is touched at all.
-/

namespace EcuQuiet.IsoTp

/-- Does what conversations want done, in order, up to the first frame that cannot be sent. -/
def Output.perform {σ : Type} (link : Link σ) : List Output → Run σ Unit
  | [] => pure ()
  | .note event :: rest => do
    Run.note event
    perform link rest
  | .send frame :: rest => do
    link.transmit frame
    perform link rest

/-- Whether the transport can carry every request of a query. -/
def isSendable (q : Query) : Bool :=
  q.exchanges.all fun e => 1 ≤ e.request.length && e.request.length ≤ longestMessage

/-- Goes one round, or ends when all conversations are over. -/
def step {σ : Type} (c : Settings) (q : Query) (link : Link σ) (all : List Conversation) :
    Run σ (List Conversation ⊕ Answers) := do
  if all.all (·.isOver) then
    return .inr (Round.answers all)
  else
    let batch ← link.batch
    let now ← link.clock
    let (all, outputs) := Round.play c q now batch all
    Output.perform link outputs
    return .inl all

/-- Carries out queries with at most the given number of rounds. -/
def engine {σ : Type} (c : Settings) (link : Link σ) (rounds : Nat) : Engine σ := fun q => do
  match q.exchanges with
  | [] => Run.fail .invalidParameter
  | first :: later =>
    if !isSendable q then Run.fail .invalidParameter
    else
      let start ← link.clock
      match Instant.after? start (c.longestWait q.timeout) with
      | none =>
        Run.note (.timeoutOutOfRange q.timeout)
        Run.fail .invalidParameter
      | some limit =>
        let begun := q.targets.map (Conversation.begin c q first later start limit)
        Output.perform link (begun.flatMap (·.2))
        if q.timeout = .zero then
          Run.note .notWaiting
          return .empty
        else
          Run.loop (step c q link) rounds (begun.map (·.1))

/-- Tells targets that their tester is still there, and waits for no confirmation. -/
def keepAlive {σ : Type} (engine : Engine σ) (bus : UInt8) (targets : List Target) :
    Run σ Unit := do
  let _ ← engine { bus, targets, exchanges := [Uds.testerPresent true], timeout := .zero }

end EcuQuiet.IsoTp
