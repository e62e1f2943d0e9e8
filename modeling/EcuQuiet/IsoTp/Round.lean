import EcuQuiet.IsoTp.Conversation

/-!
# Rounds

A round shows a batch of frames to all conversations of a query, one frame after the other, and
then lets each of them send and give up. It is a function of the batch, one reading of the clock
and the conversations alone; the outputs say what is to be done about it.
-/

namespace EcuQuiet.IsoTp.Round

/-- Applies a step to every conversation and collects what they want done. -/
def each (step : Conversation → Conversation × List Output) (all : List Conversation) :
    List Conversation × List Output :=
  let steps := all.map step
  (steps.map (·.1), steps.flatMap (·.2))

variable (c : Settings) (q : Query)

/-- Shows frames to every conversation, one frame after the other. -/
def deliver (now : Instant) : List Frame → List Conversation → List Conversation × List Output
  | [], all => (all, [])
  | f :: rest, all =>
    let (all, first) := each (Conversation.receive c q now f) all
    let (all, further) := deliver now rest all
    (all, first ++ further)

/-- One round: the batch, as far as it is of the queried bus, then the clock. -/
def play (now : Instant) (batch : List Frame) (all : List Conversation) :
    List Conversation × List Output :=
  let (all, heard) := deliver c q now (batch.filter (·.bus = q.bus)) all
  let (all, sent) := each (Conversation.tick c q now) all
  (all, heard ++ sent)

/-- The answers that conversations came to; of several with one target, the last one with an answer
counts. -/
def answers (all : List Conversation) : Answers := Answers.ofList (all.filterMap (·.answer?))

end EcuQuiet.IsoTp.Round
