import RavBot.Gateway.CommandQueue.System

/-!
# Silent discards

Three operations throw waiting commands away without telling anyone and without forgetting
their ids: the interrupt inside `Submit`, `AbortSession`, and a dispatcher pass that batches
a lane.  `DiscardsOnly P` says that a step does so only to commands of the kind `P`.  It is
a condition on the state before the step, and the results about the id map and about the
answers to clients are stated for runs along which it holds, for two kinds `P`.
-/

namespace RavBot.Gateway.System

open RavBot.Lib

/-- Every waiting command that the step throws away without reporting it satisfies `P`. -/
def DiscardsOnly (P : QueuedCommand → Prop) (sys : System) : Action → Prop
  | .submit _ _ s =>
    ∀ c ∈ (sys.queue.getLane s.sessionKey).discardedBySubmit
      ((sys.queue.getLane s.sessionKey).effectiveMode s.mode), P c
  | .abortSession sessionKey => ∀ c ∈ (sys.queue.getLane sessionKey).pending.dropLast, P c
  | .dispatch now order =>
    CommandQueue.EachActivation (fun mode rest => ∀ c ∈ SessionLane.batched mode rest, P c)
      now order sys.queue
  | _ => True

/-- What a step throws away can be computed. -/
instance DiscardsOnly.instDecidable (P : QueuedCommand → Prop) [DecidablePred P] :
    ∀ sys a, Decidable (DiscardsOnly P sys a)
  | sys, .submit _ _ s =>
    inferInstanceAs (Decidable
      (∀ c ∈ (sys.queue.getLane s.sessionKey).discardedBySubmit
        ((sys.queue.getLane s.sessionKey).effectiveMode s.mode), P c))
  | sys, .abortSession sessionKey =>
    inferInstanceAs (Decidable
      (∀ c ∈ (sys.queue.getLane sessionKey).pending.dropLast, P c))
  | sys, .dispatch now order =>
    inferInstanceAs (Decidable
      (CommandQueue.EachActivation
        (fun mode rest => ∀ c ∈ SessionLane.batched mode rest, P c) now order sys.queue))
  | _, .cancel _ | _, .configureSession .. | _, .setConfig _ | _, .start _ | _, .respond ..
  | _, .complete _ => .isTrue trivial

end RavBot.Gateway.System
